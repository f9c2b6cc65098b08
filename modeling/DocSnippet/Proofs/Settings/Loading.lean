import DocSnippet.Files.Tree
import DocSnippet.Proofs.Settings.EditDistance
import DocSnippet.Proofs.Settings.TableOrder
import DocSnippet.Settings.Basic
import Mathlib.Data.List.Forall2
import Mathlib.Data.List.Induction

/-! Settings from a file. Every setting is read from its own key and from no other, so keys that are
not known have no effect on the settings. Each of them is told about once, in ascending order, and
the warning suggests the nearest of the known keys if a script of three edits or less leads to
one. -/

namespace DocSnippet

open Text Files EditDistance

namespace Settings

/-! ### Nearest keys -/

/-- No known key is nearer to `key` than `s`, and none in front of it is as near. -/
def IsNearest (key s : Text) : Prop :=
  ∃ front back, knownKeys = front ++ s :: back ∧ ∃ n, Script n key s ∧
    (∀ k ∈ front, ∀ m, Script m key k → n < m) ∧ ∀ k ∈ back, ∀ m, Script m key k → n ≤ m

theorem exists_of_nearest? {key s : Text} {ks : List Text} (h : nearest? key ks = some s) :
    ∃ front back, ks = front ++ s :: back ∧ (∀ k ∈ front, distance key s < distance key k) ∧
      ∀ k ∈ back, distance key s ≤ distance key k := by
  cases ks with
  | nil => simp [nearest?] at h
  | cons a as =>
    obtain rfl := Option.some.inj h
    clear h
    induction as using List.reverseRecOn with
    | nil => exact ⟨[], [], rfl, by simp, by simp⟩
    | append_singleton as b ih =>
      rw [List.foldl_append, List.foldl_cons, List.foldl_nil]
      generalize as.foldl (nearer key) a = s at ih
      obtain ⟨front, back, hks, hfront, hback⟩ := ih
      rw [← List.cons_append, hks, nearer]
      split
      next hb =>
        -- the new key is nearer than the nearest before, so it is nearer than all before
        refine ⟨front ++ s :: back, [], rfl, fun k hk => ?_, by simp⟩
        rcases List.mem_append.1 hk with hk | hk
        · exact hb.trans (hfront k hk)
        · rcases List.mem_cons.1 hk with rfl | hk
          · exact hb
          · exact hb.trans_le (hback k hk)
      next hb =>
        refine ⟨front, back ++ [b], by simp, hfront, fun k hk => ?_⟩
        rcases List.mem_append.1 hk with hk | hk
        · exact hback k hk
        · rw [List.mem_singleton.1 hk]
          exact Nat.le_of_not_lt hb

theorem isNearest_of_nearest? {key s : Text} (h : nearest? key knownKeys = some s) :
    IsNearest key s := by
  obtain ⟨front, back, hknown, hfront, hback⟩ := exists_of_nearest? h
  exact ⟨front, back, hknown, distance key s, script_distance key s,
    fun k hk m hm => (hfront k hk).trans_le (distance_le_of_script hm),
    fun k hk m hm => (hback k hk).trans (distance_le_of_script hm)⟩

theorem IsNearest.mem {key s : Text} (h : IsNearest key s) : s ∈ knownKeys := by
  obtain ⟨front, back, hknown, -⟩ := h
  simp [hknown]

theorem IsNearest.distance_le {key s k : Text} (h : IsNearest key s) (hk : k ∈ knownKeys) {m : Nat}
    (hm : Script m key k) : distance key s ≤ m := by
  obtain ⟨front, back, hknown, n, hn, hfront, hback⟩ := h
  have hns := distance_le_of_script hn
  rw [hknown, List.mem_append, List.mem_cons] at hk
  rcases hk with hk | rfl | hk
  · exact hns.trans (hfront k hk m hm).le
  · exact distance_le_of_script hm
  · exact hns.trans (hback k hk m hm)

/-! ### Warnings -/

/-- A warning about a key that is not known. It suggests a known key exactly if one is at most three
edits away, and then the nearest. -/
structure IsWarning (key : Text) (w : Warning) : Prop where
  about : w = .unknownKey key ∨ ∃ s, w = .misspelt key s
  suggests : (∃ s, w = .misspelt key s) ↔ ∃ k ∈ knownKeys, ∃ n ≤ 3, Script n key k
  nearest : ∀ s, w = .misspelt key s → IsNearest key s

theorem warning?_known {key : Text} (h : key ∈ knownKeys) : warning? key = none := by
  rw [warning?, if_pos (List.contains_iff_mem.2 h)]

theorem exists_warning? {key : Text} (h : key ∉ knownKeys) :
    ∃ w, warning? key = some w ∧ IsWarning key w := by
  obtain ⟨s, hs⟩ : ∃ s, nearest? key knownKeys = some s := ⟨_, rfl⟩
  have hnearest := isNearest_of_nearest? hs
  rw [warning?, if_neg (fun hc => h (List.contains_iff_mem.1 hc)), hs]
  refine ⟨_, rfl, ?_⟩
  by_cases hreach : distance key s ≤ reach
  · rw [if_pos hreach]
    have hscript : ∃ k ∈ knownKeys, ∃ n ≤ 3, Script n key k :=
      ⟨s, hnearest.mem, distance key s, hreach, script_distance key s⟩
    refine ⟨.inr ⟨s, rfl⟩, ⟨fun _ => hscript, fun _ => ⟨s, rfl⟩⟩, ?_⟩
    rintro u hu
    obtain ⟨-, rfl⟩ := Warning.misspelt.inj hu
    exact hnearest
  · rw [if_neg hreach]
    have hno (u : Text) : Warning.unknownKey key ≠ .misspelt key u := by simp
    refine ⟨.inl rfl, ⟨fun ⟨u, hu⟩ => absurd hu (hno u), ?_⟩, fun u hu => absurd hu (hno u)⟩
    rintro ⟨k, hk, m, hm, hscript⟩
    exact absurd ((hnearest.distance_le hk hscript).trans hm) hreach

/-- Every key that is not known has its warning, and no other key has one. -/
theorem forall₂_warnings (table : Toml.Table) :
    List.Forall₂ IsWarning ((table.map Prod.fst).filter fun key => key ∉ knownKeys)
      (warnings table) := by
  induction table with
  | nil => exact .nil
  | cons p table ih =>
    rw [warnings, List.map_cons]
    by_cases hp : p.1 ∈ knownKeys
    · rw [List.filter_cons_of_neg (by simpa using hp), List.filterMap_cons, warning?_known hp]
      exact ih
    · obtain ⟨w, hw, hwarning⟩ := exists_warning? hp
      rw [List.filter_cons_of_pos (by simpa using hp), List.filterMap_cons, hw]
      exact .cons hwarning ih

/-! ### Settings -/

/-- The value of a setting: what its key holds, if that is of the right kind, and else the one that
counts where nothing is given. -/
structure IsGiven {α β : Type} (table : Toml.Table) (key : Text) (kind : α → Toml.Value)
    (keep : α → β) (default value : β) : Prop where
  given : ∀ a, (key, kind a) ∈ table → value = keep a
  absent : (∀ a, (key, kind a) ∉ table) → value = default

structure IsGivenBy (s : Settings) (root : Path) (table : Toml.Table) : Prop where
  root_eq : s.root = root
  style : IsGiven table "style".toList .text id (standard root).style s.style
  template : IsGiven table "template".toList .text (fun t => some (Path.ofText t))
    (standard root).template? s.template?
  quote : IsGiven table "quote_style".toList .text id (standard root).quote s.quote
  startOnNewLine : IsGiven table "start_on_new_line".toList .bool id (standard root).startOnNewLine
    s.startOnNewLine
  includeName : IsGiven table "include_name".toList .bool id (standard root).includeName
    s.includeName
  guessTypes : IsGiven table "guess_types".toList .bool id (standard root).guessTypes s.guessTypes

theorem IsGiven.unique {α β : Type} {table table' : Toml.Table} {key : Text} {kind : α → Toml.Value}
    {keep : α → β} {default v v' : β} (h : IsGiven table key kind keep default v)
    (h' : IsGiven table' key kind keep default v')
    (hagree : ∀ x, (key, x) ∈ table ↔ (key, x) ∈ table') : v = v' := by
  by_cases hgiven : ∃ a, (key, kind a) ∈ table
  · obtain ⟨a, ha⟩ := hgiven
    rw [h.given a ha, h'.given a ((hagree _).1 ha)]
  · rw [not_exists] at hgiven
    rw [h.absent hgiven, h'.absent fun a ha => hgiven a ((hagree _).2 ha)]

/-- Tables that agree on the known keys give the same settings. -/
theorem IsGivenBy.unique {s s' : Settings} {root : Path} {table table' : Toml.Table}
    (h : s.IsGivenBy root table) (h' : s'.IsGivenBy root table')
    (hagree : ∀ key ∈ knownKeys, ∀ x, (key, x) ∈ table ↔ (key, x) ∈ table') : s = s' := by
  have hstyle := h.style.unique h'.style (hagree _ (by decide))
  have htemplate := h.template.unique h'.template (hagree _ (by decide))
  have hquote := h.quote.unique h'.quote (hagree _ (by decide))
  have hstart := h.startOnNewLine.unique h'.startOnNewLine (hagree _ (by decide))
  have hname := h.includeName.unique h'.includeName (hagree _ (by decide))
  have hguess := h.guessTypes.unique h'.guessTypes (hagree _ (by decide))
  have hroot := h.root_eq.trans h'.root_eq.symm
  cases s
  cases s'
  simp_all

section

variable {table : Toml.Table} (htable : Toml.IsAscending table)

include htable

theorem lookup_eq_some_iff_mem {key : Text} {v : Toml.Value} :
    table.lookup key = some v ↔ (key, v) ∈ table := by
  rw [List.lookup_eq_some_iff]
  constructor
  · rintro ⟨front, back, rfl, -⟩
    simp
  · intro h
    obtain ⟨front, back, rfl⟩ := List.append_of_mem h
    refine ⟨front, back, rfl, fun p hp => ?_⟩
    rw [Toml.IsAscending, List.map_append, List.pairwise_append] at htable
    have hlt : p.1 < key := htable.2.2 p.1 (List.mem_map_of_mem hp) key (by simp)
    rw [bne_iff_ne]
    rintro rfl
    exact List.lt_irrefl _ hlt

theorem text?_eq_some_iff {key t : Text} : text? table key = some t ↔ (key, .text t) ∈ table := by
  rw [← lookup_eq_some_iff_mem htable, text?]
  split
  next u hu => simp [hu]
  next hno => exact ⟨fun h => by simp at h, fun h => absurd h (hno t)⟩

theorem bool?_eq_some_iff {key : Text} {b : Bool} :
    bool? table key = some b ↔ (key, .bool b) ∈ table := by
  rw [← lookup_eq_some_iff_mem htable, bool?]
  split
  next u hu => simp [hu]
  next hno => exact ⟨fun h => by simp at h, fun h => absurd h (hno b)⟩

end

theorem isGiven_of_read {α β : Type} {table : Toml.Table} {key : Text} {kind : α → Toml.Value}
    {keep : α → β} {default value : β} {read : Option α}
    (hread : ∀ {a}, read = some a ↔ (key, kind a) ∈ table)
    (hvalue : value = (read.map keep).getD default) :
    IsGiven table key kind keep default value where
  given a ha := by rw [hvalue, hread.2 ha, Option.map_some, Option.getD_some]
  absent hno := by
    have hnone : read = none := Option.eq_none_iff_forall_ne_some.2 fun a ha => hno a (hread.1 ha)
    rw [hvalue, hnone, Option.map_none, Option.getD_none]

theorem isGivenBy_ofTable {table : Toml.Table} (htable : Toml.IsAscending table) (root : Path) :
    (ofTable root table).IsGivenBy root table where
  root_eq := rfl
  style := isGiven_of_read (text?_eq_some_iff htable) (by rw [Option.map_id]; rfl)
  template := isGiven_of_read (text?_eq_some_iff htable) <| by
    rw [ofTable]
    cases text? table "template".toList <;> rfl
  quote := isGiven_of_read (text?_eq_some_iff htable) (by rw [Option.map_id]; rfl)
  startOnNewLine := isGiven_of_read (bool?_eq_some_iff htable) (by rw [Option.map_id]; rfl)
  includeName := isGiven_of_read (bool?_eq_some_iff htable) (by rw [Option.map_id]; rfl)
  guessTypes := isGiven_of_read (bool?_eq_some_iff htable) (by rw [Option.map_id]; rfl)

/-- Whether a reader finds a table in the settings file of a project. -/
def HoldsTable (reader : Toml.Reader) (disk : Disk) (root : Path) (table : Toml.Table) : Prop :=
  disk.has (filePath root) ∧
    ∃ content, disk.read (filePath root) = .ok content ∧ reader content = some table

theorem load_eq {reader : Toml.Reader} {disk : Disk} {root : Path} {table : Toml.Table}
    (h : HoldsTable reader disk root table) :
    load reader disk root = (ofTable root table, warnings table) := by
  obtain ⟨hhas, content, hread, htable⟩ := h
  rw [load, if_pos hhas, hread]
  simp only [htable]

/-- Every setting is read from its own key, so two settings files that agree on the known keys give
the same settings. There is one warning for each unknown key, in ascending order. It suggests a key
exactly if a known one is at most three edits away, and that is the first of the nearest. -/
theorem load_table {reader : Toml.Reader} {disk : Disk} {root : Path} {table : Toml.Table}
    (htable : HoldsTable reader disk root table) (hascending : Toml.IsAscending table) :
    (load reader disk root).1.IsGivenBy root table ∧
      (∀ reader' disk' table', HoldsTable reader' disk' root table' → Toml.IsAscending table' →
        (∀ key ∈ knownKeys, ∀ v, (key, v) ∈ table' ↔ (key, v) ∈ table) →
        (load reader' disk' root).1 = (load reader disk root).1) ∧
      ∃ unknown : List Text, unknown.Pairwise (· < ·) ∧
        (∀ key, key ∈ unknown ↔ key ∉ knownKeys ∧ ∃ v, (key, v) ∈ table) ∧
        List.Forall₂ IsWarning unknown (load reader disk root).2 := by
  have hgiven := isGivenBy_ofTable hascending root
  rw [load_eq htable]
  refine ⟨hgiven, fun reader' disk' table' htable' hascending' hagree => ?_, _,
    hascending.filter _, ?_, forall₂_warnings table⟩
  · rw [load_eq htable']
    exact (isGivenBy_ofTable hascending' root).unique hgiven hagree
  · intro key
    simp [and_comm]

def projectOf (settings : Text) : Tree :=
  .ofList "/p".toList [(fileName, .text settings)]

/-- A misspelt key and one that is like no other have no effect on the settings, and neither has a
known key with a number in place of a text. -/
theorem load_table_misspelt :
    let root : Path := .absolute "/p".toList
    let disk :=
      (projectOf "styel = 'google'\nstyle = 1\nguess_types = false\nindent = 2".toList).disk
    let table : Toml.Table :=
      [("guess_types".toList, .bool false), ("indent".toList, .other),
        ("styel".toList, .text "google".toList), ("style".toList, .other)]
    let disk' := (projectOf "style = 1\nguess_types = false".toList).disk
    let table' : Toml.Table := [("guess_types".toList, .bool false), ("style".toList, .other)]
    (HoldsTable Toml.table? disk root table ∧ HoldsTable Toml.table? disk' root table' ∧
        ∀ key ∈ knownKeys, ∀ v, (key, v) ∈ table' ↔ (key, v) ∈ table) ∧
      (load Toml.table? disk root).1.guessTypes = false ∧
      (load Toml.table? disk root).1.style = "numpy".toList ∧
      (load Toml.table? disk' root).1 = (load Toml.table? disk root).1 ∧
      (load Toml.table? disk root).2 =
        [.unknownKey "indent".toList, .misspelt "styel".toList "style".toList] := by
  intro root disk table disk' table'
  have hcontent : Toml.table? "styel = 'google'\nstyle = 1\nguess_types = false\nindent = 2".toList =
      some table := by decide +kernel
  have hcontent' : Toml.table? "style = 1\nguess_types = false".toList = some table' := by
    decide +kernel
  have htable : HoldsTable Toml.table? disk root table := ⟨by decide +kernel, _, rfl, hcontent⟩
  have htable' : HoldsTable Toml.table? disk' root table' := ⟨by decide +kernel, _, rfl, hcontent'⟩
  have hagree : ∀ key ∈ knownKeys, ∀ v, (key, v) ∈ table' ↔ (key, v) ∈ table := by
    intro key hkey v
    have hne : ∀ key ∈ knownKeys, key ≠ "indent".toList ∧ key ≠ "styel".toList := by decide
    obtain ⟨hindent, hstyel⟩ := hne key hkey
    simp only [table, table', List.mem_cons, Prod.mk.injEq, hindent, hstyel, false_and, false_or]
  obtain ⟨hgiven, hsame, -⟩ := load_table htable (Toml.isAscending_table? hcontent)
  refine ⟨⟨htable, htable', hagree⟩, hgiven.guessTypes.given false (by decide), ?_,
    hsame _ disk' table' htable' (Toml.isAscending_table? hcontent') hagree, by decide +kernel⟩
  exact hgiven.style.absent fun t ht => by simp [table] at ht

end Settings

end DocSnippet

import DocSnippet.Definition.Parse
import Mathlib.Data.List.TakeWhile

/-! The end of a body. The body is the run of visible lines that reach the floor, so the first
visible line left of the floor ends it: nothing below such a line is read, neither for the body nor
for its floor. The look-ahead at blank lines only ends the scan where it would end anyway. -/

namespace DocSnippet.Source

open Text

namespace Body

def visible (ls : List Text) : List Text := ls.filter fun l => !isBlank l

def reaches (floor : Nat) (l : Text) : Bool := floor ≤ indentWidth l

theorem reaches_eq_false {floor : Nat} {l : Text} (h : indentWidth l < floor) :
    reaches floor l = false := by
  simp only [reaches, decide_eq_false_iff_not]
  omega

/-- Where the look-ahead ends the scan, the next visible line ends it too. -/
theorem takeWhile_visible_of_endsBefore {floor : Nat} {ls : List Text}
    (h : endsBefore floor ls) : (visible ls).takeWhile (reaches floor) = [] := by
  rw [endsBefore, ← List.head?_filter] at h
  rw [visible]
  cases hv : ls.filter fun l => !isBlank l with
  | nil => rfl
  | cons next rest =>
    simp only [hv, List.head?_cons, Bool.and_eq_true, decide_eq_true_eq] at h
    simp [reaches_eq_false h.1]

/-- The body is the longest run of visible lines that reach the floor. -/
theorem block_eq_takeWhile (floor : Nat) (ls : List Text) :
    block floor ls = (visible ls).takeWhile (reaches floor) := by
  induction ls with
  | nil => rfl
  | cons l ls ih =>
    rw [block]
    by_cases hb : isBlank l
    · have hv : visible (l :: ls) = visible ls := by simp [visible, hb]
      rw [if_pos hb, hv]
      split
      next he => rw [takeWhile_visible_of_endsBefore he]
      next => exact ih
    · have hv : visible (l :: ls) = l :: visible ls := by simp [visible, hb]
      rw [if_neg hb, hv]
      by_cases hl : indentWidth l < floor
      · simp [hl, reaches_eq_false hl]
      · have hr : reaches floor l = true := by
          simp only [reaches, decide_eq_true_eq]
          omega
        simp [hl, hr, ih]

theorem floor_eq (ls : List Text) :
    floor ls = ((visible ls).head?.map fun l =>
      if isHeaderLike l then unreachable else indentWidth l).getD unreachable := by
  induction ls with
  | nil => rfl
  | cons l ls ih =>
    rw [floor]
    by_cases hb : isBlank l
    · simpa [visible, hb] using ih
    · simp [visible, hb]

/-- Behind a visible line that does not reach the floor nothing belongs to the body. -/
theorem block_append_cons {floor : Nat} {l : Text} (hb : ¬isBlank l) (hl : indentWidth l < floor)
    (xs ys : List Text) : block floor (xs ++ l :: ys) = block floor xs := by
  have hv : visible (xs ++ l :: ys) = visible xs ++ l :: visible ys := by simp [visible, hb]
  rw [block_eq_takeWhile, block_eq_takeWhile, hv, List.takeWhile_append]
  split
  next hlen => simp [reaches_eq_false hl, (List.takeWhile_prefix (reaches floor)).eq_of_length hlen]
  next => rfl

theorem floor_append_cons {l : Text} (hb : ¬isBlank l) (xs ys zs : List Text) :
    floor (xs ++ l :: ys) = floor (xs ++ l :: zs) := by
  have hv : ∀ us, (visible (xs ++ l :: us)).head? = (visible xs ++ [l]).head? := by
    intro us
    simp [visible, hb, List.head?_append]
  rw [floor_eq, floor_eq, hv ys, hv zs]

/-- A line left of the floor hides the lines behind it from the scan for the body. -/
theorem scan_append_cons {l : Text} {xs ys : List Text} (hb : ¬isBlank l)
    (hl : indentWidth l < floor (xs ++ l :: ys)) (zs : List Text) :
    block (floor (xs ++ l :: ys)) (xs ++ l :: ys) =
      block (floor (xs ++ l :: zs)) (xs ++ l :: zs) := by
  have hfloor := floor_append_cons hb xs ys zs
  rw [← hfloor, block_append_cons hb hl, block_append_cons hb hl]

theorem block_cons_of_isBlank {l : Text} (h : isBlank l) (floor : Nat) (ls : List Text) :
    block floor (l :: ls) = block floor ls := by
  have hv : visible (l :: ls) = visible ls := by simp [visible, h]
  rw [block_eq_takeWhile, hv, block_eq_takeWhile]

theorem le_indentWidth_of_mem_block {floor : Nat} {l : Text} {ls : List Text}
    (h : l ∈ block floor ls) : floor ≤ indentWidth l := by
  rw [block_eq_takeWhile] at h
  simpa [reaches] using List.mem_takeWhile_imp h

/-- A first part that reaches the floor belongs to the body as a whole. -/
theorem isPrefix_block {floor : Nat} {ms ls : List Text} (hms : ms <+: visible ls)
    (h : ∀ l ∈ ms, floor ≤ indentWidth l) : ms <+: block floor ls := by
  obtain ⟨rest, hrest⟩ := hms
  have hreach : ∀ l ∈ ms, reaches floor l = true := by simpa [reaches] using h
  rw [block_eq_takeWhile, ← hrest, List.takeWhile_append_of_pos hreach]
  exact List.prefix_append ..

/-- The body below a cursor is a plain scan for the first dedent: cleaned, the longest first part of
the visible lines that are indented as far as the floor. The floor is the indentation of the first
visible line, and out of reach if there is none or it opens a definition. The look-ahead at a blank
line never changes what is found. -/
theorem below_longest_run (document : Text) (line : Nat) :
    let ls := (lines document).drop line
    (floor ls =
      match (visible ls).head? with
      | some l => if isHeaderLike l then 10000 else indentWidth l
      | none => 10000) ∧
    (∃ run, run <+: visible ls ∧ (∀ l ∈ run, floor ls ≤ indentWidth l) ∧
      (∀ ms, ms <+: visible ls → (∀ l ∈ ms, floor ls ≤ indentWidth l) → ms <+: run) ∧
      below document line = cleanLines run) ∧
    ∀ floor l ms, isBlank l → block floor (l :: ms) = block floor ms := by
  intro ls
  have hrun : block (floor ls) ls <+: visible ls := by
    rw [block_eq_takeWhile]
    exact List.takeWhile_prefix _
  refine ⟨?_, ⟨block (floor ls) ls, hrun, fun l => le_indentWidth_of_mem_block,
    fun ms => isPrefix_block, rfl⟩, fun floor l ms h => block_cons_of_isBlank h floor ms⟩
  rw [floor_eq]
  cases (visible ls).head? <;> rfl

end Body

/-! ### Documents -/

theorem drop_lines_eq {A l : Text} {line e : Nat} (he : line ≤ e) (h : (lines A)[e]? = some l) :
    (lines A).drop line = ((lines A).take e).drop line ++ l :: (lines A).drop (e + 1) := by
  obtain ⟨hlt, rfl⟩ := List.getElem?_eq_some_iff.1 h
  have hlen : line ≤ ((lines A).take e).length := by
    rw [List.length_take]
    omega
  rw [← List.drop_append_of_le_length hlen, ← List.drop_eq_getElem_cons hlt,
    List.take_append_drop]

/-- What stands below the first line left of the floor has no part in the definition around the
cursor, nor in the indentation of its docstring. -/
theorem below_dedent_unread {A B l : Text} {line e : Nat} (he : line ≤ e)
    (hl : (lines A)[e]? = some l) (hAB : (lines A).take (e + 1) = (lines B).take (e + 1))
    (hb : ¬isBlank l) (hfloor : indentWidth l < Body.floor ((lines A).drop line)) :
    Definition.parse A line = Definition.parse B line ∧
      ∀ step, docstringIndentation A line step = docstringIndentation B line step := by
  have htake : ∀ n, n ≤ e + 1 → (lines A).take n = (lines B).take n := by
    intro n hn
    rw [← Nat.min_eq_left hn, ← List.take_take, hAB, List.take_take]
  have hlB : (lines B)[e]? = some l := by
    have := congrArg (·[e]?) hAB
    simpa [List.getElem?_take, hl] using this.symm
  have hA := drop_lines_eq he hl
  have hB := drop_lines_eq he hlB
  rw [← htake e (by omega)] at hB
  have hbody : Body.below A line = Body.below B line := by
    rw [hA] at hfloor
    rw [Body.below, Body.below, hA, hB, Body.scan_append_cons hb hfloor]
  refine ⟨?_, fun step => ?_⟩
  · rw [Definition.parse, Header.above?, Header.linesAbove, htake line (by omega), hbody,
      Definition.parse, Header.above?, Header.linesAbove]
  · rw [docstringIndentation, htake line (by omega), docstringIndentation]

/-- A dataclass, and below its body another dataclass or lines that would raise and return. -/
theorem below_dedent_unread_sibling :
    let A := "@dataclass\nclass Man:\n    name: str\n\n@dataclass\nclass Firm:\n    tax: int".toList
    let B := "@dataclass\nclass Man:\n    name: str\n\n@dataclass\n    raise E\n    return 1".toList
    ((lines A)[4]? = some "@dataclass".toList ∧ (lines A).take 5 = (lines B).take 5 ∧
      ¬isBlank "@dataclass".toList ∧
      indentWidth "@dataclass".toList < Body.floor ((lines A).drop 2)) ∧
    Definition.parse A 2 = Definition.parse B 2 ∧
      ∀ step, docstringIndentation A 2 step = docstringIndentation B 2 step :=
  ⟨by decide +kernel, below_dedent_unread (l := "@dataclass".toList) (e := 4) (by decide)
    (by decide +kernel) (by decide +kernel) (by decide +kernel) (by decide +kernel)⟩

end DocSnippet.Source

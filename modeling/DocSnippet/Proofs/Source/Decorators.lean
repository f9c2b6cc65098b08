import DocSnippet.Proofs.Source.HeaderText
import DocSnippet.Proofs.Source.Layout

/-! The decorators of a class. The header of a class starts inside exactly one of the cleaned lines
above the cursor, and counting bytes finds that line: the first character of a header is no blank,
so it is none of those that join the lines. The decorators are then the lines with `@` in the
longest run of empty and decorator lines right above it. -/

namespace DocSnippet.Source

open Text

namespace Header

/-! ### The line of an offset -/

/-- How many bytes precede the line number `i` in the lines joined by blanks. -/
def lineStart (ls : List Text) (i : Nat) : Nat := byteSize ((ls.take i).flatMap (· ++ [' ']))

theorem lineStart_zero (ls : List Text) : lineStart ls 0 = 0 := by
  simp [lineStart]

theorem lineStart_cons_succ (l : Text) (ls : List Text) (i : Nat) :
    lineStart (l :: ls) (i + 1) = byteSize l + 1 + lineStart ls i := by
  have hblank : ' '.utf8Size = 1 := rfl
  simp [lineStart, hblank, Nat.add_assoc]

/-- The byte `offset` of the lines joined by blanks is a byte of the line number `i`. -/
def InLine (ls : List Text) (offset i : Nat) : Prop :=
  ∃ l, ls[i]? = some l ∧ lineStart ls i ≤ offset ∧ offset < lineStart ls i + byteSize l

theorem inLine_zero {l : Text} {ls : List Text} {offset : Nat} :
    InLine (l :: ls) offset 0 ↔ offset < byteSize l := by
  simp [InLine, lineStart_zero]

theorem inLine_succ {l : Text} {ls : List Text} {offset i : Nat} :
    InLine (l :: ls) (byteSize l + 1 + offset) (i + 1) ↔ InLine ls offset i := by
  simp only [InLine, List.getElem?_cons_succ, lineStart_cons_succ]
  constructor
  · rintro ⟨m, hm, hle, hlt⟩
    exact ⟨m, hm, by omega, by omega⟩
  · rintro ⟨m, hm, hle, hlt⟩
    exact ⟨m, hm, by omega, by omega⟩

theorem InLine.lt_length {ls : List Text} {offset i : Nat} (h : InLine ls offset i) :
    i < ls.length := by
  obtain ⟨l, hl, -⟩ := h
  exact (List.getElem?_eq_some_iff.1 hl).1

theorem InLine.lineAt?_eq {ls : List Text} {offset i : Nat} (h : InLine ls offset i) :
    lineAt? ls offset = some i := by
  induction ls generalizing offset i with
  | nil => exact absurd h.lt_length (by simp)
  | cons l ls ih =>
    cases i with
    | zero =>
      have hlt := inLine_zero.1 h
      rw [lineAt?, if_pos (by omega)]
    | succ i =>
      have hle : byteSize l + 1 ≤ offset := by
        obtain ⟨m, -, hle, -⟩ := h
        rw [lineStart_cons_succ] at hle
        omega
      obtain ⟨k, rfl⟩ := Nat.exists_eq_add_of_le hle
      rw [lineAt?, if_neg (by omega), Nat.add_sub_cancel_left, ih (inLine_succ.1 h)]
      rfl

theorem exists_inLine {ls : List Text} {s r : Text} {c : Char} (hc : c ≠ ' ')
    (h : join [' '] ls = s ++ c :: r) : ∃ i, InLine ls (byteSize s) i := by
  induction ls generalizing s with
  | nil => simp [join] at h
  | cons l ls ih =>
    have hfirst : ∀ u, l = s ++ c :: u → InLine (l :: ls) (byteSize s) 0 := by
      rintro u rfl
      have := c.utf8Size_pos
      rw [inLine_zero, byteSize_append, byteSize_cons]
      omega
    by_cases hls : ls = []
    · subst hls
      exact ⟨0, hfirst r h⟩
    · rw [join_cons _ _ hls, List.append_assoc, List.singleton_append] at h
      rcases List.append_eq_append_iff.1 h with ⟨u, rfl, hu⟩ | ⟨u, rfl, hu⟩
      · -- the character stands behind `l`, and the first one there is the joining blank
        cases u with
        | nil => exact absurd (List.cons.inj hu).1.symm hc
        | cons d u =>
          obtain ⟨rfl, htail⟩ := List.cons.inj hu
          obtain ⟨i, hi⟩ := ih htail
          refine ⟨i + 1, ?_⟩
          have hsize : byteSize (l ++ ' ' :: u) = byteSize l + 1 + byteSize u := by
            rw [byteSize_append, byteSize_cons, ← Nat.add_assoc]
            rfl
          rw [hsize, inLine_succ]
          exact hi
      · cases u with
        | nil => exact absurd (List.cons.inj hu).1 hc
        | cons d u =>
          obtain ⟨rfl, -⟩ := List.cons.inj hu
          exact ⟨0, hfirst u rfl⟩

/-! ### The walk up -/

/-- Whether the walk up goes on over a line. -/
def isDecoration (l : Text) : Bool := l.isEmpty || startsWith ['@'] l

theorem decoratorsUp_eq {ls : List Text} (h : ∀ l ∈ ls, trim l = l) :
    decoratorsUp ls = (ls.takeWhile isDecoration).filter (startsWith ['@']) := by
  induction ls with
  | nil => rfl
  | cons l ls ih =>
    obtain ⟨hl, hls⟩ := List.forall_mem_cons.1 h
    rw [decoratorsUp, hl, ih hls]
    by_cases hat : startsWith ['@'] l
    · simp [isDecoration, hat]
    · by_cases hempty : l.isEmpty <;> simp [isDecoration, hat, hempty]

/-- The decorators collected above some trimmed lines are those of a longest run. -/
theorem exists_run_decoratorsUp {ls : List Text} (h : ∀ l ∈ ls, trim l = l) :
    ∃ top run, ls = top ++ run ∧ (∀ l ∈ run, l = [] ∨ startsWith ['@'] l) ∧
      (∀ l ∈ top.getLast?, l ≠ [] ∧ ¬startsWith ['@'] l) ∧
      (decoratorsUp ls.reverse).reverse = run.filter (startsWith ['@']) := by
  refine ⟨ls.rdropWhile isDecoration, ls.rtakeWhile isDecoration,
    (List.rdropWhile_append_rtakeWhile ..).symm, fun l hl => ?_, fun l hl => ?_, ?_⟩
  · simpa [isDecoration] using List.mem_rtakeWhile_imp hl
  · have hne : ls.rdropWhile isDecoration ≠ [] := by
      rintro hnil
      simp [hnil] at hl
    have hlast := List.rdropWhile_last_not isDecoration ls hne
    rw [List.getLast?_eq_some_getLast hne, Option.mem_some_iff] at hl
    simpa [hl, isDecoration] using hlast
  · rw [decoratorsUp_eq fun l hl => h l (List.mem_reverse.1 hl), List.rtakeWhile,
      List.filter_reverse]

end Header

/-! ### Where a header starts -/

theorem exists_word_of_lastDefinition? {t : Text} {p : Place} (h : lastDefinition? t = some p) :
    t = p.before.reverse ++ p.rest ∧ ∃ c r, p.rest = c :: r ∧ isWord c := by
  obtain ⟨a, w, r, hlast, hstart⟩ := exists_of_lastDefinition? h
  rcases hstart with ⟨left, gap, -, hasync, rfl⟩ | ⟨-, rfl⟩
  · exact ⟨by simp [hlast.eq, hasync.eq], 'a', _, rfl, rfl⟩
  · obtain ⟨c, s, rfl, hc, -⟩ := hlast.keywordAt.keyword.exists_cons
    exact ⟨by simp [hlast.eq], c, s ++ r, rfl, hc⟩

namespace Header

theorem exists_of_ofLines?_eq_some {ls : List Text} {header : Header}
    (h : ofLines? ls = some header) :
    ∃ p, lastDefinition? (join [' '] ls) = some p ∧ header.text = trim p.rest ∧
      header.decorators =
        if isClassHeader header.text then
          (decoratorsUp (ls.take (lineAt ls (byteSize p.before))).reverse).reverse
        else [] := by
  rw [ofLines?] at h
  split at h
  next => simp at h
  next last _ =>
    split at h
    next => simp at h
    next =>
      obtain ⟨p, hp, rfl⟩ := Option.map_eq_some_iff.1 h
      exact ⟨p, hp, rfl, rfl⟩

/-- The last definition starts inside exactly one line, and that line is found. -/
theorem exists_lineAt?_of_lastDefinition? {ls : List Text} {p : Place}
    (h : lastDefinition? (join [' '] ls) = some p) :
    ∃ i, (∀ j, InLine ls (byteSize p.before) j ↔ j = i) ∧
      lineAt? ls (byteSize p.before) = some i := by
  obtain ⟨hjoin, c, r, hrest, hc⟩ := exists_word_of_lastDefinition? h
  rw [hrest] at hjoin
  obtain ⟨i, hi⟩ := exists_inLine (ne_of_isWord hc rfl) hjoin
  rw [byteSize_reverse] at hi
  refine ⟨i, fun j => ⟨fun hj => ?_, fun hj => hj ▸ hi⟩, hi.lineAt?_eq⟩
  exact Option.some.inj (hj.lineAt?_eq.symm.trans hi.lineAt?_eq)

/-- Only a class has decorators, and it has those of the longest run of empty and decorator lines
above the line in which its header starts. -/
theorem decorators_above (document : Text) (line : Nat) :
    let header := above document line
    let ls := linesAbove document line
    (¬isClassHeader header.text → header.decorators = []) ∧
    (isClassHeader header.text →
      ∃ p i, lastDefinition? (join [' '] ls) = some p ∧
        join [' '] ls = p.before.reverse ++ p.rest ∧ header.text = trim p.rest ∧
        (∀ j, InLine ls (byteSize p.before) j ↔ j = i) ∧
        lineAt? ls (byteSize p.before) = some i ∧ lineAt ls (byteSize p.before) = i ∧
        i < ls.length ∧
        ∃ top run, ls.take i = top ++ run ∧ (∀ l ∈ run, l = [] ∨ startsWith ['@'] l) ∧
          (∀ l ∈ top.getLast?, l ≠ [] ∧ ¬startsWith ['@'] l) ∧
          header.decorators = run.filter (startsWith ['@'])) := by
  intro header ls
  cases habove : above? document line with
  | none =>
    have hheader : header = ⟨[], []⟩ := by simp [header, above, habove]
    rw [hheader]
    exact ⟨fun _ => rfl, fun hclass => absurd hclass (by decide)⟩
  | some found =>
    obtain rfl : found = header := by simp [header, above, habove]
    obtain ⟨p, hp, htext, hdecorators⟩ := exists_of_ofLines?_eq_some habove
    refine ⟨fun hclass => by rw [hdecorators, if_neg hclass], fun hclass => ?_⟩
    obtain ⟨i, hunique, hline⟩ := exists_lineAt?_of_lastDefinition? hp
    have hlineAt : lineAt ls (byteSize p.before) = i := by rw [lineAt, hline, Option.getD_some]
    have htrim : ∀ l ∈ ls.take i, trim l = l :=
      fun l hl => trim_of_mem_cleanLines (List.mem_of_mem_take hl)
    obtain ⟨top, run, hsplit, hrun, htop, hup⟩ := exists_run_decoratorsUp htrim
    refine ⟨p, i, hp, (exists_word_of_lastDefinition? hp).1, htext, hunique, hline, hlineAt,
      ((hunique i).2 rfl).lt_length, top, run, hsplit, hrun, htop, ?_⟩
    rw [hdecorators, if_pos hclass, hlineAt, hup]

/-- A line of two-byte characters, a comment and an empty line between the decorators, and the
decorator of another class further up. -/
theorem decorators_above_bytes :
    let document := unlines (["@old", "class É: ñ = 1", "@dataclass(frozen=True)", "# class", "",
      "@total_ordering", "class Zoë(Base,", "  Other):", "  x: int"].map String.toList)
    let header := above document 8
    let ls := linesAbove document 8
    (isClassHeader header.text ∧
      header.decorators = ["@dataclass(frozen=True)".toList, "@total_ordering".toList]) ∧
      ∃ p i, lastDefinition? (join [' '] ls) = some p ∧
        join [' '] ls = p.before.reverse ++ p.rest ∧ header.text = trim p.rest ∧
        (∀ j, InLine ls (byteSize p.before) j ↔ j = i) ∧
        lineAt? ls (byteSize p.before) = some i ∧ lineAt ls (byteSize p.before) = i ∧
        i < ls.length ∧
        ∃ top run, ls.take i = top ++ run ∧ (∀ l ∈ run, l = [] ∨ startsWith ['@'] l) ∧
          (∀ l ∈ top.getLast?, l ≠ [] ∧ ¬startsWith ['@'] l) ∧
          header.decorators = run.filter (startsWith ['@']) := by
  intro document header ls
  have hclass : isClassHeader header.text := by decide +kernel
  exact ⟨⟨hclass, by decide +kernel⟩, (decorators_above document 8).2 hclass⟩

end Header

end DocSnippet.Source

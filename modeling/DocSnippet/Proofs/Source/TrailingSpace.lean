import DocSnippet.Docstring.Generator
import DocSnippet.Proofs.Source.Keyword
import DocSnippet.Proofs.Text.Trim

/-! Line endings and trailing white space. Every test that looks at a raw line is blind to the white
space at its end, a carriage return included. So a document can be read line by line with its ends
trimmed, and two documents that agree after this trim have the same definition, the same docstring
indentation and the same docstring at every cursor line. -/

namespace DocSnippet.Source

open Text Template

/-! ### One line -/

theorem trimEnd_append_cons {c : Char} (hc : ¬isSpace c) (s t : Text) :
    trimEnd (s ++ c :: t) = s ++ c :: trimEnd t := by
  obtain ⟨u, hu, ht⟩ := exists_eq_trimEnd_append t
  have hlast : ∀ d ∈ (s ++ c :: trimEnd t).getLast?, ¬isSpace d := by
    intro d hd
    cases h : trimEnd t with
    | nil =>
      rw [h] at hd
      simp only [List.getLast?_append, List.getLast?_singleton, Option.some_or, Option.mem_def,
        Option.some.injEq] at hd
      exact hd ▸ hc
    | cons e r =>
      refine trimEnd_eq_self_iff.1 (trimEnd_trimEnd t) d ?_
      rw [h] at hd ⊢
      simpa [List.getLast?_append, List.getLast?_cons] using hd
  conv_lhs => rw [ht]
  rw [← List.cons_append, ← List.append_assoc, trimEnd_append_of_space _ hu,
    trimEnd_eq_self_iff.2 hlast]

/-- The indentation of a visible line ends before its last visible character. -/
theorem indentation_append_of_visible {l : Text} (h : ¬isBlank l) (t : Text) :
    indentation (l ++ t) = indentation l := by
  have hstop : (l.takeWhile fun c => isSpace c && c != '\r').length ≠ l.length := by
    intro hlen
    have hall := List.takeWhile_eq_self_iff.1
      ((List.takeWhile_prefix fun c => isSpace c && c != '\r').eq_of_length hlen)
    apply h
    rw [isBlank_iff]
    intro c hc
    have := hall c hc
    simp only [Bool.and_eq_true] at this
    exact this.1
  rw [indentation, List.takeWhile_append, if_neg hstop, indentation]

theorem indentation_trimEnd {l : Text} (h : ¬isBlank l) :
    indentation (trimEnd l) = indentation l := by
  obtain ⟨s, -, hl⟩ := exists_eq_trimEnd_append l
  have hvisible : ¬isBlank (trimEnd l) := by rwa [isBlank_trimEnd]
  conv_rhs => rw [hl, indentation_append_of_visible hvisible]

theorem indentWidth_trimEnd {l : Text} (h : ¬isBlank l) :
    indentWidth (trimEnd l) = indentWidth l := by
  rw [indentWidth, indentation_trimEnd h, indentWidth]

theorem word?_after?_isSome_iff {p t : Text} :
    ((after? p t).bind word?).isSome ↔ ∃ c r, t = p ++ c :: r ∧ isWord c := by
  cases h : after? p t with
  | none =>
    have hne : ∀ r, t ≠ p ++ r := fun r hr => by
      rw [after?_eq_some_iff.2 hr] at h
      simp at h
    simp [hne]
  | some v =>
    rw [Option.bind_some, word?_isSome_iff, after?_eq_some_iff.1 h]
    simp

theorem word?_after?_trimEnd (p t : Text) :
    ((after? p (trimEnd t)).bind word?).isSome = ((after? p t).bind word?).isSome := by
  rw [Bool.eq_iff_iff, word?_after?_isSome_iff, word?_after?_isSome_iff]
  constructor
  · rintro ⟨c, r, hr, hc⟩
    obtain ⟨s, -, hs⟩ := exists_eq_trimEnd_append t
    exact ⟨c, r ++ s, by rw [hs, hr]; simp, hc⟩
  · rintro ⟨c, r, rfl, hc⟩
    exact ⟨c, trimEnd r, trimEnd_append_cons (not_isSpace_of_isWord hc) p r, hc⟩

theorem isHeaderLike_trimEnd (l : Text) : isHeaderLike (trimEnd l) = isHeaderLike l := by
  simp only [isHeaderLike, trimStart_trimEnd, trim, word?_after?_trimEnd]

theorem startsDefinition_trimEnd (l : Text) :
    startsDefinition (trimEnd l) = startsDefinition l := by
  simp only [startsDefinition, trim_trimEnd]

theorem isDefinitionLine_trimEnd (l : Text) :
    isDefinitionLine (trimEnd l) = isDefinitionLine l := by
  obtain ⟨s, hs, hl⟩ := exists_eq_trimEnd_append l
  conv_rhs => rw [hl, isDefinitionLine_append_space _ hs]

/-! ### Lists of lines -/

theorem cleanLines_map_trimEnd (ls : List Text) : cleanLines (ls.map trimEnd) = cleanLines ls := by
  have hcomment : (fun l => !isCommentLine l) ∘ trimEnd = fun l => !isCommentLine l := by
    funext l
    simp [isCommentLine]
  simp only [cleanLines, List.filter_map, List.map_map, hcomment]
  congr 1
  funext l
  simp

theorem floor_map_trimEnd (ls : List Text) : Body.floor (ls.map trimEnd) = Body.floor ls := by
  induction ls with
  | nil => rfl
  | cons l ls ih =>
    simp only [List.map_cons, Body.floor, isBlank_trimEnd, isHeaderLike_trimEnd, ih]
    by_cases hb : isBlank l
    · simp [hb]
    · simp only [hb, indentWidth_trimEnd hb]

theorem endsBefore_map_trimEnd (floor : Nat) (ls : List Text) :
    Body.endsBefore floor (ls.map trimEnd) = Body.endsBefore floor ls := by
  induction ls with
  | nil => rfl
  | cons l ls ih =>
    simp only [Body.endsBefore, List.map_cons, List.find?_cons, isBlank_trimEnd] at ih ⊢
    by_cases hb : isBlank l
    · simpa [hb] using ih
    · simp [hb, indentWidth_trimEnd hb, startsDefinition_trimEnd]

theorem block_map_trimEnd (floor : Nat) (ls : List Text) :
    Body.block floor (ls.map trimEnd) = (Body.block floor ls).map trimEnd := by
  induction ls with
  | nil => rfl
  | cons l ls ih =>
    simp only [List.map_cons, Body.block, isBlank_trimEnd, endsBefore_map_trimEnd, ih]
    by_cases hb : isBlank l
    · simp only [hb, if_true]
      split <;> rfl
    · simp only [hb, indentWidth_trimEnd hb, Bool.false_eq_true, if_false]
      split <;> rfl

theorem indentationUp_map_trimEnd (step : Text) (ls : List Text) :
    indentationUp step (ls.map trimEnd) = indentationUp step ls := by
  induction ls with
  | nil => rfl
  | cons l ls ih =>
    simp only [List.map_cons, indentationUp, isBlank_trimEnd, isDefinitionLine_trimEnd,
      trimEnd_trimEnd, ih]
    by_cases hb : isBlank l
    · simp [hb]
    · simp only [hb, indentation_trimEnd hb]

/-! ### Documents -/

section Documents

variable {A B : Text} (h : (lines A).map trimEnd = (lines B).map trimEnd) (line : Nat)

include h

theorem linesAbove_eq_of_trimEnd_eq : Header.linesAbove A line = Header.linesAbove B line := by
  rw [Header.linesAbove, ← cleanLines_map_trimEnd, List.map_take, h, ← List.map_take,
    cleanLines_map_trimEnd, Header.linesAbove]

theorem below_eq_of_trimEnd_eq : Body.below A line = Body.below B line := by
  have hdrop : ((lines A).drop line).map trimEnd = ((lines B).drop line).map trimEnd := by
    rw [List.map_drop, h, List.map_drop]
  have hfloor : Body.floor ((lines A).drop line) = Body.floor ((lines B).drop line) := by
    rw [← floor_map_trimEnd, hdrop, floor_map_trimEnd]
  rw [Body.below, Body.below, hfloor, ← cleanLines_map_trimEnd, ← block_map_trimEnd, hdrop,
    block_map_trimEnd, cleanLines_map_trimEnd]

theorem docstringIndentation_eq_of_trimEnd_eq (step : Text) :
    docstringIndentation A line step = docstringIndentation B line step := by
  rw [docstringIndentation, ← indentationUp_map_trimEnd, List.map_reverse, List.map_take, h,
    ← List.map_take, ← List.map_reverse, indentationUp_map_trimEnd, docstringIndentation]

theorem parse_eq_of_trimEnd_eq : Definition.parse A line = Definition.parse B line := by
  rw [Definition.parse, Header.above?, linesAbove_eq_of_trimEnd_eq h, below_eq_of_trimEnd_eq h,
    Definition.parse, Header.above?]

end Documents

/-- Two documents whose lines differ only in the white space at their ends are read alike. -/
theorem trailing_space_invisible {A B : Text}
    (h : (lines A).map trimEnd = (lines B).map trimEnd) (line : Nat) :
    Definition.parse A line = Definition.parse B line ∧
      (∀ step, docstringIndentation A line step = docstringIndentation B line step) ∧
      ∀ (E : Engine) options indentation,
        generate E A line options indentation = generate E B line options indentation := by
  have hparse := parse_eq_of_trimEnd_eq h line
  refine ⟨hparse, docstringIndentation_eq_of_trimEnd_eq h line, ?_⟩
  intro E options indentation
  rw [generate, hparse, generate]

/-- A document with line feeds alone, and the same with carriage returns and blanks at line ends. -/
theorem trailing_space_invisible_crlf :
    let A := "def f(a):\n    return a\n".toList
    let B := "def f(a): \r\n    return a\u2028\r\n\t".toList
    (lines A).map trimEnd = (lines B).map trimEnd ∧
      Definition.parse A 1 = Definition.parse B 1 ∧
      (∀ step, docstringIndentation A 1 step = docstringIndentation B 1 step) ∧
      ∀ (E : Engine) options indentation,
        generate E A 1 options indentation = generate E B 1 options indentation :=
  have h : (lines "def f(a):\n    return a\n".toList).map trimEnd =
      (lines "def f(a): \r\n    return a\u2028\r\n\t".toList).map trimEnd := by decide +kernel
  ⟨h, trailing_space_invisible h 1⟩

end DocSnippet.Source

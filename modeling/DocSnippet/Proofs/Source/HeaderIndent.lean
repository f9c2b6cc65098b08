import DocSnippet.Proofs.Source.Comment
import DocSnippet.Proofs.Source.HeaderText

/-! The indentation of a docstring below a header. Whatever the lines of a complete header are, the
one right above the cursor is visible, so it alone decides: its own indentation is taken, and made
deeper if the line holds a keyword or ends with a colon. For a header in one line, and for one whose
last line is indented as its first and has no comment, this is one step deeper than the header. It
is not where the last line is aligned under the parenthesis or ends with a comment. -/

namespace DocSnippet.Source

open Text

/-! ### One line -/

/-- Whether a docstring below a line is indented deeper than the line. -/
def deepens (l : Text) : Bool := isDefinitionLine l || endsWith [':'] (trimEnd l)

theorem indentationUp_cons {l : Text} (h : ¬isBlank l) (step : Text) (ls : List Text) :
    indentationUp step (l :: ls) = indentation l ++ if deepens l then step else [] := by
  rw [indentationUp, if_neg h, deepens]
  split <;> simp

theorem endsWith_singleton_iff {c : Char} {t : Text} :
    endsWith [c] t ↔ t.getLast? = some c := by
  rw [endsWith, Option.isSome_iff_exists, List.getLast?_eq_some_iff]
  simp only [before?_eq_some_iff]

theorem getLast?_trimEnd {l : Text} (h : trim l ≠ []) :
    (trimEnd l).getLast? = (trim l).getLast? := by
  rw [← trimStart_trimEnd] at h ⊢
  conv_lhs => rw [← List.takeWhile_append_dropWhile (p := isSpace) (l := trimEnd l)]
  exact List.getLast?_append_of_ne_nil _ h

/-- Whether a line starts with `def`, `async def` or `class` and a blank, behind its indentation. -/
def opensHeader (l : Text) : Bool :=
  let t := trimStart l
  startsWith (defWord ++ [' ']) t || startsWith (asyncWord ++ [' '] ++ defWord ++ [' ']) t ||
    startsWith (classWord ++ [' ']) t

theorem isDefinitionLine_of_opensHeader {l : Text} (h : opensHeader l) : isDefinitionLine l := by
  have hspace : ∀ c ∈ l.takeWhile isSpace, isSpace c := fun c hc => List.mem_takeWhile_imp hc
  have hkeyword : ∀ {a w r : Text}, trimStart l = a ++ w ++ ' ' :: r → IsKeyword w →
      atWordEnd a.reverse → isDefinitionLine l := by
    intro a w r hl hw ha
    rw [← List.takeWhile_append_dropWhile (p := isSpace) (l := l),
      isDefinitionLine_space_append hspace, isDefinitionLine_iff]
    exact ⟨a, w, ' ' :: r, hl, hw, ha, rfl⟩
  simp only [opensHeader, Bool.or_eq_true, startsWith, Option.isSome_iff_exists,
    after?_eq_some_iff] at h
  rcases h with (⟨r, hr⟩ | ⟨r, hr⟩) | ⟨r, hr⟩
  · exact hkeyword (a := []) (r := r) (by simp [hr]) (.inl rfl) rfl
  · exact hkeyword (a := asyncWord ++ [' ']) (r := r) (by simp [hr]) (.inl rfl) rfl
  · exact hkeyword (a := []) (r := r) (by simp [hr]) (.inr rfl) rfl

/-! ### Complete headers -/

/-- The lines number `first` to `last` are one complete header, with the cursor below them: the
first opens a definition, and the header that is found consists of these lines, is balanced and ends
with a colon. -/
structure CompleteHeader (document : Text) (first last : Nat) : Prop where
  ordered : first ≤ last
  opens : (lines document)[first]?.any opensHeader
  joined : (Header.above document (last + 1)).text =
    join [' '] (cleanLines (((lines document).take (last + 1)).drop first))
  balanced : isBalanced (Header.above document (last + 1)).text
  colon : endsWith [':'] (Header.above document (last + 1)).text

theorem Header.above_text_of_isBlank {document m : Text} {last : Nat}
    (hm : (lines document)[last]? = some m) (hblank : isBlank m) :
    (above document (last + 1)).text = [] := by
  have hcode : IsCode m := .of_space (isBlank_iff.1 hblank)
  have hnone : above? document (last + 1) = none := by
    rw [above?, linesAbove_succ hm (by rw [hcode.stripped]),
      trim_eq_nil_iff.2 (isBlank_iff.1 hblank)]
    exact ofLines?_eq_none (.inr (.inl ⟨[], by simp, rfl⟩))
  rw [above, hnone]
  rfl

namespace CompleteHeader

variable {document l m : Text} {first last : Nat} (h : CompleteHeader document first last)

include h

theorem not_isBlank_last (hm : (lines document)[last]? = some m) : ¬isBlank m := by
  intro hblank
  have hcolon := h.colon
  rw [Header.above_text_of_isBlank hm hblank] at hcolon
  exact absurd hcolon (by decide)

theorem docstringIndentation_eq (hm : (lines document)[last]? = some m) (step : Text) :
    docstringIndentation document (last + 1) step =
      indentation m ++ if deepens m then step else [] := by
  rw [docstringIndentation, take_lines_succ hm, List.reverse_append, List.reverse_singleton,
    List.singleton_append, indentationUp_cons (h.not_isBlank_last hm)]

theorem deepens_of_eq (hm : (lines document)[last]? = some m) (hline : first = last) :
    deepens m := by
  have hopens := h.opens
  rw [hline, hm, Option.any_some] at hopens
  rw [deepens, isDefinitionLine_of_opensHeader hopens, Bool.true_or]

/-- A last line without a comment ends with the colon of the header. -/
theorem deepens_of_stripComment (hm : (lines document)[last]? = some m)
    (hcomment : stripComment m = m) : deepens m := by
  have hlt : last < (lines document).length := (List.getElem?_eq_some_iff.1 hm).1
  have hvisible : trim m ≠ [] := fun hnil =>
    h.not_isBlank_last hm (isBlank_iff.2 (trim_eq_nil_iff.1 hnil))
  have hlen : first ≤ ((lines document).take last).length := by
    have := h.ordered
    rw [List.length_take]
    omega
  obtain ⟨s, hs, -⟩ := join_blank_append
    (cleanLines (((lines document).take last).drop first)) (List.cons_ne_nil (trim m) [])
  have htext : (Header.above document (last + 1)).text = s ++ trim m := by
    rw [h.joined, take_lines_succ hm, List.drop_append_of_le_length hlen,
      cleanLines_concat _ (by rw [hcomment]), hs, join]
  have hcolon := h.colon
  rw [htext, endsWith_singleton_iff, List.getLast?_append_of_ne_nil _ hvisible,
    ← getLast?_trimEnd hvisible, ← endsWith_singleton_iff] at hcolon
  rw [deepens, hcolon, Bool.or_true]

end CompleteHeader

/-- Below a complete header the line right above the cursor gives the indentation of a docstring. It
is one step deeper than the header if that stands in one line, and if its last line has no comment
exactly when that line is indented as the first. -/
theorem docstringIndentation_below_header {document l m : Text} {first last : Nat}
    (h : CompleteHeader document first last) (hl : (lines document)[first]? = some l)
    (hm : (lines document)[last]? = some m) (step : Text) :
    let found := docstringIndentation document (last + 1) step
    (found = indentation m ++
      if isDefinitionLine m || endsWith [':'] (trimEnd m) then step else []) ∧
    (first = last → found = indentation l ++ step) ∧
    (stripComment m = m → (found = indentation l ++ step ↔ indentation m = indentation l)) := by
  intro found
  have hfound : found = indentation m ++ if deepens m then step else [] :=
    h.docstringIndentation_eq hm step
  refine ⟨hfound, fun hline => ?_, fun hcomment => ?_⟩
  · obtain rfl : l = m := by simpa [hline, hm] using hl.symm
    rw [hfound, if_pos (h.deepens_of_eq hm hline)]
  · rw [hfound, if_pos (h.deepens_of_stripComment hm hcomment), List.append_cancel_right_eq]

/-- A method over four lines, closed by a line that is indented as the first, with a comment
between. -/
theorem docstringIndentation_below_header_method :
    let document :=
      "class A:\n  def f(\n      self,\n      b=(1, 2),  # pair\n  ) -> int:\n    pass".toList
    let l := "  def f(".toList
    let m := "  ) -> int:".toList
    (CompleteHeader document 1 4 ∧ (lines document)[1]? = some l ∧ (lines document)[4]? = some m ∧
      stripComment m = m ∧ indentation m = indentation l) ∧
      ∀ step, docstringIndentation document 5 step = ' ' :: ' ' :: step := by
  intro document l m
  have h : CompleteHeader document 1 4 :=
    ⟨by decide, by decide, by decide +kernel, by decide +kernel, by decide +kernel⟩
  have hl : (lines document)[1]? = some l := by decide +kernel
  have hm : (lines document)[4]? = some m := by decide +kernel
  refine ⟨⟨h, hl, hm, by decide, by decide⟩, fun step => ?_⟩
  exact ((docstringIndentation_below_header h hl hm step).2.2 (by decide)).2 (by decide)

/-- A last line that is aligned under the parenthesis makes the docstring too deep, and a comment
behind the colon leaves it at the width of the header. -/
theorem docstringIndentation_aligned_or_commented :
    let step := "    ".toList
    let aligned := "def f(a,\n      b):\n    pass".toList
    let commented := "def f(\n    a\n):  # note\n    pass".toList
    (CompleteHeader aligned 0 1 ∧
      docstringIndentation aligned 2 step = "          ".toList ∧
      docstringIndentation aligned 2 step ≠ indentation "def f(a,".toList ++ step) ∧
    (CompleteHeader commented 0 2 ∧ docstringIndentation commented 3 step = [] ∧
      docstringIndentation commented 3 step ≠ indentation "def f(".toList ++ step) := by
  intro step aligned commented
  have haligned : CompleteHeader aligned 0 1 :=
    ⟨by decide, by decide, by decide +kernel, by decide +kernel, by decide +kernel⟩
  have hcommented : CompleteHeader commented 0 2 :=
    ⟨by decide, by decide, by decide +kernel, by decide +kernel, by decide +kernel⟩
  exact ⟨⟨haligned, by decide +kernel, by decide +kernel⟩,
    ⟨hcommented, by decide +kernel, by decide +kernel⟩⟩

end DocSnippet.Source

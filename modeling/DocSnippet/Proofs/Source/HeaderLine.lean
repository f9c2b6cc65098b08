import DocSnippet.Proofs.Source.Layout
import DocSnippet.Proofs.Source.Opening
import DocSnippet.Source.Header

/-! A function header above the cursor. The search finds the last keyword of the cleaned lines,
whatever the lines before it hold; only a word `async` before it is taken along. So a header is
found that stands in one line, without a comment and with no keyword but its first. -/

namespace DocSnippet.Source

open Text

/-- The text `t`, alone or behind the word `async` and white space. -/
def MaybeAsync (t u : Text) : Prop :=
  u = t ∨ ∃ gap, gap ≠ [] ∧ (∀ c ∈ gap, isSpace c) ∧ u = asyncWord ++ gap ++ t

/-- The only keyword of a text stands at its head. -/
def LeadingKeywordOnly (t : Text) : Prop := ∀ a w r, t = a ++ w ++ r → KeywordAt a w r → a = []

/-- The search for a keyword behind the first character decides whether there is one. -/
theorem leadingKeywordOnly_of_lastKeyword? {c : Char} {t : Text} (h : lastKeyword? [c] t = none) :
    LeadingKeywordOnly (c :: t) := by
  intro a w r hab hw
  cases a with
  | nil => rfl
  | cons d a =>
    simp only [List.cons_append, List.cons.injEq] at hab
    obtain ⟨rfl, ht⟩ := hab
    refine absurd ?_ (lastKeyword?_eq_none_iff.1 h a (w ++ r) (by rw [ht, List.append_assoc]))
    exact Place.hasKeyword_iff.2 ⟨w, r, rfl, by simpa using hw⟩

theorem exists_last_keyword {t : Text} (h : isDefinitionLine t) :
    ∃ a w r, t = a ++ w ++ r ∧ KeywordAt a w r ∧ LeadingKeywordOnly (w ++ r) := by
  obtain ⟨p, hp⟩ := Option.isSome_iff_exists.1 h
  obtain ⟨a, ht, hbefore, hk, hlast⟩ := eq_append_of_lastKeyword? hp
  obtain ⟨w, r, hrest, hw⟩ := Place.hasKeyword_iff.1 hk
  rw [hbefore, List.append_nil, List.reverse_reverse] at hw
  refine ⟨a, w, r, by rw [ht, hrest, List.append_assoc], hw, ?_⟩
  intro b v u hbvu hv
  by_contra hb
  refine hlast b (v ++ u) (by rw [hrest, hbvu, List.append_assoc]) hb ?_
  exact Place.hasKeyword_iff.2 ⟨v, u, rfl, by simpa using hv⟩

theorem Place.overAsync_rest (p : Place) : MaybeAsync p.rest p.overAsync.rest := by
  rw [overAsync]
  split
  next left hleft =>
    split
    next h =>
      refine .inr ⟨(p.before.takeWhile isSpace).reverse, by simpa using h.1, ?_, rfl⟩
      intro c hc
      exact List.mem_takeWhile_imp (List.mem_reverse.1 hc)
    next => exact .inl rfl
  next => exact .inl rfl

theorem leadingKeywordOnly_append {w r : Text} (hw : IsKeyword w) (hr : atWordEnd r)
    (hnone : ¬isDefinitionLine r) : LeadingKeywordOnly (w ++ r) := by
  intro a v u h hk
  rcases hk.of_append h (.inr hr) with ⟨b, rfl, -⟩ | ⟨b, -, hb, hkb⟩
  · exact hk.left_eq_nil fun c hc => hw.isWord c (by simp [hc])
  · exact absurd (isDefinitionLine_iff.2 ⟨b, v, u, hb, hkb⟩) hnone

theorem LeadingKeywordOnly.append_space {t u : Text} (h : LeadingKeywordOnly t)
    (hu : ∀ c ∈ u, isSpace c) : LeadingKeywordOnly (t ++ u) := by
  intro a w r hab hk
  rcases hk.of_append hab (.inr (atWordEnd_of_isSpace hu)) with ⟨b, hb, hkb⟩ | ⟨b, -, hb, hkb⟩
  · exact h a w b hb hkb
  · exact absurd (isDefinitionLine_iff.2 ⟨b, w, r, hb, hkb⟩) (not_isDefinitionLine_of_space hu)

namespace MaybeAsync

variable {t u v : Text}

theorem isClassHeader_eq_false (h : MaybeAsync t v) (ht : isClassHeader t = false) :
    isClassHeader v = false := by
  rcases h with rfl | ⟨gap, -, -, rfl⟩
  · exact ht
  · rfl

theorem trim_text (h : MaybeAsync (t ++ u) v) (hu : ∀ c ∈ u, isSpace c) (htrim : trim t = t)
    (hne : t ≠ []) : MaybeAsync t (trim v) := by
  rcases h with rfl | ⟨gap, hgap, hspace, rfl⟩
  · exact .inl (by rw [trim_append_of_space _ hu, htrim])
  · refine .inr ⟨gap, hgap, hspace, ?_⟩
    rw [← List.append_assoc, trim_append_of_space _ hu,
      trim_append_append (by decide) htrim (by decide) hne]

end MaybeAsync

theorem Place.definitionStart_rest (p : Place) : MaybeAsync p.rest p.definitionStart.rest := by
  rw [definitionStart]
  split
  · exact p.overAsync_rest
  · exact .inl rfl

/-- The last definition of a text that ends with a keyword and no other behind it starts there. -/
theorem lastDefinition?_append {s w r : Text} (hs : atWordEnd s.reverse) (hw : IsKeyword w)
    (hr : atWordEnd r) (hlast : LeadingKeywordOnly (w ++ r)) :
    lastDefinition? (s ++ (w ++ r)) = some (Place.definitionStart ⟨s.reverse, w ++ r⟩) := by
  have hkeyword : Place.hasKeyword ⟨s.reverse ++ [], w ++ r⟩ :=
    Place.hasKeyword_iff.2 ⟨w, r, rfl, hw, by simpa using hs, hr⟩
  have hnone : ∀ a b, w ++ r = a ++ b → a ≠ [] → ¬Place.hasKeyword ⟨a.reverse, b⟩ := by
    intro a b hab ha hk
    obtain ⟨v, u, hb, hv⟩ := Place.hasKeyword_iff.1 hk
    simp only [List.reverse_reverse] at hb hv
    exact ha (hlast a v u (by rw [hab, hb, List.append_assoc]) hv)
  rw [lastDefinition?_eq, lastKeyword?_append hkeyword hnone, Option.map_some, List.append_nil]

/-! ### Lines above the cursor -/

/-- The last of some joined lines stand at the head of the text or behind a blank. -/
theorem join_blank_append (ls : List Text) {ms : List Text} (hms : ms ≠ []) :
    ∃ s, join [' '] (ls ++ ms) = s ++ join [' '] ms ∧ atWordEnd s.reverse := by
  induction ls with
  | nil => exact ⟨[], rfl, rfl⟩
  | cons l ls ih =>
    obtain ⟨s, hs, hend⟩ := ih
    refine ⟨l ++ [' '] ++ s, ?_, ?_⟩
    · rw [List.cons_append, join_cons _ _ (by simp [hms]), hs, List.append_assoc (l ++ [' '])]
    · rw [List.reverse_append]
      refine atWordEnd_append hend ?_
      simp [atWordEnd, show isWord ' ' = false from rfl]

/-- In lines with a visible end the header of a function is found where the last keyword stands. -/
theorem Header.ofLines?_of_join {ls : List Text} {l s w r u : Text} (hl : ls.getLast? = some l)
    (hvisible : ¬isBlank l) (hjoin : join [' '] ls = s ++ (w ++ r ++ u))
    (hs : atWordEnd s.reverse) (hw : IsKeyword w) (hr : atWordEnd r) (hu : ∀ c ∈ u, isSpace c)
    (hlast : LeadingKeywordOnly (w ++ r)) (htrim : trim (w ++ r) = w ++ r)
    (hclass : isClassHeader (w ++ r) = false) :
    ∃ t, MaybeAsync (w ++ r) t ∧ ofLines? ls = some ⟨t, []⟩ := by
  have hlast' := hlast.append_space hu
  rw [List.append_assoc] at hlast' hjoin
  obtain ⟨p, hp, hrest⟩ : ∃ p, lastDefinition? (s ++ (w ++ (r ++ u))) = some p ∧
      MaybeAsync (w ++ (r ++ u)) p.rest :=
    ⟨_, lastDefinition?_append hs hw (atWordEnd_append hr (atWordEnd_of_isSpace hu)) hlast',
      Place.definitionStart_rest _⟩
  rw [← List.append_assoc] at hrest
  have hne : w ++ r ≠ [] := by rcases hw with rfl | rfl <;> simp [defWord, classWord]
  have htext := hrest.trim_text hu htrim hne
  refine ⟨trim p.rest, htext, ?_⟩
  simp [ofLines?, hl, hvisible, hjoin, hp, htext.isClassHeader_eq_false hclass]

theorem Header.ofLines?_append (ls : List Text) {r : Text} (hr : atWordEnd r)
    (htrim : trim (defWord ++ r) = defWord ++ r) (hlast : LeadingKeywordOnly (defWord ++ r)) :
    ∃ t, MaybeAsync (defWord ++ r) t ∧ ofLines? (ls ++ [defWord ++ r]) = some ⟨t, []⟩ := by
  obtain ⟨s, hjoin, hs⟩ := join_blank_append ls (List.cons_ne_nil (defWord ++ r) [])
  refine ofLines?_of_join (u := []) List.getLast?_concat Bool.false_ne_true ?_ hs (.inl rfl) hr
    (by simp) hlast htrim rfl
  rw [List.append_nil]
  exact hjoin

theorem take_lines_succ {document l : Text} {line : Nat}
    (hline : (lines document)[line]? = some l) :
    (lines document).take (line + 1) = (lines document).take line ++ [l] := by
  obtain ⟨hlt, rfl⟩ := List.getElem?_eq_some_iff.1 hline
  exact List.take_succ_eq_append_getElem hlt

/-- If the line right above the cursor has no comment, it is only trimmed. -/
theorem Header.linesAbove_succ {document l : Text} {line : Nat}
    (hline : (lines document)[line]? = some l) (hcomment : trim (stripComment l) = trim l) :
    linesAbove document (line + 1) = linesAbove document line ++ [trim l] := by
  rw [linesAbove, take_lines_succ hline, cleanLines_concat _ hcomment, linesAbove]

theorem Header.above?_of_line {document l r : Text} {line : Nat}
    (hline : (lines document)[line]? = some l) (hl : trim l = defWord ++ r) (hr : atWordEnd r)
    (hcomment : stripComment (defWord ++ r) = defWord ++ r)
    (hlast : LeadingKeywordOnly (defWord ++ r)) :
    ∃ t, MaybeAsync (defWord ++ r) t ∧ above? document (line + 1) = some ⟨t, []⟩ := by
  have htrim : trim (defWord ++ r) = defWord ++ r := by rw [← hl, trim_trim]
  have hkept : trim (stripComment l) = trim l := trim_stripComment_of_trim (by rw [hl, hcomment])
  rw [above?, linesAbove_succ hline hkept, hl]
  exact ofLines?_append _ hr htrim hlast

end DocSnippet.Source

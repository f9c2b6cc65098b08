import DocSnippet.Proofs.Source.HeaderLine

/-! The text of the header above a cursor. It starts at the last keyword of the cleaned lines above,
or at a word `async` before that keyword if it is `def`; there is none if the line right above is
blank or no line holds a keyword. -/

namespace DocSnippet.Source

open Text

structure IsLastKeyword (t a w r : Text) : Prop where
  eq : t = a ++ w ++ r
  keywordAt : KeywordAt a w r
  last : ∀ b v u, t = b ++ v ++ u → KeywordAt b v u → b.length ≤ a.length

theorem exists_isLastKeyword {t : Text} {p : Place} (h : lastKeyword? [] t = some p) :
    ∃ a w r, p = ⟨a.reverse, w ++ r⟩ ∧ IsLastKeyword t a w r := by
  obtain ⟨a, ht, hbefore, hk, hlast⟩ := eq_append_of_lastKeyword? h
  obtain ⟨w, r, hrest, hw⟩ := Place.hasKeyword_iff.1 hk
  rw [List.append_nil] at hbefore
  rw [hbefore, List.reverse_reverse] at hw
  refine ⟨a, w, r, by rw [← hbefore, ← hrest], by rw [ht, hrest, List.append_assoc], hw, ?_⟩
  intro b v u htb hv
  by_contra hlt
  -- a keyword further behind would stand in the rest of the text
  rw [ht, List.append_assoc] at htb
  rcases List.append_eq_append_iff.1 htb with ⟨d, rfl, hd⟩ | ⟨d, rfl, -⟩
  · have hne : d ≠ [] := by
      rintro rfl
      simp at hlt
    have hleft := hv.left
    rw [List.reverse_append] at hleft
    refine hlast d (v ++ u) hd hne (Place.hasKeyword_iff.2 ⟨v, u, rfl, hv.keyword, ?_, hv.right⟩)
    simpa using atWordEnd_of_append hleft
  · simp at hlt

/-- The definition with a keyword starts at the keyword, or at a word `async` before a `def`. -/
theorem Place.definitionStart_eq {a w r : Text} (hk : KeywordAt a w r) :
    (∃ left gap, w = defWord ∧ EndsAsync a left gap ∧
      definitionStart ⟨a.reverse, w ++ r⟩ = ⟨left.reverse, asyncWord ++ gap ++ (w ++ r)⟩) ∨
    ((w = defWord → ∀ left gap, ¬EndsAsync a left gap) ∧
      definitionStart ⟨a.reverse, w ++ r⟩ = ⟨a.reverse, w ++ r⟩) := by
  rw [definitionStart]
  rcases hk.keyword with rfl | rfl
  · rw [if_pos (hasWord_iff.2 ⟨r, rfl, hk.left, hk.right⟩)]
    by_cases hasync : ∃ left gap, EndsAsync a left gap
    · obtain ⟨left, gap, hasync⟩ := hasync
      exact .inl ⟨left, gap, rfl, hasync, overAsync_of_endsAsync hasync _⟩
    · have hnone : ∀ left gap, ¬EndsAsync a left gap :=
        fun left gap hend => hasync ⟨left, gap, hend⟩
      exact .inr ⟨fun _ => hnone, overAsync_eq_self hnone _⟩
  · exact .inr ⟨fun hdef => absurd hdef (by decide), rfl⟩

theorem exists_of_lastDefinition? {t : Text} {p : Place} (h : lastDefinition? t = some p) :
    ∃ a w r, IsLastKeyword t a w r ∧
      ((∃ left gap, w = defWord ∧ EndsAsync a left gap ∧
        p = ⟨left.reverse, asyncWord ++ gap ++ (w ++ r)⟩) ∨
      ((w = defWord → ∀ left gap, ¬EndsAsync a left gap) ∧ p = ⟨a.reverse, w ++ r⟩)) := by
  rw [lastDefinition?_eq] at h
  obtain ⟨q, hq, rfl⟩ := Option.map_eq_some_iff.1 h
  obtain ⟨a, w, r, rfl, hlast⟩ := exists_isLastKeyword hq
  exact ⟨a, w, r, hlast, Place.definitionStart_eq hlast.keywordAt⟩

theorem lastDefinition?_eq_none_iff {t : Text} :
    lastDefinition? t = none ↔ ∀ a w r, t = a ++ w ++ r → ¬KeywordAt a w r := by
  have hnone : lastDefinition? t = none ↔ ¬isDefinitionLine t := by
    rw [lastDefinition?_eq, Option.map_eq_none_iff, isDefinitionLine, Option.not_isSome_iff_eq_none]
  rw [hnone, isDefinitionLine_iff]
  push Not
  rfl

namespace Header

theorem ofLines?_eq_none {ls : List Text} (h : ls = [] ∨ (∃ l, ls.getLast? = some l ∧ isBlank l) ∨
    lastDefinition? (join [' '] ls) = none) : ofLines? ls = none := by
  rcases h with rfl | ⟨l, hl, hblank⟩ | hnone
  · rfl
  · simp [ofLines?, hl, hblank]
  · rw [ofLines?, hnone]
    split
    · rfl
    · simp

theorem exists_ofLines?_eq_some {ls : List Text} {l : Text} {p : Place}
    (hl : ls.getLast? = some l) (hvisible : ¬isBlank l)
    (hp : lastDefinition? (join [' '] ls) = some p) :
    ∃ header, ofLines? ls = some header ∧ header.text = trim p.rest := by
  simp [ofLines?, hl, hvisible, hp]

/-- The header above a cursor starts at the last keyword of the cleaned lines, or at its `async`. -/
theorem text_above (document : Text) (line : Nat) :
    let ls := linesAbove document line
    let t := join [' '] ls
    ((ls = [] ∨ (∃ l, ls.getLast? = some l ∧ isBlank l) ∨
        ∀ a w r, t = a ++ w ++ r → ¬KeywordAt a w r) → (above document line).text = []) ∧
    (∀ l, ls.getLast? = some l → ¬isBlank l → (∃ a w r, t = a ++ w ++ r ∧ KeywordAt a w r) →
      ∃ a w r, IsLastKeyword t a w r ∧
        ((∃ left gap, w = defWord ∧ EndsAsync a left gap ∧
          (above document line).text = trim (asyncWord ++ gap ++ (w ++ r))) ∨
        ((w = defWord → ∀ left gap, ¬EndsAsync a left gap) ∧
          (above document line).text = trim (w ++ r)))) := by
  intro ls t
  constructor
  · intro h
    rw [← lastDefinition?_eq_none_iff] at h
    rw [above, above?, ofLines?_eq_none h]
    rfl
  · rintro l hl hvisible ⟨b, v, u, hb, hv⟩
    obtain ⟨p, hp⟩ : ∃ p, lastDefinition? t = some p := by
      refine Option.ne_none_iff_exists'.1 fun hnone => ?_
      exact lastDefinition?_eq_none_iff.1 hnone b v u hb hv
    obtain ⟨header, hheader, hhead⟩ := exists_ofLines?_eq_some hl hvisible hp
    have htext : (above document line).text = trim p.rest := by
      rw [above, above?, hheader, Option.getD_some, hhead]
    obtain ⟨a, w, r, hlast, hstart⟩ := exists_of_lastDefinition? hp
    refine ⟨a, w, r, hlast, ?_⟩
    rw [htext]
    rcases hstart with ⟨left, gap, hw, hasync, rfl⟩ | ⟨hnone, rfl⟩
    · exact .inl ⟨left, gap, hw, hasync, rfl⟩
    · exact .inr ⟨hnone, rfl⟩

/-- Keywords in the lines before, one of them hidden in a comment, an `async` in a line of its own
and a header over two lines. -/
theorem text_above_async :
    let document := "class A:  # def\n  async\n  def run(self,\n    cls=1):\n    pass".toList
    (above document 4).text = "async def run(self, cls=1):".toList ∧
      (linesAbove document 4).getLast? = some "cls=1):".toList ∧ ¬isBlank "cls=1):".toList ∧
      ∃ a w r, IsLastKeyword (join [' '] (linesAbove document 4)) a w r ∧
        ((∃ left gap, w = defWord ∧ EndsAsync a left gap ∧
          (above document 4).text = trim (asyncWord ++ gap ++ (w ++ r))) ∨
        ((w = defWord → ∀ left gap, ¬EndsAsync a left gap) ∧
          (above document 4).text = trim (w ++ r))) := by
  intro document
  have hl : (linesAbove document 4).getLast? = some "cls=1):".toList := by decide +kernel
  have hkeyword : isDefinitionLine (join [' '] (linesAbove document 4)) := by decide +kernel
  exact ⟨by decide +kernel, hl, by decide,
    (text_above document 4).2 _ hl (by decide) (isDefinitionLine_iff.1 hkeyword)⟩

end Header

end DocSnippet.Source

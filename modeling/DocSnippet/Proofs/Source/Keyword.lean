import DocSnippet.Proofs.Text.Trim
import DocSnippet.Proofs.Text.Word
import DocSnippet.Source.Keyword
import Mathlib.Data.List.Basic

/-! Where definition keywords stand. The search for the last keyword is complete: it fails only if
no place of the text has one, and a keyword with none behind it is the one that is found. Two texts
that form no word together have the keywords of either, and white space around a text changes
nothing. -/

namespace DocSnippet.Source

open Text

def IsKeyword (w : Text) : Prop := w = defWord ∨ w = classWord

instance (w : Text) : Decidable (IsKeyword w) :=
  inferInstanceAs (Decidable (w = defWord ∨ w = classWord))

structure KeywordAt (a w r : Text) : Prop where
  keyword : IsKeyword w
  left : atWordEnd a.reverse
  right : atWordEnd r

theorem IsKeyword.isWord {w : Text} (hw : IsKeyword w) : ∀ c ∈ w, isWord c := by
  rcases hw with rfl | rfl <;> exact List.all_eq_true.1 rfl

theorem KeywordAt.left_eq_nil {a w r : Text} (hk : KeywordAt a w r) (ha : ∀ c ∈ a, isWord c) :
    a = [] := by
  by_contra hne
  exact not_atWordEnd (by simpa using hne) (fun c hc => ha c (List.mem_reverse.1 hc)) hk.left

namespace Place

theorem hasWord_iff {p : Place} {w : Text} :
    p.hasWord w ↔ ∃ r, p.rest = w ++ r ∧ atWordEnd p.before ∧ atWordEnd r := by
  rw [hasWord]
  cases h : after? w p.rest with
  | none =>
    have hne : ∀ r, p.rest ≠ w ++ r := fun r hr => by
      rw [after?_eq_some_iff.2 hr] at h
      simp at h
    simp [hne]
  | some u =>
    obtain hu := after?_eq_some_iff.1 h
    simp [hu]

theorem hasKeyword_iff {p : Place} :
    p.hasKeyword ↔ ∃ w r, p.rest = w ++ r ∧ KeywordAt p.before.reverse w r := by
  simp only [hasKeyword, Bool.or_eq_true, hasWord_iff]
  constructor
  · rintro (⟨r, hr, ha, hb⟩ | ⟨r, hr, ha, hb⟩)
    · exact ⟨defWord, r, hr, .inl rfl, by simpa using ha, hb⟩
    · exact ⟨classWord, r, hr, .inr rfl, by simpa using ha, hb⟩
  · rintro ⟨w, r, hr, rfl | rfl, ha, hb⟩
    · exact .inl ⟨r, hr, by simpa using ha, hb⟩
    · exact .inr ⟨r, hr, by simpa using ha, hb⟩

theorem hasKeyword_append {a b : Text} (ha : a ≠ []) (before : Text) :
    hasKeyword ⟨a.reverse ++ before, b⟩ = hasKeyword ⟨a.reverse, b⟩ := by
  obtain ⟨c, s, hc⟩ := List.exists_cons_of_ne_nil (List.reverse_ne_nil_iff.2 ha)
  rw [hc]
  rfl

end Place

/-! ### The last keyword -/

theorem lastKeyword?_eq_none_iff {before t : Text} :
    lastKeyword? before t = none ↔
      ∀ a b, t = a ++ b → ¬Place.hasKeyword ⟨a.reverse ++ before, b⟩ := by
  induction t generalizing before with
  | nil =>
    simp only [lastKeyword?, true_iff]
    intro a b hab
    obtain ⟨rfl, rfl⟩ := List.append_eq_nil_iff.1 hab.symm
    simp [Place.hasKeyword, Place.hasWord, after?, defWord, classWord]
  | cons c t ih =>
    constructor
    · intro h a b hab
      rw [lastKeyword?] at h
      split at h
      · simp at h
      next hn =>
        cases a with
        | nil =>
          simp only [List.nil_append] at hab
          subst hab
          simpa using h
        | cons d a =>
          simp only [List.cons_append, List.cons.injEq] at hab
          obtain ⟨rfl, hab⟩ := hab
          simpa using ih.1 hn a b hab
    · intro h
      have hn : lastKeyword? (c :: before) t = none := by
        refine ih.2 fun a b hab => ?_
        simpa using h (c :: a) b (by rw [hab]; rfl)
      have hc := h [] (c :: t) rfl
      simp only [List.reverse_nil, List.nil_append] at hc
      simp [lastKeyword?, hn, hc]

theorem lastKeyword?_append {before s t : Text} (hk : Place.hasKeyword ⟨s.reverse ++ before, t⟩)
    (hlast : ∀ a b, t = a ++ b → a ≠ [] → ¬Place.hasKeyword ⟨a.reverse, b⟩) :
    lastKeyword? before (s ++ t) = some ⟨s.reverse ++ before, t⟩ := by
  induction s generalizing before with
  | nil =>
    cases t with
    | nil => simp [Place.hasKeyword, Place.hasWord, after?, defWord, classWord] at hk
    | cons c t =>
      have hn : lastKeyword? (c :: before) t = none := by
        rw [lastKeyword?_eq_none_iff]
        intro a b hab
        have := hlast (c :: a) b (by rw [hab]; rfl) (by simp)
        rwa [← Place.hasKeyword_append (by simp) before, List.reverse_cons, List.append_assoc,
          List.singleton_append] at this
      simp only [List.reverse_nil, List.nil_append] at hk
      simp [lastKeyword?, hn, hk]
  | cons c s ih =>
    have hs : lastKeyword? (c :: before) (s ++ t) = some ⟨s.reverse ++ c :: before, t⟩ :=
      ih (by simpa using hk)
    simp [lastKeyword?, hs]

/-- The place that is found has a keyword, and there is none behind it. -/
theorem eq_append_of_lastKeyword? {before t : Text} {p : Place}
    (h : lastKeyword? before t = some p) :
    ∃ a, t = a ++ p.rest ∧ p.before = a.reverse ++ before ∧ p.hasKeyword ∧
      ∀ b d, p.rest = b ++ d → b ≠ [] → ¬Place.hasKeyword ⟨b.reverse, d⟩ := by
  induction t generalizing before with
  | nil => simp [lastKeyword?] at h
  | cons c t ih =>
    rw [lastKeyword?] at h
    split at h
    next q hq =>
      obtain rfl : q = p := by simpa using h
      obtain ⟨a, ha, hbefore, hp⟩ := ih hq
      exact ⟨c :: a, by rw [ha]; rfl, by simpa using hbefore, hp⟩
    next hnone =>
      split at h
      next hk =>
        obtain rfl : (⟨before, c :: t⟩ : Place) = p := by simpa using h
        refine ⟨[], rfl, rfl, hk, fun b d hbd hb => ?_⟩
        obtain ⟨e, b, rfl⟩ := List.exists_cons_of_ne_nil hb
        simp only [List.cons_append, List.cons.injEq] at hbd
        obtain ⟨rfl, rfl⟩ := hbd
        have hlater := lastKeyword?_eq_none_iff.1 hnone b d rfl
        rwa [← Place.hasKeyword_append hb before, List.reverse_cons, List.append_assoc,
          List.singleton_append]
      next => simp at h

/-- A line holds a definition keyword exactly if one stands in it as a whole word. -/
theorem isDefinitionLine_iff {t : Text} :
    isDefinitionLine t ↔ ∃ a w r, t = a ++ w ++ r ∧ KeywordAt a w r := by
  rw [isDefinitionLine, ← Bool.not_eq_false, Option.isSome_eq_false_iff, Option.isNone_iff_eq_none,
    lastKeyword?_eq_none_iff]
  constructor
  · intro h
    push Not at h
    obtain ⟨a, b, rfl, hk⟩ := h
    obtain ⟨w, r, rfl, hw⟩ := Place.hasKeyword_iff.1 hk
    exact ⟨a, w, r, by simp, by simpa using hw⟩
  · rintro ⟨a, w, r, rfl, hw⟩ h
    refine h a (w ++ r) (by simp) (Place.hasKeyword_iff.2 ⟨w, r, rfl, ?_⟩)
    simpa using hw

/-! ### Keywords in two texts -/

/-- A keyword in two texts that form no word together stands in one of them. -/
theorem KeywordAt.of_append {s t a w r : Text} (hk : KeywordAt a w r) (h : s ++ t = a ++ w ++ r)
    (hcut : atWordEnd s.reverse ∨ atWordEnd t) :
    (∃ b, s = a ++ w ++ b ∧ KeywordAt a w b) ∨
      ∃ b, a = s ++ b ∧ t = b ++ w ++ r ∧ KeywordAt b w r := by
  rw [List.append_assoc] at h
  rcases List.append_eq_append_iff.1 h with ⟨b, rfl, rfl⟩ | ⟨b, rfl, hb⟩
  · have hleft := hk.left
    rw [List.reverse_append] at hleft
    exact .inr ⟨b, rfl, by simp, hk.keyword, atWordEnd_of_append hleft, hk.right⟩
  · rcases List.append_eq_append_iff.1 hb with ⟨d, rfl, rfl⟩ | ⟨d, rfl, rfl⟩
    · exact .inl ⟨d, by simp, hk.keyword, hk.left, atWordEnd_of_append hk.right⟩
    · -- `b` is what the first text has of the keyword and `d` what the second one has
      have hword := hk.keyword.isWord
      by_cases hb : b = []
      · subst hb
        exact .inr ⟨[], by simp, by simp, by simpa using hk.keyword, rfl, hk.right⟩
      by_cases hd : d = []
      · subst hd
        exact .inl ⟨[], by simp, by simpa using hk.keyword, hk.left, rfl⟩
      have hbword : ¬atWordEnd b.reverse :=
        not_atWordEnd (by simpa using hb) fun c hc => hword c (by simp [List.mem_reverse.1 hc])
      have hdword : ¬atWordEnd d := not_atWordEnd hd fun c hc => hword c (by simp [hc])
      rcases hcut with hcut | hcut
      · rw [List.reverse_append] at hcut
        exact absurd (atWordEnd_of_append hcut) hbword
      · exact absurd (atWordEnd_of_append hcut) hdword

theorem not_isDefinitionLine_append {s t : Text} (hs : ¬isDefinitionLine s)
    (ht : ¬isDefinitionLine t) (hcut : atWordEnd s.reverse ∨ atWordEnd t) :
    ¬isDefinitionLine (s ++ t) := by
  rw [isDefinitionLine_iff] at hs ht ⊢
  rintro ⟨a, w, r, h, hk⟩
  rcases hk.of_append h hcut with ⟨b, hb, hkb⟩ | ⟨b, -, hb, hkb⟩
  · exact hs ⟨a, w, b, hb, hkb⟩
  · exact ht ⟨b, w, r, hb, hkb⟩

theorem not_isDefinitionLine_of_space {s : Text} (hs : ∀ c ∈ s, isSpace c) :
    ¬isDefinitionLine s := by
  rw [isDefinitionLine_iff]
  rintro ⟨a, w, r, rfl, hk⟩
  obtain ⟨c, hc⟩ : ∃ c, c ∈ w := by
    rcases hk.keyword with rfl | rfl
    · exact ⟨'d', by decide⟩
    · exact ⟨'c', by decide⟩
  exact not_isWord_of_isSpace (hs c (by simp [hc])) (hk.keyword.isWord c hc)

theorem isDefinitionLine_space_append {s : Text} (hs : ∀ c ∈ s, isSpace c) (t : Text) :
    isDefinitionLine (s ++ t) = isDefinitionLine t := by
  have hend : atWordEnd s.reverse := atWordEnd_of_isSpace fun c hc => hs c (List.mem_reverse.1 hc)
  rw [Bool.eq_iff_iff]
  constructor
  · intro h
    by_contra ht
    exact not_isDefinitionLine_append (not_isDefinitionLine_of_space hs) ht (.inl hend) h
  · rw [isDefinitionLine_iff, isDefinitionLine_iff]
    rintro ⟨a, w, r, rfl, hk⟩
    refine ⟨s ++ a, w, r, by simp, hk.keyword, ?_, hk.right⟩
    rw [List.reverse_append]
    exact atWordEnd_append hk.left hend

theorem isDefinitionLine_append_space (t : Text) {s : Text} (hs : ∀ c ∈ s, isSpace c) :
    isDefinitionLine (t ++ s) = isDefinitionLine t := by
  have hend : atWordEnd s := atWordEnd_of_isSpace hs
  rw [Bool.eq_iff_iff]
  constructor
  · intro h
    by_contra ht
    exact not_isDefinitionLine_append ht (not_isDefinitionLine_of_space hs) (.inr hend) h
  · rw [isDefinitionLine_iff, isDefinitionLine_iff]
    rintro ⟨a, w, r, rfl, hk⟩
    exact ⟨a, w, r ++ s, by simp, hk.keyword, hk.left, atWordEnd_append hk.right hend⟩

theorem isDefinitionLine_trim (t : Text) : isDefinitionLine (trim t) = isDefinitionLine t :=
  apply_trim (fun _ t hs => isDefinitionLine_space_append hs t)
    (fun t _ hs => isDefinitionLine_append_space t hs) t

theorem isKeyword_of_isDefinitionLine {t : Text} (ht : ∀ c ∈ t, isWord c)
    (h : isDefinitionLine t) : IsKeyword t := by
  obtain ⟨a, w, r, rfl, hk⟩ := isDefinitionLine_iff.1 h
  have ha : a = [] := hk.left_eq_nil fun c hc => ht c (by simp [hc])
  have hr : r = [] := by
    by_contra hne
    exact not_atWordEnd hne (fun c hc => ht c (by simp [hc])) hk.right
  subst ha hr
  simpa using hk.keyword

end DocSnippet.Source

import DocSnippet.Text.Nesting
import DocSnippet.Text.Space
import DocSnippet.Text.Word
import Mathlib.Data.List.TakeWhile

/-! Words. White space is disjoint from word characters and quotes, and the word at the head of a
text ends where the first other character stands. -/

namespace DocSnippet.Text

/-! ### Character classes -/

/-- Whether no range of one list meets a range of the other. -/
def rangesDisjoint (as bs : List (Nat × Nat)) : Bool :=
  as.all fun a => bs.all fun b => Nat.blt a.2 b.1 || Nat.blt b.2 a.1

theorem not_inRanges_of_disjoint {as bs : List (Nat × Nat)} (h : rangesDisjoint as bs) {c : Char}
    (hc : inRanges as c) : ¬inRanges bs c := by
  simp only [inRanges, List.any_eq_true, Bool.and_eq_true, Nat.ble_eq] at hc ⊢
  rintro ⟨b, hb, hb₁, hb₂⟩
  obtain ⟨a, ha, ha₁, ha₂⟩ := hc
  simp only [rangesDisjoint, List.all_eq_true, Bool.or_eq_true, Nat.blt_eq] at h
  have := h a ha b hb
  omega

theorem spaceRanges_disjoint_word : rangesDisjoint spaceRanges (asciiWordRanges ++ wordRanges) := by
  decide +kernel

theorem not_isWord_of_isSpace {c : Char} (h : isSpace c) : ¬isWord c := by
  have hc := not_inRanges_of_disjoint spaceRanges_disjoint_word h
  simp only [inRanges, List.any_append, Bool.or_eq_true, not_or] at hc
  rw [isWord]
  split
  · exact hc.1
  · exact hc.2

theorem not_isSpace_of_isWord {c : Char} (h : isWord c) : ¬isSpace c :=
  fun hs => not_isWord_of_isSpace hs h

theorem ne_of_isWord {c d : Char} (hc : isWord c) (hd : isWord d = false) : c ≠ d := by
  rintro rfl
  simp [hc] at hd

theorem ne_of_isSpace {c d : Char} (hc : isSpace c) (hd : isSpace d = false) : c ≠ d := by
  rintro rfl
  simp [hc] at hd

theorem ne_of_isQuote {c d : Char} (hc : isQuote c) (hd : isQuote d = false) : c ≠ d := by
  rintro rfl
  simp [hc] at hd

theorem not_isSpace_of_isQuote {q : Char} (hq : isQuote q) : ¬isSpace q := by
  simp only [isQuote, Bool.or_eq_true, beq_iff_eq] at hq
  rcases hq with rfl | rfl <;> decide

theorem digitRanges_disjoint_space : rangesDisjoint digitRanges spaceRanges := by
  decide +kernel

theorem not_isSpace_of_isDigit {c : Char} (hc : isDigit c) : ¬isSpace c :=
  not_inRanges_of_disjoint digitRanges_disjoint_space hc

theorem not_isQuote_of_isWord {c : Char} (hc : isWord c) : ¬isQuote c := by
  simp [isQuote, ne_of_isWord hc (d := '"') (by decide), ne_of_isWord hc (d := '\'') (by decide)]

/-! ### Words and literals at the head of a text -/

theorem atWordEnd_append {s t : Text} (hs : atWordEnd s) (ht : atWordEnd t) :
    atWordEnd (s ++ t) := by
  cases s with
  | nil => exact ht
  | cons c s => exact hs

theorem atWordEnd_of_isSpace {t : Text} (h : ∀ c ∈ t, isSpace c) : atWordEnd t := by
  cases t with
  | nil => rfl
  | cons c t => simpa [atWordEnd] using not_isWord_of_isSpace (h c (by simp))

theorem atWordEnd_of_append {s t : Text} (h : atWordEnd (s ++ t)) : atWordEnd s := by
  cases s with
  | nil => rfl
  | cons c s => exact h

theorem not_atWordEnd {w : Text} (hw : w ≠ []) (h : ∀ c ∈ w, isWord c) : ¬atWordEnd w := by
  cases w with
  | nil => exact absurd rfl hw
  | cons c w => simp [atWordEnd, h c]

/-- A text that does not go on with a word is left behind it. -/
theorem word?_append_of_atWordEnd (s : Text) {u : Text} (hu : atWordEnd u) :
    word? (s ++ u) = (word? s).map fun p => (p.1, p.2 ++ u) := by
  have htake : u.takeWhile isWord = [] := by
    cases u with
    | nil => rfl
    | cons c u => simpa [atWordEnd] using hu
  have hdrop : u.dropWhile isWord = u := by
    cases u with
    | nil => rfl
    | cons c u => simpa [atWordEnd] using hu
  have htake' : (s ++ u).takeWhile isWord = s.takeWhile isWord := by
    rw [List.takeWhile_append, htake, List.append_nil]
    split
    · next h => exact ((List.takeWhile_prefix _).eq_of_length h).symm
    · rfl
  have hdrop' : (s ++ u).dropWhile isWord = s.dropWhile isWord ++ u := by
    rw [List.dropWhile_append, hdrop]
    split
    · next h => rw [List.isEmpty_iff.1 h, List.nil_append]
    · rfl
  rw [word?, word?, htake', hdrop']
  cases s.takeWhile isWord <;> rfl

theorem word?_append {w r : Text} (hw : w ≠ []) (h : ∀ c ∈ w, isWord c) (hr : atWordEnd r) :
    word? (w ++ r) = some (w, r) := by
  have hword : word? w = some (w, []) := by
    rw [word?, List.takeWhile_eq_self_iff.2 h, List.dropWhile_eq_nil_iff.2 h]
    cases w with
    | nil => exact absurd rfl hw
    | cons c w => rfl
  rw [word?_append_of_atWordEnd w hr, hword]
  rfl

theorem of_word?_eq_some {t w r : Text} (h : word? t = some (w, r)) :
    w ≠ [] ∧ (∀ c ∈ w, isWord c) ∧ atWordEnd r ∧ t = w ++ r := by
  unfold word? at h
  split at h
  · contradiction
  next w' hne =>
    simp only [Option.some.injEq, Prod.mk.injEq] at h
    obtain ⟨rfl, rfl⟩ := h
    refine ⟨hne, fun c hc => List.mem_takeWhile_imp hc, ?_, List.takeWhile_append_dropWhile.symm⟩
    cases hr : t.dropWhile isWord with
    | nil => rfl
    | cons c r =>
      have hc := List.head?_dropWhile_not isWord t
      simp only [hr, List.head?_cons] at hc
      simp [atWordEnd, hc]

theorem word?_isSome_iff {t : Text} : (word? t).isSome ↔ ∃ c r, t = c :: r ∧ isWord c := by
  cases t with
  | nil => simp [word?]
  | cons c t =>
    by_cases hc : isWord c <;> simp [word?, hc]

theorem word?_eq_none {t : Text} (h : ∀ c ∈ t.head?, ¬isWord c) : word? t = none := by
  cases t with
  | nil => rfl
  | cons c t => simp [word?, h c rfl]

theorem bne_of_notMem {sep : Char} {t : Text} (h : sep ∉ t) : ∀ c ∈ t, (c != sep) = true := by
  intro c hc
  rw [bne_iff_ne]
  rintro rfl
  exact h hc

theorem startsWith_iff {p t : Text} : startsWith p t ↔ p <+: t := by
  rw [startsWith, Option.isSome_iff_exists]
  constructor
  · rintro ⟨r, hr⟩
    exact ⟨r, (after?_eq_some_iff.1 hr).symm⟩
  · rintro ⟨r, rfl⟩
    exact ⟨r, after?_eq_some_iff.2 rfl⟩

/-- Whether a literal stands at the head of a text does not depend on a text behind that does not go
on with it. -/
theorem after?_append {w u : Text} (hu : ∀ c ∈ u.head?, c ∉ w) (s : Text) :
    after? w (s ++ u) = (after? w s).map (· ++ u) := by
  induction w generalizing s with
  | nil => rfl
  | cons a w ih =>
    cases s with
    | nil =>
      cases u with
      | nil => rfl
      | cons c u =>
        have hne : a ≠ c := by
          rintro rfl
          exact hu a rfl (by simp)
        simp [after?, hne]
    | cons c s =>
      have ih := ih (fun c hc h => hu c hc (by simp [h])) s
      by_cases hac : a = c <;> simp [after?, hac, ih]

end DocSnippet.Text

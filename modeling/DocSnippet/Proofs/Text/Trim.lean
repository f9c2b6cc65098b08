import DocSnippet.Text.Space
import Mathlib.Data.List.DropRight
import Mathlib.Data.List.Infix

/-! Trimming. White space at the end of a text is invisible to `trimEnd`, to `trim` and to the
test for a blank text, the two trims commute, and a text is trimmed exactly if neither end is white
space. -/

namespace DocSnippet.Text

theorem dropWhileEnd_eq_rdropWhile (p : Char → Bool) (t : Text) :
    dropWhileEnd p t = t.rdropWhile p := by
  induction t with
  | nil => rfl
  | cons c t ih =>
    have hc : List.rdropWhile p (c :: t) =
        if t.rdropWhile p = [] then [c].rdropWhile p else c :: t.rdropWhile p := by
      simp only [List.rdropWhile, List.reverse_cons, List.dropWhile_append, List.reverse_eq_nil_iff,
        List.isEmpty_iff]
      split <;> simp
    rw [dropWhileEnd, ih, hc]
    cases h : List.rdropWhile p t with
    | nil => simp [List.rdropWhile_singleton]
    | cons d s => simp

/-! ### White space at the end -/

theorem isBlank_iff {t : Text} : isBlank t ↔ ∀ c ∈ t, isSpace c := by
  simp [isBlank]

theorem trimEnd_isPrefix (t : Text) : trimEnd t <+: t := by
  rw [trimEnd, dropWhileEnd_eq_rdropWhile]
  exact List.rdropWhile_prefix _ _

theorem exists_eq_trimEnd_append (t : Text) : ∃ s, (∀ c ∈ s, isSpace c) ∧ t = trimEnd t ++ s := by
  refine ⟨t.rtakeWhile isSpace, fun c hc => List.mem_rtakeWhile_imp hc, ?_⟩
  rw [trimEnd, dropWhileEnd_eq_rdropWhile, List.rdropWhile_append_rtakeWhile]

theorem trimEnd_append_of_space (t : Text) {s : Text} (h : ∀ c ∈ s, isSpace c) :
    trimEnd (t ++ s) = trimEnd t := by
  simp only [trimEnd, dropWhileEnd_eq_rdropWhile, List.rdropWhile, List.reverse_append]
  rw [List.dropWhile_append_of_pos (by simpa using h)]

theorem trimEnd_eq_nil_iff {t : Text} : trimEnd t = [] ↔ isBlank t := by
  rw [trimEnd, dropWhileEnd_eq_rdropWhile, List.rdropWhile_eq_nil_iff, isBlank_iff]

@[simp] theorem trimEnd_trimEnd (t : Text) : trimEnd (trimEnd t) = trimEnd t := by
  simp only [trimEnd, dropWhileEnd_eq_rdropWhile]
  exact List.rdropWhile_idempotent _ _

@[simp] theorem isBlank_trimEnd (t : Text) : isBlank (trimEnd t) = isBlank t := by
  rw [Bool.eq_iff_iff, ← trimEnd_eq_nil_iff, trimEnd_trimEnd, trimEnd_eq_nil_iff]

/-- A text keeps its end exactly if its last character is visible. -/
theorem trimEnd_eq_self_iff {t : Text} : trimEnd t = t ↔ ∀ c ∈ t.getLast?, ¬isSpace c := by
  rw [trimEnd, dropWhileEnd_eq_rdropWhile, List.rdropWhile_eq_self_iff]
  cases t with
  | nil => simp
  | cons c t => simp [List.getLast?_eq_some_getLast]

/-! ### Both ends -/

theorem trimStart_trimEnd (t : Text) : trimStart (trimEnd t) = trim t := by
  obtain ⟨s, hs, ht⟩ := exists_eq_trimEnd_append t
  by_cases hb : isBlank t
  · have hd : trimStart t = [] := List.dropWhile_eq_nil_iff.2 (isBlank_iff.1 hb)
    rw [trimEnd_eq_nil_iff.2 hb, trim, hd]
    rfl
  · -- a visible character stops the trim at the head before it reaches `s`
    have hne : trimStart (trimEnd t) ≠ [] := by
      rw [Ne, trimStart, List.dropWhile_eq_nil_iff, ← isBlank_iff, isBlank_trimEnd]
      exact hb
    have hstart : trimStart t = trimStart (trimEnd t) ++ s := by
      conv_lhs => rw [ht, trimStart, List.dropWhile_append]
      rw [if_neg (by simpa [trimStart] using hne), trimStart]
    have hlast : (trimEnd t).getLast? = (trimStart (trimEnd t)).getLast? := by
      conv_lhs => rw [← List.takeWhile_append_dropWhile (p := isSpace) (l := trimEnd t)]
      exact List.getLast?_append_of_ne_nil _ hne
    have hend : trimEnd (trimStart (trimEnd t)) = trimStart (trimEnd t) := by
      rw [trimEnd_eq_self_iff, ← hlast]
      exact trimEnd_eq_self_iff.1 (trimEnd_trimEnd t)
    rw [trim, hstart, trimEnd_append_of_space _ hs, hend]

@[simp] theorem trim_trimEnd (t : Text) : trim (trimEnd t) = trim t := by
  rw [← trimStart_trimEnd, trimEnd_trimEnd, trimStart_trimEnd]

@[simp] theorem trim_trim (t : Text) : trim (trim t) = trim t := by
  have hstart : trimStart (trim t) = trim t := by
    rw [← trimStart_trimEnd]
    exact List.dropWhile_idempotent _ _
  have hend : trimEnd (trim t) = trim t := trimEnd_trimEnd _
  rw [← trimStart_trimEnd, hend, hstart]

theorem trimStart_eq_self_iff {t : Text} : trimStart t = t ↔ ∀ c ∈ t.head?, ¬isSpace c := by
  cases t with
  | nil => simp [trimStart]
  | cons c t => simp [trimStart, List.dropWhile_eq_self_iff]

theorem trim_eq_self_iff {t : Text} :
    trim t = t ↔ (∀ c ∈ t.head?, ¬isSpace c) ∧ ∀ c ∈ t.getLast?, ¬isSpace c := by
  rw [← trimStart_eq_self_iff, ← trimEnd_eq_self_iff, trim]
  constructor
  · intro h
    have hs : trimStart t = t := by
      refine (List.dropWhile_suffix _).eq_of_length_le ?_
      conv_lhs => rw [← h]
      exact (trimEnd_isPrefix _).length_le
    exact ⟨hs, by rwa [hs] at h⟩
  · rintro ⟨hs, he⟩
    rw [hs, he]

/-- Two trimmed texts keep what stands between them. -/
theorem trim_append_append {s t : Text} (hs : trim s = s) (ht : trim t = t) (hsne : s ≠ [])
    (htne : t ≠ []) (m : Text) : trim (s ++ m ++ t) = s ++ m ++ t := by
  rw [trim_eq_self_iff]
  refine ⟨fun c hc => (trim_eq_self_iff.1 hs).1 c ?_, fun c hc => (trim_eq_self_iff.1 ht).2 c ?_⟩
  · obtain ⟨d, r, rfl⟩ := List.exists_cons_of_ne_nil hsne
    simpa using hc
  · rwa [List.getLast?_append_of_ne_nil _ htne] at hc

/-- A trimmed text keeps its place at the head of a longer one. -/
theorem isPrefix_trim_append {s : Text} (hs : trim s = s) (hne : s ≠ []) (t : Text) :
    s <+: trim (s ++ t) := by
  have hstart : trimStart (s ++ t) = s ++ t := by
    rw [trimStart_eq_self_iff, List.head?_append_of_ne_nil _ hne]
    exact (trim_eq_self_iff.1 hs).1
  obtain ⟨u, hu, ht⟩ := exists_eq_trimEnd_append t
  rw [trim, hstart, ht, ← List.append_assoc, trimEnd_append_of_space _ hu]
  by_cases hempty : trimEnd t = []
  · rw [hempty, List.append_nil, trimEnd_eq_self_iff.2 (trim_eq_self_iff.1 hs).2]
  · have hend : trimEnd (s ++ trimEnd t) = s ++ trimEnd t := by
      rw [trimEnd_eq_self_iff, List.getLast?_append_of_ne_nil _ hempty]
      exact trimEnd_eq_self_iff.1 (trimEnd_trimEnd t)
    rw [hend]
    exact List.prefix_append s _

theorem trim_isInfix (t : Text) : trim t <:+: t :=
  (trimEnd_isPrefix _).isInfix.trans (List.dropWhile_suffix _).isInfix

theorem trim_append_of_space (t : Text) {s : Text} (h : ∀ c ∈ s, isSpace c) :
    trim (t ++ s) = trim t := by
  rw [← trimStart_trimEnd, trimEnd_append_of_space _ h, trimStart_trimEnd]

theorem trim_cons_of_space {c : Char} (h : isSpace c) (t : Text) : trim (c :: t) = trim t := by
  simp [trim, trimStart, h]

theorem trimStart_append (s u : Text) :
    trimStart (s ++ u) = if trimStart s = [] then trimStart u else trimStart s ++ u := by
  by_cases h : s.dropWhile isSpace = [] <;> simp [trimStart, List.dropWhile_append, h]

theorem trim_space_append {s : Text} (h : ∀ c ∈ s, isSpace c) (t : Text) :
    trim (s ++ t) = trim t := by
  rw [trim, trimStart, List.dropWhile_append_of_pos h]
  rfl

/-- A text is its trimmed form with white space around it. -/
theorem exists_eq_append_trim_append (t : Text) :
    ∃ s u, (∀ c ∈ s, isSpace c) ∧ (∀ c ∈ u, isSpace c) ∧ t = s ++ trim t ++ u := by
  obtain ⟨u, hu, ht⟩ := exists_eq_trimEnd_append (trimStart t)
  refine ⟨t.takeWhile isSpace, u, fun c hc => List.mem_takeWhile_imp hc, hu, ?_⟩
  calc t = t.takeWhile isSpace ++ trimStart t := List.takeWhile_append_dropWhile.symm
    _ = t.takeWhile isSpace ++ trim t ++ u := by rw [List.append_assoc, trim, ← ht]

theorem mem_trim_of_not_isSpace {t : Text} {c : Char} (hmem : c ∈ t) (hc : ¬isSpace c) :
    c ∈ trim t := by
  obtain ⟨s, u, hs, hu, ht⟩ := exists_eq_append_trim_append t
  rw [ht, List.mem_append, List.mem_append] at hmem
  rcases hmem with (hmem | hmem) | hmem
  · exact absurd (hs c hmem) hc
  · exact hmem
  · exact absurd (hu c hmem) hc

/-- What does not see white space at either end does not see whether a text is trimmed. -/
theorem apply_trim {α : Type} {f : Text → α}
    (hstart : ∀ s t, (∀ c ∈ s, isSpace c) → f (s ++ t) = f t)
    (hend : ∀ t s, (∀ c ∈ s, isSpace c) → f (t ++ s) = f t) (t : Text) : f (trim t) = f t := by
  obtain ⟨s, u, hs, hu, ht⟩ := exists_eq_append_trim_append t
  conv_rhs => rw [ht, hend _ _ hu, hstart _ _ hs]

theorem trim_eq_nil_iff {t : Text} : trim t = [] ↔ ∀ c ∈ t, isSpace c := by
  rw [trim, trimEnd_eq_nil_iff, isBlank_iff]
  constructor
  · intro h c hc
    rw [← List.takeWhile_append_dropWhile (p := isSpace) (l := t), List.mem_append] at hc
    rcases hc with hc | hc
    · exact List.mem_takeWhile_imp hc
    · exact h c hc
  · exact fun h c hc => h c ((List.dropWhile_suffix _).subset hc)

/-! ### White space at the head -/

theorem exists_eq_append_trimStart (t : Text) : ∃ s, isBlank s ∧ t = s ++ trimStart t :=
  ⟨t.takeWhile isSpace, isBlank_iff.2 fun _ hc => List.mem_takeWhile_imp hc,
    List.takeWhile_append_dropWhile.symm⟩

theorem trimStart_space_append {gap t : Text} (hspace : ∀ c ∈ gap, isSpace c)
    (ht : ∀ c ∈ t.head?, ¬isSpace c) : trimStart (gap ++ t) = t := by
  rw [trimStart, List.dropWhile_append_of_pos hspace]
  exact trimStart_eq_self_iff.2 ht

theorem takeWhile_space_append {gap t : Text} (hspace : ∀ c ∈ gap, isSpace c)
    (ht : ∀ c ∈ t.head?, ¬isSpace c) : (gap ++ t).takeWhile isSpace = gap := by
  rw [List.takeWhile_append_of_pos hspace]
  cases t with
  | nil => simp
  | cons c t => simp [ht c rfl]

theorem exists_of_afterSpaces?_eq_some {t r : Text} (h : afterSpaces? t = some r) :
    ∃ gap, gap ≠ [] ∧ (∀ c ∈ gap, isSpace c) ∧ t = gap ++ r := by
  cases t with
  | nil => simp [afterSpaces?] at h
  | cons c t =>
    rw [afterSpaces?] at h
    split at h
    next hc =>
      obtain rfl : trimStart t = r := by simpa using h
      refine ⟨c :: t.takeWhile isSpace, by simp, ?_, ?_⟩
      · exact List.forall_mem_cons.2 ⟨hc, fun d hd => List.mem_takeWhile_imp hd⟩
      · rw [List.cons_append, trimStart, List.takeWhile_append_dropWhile]
    next => simp at h

theorem afterSpaces?_append {gap t : Text} (hne : gap ≠ []) (hspace : ∀ c ∈ gap, isSpace c)
    (ht : ∀ c ∈ t.head?, ¬isSpace c) : afterSpaces? (gap ++ t) = some t := by
  obtain ⟨c, gap, rfl⟩ := List.exists_cons_of_ne_nil hne
  have hgap := List.forall_mem_cons.1 hspace
  rw [List.cons_append, afterSpaces?, if_pos hgap.1, trimStart_space_append hgap.2 ht]

end DocSnippet.Text

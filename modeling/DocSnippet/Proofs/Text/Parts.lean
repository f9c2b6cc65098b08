import DocSnippet.Proofs.Text.Trim
import DocSnippet.Proofs.Text.Word
import Mathlib.Data.List.Infix

/-! Parts between separators. A part is a text that the separator does not cut and that closes what
it opens; white space around it changes nothing, parts can be put one after another, and parts
joined by the separator are found again. -/

namespace DocSnippet.Text

variable {sep : Char}

def appendHead (s : Text) : List Text → List Text
  | [] => [s]
  | p :: ps => (s ++ p) :: ps

theorem consHead_appendHead (c : Char) (s : Text) (ps : List Text) :
    consHead c (appendHead s ps) = appendHead (c :: s) ps := by
  cases ps <;> rfl

theorem eq_singleton_of_consHead {c : Char} {s : Text} {ps : List Text} (hne : ps ≠ [])
    (h : consHead c ps = [c :: s]) : ps = [s] := by
  match ps, hne with
  | p :: ps, _ =>
    simp only [consHead, List.cons.injEq, true_and] at h
    rw [h.1, h.2]

/-- Where nothing is cut, the scan goes on behind a text in the state that the text leaves. -/
theorem topPartsFrom_append {n : Nesting} {s : Text} (h : topPartsFrom sep n s = [s]) (t : Text) :
    topPartsFrom sep n (s ++ t) = appendHead s (topPartsFrom sep (n.run s) t) := by
  induction s generalizing n with
  | nil =>
    obtain ⟨p, ps, hps⟩ := List.exists_cons_of_ne_nil (topPartsFrom_ne_nil sep n t)
    simp [Nesting.run, hps, appendHead]
  | cons c s ih =>
    rw [topPartsFrom] at h
    by_cases hc : n.cuts sep c
    · simp [hc] at h
    · rw [if_neg hc] at h
      have hs := eq_singleton_of_consHead (topPartsFrom_ne_nil sep _ s) h
      rw [List.cons_append, topPartsFrom, if_neg hc, ih hs, consHead_appendHead]
      rfl

/-! ### Parts -/

structure IsPart (sep : Char) (t : Text) : Prop where
  whole : topParts sep t = [t]
  balanced : isBalanced t

instance (sep : Char) (t : Text) : Decidable (IsPart sep t) :=
  decidable_of_iff (topParts sep t = [t] ∧ isBalanced t)
    ⟨fun h => ⟨h.1, h.2⟩, fun h => ⟨h.whole, h.balanced⟩⟩

namespace IsPart

theorem run_start {t : Text} (h : IsPart sep t) : Nesting.start.run t = .start := by
  have hb := h.balanced
  rw [isBalanced, Nesting.isClosed, Bool.and_eq_true, List.isEmpty_iff] at hb
  calc Nesting.start.run t
      = ⟨(Nesting.start.run t).opened, (Nesting.start.run t).sound⟩ := rfl
    _ = .start := by rw [hb.1, hb.2]; rfl

theorem append {s t : Text} (hs : IsPart sep s) (ht : IsPart sep t) : IsPart sep (s ++ t) where
  whole := by
    have hw := ht.whole
    rw [topParts] at hw
    rw [topParts, topPartsFrom_append hs.whole, hs.run_start, hw]
    rfl
  balanced := by
    rw [isBalanced, Nesting.run_append, hs.run_start]
    exact ht.balanced

theorem of_plain {t : Text} (h : ∀ c ∈ t, c ≠ sep ∧ ¬isOpening c ∧ ¬isClosing c) :
    IsPart sep t := by
  induction t with
  | nil => exact ⟨rfl, rfl⟩
  | cons c t ih =>
    obtain ⟨hsep, hopen, hclose⟩ := h c (by simp)
    have ht := ih fun d hd => h d (by simp [hd])
    have hstep : Nesting.start.step c = .start := by
      simp [Nesting.step, Nesting.start, Nesting.bracket, hopen, hclose]
    have hcut : ¬Nesting.start.cuts sep c := by simp [Nesting.cuts, hsep]
    have hw := ht.whole
    rw [topParts] at hw
    refine ⟨?_, ?_⟩
    · rw [topParts, topPartsFrom, if_neg hcut, hstep, hw]
      rfl
    · have hb := ht.balanced
      rw [isBalanced] at hb ⊢
      rwa [Nesting.run, List.foldl_cons, hstep]

end IsPart

/-! ### White space around a part -/

theorem not_isOpening_of_isSpace {c : Char} (hc : isSpace c) : ¬isOpening c := by
  have hne : ∀ d, isSpace d = false → c ≠ d := fun _ => ne_of_isSpace hc
  simp [isOpening, isQuote, closer?, hne '"' rfl, hne '\'' rfl, hne '[' rfl, hne '(' rfl,
    hne '{' rfl]

theorem not_isClosing_of_isSpace {c : Char} (hc : isSpace c) : ¬isClosing c := by
  simp [isClosing, ne_of_isSpace hc (d := ']') rfl, ne_of_isSpace hc (d := ')') rfl,
    ne_of_isSpace hc (d := '}') rfl]

theorem Nesting.step_space (n : Nesting) {c : Char} (hc : isSpace c) : n.step c = n := by
  have hbracket : n.bracket c = n := by
    simp [bracket, not_isOpening_of_isSpace hc, not_isClosing_of_isSpace hc]
  rw [step]
  split
  · next o rest ho =>
    split
    · next hq =>
      have hne : c ≠ o := by
        rintro rfl
        exact not_isSpace_of_isQuote hq hc
      rw [if_neg hne]
    · exact hbracket
  · exact hbracket

theorem Nesting.run_space (n : Nesting) {s : Text} (hs : ∀ c ∈ s, isSpace c) : n.run s = n := by
  induction s with
  | nil => rfl
  | cons c s ih =>
    rw [run, List.foldl_cons, n.step_space (hs c (by simp))]
    exact ih fun d hd => hs d (by simp [hd])

/-- What is not cut has no head that is cut. -/
theorem topPartsFrom_of_append {n : Nesting} {s t : Text}
    (h : topPartsFrom sep n (s ++ t) = [s ++ t]) : topPartsFrom sep n s = [s] := by
  induction s generalizing n with
  | nil => rfl
  | cons c s ih =>
    rw [List.cons_append, topPartsFrom] at h
    by_cases hc : n.cuts sep c
    · simp [hc] at h
    · rw [if_neg hc] at h
      have hs := ih (eq_singleton_of_consHead (topPartsFrom_ne_nil sep _ _) h)
      rw [topPartsFrom, if_neg hc, hs]
      rfl

namespace IsPart

variable {s t : Text}

theorem of_space (hsep : ¬isSpace sep) (hs : ∀ c ∈ s, isSpace c) : IsPart sep s := by
  refine of_plain fun c hc => ⟨?_, not_isOpening_of_isSpace (hs c hc),
    not_isClosing_of_isSpace (hs c hc)⟩
  rintro rfl
  exact hsep (hs _ hc)

theorem space_append_iff (hsep : ¬isSpace sep) (hs : ∀ c ∈ s, isSpace c) :
    IsPart sep (s ++ t) ↔ IsPart sep t := by
  have hpart := of_space hsep hs
  refine ⟨fun h => ⟨?_, ?_⟩, hpart.append⟩
  · have hwhole := h.whole
    rw [topParts, topPartsFrom_append hpart.whole, hpart.run_start] at hwhole
    obtain ⟨p, ps, hps⟩ := List.exists_cons_of_ne_nil (topPartsFrom_ne_nil sep .start t)
    rw [hps, appendHead, List.cons.injEq, List.append_cancel_left_eq] at hwhole
    rw [topParts, hps, hwhole.1, hwhole.2]
  · have hbalanced := h.balanced
    rwa [isBalanced, Nesting.run_append, hpart.run_start] at hbalanced

theorem append_space_iff (hsep : ¬isSpace sep) (hs : ∀ c ∈ s, isSpace c) :
    IsPart sep (t ++ s) ↔ IsPart sep t := by
  refine ⟨fun h => ⟨topPartsFrom_of_append h.whole, ?_⟩, fun h => h.append (of_space hsep hs)⟩
  have hbalanced := h.balanced
  rwa [isBalanced, Nesting.run_append, Nesting.run_space _ hs] at hbalanced

theorem trim_iff (hsep : ¬isSpace sep) (t : Text) : IsPart sep (trim t) ↔ IsPart sep t :=
  iff_of_eq (apply_trim (f := IsPart sep) (fun _ _ hs => propext (space_append_iff hsep hs))
    (fun _ _ hs => propext (append_space_iff hsep hs)) t)

end IsPart

/-! ### Joining -/

theorem topParts_append_sep (hopen : ¬isOpening sep) (hclose : ¬isClosing sep) {p : Text}
    (hp : IsPart sep p) (t : Text) : topParts sep (p ++ sep :: t) = p :: topParts sep t := by
  have hcut : Nesting.start.cuts sep sep := by simp [Nesting.cuts, Nesting.start, hopen, hclose]
  rw [topParts, topPartsFrom_append hp.whole, hp.run_start, topPartsFrom, if_pos hcut]
  simp [appendHead, topParts]

/-- Parts joined by the separator are found again. -/
theorem topParts_join (hopen : ¬isOpening sep) (hclose : ¬isClosing sep) {ps : List Text}
    (hne : ps ≠ []) (h : ∀ p ∈ ps, IsPart sep p) : topParts sep (join [sep] ps) = ps := by
  induction ps with
  | nil => exact absurd rfl hne
  | cons p ps ih =>
    cases ps with
    | nil => exact (h p (by simp)).whole
    | cons q ps =>
      rw [join_cons _ _ (by simp), List.append_assoc, List.singleton_append,
        topParts_append_sep hopen hclose (h p (by simp)),
        ih (by simp) fun r hr => h r (List.mem_cons_of_mem _ hr)]

/-! ### Cuts -/

theorem length_consHead (c : Char) {ps : List Text} (hne : ps ≠ []) :
    (consHead c ps).length = ps.length := by
  match ps, hne with
  | p :: ps, _ => rfl

theorem take_consHead (c : Char) {ps : List Text} (hne : ps ≠ []) (j : Nat) :
    (consHead c ps).take (j + 1) = consHead c (ps.take (j + 1)) := by
  match ps, hne with
  | p :: ps, _ => rfl

/-- Behind some of the parts, if not all, a separator follows, and nothing is open there. -/
theorem exists_cut {n : Nesting} {t : Text} {j : Nat}
    (hj : j + 1 < (topPartsFrom sep n t).length) :
    ∃ u r, join [sep] ((topPartsFrom sep n t).take (j + 1)) = u ∧ t = u ++ sep :: r ∧
      (n.run u).cuts sep sep := by
  induction t generalizing n j with
  | nil => simp [topPartsFrom] at hj
  | cons c t ih =>
    rw [topPartsFrom] at hj ⊢
    by_cases hc : n.cuts sep c
    · obtain rfl := Nesting.eq_of_cuts hc
      rw [if_pos hc] at hj ⊢
      cases j with
      | zero => exact ⟨[], t, rfl, rfl, hc⟩
      | succ j =>
        obtain ⟨u, r, hu, rfl, hcut⟩ := ih (Nat.lt_of_succ_lt_succ hj)
        refine ⟨c :: u, r, ?_, rfl, ?_⟩
        · have hne : (topPartsFrom c n (u ++ c :: r)).take (j + 1) ≠ [] := by
            simp [topPartsFrom_ne_nil]
          rw [List.take_succ_cons, join_cons _ _ hne, hu]
          rfl
        · rwa [Nesting.run, List.foldl_cons, Nesting.step_of_cuts hc]
    · have hne := topPartsFrom_ne_nil sep (n.step c) t
      rw [if_neg hc] at hj ⊢
      rw [length_consHead c hne] at hj
      obtain ⟨u, r, hu, rfl, hcut⟩ := ih hj
      refine ⟨c :: u, r, ?_, rfl, hcut⟩
      rw [take_consHead c hne, join_consHead _ _ (by simp [hne]), hu]

theorem join_concat (sep : Text) {ts : List Text} (hne : ts ≠ []) (t : Text) :
    join sep (ts ++ [t]) = join sep ts ++ sep ++ t := by
  induction ts with
  | nil => exact absurd rfl hne
  | cons u ts ih =>
    by_cases hts : ts = []
    · subst hts
      rfl
    · rw [List.cons_append, join_cons _ _ (by simp), ih hts, join_cons _ _ hts]
      simp

theorem join_concat_append (sep : Text) (ls : List Text) (s t : Text) :
    join sep (ls ++ [s ++ t]) = join sep (ls ++ [s]) ++ t := by
  by_cases hls : ls = []
  · rw [hls]
    rfl
  · rw [join_concat sep hls, join_concat sep hls]
    simp only [List.append_assoc]

theorem isInfix_join_of_mem (sep : Text) {ps : List Text} {p : Text} (h : p ∈ ps) :
    p <:+: join sep ps := by
  induction ps with
  | nil => simp at h
  | cons q ps ih =>
    by_cases hps : ps = []
    · subst hps
      rw [List.mem_singleton.1 h]
      exact List.infix_refl _
    · rw [join_cons _ _ hps]
      rcases List.mem_cons.1 h with rfl | h
      · rw [List.append_assoc]
        exact (List.prefix_append _ _).isInfix
      · exact (ih h).trans (List.suffix_append _ _).isInfix

theorem isInfix_of_mem_topParts {t p : Text} (h : p ∈ topParts sep t) : p <:+: t := by
  have ht := join_topPartsFrom sep .start t
  have hp := isInfix_join_of_mem [sep] h
  rwa [topParts, ht] at hp

end DocSnippet.Text

import DocSnippet.Proofs.Docstring.Tidying

/-! Numbering, seen by pieces. Markers are found from left to right, each where it is first
complete, and the pieces between them come through as they are, with 1, 2, 3 and so on between them.
Of more than three signs in a row those that are left over belong to the piece behind, and they stay
in the result. Numbering and condensing can change places: one reads and writes only visible
characters, the other only white space, and an empty line is still between what a blank one kept
apart. -/

namespace DocSnippet.Docstring

open Text Template

variable {c : Char} {t w : Text}

/-! ### Pieces -/

/-- Pieces of text, each behind a number, from `n` on. -/
def behindNumbers (n : Nat) (ps : List Text) : Text :=
  (ps.zipIdx n).flatMap fun p => decimal p.2 ++ p.1

/-- The pieces of a text between its markers. No marker is complete before the one that follows a
piece. -/
structure IsCutAtMarkers (ps : List Text) (t : Text) : Prop where
  unmarked : ∀ p ∈ ps, IsUnmarked p
  first : ∀ p ∈ ps.dropLast, IsUnmarked (p ++ ['@', '@'])
  joined : join marker ps = t

theorem behindNumbers_cons (n : Nat) (p : Text) (ps : List Text) :
    behindNumbers n (p :: ps) = decimal n ++ p ++ behindNumbers (n + 1) ps := by
  simp [behindNumbers, List.zipIdx_cons]

namespace IsCutAtMarkers

variable {lead : Text} {pieces : List Text}

theorem nil : IsCutAtMarkers [[]] [] where
  unmarked := by decide
  first := by simp
  joined := rfl

theorem marked (h : IsCutAtMarkers (lead :: pieces) t) :
    IsCutAtMarkers ([] :: lead :: pieces) (marker ++ t) where
  unmarked := List.forall_mem_cons.2 ⟨by decide, h.unmarked⟩
  first := List.forall_mem_cons.2 ⟨by decide, h.first⟩
  joined := by rw [join_cons _ _ (by simp), h.joined, List.nil_append]

theorem cons (hc : ¬marker <+: c :: t) (h : IsCutAtMarkers (lead :: pieces) t) :
    IsCutAtMarkers ((c :: lead) :: pieces) (c :: t) := by
  have hkept {p : Text} (hp : IsUnmarked p) (hpt : p <+: t) : IsUnmarked (c :: p) := by
    intro hmarker
    rcases List.infix_cons_iff.1 hmarker with hmarker | hmarker
    · exact hc (hmarker.trans (List.cons_prefix_cons.2 ⟨rfl, hpt⟩))
    · exact hp hmarker
  obtain ⟨hunmarked, hfirst, hjoined⟩ := h
  rw [List.forall_mem_cons] at hunmarked
  refine ⟨List.forall_mem_cons.2 ⟨hkept hunmarked.1 ?_, hunmarked.2⟩, ?_, ?_⟩
  · cases pieces with
    | nil => exact hjoined ▸ List.prefix_rfl
    | cons p ps => exact hjoined ▸ ⟨marker ++ join marker (p :: ps), by simp [join]⟩
  · cases pieces with
    | nil => simp
    | cons p ps =>
      rw [List.dropLast_cons_cons, List.forall_mem_cons] at hfirst ⊢
      refine ⟨hkept hfirst.1 (hjoined ▸ ?_), hfirst.2⟩
      exact ⟨'@' :: join marker (p :: ps), by simp [join, marker]⟩
  · rw [← hjoined]
    exact join_consHead marker c (List.cons_ne_nil lead pieces)

end IsCutAtMarkers

/-- Every text is cut at its markers, and numbering puts numbers between the pieces. -/
theorem exists_isCutAtMarkers (n : Nat) (t : Text) :
    ∃ lead pieces, IsCutAtMarkers (lead :: pieces) t ∧
      numberFrom n t = lead ++ behindNumbers n pieces := by
  induction n, t using numberFrom_induction with
  | nil n => exact ⟨[], [], .nil, rfl⟩
  | marked n t ih =>
    obtain ⟨lead, pieces, hcut, hnumbered⟩ := ih
    refine ⟨[], lead :: pieces, hcut.marked, ?_⟩
    rw [numberFrom_marker, hnumbered, behindNumbers_cons, List.nil_append, List.append_assoc]
  | cons n c t hc ih =>
    obtain ⟨lead, pieces, hcut, hnumbered⟩ := ih
    refine ⟨c :: lead, pieces, hcut.cons hc, ?_⟩
    rw [numberFrom_cons hc, hnumbered, List.cons_append]

/-! ### Blank lines -/

theorem not_isSpace_of_mem_decimal {n : Nat} : ∀ c ∈ decimal n, ¬isSpace c :=
  fun _ hc => not_isSpace_of_isDigit (isDigit_of_mem_decimal hc)

section Visible

variable (hw : ∀ c ∈ w, ¬isSpace c) (hne : w ≠ [])

include hw hne

theorem breaksAhead_visible_append (t : Text) : breaksAhead (w ++ t) = false := by
  obtain ⟨c, w, rfl⟩ := List.exists_cons_of_ne_nil hne
  simp [breaksAhead, hw c List.mem_cons_self]

/-- Visible characters are kept, and nothing is left out behind them. -/
theorem condenseFrom_visible_append (skipping : Bool) (t : Text) :
    condenseFrom skipping (w ++ t) = w ++ condenseFrom false t := by
  have hkept : condenseFrom false (w ++ t) = w ++ condenseFrom false t :=
    condenseFrom_append (fun hmem => hw _ hmem rfl) t
  cases skipping with
  | false => exact hkept
  | true => rw [condenseFrom_true (breaksAhead_visible_append hw hne t), hkept]

end Visible

theorem breaksAhead_cons (c : Char) (t : Text) :
    breaksAhead (c :: t) = (isSpace c && ('\n' == c || breaksAhead t)) := by
  rw [breaksAhead, List.takeWhile_cons]
  split
  · next hc => rw [List.contains_cons, hc, Bool.true_and, breaksAhead]
  · next hc => simp [hc]

/-- A number breaks no more lines than the marker it stands for. -/
theorem breaksAhead_numberFrom (n : Nat) (t : Text) :
    breaksAhead (numberFrom n t) = breaksAhead t := by
  induction n, t using numberFrom_induction with
  | nil n => rfl
  | marked n t =>
    rw [numberFrom_marker,
      breaksAhead_visible_append not_isSpace_of_mem_decimal (decimal_ne_nil n),
      breaksAhead_visible_append not_isSpace_of_mem_marker (by decide)]
  | cons n c t hc ih =>
    rw [numberFrom_cons hc, breaksAhead_cons, ih, breaksAhead_cons]

/-- Condensing puts no marker together and takes none apart, and white space is no part of one. -/
theorem numberFrom_condenseFrom (skipping : Bool) (n : Nat) (t : Text) :
    numberFrom n (condenseFrom skipping t) = condenseFrom skipping (numberFrom n t) := by
  induction n, t using numberFrom_induction generalizing skipping with
  | nil n => cases skipping <;> rfl
  | marked n t ih =>
    rw [condenseFrom_visible_append not_isSpace_of_mem_marker (by decide), numberFrom_marker, ih,
      numberFrom_marker,
      condenseFrom_visible_append not_isSpace_of_mem_decimal (decimal_ne_nil n)]
  | cons n c t hc ih =>
    have hahead : breaksAhead (c :: numberFrom n t) = breaksAhead (c :: t) := by
      rw [← numberFrom_cons hc, breaksAhead_numberFrom]
    have hkept : numberFrom n (c :: condenseFrom false t) =
        c :: condenseFrom false (numberFrom n t) := by
      -- the signs of a marker would have stood together before
      have hnot : ¬marker <+: c :: condenseFrom false t := by
        intro h
        obtain ⟨hsign, hrest⟩ := List.cons_prefix_cons.1 h
        have hvisible : ∀ d ∈ ['@', '@'], ¬isSpace d := fun d hd =>
          not_isSpace_of_mem_marker d (List.mem_cons_of_mem '@' hd)
        exact hc (List.cons_prefix_cons.2 ⟨hsign, isPrefix_of_condenseFrom hvisible hrest⟩)
      rw [numberFrom_cons hnot, ih]
    rw [numberFrom_cons hc]
    cases skipping with
    | true =>
      rw [condenseFrom, condenseFrom, hahead]
      split
      · exact ih true
      · exact hkept
    | false =>
      rw [condenseFrom, condenseFrom, breaksAhead_numberFrom]
      split
      · have hbreak (u : Text) : ¬marker <+: '\n' :: u := by simp [marker]
        rw [numberFrom_cons (hbreak _), numberFrom_cons (hbreak _), ih]
      · exact hkept

/-! ### All markers -/

/-- The pieces of a text between its markers are kept, and the numbers from 1 on stand between them.
No marker is left, so a second pass changes nothing, and it does not matter whether blank lines are
condensed before or after. -/
theorem numbered_in_order (t : Text) :
    (∃ lead pieces, IsCutAtMarkers (lead :: pieces) t ∧
      numberMarkers t = lead ++ behindNumbers 1 pieces) ∧
    IsUnmarked (numberMarkers t) ∧ numberMarkers (numberMarkers t) = numberMarkers t ∧
    numberMarkers (condense t) = condense (numberMarkers t) := by
  have hunmarked : IsUnmarked (numberMarkers t) := isUnmarked_numberFrom 1 t
  refine ⟨exists_isCutAtMarkers 1 t, hunmarked, ?_, ?_⟩
  · exact numberFrom_of_isUnmarked hunmarked 1
  · exact numberFrom_condenseFrom false 1 t

/-- Of five signs three are the marker, and the others stay behind its number. -/
example : numberMarkers "@@@@@ \n\n@@@".toList = "1@@ \n\n2".toList := by decide

end DocSnippet.Docstring

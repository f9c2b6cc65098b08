import DocSnippet.Proofs.Docstring.Page
import DocSnippet.Proofs.Text.Word

/-! Markers in a text. A text is marked `n` times if `n` markers stand in it, each at the head of a
placeholder, and it holds no other marker, not even one across two pieces. Such texts can be put one
after another unless the first ends like a marker, and numbering them replaces the markers by
1, 2, 3 and so on. -/

namespace DocSnippet.Docstring

open Text Template

/-! ### Counting -/

/-- The number of places of a text where a marker stands. -/
def markerCount : Text → Nat
  | [] => 0
  | c :: t => (if startsWith marker (c :: t) then 1 else 0) + markerCount t

/-- An unmarked text adds nothing to the count, unless the text behind it completes a marker. -/
theorem markerCount_append {t r : Text} (ht : IsUnmarked t) (hr : r.head? ≠ some '@') :
    markerCount (t ++ r) = markerCount r := by
  induction t with
  | nil => rfl
  | cons c t ih =>
    have hnot : ¬startsWith marker (c :: (t ++ r)) := fun h =>
      ht (marker_isPrefix_append hr (startsWith_iff.1 h)).isInfix
    rw [List.cons_append, markerCount, if_neg hnot, ih (isUnmarked_of_cons ht), Nat.zero_add]

theorem markerCount_of_isUnmarked {t : Text} (ht : IsUnmarked t) : markerCount t = 0 := by
  simpa [markerCount] using markerCount_append ht (r := []) (by simp)

/-! ### Marked texts -/

/-- The head of a placeholder, with a marker for its number. -/
def slotHead : Text := ['$', '{'] ++ marker ++ [':']

def markedPieces (ps : List Text) : Text := ps.flatMap fun p => slotHead ++ p

/-- Pieces of text, each behind the head of a placeholder with a number, from `n` on. -/
def numberedPieces : Nat → List Text → Text
  | _, [] => []
  | n, p :: ps => ['$', '{'] ++ decimal n ++ [':'] ++ p ++ numberedPieces (n + 1) ps

inductive IsMarked : Nat → Text → Prop
  | plain {t : Text} (ht : IsUnmarked t) : IsMarked 0 t
  | slot {n : Nat} {p t : Text} (hp : IsUnmarked p) (ht : IsMarked n t) :
    IsMarked (n + 1) (p ++ (slotHead ++ t))

/-- A text that could not be the first part of a marker that the text behind it completes. -/
def EndsPlain (t : Text) : Prop := t.getLast? ≠ some '@'

/-- A marker reads the same from both ends, so the rule for the head of the second text holds for
the end of the first as well. -/
theorem IsUnmarked.append_of_endsPlain {s t : Text} (hs : IsUnmarked s) (ht : IsUnmarked t)
    (hend : EndsPlain s) : IsUnmarked (s ++ t) := by
  have hreverse : ∀ u : Text, IsUnmarked u ↔ IsUnmarked u.reverse := fun u => by
    rw [IsUnmarked, IsUnmarked, ← List.reverse_infix, show marker.reverse = marker from rfl]
  rw [hreverse, List.reverse_append]
  exact ((hreverse t).1 ht).append ((hreverse s).1 hs) (by rwa [List.head?_reverse])

theorem EndsPlain.append {s t : Text} (hs : EndsPlain s) (ht : EndsPlain t) :
    EndsPlain (s ++ t) := by
  rw [EndsPlain, List.getLast?_append]
  cases h : t.getLast? with
  | none => simpa [EndsPlain] using hs
  | some c => simpa [EndsPlain, h] using ht

theorem EndsPlain.of_notMem {t : Text} (h : '@' ∉ t) : EndsPlain t :=
  fun hc => h (List.mem_of_mem_getLast? hc)

namespace IsMarked

variable {m n : Nat} {s t : Text}

theorem append (hs : IsMarked m s) (ht : IsMarked n t) (hend : EndsPlain s) :
    IsMarked (m + n) (s ++ t) := by
  induction hs with
  | plain hs =>
    rw [Nat.zero_add]
    cases ht with
    | plain ht => exact .plain (hs.append_of_endsPlain ht hend)
    | slot hp ht =>
      rw [← List.append_assoc]
      exact .slot (hs.append_of_endsPlain hp hend) ht
  | @slot m p s hp _ ih =>
    have hs : EndsPlain s := by
      rw [EndsPlain, List.getLast?_append, List.getLast?_append] at hend
      cases h : s.getLast? with
      | none => simp [EndsPlain, h]
      | some c => simpa [EndsPlain, h] using hend
    rw [Nat.add_right_comm, List.append_assoc, List.append_assoc]
    exact .slot hp (ih hs)

theorem placeholder {content : Text} (h : IsUnmarked content) :
    IsMarked 1 (Docstring.placeholder content) := by
  have hplain : IsUnmarked (content ++ ['}']) := h.append (by decide) (by decide)
  have hslot : IsMarked 1 ([] ++ (slotHead ++ (content ++ ['}']))) :=
    .slot (by decide) (.plain hplain)
  simpa [Docstring.placeholder, slotHead] using hslot

theorem exists_pieces (ht : IsMarked n t) :
    ∃ lead pieces, IsUnmarked lead ∧ (∀ p ∈ pieces, IsUnmarked p) ∧ pieces.length = n ∧
      t = lead ++ markedPieces pieces := by
  induction ht with
  | @plain t ht => exact ⟨t, [], ht, by simp, rfl, by simp [markedPieces]⟩
  | @slot n p t hp _ ih =>
    obtain ⟨lead, pieces, hlead, hpieces, hlen, rfl⟩ := ih
    refine ⟨p, lead :: pieces, hp, ?_, by simp [hlen], by simp [markedPieces]⟩
    simpa using ⟨hlead, hpieces⟩

theorem markerCount_eq (ht : IsMarked n t) : markerCount t = n := by
  induction ht with
  | plain ht => exact markerCount_of_isUnmarked ht
  | @slot n p t hp _ ih =>
    have hslot : markerCount (slotHead ++ t) = 1 + markerCount t := by
      simp [slotHead, marker, markerCount, startsWith, after?]
    rw [markerCount_append hp (by simp [slotHead]), hslot, ih, Nat.add_comm]

end IsMarked

/-- Numbering replaces the markers between unmarked pieces and changes nothing else. -/
theorem numberFrom_markedPieces {lead : Text} {pieces : List Text} (hlead : IsUnmarked lead)
    (hpieces : ∀ p ∈ pieces, IsUnmarked p) (n : Nat) :
    numberFrom n (lead ++ markedPieces pieces) = lead ++ numberedPieces n pieces := by
  induction pieces generalizing lead n with
  | nil =>
    have happend := numberFrom_append hlead (r := []) (by simp) n
    simpa [markedPieces, numberedPieces, numberFrom] using happend
  | cons p ps ih =>
    have hp := ih (hpieces p (by simp)) (fun q hq => hpieces q (by simp [hq])) (n + 1)
    have hhead : markedPieces (p :: ps) = slotHead ++ (p ++ markedPieces ps) := by
      simp [markedPieces]
    have hslot : ∀ u, numberFrom n (slotHead ++ u) =
        ['$', '{'] ++ decimal n ++ [':'] ++ numberFrom (n + 1) u := by
      intro u
      simp [slotHead, marker, numberFrom]
    rw [hhead, numberFrom_append hlead (by simp [slotHead]), hslot, hp, numberedPieces]
    simp only [List.append_assoc]

end DocSnippet.Docstring

import DocSnippet.Proofs.Docstring.Page
import DocSnippet.Proofs.Text.Word

/-! Docstrings without placeholders. A placeholder is taken to end at the first closing brace behind
its colon, wherever its content ends. So the first closing brace of a content is the one that is
dropped, and the brace of the placeholder is left at the end of the content in its place. The text
still comes out as it should if a content has closing braces only at its end; otherwise the braces
of a default or a type are moved. -/

namespace DocSnippet.Docstring

open Text

/-! ### One placeholder -/

/-- A numbered placeholder ends at the first closing brace. -/
theorem placeholder?_numbered (n : Nat) {u : Text} (hu : '}' ∉ u) (r : Text) :
    placeholder? (['$', '{'] ++ decimal n ++ [':'] ++ (u ++ '}' :: r)) = some (u, r) := by
  have hdigits : ∀ c ∈ decimal n, isDigit c := fun c hc => isDigit_of_mem_decimal hc
  obtain ⟨d, ds, hds⟩ := List.exists_cons_of_ne_nil (decimal_ne_nil n)
  have htake : (decimal n ++ ':' :: (u ++ '}' :: r)).takeWhile isDigit = d :: ds := by
    rw [List.takeWhile_append_of_pos hdigits, hds]
    simp [show isDigit ':' = false by decide]
  have hdrop : (decimal n ++ ':' :: (u ++ '}' :: r)).dropWhile isDigit =
      ':' :: (u ++ '}' :: r) := by
    rw [List.dropWhile_append_of_pos hdigits]
    simp [show isDigit ':' = false by decide]
  simp [placeholder?, after?, htake, hdrop, List.takeWhile_append_of_pos (bne_of_notMem hu),
    List.dropWhile_append_of_pos (bne_of_notMem hu)]

/-- A text without dollar signs is passed over. -/
theorem dropPlaceholders_append {s : Text} (hs : '$' ∉ s) (t : Text) :
    dropPlaceholders (s ++ t) = s ++ dropPlaceholders t := by
  induction s with
  | nil => rfl
  | cons c s ih =>
    simp only [List.mem_cons, not_or] at hs
    have hnone : placeholder? (c :: (s ++ t)) = none := by
      simp [placeholder?, after?, hs.1]
    rw [List.cons_append, dropPlaceholders]
    split
    next h => simp [hnone] at h
    next => rw [ih hs.2, List.cons_append]

theorem dropPlaceholders_of_placeholder? {t content rest : Text}
    (h : placeholder? t = some (content, rest)) :
    dropPlaceholders t = content ++ dropPlaceholders rest := by
  cases t with
  | nil => simp [placeholder?, after?] at h
  | cons c t =>
    rw [dropPlaceholders]
    split
    next h' =>
      obtain ⟨rfl, rfl⟩ : _ = content ∧ _ = rest := by simpa [h'] using h
      rfl
    next h' => simp [h'] at h

/-! ### Lines -/

/-- What comes out for a placeholder: its content and its closing brace, less the first closing
brace of both together. -/
def Slot.shown (s : Slot) : Text := (s.content ++ ['}']).erase '}'

def Line.plain (l : Line) : Text := l.lead ++ l.slots.flatMap fun s => s.content ++ s.behind

theorem dropPlaceholders_slot {s : Slot} (hcontent : '$' ∉ s.content) (hbehind : '$' ∉ s.behind)
    (n : Nat) (t : Text) :
    dropPlaceholders (['$', '{'] ++ decimal n ++ [':'] ++ s.content ++ ['}'] ++ s.behind ++ t) =
      s.shown ++ s.behind ++ dropPlaceholders t := by
  -- the placeholder is read up to the brace between `u` and `v`, which need not be its own
  obtain ⟨u, v, hu, hbrace, hshown⟩ :=
    List.exists_erase_eq (show '}' ∈ s.content ++ ['}'] by simp)
  have hbraced : '$' ∉ s.content ++ ['}'] := by simp [hcontent]
  rw [hbrace] at hbraced
  have hv : '$' ∉ v := fun hmem => hbraced (by simp [hmem])
  have htail : '$' ∉ v ++ s.behind := by simp [hv, hbehind]
  have htext : ['$', '{'] ++ decimal n ++ [':'] ++ s.content ++ ['}'] ++ s.behind ++ t =
      ['$', '{'] ++ decimal n ++ [':'] ++ (u ++ '}' :: (v ++ s.behind ++ t)) := by
    rw [List.append_assoc _ s.content, hbrace]
    simp only [List.append_assoc, List.cons_append]
  rw [htext, dropPlaceholders_of_placeholder? (placeholder?_numbered n hu _),
    dropPlaceholders_append htail, Slot.shown, hshown]
  simp only [List.append_assoc]

theorem dropPlaceholders_numberedSlots {ss : List Slot}
    (h : ∀ s ∈ ss, '$' ∉ s.content ∧ '$' ∉ s.behind) (n : Nat) :
    dropPlaceholders (numberedSlots n ss) = ss.flatMap fun s => s.shown ++ s.behind := by
  induction ss generalizing n with
  | nil => simp [numberedSlots, dropPlaceholders]
  | cons s ss ih =>
    obtain ⟨hcontent, hbehind⟩ := h s (by simp)
    rw [numberedSlots, dropPlaceholders_slot hcontent hbehind,
      ih (fun u hu => h u (by simp [hu])) (n + 1), List.flatMap_cons]

theorem dropPlaceholders_line {l : Line} (hl : l.Forall ('$' ∉ ·)) (n : Nat) :
    dropPlaceholders (l.numbered n) = l.lead ++ l.slots.flatMap fun s => s.shown ++ s.behind := by
  rw [Line.numbered, dropPlaceholders_append hl.lead, dropPlaceholders_numberedSlots hl.slots]

/-! ### When nothing moves -/

theorem append_singleton_eq_cons_iff {c : Char} {t : Text} :
    t ++ [c] = c :: t ↔ ∃ k, t = List.replicate k c := by
  constructor
  · intro h
    induction t with
    | nil => exact ⟨0, rfl⟩
    | cons d t ih =>
      obtain ⟨rfl, ht⟩ := List.cons.inj h
      obtain ⟨k, rfl⟩ := ih ht
      exact ⟨k + 1, rfl⟩
  · rintro ⟨k, rfl⟩
    rw [← List.replicate_succ', List.replicate_succ]

/-- A content comes out as it is exactly if its closing braces all stand at its end. -/
theorem Slot.shown_eq_content_iff {s : Slot} :
    s.shown = s.content ↔ ∃ u k, '}' ∉ u ∧ s.content = u ++ List.replicate k '}' := by
  constructor
  · intro h
    by_cases hmem : '}' ∈ s.content
    · obtain ⟨u, v, hu, hcontent, herase⟩ := List.exists_erase_eq hmem
      rw [Slot.shown, List.erase_append_left _ hmem, herase, hcontent, List.append_assoc,
        List.append_cancel_left_eq, append_singleton_eq_cons_iff] at h
      obtain ⟨k, rfl⟩ := h
      exact ⟨u, k + 1, hu, hcontent⟩
    · exact ⟨s.content, 0, hmem, by simp⟩
  · rintro ⟨u, k, hu, hcontent⟩
    rw [Slot.shown, hcontent, List.append_assoc, List.erase_append_right _ hu,
      ← List.replicate_succ', List.replicate_succ, List.erase_cons_head]

theorem Slot.length_shown (s : Slot) : s.shown.length = s.content.length := by
  simp [Slot.shown]

theorem flatMap_shown_eq_iff {ss : List Slot} :
    ss.flatMap (fun s => s.shown ++ s.behind) = ss.flatMap (fun s => s.content ++ s.behind) ↔
      ∀ s ∈ ss, s.shown = s.content := by
  induction ss with
  | nil => simp
  | cons s ss ih =>
    rw [List.flatMap_cons, List.flatMap_cons, List.forall_mem_cons, ← ih]
    constructor
    · intro h
      obtain ⟨hhead, htail⟩ := List.append_inj h (by simp [s.length_shown])
      exact ⟨List.append_cancel_right hhead, htail⟩
    · rintro ⟨hhead, htail⟩
      rw [hhead, htail]

/-- Of a text with numbered placeholders, and no dollar signs but theirs, everything is kept except
that in each placeholder the first closing brace is dropped. So its contents are all kept as they
are exactly if no content has a closing brace before its last ones. -/
theorem dropPlaceholders_numbered {l : Line} (hl : l.Forall ('$' ∉ ·)) (n : Nat) :
    dropPlaceholders (l.numbered n) =
        l.lead ++ (l.slots.flatMap fun s => (s.content ++ ['}']).erase '}' ++ s.behind) ∧
      (dropPlaceholders (l.numbered n) = l.plain ↔
        ∀ s ∈ l.slots, ∃ u k, '}' ∉ u ∧ s.content = u ++ List.replicate k '}') := by
  have hshown := dropPlaceholders_line hl n
  refine ⟨hshown, ?_⟩
  rw [hshown, Line.plain, List.append_cancel_left_eq, flatMap_shown_eq_iff]
  exact forall₂_congr fun s _ => s.shown_eq_content_iff

/-- A type without braces, an empty dictionary, and a set in a dictionary. -/
theorem dropPlaceholders_numbered_nested :
    let l : Line := ⟨"table : ".toList, [⟨"dict".toList, ", by default ".toList⟩,
      ⟨"\x7b\x7d".toList, " or ".toList⟩, ⟨"\x7b'a': \x7b2\x7d\x7d".toList, ".".toList⟩]⟩
    l.Forall ('$' ∉ ·) ∧
      l.numbered 1 = ("table : $\x7b1:dict\x7d, by default $\x7b2:\x7b\x7d\x7d or ".toList ++
        "$\x7b3:\x7b'a': \x7b2\x7d\x7d\x7d.".toList) ∧
      dropPlaceholders (l.numbered 1) =
        "table : dict, by default \x7b\x7d or \x7b'a': \x7b2\x7d\x7d.".toList := by
  intro l
  have hl : l.Forall ('$' ∉ ·) := ⟨by decide, by decide⟩
  refine ⟨hl, by decide, ?_⟩
  refine ((dropPlaceholders_numbered hl 1).2.2 ?_).trans (by decide)
  intro s hs
  simp only [l, List.mem_cons, List.not_mem_nil, or_false] at hs
  rcases hs with rfl | rfl | rfl
  · exact ⟨"dict".toList, 0, by decide, by decide⟩
  · exact ⟨['{'], 1, by decide, by decide⟩
  · exact ⟨"\x7b'a': \x7b2".toList, 2, by decide, by decide⟩

/-- A closing brace of a balanced default moves if the default goes on with something else behind
it. -/
theorem dropPlaceholders_moves_brace :
    let default := "\x7b1: \x7b\x7d, 2: 3\x7d".toList
    let l : Line := ⟨[], [⟨default, []⟩]⟩
    (l.Forall ('$' ∉ ·) ∧ isBalanced default) ∧
      dropPlaceholders (l.numbered 1) = "\x7b1: \x7b, 2: 3\x7d\x7d".toList ∧
      dropPlaceholders (l.numbered 1) ≠ l.plain := by
  intro default l
  have hl : l.Forall ('$' ∉ ·) := ⟨by decide, by decide⟩
  rw [dropPlaceholders_line hl]
  exact ⟨⟨hl, by decide⟩, by decide, by decide⟩

end DocSnippet.Docstring

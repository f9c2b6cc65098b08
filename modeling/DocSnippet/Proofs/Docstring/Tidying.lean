import DocSnippet.Proofs.Docstring.Marker
import DocSnippet.Proofs.Docstring.Plain

/-! What becomes of a piece of text between a filled-in template and the docstring. Condensing,
quoting and indenting work on white space, so a piece in one line that starts with something visible
comes through them. Numbering replaces every marker, also one that came in with the texts of a
definition: no marker is left in the docstring, and a placeholder is kept but for its markers. -/

namespace DocSnippet

open Text Template

/-! ### Pieces of a text -/

namespace Text

variable {c : Char} {s t w : Text}

/-- A piece without `c` does not reach over a `c`. -/
theorem isInfix_append_cons_iff (hc : c ∉ w) : w <:+: s ++ c :: t ↔ w <:+: s ∨ w <:+: t := by
  constructor
  · rintro ⟨a, b, h⟩
    rw [List.append_assoc, List.append_eq_append_iff] at h
    rcases h with ⟨a', rfl, h⟩ | ⟨a', rfl, h⟩
    · rcases List.append_eq_append_iff.1 h with ⟨b', rfl, -⟩ | ⟨w', rfl, hw⟩
      · exact .inl ⟨a, b', by simp⟩
      · cases w' with
        | nil => exact .inl ⟨a, [], by simp⟩
        | cons d w' =>
          obtain ⟨rfl, -⟩ := List.cons.inj hw
          simp at hc
    · cases a' with
      | nil =>
        cases w with
        | nil => exact .inl List.nil_infix
        | cons d w =>
          obtain ⟨rfl, -⟩ := List.cons.inj h
          simp at hc
      | cons d a' =>
        obtain ⟨-, rfl⟩ := List.cons.inj h
        exact .inr ⟨a', b, by simp⟩
  · rintro (h | h)
    · exact h.trans (List.prefix_append s _).isInfix
    · exact (List.infix_cons h).trans (List.suffix_append s _).isInfix

theorem isInfix_append_right_iff (ht : ∀ c ∈ t, c ∉ w) : w <:+: s ++ t ↔ w <:+: s := by
  induction t with
  | nil => rw [List.append_nil]
  | cons c t ih =>
    simp only [List.forall_mem_cons] at ht
    rw [isInfix_append_cons_iff ht.1, ← ih ht.2, or_iff_left_iff_imp]
    exact fun h => h.trans (List.suffix_append s t).isInfix

theorem isInfix_append_left_iff (hs : ∀ c ∈ s, c ∉ w) : w <:+: s ++ t ↔ w <:+: t := by
  induction s with
  | nil => rw [List.nil_append]
  | cons c s ih =>
    simp only [List.forall_mem_cons] at hs
    rw [List.cons_append, ← List.nil_append (c :: (s ++ t)), isInfix_append_cons_iff hs.1, ih hs.2,
      or_iff_right_iff_imp]
    intro h
    rw [List.eq_nil_of_infix_nil h]
    exact List.nil_infix

/-- A piece in one line is a piece of one of the lines. -/
theorem isInfix_unlines_iff {ls : List Text} (hne : w ≠ []) (hw : '\n' ∉ w) :
    w <:+: unlines ls ↔ ∃ l ∈ ls, w <:+: l := by
  induction ls with
  | nil => simp [unlines, join, hne]
  | cons l ls ih =>
    by_cases hls : ls = []
    · simp [hls, unlines, join]
    · rw [unlines, join_cons _ _ hls, List.append_assoc, List.singleton_append,
        isInfix_append_cons_iff hw, ← unlines, ih, List.exists_mem_cons_iff]

end Text

namespace Docstring

variable {c : Char} {s t w : Text}

/-! ### Numbering -/

def numberedPlaceholder (n : Nat) (content : Text) : Text :=
  ['$', '{'] ++ decimal n ++ [':'] ++ content ++ ['}']

theorem numberFrom_of_isUnmarked (ht : IsUnmarked t) (n : Nat) : numberFrom n t = t := by
  simpa [numberFrom] using numberFrom_append ht (r := []) (by simp) n

theorem numberFrom_marker (n : Nat) (t : Text) :
    numberFrom n (marker ++ t) = decimal n ++ numberFrom (n + 1) t := rfl

/-- Induction along the numbering: a marker at the head is taken as a whole, and any other character
alone. -/
theorem numberFrom_induction {P : Nat → Text → Prop} (nil : ∀ n, P n [])
    (marked : ∀ n t, P (n + 1) t → P n (marker ++ t))
    (cons : ∀ n d t, ¬marker <+: d :: t → P n t → P n (d :: t)) (n : Nat) (t : Text) : P n t := by
  fun_induction numberFrom n t with
  | case1 n t ih => exact marked n t ih
  | case2 n d t hd ih =>
    refine cons n d t ?_ ih
    rintro ⟨u, hu⟩
    obtain ⟨rfl, rfl⟩ := List.cons.inj hu
    exact hd u rfl rfl
  | case3 n => exact nil n

/-- A character that is in no marker divides the text, and the numbers go on behind it. -/
theorem numberFrom_append_cons (hc : c ≠ '@') (n : Nat) (s t : Text) :
    ∃ m, numberFrom n (s ++ c :: t) = numberFrom n s ++ c :: numberFrom m t := by
  have hhead : (c :: t).head? ≠ some '@' := by simpa using hc
  induction n, s using numberFrom_induction with
  | nil n =>
    have hnot : ¬marker <+: c :: t := fun h => hc (List.cons_prefix_cons.1 h).1.symm
    exact ⟨n, numberFrom_cons hnot n⟩
  | marked n s ih =>
    obtain ⟨m, hm⟩ := ih
    refine ⟨m, ?_⟩
    rw [List.append_assoc, numberFrom_marker, hm, numberFrom_marker, List.append_assoc]
  | cons n d s hd ih =>
    obtain ⟨m, hm⟩ := ih
    have hnot : ¬marker <+: d :: (s ++ c :: t) := fun h =>
      hd (marker_isPrefix_append (t := d :: s) hhead h)
    refine ⟨m, ?_⟩
    rw [List.cons_append, numberFrom_cons hnot, hm, numberFrom_cons hd, List.cons_append]

theorem notMem_numberFrom (hc : ¬isDigit c) (ht : c ∉ t) (n : Nat) : c ∉ numberFrom n t := by
  induction n, t using numberFrom_induction with
  | nil n => exact ht
  | marked n t ih =>
    rw [List.mem_append, not_or] at ht
    rw [numberFrom_marker, List.mem_append, not_or]
    exact ⟨notMem_decimal hc n, ih ht.2⟩
  | cons n d t hd ih =>
    rw [List.mem_cons, not_or] at ht
    rw [numberFrom_cons hd, List.mem_cons, not_or]
    exact ⟨ht.1, ih ht.2⟩

/-- A number starts with a digit, so anything else at the head was there before. -/
theorem numberFrom_eq_cons {n : Nat} {u : Text} (hc : ¬isDigit c) (h : numberFrom n t = c :: u) :
    ∃ r, t = c :: r ∧ numberFrom n r = u := by
  induction n, t using numberFrom_induction with
  | nil n => simp [numberFrom] at h
  | marked n t =>
    have hmem : c ∈ decimal n := by
      obtain ⟨d, ds, hds⟩ := List.exists_cons_of_ne_nil (decimal_ne_nil n)
      rw [numberFrom_marker, hds] at h
      rw [hds, (List.cons.inj h).1]
      exact List.mem_cons_self
    exact absurd hmem (notMem_decimal hc n)
  | cons n d r hd =>
    rw [numberFrom_cons hd] at h
    obtain ⟨rfl, rfl⟩ := List.cons.inj h
    exact ⟨r, rfl, rfl⟩

/-- No marker is left: the characters that stay could only form one that was there before. -/
theorem isUnmarked_numberFrom (n : Nat) (t : Text) : IsUnmarked (numberFrom n t) := by
  induction n, t using numberFrom_induction with
  | nil n => exact (by decide : IsUnmarked [])
  | marked n t ih =>
    have hdecimal : '@' ∉ decimal n := notMem_decimal (by decide) n
    have hunmarked : IsUnmarked (decimal n) := fun h => hdecimal (h.subset (by simp [marker]))
    exact hunmarked.append_of_endsPlain ih (.of_notMem hdecimal)
  | cons n d t hd ih =>
    rw [numberFrom_cons hd]
    intro h
    rcases List.infix_cons_iff.1 h with ⟨u, hu⟩ | h
    · obtain ⟨rfl, htail⟩ := List.cons.inj hu
      obtain ⟨r, rfl, hrest⟩ := numberFrom_eq_cons (by decide) htail.symm
      obtain ⟨t, rfl, -⟩ := numberFrom_eq_cons (by decide) hrest
      exact hd ⟨t, rfl⟩
    · exact ih h

/-- A placeholder gets a number, and any marker in it the next ones. -/
theorem isInfix_numberFrom_of_placeholder (h : placeholder w <:+: t) (n : Nat) :
    ∃ m, numberedPlaceholder m (numberFrom (m + 1) w) <:+: numberFrom n t := by
  obtain ⟨a, b, rfl⟩ := h
  have hsource : a ++ placeholder w ++ b =
      a ++ '$' :: (['{'] ++ marker ++ [':'] ++ (w ++ '}' :: b)) := by
    simp [placeholder]
  obtain ⟨m, hm⟩ := numberFrom_append_cons (c := '$') (by decide) n a
    (['{'] ++ marker ++ [':'] ++ (w ++ '}' :: b))
  obtain ⟨k, hk⟩ := numberFrom_append_cons (c := '}') (by decide) (m + 1) w b
  refine ⟨m, numberFrom n a, numberFrom k b, ?_⟩
  rw [hsource, hm]
  simp [marker, numberFrom, hk, numberedPlaceholder]

/-! ### Blank lines -/

theorem not_isSpace_of_mem_marker : ∀ c ∈ marker, ¬isSpace c := by
  simp [marker, show isSpace '@' = false by decide]

/-- A visible character is kept, and nothing is left out behind it. -/
theorem condenseFrom_append_cons (hc : ¬isSpace c) (skipping : Bool) (s t : Text) :
    ∃ u, condenseFrom skipping (s ++ c :: t) = u ++ c :: condenseFrom false t := by
  have hline : c ≠ '\n' := by
    rintro rfl
    exact hc rfl
  induction s generalizing skipping with
  | nil =>
    have hahead : breaksAhead (c :: t) = false := by simp [breaksAhead, hc]
    exact ⟨[], by cases skipping <;> simp [condenseFrom, hahead, hline]⟩
  | cons d s ih =>
    obtain ⟨u, hu⟩ := ih true
    obtain ⟨v, hv⟩ := ih false
    cases skipping with
    | true =>
      rw [List.cons_append, condenseFrom]
      split
      · exact ⟨u, hu⟩
      · exact ⟨d :: v, by rw [hv, List.cons_append]⟩
    | false =>
      rw [List.cons_append, condenseFrom]
      split
      · exact ⟨'\n' :: '\n' :: u, by rw [hu]; rfl⟩
      · exact ⟨d :: v, by rw [hv, List.cons_append]⟩

theorem isInfix_condense (hc : ¬isSpace c) (hw : '\n' ∉ w) (h : c :: w <:+: t) :
    c :: w <:+: condense t := by
  obtain ⟨a, b, rfl⟩ := h
  obtain ⟨u, hu⟩ := condenseFrom_append_cons hc false a (w ++ b)
  refine ⟨u, condenseFrom false b, ?_⟩
  rw [condense, List.append_assoc a, List.cons_append, hu, condenseFrom_append hw,
    List.append_assoc, List.cons_append]

theorem isPrefix_of_condenseFrom (hw : ∀ c ∈ w, ¬isSpace c) (h : w <+: condenseFrom false t) :
    w <+: t := by
  induction w generalizing t with
  | nil => exact List.nil_prefix
  | cons c w ih =>
    simp only [List.forall_mem_cons] at hw
    cases t with
    | nil => exact h
    | cons d t =>
      rw [condenseFrom] at h
      split at h
      · exact absurd rfl ((List.cons_prefix_cons.1 h).1 ▸ hw.1)
      · rw [List.cons_prefix_cons] at h ⊢
        exact ⟨h.1, ih hw.2 h.2⟩

/-- Condensing puts no visible characters together. -/
theorem isInfix_of_condenseFrom (hw : ∀ c ∈ w, ¬isSpace c) {skipping : Bool}
    (h : w <:+: condenseFrom skipping t) : w <:+: t := by
  have hline : '\n' ∉ w := fun hmem => hw _ hmem rfl
  induction t generalizing skipping with
  | nil => rwa [condenseFrom] at h
  | cons d t ih =>
    have hkept : w <:+: d :: condenseFrom false t → w <:+: d :: t := by
      intro h
      rcases List.infix_cons_iff.1 h with h | h
      · rcases List.prefix_cons_iff.1 h with rfl | ⟨v, rfl, hv⟩
        · exact List.nil_infix
        · simp only [List.forall_mem_cons] at hw
          exact (List.cons_prefix_cons.2 ⟨rfl, isPrefix_of_condenseFrom hw.2 hv⟩).isInfix
      · exact List.infix_cons (ih h)
    cases skipping with
    | true =>
      rw [condenseFrom] at h
      split at h
      · exact List.infix_cons (ih h)
      · exact hkept h
    | false =>
      rw [condenseFrom] at h
      split at h
      · have hrest := (isInfix_append_left_iff (s := ['\n', '\n']) (by simpa using hline)).1 h
        exact List.infix_cons (ih hrest)
      · exact hkept h

theorem isInfix_condenseEnd_iff (hw : '\n' ∉ w) : w <:+: condenseEnd t ↔ w <:+: t := by
  obtain ⟨r, hr, ht⟩ : ∃ r, (∀ c ∈ r, c = '\n') ∧ t = dropWhileEnd (· == '\n') t ++ r := by
    refine ⟨t.rtakeWhile (· == '\n'), fun c hc => by simpa using List.mem_rtakeWhile_imp hc, ?_⟩
    rw [dropWhileEnd_eq_rdropWhile, List.rdropWhile_append_rtakeWhile]
  have hbody : w <:+: t ↔ w <:+: dropWhileEnd (· == '\n') t := by
    conv_lhs => rw [ht]
    exact isInfix_append_right_iff fun c hc => hr c hc ▸ hw
  rw [condenseEnd, hbody]
  split
  · exact isInfix_append_right_iff (by simpa using hw)
  · rfl

/-! ### Docstrings -/

theorem isInfix_indent (hne : w ≠ []) (hw : '\n' ∉ w) (h : w <:+: t) (indentation : Text) :
    w <:+: indent indentation t := by
  rw [← unlines_lines t, isInfix_unlines_iff hne hw] at h
  obtain ⟨l, hl, hwl⟩ := h
  refine (isInfix_unlines_iff hne hw).2 ⟨_, List.mem_map_of_mem hl, ?_⟩
  split
  · exact hwl
  · exact hwl.trans (List.suffix_append indentation l).isInfix

theorem notMem_marker (hs : '@' ∉ s) : ∀ c ∈ s, c ∉ marker := by
  intro c hc hmem
  obtain rfl : c = '@' := by simpa [marker] using hmem
  exact hs hc

/-- An indentation without the character of a marker cannot complete one. -/
theorem isUnmarked_indent {indentation : Text} (hindent : '@' ∉ indentation) (ht : IsUnmarked t) :
    IsUnmarked (indent indentation t) := by
  intro h
  obtain ⟨l, hl, hmarker⟩ := (isInfix_unlines_iff (by decide) (by decide)).1 h
  obtain ⟨m, hm, rfl⟩ := List.mem_map.1 hl
  refine ht ?_
  rw [← unlines_lines t, isInfix_unlines_iff (by decide) (by decide)]
  refine ⟨m, hm, ?_⟩
  split at hmarker
  · exact hmarker
  · exact (isInfix_append_left_iff (notMem_marker hindent)).1 hmarker

/-- A placeholder of a filled-in template, with its number, is in the docstring. -/
theorem isInfix_docstring {o : Options} (hw : '\n' ∉ w) (h : placeholder w <:+: t)
    (indentation : Text) :
    ∃ n, numberedPlaceholder n (numberFrom (n + 1) w) <:+:
      indent indentation (Generator.enquote o (Generator.tidy t)) := by
  obtain ⟨n, hn⟩ := isInfix_numberFrom_of_placeholder h 1
  have hcontent : '\n' ∉ numberFrom (n + 1) w := notMem_numberFrom (by decide) hw _
  have hnumber : '\n' ∉ decimal n := notMem_decimal (by decide) n
  have hline : '\n' ∉ numberedPlaceholder n (numberFrom (n + 1) w) := by
    simp [numberedPlaceholder, hcontent, hnumber]
  have htidy : numberedPlaceholder n (numberFrom (n + 1) w) <:+: Generator.tidy t := by
    refine (isInfix_condenseEnd_iff hline).2 (isInfix_condense (c := '$') (by decide) ?_ hn)
    exact fun hc => hline (List.mem_cons_of_mem '$' hc)
  refine ⟨n, isInfix_indent (by simp [numberedPlaceholder]) hline (htidy.trans ?_) indentation⟩
  exact ⟨_, o.quote, rfl⟩

/-- No marker is left in a docstring, unless the quotes or the indentation bring one in. -/
theorem isUnmarked_docstring {o : Options} (hquote : '@' ∉ o.quote) {indentation : Text}
    (hindent : '@' ∉ indentation) (t : Text) :
    IsUnmarked (indent indentation (Generator.enquote o (Generator.tidy t))) := by
  refine isUnmarked_indent hindent fun h => ?_
  rw [Generator.enquote, isInfix_append_right_iff (notMem_marker hquote)] at h
  have hfront : '@' ∉ o.quote ++ if o.startOnNewLine then ['\n'] else [] := by
    split <;> simp [hquote]
  rw [isInfix_append_left_iff (notMem_marker hfront), Generator.tidy,
    isInfix_condenseEnd_iff (by decide)] at h
  exact isUnmarked_numberFrom 1 t (isInfix_of_condenseFrom not_isSpace_of_mem_marker h)

end Docstring

end DocSnippet

import DocSnippet.Proofs.Docstring.Page

/-! Condensing, seen by lines. The first line of a text, its last line and every line between them
that is not blank are kept as they are, and every run of blank lines between them becomes one empty
line. So a condensed text is condensed no further, no line of it that shows something is lost or
changed, and white space in it holds two line feeds at most. Blank first and last lines keep their
white space. -/

namespace DocSnippet

open Text

namespace Text

theorem splitOn_append_sep_cons (sep : Char) (s t : Text) :
    splitOn sep (s ++ sep :: t) = splitOn sep s ++ splitOn sep t := by
  induction s with
  | nil => simp [splitOn]
  | cons c s ih =>
    rw [List.cons_append, splitOn, splitOn, ih]
    split
    · rfl
    · obtain ⟨p, ps, hp⟩ := List.exists_cons_of_ne_nil (splitOn_ne_nil sep s)
      rw [hp]
      rfl

end Text

namespace Docstring

/-! ### Lines -/

/-- What condensing makes of the lines behind the first one. Where `skipping`, an empty line stands
in front of them for the blank lines that are left out. -/
def condenseLines : Bool → List Text → List Text
  | _, [] => []
  | _, [l] => [l]
  | skipping, l :: m :: ls =>
    if isBlank l then
      if skipping then condenseLines true (m :: ls) else [] :: condenseLines true (m :: ls)
    else l :: condenseLines false (m :: ls)

/-- The lines behind the first one of a condensed text: a blank line is the last, or it is empty and
no empty line stands in front of it. `afterGap` tells whether one stands in front of all of them. -/
inductive Condensed : Bool → List Text → Prop
  | last (afterGap : Bool) (l : Text) : Condensed afterGap [l]
  | visible {afterGap : Bool} {l : Text} {ls : List Text} (hl : ¬isBlank l)
      (hls : Condensed false ls) : Condensed afterGap (l :: ls)
  | gap {ls : List Text} (hls : Condensed true ls) : Condensed false ([] :: ls)

variable {l m : Text} {ls : List Text} {skipping : Bool}

theorem Condensed.ne_nil (h : Condensed skipping ls) : ls ≠ [] := by
  cases h <;> simp

theorem condenseLines_visible (hl : ¬isBlank l) (skipping : Bool) (ls : List Text) :
    condenseLines skipping (l :: ls) = l :: condenseLines false ls := by
  cases ls with
  | nil => rfl
  | cons m ls => rw [condenseLines, if_neg hl]

theorem condenseLines_blank (hl : isBlank l) (hne : ls ≠ []) :
    condenseLines false (l :: ls) = [] :: condenseLines true ls := by
  obtain ⟨m, ms, rfl⟩ := List.exists_cons_of_ne_nil hne
  rw [condenseLines, if_pos hl, if_neg Bool.false_ne_true]

theorem condenseLines_skipped (hl : isBlank l) (hne : ls ≠ []) :
    condenseLines true (l :: ls) = condenseLines true ls := by
  obtain ⟨m, ms, rfl⟩ := List.exists_cons_of_ne_nil hne
  rw [condenseLines, if_pos hl, if_pos rfl]

theorem condensed_condenseLines (hne : ls ≠ []) (skipping : Bool) :
    Condensed skipping (condenseLines skipping ls) := by
  fun_induction condenseLines skipping ls with
  | case1 => exact absurd rfl hne
  | case2 skipping l => exact .last skipping l
  | case3 l m ls _ ih => exact ih (by simp)
  | case4 skipping l m ls _ hskipping ih =>
    rw [Bool.not_eq_true] at hskipping
    exact hskipping ▸ .gap (ih (by simp))
  | case5 skipping l m ls hl ih => exact .visible hl (ih (by simp))

theorem condenseLines_ne_nil (hne : ls ≠ []) (skipping : Bool) : condenseLines skipping ls ≠ [] :=
  (condensed_condenseLines hne skipping).ne_nil

theorem Condensed.condenseLines_eq (h : Condensed skipping ls) :
    condenseLines skipping ls = ls := by
  induction h with
  | last => rfl
  | visible hl _ ih => rw [condenseLines_visible hl, ih]
  | gap hls ih => rw [condenseLines_blank rfl hls.ne_nil, ih]

theorem Condensed.of_append {ks : List Text} (h : Condensed skipping (ks ++ ls)) (hne : ls ≠ []) :
    ∃ afterGap, Condensed afterGap ls := by
  induction ks generalizing skipping with
  | nil => exact ⟨skipping, h⟩
  | cons k ks ih =>
    rw [List.cons_append] at h
    generalize hks : ks ++ ls = js at h ih
    cases h with
    | last => exact absurd hks (by simp [hne])
    | visible _ h => exact ih h
    | gap h => exact ih h

/-- A blank line in front of others is empty, and the line behind it is not blank, unless it is the
last. -/
theorem Condensed.eq_nil_of_isBlank (h : Condensed skipping (l :: m :: ls)) (hl : isBlank l) :
    l = [] ∧ (isBlank m → ls = []) := by
  cases h with
  | visible hvisible => exact absurd hl hvisible
  | gap h =>
    refine ⟨rfl, fun hm => ?_⟩
    cases h with
    | last => rfl
    | visible hvisible => exact absurd hm hvisible

theorem notMem_of_mem_condenseLines (hls : ∀ l ∈ ls, '\n' ∉ l)
    (hl : l ∈ condenseLines skipping ls) : '\n' ∉ l := by
  fun_induction condenseLines skipping ls with
  | case1 => exact absurd hl List.not_mem_nil
  | case2 => exact hls l hl
  | case3 k m ls _ ih => exact ih (List.forall_mem_cons.1 hls).2 hl
  | case4 skipping k m ls _ _ ih =>
    rcases List.mem_cons.1 hl with rfl | hl
    · exact List.not_mem_nil
    · exact ih (List.forall_mem_cons.1 hls).2 hl
  | case5 skipping k m ls _ ih =>
    rw [List.forall_mem_cons] at hls
    rcases List.mem_cons.1 hl with rfl | hl
    · exact hls.1
    · exact ih hls.2 hl

theorem filter_condenseLines (skipping : Bool) (ls : List Text) :
    (condenseLines skipping ls).filter (!isBlank ·) = ls.filter (!isBlank ·) := by
  fun_induction condenseLines skipping ls with
  | case1 => rfl
  | case2 => rfl
  | case3 l m ls hl ih => simpa [hl] using ih
  | case4 skipping l m ls hl _ ih => simpa [hl, show isBlank [] = true from rfl] using ih
  | case5 skipping l m ls hl ih => simpa [hl] using ih

/-- What stands in front of a line that is not blank has no effect on what stands behind it. -/
theorem condenseLines_append_cons (hl : ¬isBlank l) (skipping : Bool) (front ls : List Text) :
    ∃ front', condenseLines skipping (front ++ l :: ls) =
      front' ++ l :: condenseLines false ls := by
  induction front generalizing skipping with
  | nil => exact ⟨[], condenseLines_visible hl skipping ls⟩
  | cons k front ih =>
    have hne : front ++ l :: ls ≠ [] := by simp
    rw [List.cons_append]
    by_cases hk : isBlank k
    · obtain ⟨front', hfront⟩ := ih true
      cases skipping with
      | true => exact ⟨front', by rw [condenseLines_skipped hk hne, hfront]⟩
      | false =>
        refine ⟨[] :: front', ?_⟩
        rw [condenseLines_blank hk hne, hfront, List.cons_append]
    · obtain ⟨front', hfront⟩ := ih false
      refine ⟨k :: front', ?_⟩
      rw [condenseLines_visible hk, hfront, List.cons_append]

theorem condenseLines_skipped_append (hm : ¬isBlank m) {gap : List Text}
    (hgap : ∀ g ∈ gap, isBlank g) (ls : List Text) :
    condenseLines true (gap ++ m :: ls) = m :: condenseLines false ls := by
  induction gap with
  | nil => exact condenseLines_visible hm true ls
  | cons g gap ih =>
    rw [List.forall_mem_cons] at hgap
    rw [List.cons_append, condenseLines_skipped hgap.1 (by simp), ih hgap.2]

/-- The blank lines in front of a line that is not blank become one empty line. -/
theorem condenseLines_gap_append (hm : ¬isBlank m) {gap : List Text} (hgap : ∀ g ∈ gap, isBlank g)
    (ls : List Text) :
    condenseLines false (gap ++ m :: ls) =
      (if gap = [] then [] else [[]]) ++ m :: condenseLines false ls := by
  cases gap with
  | nil => exact condenseLines_visible hm false ls
  | cons g gap =>
    rw [List.forall_mem_cons] at hgap
    rw [List.cons_append, condenseLines_blank hgap.1 (by simp),
      condenseLines_skipped_append hm hgap.2, if_neg (by simp), List.singleton_append]

/-! ### From characters to lines -/

theorem unlines_cons (l : Text) (hne : ls ≠ []) : unlines (l :: ls) = l ++ '\n' :: unlines ls := by
  rw [unlines, join_cons _ _ hne, List.append_assoc, List.singleton_append, unlines]

theorem breaksAhead_blank (hl : isBlank l) (t : Text) : breaksAhead (l ++ '\n' :: t) := by
  rw [breaksAhead, List.takeWhile_append_of_pos (isBlank_iff.1 hl)]
  simp [show isSpace '\n' = true from rfl]

theorem condenseFrom_true_blank (hl : isBlank l) (t : Text) :
    condenseFrom true (l ++ '\n' :: t) = condenseFrom true t := by
  induction l with
  | nil => rw [List.nil_append, condenseFrom, if_pos (breaksAhead_newline t)]
  | cons c l ih =>
    have hahead : breaksAhead (c :: (l ++ '\n' :: t)) := breaksAhead_blank hl t
    have hblank : isBlank l :=
      isBlank_iff.2 fun d hd => isBlank_iff.1 hl d (List.mem_cons_of_mem c hd)
    rw [List.cons_append, condenseFrom, if_pos hahead, ih hblank]

/-- Behind a line feed the lines are condensed one by one. -/
theorem condenseFrom_unlines (hls : ∀ l ∈ ls, '\n' ∉ l) (hne : ls ≠ []) :
    condenseFrom false ('\n' :: unlines ls) = '\n' :: unlines (condenseLines false ls) ∧
      condenseFrom true (unlines ls) = unlines (condenseLines true ls) := by
  induction ls with
  | nil => exact absurd rfl hne
  | cons l ls ih =>
    rw [List.forall_mem_cons] at hls
    by_cases hrest : ls = []
    · -- the last line is kept, also if it is blank
      have hahead : breaksAhead l = false := by
        have hnot : '\n' ∉ l.takeWhile isSpace := fun h => hls.1 (List.takeWhile_subset isSpace h)
        simpa [breaksAhead] using hnot
      have hkept : condenseFrom false l = l := by
        simpa [condenseFrom] using condenseFrom_append hls.1 []
      simp [hrest, unlines, join, condenseLines, condenseFrom, hahead, hkept, condenseFrom_true]
    · obtain ⟨ihkept, ihskipped⟩ := ih hls.2 hrest
      rw [unlines_cons l hrest]
      by_cases hl : isBlank l
      · have hskipped : condenseFrom true (l ++ '\n' :: unlines ls) =
            unlines (condenseLines true ls) := by
          rw [condenseFrom_true_blank hl, ihskipped]
        constructor
        · rw [condenseFrom, if_pos ⟨rfl, breaksAhead_blank hl _⟩, hskipped,
            condenseLines_blank hl hrest, unlines_cons [] (condenseLines_ne_nil hrest true),
            List.nil_append]
        · rw [hskipped, condenseLines_skipped hl hrest]
      · have hahead := breaksAhead_append hls.1 hl ('\n' :: unlines ls)
        have hkept : condenseFrom false (l ++ '\n' :: unlines ls) =
            unlines (l :: condenseLines false ls) := by
          rw [condenseFrom_append hls.1, ihkept, unlines_cons l (condenseLines_ne_nil hrest false)]
        constructor
        · rw [condenseFrom, if_neg (by simp [hahead]), hkept, condenseLines_visible hl]
        · rw [condenseFrom_true hahead, hkept, condenseLines_visible hl]

theorem lines_condense {t : Text} (ht : lines t = l :: ls) :
    lines (condense t) = l :: condenseLines false ls := by
  have hlines : ∀ k ∈ l :: ls, '\n' ∉ k := fun k hk => notMem_of_mem_splitOn (ht ▸ hk)
  rw [List.forall_mem_cons] at hlines
  have hcondensed : ∀ k ∈ l :: condenseLines false ls, '\n' ∉ k :=
    List.forall_mem_cons.2 ⟨hlines.1, fun k hk => notMem_of_mem_condenseLines hlines.2 hk⟩
  rw [← lines_unlines (by simp) hcondensed, ← unlines_lines t, ht]
  congr 1
  by_cases hrest : ls = []
  · simpa [hrest, unlines, join, condense, condenseLines, condenseFrom] using
      condenseFrom_append hlines.1 []
  · rw [unlines_cons l hrest, condense, condenseFrom_append hlines.1,
      (condenseFrom_unlines hlines.2 hrest).1, unlines_cons l (condenseLines_ne_nil hrest false)]

theorem lines_condense_append_cons {t : Text} {front : List Text} (ht : lines t = front ++ l :: ls)
    (hl : ¬isBlank l) :
    ∃ front', lines (condense t) = front' ++ l :: condenseLines false ls := by
  cases front with
  | nil => exact ⟨[], lines_condense ht⟩
  | cons k front =>
    obtain ⟨front', hfront⟩ := condenseLines_append_cons hl false front ls
    refine ⟨k :: front', ?_⟩
    rw [List.cons_append] at ht
    rw [lines_condense ht, hfront, List.cons_append]

theorem filter_lines_condense (t : Text) :
    (lines (condense t)).filter (!isBlank ·) = (lines t).filter (!isBlank ·) := by
  obtain ⟨l, ls, ht⟩ := List.exists_cons_of_ne_nil (splitOn_ne_nil '\n' t)
  rw [lines_condense ht, show lines t = l :: ls from ht, List.filter_cons, List.filter_cons,
    filter_condenseLines]

theorem condense_condense (t : Text) : condense (condense t) = condense t := by
  obtain ⟨l, ls, ht⟩ := List.exists_cons_of_ne_nil (splitOn_ne_nil '\n' t)
  have hfixed : condenseLines false (condenseLines false ls) = condenseLines false ls := by
    by_cases hls : ls = []
    · rw [hls]
      rfl
    · exact (condensed_condenseLines hls false).condenseLines_eq
  rw [← unlines_lines (condense (condense t)), lines_condense (lines_condense ht), hfixed,
    ← lines_condense ht, unlines_lines]

/-- Of the blank lines between two others condensing leaves one empty line, or none if there were
none. -/
theorem exists_lines_condense_gap {t : Text} {front gap back : List Text}
    (ht : lines t = front ++ l :: (gap ++ m :: back)) (hl : ¬isBlank l) (hm : ¬isBlank m)
    (hgap : ∀ g ∈ gap, isBlank g) :
    ∃ front' back',
      lines (condense t) = front' ++ l :: ((if gap = [] then [] else [[]]) ++ m :: back') ∧
        front'.filter (!isBlank ·) = front.filter (!isBlank ·) ∧
        back'.filter (!isBlank ·) = back.filter (!isBlank ·) := by
  obtain ⟨front', hfront⟩ := lines_condense_append_cons ht hl
  rw [condenseLines_gap_append hm hgap] at hfront
  have hback := filter_condenseLines false back
  refine ⟨front', condenseLines false back, hfront, ?_, hback⟩
  -- all lines that are not blank are kept, and so are those from `l` on
  have hall := filter_lines_condense t
  have hgapped : (if gap = [] then [] else [[]]).filter (!isBlank ·) = gap.filter (!isBlank ·) := by
    have hnone : gap.filter (!isBlank ·) = [] := List.filter_eq_nil_iff.2 (by simpa using hgap)
    rw [hnone]
    split <;> rfl
  rw [hfront, ht, List.filter_append, List.filter_append, List.filter_cons, List.filter_cons,
    List.filter_append, List.filter_append, List.filter_cons, List.filter_cons, hgapped,
    hback] at hall
  exact List.append_cancel_right hall

/-! ### White space -/

/-- White space between two line feeds of a condensed text is empty, and none with a third line feed
is behind it. -/
theorem eq_nil_of_between {s t w r : Text} (h : condense t = s ++ '\n' :: (w ++ '\n' :: r))
    (hline : '\n' ∉ w) (hw : isBlank w) :
    w = [] ∧ ∀ v u, r = v ++ '\n' :: u → '\n' ∉ v → ¬isBlank v := by
  obtain ⟨l, ls, ht⟩ := List.exists_cons_of_ne_nil (splitOn_ne_nil '\n' t)
  obtain ⟨k, ks, hs⟩ := List.exists_cons_of_ne_nil (splitOn_ne_nil '\n' s)
  obtain ⟨m, ms, hr⟩ := List.exists_cons_of_ne_nil (splitOn_ne_nil '\n' r)
  have hlines : condenseLines false ls = ks ++ w :: m :: ms := by
    have hcondensed := lines_condense ht
    rw [h, lines, splitOn_append_sep_cons, splitOn_append_cons hline, hs, hr] at hcondensed
    exact (List.cons.inj hcondensed).2.symm
  have hne : ls ≠ [] := by
    rintro rfl
    simp [condenseLines] at hlines
  obtain ⟨afterGap, hrest⟩ := (hlines ▸ condensed_condenseLines hne false).of_append (by simp)
  obtain ⟨hnil, hblank⟩ := hrest.eq_nil_of_isBlank hw
  refine ⟨hnil, ?_⟩
  rintro v u rfl hv hvblank
  rw [splitOn_append_cons hv] at hr
  obtain ⟨rfl, rfl⟩ := List.cons.inj hr
  exact splitOn_ne_nil '\n' u (hblank hvblank)

/-- A run of white space in a condensed text has two line feeds at most, and these are adjacent. -/
theorem count_newline_of_isInfix {t run : Text} (hrun : run <:+: condense t)
    (hspace : ∀ c ∈ run, isSpace c) :
    run.count '\n' ≤ 2 ∧ (run.count '\n' = 2 → ['\n', '\n'] <:+: run) := by
  obtain ⟨a, b, hab⟩ := hrun
  by_cases hfirst : '\n' ∈ run
  · obtain ⟨v, r, rfl, hv⟩ := List.eq_append_cons_of_mem hfirst
    by_cases hsecond : '\n' ∈ r
    · obtain ⟨w, r, rfl, hw⟩ := List.eq_append_cons_of_mem hsecond
      have hblank (u : Text) (hu : u ⊆ r ∨ u ⊆ w) : isBlank u := by
        refine isBlank_iff.2 fun c hc => hspace c ?_
        rcases hu with hu | hu <;> simp [hu hc]
      obtain ⟨rfl, hthird⟩ := eq_nil_of_between (s := a ++ v) (w := w) (r := r ++ b)
        (by simpa using hab.symm) hw (hblank w (.inr (List.Subset.refl w)))
      have hlast : '\n' ∉ r := by
        intro hmem
        obtain ⟨x, y, rfl, hx⟩ := List.eq_append_cons_of_mem hmem
        exact hthird x (y ++ b) (by simp) hx (hblank x (.inl (by simp)))
      have hcount : (v ++ '\n' :: ([] ++ '\n' :: r)).count '\n' = 2 := by
        simp [List.count_eq_zero.2 hv, List.count_eq_zero.2 hlast]
      exact ⟨hcount.le, fun _ => ⟨v, r, by simp⟩⟩
    · have hcount : (v ++ '\n' :: r).count '\n' = 1 := by
        simp [List.count_eq_zero.2 hv, List.count_eq_zero.2 hsecond]
      omega
  · rw [List.count_eq_zero.2 hfirst]
    omega

/-! ### The end -/

variable {body : Text}

theorem not_isSuffix_of_dropWhileEnd (hbody : dropWhileEnd (· == '\n') body = body) :
    ¬['\n'] <:+ body := by
  rintro ⟨s, rfl⟩
  rw [dropWhileEnd_eq_rdropWhile, List.rdropWhile_concat_pos _ _ _ (by rfl)] at hbody
  have hlength : (s.rdropWhile (· == '\n')).length ≤ s.length :=
    (List.rdropWhile_prefix _ _).length_le
  rw [hbody, List.length_append, List.length_singleton] at hlength
  omega

theorem condenseEnd_eq_self (hbody : dropWhileEnd (· == '\n') body = body) :
    condenseEnd body = body := by
  rw [condenseEnd, hbody, if_neg (Nat.lt_irrefl _)]

theorem condenseEnd_concat (hbody : dropWhileEnd (· == '\n') body = body) :
    condenseEnd (body ++ ['\n']) = body ++ ['\n'] := by
  have hdrop : dropWhileEnd (· == '\n') (body ++ ['\n']) = body := by
    rw [dropWhileEnd_eq_rdropWhile, List.rdropWhile_concat_pos _ _ _ (by rfl),
      ← dropWhileEnd_eq_rdropWhile, hbody]
  rw [condenseEnd, hdrop, if_pos (by simp)]

/-- A text is left with no line feed at its end, or with one behind a text with none. -/
theorem exists_condenseEnd_eq (t : Text) :
    ∃ body, dropWhileEnd (· == '\n') body = body ∧
      (condenseEnd t = body ∨ condenseEnd t = body ++ ['\n']) := by
  refine ⟨dropWhileEnd (· == '\n') t, ?_, ?_⟩
  · simp only [dropWhileEnd_eq_rdropWhile]
    exact List.rdropWhile_idempotent _ _
  · rw [condenseEnd]
    split
    · exact .inr rfl
    · exact .inl rfl

theorem condenseEnd_condenseEnd (t : Text) : condenseEnd (condenseEnd t) = condenseEnd t := by
  obtain ⟨body, hbody, ht | ht⟩ := exists_condenseEnd_eq t
  · rw [ht, condenseEnd_eq_self hbody]
  · rw [ht, condenseEnd_concat hbody]

theorem not_isSuffix_condenseEnd (t : Text) : ¬['\n', '\n'] <:+ condenseEnd t := by
  obtain ⟨body, hbody, ht | ht⟩ := exists_condenseEnd_eq t
  · rw [ht]
    exact fun h => not_isSuffix_of_dropWhileEnd hbody ((List.suffix_cons '\n' _).trans h)
  · rw [ht]
    rintro ⟨s, hs⟩
    have hend : s ++ ['\n'] ++ ['\n'] = body ++ ['\n'] := by
      rw [← hs, List.append_assoc, List.singleton_append]
    exact not_isSuffix_of_dropWhileEnd hbody ⟨s, List.append_cancel_right hend⟩

/-! ### The normal form -/

/-- A condensed text stays as it is. White space in it has two line feeds at most, one right behind
the other. The lines that are not blank are those of the text before, and between two that follow
each other an empty line stands exactly if a blank one did before. The end of a text does not change
a second time either, and it is never two line feeds. -/
theorem condense_normal (t : Text) :
    let c := condense t
    condense c = c ∧
      (∀ run, run <:+: c → (∀ x ∈ run, isSpace x) →
        run.count '\n' ≤ 2 ∧ (run.count '\n' = 2 → ['\n', '\n'] <:+: run)) ∧
      (lines c).filter (!isBlank ·) = (lines t).filter (!isBlank ·) ∧
      (∀ front l gap m back, lines t = front ++ l :: (gap ++ m :: back) →
        ¬isBlank l → ¬isBlank m → (∀ g ∈ gap, isBlank g) →
        ∃ front' back', lines c = front' ++ l :: ((if gap = [] then [] else [[]]) ++ m :: back') ∧
          front'.filter (!isBlank ·) = front.filter (!isBlank ·) ∧
          back'.filter (!isBlank ·) = back.filter (!isBlank ·)) ∧
      condenseEnd (condenseEnd t) = condenseEnd t ∧ ¬['\n', '\n'] <:+ condenseEnd c := by
  intro c
  refine ⟨condense_condense t, fun run hrun hspace => count_newline_of_isInfix hrun hspace,
    filter_lines_condense t, ?_, condenseEnd_condenseEnd t, not_isSuffix_condenseEnd c⟩
  intro front l gap m back ht hl hm hgap
  exact exists_lines_condense_gap ht hl hm hgap

/-- A blank first line keeps its white space, and one empty line stands for three blank ones. -/
example : condense " \n\na\n \n\t\n\n  b\r\nc\n ".toList = " \n\na\n\n  b\r\nc\n ".toList := by
  decide

end Docstring

end DocSnippet

import DocSnippet.Proofs.Source.Insertion
import DocSnippet.Proofs.Source.TrailingSpace
import Mathlib.Data.List.Forall2

/-! Comments are not seen. A comment in a line of its own is dropped when the lines above the cursor
are cleaned; in a body it has to reach the floor, since the scan for the body looks at the raw line.
A comment behind code leaves everything that a scan asks of the raw line: whether it is visible, its
indentation, whether it opens a definition, and the text in front of the comment. -/

namespace DocSnippet.Source

open Text

/-- What is read at a cursor are the cleaned lines above it and the body below it. -/
theorem parse_congr {A B : Text} {m n : Nat}
    (habove : Header.linesAbove A m = Header.linesAbove B n)
    (hbelow : Body.below A m = Body.below B n) : Definition.parse A m = Definition.parse B n := by
  rw [Definition.parse, Header.above?, habove, hbelow, Definition.parse, Header.above?]

/-! ### A line of its own -/

section CommentLine

variable {comment : Text} (hcomment : isCommentLine comment)

include hcomment

theorem cleanLines_insert (xs ys : List Text) :
    cleanLines (xs ++ comment :: ys) = cleanLines (xs ++ ys) := by
  rw [cleanLines_append, cleanLines_cons, if_pos hcomment, cleanLines_append]

theorem not_isBlank_of_isCommentLine : ¬isBlank comment := by
  intro hblank
  simp [isCommentLine, trim_eq_nil_iff.2 (isBlank_iff.1 hblank)] at hcomment

/-- A comment that reaches the floor is the only line by which the body grows. -/
theorem cleanLines_block_insert {floor : Nat} (hfloor : floor ≤ indentWidth comment)
    (xs ys : List Text) :
    cleanLines (Body.block floor (xs ++ comment :: ys)) =
      cleanLines (Body.block floor (xs ++ ys)) := by
  have hreach : Body.reaches floor comment = true := by simpa [Body.reaches] using hfloor
  have hvisible : Body.visible (comment :: ys) = comment :: Body.visible ys := by
    simp [Body.visible, not_isBlank_of_isCommentLine hcomment]
  rw [Body.block_eq_takeWhile, Body.block_eq_takeWhile, Body.visible_append, Body.visible_append,
    hvisible, List.takeWhile_append, List.takeWhile_append, List.takeWhile_cons_of_pos hreach]
  split
  · exact cleanLines_insert hcomment _ _
  · rfl

end CommentLine

namespace Body

/-- Behind a visible line nothing changes the floor. -/
theorem floor_append {xs : List Text} {l : Text} (hmem : l ∈ xs) (hl : ¬isBlank l)
    (ys : List Text) : floor (xs ++ ys) = floor xs := by
  have hne : visible xs ≠ [] := List.ne_nil_of_mem (List.mem_filter.2 ⟨hmem, by simpa using hl⟩)
  obtain ⟨m, ms, hms⟩ := List.exists_cons_of_ne_nil hne
  rw [floor_eq, visible_append, hms, floor_eq, hms]
  rfl

end Body

section Insertion

variable {document comment : Text} (hcomment : isCommentLine comment) (hline : '\n' ∉ comment)

theorem lines_insertLines_of_line (document : Text) (i : Nat) (hline : '\n' ∉ comment) :
    lines (insertLines document i comment) =
      (lines document).take i ++ comment :: (lines document).drop i := by
  rw [lines_insertLines, lines, lines, splitOn_of_notMem hline, List.append_assoc,
    List.singleton_append]

include hcomment hline

/-- A comment above the cursor moves the cursor down and does nothing else. -/
theorem parse_insert_above {i line : Nat} (hi : i ≤ line) (hlen : i ≤ (lines document).length) :
    Definition.parse (insertLines document i comment) (line + 1) =
      Definition.parse document line := by
  obtain ⟨k, rfl⟩ := Nat.exists_eq_add_of_le hi
  have hlines := lines_insertLines_of_line document i hline
  have hlength : ((lines document).take i).length = i := List.length_take_of_le hlen
  apply parse_congr
  · have htake : (lines (insertLines document i comment)).take (i + k + 1) =
        (lines document).take i ++ comment :: ((lines document).drop i).take k := by
      rw [hlines, List.take_append, hlength, List.take_of_length_le (by omega),
        show i + k + 1 - i = k + 1 by omega, List.take_succ_cons]
    rw [Header.linesAbove, htake, cleanLines_insert hcomment, ← List.take_add, Header.linesAbove]
  · have hdrop : (lines (insertLines document i comment)).drop (i + k + 1) =
        (lines document).drop (i + k) := by
      rw [hlines, List.drop_append, hlength, List.drop_of_length_le (by omega),
        show i + k + 1 - i = k + 1 by omega, List.drop_succ_cons, List.drop_drop,
        List.nil_append]
    rw [Body.below, hdrop, Body.below]

theorem parse_insert_below {i j line : Nat} {l : Text} (hj : line ≤ j) (hi : j < i)
    (hl : (lines document)[j]? = some l) (hvisible : ¬isBlank l)
    (hfloor : Body.floor ((lines document).drop line) ≤ indentWidth comment) :
    Definition.parse (insertLines document i comment) line = Definition.parse document line := by
  obtain ⟨hlt, rfl⟩ := List.getElem?_eq_some_iff.1 hl
  have hlines := lines_insertLines_of_line document i hline
  have hold : (lines document).take i ++ (lines document).drop i = lines document :=
    List.take_append_drop _ _
  have hlength : line ≤ ((lines document).take i).length := by
    rw [List.length_take]
    omega
  apply parse_congr
  · have habove : (lines (insertLines document i comment)).take line =
        (lines document).take line := by
      rw [hlines, List.take_append_of_le_length hlength, ← List.take_append_of_le_length hlength,
        hold]
    rw [Header.linesAbove, habove, Header.linesAbove]
  · -- the lines from the cursor to the comment, of which one is visible
    set xs := ((lines document).take i).drop line with hxs
    have hmem : (lines document)[j] ∈ xs := by
      rw [hxs, List.mem_iff_getElem?]
      exact ⟨j - line, by rw [List.getElem?_drop, List.getElem?_take]; simp [hj, hi, hlt]⟩
    have hnew : (lines (insertLines document i comment)).drop line =
        xs ++ comment :: (lines document).drop i := by
      rw [hlines, List.drop_append_of_le_length hlength]
    have hdrop : (lines document).drop line = xs ++ (lines document).drop i := by
      rw [hxs, ← List.drop_append_of_le_length hlength, hold]
    rw [hdrop, Body.floor_append hmem hvisible] at hfloor
    rw [Body.below, Body.below, hnew, hdrop, Body.floor_append hmem hvisible,
      Body.floor_append hmem hvisible, cleanLines_block_insert hcomment hfloor]

end Insertion

/-! ### Behind code -/

/-- Two lines in which a scan for a definition sees the same. -/
structure SameCode (l m : Text) : Prop where
  blank : isBlank l = isBlank m
  width : ¬isBlank l → indentWidth l = indentWidth m
  header : isHeaderLike l = isHeaderLike m
  clean : cleanLines [l] = cleanLines [m]

theorem SameCode.refl (l : Text) : SameCode l l := ⟨rfl, fun _ => rfl, rfl, rfl⟩

section Lists

variable {ls ms : List Text} (h : List.Forall₂ SameCode ls ms)

include h

theorem cleanLines_congr : cleanLines ls = cleanLines ms := by
  induction h with
  | nil => rfl
  | @cons l m ls ms hlm _ ih =>
    rw [← List.singleton_append, cleanLines_append, hlm.clean, ih, ← cleanLines_append,
      List.singleton_append]

theorem floor_congr : Body.floor ls = Body.floor ms := by
  induction h with
  | nil => rfl
  | @cons l m ls ms hlm _ ih =>
    rw [Body.floor, Body.floor, ← hlm.blank, ← hlm.header, ih]
    by_cases hb : isBlank l
    · rw [if_pos hb, if_pos hb]
    · rw [if_neg hb, if_neg hb, hlm.width hb]

theorem block_congr (floor : Nat) :
    List.Forall₂ SameCode (Body.block floor ls) (Body.block floor ms) := by
  rw [Body.block_eq_takeWhile, Body.block_eq_takeWhile]
  induction h with
  | nil => exact .nil
  | @cons l m ls ms hlm _ ih =>
    by_cases hb : isBlank l
    · have hl : Body.visible (l :: ls) = Body.visible ls := by simp [Body.visible, hb]
      have hm : Body.visible (m :: ms) = Body.visible ms := by simp [Body.visible, ← hlm.blank, hb]
      rwa [hl, hm]
    · have hl : Body.visible (l :: ls) = l :: Body.visible ls := by simp [Body.visible, hb]
      have hm : Body.visible (m :: ms) = m :: Body.visible ms := by
        simp [Body.visible, ← hlm.blank, hb]
      have hreach : Body.reaches floor l = Body.reaches floor m := by
        rw [Body.reaches, hlm.width hb, Body.reaches]
      rw [hl, hm, List.takeWhile_cons, List.takeWhile_cons, ← hreach]
      split
      · exact .cons hlm ih
      · exact .nil

end Lists

theorem parse_eq_of_sameCode {A B : Text} (h : List.Forall₂ SameCode (lines A) (lines B))
    (line : Nat) : Definition.parse A line = Definition.parse B line := by
  have hdrop := List.forall₂_drop line h
  apply parse_congr
  · exact cleanLines_congr (List.forall₂_take line h)
  · rw [Body.below, Body.below, floor_congr hdrop]
    exact cleanLines_congr (block_congr hdrop _)

theorem parse_set {document l m : Text} {i : Nat} (hl : (lines document)[i]? = some l)
    (h : SameCode l m) (hm : '\n' ∉ m) (line : Nat) :
    Definition.parse (unlines ((lines document).set i m)) line =
      Definition.parse document line := by
  have hset : ∀ {ls : List Text} {i : Nat}, ls[i]? = some l →
      List.Forall₂ SameCode ls (ls.set i m) := by
    intro ls
    induction ls with
    | nil => simp
    | cons k ls ih =>
      intro i hi
      cases i with
      | zero =>
        obtain rfl : k = l := by simpa using hi
        exact .cons h (List.forall₂_same.2 fun k _ => .refl k)
      | succ i => exact .cons (.refl k) (ih (by simpa using hi))
  have hlines : lines (unlines ((lines document).set i m)) = (lines document).set i m := by
    refine lines_unlines (by simp [lines, splitOn_ne_nil]) fun k hk => ?_
    rcases List.mem_or_eq_of_mem_set hk with hk | rfl
    · exact notMem_of_mem_splitOn hk
    · exact hm
  refine (parse_eq_of_sameCode ?_ line).symm
  rw [hlines]
  exact hset hl

section Behind

variable {gap : Text} (hgap : ∀ c ∈ gap, isSpace c)

include hgap

/-- Before a comment and behind white space there is no word. -/
theorem not_isWord_before_comment {a comment r : Text} {c : Char}
    (h : gap ++ '#' :: comment = a ++ c :: r) (ha : '#' ∉ a) : ¬isWord c := by
  have hsign : ¬isWord '#' := by decide
  rcases List.append_eq_append_iff.1 h with ⟨b, rfl, hb⟩ | ⟨b, rfl, hb⟩
  · cases b with
    | nil =>
      simp only [List.nil_append, List.cons.injEq] at hb
      exact hb.1 ▸ hsign
    | cons d b =>
      simp only [List.cons_append, List.cons.injEq] at hb
      simp [← hb.1] at ha
  · cases b with
    | nil =>
      simp only [List.nil_append, List.cons.injEq] at hb
      exact hb.1 ▸ hsign
    | cons d b =>
      simp only [List.cons_append, List.cons.injEq] at hb
      exact not_isWord_of_isSpace (hgap c (by simp [hb.1]))

/-- A literal with a word behind it does not reach into a comment. -/
theorem word?_after?_append_comment {p : Text} (hp : '#' ∉ p) (t comment : Text) :
    ((after? p (t ++ (gap ++ '#' :: comment))).bind word?).isSome =
      ((after? p t).bind word?).isSome := by
  rw [Bool.eq_iff_iff, word?_after?_isSome_iff, word?_after?_isSome_iff]
  constructor
  · rintro ⟨c, r, h, hc⟩
    rcases List.append_eq_append_iff.1 h with ⟨a, rfl, ha⟩ | ⟨a, rfl, ha⟩
    · exact absurd hc (not_isWord_before_comment hgap ha fun hmem => hp (by simp [hmem]))
    · cases a with
      | nil => exact absurd hc (not_isWord_before_comment hgap (a := []) ha.symm (by simp))
      | cons d a =>
        simp only [List.cons_append, List.cons.injEq] at ha
        exact ⟨c, a, by rw [ha.1], hc⟩
  · rintro ⟨c, r, rfl, hc⟩
    exact ⟨c, r ++ (gap ++ '#' :: comment), by simp, hc⟩

theorem isHeaderLike_append_comment {l : Text} (hvisible : ¬isBlank l) (comment : Text) :
    isHeaderLike (l ++ (gap ++ '#' :: comment)) = isHeaderLike l := by
  have hne : trimStart l ≠ [] := fun hnil =>
    hvisible (isBlank_iff.2 (List.dropWhile_eq_nil_iff.1 hnil))
  have hstart : trimStart (l ++ (gap ++ '#' :: comment)) =
      trimStart l ++ (gap ++ '#' :: comment) := by
    rw [trimStart_append, if_neg hne]
  simp only [isHeaderLike, hstart]
  rw [word?_after?_append_comment hgap (by decide), word?_after?_append_comment hgap (by decide),
    word?_after?_append_comment hgap (by decide), word?_after?_append_comment hgap (by decide)]

/-- Behind visible code a comment changes nothing that a scan for a definition sees. -/
theorem sameCode_append_comment {l : Text} (hvisible : ¬isBlank l) (hcode : IsCode l)
    (comment : Text) : SameCode l (l ++ (gap ++ '#' :: comment)) := by
  have hstrip : stripComment (l ++ (gap ++ '#' :: comment)) = l ++ gap := by
    rw [hcode.stripComment_append, (IsCode.of_space hgap).stripComment_append]
    simp [stripComment, stripCommentFrom]
  have htrim : trim l ≠ [] := fun hnil => hvisible (isBlank_iff.2 (trim_eq_nil_iff.1 hnil))
  refine ⟨?_, fun _ => ?_, (isHeaderLike_append_comment hgap hvisible comment).symm, ?_⟩
  · have hlong : ¬isBlank (l ++ (gap ++ '#' :: comment)) := fun h =>
      hvisible (isBlank_iff.2 fun c hc => isBlank_iff.1 h c (by simp [hc]))
    rw [Bool.eq_iff_iff]
    exact iff_of_false hvisible hlong
  · rw [indentWidth, indentWidth, indentation_append_of_visible hvisible]
  · have hl : ¬isCommentLine l := fun h =>
      htrim (hcode.stripped ▸ trim_stripComment_of_isCommentLine h)
    have hlong : ¬isCommentLine (l ++ (gap ++ '#' :: comment)) := fun h => by
      have hnil := trim_stripComment_of_isCommentLine h
      rw [hstrip, trim_append_of_space _ hgap] at hnil
      exact htrim hnil
    rw [cleanLines_cons, if_neg hl, cleanLines_cons, if_neg hlong, hstrip, hcode.stripped,
      trim_append_of_space _ hgap]

end Behind

/-- Comments have no part in the definition around a cursor: neither a comment line above the
cursor, with the cursor moved down, nor one in the body that reaches the floor, nor a comment behind
code. -/
theorem comments_invisible (document : Text) (line : Nat) :
    (∀ i comment, i ≤ min line (lines document).length → isCommentLine comment →
      '\n' ∉ comment →
      Definition.parse (insertLines document i comment) (line + 1) =
        Definition.parse document line) ∧
    (∀ i j l comment, line ≤ j → j < i → (lines document)[j]? = some l → ¬isBlank l →
      isCommentLine comment → '\n' ∉ comment →
      Body.floor ((lines document).drop line) ≤ indentWidth comment →
      Definition.parse (insertLines document i comment) line = Definition.parse document line) ∧
    ∀ i l gap comment, (lines document)[i]? = some l → ¬isBlank l → IsCode l →
      (∀ c ∈ gap, isSpace c) → '\n' ∉ gap → '\n' ∉ comment →
      Definition.parse (unlines ((lines document).set i (l ++ (gap ++ '#' :: comment)))) line =
        Definition.parse document line := by
  refine ⟨?_, ?_, ?_⟩
  · intro i comment hi hcomment hline
    exact parse_insert_above hcomment hline (by omega) (by omega)
  · intro i j l comment hj hi hl hvisible hcomment hline hfloor
    exact parse_insert_below hcomment hline hj hi hl hvisible hfloor
  · intro i l gap comment hl hvisible hcode hgap hgapline hline
    have hl' : '\n' ∉ l := notMem_of_mem_splitOn (List.mem_of_getElem? hl)
    exact parse_set hl (sameCode_append_comment hgap hvisible hcode comment)
      (by simp [hl', hgapline, hline]) line

/-- A header over two lines with a comment between them, a body with a comment that looks like a
header behind a blank line, and a raise with another one commented out behind it. -/
theorem comments_invisible_lookalike :
    let document := "def f(a,\n      b='#'):\n    if a:\n\n        raise E('#')\n    return b".toList
    Definition.parse (insertLines document 1 "\t# class Old:".toList) 3 =
        Definition.parse document 2 ∧
      Definition.parse (insertLines document 4 "    # def g(): return".toList) 2 =
        Definition.parse document 2 ∧
      Definition.parse (unlines ((lines document).set 4
        ("        raise E('#')".toList ++ ("  ".toList ++ '#' :: " raise Late".toList)))) 2 =
        Definition.parse document 2 := by
  intro document
  obtain ⟨habove, hbelow, hbehind⟩ := comments_invisible document 2
  refine ⟨?_, ?_, ?_⟩
  · exact habove 1 _ (by decide +kernel) (by decide +kernel) (by decide)
  · exact hbelow 4 2 "    if a:".toList _ (by decide) (by decide) (by decide +kernel) (by decide)
      (by decide +kernel) (by decide) (by decide +kernel)
  · exact hbehind 4 _ _ _ (by decide +kernel) (by decide) (by decide +kernel)
      (List.all_eq_true.1 (by decide)) (by decide) (by decide)

end DocSnippet.Source

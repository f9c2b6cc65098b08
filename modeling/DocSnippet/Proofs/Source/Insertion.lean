import DocSnippet.Docstring.BlankLines
import DocSnippet.Proofs.Source.Dedent
import DocSnippet.Proofs.Source.Layout

/-! Inserting a docstring. The lines of a document stay as they are, above and below the inserted
ones, so the header is still found above the cursor and the old body behind the new lines. A
docstring that is indented as the body is becomes the head of that body: every visible line of it
reaches the floor, which is that of its own first line, and nothing of the old body is cut off. -/

namespace DocSnippet.Source

open Text Docstring

/-! ### The frame -/

section Frame

variable {document : Text} {line : Nat} (docstring : Text)

theorem lines_insertLines (document : Text) (line : Nat) (docstring : Text) :
    lines (insertLines document line docstring) =
      (lines document).take line ++ lines docstring ++ (lines document).drop line := by
  refine lines_unlines ?_ ?_
  · simp [lines, splitOn_ne_nil]
  · intro l hl
    simp only [List.mem_append, or_assoc] at hl
    rcases hl with hl | hl | hl
    · exact notMem_of_mem_splitOn (List.mem_of_mem_take hl)
    · exact notMem_of_mem_splitOn hl
    · exact notMem_of_mem_splitOn (List.mem_of_mem_drop hl)

theorem take_lines_insertLines (h : line ≤ (lines document).length) :
    (lines (insertLines document line docstring)).take line = (lines document).take line := by
  have hlen : ((lines document).take line).length = line := List.length_take_of_le h
  rw [lines_insertLines, List.append_assoc, List.take_left' hlen]

theorem drop_lines_insertLines (h : line ≤ (lines document).length) :
    (lines (insertLines document line docstring)).drop line =
      lines docstring ++ (lines document).drop line := by
  have hlen : ((lines document).take line).length = line := List.length_take_of_le h
  rw [lines_insertLines, List.append_assoc, List.drop_left' hlen]

theorem above?_insertLines (h : line ≤ (lines document).length) :
    Header.above? (insertLines document line docstring) line = Header.above? document line := by
  rw [Header.above?, Header.linesAbove, take_lines_insertLines docstring h, Header.above?,
    Header.linesAbove]

theorem docstringIndentation_insertLines (h : line ≤ (lines document).length) (step : Text) :
    docstringIndentation (insertLines document line docstring) line step =
      docstringIndentation document line step := by
  rw [docstringIndentation, take_lines_insertLines docstring h, docstringIndentation]

theorem below_insertLines (h : line ≤ (lines document).length) :
    Body.below (insertLines document line docstring) (line + (lines docstring).length) =
      Body.below document line := by
  have hdrop : (lines (insertLines document line docstring)).drop
      (line + (lines docstring).length) = (lines document).drop line := by
    rw [← List.drop_drop, drop_lines_insertLines docstring h, List.drop_left]
  rw [Body.below, hdrop, Body.below]

end Frame

/-- Inserted lines stand between the lines above the cursor and the others, which are all kept. The
header and the indentation at the cursor stay the same, and so does the body behind what was
inserted. -/
theorem insertLines_frame (document : Text) (line : Nat) (docstring : Text) :
    let new := insertLines document line docstring
    let above := min line (lines document).length
    lines new = (lines document).take above ++ lines docstring ++ (lines document).drop above ∧
      (line ≤ (lines document).length →
        Header.above? new line = Header.above? document line ∧
        (∀ step, docstringIndentation new line step = docstringIndentation document line step) ∧
        Body.below new (line + (lines docstring).length) = Body.below document line) := by
  intro new above
  refine ⟨?_, fun h => ⟨above?_insertLines docstring h, docstringIndentation_insertLines docstring h,
    below_insertLines docstring h⟩⟩
  rw [lines_insertLines]
  rcases Nat.le_total line (lines document).length with h | h
  · rw [show above = line from Nat.min_eq_left h]
  · rw [show above = (lines document).length from Nat.min_eq_right h, List.take_of_length_le h,
      List.drop_of_length_le h, List.take_length, List.drop_length]

/-- A docstring of three lines below a header with a carriage return at its end. -/
theorem insertLines_frame_three :
    let document := "def f():\r\n    raise E".toList
    let docstring := "    '''one\n\n    '''".toList
    let new := insertLines document 1 docstring
    1 ≤ (lines document).length ∧
      lines new = (lines document).take 1 ++ lines docstring ++ (lines document).drop 1 ∧
      Header.above? new 1 = Header.above? document 1 ∧
      (∀ step, docstringIndentation new 1 step = docstringIndentation document 1 step) ∧
      Body.below new 4 = Body.below document 1 := by
  intro document docstring new
  have hline : 1 ≤ (lines document).length := by decide
  obtain ⟨hlines, hkeep⟩ := insertLines_frame document 1 docstring
  exact ⟨hline, hlines, hkeep hline⟩

/-! ### Indented lines -/

theorem indentation_append {s : Text} (hs : ∀ c ∈ s, isSpace c ∧ c ≠ '\r') (t : Text) :
    indentation (s ++ t) = s ++ indentation t := by
  refine List.takeWhile_append_of_pos fun c hc => ?_
  simpa using hs c hc

theorem indentWidth_append {s : Text} (hs : ∀ c ∈ s, isSpace c ∧ c ≠ '\r') (t : Text) :
    indentWidth (s ++ t) = s.length + indentWidth t := by
  rw [indentWidth, indentation_append hs, List.length_append, indentWidth]

/-- A line that starts with a quote behind its indentation opens no definition. -/
theorem not_isHeaderLike_quote {s : Text} (hs : ∀ c ∈ s, isSpace c) {q : Char} (hq : isQuote q)
    (t : Text) : ¬isHeaderLike (s ++ q :: t) := by
  have hstart : trimStart (s ++ q :: t) = q :: t := by
    rw [trimStart, List.dropWhile_append_of_pos hs,
      List.dropWhile_cons_of_neg (not_isSpace_of_isQuote hq)]
  have hne : ∀ c, isQuote c = false → c ≠ q := fun c hc => (ne_of_isQuote hq hc).symm
  simp [isHeaderLike, hstart, after?, defWord, asyncWord, classWord, hne 'd' rfl, hne 'a' rfl,
    hne 'c' rfl, hne '@' rfl]

theorem lines_indent {s : Text} (hs : '\n' ∉ s) (t : Text) :
    lines (indent s t) = (lines t).map fun l => if l.isEmpty then l else s ++ l := by
  refine lines_unlines (by simp [lines, splitOn_ne_nil]) fun l hl => ?_
  obtain ⟨m, hm, rfl⟩ := List.mem_map.1 hl
  have hm : '\n' ∉ m := notMem_of_mem_splitOn hm
  split
  · exact hm
  · simp [hs, hm]

namespace Body

theorem visible_append (xs ys : List Text) : visible (xs ++ ys) = visible xs ++ visible ys :=
  List.filter_append ..

/-- Lines that reach the floor where they are visible stand in front of the rest of a body. -/
theorem block_append {floor : Nat} {xs : List Text} (hxs : ∀ l ∈ visible xs, reaches floor l)
    (ys : List Text) : block floor (xs ++ ys) = visible xs ++ block floor ys := by
  rw [block_eq_takeWhile, block_eq_takeWhile, visible_append, List.takeWhile_append_of_pos hxs]

theorem floor_of_head? {ls : List Text} {l : Text} (hl : (visible ls).head? = some l)
    (hheader : ¬isHeaderLike l) : floor ls = indentWidth l := by
  simp [floor_eq, hl, hheader]

end Body

/-! ### The head of a body -/

section Docstring

variable {indentation snippet : Text} {q : Char}

/-- Every visible line of an indented text reaches the width of the indentation. -/
theorem reaches_of_mem_indent (hs : ∀ c ∈ indentation, isSpace c ∧ c ≠ '\r' ∧ c ≠ '\n') :
    ∀ l ∈ Body.visible (lines (indent indentation snippet)),
      Body.reaches indentation.length l := by
  intro l hl
  have hline : '\n' ∉ indentation := fun h => (hs _ h).2.2 rfl
  rw [Body.visible, lines_indent hline, List.mem_filter] at hl
  obtain ⟨hl, hvisible⟩ := hl
  obtain ⟨m, -, rfl⟩ := List.mem_map.1 hl
  by_cases hm : m.isEmpty
  · rw [if_pos hm, List.isEmpty_iff.1 hm] at hvisible
    simp [isBlank] at hvisible
  · rw [if_neg hm]
    have hwidth := indentWidth_append (fun c hc => ⟨(hs c hc).1, (hs c hc).2.1⟩) m
    simp only [Body.reaches, decide_eq_true_eq]
    omega

/-- The first visible line of an indented text that starts with a quote is its first line. -/
theorem head?_visible_indent (hs : ∀ c ∈ indentation, isSpace c ∧ c ≠ '\r' ∧ c ≠ '\n')
    (hhead : snippet.head? = some q) (hq : isQuote q) :
    ∃ t, (Body.visible (lines (indent indentation snippet))).head? =
      some (indentation ++ q :: t) := by
  have hline : '\n' ∉ indentation := fun h => (hs _ h).2.2 rfl
  have hne : q ≠ '\n' := by
    rintro rfl
    exact absurd hq (by decide)
  obtain ⟨r, rfl⟩ : ∃ r, snippet = q :: r := List.head?_eq_some_iff.1 hhead
  obtain ⟨l, ls, hls⟩ := List.exists_cons_of_ne_nil (splitOn_ne_nil '\n' r)
  refine ⟨l, ?_⟩
  rw [lines_indent hline, lines, splitOn, if_neg hne, hls, consHead]
  simp [Body.visible, isBlank, not_isSpace_of_isQuote hq]

/-- In front of a body with the same indentation, an indented text that starts with a quote is the
head of the body. -/
theorem scan_indent_append {l : Text} {ls : List Text} (hl : (Body.visible ls).head? = some l)
    (hheader : ¬isHeaderLike l) (hwidth : indentation.length = indentWidth l)
    (hs : ∀ c ∈ indentation, isSpace c ∧ c ≠ '\r' ∧ c ≠ '\n') (hhead : snippet.head? = some q)
    (hq : isQuote q) :
    let ms := lines (indent indentation snippet)
    Body.block (Body.floor (ms ++ ls)) (ms ++ ls) =
      Body.visible ms ++ Body.block (Body.floor ls) ls := by
  intro ms
  obtain ⟨t, ht⟩ := head?_visible_indent hs hhead hq
  have hfirst : (Body.visible (ms ++ ls)).head? = some (indentation ++ q :: t) := by
    rw [Body.visible_append, List.head?_append, ht, Option.some_or]
  have hnew : Body.floor (ms ++ ls) = indentation.length := by
    rw [Body.floor_of_head? hfirst (not_isHeaderLike_quote (fun c hc => (hs c hc).1) hq t),
      indentWidth_append fun c hc => ⟨(hs c hc).1, (hs c hc).2.1⟩]
    simp [indentWidth, Source.indentation, not_isSpace_of_isQuote hq]
  have hold : Body.floor ls = indentation.length := by
    rw [Body.floor_of_head? hl hheader, hwidth]
  rw [hnew, hold, Body.block_append (reaches_of_mem_indent hs)]

/-- Of a function, lines in front of the body change nothing that the header says, and they raise
their exceptions before the others. -/
theorem ofHeader_append_of_function {header : Header} (h : isClassHeader header.text = false)
    (xs ys : List Text) :
    let d := Definition.ofHeader header ys
    let e := Definition.ofHeader header (xs ++ ys)
    e.name = d.name ∧ e.args = d.args ∧ e.kwargs = d.kwargs ∧ e.decorators = d.decorators ∧
      d.raises <:+ e.raises := by
  simp only [Definition.ofHeader, h, Bool.false_eq_true, if_false, Definition.classify,
    List.filterMap_append, true_and]
  exact List.suffix_append _ _

/-- A docstring that is indented as the first statement of a body is becomes the head of the body.
Where the body is that of a function, everything that the header says stays the same, and the
exceptions of the old body are the last ones of the new. -/
theorem below_insert_docstring {document l : Text} {line : Nat}
    (hl : (Body.visible ((lines document).drop line)).head? = some l) (hheader : ¬isHeaderLike l)
    (hwidth : indentation.length = indentWidth l)
    (hs : ∀ c ∈ indentation, isSpace c ∧ c ≠ '\r' ∧ c ≠ '\n') (hhead : snippet.head? = some q)
    (hq : isQuote q) :
    let docstring := indent indentation snippet
    let new := insertLines document line docstring
    Body.below new line =
        cleanLines (Body.visible (lines docstring)) ++ Body.below document line ∧
      ∀ header, Header.above? document line = some header → isClassHeader header.text = false →
        let d := Definition.parse document line
        let e := Definition.parse new line
        e.name = d.name ∧ e.args = d.args ∧ e.kwargs = d.kwargs ∧ e.decorators = d.decorators ∧
          d.raises <:+ e.raises := by
  intro docstring new
  have hline : line ≤ (lines document).length := by
    by_contra h
    rw [List.drop_of_length_le (by omega)] at hl
    simp [Body.visible] at hl
  have hbody : Body.below new line =
      cleanLines (Body.visible (lines docstring)) ++ Body.below document line := by
    rw [Body.below, drop_lines_insertLines docstring hline,
      scan_indent_append hl hheader hwidth hs hhead hq, cleanLines_append, Body.below]
  refine ⟨hbody, fun header habove hclass => ?_⟩
  simp only [Definition.parse, new, above?_insertLines docstring hline, habove]
  rw [hbody]
  exact ofHeader_append_of_function hclass _ _

/-- A docstring with a blank line, a line that looks like a header and one that looks like a raise,
above a body behind a blank line. -/
theorem below_insert_docstring_lookalike :
    let document := "def f(a):\n\n    if a:\n        raise KeyError\n    return a".toList
    let new := insertLines document 1
      (indent "    ".toList "'''Run.\n\ndef x\n  raise Early\n'''".toList)
    let d := Definition.parse document 1
    let e := Definition.parse new 1
    Body.below new 1 =
        List.map String.toList ["'''Run.", "def x", "raise Early", "'''"] ++
          Body.below document 1 ∧
      e.name = d.name ∧ e.args = d.args ∧ e.kwargs = d.kwargs ∧ e.decorators = d.decorators ∧
        d.raises <:+ e.raises := by
  intro document new
  have hl : (Body.visible ((lines document).drop 1)).head? = some "    if a:".toList := by
    decide +kernel
  have habove : Header.above? document 1 = some ⟨"def f(a):".toList, []⟩ := by decide +kernel
  have hspace : ∀ c ∈ "    ".toList, isSpace c ∧ c ≠ '\r' ∧ c ≠ '\n' := by
    intro c hc
    have hc : c = ' ' := by simpa using hc
    subst hc
    decide
  obtain ⟨hbody, hkeep⟩ := @below_insert_docstring "    ".toList
    "'''Run.\n\ndef x\n  raise Early\n'''".toList '\'' document "    if a:".toList 1 hl (by decide)
    (by decide) hspace rfl rfl
  refine ⟨?_, hkeep _ habove rfl⟩
  rw [hbody]
  rfl

end Docstring

end DocSnippet.Source

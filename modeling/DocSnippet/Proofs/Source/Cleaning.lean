import DocSnippet.Proofs.Source.Layout

/-! Cleaned lines. A literal is a quote, a body and the same quote again; in the body a backslash
takes the next character with it. A comment starts at the first `#` that stands behind closed
literals, so what is left of a line is its longest beginning without a comment, also where a literal
is never closed or a backslash ends the line. A part of such a beginning has no comment either, and
so trimming after the cut uncovers none: cleaned lines are not changed by cleaning them again. -/

namespace DocSnippet.Source

open Text

variable {c q : Char} {s t : Text}

/-! ### Literals -/

/-- What may stand between two quotes `q`: a backslash with any character behind it, and any
character that is neither a backslash nor the quote. -/
inductive LiteralBody (q : Char) : Text → Prop
  | nil : LiteralBody q []
  | plain {c : Char} {t : Text} (hquote : c ≠ q) (hback : c ≠ '\\') (ht : LiteralBody q t) :
      LiteralBody q (c :: t)
  | escape (c : Char) {t : Text} (ht : LiteralBody q t) : LiteralBody q ('\\' :: c :: t)

inductive LiteralsClosed : Text → Prop
  | nil : LiteralsClosed []
  | plain {c : Char} {t : Text} (hc : ¬isQuote c) (ht : LiteralsClosed t) : LiteralsClosed (c :: t)
  | literal {q : Char} {body t : Text} (hq : isQuote q) (hbody : LiteralBody q body)
      (ht : LiteralsClosed t) : LiteralsClosed (q :: (body ++ q :: t))

/-- A text without a comment: no `#` of it is outside literals. -/
def IsCommentFree (t : Text) : Prop := ∀ s u, t = s ++ '#' :: u → ¬LiteralsClosed s

namespace Quoting

/-- A text that closes what a scan has open: the rest of the literal, if there is one, and then
complete literals. -/
def ClosedBy : Quoting → Text → Prop
  | .code, t => LiteralsClosed t
  | .literal q, t => ∃ body u, t = body ++ q :: u ∧ LiteralBody q body ∧ LiteralsClosed u
  | .escaped q, t =>
    ∃ c body u, t = c :: (body ++ q :: u) ∧ LiteralBody q body ∧ LiteralsClosed u

theorem closedBy_nil_iff {s : Quoting} : s.ClosedBy [] ↔ s = .code := by
  cases s with
  | code => exact iff_of_true .nil rfl
  | literal q => simp [ClosedBy]
  | escaped q => simp [ClosedBy]

theorem closedBy_code_cons : ClosedBy .code (c :: t) ↔ (step .code c).ClosedBy t := by
  rw [step]
  split
  · next hc =>
    constructor
    · intro h
      cases h with
      | plain hplain _ => exact absurd hc hplain
      | literal _ hbody ht => exact ⟨_, _, rfl, hbody, ht⟩
    · rintro ⟨body, u, rfl, hbody, hu⟩
      exact .literal hc hbody hu
  · next hc =>
    constructor
    · intro h
      cases h with
      | plain _ ht => exact ht
      | literal hquote _ _ => exact absurd hquote hc
    · exact .plain hc

theorem closedBy_literal_cons (hq : isQuote q) :
    ClosedBy (.literal q) (c :: t) ↔ (step (.literal q) c).ClosedBy t := by
  have hback : q ≠ '\\' := ne_of_isQuote hq rfl
  -- the body is empty, or its first character decides which of its two rules was used
  have hcases : ClosedBy (.literal q) (c :: t) ↔
      (c = q ∧ LiteralsClosed t) ∨ (c ≠ q ∧ c ≠ '\\' ∧ ClosedBy (.literal q) t) ∨
        (c = '\\' ∧ ClosedBy (.escaped q) t) := by
    constructor
    · rintro ⟨body, u, h, hbody, hu⟩
      cases hbody with
      | nil =>
        obtain ⟨rfl, rfl⟩ := List.cons.inj h
        exact .inl ⟨rfl, hu⟩
      | plain hquote hplain hbody =>
        obtain ⟨rfl, rfl⟩ := List.cons.inj h
        exact .inr (.inl ⟨hquote, hplain, _, u, rfl, hbody, hu⟩)
      | escape d hbody =>
        obtain ⟨rfl, rfl⟩ := List.cons.inj h
        exact .inr (.inr ⟨rfl, d, _, u, rfl, hbody, hu⟩)
    · rintro (⟨rfl, ht⟩ | ⟨hquote, hplain, body, u, rfl, hbody, hu⟩ |
        ⟨rfl, d, body, u, rfl, hbody, hu⟩)
      · exact ⟨[], t, rfl, .nil, ht⟩
      · exact ⟨c :: body, u, rfl, .plain hquote hplain hbody, hu⟩
      · exact ⟨'\\' :: d :: body, u, rfl, .escape d hbody, hu⟩
  rw [hcases, step]
  by_cases hc : c = '\\'
  · simp [hc, hback.symm]
  · by_cases hcq : c = q
    · simp [hcq, hback, ClosedBy]
    · simp [hc, hcq]

/-- One character of a text is one step of a scan. -/
theorem closedBy_cons_iff {s : Quoting} (hs : s.IsReached) :
    s.ClosedBy (c :: t) ↔ (s.step c).ClosedBy t := by
  cases s with
  | code => exact closedBy_code_cons
  | literal q => exact closedBy_literal_cons hs
  | escaped q =>
    constructor
    · rintro ⟨d, body, u, h, hbody, hu⟩
      obtain ⟨rfl, rfl⟩ := List.cons.inj h
      exact ⟨body, u, rfl, hbody, hu⟩
    · rintro ⟨body, u, rfl, hbody, hu⟩
      exact ⟨c, body, u, rfl, hbody, hu⟩

theorem closedBy_iff {s : Quoting} (hs : s.IsReached) :
    s.ClosedBy t ↔ t.foldl step s = .code := by
  induction t generalizing s with
  | nil => exact closedBy_nil_iff
  | cons c t ih => rw [closedBy_cons_iff hs, ih (isReached_step hs c), List.foldl_cons]

end Quoting

/-- A scan is outside literals exactly behind complete ones. -/
theorem literalsClosed_iff : LiteralsClosed t ↔ t.foldl Quoting.step .code = .code :=
  Quoting.closedBy_iff (s := .code) trivial

/-! ### The part without a comment -/

theorem stripCommentFrom_isPrefix (q : Quoting) (t : Text) : stripCommentFrom q t <+: t := by
  fun_induction stripCommentFrom q t with
  | case1 => exact List.prefix_rfl
  | case2 => exact List.nil_prefix
  | case3 q c t hc ih => exact List.cons_prefix_cons.2 ⟨rfl, ih⟩

theorem stripCommentFrom_stripCommentFrom (q : Quoting) (t : Text) :
    stripCommentFrom q (stripCommentFrom q t) = stripCommentFrom q t := by
  fun_induction stripCommentFrom q t with
  | case1 => rfl
  | case2 => rfl
  | case3 q c t hc ih => rw [stripCommentFrom, if_neg hc, ih]

theorem stripComment_stripComment (line : Text) :
    stripComment (stripComment line) = stripComment line :=
  stripCommentFrom_stripCommentFrom .code line

theorem stripComment_eq_self_iff : stripComment t = t ↔ IsCommentFree t := by
  simp only [stripComment, stripCommentFrom_eq_self_iff, IsCommentFree, literalsClosed_iff, Ne]

theorem isCommentFree_stripComment (line : Text) : IsCommentFree (stripComment line) :=
  stripComment_eq_self_iff.1 (stripComment_stripComment line)

/-- A comment behind a text does not make one in it. -/
theorem IsCommentFree.of_isPrefix (ht : IsCommentFree t) (h : s <+: t) : IsCommentFree s := by
  rintro a b rfl
  obtain ⟨u, rfl⟩ := h
  exact ht a (b ++ u) (by simp)

/-- No beginning of a line without a comment is longer. -/
theorem IsCommentFree.isPrefix_stripComment (hs : IsCommentFree s) (h : s <+: t) :
    s <+: stripComment t := by
  obtain ⟨u, rfl⟩ := h
  rw [stripComment, stripCommentFrom_append (stripComment_eq_self_iff.2 hs)]
  exact List.prefix_append ..

/-! ### Lines -/

variable {l : Text} {ls : List Text}

theorem cleanLines_eq (ls : List Text) :
    cleanLines ls =
      (ls.filter fun l => (trim l).head? != some '#').map fun l => trim (stripComment l) := by
  simp only [cleanLines, trimEnd_stripComment_trim, isCommentLine, bne]

theorem stripComment_of_mem_cleanLines (h : l ∈ cleanLines ls) : stripComment l = l := by
  obtain ⟨m, -, rfl⟩ := List.mem_map.1 h
  rw [stripComment_eq_self_iff]
  exact (isCommentFree_stripComment (trim m)).of_isPrefix (trimEnd_isPrefix _)

theorem cleanLines_eq_self (h : ∀ l ∈ ls, trim l = l ∧ stripComment l = l) :
    cleanLines ls = ls := by
  induction ls with
  | nil => rfl
  | cons l ls ih =>
    obtain ⟨⟨htrim, hstrip⟩, hls⟩ := List.forall_mem_cons.1 h
    have hnot : ¬isCommentLine l := not_isCommentLine_of_trim (by rw [hstrip])
    rw [cleanLines_cons, if_neg hnot, hstrip, htrim, ih hls]

/-- A line without its comment is its longest beginning in which every `#` stands in a literal, and
nothing is taken from it a second time. Cleaned lines are trimmed and without comments, one for each
line that does not start with a `#` when trimmed, and cleaning them again changes nothing. -/
theorem clean_normal :
    (∀ line, let code := stripComment line
      code <+: line ∧ IsCommentFree code ∧
        (∀ p, p <+: line → IsCommentFree p → p <+: code) ∧ stripComment code = code) ∧
    ∀ ls, let cleaned := cleanLines ls
      (∀ l ∈ cleaned, trim l = l ∧ stripComment l = l) ∧
        cleaned =
          (ls.filter fun l => (trim l).head? != some '#').map (fun l => trim (stripComment l)) ∧
        cleanLines cleaned = cleaned := by
  constructor
  · intro line code
    exact ⟨stripCommentFrom_isPrefix .code line, isCommentFree_stripComment line,
      fun p hp hfree => hfree.isPrefix_stripComment hp, stripComment_stripComment line⟩
  · intro ls cleaned
    have hcleaned : ∀ l ∈ cleaned, trim l = l ∧ stripComment l = l := fun l hl =>
      ⟨trim_of_mem_cleanLines hl, stripComment_of_mem_cleanLines hl⟩
    exact ⟨hcleaned, cleanLines_eq ls, cleanLines_eq_self hcleaned⟩

/-- Neither a literal that is not closed nor a backslash at the end hides the next line. -/
example : cleanLines ["  x = '\\'#'  # a".toList, " # b".toList, "y = \"# ".toList,
    "z # c\\".toList] =
    ["x = '\\'#'".toList, "y = \"#".toList, "z".toList] := by
  decide

end DocSnippet.Source

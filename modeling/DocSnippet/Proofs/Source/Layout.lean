import DocSnippet.Proofs.Text.Trim
import DocSnippet.Proofs.Text.Word
import DocSnippet.Source.Comment

/-! Layouts. Pieces of code can be spread over lines, with white space around each of them, comments
at the ends of lines, and blank lines and comments between the lines. The cleaned lines, joined by
blanks, hold the same pieces in the same order with white space between them, and nothing else. -/

namespace DocSnippet.Source

open Text

/-! ### Code without comments -/

structure IsCode (t : Text) : Prop where
  stripped : stripComment t = t
  closed : t.foldl Quoting.step .code = .code

instance (t : Text) : Decidable (IsCode t) :=
  decidable_of_iff (stripComment t = t ∧ t.foldl Quoting.step .code = .code)
    ⟨fun h => ⟨h.1, h.2⟩, fun h => ⟨h.stripped, h.closed⟩⟩

/-- Behind a text without a comment the scan goes on in the state that the text leaves. -/
theorem stripCommentFrom_append {q : Quoting} {s : Text} (h : stripCommentFrom q s = s) (t : Text) :
    stripCommentFrom q (s ++ t) = s ++ stripCommentFrom (s.foldl Quoting.step q) t := by
  induction s generalizing q with
  | nil => rfl
  | cons c s ih =>
    by_cases hc : q = .code ∧ c = '#'
    · simp [stripCommentFrom, hc] at h
    · simp only [stripCommentFrom, hc, if_false, List.cons.injEq, true_and] at h
      simp only [List.cons_append, stripCommentFrom, hc, if_false, ih h, List.foldl_cons]

/-- A scan keeps a text exactly if every `#` of it stands in a literal. -/
theorem stripCommentFrom_eq_self_iff {q : Quoting} {t : Text} :
    stripCommentFrom q t = t ↔ ∀ s u, t = s ++ '#' :: u → s.foldl Quoting.step q ≠ .code := by
  induction t generalizing q with
  | nil => simp [stripCommentFrom]
  | cons c t ih =>
    rw [stripCommentFrom]
    split
    · next hc => exact iff_of_false (by simp) fun h => h [] t (by rw [hc.2, List.nil_append]) hc.1
    · next hc =>
      rw [List.cons_inj_right, ih]
      constructor
      · intro h s u hsu
        cases s with
        | nil =>
          rintro rfl
          exact hc ⟨rfl, (List.cons.inj hsu).1⟩
        | cons d s =>
          obtain ⟨rfl, rfl⟩ := List.cons.inj hsu
          exact h s u rfl
      · exact fun h s u hsu => h (c :: s) u (by rw [hsu, List.cons_append])

theorem stripCommentFrom_of_notMem {t : Text} (h : '#' ∉ t) (q : Quoting) :
    stripCommentFrom q t = t := by
  rw [stripCommentFrom_eq_self_iff]
  rintro s u rfl
  simp at h

namespace IsCode

variable {s t : Text}

theorem stripComment_append (hs : IsCode s) (t : Text) :
    stripComment (s ++ t) = s ++ stripComment t := by
  rw [stripComment, stripCommentFrom_append hs.stripped, hs.closed, stripComment]

theorem append (hs : IsCode s) (ht : IsCode t) : IsCode (s ++ t) where
  stripped := by rw [hs.stripComment_append, ht.stripped]
  closed := by rw [List.foldl_append, hs.closed, ht.closed]

theorem of_plain (h : ∀ c ∈ t, ¬isQuote c ∧ c ≠ '#') : IsCode t where
  stripped := stripCommentFrom_of_notMem (fun hmem => (h '#' hmem).2 rfl) .code
  closed := by
    induction t with
    | nil => rfl
    | cons c t ih =>
      obtain ⟨hc, ht⟩ := List.forall_mem_cons.1 h
      rw [List.foldl_cons, Quoting.step, if_neg hc.1, ih ht]

theorem of_space (h : ∀ c ∈ t, isSpace c) : IsCode t := by
  refine of_plain fun c hc => ⟨fun hq => not_isSpace_of_isQuote hq (h c hc), ?_⟩
  exact ne_of_isSpace (h c hc) rfl

end IsCode

/-! ### White space around code -/

namespace Quoting

/-- The states of a scan that starts in code: a literal is opened by a quote. -/
def IsReached : Quoting → Prop
  | .code => True
  | .literal q | .escaped q => isQuote q

theorem isReached_step {s : Quoting} (hs : s.IsReached) (c : Char) : (s.step c).IsReached := by
  cases s with
  | code =>
    rw [step]
    split
    · next hc => exact hc
    · trivial
  | literal q =>
    rw [step]
    split
    · exact hs
    · split
      · trivial
      · exact hs
  | escaped q => exact hs

theorem isReached_foldl {s : Quoting} (hs : s.IsReached) (t : Text) :
    (t.foldl step s).IsReached := by
  induction t generalizing s with
  | nil => exact hs
  | cons c t ih => exact ih (isReached_step hs c)

/-- White space neither opens nor closes a literal. -/
theorem step_eq_code_iff_of_space {s : Quoting} (hs : s.IsReached) {c : Char} (hc : isSpace c) :
    s.step c = .code ↔ s = .code := by
  have hquote : ¬isQuote c := fun h => not_isSpace_of_isQuote h hc
  cases s with
  | code => simp [step, hquote]
  | literal q =>
    have hback : c ≠ '\\' := ne_of_isSpace hc rfl
    have hne : c ≠ q := by
      rintro rfl
      exact hquote hs
    simp [step, hback, hne]
  | escaped q => simp [step]

theorem foldl_eq_code_iff_of_space {s : Quoting} (hs : s.IsReached) {t : Text}
    (ht : ∀ c ∈ t, isSpace c) : t.foldl step s = .code ↔ s = .code := by
  induction t generalizing s with
  | nil => rfl
  | cons c t ih =>
    rw [List.foldl_cons, ih (isReached_step hs c) fun d hd => ht d (by simp [hd]),
      step_eq_code_iff_of_space hs (ht c (by simp))]

end Quoting

/-- Of white space behind a text a scan keeps all or nothing. -/
theorem stripCommentFrom_append_space (q : Quoting) (t : Text) {s : Text}
    (hs : ∀ c ∈ s, isSpace c) :
    stripCommentFrom q (t ++ s) = stripCommentFrom q t ++ s ∨
      stripCommentFrom q (t ++ s) = stripCommentFrom q t ∧
        (stripCommentFrom q t).length < t.length := by
  induction t generalizing q with
  | nil =>
    have hsign : '#' ∉ s := fun hmem => ne_of_isSpace (hs '#' hmem) rfl rfl
    exact .inl (stripCommentFrom_of_notMem hsign q)
  | cons c t ih =>
    by_cases hc : q = .code ∧ c = '#'
    · simp [stripCommentFrom, hc]
    · simpa [stripCommentFrom, hc] using ih (q.step c)

theorem isCode_space_append {s : Text} (hs : ∀ c ∈ s, isSpace c) (t : Text) :
    IsCode (s ++ t) ↔ IsCode t := by
  have hcode := IsCode.of_space hs
  constructor
  · intro h
    refine ⟨?_, ?_⟩
    · exact List.append_cancel_left ((hcode.stripComment_append t).symm.trans h.stripped)
    · have hclosed := h.closed
      rwa [List.foldl_append, hcode.closed] at hclosed
  · exact hcode.append

theorem isCode_append_space (t : Text) {s : Text} (hs : ∀ c ∈ s, isSpace c) :
    IsCode (t ++ s) ↔ IsCode t := by
  refine ⟨fun h => ⟨?_, ?_⟩, fun h => h.append (.of_space hs)⟩
  · rcases stripCommentFrom_append_space .code t hs with hstrip | ⟨hstrip, hlt⟩
    · exact List.append_cancel_right (hstrip.symm.trans h.stripped)
    · have hlen := congrArg List.length (hstrip.symm.trans h.stripped)
      rw [List.length_append] at hlen
      omega
  · have hclosed := h.closed
    rw [List.foldl_append] at hclosed
    have hreached : (t.foldl Quoting.step .code).IsReached := Quoting.isReached_foldl (by trivial) t
    exact (Quoting.foldl_eq_code_iff_of_space hreached hs).1 hclosed

theorem isCode_trim (t : Text) : IsCode (trim t) ↔ IsCode t :=
  iff_of_eq (apply_trim (f := IsCode) (fun _ t hs => propext (isCode_space_append hs t))
    (fun t _ hs => propext (isCode_append_space t hs)) t)

theorem trim_stripComment_trim (l : Text) :
    trim (stripComment (trim l)) = trim (stripComment l) := by
  refine apply_trim (f := fun l => trim (stripComment l)) (fun s t hs => ?_) (fun t s hs => ?_) l
  · rw [(IsCode.of_space hs).stripComment_append, trim_space_append hs]
  · rcases stripCommentFrom_append_space .code t hs with h | ⟨h, -⟩
    · rw [stripComment, h, trim_append_of_space _ hs, stripComment]
    · rw [stripComment, h, stripComment]

/-- A cleaned line is the line without its comment, trimmed. -/
theorem trimEnd_stripComment_trim (l : Text) :
    trimEnd (stripComment (trim l)) = trim (stripComment l) := by
  have hstart : trimStart (stripComment (trim l)) = stripComment (trim l) := by
    rw [trimStart_eq_self_iff]
    intro c hc
    refine (trim_eq_self_iff.1 (trim_trim l)).1 c ?_
    cases h : trim l with
    | nil => simp [h, stripComment, stripCommentFrom] at hc
    | cons d t =>
      rw [h, stripComment, stripCommentFrom] at hc
      split at hc
      · simp at hc
      · simpa using hc
  calc trimEnd (stripComment (trim l))
      = trim (stripComment (trim l)) := by rw [trim.eq_1 (stripComment (trim l)), hstart]
    _ = trim (stripComment l) := trim_stripComment_trim l

/-! ### Pieces of a text -/

/-- The pieces `ps` stand in a text one after another, with any white space around each of them. -/
inductive Spells : List Text → Text → Prop
  | nil {t : Text} (ht : ∀ c ∈ t, isSpace c) : Spells [] t
  | cons {p a t : Text} {ps : List Text} (ha : trim a = trim p) (ht : Spells ps t) :
      Spells (p :: ps) (a ++ t)

namespace Spells

variable {p s t u : Text} {ps qs : List Text}

theorem space_append (hs : ∀ c ∈ s, isSpace c) (h : Spells ps t) : Spells ps (s ++ t) := by
  cases h with
  | nil ht =>
    refine .nil fun c hc => ?_
    rcases List.mem_append.1 hc with hc | hc
    · exact hs c hc
    · exact ht c hc
  | @cons p a t ps ha ht =>
    rw [← List.append_assoc]
    exact .cons ((trim_space_append hs a).trans ha) ht

theorem append (h : Spells ps t) (h' : Spells qs u) : Spells (ps ++ qs) (t ++ u) := by
  induction h with
  | nil ht => exact h'.space_append ht
  | cons ha ht ih =>
    rw [List.append_assoc]
    exact .cons ha ih

theorem of_space_append (hs : ∀ c ∈ s, isSpace c) (h : Spells ps (s ++ t)) : Spells ps t := by
  generalize hx : s ++ t = x at h
  induction h generalizing s t with
  | nil hsp =>
    subst hx
    exact .nil fun c hc => hsp c (by simp [hc])
  | @cons p a u ps ha hu ih =>
    rcases List.append_eq_append_iff.1 hx with ⟨m, rfl, rfl⟩ | ⟨m, rfl, rfl⟩
    · exact .cons ((trim_space_append hs m).symm.trans ha) hu
    · have hblank : ∀ c ∈ a, isSpace c := fun c hc => hs c (by simp [hc])
      have ht : Spells ps t := ih (fun c hc => hs c (by simp [hc])) rfl
      refine .cons (a := []) ?_ ht
      rw [← ha, trim_eq_nil_iff.2 hblank]
      rfl

theorem of_append_space (hs : ∀ c ∈ s, isSpace c) (h : Spells ps (t ++ s)) : Spells ps t := by
  generalize hx : t ++ s = x at h
  induction h generalizing s t with
  | nil hsp =>
    subst hx
    exact .nil fun c hc => hsp c (by simp [hc])
  | @cons p a u ps ha hu ih =>
    rcases List.append_eq_append_iff.1 hx with ⟨m, rfl, rfl⟩ | ⟨m, rfl, rfl⟩
    · have hm : ∀ c ∈ m, isSpace c := fun c hc => hs c (by simp [hc])
      have hnil : Spells ps [] := ih (fun c hc => hs c (by simp [hc])) (List.nil_append u)
      rw [← List.append_nil t]
      exact .cons ((trim_append_of_space t hm).symm.trans ha) hnil
    · exact .cons ha (ih hs rfl)

theorem trim_text (h : Spells ps t) : Spells ps (trim t) := by
  obtain ⟨s, u, hs, hu, ht⟩ := exists_eq_append_trim_append t
  rw [ht, List.append_assoc] at h
  exact of_append_space hu (of_space_append hs h)

theorem isCode (h : Spells ps t) (hps : ∀ p ∈ ps, IsCode p) : IsCode t := by
  induction h with
  | nil ht => exact .of_space ht
  | cons ha ht ih =>
    have hcode := (isCode_trim _).2 (hps _ List.mem_cons_self)
    rw [← ha, isCode_trim] at hcode
    exact hcode.append (ih fun q hq => hps q (by simp [hq]))

theorem trim_eq_nil_of_space (h : Spells ps t) (ht : ∀ c ∈ t, isSpace c) :
    ∀ p ∈ ps, trim p = [] := by
  induction h with
  | nil => simp
  | @cons p a t ps ha _ ih =>
    intro q hq
    rcases List.mem_cons.1 hq with rfl | hq
    · rw [← ha, trim_eq_nil_iff]
      exact fun c hc => ht c (by simp [hc])
    · exact ih (fun c hc => ht c (by simp [hc])) q hq

theorem exists_head (h : Spells (p :: ps) t) (hp : trim p = p) :
    ∃ s u, (∀ c ∈ s, isSpace c) ∧ t = s ++ p ++ u ∧ Spells ps u := by
  cases h with
  | @cons _ a t _ ha ht =>
    obtain ⟨s, u, hs, hu, ha'⟩ := exists_eq_append_trim_append a
    rw [ha, hp] at ha'
    exact ⟨s, u ++ t, hs, by rw [ha', List.append_assoc], ht.space_append hu⟩

theorem exists_last (h : Spells (ps ++ [p]) t) (hp : trim p = p) :
    ∃ u s, (∀ c ∈ s, isSpace c) ∧ t = u ++ p ++ s ∧ Spells ps u := by
  induction ps generalizing t with
  | nil =>
    obtain ⟨s, u, hs, rfl, hu⟩ := exists_head h hp
    cases hu with
    | nil hu => exact ⟨s, u, hu, rfl, .nil hs⟩
  | cons q ps ih =>
    cases h with
    | @cons _ a t _ ha ht =>
      obtain ⟨u, s, hs, rfl, hu⟩ := ih ht
      exact ⟨a ++ u, s, hs, by simp, .cons ha hu⟩

end Spells

/-! ### Lines -/

/-- The pieces `ps` stand in a line, perhaps with a comment behind them. -/
def IsLineOf (ps : List Text) (l : Text) : Prop :=
  ∃ t, Spells ps t ∧ (l = t ∨ ∃ comment, l = t ++ '#' :: comment)

/-- The pieces `ps` are spread over lines, and the last line holds one of them. A line without a
piece is blank or a comment. -/
inductive Layout : List Text → List Text → Prop
  | last {l : Text} {ps : List Text} (hps : ps ≠ []) (hl : IsLineOf ps l) : Layout ps [l]
  | cons {l : Text} {ps qs ls : List Text} (hl : IsLineOf ps l) (h : Layout qs ls) :
      Layout (ps ++ qs) (l :: ls)

theorem cleanLines_append (xs ys : List Text) :
    cleanLines (xs ++ ys) = cleanLines xs ++ cleanLines ys := by
  simp [cleanLines, List.filter_append]

theorem cleanLines_cons (l : Text) (ls : List Text) :
    cleanLines (l :: ls) =
      if isCommentLine l then cleanLines ls else trim (stripComment l) :: cleanLines ls := by
  by_cases hl : isCommentLine l <;> simp [cleanLines, hl, trimEnd_stripComment_trim]

/-- If a trimmed line has no comment, nothing but white space is cut off the line. -/
theorem trim_stripComment_of_trim {l : Text} (h : stripComment (trim l) = trim l) :
    trim (stripComment l) = trim l := by
  rw [← trim_stripComment_trim, h, trim_trim]

theorem trim_of_mem_cleanLines {ls : List Text} {l : Text} (h : l ∈ cleanLines ls) :
    trim l = l := by
  obtain ⟨m, -, rfl⟩ := List.mem_map.1 h
  rw [trimEnd_stripComment_trim, trim_trim]

theorem trim_stripComment_of_isCommentLine {l : Text} (h : isCommentLine l) :
    trim (stripComment l) = [] := by
  simp only [isCommentLine, beq_iff_eq, List.head?_eq_some_iff] at h
  obtain ⟨t, ht⟩ := h
  rw [← trim_stripComment_trim, ht]
  rfl

theorem not_isCommentLine_of_trim {l : Text} (h : trim (stripComment l) = trim l) :
    ¬isCommentLine l := by
  intro hcomment
  have hnil : trim l = [] := h.symm.trans (trim_stripComment_of_isCommentLine hcomment)
  simp [isCommentLine, hnil] at hcomment

theorem cleanLines_concat (ls : List Text) {l : Text} (h : trim (stripComment l) = trim l) :
    cleanLines (ls ++ [l]) = cleanLines ls ++ [trim l] := by
  rw [cleanLines_append, cleanLines_cons, if_neg (not_isCommentLine_of_trim h), h]
  rfl

namespace IsLineOf

variable {l : Text} {ps : List Text}

theorem spells_trim_stripComment (h : IsLineOf ps l) (hps : ∀ p ∈ ps, IsCode p) :
    Spells ps (trim (stripComment l)) := by
  obtain ⟨t, ht, rfl | ⟨comment, rfl⟩⟩ := h
  · rw [(ht.isCode hps).stripped]
    exact ht.trim_text
  · have hnil : stripComment ('#' :: comment) = [] := rfl
    rw [(ht.isCode hps).stripComment_append, hnil, List.append_nil]
    exact ht.trim_text

end IsLineOf

namespace Layout

variable {ps ls : List Text}

theorem ne_nil (h : Layout ps ls) : ps ≠ [] := by
  induction h with
  | last hps => exact hps
  | cons _ _ ih => simp [ih]

/-- The cleaned lines of a layout, joined by blanks, hold its pieces. -/
theorem spells_join_cleanLines (h : Layout ps ls) (hps : ∀ p ∈ ps, IsCode p) :
    Spells ps (join [' '] (cleanLines ls)) := by
  have hblank : ∀ c ∈ [' '], isSpace c := isBlank_iff.1 rfl
  induction h with
  | @last l ps _ hl =>
    have hs := hl.spells_trim_stripComment hps
    rw [cleanLines_cons]
    split
    · next hc => rwa [trim_stripComment_of_isCommentLine hc] at hs
    · exact hs
  | @cons l ps qs ls hl _ ih =>
    have hs := hl.spells_trim_stripComment fun p hp => hps p (by simp [hp])
    have ih := ih fun p hp => hps p (by simp [hp])
    rw [cleanLines_cons]
    split
    · next hc =>
      rw [trim_stripComment_of_isCommentLine hc] at hs
      exact hs.append ih
    · by_cases hne : cleanLines ls = []
      · rw [hne] at ih ⊢
        have happ := hs.append ih
        rwa [join, List.append_nil] at happ
      · rw [join_cons _ _ hne, List.append_assoc]
        exact hs.append (ih.space_append hblank)

theorem exists_getLast?_cleanLines (h : Layout ps ls) (hps : ∀ p ∈ ps, IsCode p)
    (hlast : ∀ p ∈ ps.getLast?, trim p ≠ []) :
    ∃ l, (cleanLines ls).getLast? = some l ∧ ¬isBlank l := by
  induction h with
  | @last l ps hne hl =>
    have hs := hl.spells_trim_stripComment hps
    obtain ⟨qs, p, rfl⟩ := (List.eq_nil_or_concat' ps).resolve_left hne
    have hvisible : ¬isBlank (trim (stripComment l)) := fun hb =>
      hlast p (by simp) (hs.trim_eq_nil_of_space (isBlank_iff.1 hb) p (by simp))
    have hcomment : ¬isCommentLine l := by
      intro hc
      rw [trim_stripComment_of_isCommentLine hc] at hvisible
      exact hvisible rfl
    refine ⟨trim (stripComment l), ?_, hvisible⟩
    rw [cleanLines_cons, if_neg hcomment]
    rfl
  | @cons l ps qs ls hl h ih =>
    have hqs : qs ≠ [] := h.ne_nil
    obtain ⟨m, hm, hvisible⟩ := ih (fun p hp => hps p (by simp [hp])) fun p hp =>
      hlast p (by rwa [List.getLast?_append_of_ne_nil _ hqs])
    refine ⟨m, ?_, hvisible⟩
    rw [cleanLines_cons]
    split
    · exact hm
    · rw [List.getLast?_cons, hm]
      rfl

end Layout

end DocSnippet.Source

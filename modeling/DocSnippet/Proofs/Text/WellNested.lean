import DocSnippet.Proofs.Text.Split

/-! The language of balanced texts. A text is well nested if it is made of plain characters, of
bracketed texts and of quoted strings, and these are the texts that a split finds balanced, whatever
the separator. One direction needs that a well-nested text leaves the open brackets as they are. The
other needs to know what closes a whole stack of openers: before each closer stands a well-nested
text, or under a quote any text without it. In brackets a balanced text is not cut. -/

namespace DocSnippet.Text

def brackets : List (Char × Char) := [('[', ']'), ('(', ')'), ('{', '}')]

def quotes : List Char := ['"', '\'']

/-- The grammar of balanced texts: plain characters, bracketed texts and quoted strings, one after
another. -/
inductive WellNested : Text → Prop
  | nil : WellNested []
  | plain {c : Char} {t : Text} (hbracket : ∀ b ∈ brackets, c ≠ b.1 ∧ c ≠ b.2) (hquote : c ∉ quotes)
      (ht : WellNested t) : WellNested (c :: t)
  | bracketed {o c : Char} {s t : Text} (hpair : (o, c) ∈ brackets) (hs : WellNested s)
      (ht : WellNested t) : WellNested (o :: s ++ c :: t)
  | quoted {q : Char} {s t : Text} (hq : q ∈ quotes) (hs : q ∉ s) (ht : WellNested t) :
      WellNested (q :: s ++ q :: t)

/-! ### Kinds of characters -/

theorem isQuote_iff {q : Char} : isQuote q ↔ q ∈ quotes := by
  simp [isQuote, quotes]

theorem closer?_eq_some_iff {o c : Char} : closer? o = some c ↔ (o, c) ∈ brackets := by
  simp only [closer?, brackets, List.mem_cons, Prod.mk.injEq, List.not_mem_nil, or_false]
  split_ifs <;> simp_all [eq_comm]

theorem isOpening_iff {c : Char} : isOpening c ↔ c ∈ quotes ∨ ∃ b ∈ brackets, c = b.1 := by
  rw [isOpening, Bool.or_eq_true, isQuote_iff, Option.isSome_iff_exists]
  simp only [closer?_eq_some_iff]
  grind

theorem not_isQuote_of_mem_brackets {o c : Char} (h : (o, c) ∈ brackets) : ¬isQuote o := by
  simp only [brackets, List.mem_cons, Prod.mk.injEq, List.not_mem_nil, or_false] at h
  rcases h with ⟨rfl, -⟩ | ⟨rfl, -⟩ | ⟨rfl, -⟩ <;> decide

theorem isOpening_of_mem_brackets {o c : Char} (h : (o, c) ∈ brackets) : isOpening o :=
  isOpening_iff.2 (.inr ⟨_, h, rfl⟩)

/-- Right behind an opening bracket a scan is outside quotes. -/
theorem not_isQuote_head?_of_mem_brackets {o c : Char} (h : (o, c) ∈ brackets)
    (opened : List Char) : ∀ p ∈ (o :: opened).head?, ¬isQuote p := by
  simpa using not_isQuote_of_mem_brackets h

theorem isClosing_of_mem_brackets {o c : Char} (h : (o, c) ∈ brackets) :
    isClosing c ∧ ¬isOpening c := by
  simp only [brackets, List.mem_cons, Prod.mk.injEq, List.not_mem_nil, or_false] at h
  rcases h with ⟨-, rfl⟩ | ⟨-, rfl⟩ | ⟨-, rfl⟩ <;> decide

theorem isClosing_iff {c : Char} : isClosing c ↔ ∃ b ∈ brackets, c = b.2 := by
  simp [isClosing, brackets, or_assoc]

theorem plain_iff {c : Char} :
    (¬isOpening c ∧ ¬isClosing c) ↔ (∀ b ∈ brackets, c ≠ b.1 ∧ c ≠ b.2) ∧ c ∉ quotes := by
  rw [isOpening_iff, isClosing_iff]
  grind

/-! ### Steps of the scan -/

namespace Nesting

theorem step_outside {n : Nesting} (hn : ∀ o ∈ n.opened.head?, ¬isQuote o) (c : Char) :
    n.step c = n.bracket c := by
  obtain ⟨opened, sound⟩ := n
  cases opened with
  | nil => rfl
  | cons o rest => simp [step, hn o rfl]

theorem step_inside {q : Char} (hq : isQuote q) (rest : List Char) (sound : Bool) (c : Char) :
    step ⟨q :: rest, sound⟩ c = if c = q then ⟨rest, sound⟩ else ⟨q :: rest, sound⟩ := by
  simp [step, hq]

theorem run_inside {q : Char} (hq : isQuote q) (rest : List Char) (sound : Bool) {s : Text}
    (hs : q ∉ s) : run ⟨q :: rest, sound⟩ s = ⟨q :: rest, sound⟩ := by
  induction s with
  | nil => rfl
  | cons c s ih =>
    simp only [List.mem_cons, not_or] at hs
    rw [run_cons, step_inside hq, if_neg (Ne.symm hs.1), ih hs.2]

theorem not_isClosed_run_of_unsound {n : Nesting} (hn : n.sound = false) (t : Text) :
    ¬(n.run t).isClosed := by
  rw [isClosed_run, hn]
  simp

/-- What a character outside quotes does to a sound scan: it opens, closes what was opened last, is
plain, or makes the scan unsound. -/
theorem bracket_cases (os : List Char) (c : Char) :
    bracket ⟨os, true⟩ c = ⟨c :: os, true⟩ ∨
    (∃ o rest, os = o :: rest ∧ (o, c) ∈ brackets ∧ bracket ⟨os, true⟩ c = ⟨rest, true⟩) ∨
    (((∀ b ∈ brackets, c ≠ b.1 ∧ c ≠ b.2) ∧ c ∉ quotes) ∧ bracket ⟨os, true⟩ c = ⟨os, true⟩) ∨
    (bracket ⟨os, true⟩ c).sound = false := by
  by_cases hopen : isOpening c
  · exact .inl (by rw [bracket, if_pos hopen])
  by_cases hclose : isClosing c
  · rw [bracket, if_neg hopen, if_pos hclose]
    cases os with
    | nil => exact .inr (.inr (.inr rfl))
    | cons o rest =>
      by_cases hpair : closer? o = some c
      · exact .inr (.inl ⟨o, rest, rfl, closer?_eq_some_iff.1 hpair, if_pos hpair⟩)
      · exact .inr (.inr (.inr (by simp [hpair])))
  · refine .inr (.inr (.inl ⟨plain_iff.1 ⟨hopen, hclose⟩, ?_⟩))
    rw [bracket, if_neg hopen, if_neg hclose]

end Nesting

theorem Nesting.step_opening {n : Nesting} (hn : ∀ o ∈ n.opened.head?, ¬isQuote o) {c : Char}
    (hc : isOpening c) : n.step c = ⟨c :: n.opened, n.sound⟩ := by
  rw [step_outside hn, bracket, if_pos hc]

theorem Nesting.step_plain {n : Nesting} (hn : ∀ o ∈ n.opened.head?, ¬isQuote o) {c : Char}
    (hbracket : ∀ b ∈ brackets, c ≠ b.1 ∧ c ≠ b.2) (hquote : c ∉ quotes) : n.step c = n := by
  obtain ⟨hopen, hclose⟩ := plain_iff.2 ⟨hbracket, hquote⟩
  rw [step_outside hn, bracket, if_neg hopen, if_neg hclose]

theorem Nesting.step_closing {o c : Char} (h : (o, c) ∈ brackets) (opened : List Char)
    (sound : Bool) : step ⟨o :: opened, sound⟩ c = ⟨opened, sound⟩ := by
  obtain ⟨hclose, hopen⟩ := isClosing_of_mem_brackets h
  rw [step_outside (not_isQuote_head?_of_mem_brackets h opened), bracket, if_neg hopen,
    if_pos hclose]
  exact if_pos (closer?_eq_some_iff.2 h)

/-- Outside quotes a well-nested text changes nothing. -/
theorem WellNested.run_eq {t : Text} (h : WellNested t) {n : Nesting}
    (hn : ∀ o ∈ n.opened.head?, ¬isQuote o) : n.run t = n := by
  induction h generalizing n with
  | nil => rfl
  | plain hbracket hquote _ ih =>
    rw [Nesting.run_cons, Nesting.step_plain hn hbracket hquote]
    exact ih hn
  | @bracketed o c s t hpair _ _ ihs iht =>
    have hquote := not_isQuote_head?_of_mem_brackets hpair n.opened
    rw [List.cons_append, Nesting.run_cons,
      Nesting.step_opening hn (isOpening_of_mem_brackets hpair), Nesting.run_append,
      ihs hquote, Nesting.run_cons, Nesting.step_closing hpair]
    exact iht hn
  | @quoted q s t hq hs _ ih =>
    rw [List.cons_append, Nesting.run_cons, Nesting.step_opening hn (isOpening_iff.2 (.inl hq)),
      Nesting.run_append, Nesting.run_inside (isQuote_iff.2 hq) _ _ hs, Nesting.run_cons,
      Nesting.step_inside (isQuote_iff.2 hq), if_pos rfl]
    exact ih hn

/-! ### What closes a stack of openers -/

inductive Fills : Char → Text → Char → Prop
  | bracket {o c : Char} {s : Text} (hpair : (o, c) ∈ brackets) (hs : WellNested s) : Fills o s c
  | quote {q : Char} {s : Text} (hq : q ∈ quotes) (hs : q ∉ s) : Fills q s q

theorem Fills.wellNested {o c : Char} {s t : Text} (h : Fills o s c) (ht : WellNested t) :
    WellNested (o :: s ++ c :: t) := by
  cases h with
  | bracket hpair hs => exact .bracketed hpair hs ht
  | quote hq hs => exact .quoted hq hs ht

/-- A text closes the openers of a stack, innermost first, and is well nested behind the last
closer. -/
def Closes : List Char → Text → Prop
  | [], t => WellNested t
  | o :: os, t => ∃ s c r, t = s ++ c :: r ∧ Fills o s c ∧ Closes os r

/-- Outside quotes a well-nested piece may stand in front. -/
theorem Closes.append {os : List Char} (hos : ∀ o ∈ os.head?, ¬isQuote o) {u r : Text}
    (hu : ∀ t, WellNested t → WellNested (u ++ t)) (h : Closes os r) : Closes os (u ++ r) := by
  cases os with
  | nil => exact hu r h
  | cons o os =>
    obtain ⟨s, c, r, rfl, hfills, hr⟩ := h
    cases hfills with
    | bracket hpair hs => exact ⟨u ++ s, c, r, by simp, .bracket hpair (hu s hs), hr⟩
    | quote hq hs => exact absurd (isQuote_iff.2 hq) (hos o rfl)

/-- What a scan inside a quoted string accepts ends that string first. -/
theorem Closes.of_step_inside {q c : Char} {os : List Char} {t : Text} (hq : isQuote q)
    (hend : c = q → Closes os t) (hgo : c ≠ q → Closes (q :: os) t) :
    Closes (q :: os) (c :: t) := by
  by_cases hc : c = q
  · subst hc
    exact ⟨[], c, t, rfl, .quote (isQuote_iff.1 hq) (by simp), hend rfl⟩
  · obtain ⟨s, d, r, rfl, hfills, hr⟩ := hgo hc
    cases hfills with
    | bracket hpair hs => exact absurd hq (not_isQuote_of_mem_brackets hpair)
    | quote hq hs => exact ⟨c :: s, q, r, rfl, .quote hq (by simp [Ne.symm hc, hs]), hr⟩

/-- A scan that ends closed has read what closes the openers it started with. Only the innermost of
them can be a quote. -/
theorem closes_of_isClosed_run (os : List Char) (hos : ∀ o ∈ os.tail, ¬isQuote o) {t : Text}
    (h : (Nesting.run ⟨os, true⟩ t).isClosed) : Closes os t := by
  induction t generalizing os with
  | nil =>
    have hnil : os = [] := by simpa [Nesting.run, Nesting.isClosed] using h
    subst hnil
    exact .nil
  | cons c t ih =>
    rw [Nesting.run_cons] at h
    by_cases hquoted : ∃ q rest, os = q :: rest ∧ isQuote q
    · obtain ⟨q, rest, rfl, hq⟩ := hquoted
      rw [Nesting.step_inside hq] at h
      refine .of_step_inside hq (fun hc => ?_) fun hc => ?_
      · rw [if_pos hc] at h
        exact ih rest (fun o ho => hos o (List.mem_of_mem_tail ho)) h
      · rw [if_neg hc] at h
        exact ih _ hos h
    · have hhead : ∀ o ∈ os.head?, ¬isQuote o := by
        intro o ho hq
        obtain ⟨rest, rfl⟩ := List.head?_eq_some_iff.1 ho
        exact hquoted ⟨o, rest, rfl, hq⟩
      have hall : ∀ o ∈ os, ¬isQuote o := by
        cases os with
        | nil => simp
        | cons o os => exact List.forall_mem_cons.2 ⟨hhead o rfl, hos⟩
      rw [Nesting.step_outside hhead] at h
      rcases Nesting.bracket_cases os c with hn | ⟨o, rest, rfl, hpair, hn⟩ | ⟨hplain, hn⟩ | hn
      · rw [hn] at h
        obtain ⟨s, d, r, rfl, hfills, hr⟩ := ih (c :: os) hall h
        have hclosed := hr.append hhead (u := c :: s ++ [d]) fun u hu => by
          simpa using hfills.wellNested hu
        simpa using hclosed
      · rw [hn] at h
        have ht := ih rest (fun p hp => hos p (List.mem_of_mem_tail hp)) h
        exact ⟨[], c, t, rfl, .bracket hpair .nil, ht⟩
      · rw [hn] at h
        exact (ih os hos h).append hhead (u := [c]) fun u hu => .plain hplain.1 hplain.2 hu
      · exact absurd h (Nesting.not_isClosed_run_of_unsound hn t)

theorem isBalanced_iff_wellNested (t : Text) : isBalanced t ↔ WellNested t := by
  constructor
  · exact closes_of_isClosed_run [] (by simp)
  · intro h
    rw [isBalanced, h.run_eq (by simp [Nesting.start])]
    rfl

/-! ### Brackets around a text -/

section

variable {sep : Char}

/-- Where something is open a character does not cut. -/
theorem topPartsFrom_cons_of_opened {n : Nesting} (hn : n.opened ≠ []) {c : Char} {t : Text}
    (ht : topPartsFrom sep (n.step c) t = [t]) : topPartsFrom sep n (c :: t) = [c :: t] := by
  have hcut : ¬n.cuts sep c := by simp [Nesting.cuts, hn]
  rw [topPartsFrom, if_neg hcut, ht]
  rfl

theorem topPartsFrom_append_eq {n : Nesting} {s t : Text} (hs : topPartsFrom sep n s = [s])
    (ht : topPartsFrom sep (n.run s) t = [t]) : topPartsFrom sep n (s ++ t) = [s ++ t] := by
  rw [topPartsFrom_append hs, ht]
  rfl

theorem topPartsFrom_inside {q : Char} (hq : isQuote q) (rest : List Char) (sound : Bool)
    {s : Text} (hs : q ∉ s) : topPartsFrom sep ⟨q :: rest, sound⟩ s = [s] := by
  induction s with
  | nil => rfl
  | cons c s ih =>
    simp only [List.mem_cons, not_or] at hs
    refine topPartsFrom_cons_of_opened (by simp) ?_
    rw [Nesting.step_inside hq, if_neg (Ne.symm hs.1)]
    exact ih hs.2

/-- Inside brackets a well-nested text is not cut. -/
theorem WellNested.topPartsFrom_eq {t : Text} (h : WellNested t) {n : Nesting}
    (hopened : n.opened ≠ []) (hn : ∀ o ∈ n.opened.head?, ¬isQuote o) :
    topPartsFrom sep n t = [t] := by
  induction h generalizing n with
  | nil => rfl
  | plain hbracket hquote _ ih =>
    refine topPartsFrom_cons_of_opened hopened ?_
    rw [Nesting.step_plain hn hbracket hquote]
    exact ih hopened hn
  | @bracketed o c s t hpair hs _ ihs iht =>
    have hquote := not_isQuote_head?_of_mem_brackets hpair n.opened
    refine topPartsFrom_cons_of_opened hopened ?_
    rw [Nesting.step_opening hn (isOpening_of_mem_brackets hpair)]
    refine topPartsFrom_append_eq (ihs (by simp) hquote) ?_
    rw [hs.run_eq hquote]
    refine topPartsFrom_cons_of_opened (by simp) ?_
    rw [Nesting.step_closing hpair]
    exact iht hopened hn
  | @quoted q s t hq hs _ ih =>
    have hquote := isQuote_iff.2 hq
    refine topPartsFrom_cons_of_opened hopened ?_
    rw [Nesting.step_opening hn (isOpening_iff.2 (.inl hq))]
    refine topPartsFrom_append_eq (topPartsFrom_inside hquote _ _ hs) ?_
    rw [Nesting.run_inside hquote _ _ hs]
    refine topPartsFrom_cons_of_opened (by simp) ?_
    rw [Nesting.step_inside hquote, if_pos rfl]
    exact ih hopened hn

/-- A balanced text in brackets is one part, whatever separators it holds. -/
theorem IsPart.bracketed {o c : Char} (hpair : (o, c) ∈ brackets) {t : Text} (ht : isBalanced t) :
    IsPart sep (o :: (t ++ [c])) := by
  have hnested := (isBalanced_iff_wellNested t).1 ht
  have hopening : isOpening o := isOpening_of_mem_brackets hpair
  have hopen : Nesting.start.step o = ⟨[o], true⟩ :=
    Nesting.step_opening (by simp [Nesting.start]) hopening
  have hquote := not_isQuote_head?_of_mem_brackets hpair []
  have hcut : ¬Nesting.start.cuts sep o := by simp [Nesting.cuts, hopening]
  have hinside : topPartsFrom sep ⟨[o], true⟩ (t ++ [c]) = [t ++ [c]] := by
    refine topPartsFrom_append_eq (hnested.topPartsFrom_eq (by simp) hquote) ?_
    rw [hnested.run_eq hquote]
    exact topPartsFrom_cons_of_opened (by simp) rfl
  refine ⟨?_, (isBalanced_iff_wellNested _).2 (.bracketed hpair hnested .nil)⟩
  rw [topParts, topPartsFrom, if_neg hcut, hopen, hinside]
  rfl

end

/-- A split finds exactly the well-nested texts balanced, whatever the separator. -/
theorem split_balanced_iff (t : Text) :
    (∀ sep, (split sep t).balanced ↔ WellNested t) ∧
      ∀ sep sep', (split sep t).balanced = (split sep' t).balanced := by
  simp only [split_eq]
  exact ⟨fun _ => isBalanced_iff_wellNested t, fun _ _ => trivial⟩

end DocSnippet.Text

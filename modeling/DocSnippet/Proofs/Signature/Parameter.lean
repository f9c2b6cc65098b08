import DocSnippet.Definition.Classify
import DocSnippet.Proofs.Text.Parts
import DocSnippet.Proofs.Text.Trim
import DocSnippet.Proofs.Text.Word

/-! Parameters as a signature writes them. Each form of a parameter is read back as what it
declares: an ignored parameter declares nothing, a name with or without an annotation is an
argument, and a name with a default is a keyword argument. The annotation is the type where there is
one, and otherwise the default or the name suggests it. -/

namespace DocSnippet.Signature

open Text Definition

/-! ### The parts of a parameter -/

structure IsName (t : Text) : Prop where
  ne_nil : t ≠ []
  word : ∀ c ∈ t, isWord c

structure IsVariable (t : Text) : Prop extends IsName t where
  not_receiver : t ∉ receivers

structure IsAnnotation (t : Text) : Prop where
  head : ∃ c r, t = c :: r ∧ isWord c
  hint : ∀ c ∈ t, isHintChar c
  trimmed : trim t = t
  part : IsPart ',' t

structure IsDefault (t : Text) : Prop where
  ne_nil : t ≠ []
  line : '\n' ∉ t
  trimmed : trim t = t
  part : IsPart ',' t

instance (t : Text) : Decidable (IsName t) :=
  decidable_of_iff (t ≠ [] ∧ t.all isWord)
    ⟨fun h => ⟨h.1, List.all_eq_true.1 h.2⟩, fun h => ⟨h.ne_nil, List.all_eq_true.2 h.word⟩⟩

instance (t : Text) : Decidable (IsVariable t) :=
  decidable_of_iff (IsName t ∧ t ∉ receivers)
    ⟨fun h => ⟨h.1, h.2⟩, fun h => ⟨h.toIsName, h.not_receiver⟩⟩

instance (t : Text) : Decidable (IsDefault t) :=
  decidable_of_iff (t ≠ [] ∧ '\n' ∉ t ∧ trim t = t ∧ IsPart ',' t)
    ⟨fun h => ⟨h.1, h.2.1, h.2.2.1, h.2.2.2⟩, fun h => ⟨h.ne_nil, h.line, h.trimmed, h.part⟩⟩

inductive IsIgnored : Text → Prop
  | self : IsIgnored "self".toList
  | cls : IsIgnored "cls".toList
  | slash : IsIgnored ['/']
  | star : IsIgnored ['*']
  | rest {v : Text} (hv : IsName v) : IsIgnored ('*' :: v)
  | keywords {v : Text} (hv : IsName v) : IsIgnored ('*' :: '*' :: v)

inductive Parameter
  | ignored (t : Text) (ht : IsIgnored t)
  | bare (v : Text) (hv : IsVariable v)
  | annotated (v T : Text) (hv : IsVariable v) (hT : IsAnnotation T)
  | defaulted (v d : Text) (hv : IsVariable v) (hd : IsDefault d)
  | full (v T d : Text) (hv : IsVariable v) (hT : IsAnnotation T) (hd : IsDefault d)

namespace Parameter

def text : Parameter → Text
  | .ignored t _ => t
  | .bare v _ => v
  | .annotated v T _ _ => v ++ [':', ' '] ++ T
  | .defaulted v d _ _ => v ++ ['='] ++ d
  | .full v T d _ _ _ => v ++ [':', ' '] ++ T ++ [' ', '=', ' '] ++ d

def argument? : Parameter → Option Argument
  | .bare v _ => some ⟨v, nameType? v⟩
  | .annotated v T _ _ => some ⟨v, some T⟩
  | _ => none

def keywordArgument? : Parameter → Option KeywordArgument
  | .defaulted v d _ _ => some ⟨v, literalType? d, d⟩
  | .full v T d _ _ _ => some ⟨v, some T, d⟩
  | _ => none

end Parameter

/-! ### Names, annotations and defaults -/

namespace IsName

variable {v : Text}

theorem notMem (hv : IsName v) {c : Char} (hc : isWord c = false) : c ∉ v :=
  fun h => ne_of_isWord (hv.word c h) hc rfl

theorem isPart (hv : IsName v) : IsPart ',' v := by
  refine .of_plain fun c hc => ?_
  have hne : ∀ d, isWord d = false → c ≠ d := fun d => ne_of_isWord (hv.word c hc)
  refine ⟨hne ',' (by decide), ?_, ?_⟩
  · simp [isOpening, isQuote, closer?, hne '"' (by decide), hne '\'' (by decide),
      hne '[' (by decide), hne '(' (by decide), hne '{' (by decide)]
  · simp [isClosing, hne ']' (by decide), hne ')' (by decide), hne '}' (by decide)]

theorem exists_cons (hv : IsName v) : ∃ c r, v = c :: r ∧ isWord c := by
  obtain ⟨c, r, rfl⟩ := List.exists_cons_of_ne_nil hv.ne_nil
  exact ⟨c, r, rfl, hv.word c (by simp)⟩

theorem trimmed (hv : IsName v) : trim v = v := by
  rw [trim_eq_self_iff]
  exact ⟨fun c hc => not_isSpace_of_isWord (hv.word c (List.mem_of_mem_head? hc)),
    fun c hc => not_isSpace_of_isWord (hv.word c (List.mem_of_mem_getLast? hc))⟩

theorem word?_append (hv : IsName v) {r : Text} (hr : atWordEnd r) :
    word? (v ++ r) = some (v, r) :=
  Text.word?_append hv.ne_nil hv.word hr

theorem word?_eq (hv : IsName v) : word? v = some (v, []) := by
  simpa using hv.word?_append (r := []) rfl

theorem afterColon?_append (hv : IsName v) (u : Text) : afterColon? (v ++ ':' :: u) = some u := by
  rw [afterColon?, hv.word?_append rfl]
  rfl

theorem afterColon?_eq_none (hv : IsName v) {r : Text} (hr : atWordEnd r)
    (hc : ∀ c ∈ (trimStart r).head?, c ≠ ':') : afterColon? (v ++ r) = none := by
  rw [afterColon?, hv.word?_append hr]
  cases h : trimStart r with
  | nil => simp [h]
  | cons c u => simp [h, hc c (by simp [h])]

end IsName

/-- What can follow an annotation: nothing, or a blank and a default. -/
def IsTail (s : Text) : Prop := s = [] ∨ ∃ r, s = ' ' :: '=' :: r

theorem IsTail.takeWhile_hint {s : Text} (hs : IsTail s) :
    ∀ c ∈ s.takeWhile isHintChar, isSpace c := by
  rcases hs with rfl | ⟨r, rfl⟩
  · simp
  · have hc : (' ' :: '=' :: r).takeWhile isHintChar = [' '] := rfl
    rw [hc, List.forall_mem_singleton]
    rfl

theorem IsTail.takeWhile_equals {s : Text} (hs : IsTail s) :
    ∀ c ∈ s.takeWhile (· != '='), isSpace c := by
  rcases hs with rfl | ⟨r, rfl⟩
  · simp
  · have hc : (' ' :: '=' :: r).takeWhile (· != '=') = [' '] := rfl
    rw [hc, List.forall_mem_singleton]
    rfl

theorem IsTail.leadingQuote_dropWhile {s : Text} (hs : IsTail s) :
    leadingQuote (s.dropWhile isHintChar) = [] := by
  rcases hs with rfl | ⟨r, rfl⟩ <;> rfl

theorem afterEquals?_eq_none_of_notMem {t : Text} (h : '=' ∉ t) : afterEquals? t = none := by
  have hstart : '=' ∉ trimStart t := fun hmem => h ((List.dropWhile_suffix _).subset hmem)
  unfold afterEquals?
  cases ht : trimStart t with
  | nil => rfl
  | cons c r =>
    rw [ht, List.mem_cons, not_or] at hstart
    have hdrop : r.dropWhile (· != '=') = [] :=
      List.dropWhile_eq_nil_iff.2 (bne_of_notMem hstart.2)
    simp [Ne.symm hstart.1, hdrop]

namespace IsAnnotation

variable {T : Text}

theorem ne_nil (hT : IsAnnotation T) : T ≠ [] := by
  obtain ⟨c, r, rfl, -⟩ := hT.head
  simp

theorem ne_of_mem (hT : IsAnnotation T) {c d : Char} (hc : c ∈ T) (hd : isHintChar d = false) :
    c ≠ d := by
  rintro rfl
  simp [hT.hint c hc] at hd

theorem notMem_equals (hT : IsAnnotation T) : '=' ∉ T :=
  fun h => hT.ne_of_mem h (d := '=') (by decide) rfl

theorem bne_equals (hT : IsAnnotation T) : ∀ c ∈ T, (c != '=') = true :=
  bne_of_notMem hT.notMem_equals

theorem filter_quotes (hT : IsAnnotation T) : T.filter (fun c => !isQuote c) = T := by
  rw [List.filter_eq_self]
  intro c hc
  simp [isQuote, hT.ne_of_mem hc (d := '"') (by decide), hT.ne_of_mem hc (d := '\'') (by decide)]

theorem trimStart_append (hT : IsAnnotation T) (s : Text) : trimStart (T ++ s) = T ++ s := by
  obtain ⟨c, r, rfl, hc⟩ := hT.head
  simp [trimStart, not_isSpace_of_isWord hc]

theorem hintHead?_append (hT : IsAnnotation T) {s : Text} (hs : IsTail s) :
    hintHead? (T ++ s) = some (T ++ s.takeWhile isHintChar) := by
  obtain ⟨c, r, rfl, hc⟩ := hT.head
  have hquote : leadingQuote (c :: (r ++ s)) = [] := by
    simp [leadingQuote, isQuote, hT.ne_of_mem (c := c) (d := '"') (by simp) (by decide),
      hT.ne_of_mem (c := c) (d := '\'') (by simp) (by decide)]
  have hr : ∀ d ∈ r, isHintChar d := fun d hd => hT.hint d (by simp [hd])
  simp only [hintHead?, List.cons_append, hquote, List.length_nil, List.drop_zero, hc, if_true,
    List.takeWhile_append_of_pos hr, List.dropWhile_append_of_pos hr, hs.leadingQuote_dropWhile,
    List.nil_append, List.append_nil]

theorem afterEquals?_eq_none (hT : IsAnnotation T) : afterEquals? (':' :: ' ' :: T) = none :=
  afterEquals?_eq_none_of_notMem (by simp [hT.notMem_equals])

theorem afterEquals?_append (hT : IsAnnotation T) (d : Text) :
    afterEquals? (':' :: ' ' :: (T ++ ' ' :: '=' :: ' ' :: d)) = some (' ' :: d) := by
  have htake : (' ' :: (T ++ ' ' :: '=' :: ' ' :: d)).takeWhile (· != '=') =
      ' ' :: (T ++ [' ']) := by
    rw [List.takeWhile_cons_of_pos (by decide), List.takeWhile_append_of_pos hT.bne_equals]
    rfl
  have hdrop : (' ' :: (T ++ ' ' :: '=' :: ' ' :: d)).dropWhile (· != '=') = '=' :: ' ' :: d := by
    rw [List.dropWhile_cons_of_pos (by decide), List.dropWhile_append_of_pos hT.bne_equals]
    rfl
  have hstart : trimStart (':' :: ' ' :: (T ++ ' ' :: '=' :: ' ' :: d)) =
      ':' :: ' ' :: (T ++ ' ' :: '=' :: ' ' :: d) := rfl
  simp only [afterEquals?, hstart, htake, hdrop]
  rfl

end IsAnnotation

/-- The type of an annotated parameter is its annotation, whatever default follows it. -/
theorem guessType?_annotated {v T s : Text} (hv : IsName v) (hT : IsAnnotation T) (hs : IsTail s)
    (htrim : trim (v ++ ':' :: ' ' :: (T ++ s)) = v ++ ':' :: ' ' :: (T ++ s)) :
    guessType? (v ++ ':' :: ' ' :: (T ++ s)) = some T := by
  have hcolon : afterColon? (v ++ ':' :: ' ' :: (T ++ s)) = some (' ' :: (T ++ s)) :=
    hv.afterColon?_append _
  have hblank : trimStart (' ' :: (T ++ s)) = T ++ s := hT.trimStart_append s
  have hhint : hint? (v ++ ':' :: ' ' :: (T ++ s)) = some (T ++ s.takeWhile isHintChar) := by
    obtain ⟨c, r, rfl, -⟩ := hv.exists_cons
    rw [List.cons_append] at hcolon ⊢
    rw [hint?, hcolon, Option.bind_some, hblank, hT.hintHead?_append hs]
  have hannotation : trim ((' ' :: (T ++ s)).takeWhile (· != '=')) = T := by
    rw [List.takeWhile_cons_of_pos (by decide), List.takeWhile_append_of_pos hT.bne_equals,
      trim_cons_of_space (by decide), trim_append_of_space _ hs.takeWhile_equals, hT.trimmed]
  have hplain : trim (T ++ s.takeWhile isHintChar) = T := by
    rw [trim_append_of_space _ hs.takeWhile_hint, hT.trimmed]
  simp only [guessType?, htrim, hcolon, annotatedType?, hhint, hannotation, hplain, lt_irrefl,
    if_false, hT.filter_quotes, hT.trimmed]
  obtain ⟨c, r, rfl, -⟩ := hT.head
  rfl

theorem guessType?_bare {v : Text} (hv : IsName v) : guessType? v = nameType? v := by
  have hcolon : afterColon? v = none := by
    simpa using hv.afterColon?_eq_none (r := []) rfl (by simp [trimStart])
  have hequals : v.contains '=' = false := by
    simpa using hv.notMem (c := '=') (by decide)
  simp only [guessType?, hv.trimmed, hcolon, hequals, Bool.false_eq_true, if_false]

/-! ### Defaults -/

namespace IsDefault

variable {d : Text}

theorem defaultText?_eq (hd : IsDefault d) : defaultText? d = some d := by
  have hstart : trimStart d = d := trimStart_eq_self_iff.2 (trim_eq_self_iff.1 hd.trimmed).1
  have hline : d.takeWhile (· != '\n') = d := by
    rw [List.takeWhile_eq_self_iff]
    intro c hc
    simpa using fun h : c = '\n' => hd.line (h ▸ hc)
  obtain ⟨c, r, rfl⟩ := List.exists_cons_of_ne_nil hd.ne_nil
  rw [defaultText?, hstart, hline]

theorem defaultText?_blank (hd : IsDefault d) : defaultText? (' ' :: d) = some d :=
  hd.defaultText?_eq

end IsDefault

theorem guessType?_defaulted {v d : Text} (hv : IsName v) (hd : IsDefault d)
    (htrim : trim (v ++ '=' :: d) = v ++ '=' :: d) :
    guessType? (v ++ '=' :: d) = literalType? d := by
  have hcolon : afterColon? (v ++ '=' :: d) = none :=
    hv.afterColon?_eq_none rfl (by simp [trimStart, show isSpace '=' = false from rfl])
  have hfirst : firstDefault? (v ++ '=' :: d) = some d := by
    have hword := hv.word?_append (r := '=' :: d) rfl
    obtain ⟨c, r, rfl, -⟩ := hv.exists_cons
    rw [List.cons_append] at hword ⊢
    have hequals : afterEquals? ('=' :: d) = some d := rfl
    simp only [firstDefault?, hword, Option.bind_some, hequals, hd.defaultText?_eq]
  have hcontains : (v ++ '=' :: d).contains '=' = true := by simp
  simp only [guessType?, htrim, hcolon, hcontains, if_true, hfirst, Option.bind_some, hd.trimmed]

/-! ### Whole parameters -/

namespace Parameter

theorem isPart_text (p : Parameter) : IsPart ',' p.text := by
  cases p with
  | ignored t ht =>
    have hstar : IsPart ',' ['*'] := by decide
    cases ht with
    | self => decide
    | cls => decide
    | slash => decide
    | star => decide
    | rest hv => exact hstar.append hv.isPart
    | keywords hv => exact hstar.append (hstar.append hv.isPart)
  | bare v hv => exact hv.isPart
  | annotated v T hv hT => exact (hv.isPart.append (by decide)).append hT.part
  | defaulted v d hv hd => exact (hv.isPart.append (by decide)).append hd.part
  | full v T d hv hT hd =>
    exact (((hv.isPart.append (by decide)).append hT.part).append (by decide)).append hd.part

theorem trim_text (p : Parameter) : trim p.text = p.text := by
  cases p with
  | ignored t ht =>
    cases ht with
    | self => decide
    | cls => decide
    | slash => decide
    | star => decide
    | rest hv => exact trim_append_append (s := ['*']) (by decide) hv.trimmed (by simp) hv.ne_nil []
    | keywords hv =>
      exact trim_append_append (s := ['*', '*']) (by decide) hv.trimmed (by simp) hv.ne_nil []
  | bare v hv => exact hv.trimmed
  | annotated v T hv hT => exact trim_append_append hv.trimmed hT.trimmed hv.ne_nil hT.ne_nil _
  | defaulted v d hv hd => exact trim_append_append hv.trimmed hd.trimmed hv.ne_nil hd.ne_nil _
  | full v T d hv hT hd =>
    have h := trim_append_append hv.trimmed hd.trimmed hv.ne_nil hd.ne_nil
      ([':', ' '] ++ T ++ [' ', '=', ' '])
    simpa [text] using h

theorem text_eq_cons (p : Parameter) :
    ∃ c r, p.text = c :: r ∧ (isWord c ∨ c = '*' ∨ c = '/') := by
  have hname : ∀ {v : Text}, IsName v → ∀ s,
      ∃ c r, v ++ s = c :: r ∧ (isWord c ∨ c = '*' ∨ c = '/') := by
    intro v hv s
    obtain ⟨c, r, rfl, hc⟩ := hv.exists_cons
    exact ⟨c, r ++ s, rfl, .inl hc⟩
  cases p with
  | ignored t ht =>
    cases ht with
    | self => exact ⟨_, _, rfl, .inl (by decide)⟩
    | cls => exact ⟨_, _, rfl, .inl (by decide)⟩
    | slash => exact ⟨_, _, rfl, .inr (.inr rfl)⟩
    | star => exact ⟨_, _, rfl, .inr (.inl rfl)⟩
    | rest hv => exact ⟨_, _, rfl, .inr (.inl rfl)⟩
    | keywords hv => exact ⟨_, _, rfl, .inr (.inl rfl)⟩
  | bare v hv => simpa [text] using hname hv.toIsName []
  | annotated v T hv hT => simpa [text] using hname hv.toIsName (':' :: ' ' :: T)
  | defaulted v d hv hd => simpa [text] using hname hv.toIsName ('=' :: d)
  | full v T d hv hT hd =>
    simpa [text] using hname hv.toIsName (':' :: ' ' :: (T ++ ' ' :: '=' :: ' ' :: d))

theorem decorator?_text (p : Parameter) : decorator? p.text = none := by
  obtain ⟨c, r, hp, hc⟩ := p.text_eq_cons
  have hne : '@' ≠ c := by
    rintro rfl
    revert hc
    decide
  rw [decorator?, p.trim_text, hp]
  simp [after?, hne]

theorem resultType?_text (p : Parameter) : resultType? p.text = none := by
  obtain ⟨c, r, hp, hc⟩ := p.text_eq_cons
  have hne : '-' ≠ c := by
    rintro rfl
    revert hc
    decide
  rw [resultType?, arrowType?, p.trim_text, hp]
  simp [after?, hne]

theorem word?_ignored {t : Text} (ht : IsIgnored t) :
    word? t = none ∨ t ∈ receivers ∧ word? t = some (t, []) := by
  cases ht with
  | self => exact .inr ⟨by decide, by decide⟩
  | cls => exact .inr ⟨by decide, by decide⟩
  | slash => exact .inl rfl
  | star => exact .inl rfl
  | rest hv => exact .inl rfl
  | keywords hv => exact .inl rfl

theorem argument?_text (p : Parameter) : Definition.argument? p.text = p.argument? := by
  have htrim := p.trim_text
  cases p with
  | ignored t ht =>
    simp only [text] at htrim ⊢
    rcases word?_ignored ht with hw | ⟨hr, hw⟩
    · simp [Definition.argument?, htrim, hw, argument?]
    · simp [Definition.argument?, htrim, hw, hr, argument?]
  | bare v hv =>
    have hequals : '=' ∉ v := hv.notMem (by decide)
    simp [Definition.argument?, text, hv.trimmed, hv.word?_eq, hequals, hv.not_receiver, argument?,
      guessType?_bare hv.toIsName]
  | annotated v T hv hT =>
    have ht : text (.annotated v T hv hT) = v ++ ':' :: ' ' :: (T ++ []) := by simp [text]
    have hv' : '=' ∉ v := hv.notMem (by decide)
    rw [ht] at htrim ⊢
    simp only [Definition.argument?, htrim, hv.word?_append (r := ':' :: _) rfl, argument?,
      guessType?_annotated hv.toIsName hT (.inl rfl) htrim]
    simp [hv', hT.notMem_equals, hv.not_receiver]
  | defaulted v d hv hd =>
    have hequals : '=' ∈ text (.defaulted v d hv hd) := by simp [text]
    simp only [Definition.argument?, htrim, argument?]
    split <;> simp [hequals]
  | full v T d hv hT hd =>
    have hequals : '=' ∈ text (.full v T d hv hT hd) := by simp [text]
    simp only [Definition.argument?, htrim, argument?]
    split <;> simp [hequals]

theorem keywordArgument?_text (p : Parameter) :
    Definition.keywordArgument? p.text = p.keywordArgument? := by
  have htrim := p.trim_text
  cases p with
  | ignored t ht =>
    simp only [text] at htrim ⊢
    rcases word?_ignored ht with hw | ⟨-, hw⟩
    · simp [Definition.keywordArgument?, htrim, hw, keywordArgument?]
    · simp [Definition.keywordArgument?, htrim, hw, keywordArgument?, afterEquals?, trimStart]
  | bare v hv =>
    simp [Definition.keywordArgument?, text, hv.trimmed, hv.word?_eq, keywordArgument?,
      afterEquals?, trimStart]
  | annotated v T hv hT =>
    have ht : text (.annotated v T hv hT) = v ++ ':' :: ' ' :: T := by simp [text]
    rw [ht] at htrim ⊢
    simp only [Definition.keywordArgument?, htrim, hv.word?_append (r := ':' :: _) rfl,
      hT.afterEquals?_eq_none, Option.bind_none, Option.map_none, keywordArgument?]
  | defaulted v d hv hd =>
    have ht : text (.defaulted v d hv hd) = v ++ '=' :: d := by simp [text]
    have hequals : afterEquals? ('=' :: d) = some d := rfl
    rw [ht] at htrim ⊢
    simp only [Definition.keywordArgument?, htrim, hv.word?_append (r := '=' :: d) rfl, hequals,
      Option.bind_some, hd.defaultText?_eq, guessType?_defaulted hv.toIsName hd htrim,
      Option.map_some, keywordArgument?]
  | full v T d hv hT hd =>
    have ht : text (.full v T d hv hT hd) = v ++ ':' :: ' ' :: (T ++ ' ' :: '=' :: ' ' :: d) := by
      simp [text]
    rw [ht] at htrim ⊢
    simp only [Definition.keywordArgument?, htrim, hv.word?_append (r := ':' :: _) rfl,
      hT.afterEquals?_append, Option.bind_some, hd.defaultText?_blank,
      guessType?_annotated hv.toIsName hT (.inr ⟨_, rfl⟩) htrim, Option.map_some, keywordArgument?]

end Parameter

end DocSnippet.Signature

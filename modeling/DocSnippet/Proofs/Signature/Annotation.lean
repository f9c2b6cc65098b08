import DocSnippet.Proofs.Signature.Parameter

/-! Annotations against defaults. A type is looked for from left to right: behind the colon of the
parameter, then behind each name and colon in its annotation, and at last behind those in its
default. So an annotation with a plain part decides alone, whatever default follows it. One without,
such as `[int]`, decides nothing: there is no type, unless the default has a plain part of its own.
-/

namespace DocSnippet.Signature

open Text

/-! ### Annotated names -/

/-- The text `t` is the name `v`, white space, a colon and the rest `u`. -/
def IsAnnotated (t v u : Text) : Prop :=
  IsName v ∧ ∃ gap, (∀ c ∈ gap, isSpace c) ∧ t = v ++ gap ++ ':' :: u

theorem isName_of_word? {t v r : Text} (h : word? t = some (v, r)) : IsName v := by
  obtain ⟨hne, hword, -, -⟩ := of_word?_eq_some h
  exact ⟨hne, hword⟩

theorem IsAnnotated.word?_eq {t v u : Text} (h : IsAnnotated t v u) :
    ∃ gap, (∀ c ∈ gap, isSpace c) ∧ word? t = some (v, gap ++ ':' :: u) := by
  obtain ⟨hv, gap, hgap, rfl⟩ := h
  refine ⟨gap, hgap, ?_⟩
  rw [List.append_assoc]
  apply hv.word?_append
  exact atWordEnd_append (atWordEnd_of_isSpace hgap) rfl

theorem afterColon?_eq_some_iff {t u : Text} :
    afterColon? t = some u ↔ ∃ v, IsAnnotated t v u := by
  constructor
  · intro h
    unfold afterColon? at h
    split at h
    next v r hword =>
      split at h
      next c u' hr =>
        split at h
        next hc =>
          obtain rfl := Option.some.inj h
          obtain ⟨gap, hgap, hsplit⟩ := exists_eq_append_trimStart r
          refine ⟨v, isName_of_word? hword, gap, isBlank_iff.1 hgap, ?_⟩
          rw [(of_word?_eq_some hword).2.2.2, hsplit, hr, hc, List.append_assoc]
        next => contradiction
      next => contradiction
    next => contradiction
  · rintro ⟨v, h⟩
    obtain ⟨gap, hgap, hword⟩ := h.word?_eq
    have hstart : trimStart (gap ++ ':' :: u) = ':' :: u :=
      trimStart_space_append hgap (by simp; decide)
    simp [afterColon?, hword, hstart]

theorem IsAnnotated.eq_of_word? {t v u w r : Text} (h : IsAnnotated t v u)
    (hword : word? t = some (w, r)) : w = v := by
  obtain ⟨gap, -, hv⟩ := h.word?_eq
  rw [hword] at hv
  simpa using congrArg (Option.map Prod.fst) hv

theorem IsAnnotated.unique {t v v' u u' : Text} (h : IsAnnotated t v u)
    (h' : IsAnnotated t v' u') : v = v' ∧ u = u' := by
  obtain ⟨gap, -, hword⟩ := h.word?_eq
  have hu := afterColon?_eq_some_iff.2 ⟨v, h⟩
  rw [afterColon?_eq_some_iff.2 ⟨v', h'⟩] at hu
  exact ⟨h'.eq_of_word? hword, (Option.some.inj hu).symm⟩

theorem afterColon?_eq_none_iff {t : Text} :
    afterColon? t = none ↔ ∀ v u, ¬IsAnnotated t v u := by
  rw [← Option.not_isSome_iff_eq_none, Option.isSome_iff_exists]
  simp only [afterColon?_eq_some_iff]
  exact ⟨fun h v u hvu => h ⟨u, v, hvu⟩, fun h ⟨u, v, hvu⟩ => h v u hvu⟩

/-! ### Plain parts -/

inductive StartsPlain : Text → Prop
  | word {c : Char} {r : Text} (hc : isWord c) : StartsPlain (c :: r)
  | quoted {q c : Char} {r : Text} (hq : isQuote q) (hc : isWord c) : StartsPlain (q :: c :: r)

/-- An annotation that starts plain, or in which a name has such an annotation of its own. -/
def HasPlainPart (A : Text) : Prop :=
  StartsPlain A ∨ ∃ t, t <:+ A ∧ ∃ v u, IsAnnotated t v u ∧ StartsPlain (trimStart u)

theorem hintHead?_isSome_iff {t : Text} : (hintHead? t).isSome ↔ StartsPlain t := by
  constructor
  · intro h
    unfold hintHead? at h
    cases t with
    | nil => simp [leadingQuote] at h
    | cons q t =>
      by_cases hq : isQuote q
      · have hlead : leadingQuote (q :: t) = [q] := by simp [leadingQuote, hq]
        rw [hlead] at h
        cases t with
        | nil => simp at h
        | cons c r =>
          by_cases hc : isWord c
          · exact .quoted hq hc
          · simp [hc] at h
      · have hlead : leadingQuote (q :: t) = [] := by simp [leadingQuote, hq]
        rw [hlead] at h
        by_cases hc : isWord q
        · exact .word hc
        · simp [hc] at h
  · intro h
    cases h with
    | word hc => simp [hintHead?, leadingQuote, not_isQuote_of_isWord hc, hc]
    | quoted hq hc => simp [hintHead?, leadingQuote, hq, hc]

/-- The search for a plain part tries the head of a text, and then goes on behind it. -/
theorem hint?_cons (c : Char) (t : Text) :
    hint? (c :: t) =
      ((afterColon? (c :: t)).bind fun u => hintHead? (trimStart u)).or (hint? t) := by
  rw [hint?]
  split
  next h hhere => rw [hhere, Option.some_or]
  next hhere => rw [hhere, Option.none_or]

theorem hint?_cons_of_not_isWord {c : Char} (hc : ¬isWord c) (t : Text) :
    hint? (c :: t) = hint? t := by
  have hcolon : afterColon? (c :: t) = none := by simp [afterColon?, word?, hc]
  rw [hint?_cons, hcolon, Option.bind_none, Option.none_or]

theorem hint?_append_of_not_isWord {s : Text} (hs : ∀ c ∈ s, ¬isWord c) (t : Text) :
    hint? (s ++ t) = hint? t := by
  induction s with
  | nil => rfl
  | cons c s ih =>
    rw [List.cons_append, hint?_cons_of_not_isWord (hs c (by simp)),
      ih fun d hd => hs d (List.mem_cons_of_mem c hd)]

theorem hint?_isSome_iff {t : Text} :
    (hint? t).isSome ↔ ∃ s, s <:+ t ∧ ∃ v u, IsAnnotated s v u ∧ StartsPlain (trimStart u) := by
  induction t with
  | nil =>
    simp only [hint?, Option.isSome_none, Bool.false_eq_true, List.suffix_nil, exists_eq_left,
      false_iff, not_exists, not_and]
    rintro v u ⟨hv, gap, -, h⟩
    simp [hv.ne_nil] at h
  | cons c t ih =>
    have hhere : ((afterColon? (c :: t)).bind fun u => hintHead? (trimStart u)).isSome ↔
        ∃ v u, IsAnnotated (c :: t) v u ∧ StartsPlain (trimStart u) := by
      simp only [Option.isSome_bind, Option.any_eq_true, hintHead?_isSome_iff,
        afterColon?_eq_some_iff]
      constructor
      · rintro ⟨u, ⟨v, hvu⟩, hu⟩
        exact ⟨v, u, hvu, hu⟩
      · rintro ⟨v, u, hvu, hu⟩
        exact ⟨u, ⟨v, hvu⟩, hu⟩
    rw [hint?_cons, Option.isSome_or, Bool.or_eq_true, hhere, ih]
    simp only [List.suffix_cons_iff, or_and_right, exists_or, exists_eq_left]

/-- The plain part that is found first in an annotation. -/
def plainPart? (A : Text) : Option Text := (hintHead? A).or (hint? A)

theorem plainPart?_isSome_iff {A : Text} : (plainPart? A).isSome ↔ HasPlainPart A := by
  rw [plainPart?, Option.isSome_or, Bool.or_eq_true, hintHead?_isSome_iff, hint?_isSome_iff,
    HasPlainPart]

/-- Nothing is found in a name, but for the annotation behind it. -/
theorem hint?_name_append {v : Text} (hv : IsName v) (u : Text) :
    hint? (v ++ ':' :: u) = (hintHead? (trimStart u)).or (hint? u) := by
  induction v with
  | nil => exact absurd rfl hv.ne_nil
  | cons c v ih =>
    have hcolon := hv.afterColon?_append u
    rw [List.cons_append] at hcolon ⊢
    rw [hint?_cons, hcolon, Option.bind_some]
    cases v with
    | nil => rw [List.nil_append, hint?_cons_of_not_isWord (c := ':') (by decide)]
    | cons d v =>
      rw [ih ⟨by simp, fun e he => hv.word e (by simp [he])⟩, ← Option.or_assoc, Option.or_self]

/-! ### Plain parts in front of a default -/

namespace IsTail

variable {s : Text}

theorem atWordEnd (hs : IsTail s) : atWordEnd s := by
  rcases hs with rfl | ⟨r, rfl⟩ <;> rfl

theorem hintHead?_eq_none (hs : IsTail s) : hintHead? s = none := by
  rcases hs with rfl | ⟨r, rfl⟩ <;> rfl

theorem hintHead?_trimStart (hs : IsTail s) : hintHead? (trimStart s) = none := by
  rcases hs with rfl | ⟨r, rfl⟩ <;> rfl

theorem afterColon?_append (hs : IsTail s) (t : Text) :
    afterColon? (t ++ s) = (afterColon? t).map (· ++ s) := by
  unfold afterColon?
  rw [word?_append_of_atWordEnd t hs.atWordEnd]
  cases word? t with
  | none => rfl
  | some p =>
    obtain ⟨v, r⟩ := p
    simp only [Option.map_some, Text.trimStart_append]
    cases hr : trimStart r with
    | nil => rcases hs with rfl | ⟨r', rfl⟩ <;> rfl
    | cons c u =>
      by_cases hc : c = ':' <;> simp [hc]

/-- The plain part does not go on into a default, but for the blank in front of it. -/
theorem trim_plain_append (hs : IsTail s) (before r : Text) :
    trim (before ++ (r ++ s).takeWhile isHintChar ++
        leadingQuote ((r ++ s).dropWhile isHintChar)) =
      trim (before ++ r.takeWhile isHintChar ++ leadingQuote (r.dropWhile isHintChar)) := by
  cases hr : r.dropWhile isHintChar with
  | nil =>
    have hall := List.dropWhile_eq_nil_iff.1 hr
    rw [List.takeWhile_append_of_pos hall, List.dropWhile_append_of_pos hall,
      hs.leadingQuote_dropWhile, List.takeWhile_eq_self_iff.2 hall, ← List.append_assoc,
      List.append_nil, trim_append_of_space _ hs.takeWhile_hint]
    exact congrArg trim (List.append_nil _).symm
  | cons c r' =>
    have hne : (r.takeWhile isHintChar).length ≠ r.length := by
      intro hlength
      have h := congrArg List.length (List.takeWhile_append_dropWhile (p := isHintChar) (l := r))
      rw [hr, List.length_append, List.length_cons] at h
      omega
    rw [List.takeWhile_append, if_neg hne, List.dropWhile_append, hr]
    rfl

theorem hintHead?_append (hs : IsTail s) (t : Text) :
    (hintHead? (t ++ s)).map trim = (hintHead? t).map trim := by
  cases t with
  | nil =>
    rw [List.nil_append, hs.hintHead?_eq_none]
    rfl
  | cons q t =>
    have hlead : leadingQuote (q :: t ++ s) = leadingQuote (q :: t) := rfl
    unfold hintHead?
    rw [hlead]
    by_cases hq : isQuote q
    · have hquote : leadingQuote (q :: t) = [q] := by simp [leadingQuote, hq]
      rw [hquote]
      cases t with
      | nil => rcases hs with rfl | ⟨r, rfl⟩ <;> rfl
      | cons c r =>
        by_cases hc : isWord c
        · simpa [hc] using hs.trim_plain_append [q, c] r
        · simp [hc]
    · have hquote : leadingQuote (q :: t) = [] := by simp [leadingQuote, hq]
      rw [hquote]
      by_cases hc : isWord q
      · simpa [hc] using hs.trim_plain_append [q] t
      · simp [hc]

/-- The default is searched only behind an annotation in which nothing is found. -/
theorem hint?_append (hs : IsTail s) (t : Text) :
    (hint? (t ++ s)).map trim = ((hint? t).or (hint? s)).map trim := by
  induction t with
  | nil => rfl
  | cons c t ih =>
    have hcolon := hs.afterColon?_append (c :: t)
    have hhere : ((afterColon? (c :: t ++ s)).bind fun u => hintHead? (trimStart u)).map trim =
        ((afterColon? (c :: t)).bind fun u => hintHead? (trimStart u)).map trim := by
      rw [hcolon]
      cases afterColon? (c :: t) with
      | none => rfl
      | some u =>
        simp only [Option.map_some, Option.bind_some, Text.trimStart_append]
        split
        next hu =>
          rw [hu, hs.hintHead?_trimStart]
          rfl
        next => exact hs.hintHead?_append _
    rw [List.cons_append] at hhere ⊢
    rw [hint?_cons, hint?_cons, Option.map_or, hhere, ih, ← Option.map_or, Option.or_assoc]

end IsTail

/-! ### The type of an annotated parameter -/

/-- The type of an annotation with the given plain part. -/
def hintedType? (hint annotation : Text) : Option Text :=
  if byteSize hint < byteSize annotation then some annotation
  else
    match trim (hint.filter fun c => !isQuote c) with
    | [] => none
    | plain => some plain

theorem annotatedType?_eq (t u : Text) :
    annotatedType? t u =
      ((hint? t).map trim).bind fun hint => hintedType? hint (trim (u.takeWhile (· != '='))) := by
  unfold annotatedType?
  cases hint? t <;> rfl

theorem guessType?_trim (t : Text) : guessType? (trim t) = guessType? t := by
  simp only [guessType?, trim_trim]

theorem exists_isWord_of_hintHead? {t h : Text} (hh : hintHead? t = some h) :
    ∃ c ∈ h, isWord c := by
  simp only [hintHead?] at hh
  split at hh
  next c r _ =>
    split at hh
    next hc =>
      obtain rfl := Option.some.inj hh
      exact ⟨c, by simp, hc⟩
    next => contradiction
  next => contradiction

theorem exists_isWord_of_hint? {t h : Text} (hh : hint? t = some h) : ∃ c ∈ h, isWord c := by
  induction t with
  | nil => simp [hint?] at hh
  | cons c t ih =>
    rw [hint?_cons, Option.or_eq_some_iff] at hh
    rcases hh with hhere | ⟨-, hh⟩
    · obtain ⟨u, -, hu⟩ := Option.bind_eq_some_iff.1 hhere
      exact exists_isWord_of_hintHead? hu
    · exact ih hh

theorem exists_isWord_of_plainPart? {A h : Text} (hh : plainPart? A = some h) :
    ∃ c ∈ h, isWord c := by
  rw [plainPart?, Option.or_eq_some_iff] at hh
  rcases hh with hh | ⟨-, hh⟩
  · exact exists_isWord_of_hintHead? hh
  · exact exists_isWord_of_hint? hh

theorem hintedType?_isSome {h : Text} (hword : ∃ c ∈ h, isWord c) (A : Text) :
    (hintedType? (trim h) A).isSome := by
  obtain ⟨c, hc, hcword⟩ := hword
  have htrim : c ∈ trim h := mem_trim_of_not_isSpace hc (not_isSpace_of_isWord hcword)
  have hquote := not_isQuote_of_isWord hcword
  have hplain : trim ((trim h).filter fun c => !isQuote c) ≠ [] := by
    rw [Ne, trim_eq_nil_iff]
    intro hspace
    exact not_isSpace_of_isWord hcword (hspace c (List.mem_filter.2 ⟨htrim, by simp [hquote]⟩))
  unfold hintedType?
  split
  · rfl
  · split
    next h => exact absurd h hplain
    next => rfl

section

variable {v A : Text} (hv : IsName v) (hequals : '=' ∉ A) (htrim : trim A = A)

include hv hequals htrim

/-- A plain part is looked for in the annotation, and only then in what follows it. -/
theorem guessType?_annotation_append {s : Text} (hs : IsTail s)
    (hwhole : trim (v ++ ':' :: ' ' :: (A ++ s)) = v ++ ':' :: ' ' :: (A ++ s)) :
    guessType? (v ++ ':' :: ' ' :: (A ++ s)) =
      (((plainPart? A).or (hint? s)).map trim).bind fun hint => hintedType? hint A := by
  have hstart : trimStart (' ' :: A) = A := trimStart_eq_self_iff.2 (trim_eq_self_iff.1 htrim).1
  have hhint : (hint? (v ++ ':' :: ' ' :: (A ++ s))).map trim =
      ((plainPart? A).or (hint? s)).map trim := by
    rw [show v ++ ':' :: ' ' :: (A ++ s) = v ++ ':' :: ' ' :: A ++ s by simp, hs.hint?_append,
      hint?_name_append hv, hstart, hint?_cons_of_not_isWord (by decide), plainPart?]
  have hannotation : trim ((' ' :: (A ++ s)).takeWhile (· != '=')) = A := by
    rw [List.takeWhile_cons_of_pos (by decide),
      List.takeWhile_append_of_pos (bne_of_notMem hequals), trim_cons_of_space (by decide),
      trim_append_of_space _ hs.takeWhile_equals, htrim]
  simp only [guessType?, hwhole, hv.afterColon?_append, annotatedType?_eq, hhint, hannotation]

theorem guessType?_annotation (hne : A ≠ []) :
    guessType? (v ++ [':', ' '] ++ A) =
      ((plainPart? A).map trim).bind fun hint => hintedType? hint A := by
  have hshape : v ++ [':', ' '] ++ A = v ++ ':' :: ' ' :: (A ++ []) := by simp
  have hwhole := trim_append_append hv.trimmed htrim hv.ne_nil hne [':', ' ']
  rw [hshape] at hwhole ⊢
  rw [guessType?_annotation_append hv hequals htrim (.inl rfl) hwhole]
  exact congrArg (fun x => (x.map trim).bind fun hint => hintedType? hint A) Option.or_none

theorem guessType?_annotation_default {d : Text} (hd : ¬isBlank d) :
    guessType? (v ++ [':', ' '] ++ A ++ [' ', '=', ' '] ++ d) =
      (((plainPart? A).or (hint? (trim d))).map trim).bind fun hint => hintedType? hint A := by
  obtain ⟨gap, behind, hgap, hbehind, hsplit⟩ := exists_eq_append_trim_append d
  have hne : trim d ≠ [] := by
    rw [Ne, trim_eq_nil_iff, ← isBlank_iff]
    exact hd
  let s := ' ' :: '=' :: ' ' :: (gap ++ trim d)
  have hshape : v ++ [':', ' '] ++ A ++ [' ', '=', ' '] ++ d =
      v ++ ':' :: ' ' :: (A ++ s) ++ behind := by
    conv_lhs => rw [hsplit]
    simp [s]
  have hwhole : trim (v ++ ':' :: ' ' :: (A ++ s)) = v ++ ':' :: ' ' :: (A ++ s) := by
    have h := trim_append_append hv.trimmed (trim_trim d) hv.ne_nil hne
      ([':', ' '] ++ A ++ [' ', '=', ' '] ++ gap)
    simpa [s] using h
  have hskip : hint? s = hint? (trim d) := by
    rw [hint?_cons_of_not_isWord (by decide), hint?_cons_of_not_isWord (by decide),
      hint?_cons_of_not_isWord (by decide),
      hint?_append_of_not_isWord fun c hc => not_isWord_of_isSpace (hgap c hc)]
  rw [hshape, ← guessType?_trim, trim_append_of_space _ hbehind, guessType?_trim,
    guessType?_annotation_append hv hequals htrim (.inr ⟨_, rfl⟩) hwhole, hskip]

/-- An annotation decides alone, whatever default follows it, exactly if it has a plain part. Then
the type is the one without a default; without a plain part there is none without a default. -/
theorem default_unread_iff (hne : A ≠ []) :
    let written (d : Text) := v ++ [':', ' '] ++ A ++ [' ', '=', ' '] ++ d
    ((∀ d d', ¬isBlank d → '\n' ∉ d → ¬isBlank d' → '\n' ∉ d' →
        guessType? (written d) = guessType? (written d')) ↔ HasPlainPart A) ∧
      (HasPlainPart A → ∀ d, ¬isBlank d →
        guessType? (written d) = guessType? (v ++ [':', ' '] ++ A)) ∧
      ((guessType? (v ++ [':', ' '] ++ A)).isSome ↔ HasPlainPart A) := by
  intro written
  have hdefault {d : Text} (hd : ¬isBlank d) :=
    guessType?_annotation_default hv hequals htrim hd
  have halone := guessType?_annotation hv hequals htrim hne
  have hsome : HasPlainPart A → ∀ d, ¬isBlank d →
      guessType? (written d) = guessType? (v ++ [':', ' '] ++ A) := by
    intro hplain d hd
    rw [hdefault hd, halone, Option.or_of_isSome (plainPart?_isSome_iff.2 hplain)]
  refine ⟨⟨fun hall => ?_, fun hplain d d' hd _ hd' _ => ?_⟩, hsome, ?_⟩
  · by_contra hplain
    have hnone : plainPart? A = none := by
      rwa [← plainPart?_isSome_iff, Option.not_isSome_iff_eq_none] at hplain
    -- a digit leaves the parameter without a type, and the body of a lambda gives it one
    have hdigit : guessType? (written ['0']) = none := by
      have hfound : hint? (trim ['0']) = none := by decide
      rw [hdefault (by decide), hnone, hfound]
      rfl
    have hlambda : (guessType? (written "lambda x: x".toList)).isSome := by
      have hfound : hint? (trim "lambda x: x".toList) = some ['x'] := by decide
      rw [hdefault (by decide), hnone, hfound]
      exact hintedType?_isSome ⟨'x', by decide, by decide⟩ A
    rw [← hall ['0'] "lambda x: x".toList (by decide) (by decide) (by decide) (by decide),
      hdigit] at hlambda
    contradiction
  · rw [hsome hplain d hd, hsome hplain d' hd']
  · rw [halone, ← plainPart?_isSome_iff]
    cases hpart : plainPart? A with
    | none => rfl
    | some h => simpa using hintedType?_isSome (exists_isWord_of_plainPart? hpart) A

end

/-- An annotation that is no plain part as a whole, and defaults with annotations of their own. -/
theorem default_unread_iff_literal :
    let v := "mode".toList
    let A := "Literal[\"r\", \"w\"]".toList
    let lambda := "lambda k: Literal[k] | dict[int, str]".toList
    let dict := "\x7bread: write\x7d".toList
    (IsName v ∧ '=' ∉ A ∧ trim A = A ∧ A ≠ [] ∧ HasPlainPart A ∧ ¬isBlank lambda ∧
      '\n' ∉ lambda ∧ ¬isBlank dict ∧ '\n' ∉ dict) ∧
    guessType? (v ++ [':', ' '] ++ A ++ [' ', '=', ' '] ++ lambda) =
      guessType? (v ++ [':', ' '] ++ A ++ [' ', '=', ' '] ++ dict) ∧
    guessType? (v ++ [':', ' '] ++ A ++ [' ', '=', ' '] ++ lambda) = some A := by
  intro v A lambda dict
  have hv : IsName v := by decide
  have hplain : HasPlainPart A := .inl (.word (by decide))
  have h := default_unread_iff (v := v) (A := A) hv (by decide) (by decide) (by decide)
  refine ⟨⟨hv, by decide, by decide, by decide, hplain, by decide, by decide, by decide,
    by decide⟩, h.1.2 hplain lambda dict (by decide) (by decide) (by decide) (by decide), ?_⟩
  rw [h.2.1 hplain lambda (by decide)]
  decide

/-- A default is taken for the type where the annotation is passed over, and without one there is no
type. -/
theorem default_read :
    let v := "key".toList
    let A := "[str]".toList
    let lambda := "lambda row: row.lower".toList
    let written (d : Text) := v ++ [':', ' '] ++ A ++ [' ', '=', ' '] ++ d
    (IsName v ∧ '=' ∉ A ∧ '\n' ∉ A ∧ trim A = A ∧ A ≠ [] ∧ ¬HasPlainPart A) ∧
      guessType? (written lambda) = some "row.lower".toList ∧
      guessType? (written "None".toList) = none := by
  intro v A lambda written
  refine ⟨⟨by decide, by decide, by decide, by decide, by decide, ?_⟩, by decide, by decide⟩
  rw [← plainPart?_isSome_iff]
  decide

end DocSnippet.Signature

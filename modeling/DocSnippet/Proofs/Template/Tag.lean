import DocSnippet.Proofs.Template.Form
import DocSnippet.Proofs.Text.Word
import DocSnippet.Template.Tag

/-! How the tags of a form are read. A word is read up to the blank or the brace behind it, since it
does not start like a word of the language of templates and no name goes on behind it; so a tag has
one reading, whatever text follows. -/

namespace DocSnippet.Template

open Text

theorem cut_append {P : Char → Bool} {n r : Text} (hn : ∀ c ∈ n, P c) (hr : ∀ c ∈ r.head?, ¬P c) :
    (n ++ r).takeWhile P = n ∧ (n ++ r).dropWhile P = r := by
  rw [List.takeWhile_append_of_pos hn, List.dropWhile_append_of_pos hn]
  cases r with
  | nil => simp
  | cons c r =>
    have hc : ¬P c := hr c rfl
    simp [hc]

/-! ### Letters -/

variable {c d : Char} {n p r : Text}

theorem ne_of_isLetter (hc : isLetter c) (hd : isLetter d = false) : c ≠ d := by
  rintro rfl
  simp [hc] at hd

theorem isSymbol_of_isLetter (hc : isLetter c) : isSymbol c := by
  simp only [isLetter, Bool.or_eq_true, beq_iff_eq, Bool.and_eq_true, Nat.ble_eq] at hc
  rcases hc with rfl | ⟨hlow, hhigh⟩
  · rfl
  · refine List.any_eq_true.2 ⟨(0x61, 0x7A), by simp, ?_⟩
    simpa using ⟨hlow, hhigh⟩

theorem not_isAsciiDigit_of_isLetter (hc : isLetter c) : isAsciiDigit c = false := by
  simp only [isLetter, Bool.or_eq_true, beq_iff_eq, Bool.and_eq_true, Nat.ble_eq] at hc
  rcases hc with rfl | ⟨hlow, -⟩
  · rfl
  · rw [Bool.eq_false_iff]
    simp only [isAsciiDigit, inRanges, List.any_cons, List.any_nil, Bool.or_false, ne_eq,
      Bool.and_eq_true, Nat.ble_eq]
    omega

/-- No name and no path goes on at the head of a text. -/
def EndsName (r : Text) : Prop := ∀ c ∈ r.head?, isPartialSymbol c = false

theorem endsName_brace (r : Text) : EndsName ('}' :: r) := by simp [EndsName]; decide

theorem endsName_blank (r : Text) : EndsName (' ' :: r) := by simp [EndsName]; decide

namespace IsWord

theorem exists_cons (hn : IsWord n) (r : Text) : ∃ c t, n ++ r = c :: t ∧ isLetter c := by
  obtain ⟨c, n, rfl⟩ := List.exists_cons_of_ne_nil hn.ne_nil
  exact ⟨c, n ++ r, rfl, hn.letters c (by simp)⟩

/-- No text that starts with another character stands where a word stands. -/
theorem after?_of_not_isLetter (hn : IsWord n) (hd : isLetter d = false) (p r : Text) :
    after? (d :: p) (n ++ r) = none := by
  obtain ⟨c, t, ht, hc⟩ := hn.exists_cons r
  rw [ht, after?, if_neg (ne_of_isLetter hc hd).symm]

theorem isSymbol_of_mem_reserved {w : Text} (hw : w ∈ reserved) : ∀ c ∈ w, isSymbol c := by
  have hall : ∀ w ∈ reserved, w.all isSymbol := by decide
  exact List.all_eq_true.1 (hall w hw)

theorem after?_reserved (hn : IsWord n) (hr : EndsName r) {w : Text} (hw : w ∈ reserved) :
    after? w (n ++ r) = none := by
  have hbehind : ∀ c ∈ r.head?, c ∉ w := by
    intro c hc hmem
    have hsymbol := isSymbol_of_mem_reserved hw c hmem
    simpa [isPartialSymbol, hsymbol] using hr c hc
  have hnone : after? w n = none := by
    rw [Option.eq_none_iff_forall_ne_some]
    intro u hu
    exact hn.free w hw ⟨u, (after?_eq_some_iff.1 hu).symm⟩
  rw [after?_append hbehind, hnone, Option.map_none]

/-- A text that starts with a reserved word does not stand there either. -/
theorem after?_reserved_append (hn : IsWord n) (hr : EndsName r) {w : Text} (hw : w ∈ reserved)
    (q : Text) : after? (w ++ q) (n ++ r) = none := by
  rw [Option.eq_none_iff_forall_ne_some]
  intro u hu
  have hw := hn.after?_reserved hr hw
  rw [after?_eq_some_iff.1 hu, List.append_assoc, after?_eq_some_iff.2 rfl] at hw
  simp at hw

theorem name? (hn : IsWord n) (hr : EndsName r) : name? (n ++ r) = some (n, r) := by
  have hsymbols : ∀ c ∈ n, isSymbol c := fun c hc => isSymbol_of_isLetter (hn.letters c hc)
  have hstop : ∀ c ∈ r.head?, ¬isSymbol c := by
    intro c hc hsymbol
    simpa [isPartialSymbol, hsymbol] using hr c hc
  obtain ⟨htake, hdrop⟩ := cut_append hsymbols hstop
  rw [Template.name?, htake, hdrop]
  cases n with
  | nil => exact absurd rfl hn.ne_nil
  | cons c n => rfl

theorem partialName? (hn : IsWord n) (hr : EndsName r) : partialName? (n ++ r) = some (n, r) := by
  have hsymbols : ∀ c ∈ n, isPartialSymbol c := fun c hc => by
    rw [isPartialSymbol, isSymbol_of_isLetter (hn.letters c hc), Bool.true_or]
  obtain ⟨htake, hdrop⟩ := cut_append hsymbols fun c hc => by simp [hr c hc]
  rw [Template.partialName?, htake, hdrop]
  cases n with
  | nil => exact absurd rfl hn.ne_nil
  | cons c n => rfl

theorem skipGap (hn : IsWord n) (r : Text) : skipGap (n ++ r) = n ++ r := by
  obtain ⟨c, t, ht, hc⟩ := hn.exists_cons r
  have hne : ∀ d, isLetter d = false → c ≠ d := fun d => ne_of_isLetter hc
  simp [ht, Template.skipGap, isGap, hne ' ' rfl, hne '\t' rfl, hne '\n' rfl, hne '\r' rfl]

end IsWord

/-! ### Operands -/

def Operand.ofName (n : Text) : Operand := .path ⟨.here 0, [n]⟩

namespace IsWord

theorem path? (hn : IsWord n) (hr : EndsName r) :
    path? (n ++ r) = some (⟨.here 0, [n]⟩, r) := by
  have hthis : "this".toList ∈ reserved := by decide
  have hpoint : after? "this.".toList (n ++ r) = none :=
    hn.after?_reserved_append hr hthis ['.']
  have hslash : after? "this/".toList (n ++ r) = none :=
    hn.after?_reserved_append hr hthis ['/']
  have hother : ∀ d p, isLetter d = false → after? (d :: p) (n ++ r) = none :=
    fun d p hd => hn.after?_of_not_isLetter hd p r
  have hroot : after? "@root.".toList (n ++ r) = none := hother '@' _ rfl
  have hroot' : after? "@root/".toList (n ++ r) = none := hother '@' _ rfl
  have hstep : step? (n ++ r) = some (.key n, r) := by
    simp [step?, hother '.' _ rfl, hother '[' _ rfl, hn.name? hr]
  have hfurther : ∀ fuel, furtherSteps fuel r = ([], r) := by
    intro fuel
    unfold furtherSteps
    split
    next c r =>
      have hc : isSeparator c = false := (Bool.or_eq_false_iff.1 (hr c rfl)).2
      simp [hc]
    · rfl
  have hne : n ≠ "this".toList := by
    rintro rfl
    exact hn.free _ hthis (List.prefix_refl _)
  simp [Template.path?, afterOptional, hpoint, hslash, hroot, hroot', hother '.' _ rfl,
    hother '@' _ rfl, hstep, hfurther, upCount, keysOf, hne, -String.reduceToList]

/-- No word of the language of templates stands where a word stands. -/
theorem atKeyword (hn : IsWord n) (hr : EndsName r) : atKeyword (n ++ r) = false := by
  have has : after? "as".toList (n ++ r) = none := hn.after?_reserved hr (by decide)
  have helse : after? "else".toList (n ++ r) = none := hn.after?_reserved hr (by decide)
  simp [Template.atKeyword, has, helse, -String.reduceToList]

theorem number? (hn : IsWord n) (r : Text) : number? (n ++ r) = none := by
  obtain ⟨c, t, ht, hc⟩ := hn.exists_cons r
  have hminus : afterOptional [['-']] (c :: t) = (false, c :: t) := by
    simp [afterOptional, after?, (ne_of_isLetter hc (d := '-') rfl).symm]
  rw [ht]
  simp only [Template.number?, hminus, List.takeWhile_cons, not_isAsciiDigit_of_isLetter hc]
  rfl

theorem literal? (hn : IsWord n) (hr : EndsName r) : literal? (n ++ r) = none := by
  have hnone : ∀ w ∈ reserved, whole? w (n ++ r) = none := by
    intro w hw
    rw [whole?, hn.after?_reserved hr hw]
  have hnull := hnone "null".toList (by decide)
  have htrue := hnone "true".toList (by decide)
  have hfalse := hnone "false".toList (by decide)
  have hnumber := hn.number? r
  obtain ⟨c, t, ht, hc⟩ := hn.exists_cons r
  have hquote : ¬(c = '"' ∨ c = '\'') := by
    simp [ne_of_isLetter hc (d := '"') rfl, ne_of_isLetter hc (d := '\'') rfl]
  simp only [ht] at *
  simp only [Template.literal?, if_neg hquote, hnumber, hnull, htrue, hfalse, Option.map_none]

theorem operand? (hn : IsWord n) (hr : EndsName r) (fuel : Nat) :
    operand? (fuel + 1) (n ++ r) = some (.ofName n, r) := by
  rw [Template.operand?, hn.atKeyword hr, if_neg (by simp), hn.literal? hr, hn.path? hr]
  rfl

end IsWord

theorem operands_brace (fuel : Nat) (r : Text) : operands fuel ('}' :: r) = ([], '}' :: r) := by
  rcases fuel with _ | _ | _ | fuel <;> rfl

theorem IsWord.operands (hn : IsWord n) (fuel : Nat) (r : Text) :
    operands (fuel + 2) (' ' :: (n ++ '}' :: r)) = ([.ofName n], '}' :: r) := by
  have hgap : Template.skipGap (' ' :: (n ++ '}' :: r)) = n ++ '}' :: r := hn.skipGap ('}' :: r)
  have hoption : option? (fuel + 1) (n ++ '}' :: r) = none := by
    simp only [option?, hn.name? (endsName_brace r)]
    rfl
  rw [Template.operands, hgap, hoption, hn.operand? (endsName_brace r)]
  simp only [operands_brace]

/-! ### Insides of tags -/

theorem IsWord.nested? (hn : IsWord n) (fuel : Nat) (r : Text) : nested? fuel (n ++ r) = none := by
  cases fuel with
  | zero => rfl
  | succ fuel => simp [Template.nested?, hn.after?_of_not_isLetter (d := '(') rfl]

theorem expression?_name (hn : IsWord n) (r : Text) :
    expression? (n ++ '}' :: r) = some (.value n (.ofName n), '}' :: r) := by
  have htake : (n ++ '}' :: r).take ((n ++ '}' :: r).length - ('}' :: r).length) = n := by
    simp
  simp only [expression?, hn.name? (endsName_brace r), Option.map_some, operands_brace,
    hn.nested?, hn.path? (endsName_brace r), htake]
  rfl

variable {h : Text}

theorem expression?_call (hh : IsWord h) (hn : IsWord n) (r : Text) :
    expression? (h ++ ' ' :: (n ++ '}' :: r)) = some (.call h [.ofName n], '}' :: r) := by
  obtain ⟨fuel, hfuel⟩ : ∃ fuel, (h ++ ' ' :: (n ++ '}' :: r)).length = fuel + 2 :=
    ⟨_, by simp; rfl⟩
  simp only [expression?, hh.name? (endsName_blank _), Option.map_some, hfuel, hn.operands]

theorem call?_word (hh : IsWord h) (r : Text) :
    call? (h ++ '}' :: r) = some (⟨h, [], []⟩, '}' :: r) := by
  simp only [call?, hh.name? (endsName_brace r), Option.bind_eq_bind, Option.bind_some,
    operands_brace]
  rfl

theorem call?_name (hh : IsWord h) (hn : IsWord n) (r : Text) :
    call? (h ++ ' ' :: (n ++ '}' :: r)) = some (⟨h, [.ofName n], []⟩, '}' :: r) := by
  obtain ⟨fuel, hfuel⟩ : ∃ fuel, (h ++ ' ' :: (n ++ '}' :: r)).length = fuel + 2 :=
    ⟨_, by simp; rfl⟩
  simp only [call?, hh.name? (endsName_blank _), Option.bind_eq_bind, Option.bind_some, hfuel,
    hn.operands]
  rfl

/-! ### Whole tags -/

/-- A tag that keeps the white space around it. -/
def Mark.plain (t : Tag) : Mark := ⟨t, false, false⟩

theorem finish?_plain (tag : Tag) (r : Text) :
    finish? ['}', '}'] false (tag, '}' :: '}' :: r) = some (.plain tag, r) := rfl

theorem tag?_of_expression? (hn : IsWord n) {u : Text} (hu : EndsName u) {tag : Tag} {r : Text}
    (h : expression? (n ++ u) = some (tag, '}' :: '}' :: r)) :
    tag? ('{' :: '{' :: (n ++ u)) = some (.plain tag, r) := by
  have hbraces : after? ['{', '{'] ('{' :: '{' :: (n ++ u)) = some (n ++ u) := rfl
  have hcomment : after? ['!'] (n ++ u) = none := hn.after?_of_not_isLetter rfl [] u
  have htilde : tilde (n ++ u) = (false, n ++ u) := by
    simp only [tilde, hn.skipGap, hn.after?_of_not_isLetter (d := '~') rfl [] u]
  have helse : after? "else".toList (n ++ u) = none := hn.after?_reserved hu (by decide)
  have hcaret : after? ['^'] (n ++ u) = none := hn.after?_of_not_isLetter rfl [] u
  have hdivision : division? false (n ++ u) = none := by
    simp [division?, helse, hcaret, -String.reduceToList]
  simp only [tag?, hbraces, Option.bind_eq_bind, Option.bind_some, hcomment, htilde, hdivision, h,
    finish?_plain]

theorem tag?_value (hn : IsWord n) (r : Text) :
    tag? (tag n ++ r) = some (.plain (.value n (.ofName n)), r) := by
  have h := tag?_of_expression? hn (endsName_brace _) (expression?_name hn ('}' :: r))
  simpa [tag] using h

theorem tag?_call (hh : IsWord h) (hn : IsWord n) (r : Text) :
    tag? (tag (h ++ ' ' :: n) ++ r) = some (.plain (.call h [.ofName n]), r) := by
  have h := tag?_of_expression? hh (endsName_blank _) (expression?_call hh hn ('}' :: r))
  simpa [tag] using h

/-- The signs of blocks start no expression and no division. -/
theorem tag?_of_signed? {sign : Char} (hsign : sign = '#' ∨ sign = '/') {t : Text} {m : Mark}
    {r : Text} (h : signed? false sign t = some (m, r)) :
    tag? ('{' :: '{' :: sign :: t) = some (m, r) := by
  rcases hsign with rfl | rfl
  · exact h
  · exact h

theorem tag?_of_call? (hh : IsWord h) {u : Text} {c : Call} {r : Text}
    (hcall : call? (h ++ u) = some (c, '}' :: '}' :: r)) :
    tag? ('{' :: '{' :: '#' :: (h ++ u)) = some (.plain (.opening c), r) := by
  have hsection : after? ['>'] (h ++ u) = none := hh.after?_of_not_isLetter rfl [] u
  refine tag?_of_signed? (.inl rfl) ?_
  simp only [signed?, hh.skipGap, hsection, hcall, Option.bind_some, finish?_plain, if_true]

theorem tag?_opening (hh : IsWord h) (r : Text) :
    tag? (opening h ++ r) = some (.plain (.opening ⟨h, [], []⟩), r) := by
  have h := tag?_of_call? hh (call?_word hh ('}' :: r))
  simpa [opening, tag] using h

theorem tag?_opening_name (hh : IsWord h) (hn : IsWord n) (r : Text) :
    tag? (opening (h ++ ' ' :: n) ++ r) = some (.plain (.opening ⟨h, [.ofName n], []⟩), r) := by
  have h := tag?_of_call? hh (call?_name hh hn ('}' :: r))
  simpa [opening, tag] using h

theorem tag?_closing (hh : IsWord h) (r : Text) :
    tag? (closing h ++ r) = some (.plain (.closing h), r) := by
  have hname := hh.partialName? (endsName_brace ('}' :: r))
  have hsigned : signed? false '/' (h ++ '}' :: '}' :: r) = some (.plain (.closing h), r) := by
    simp [signed?, hh.skipGap, hname, finish?_plain]
  simpa [closing, tag] using tag?_of_signed? (.inr rfl) hsigned

theorem tag?_else (r : Text) :
    tag? (tag "else".toList ++ r) = some (.plain (.orElse none), r) := rfl

end DocSnippet.Template

import DocSnippet.Proofs.Signature.Annotation

/-! The sorting of tokens. Decorators, arguments, keyword arguments and the result annotation are
read from the tokens independently of each other, and yet no token is read twice: its first visible
character and, in a parameter, an equals sign tell which of the four it can be. A keyword argument
without an annotation has the type of its own default, since both are cut at the same equals sign.
-/

namespace DocSnippet.Definition

open Text Signature

inductive Contribution
  | decorator (name : Text)
  | argument (arg : Argument)
  | keywordArgument (kwarg : KeywordArgument)
  | result (type : Text)
  deriving DecidableEq

namespace Contribution

/-- The contribution of a token. Decorators and results start with a sign of their own, and keyword
arguments hold an equals sign. -/
def ofToken? (token : Text) : Option Contribution :=
  match (trim token).head? with
  | none => none
  | some c =>
    if c = '@' then (Definition.decorator? token).map decorator
    else if c = '-' then (resultType? token).map result
    else if '=' ∈ token then (Definition.keywordArgument? token).map keywordArgument
    else (Definition.argument? token).map argument

def decorator? : Contribution → Option Text
  | .decorator name => some name
  | _ => none

def argument? : Contribution → Option Argument
  | .argument arg => some arg
  | _ => none

def keywordArgument? : Contribution → Option KeywordArgument
  | .keywordArgument kwarg => some kwarg
  | _ => none

def result? : Contribution → Option Text
  | .result type => some type
  | _ => none

end Contribution

/-! ### Tokens that a reader refuses -/

section

variable {token : Text}

theorem decorator?_eq_none (h : (trim token).head? ≠ some '@') : decorator? token = none := by
  unfold decorator?
  cases ht : trim token with
  | nil => rfl
  | cons c t =>
    have hc : '@' ≠ c := by
      rintro rfl
      simp [ht] at h
    simp [after?, hc]

theorem resultType?_eq_none (h : (trim token).head? ≠ some '-') : resultType? token = none := by
  unfold resultType? arrowType?
  cases ht : trim token with
  | nil => rfl
  | cons c t =>
    have hc : '-' ≠ c := by
      rintro rfl
      simp [ht] at h
    simp [after?, hc]

theorem argument?_eq_none_of_word? (h : word? (trim token) = none) : argument? token = none := by
  simp [argument?, h]

theorem keywordArgument?_eq_none_of_word? (h : word? (trim token) = none) :
    keywordArgument? token = none := by
  simp [keywordArgument?, h]

theorem argument?_eq_none_of_mem (h : '=' ∈ token) : argument? token = none := by
  unfold argument?
  split <;> simp [h]

theorem keywordArgument?_eq_none_of_notMem (h : '=' ∉ token) : keywordArgument? token = none := by
  unfold keywordArgument?
  split
  next v t hword =>
    have hrest : '=' ∉ t := by
      intro hmem
      apply h
      apply (trim_isInfix token).subset
      rw [(of_word?_eq_some hword).2.2.2]
      exact List.mem_append_right v hmem
    rw [afterEquals?_eq_none_of_notMem hrest]
    rfl
  next => rfl

end

namespace Contribution

/-! ### Each reader sees the tokens of its own kind -/

theorem readers_eq (token : Text) :
    Definition.decorator? token = (ofToken? token).bind decorator? ∧
      Definition.argument? token = (ofToken? token).bind argument? ∧
      Definition.keywordArgument? token = (ofToken? token).bind keywordArgument? ∧
      resultType? token = (ofToken? token).bind result? := by
  unfold ofToken?
  cases h : (trim token).head? with
  | none =>
    have hword : word? (trim token) = none := word?_eq_none (by simp [h])
    simp [decorator?_eq_none, resultType?_eq_none, argument?_eq_none_of_word? hword,
      keywordArgument?_eq_none_of_word? hword, h]
  | some c =>
    dsimp only
    split_ifs with hat hminus hequals
    · have hword : word? (trim token) = none := by
        apply word?_eq_none
        simpa [h, hat] using show ¬isWord '@' by decide
      have hresult : resultType? token = none := resultType?_eq_none (by simp [h, hat])
      rw [argument?_eq_none_of_word? hword, keywordArgument?_eq_none_of_word? hword, hresult]
      cases Definition.decorator? token <;> exact ⟨rfl, rfl, rfl, rfl⟩
    · have hword : word? (trim token) = none := by
        apply word?_eq_none
        simpa [h, hminus] using show ¬isWord '-' by decide
      have hdecorator : Definition.decorator? token = none := decorator?_eq_none (by simp [h, hat])
      rw [argument?_eq_none_of_word? hword, keywordArgument?_eq_none_of_word? hword, hdecorator]
      cases resultType? token <;> exact ⟨rfl, rfl, rfl, rfl⟩
    · rw [decorator?_eq_none (by simp [h, hat]), resultType?_eq_none (by simp [h, hminus]),
        argument?_eq_none_of_mem hequals]
      cases Definition.keywordArgument? token <;> exact ⟨rfl, rfl, rfl, rfl⟩
    · rw [decorator?_eq_none (by simp [h, hat]), resultType?_eq_none (by simp [h, hminus]),
        keywordArgument?_eq_none_of_notMem hequals]
      cases Definition.argument? token <;> exact ⟨rfl, rfl, rfl, rfl⟩

end Contribution

/-! ### The type of a default -/

section

variable {token : Text} {k : KeywordArgument} (h : keywordArgument? token = some k)

include h

theorem mem_of_keywordArgument? : '=' ∈ token := by
  by_contra hequals
  rw [keywordArgument?_eq_none_of_notMem hequals] at h
  contradiction

theorem firstDefault?_of_keywordArgument? : firstDefault? (trim token) = some k.default := by
  unfold keywordArgument? at h
  split at h
  next v r hword =>
    obtain ⟨default, hdefault, rfl⟩ := Option.map_eq_some_iff.1 h
    cases ht : trim token with
    | nil => simp [ht, word?] at hword
    | cons c t =>
      rw [ht] at hword
      simp only [firstDefault?, hword, Option.bind_some, hdefault]
  next => contradiction

theorem type?_of_keywordArgument? : k.type? = guessType? token := by
  unfold keywordArgument? at h
  split at h
  next v r hword =>
    obtain ⟨default, hdefault, rfl⟩ := Option.map_eq_some_iff.1 h
    rfl
  next => contradiction

theorem literalType?_of_keywordArgument? (hplain : ∀ v u, ¬IsAnnotated (trim token) v u) :
    k.type? = literalType? (trim k.default) := by
  have hmem : '=' ∈ trim token :=
    mem_trim_of_not_isSpace (mem_of_keywordArgument? h) (by decide)
  rw [type?_of_keywordArgument? h]
  simp only [guessType?, afterColon?_eq_none_iff.2 hplain, List.contains_iff_mem.2 hmem, if_true,
    firstDefault?_of_keywordArgument? h, Option.bind_some]

end

/-! ### The partition -/

/-- Every token contributes to at most one of the decorators, the arguments, the keyword arguments
and the result annotation, and each of the lists keeps the order of the tokens. Arguments come from
tokens without an equals sign and keyword arguments from tokens with one. Without an annotation, the
type of a keyword argument is guessed from the very text that is its default. -/
theorem classify_partition (tokens body : List Text) (name : Text) (isClass : Bool) :
    let cs := tokens.filterMap Contribution.ofToken?
    let result? := cs.findSome? Contribution.result?
    let d := classify tokens body name isClass
    (d.decorators = cs.filterMap Contribution.decorator? ∧
      d.args = cs.filterMap Contribution.argument? ∧
      d.kwargs = cs.filterMap Contribution.keywordArgument? ∧
      d.returns = (if isClass then [] else returnsOf result? body) ∧
      d.yields? = (if isClass then none else yieldsOf result? body)) ∧
    ∀ token ∈ tokens,
      (∀ a, Contribution.ofToken? token = some (.argument a) → '=' ∉ token) ∧
      ∀ k, Contribution.ofToken? token = some (.keywordArgument k) → '=' ∈ token ∧
        ((∀ v u, ¬IsAnnotated (trim token) v u) →
          firstDefault? (trim token) = some k.default ∧
            k.type? = literalType? (trim k.default)) := by
  intro cs result? d
  have hreaders := Contribution.readers_eq
  have hlist {α : Type} {read : Text → Option α} {part : Contribution → Option α}
      (h : ∀ token, read token = (Contribution.ofToken? token).bind part) :
      tokens.filterMap read = cs.filterMap part := by
    rw [List.filterMap_filterMap, ← funext h]
  have hresult : tokens.findSome? resultType? = result? := by
    rw [← List.head?_filterMap, hlist fun token => (hreaders token).2.2.2, List.head?_filterMap]
  refine ⟨⟨hlist fun token => (hreaders token).1, hlist fun token => (hreaders token).2.1,
    hlist fun token => (hreaders token).2.2.1, ?_, ?_⟩,
    fun token _ => ⟨fun a ha => ?_, fun k hk => ?_⟩⟩
  · show (if isClass then [] else returnsOf (tokens.findSome? resultType?) body) = _
    rw [hresult]
  · show (if isClass then none else yieldsOf (tokens.findSome? resultType?) body) = _
    rw [hresult]
  · intro hmem
    have hargument := (hreaders token).2.1
    rw [ha, argument?_eq_none_of_mem hmem] at hargument
    contradiction
  · have hkeyword : keywordArgument? token = some k := by
      rw [(hreaders token).2.2.1, hk]
      rfl
    have hdefault := firstDefault?_of_keywordArgument? hkeyword
    exact ⟨mem_of_keywordArgument? hkeyword, fun hplain =>
      ⟨hdefault, literalType?_of_keywordArgument? hkeyword hplain⟩⟩

/-- A token of each kind, a receiver, and a default that looks like an annotation. -/
theorem classify_partition_row :
    let tokens := ["@final", "self", " cells: list[str]", "sep\n = \x7bx: 1 == 2\x7d",
      "mode: str='='", "-> 'Row'"].map String.toList
    let token := "sep\n = \x7bx: 1 == 2\x7d".toList
    let k : KeywordArgument := ⟨"sep".toList, some "dict".toList, "\x7bx: 1 == 2\x7d".toList⟩
    let d := classify tokens [] "row".toList false
    (token ∈ tokens ∧ Contribution.ofToken? token = some (.keywordArgument k) ∧
      ∀ v u, ¬IsAnnotated (trim token) v u) ∧
    d.decorators = ["final".toList] ∧ d.args = [⟨"cells".toList, some "list[str]".toList⟩] ∧
      d.kwargs = [k, ⟨"mode".toList, some "str".toList, "'='".toList⟩] ∧
      d.returns = [⟨some "Row".toList⟩] ∧ '=' ∈ token ∧
      firstDefault? (trim token) = some k.default ∧ k.type? = literalType? (trim k.default) := by
  intro tokens token k d
  have hmem : token ∈ tokens := by decide
  have hk : Contribution.ofToken? token = some (.keywordArgument k) := by decide
  have hplain : ∀ v u, ¬IsAnnotated (trim token) v u := afterColon?_eq_none_iff.1 (by decide)
  obtain ⟨⟨hdecorators, hargs, hkwargs, hreturns, -⟩, htokens⟩ :=
    classify_partition tokens [] "row".toList false
  obtain ⟨hequals, htype⟩ := (htokens token hmem).2 k hk
  refine ⟨⟨hmem, hk, hplain⟩, hdecorators.trans ?_, hargs.trans ?_, hkwargs.trans ?_,
    hreturns.trans ?_, hequals, htype hplain⟩ <;> decide

end DocSnippet.Definition

import DocSnippet.Docstring.Fields
import DocSnippet.Proofs.Docstring.TypeShape
import DocSnippet.Proofs.Template.Form

/-! The texts of a docstring. Whatever the fields of a definition show is a piece of a text of the
definition, or the word for a type that is not known. As values, they are found under their names.
-/

namespace DocSnippet

open Text Docstring Template

def Argument.texts (a : Argument) : List Text := a.name :: a.type?.toList

def KeywordArgument.texts (k : KeywordArgument) : List Text := k.name :: k.default :: k.type?.toList

def Product.texts (p : Product) : List Text := p.type?.toList

def Definition.texts (d : Definition) : List Text :=
  [d.name] ++ d.decorators ++ d.args.flatMap Argument.texts ++
    d.kwargs.flatMap KeywordArgument.texts ++ d.returns.flatMap Product.texts ++
    d.yields?.toList.flatMap Product.texts ++ d.raises

namespace Docstring

def Fields.texts (f : Fields) : List Text :=
  [f.name] ++ f.args.flatMap Argument.texts ++ f.kwargs.flatMap KeywordArgument.texts ++
    f.output.flatMap Product.texts ++ f.raises

theorem getD_of_forall {P : Text → Prop} (hnil : P []) {type? : Option Text}
    (h : ∀ t ∈ type?, P t) : P (type?.getD []) := by
  cases type? with
  | none => exact hnil
  | some t => exact h t rfl

namespace Fields

variable {f : Fields} {t : Text}

theorem mem_texts_of_mem_args {a : Argument} (ha : a ∈ f.args) (ht : t ∈ a.texts) :
    t ∈ f.texts := by
  have hmem : t ∈ f.args.flatMap Argument.texts := List.mem_flatMap.2 ⟨a, ha, ht⟩
  simp only [texts, List.mem_append, hmem, or_true, true_or]

theorem mem_texts_of_mem_kwargs {k : KeywordArgument} (hk : k ∈ f.kwargs) (ht : t ∈ k.texts) :
    t ∈ f.texts := by
  have hmem : t ∈ f.kwargs.flatMap KeywordArgument.texts := List.mem_flatMap.2 ⟨k, hk, ht⟩
  simp only [texts, List.mem_append, hmem, or_true, true_or]

theorem mem_texts_of_mem_output {p : Product} (hp : p ∈ f.output) (ht : t ∈ p.texts) :
    t ∈ f.texts := by
  have hmem : t ∈ f.output.flatMap Product.texts := List.mem_flatMap.2 ⟨p, hp, ht⟩
  simp only [texts, List.mem_append, hmem, or_true, true_or]

theorem mem_texts_of_mem_raises (ht : t ∈ f.raises) : t ∈ f.texts := by
  simp only [texts, List.mem_append, ht, or_true]

end Fields

/-- A piece of one of the texts, or the word for a type that is not known. -/
def IsShown (ts : List Text) (u : Text) : Prop := u = unknownType ∨ ∃ t ∈ ts, u <:+: t

namespace IsShown

variable {ts us : List Text} {t u : Text}

theorem of_mem (h : u ∈ ts) : IsShown ts u := .inr ⟨u, h, List.infix_refl u⟩

theorem mono (hu : IsShown ts u) (h : ts ⊆ us) : IsShown us u := by
  rcases hu with rfl | ⟨t, ht, hu⟩
  · exact .inl rfl
  · exact .inr ⟨t, h ht, hu⟩

theorem shownType {guess : Bool} {type? : Option Text} (h : ∀ t ∈ type?, IsShown ts t)
    (hu : u ∈ shownType guess type?) : IsShown ts u := by
  rw [Docstring.shownType, Option.mem_some_iff] at hu
  subst hu
  cases guess with
  | false => exact .inl rfl
  | true =>
    cases type? with
    | none => exact .inl rfl
    | some t => exact h t rfl

end IsShown

theorem isShown_showArgument {guess : Bool} {a : Argument} {u : Text}
    (hu : u ∈ (showArgument guess a).texts) : IsShown a.texts u := by
  rw [Argument.texts, showArgument, List.mem_cons, Option.mem_toList] at hu
  rcases hu with rfl | hu
  · exact .of_mem (by simp [Argument.texts])
  · exact .shownType (fun t ht => .of_mem (by simp [Argument.texts, Option.mem_def.1 ht])) hu

theorem isShown_showKeywordArgument {guess : Bool} {k : KeywordArgument} {u : Text}
    (hu : u ∈ (showKeywordArgument guess (cleanKeywordArgument k)).texts) : IsShown k.texts u := by
  have htype : ∀ t ∈ (cleanKeywordArgument k).type?, IsShown k.texts t := by
    intro t ht
    rw [cleanKeywordArgument] at ht
    split at ht
    · obtain ⟨v, hv, rfl⟩ := Option.map_eq_some_iff.1 ht
      exact .inr ⟨v, by simp [KeywordArgument.texts, hv], dropNone_isInfix v⟩
    · exact .of_mem (by simp [KeywordArgument.texts, Option.mem_def.1 ht])
  have hname : (cleanKeywordArgument k).name = k.name ∧
      (cleanKeywordArgument k).default = k.default := by
    rw [cleanKeywordArgument]
    split <;> exact ⟨rfl, rfl⟩
  simp only [KeywordArgument.texts, showKeywordArgument, hname, List.mem_cons,
    Option.mem_toList] at hu
  rcases hu with rfl | rfl | hu
  · exact .of_mem (by simp [KeywordArgument.texts])
  · exact .of_mem (by simp [KeywordArgument.texts])
  · exact .shownType htype hu

theorem isShown_output {d : Definition} {guess includeName : Bool} {p : Product}
    (hp : p ∈ (Fields.ofDefinition d guess includeName).output) {u : Text} (hu : u ∈ p.texts) :
    IsShown (d.returns.flatMap Product.texts ++ d.yields?.toList.flatMap Product.texts) u := by
  rw [Product.texts, Option.mem_toList] at hu
  simp only [Fields.ofDefinition] at hp
  split at hp
  next =>
    obtain ⟨q, hq, rfl⟩ := List.mem_map.1 hp
    refine .shownType (fun t ht => .inr ?_) hu
    cases hy : d.yields? with
    | none => simp [hy] at hq
    | some y =>
      rw [hy] at hq
      obtain ⟨v, hv, hinfix⟩ := expandYields_isInfix hq ht
      exact ⟨v, by simp [Product.texts, Option.mem_def.1 hv], hinfix⟩
  next =>
    obtain ⟨q, hq, rfl⟩ := List.mem_map.1 hp
    refine .shownType (fun t ht => .inr ?_) hu
    obtain ⟨r, hr, v, hv, hinfix⟩ := expandReturns_isInfix hq ht
    refine ⟨v, List.mem_append_left _ (List.mem_flatMap.2 ⟨r, hr, ?_⟩), hinfix⟩
    simpa [Product.texts] using hv

/-- What the fields of a definition show comes from the definition. -/
theorem isShown_of_mem_texts {d : Definition} {guess includeName : Bool} {u : Text}
    (hu : u ∈ (Fields.ofDefinition d guess includeName).texts) : IsShown d.texts u := by
  simp only [Fields.texts, List.mem_append, List.mem_flatMap, or_assoc] at hu
  rcases hu with hu | ⟨a, ha, hu⟩ | ⟨k, hk, hu⟩ | ⟨p, hp, hu⟩ | hu
  · have hmem : u ∈ [d.name] := hu
    exact .of_mem (by simp only [Definition.texts, List.mem_append, hmem, true_or])
  · obtain ⟨b, hb, rfl⟩ := List.mem_map.1 ha
    refine (isShown_showArgument hu).mono fun t ht => ?_
    have hmem : t ∈ d.args.flatMap Argument.texts := List.mem_flatMap.2 ⟨b, hb, ht⟩
    simp only [Definition.texts, List.mem_append, hmem, or_true, true_or]
  · simp only [Fields.ofDefinition, List.map_map] at hk
    obtain ⟨b, hb, rfl⟩ := List.mem_map.1 hk
    refine (isShown_showKeywordArgument hu).mono fun t ht => ?_
    have hmem : t ∈ d.kwargs.flatMap KeywordArgument.texts := List.mem_flatMap.2 ⟨b, hb, ht⟩
    simp only [Definition.texts, List.mem_append, hmem, or_true, true_or]
  · refine (isShown_output hp hu).mono fun t ht => ?_
    rcases List.mem_append.1 ht with ht | ht
    · simp only [Definition.texts, List.mem_append, ht, or_true, true_or]
    · simp only [Definition.texts, List.mem_append, ht, or_true, true_or]
  · have hmem : u ∈ d.raises := hu
    exact .of_mem (by simp only [Definition.texts, List.mem_append, hmem, or_true])

/-! ### Values -/

namespace Fields

theorem argumentValue_shown?_var (a : Argument) :
    (argumentValue a).shown? "var".toList = some a.name := by
  rw [argumentValue]
  cases a.type? <;> rfl

theorem argumentValue_shown?_type (a : Argument) :
    (argumentValue a).shown? "type".toList = some (a.type?.getD []) := by
  rw [argumentValue]
  cases a.type? <;> rfl

theorem keywordArgumentValue_shown?_var (k : KeywordArgument) :
    (keywordArgumentValue k).shown? "var".toList = some k.name := by
  rw [keywordArgumentValue]
  cases k.type? <;> rfl

theorem keywordArgumentValue_shown?_type (k : KeywordArgument) :
    (keywordArgumentValue k).shown? "type".toList = some (k.type?.getD []) := by
  rw [keywordArgumentValue]
  cases k.type? <;> rfl

theorem keywordArgumentValue_shown?_default (k : KeywordArgument) :
    (keywordArgumentValue k).shown? "default".toList = some k.default := rfl

theorem productValue_shown?_type (p : Product) :
    (productValue p).shown? "type".toList = some (p.type?.getD []) := by
  rw [productValue]
  cases p.type? <;> rfl

theorem raiseValue_shown?_type (type : Text) :
    (raiseValue type).shown? "type".toList = some type := rfl

end Fields

end Docstring

end DocSnippet

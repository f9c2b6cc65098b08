import DocSnippet.Docstring.Fields

/-! Docstrings without types. The types of a definition give a docstring its shape: a tuple has an
entry for each member, and an iterator those of its items. Where types are not wanted they do so all
the same, and then every type is replaced by the word for an unknown one and nothing else is
changed. -/

namespace DocSnippet.Docstring

open Text

namespace Fields

/-- The fields with the word for an unknown type in place of every type. -/
def withoutTypes (f : Fields) : Fields :=
  let untyped (p : Product) : Product := { p with type? := some unknownType }
  { f with
    args := f.args.map fun a => { a with type? := some unknownType }
    kwargs := f.kwargs.map fun k => { k with type? := some unknownType }
    returns := f.returns.map untyped
    yields := f.yields.map untyped
    output := f.output.map untyped }

structure IsTyped (f : Fields) : Prop where
  args : ∀ a ∈ f.args, a.type?.isSome
  kwargs : ∀ k ∈ f.kwargs, k.type?.isSome
  returns : ∀ p ∈ f.returns, p.type?.isSome
  yields : ∀ p ∈ f.yields, p.type?.isSome
  output : ∀ p ∈ f.output, p.type?.isSome

structure Announces (f : Fields) (d : Definition) : Prop where
  args : f.argsExist ↔ f.args ≠ []
  kwargs : f.kwargsExist ↔ f.kwargs ≠ []
  parameters : f.parametersExist ↔ f.args ≠ [] ∨ f.kwargs ≠ []
  raises : f.raisesExist ↔ f.raises ≠ []
  returns : f.returnsExist ↔ f.returns ≠ []
  yields : f.yieldsExist ↔ d.yields? ≠ none
  output : f.outputExist ↔ f.output ≠ []

theorem not_isEmpty_iff {α : Type} {xs : List α} : (!xs.isEmpty) = true ↔ xs ≠ [] := by
  cases xs <;> simp

theorem isSome_shownType (guess : Bool) (type? : Option Text) : (shownType guess type?).isSome :=
  rfl

theorem isTyped_map_showProduct (guess : Bool) (ps : List Product) :
    ∀ p ∈ ps.map (showProduct guess), p.type?.isSome := by
  intro p hp
  obtain ⟨q, -, rfl⟩ := List.mem_map.1 hp
  exact isSome_shownType guess q.type?

section

variable (d : Definition) (guess includeName : Bool)

theorem output_ofDefinition :
    let f := ofDefinition d guess includeName
    f.output = if d.yields? = none then f.returns else f.yields := by
  simp only [ofDefinition]
  cases d.yields? <;> rfl

theorem isTyped_ofDefinition : (ofDefinition d guess includeName).IsTyped where
  args a ha := by
    obtain ⟨b, -, rfl⟩ := List.mem_map.1 ha
    exact isSome_shownType guess b.type?
  kwargs k hk := by
    obtain ⟨b, -, rfl⟩ := List.mem_map.1 hk
    exact isSome_shownType guess b.type?
  returns := isTyped_map_showProduct guess _
  yields := isTyped_map_showProduct guess _
  output := by
    rw [output_ofDefinition]
    split
    · exact isTyped_map_showProduct guess _
    · exact isTyped_map_showProduct guess _

theorem announces_ofDefinition : (ofDefinition d guess includeName).Announces d where
  args := not_isEmpty_iff
  kwargs := not_isEmpty_iff
  parameters := by
    rw [← not_isEmpty_iff, ← not_isEmpty_iff]
    exact Bool.or_eq_true_iff
  raises := not_isEmpty_iff
  returns := not_isEmpty_iff
  yields := Option.isSome_iff_ne_none
  output := not_isEmpty_iff

theorem name_args_ofDefinition :
    (ofDefinition d guess includeName).args.map Argument.name = d.args.map Argument.name :=
  List.map_map

theorem cleanKeywordArgument_eq (k : KeywordArgument) :
    ∃ type?, cleanKeywordArgument k = { k with type? } := by
  rw [cleanKeywordArgument]
  split
  · exact ⟨_, rfl⟩
  · exact ⟨k.type?, rfl⟩

theorem kwargs_ofDefinition :
    (ofDefinition d guess includeName).kwargs.map (fun k => (k.name, k.default)) =
      d.kwargs.map fun k => (k.name, k.default) := by
  have hclean (k : KeywordArgument) :
      ((cleanKeywordArgument k).name, (cleanKeywordArgument k).default) = (k.name, k.default) := by
    obtain ⟨type?, hk⟩ := cleanKeywordArgument_eq k
    rw [hk]
  change (((d.kwargs.map cleanKeywordArgument).map (showKeywordArgument guess)).map _) = _
  rw [List.map_map, List.map_map]
  exact List.map_congr_left fun k _ => hclean k

end

/-- Types that are not wanted are replaced once the entries are made from them. -/
theorem ofDefinition_false (d : Definition) (includeName : Bool) :
    ofDefinition d false includeName = (ofDefinition d true includeName).withoutTypes := by
  cases h : d.yields? with
  | none =>
    simp only [ofDefinition, withoutTypes, h, Option.isSome_none, Bool.false_eq_true, if_false,
      List.map_map, List.isEmpty_map]
    rfl
  | some y =>
    simp only [ofDefinition, withoutTypes, h, Option.isSome_some, if_true, List.map_map,
      List.isEmpty_map]
    rfl

/-- Whether types are wanted or not, every entry of a docstring has a type, the parameters are those
of the definition with their names and defaults, what is yielded goes before what is returned, and
the flags tell which lists have entries. Without types the fields are those with types, but for the
types. -/
theorem ofDefinition_untyped (d : Definition) (includeName : Bool) :
    (∀ guess, let f := ofDefinition d guess includeName
      f.IsTyped ∧ f.args.map Argument.name = d.args.map Argument.name ∧
        f.kwargs.map (fun k => (k.name, k.default)) = d.kwargs.map (fun k => (k.name, k.default)) ∧
        f.output = (if d.yields? = none then f.returns else f.yields) ∧ f.Announces d) ∧
      ofDefinition d false includeName = (ofDefinition d true includeName).withoutTypes :=
  ⟨fun guess =>
    ⟨isTyped_ofDefinition d guess includeName, name_args_ofDefinition d guess includeName,
      kwargs_ofDefinition d guess includeName, output_ofDefinition d guess includeName,
      announces_ofDefinition d guess includeName⟩,
    ofDefinition_false d includeName⟩

end Fields

end DocSnippet.Docstring

import DocSnippet.Proofs.Docstring.Slots

/-! The placeholders of the built-in styles. Every style writes a text for every definition, with a
fixed number of markers for each parameter, output and exception. The conditions of its template
never hide an entry, so the numbers add up whatever sections are left out. -/

namespace DocSnippet

open Text Template

namespace Docstring

/-- The number of placeholders of a style, for so many arguments, keyword arguments, exceptions and
outputs. -/
def Style.slotCount : Style → (a k e o : Nat) → Nat
  | .numpy, a, k, e, o => 2 + 2 * a + 3 * k + e + 2 * o
  | .google, a, k, e, o => 2 + 2 * a + 3 * k + e + 2 * o
  | .sphinx, a, k, e, o => 2 + 2 * a + 3 * k + e + 2 * o
  | .pep257, a, k, e, o => 2 + a + 2 * k + e + 2 * o
  | .oneLineSphinx, a, k, e, o => 1 + 2 * a + 3 * k + e + 2 * o

/-! ### Styles -/

variable {display : Value → Text} {clean : Prop} {f : Fields}

theorem Writes.entry {v : Value} {pieces : List Inline} {n : Nat}
    (h : WritesLine display clean v pieces n) :
    Writes display clean v (rows [pieces] .empty) n :=
  .congr (.line h .empty) (Nat.zero_add n)

namespace Numpy

theorem writes_description {v : Value} :
    Writes display clean v (rows [descriptionRow] .empty) 1 :=
  .entry (.text rfl <| .description .nil)

theorem writes_form (hf : f.Consistent) (hu : f.Unmarked clean) :
    Writes display clean f.toValue form (Style.numpy.slotCount f.args.length f.kwargs.length
      f.raises.length f.output.length) := by
  have hargs : ∀ a ∈ f.args,
      Writes display clean (Fields.argumentValue a) (rows argumentEntry .empty) 2 :=
    fun a ha => .line (.value (.argument_var (hu.args a ha)) rfl <|
      .slot (.argument_type (hu.args a ha)) .nil) writes_description
  have hkwargs : ∀ k ∈ f.kwargs,
      Writes display clean (Fields.keywordArgumentValue k) (rows keywordArgumentEntry .empty) 3 :=
    fun k hk => .congr (.line (.value (.keywordArgument_var (hu.kwargs k hk)) rfl <|
      .slot (.keywordArgument_type (hu.kwargs k hk)) <| .text rfl .nil) <|
      .entry (.text rfl <| .description <| .text rfl <|
        .slot (.keywordArgument_default (hu.kwargs k hk)) .nil)) rfl
  have houtput : ∀ p ∈ f.output,
      Writes display clean (Fields.productValue p) (rows productEntry .empty) 2 :=
    fun p hp => .line (.slot (.product_type (hu.output p hp)) .nil) writes_description
  have hraises : ∀ t ∈ f.raises,
      Writes display clean (Fields.raiseValue t) (rows raiseEntry .empty) 1 :=
    fun t ht => .line (.last (.raise_type (hu.raises t ht))) writes_description
  refine .congr (.preamble rfl hu.summary <|
    .guarded rfl (fun h => ?_) (.line .nil <| .line (.text rfl .nil) <| .line (.text rfl .nil) <|
      .entries rfl hargs <| .entries rfl hkwargs .empty) <|
    .guarded rfl (fun h => ?_)
      (.line .nil <| .line (.last hu.shows_title) <| .line (.underline rfl) <|
      .entries rfl houtput .empty) <|
    .guarded rfl (fun h => ?_) (.line .nil <| .line (.text rfl .nil) <| .line (.text rfl .nil) <|
      .entries rfl hraises .empty) .empty) ?_
  · simp [hf.parameters h]
  · simp [hf.output h]
  · simp [hf.raises h]
  · simp only [Style.slotCount]
    omega

end Numpy

namespace Google

theorem writes_form (hf : f.Consistent) (hu : f.Unmarked clean) :
    Writes display clean f.toValue form (Style.google.slotCount f.args.length f.kwargs.length
      f.raises.length f.output.length) := by
  have hargs : ∀ a ∈ f.args,
      Writes display clean (Fields.argumentValue a) (rows argumentEntry .empty) 2 :=
    fun a ha => .entry (.text rfl <| .value (.argument_var (hu.args a ha)) rfl <|
      .slot (.argument_type (hu.args a ha)) <| .text rfl <| .description .nil)
  have hkwargs : ∀ k ∈ f.kwargs,
      Writes display clean (Fields.keywordArgumentValue k) (rows keywordArgumentEntry .empty) 3 :=
    fun k hk => .entry (.text rfl <| .value (.keywordArgument_var (hu.kwargs k hk)) rfl <|
      .slot (.keywordArgument_type (hu.kwargs k hk)) <| .text rfl <| .description <| .text rfl <|
      .slot (.keywordArgument_default (hu.kwargs k hk)) <| .text rfl .nil)
  have hraises : ∀ t ∈ f.raises,
      Writes display clean (Fields.raiseValue t) (rows raiseEntry .empty) 1 :=
    fun t ht => .entry (.text rfl <| .value (.raise_type (hu.raises t ht)) rfl <| .description .nil)
  have houtput : ∀ p ∈ f.output,
      Writes display clean (Fields.productValue p) (rows productEntry .empty) 2 :=
    fun p hp => .entry (.text rfl <| .slot (.product_type (hu.output p hp)) <| .text rfl <|
      .description .nil)
  refine .congr (.preamble rfl hu.summary <|
    .guarded rfl (fun h => ?_) (.line .nil <| .line (.text rfl .nil) <| .entries rfl hargs <|
      .entries rfl hkwargs .empty) <|
    .guarded rfl (fun h => ?_) (.line .nil <| .line (.text rfl .nil) <|
      .entries rfl hraises .empty) <|
    .guarded rfl (fun h => ?_) (.line .nil <| .line (.value hu.shows_title rfl .nil) <|
      .entries rfl houtput .empty) .empty) ?_
  · simp [hf.parameters h]
  · simp [hf.raises h]
  · simp [hf.output h]
  · simp only [Style.slotCount]
    omega

end Google

namespace Sphinx

theorem writes_raise {type : Text} (h : clean → IsUnmarked type) :
    Writes display clean (Fields.raiseValue type) (rows raiseEntry .empty) 1 :=
  .entry (.text rfl <| .value (.raise_type h) rfl <| .description .nil)

theorem writes_product {p : Product} {word type : Text} {h : word.all isLiteral}
    {h' : type.all isLiteral} (hword : word.contains '@' = false)
    (htype : type.contains '@' = false) (hp : clean → ∀ t ∈ p.texts, IsUnmarked t) :
    Writes display clean (Fields.productValue p)
      (rows [[.text word h, Cell.description], [.text type h', Cell.typeSlot]] .empty) 2 :=
  .line (.text hword <| .description .nil) <|
    .entry (.text htype <| .slot (.product_type hp) .nil)

theorem writes_form (hf : f.Consistent) (hu : f.Unmarked clean) :
    Writes display clean f.toValue form (Style.sphinx.slotCount f.args.length f.kwargs.length
      f.raises.length f.output.length) := by
  have hargs : ∀ a ∈ f.args,
      Writes display clean (Fields.argumentValue a) (rows argumentEntry .empty) 2 :=
    fun a ha => .line (.text rfl <| .value (.argument_var (hu.args a ha)) rfl <|
      .description .nil) <| .entry (.text rfl <| .value (.argument_var (hu.args a ha)) rfl <|
      .slot (.argument_type (hu.args a ha)) .nil)
  have hkwargs : ∀ k ∈ f.kwargs,
      Writes display clean (Fields.keywordArgumentValue k) (rows keywordArgumentEntry .empty) 3 :=
    fun k hk => .congr (.line (.text rfl <| .value (.keywordArgument_var (hu.kwargs k hk)) rfl <|
      .description <| .text rfl <| .slot (.keywordArgument_default (hu.kwargs k hk)) .nil) <|
      .entry (.text rfl <| .value (.keywordArgument_var (hu.kwargs k hk)) rfl <|
        .slot (.keywordArgument_type (hu.kwargs k hk)) <| .text rfl .nil)) rfl
  have hraises : ∀ t ∈ f.raises,
      Writes display clean (Fields.raiseValue t) (rows raiseEntry .empty) 1 :=
    fun t ht => writes_raise (hu.raises t ht)
  -- either way the entries are those of the output
  have hyields : f.yieldsExist = true → ∀ p ∈ f.yields,
      Writes display clean (Fields.productValue p) (rows yieldEntry .empty) 2 :=
    fun h p hp => writes_product rfl rfl (hu.output p (hf.yields h ▸ hp))
  have hreturns : f.yieldsExist = false → ∀ p ∈ f.returns,
      Writes display clean (Fields.productValue p) (rows returnEntry .empty) 2 :=
    fun h p hp => writes_product rfl rfl (hu.output p (hf.returns h ▸ hp))
  have hproducts : Writes display clean f.toValue
      (.choose Names.yieldsExist (entries Names.yields yieldEntry .empty)
        (entries Names.returns returnEntry .empty) .empty) (0 + f.output.length * 2) := by
    refine .choose rfl (fun h => .congr (.entries rfl (hyields h) .empty) ?_)
      (fun h => .congr (.entries rfl (hreturns h) .empty) ?_) .empty
    · rw [hf.yields h, Nat.zero_add]
    · rw [hf.returns h, Nat.zero_add]
  refine .congr (.preamble rfl hu.summary <| .line .nil <| .entries rfl hargs <|
    .entries rfl hkwargs <| .entries rfl hraises hproducts) ?_
  simp only [Style.slotCount]
  omega

end Sphinx

namespace Pep257

theorem writes_form (hf : f.Consistent) (hu : f.Unmarked clean) :
    Writes display clean f.toValue form (Style.pep257.slotCount f.args.length f.kwargs.length
      f.raises.length f.output.length) := by
  have hargs : ∀ a ∈ f.args,
      Writes display clean (Fields.argumentValue a) (rows argumentEntry .empty) 1 :=
    fun a ha => .entry (.value (.argument_var (hu.args a ha)) rfl <| .description .nil)
  have hkwargs : ∀ k ∈ f.kwargs,
      Writes display clean (Fields.keywordArgumentValue k) (rows keywordArgumentEntry .empty) 2 :=
    fun k hk => .entry (.value (.keywordArgument_var (hu.kwargs k hk)) rfl <| .description <|
      .text rfl <| .slot (.keywordArgument_default (hu.kwargs k hk)) <| .text rfl .nil)
  have hraises : ∀ t ∈ f.raises,
      Writes display clean (Fields.raiseValue t) (rows raiseEntry .empty) 1 :=
    fun t ht => .entry (.value (.raise_type (hu.raises t ht)) rfl <| .description .nil)
  have houtput : ∀ p ∈ f.output,
      Writes display clean (Fields.productValue p) (rows productEntry .empty) 2 :=
    fun p hp => .entry (.slot (.product_type (hu.output p hp)) <| .text rfl <| .description .nil)
  refine .congr (.preamble rfl hu.summary <|
    .guarded rfl (fun h => ?_) (.line .nil <| .line (.text rfl .nil) <|
      .entries rfl hargs .empty) <|
    .guarded rfl (fun h => ?_) (.line .nil <| .line (.text rfl .nil) <|
      .entries rfl hkwargs .empty) <|
    .guarded rfl (fun h => ?_) (.line .nil <| .line (.text rfl .nil) <|
      .entries rfl hraises .empty) <|
    .guarded rfl (fun h => ?_) (.line .nil <| .line (.value hu.shows_title rfl .nil) <|
      .entries rfl houtput .empty) .empty) ?_
  · simp [hf.args h]
  · simp [hf.kwargs h]
  · simp [hf.raises h]
  · simp [hf.output h]
  · simp only [Style.slotCount]
    omega

end Pep257

namespace OneLineSphinx

theorem writes_form (hu : f.Unmarked clean) :
    Writes display clean f.toValue form (Style.oneLineSphinx.slotCount f.args.length
      f.kwargs.length f.raises.length f.output.length) := by
  have hargs : ∀ a ∈ f.args,
      Writes display clean (Fields.argumentValue a) (rows argumentEntry .empty) 2 :=
    fun a ha => .entry (.text rfl <| .slot (.argument_type (hu.args a ha)) <| .text rfl <|
      .value (.argument_var (hu.args a ha)) rfl <| .description .nil)
  have hkwargs : ∀ k ∈ f.kwargs,
      Writes display clean (Fields.keywordArgumentValue k) (rows keywordArgumentEntry .empty) 3 :=
    fun k hk => .entry (.text rfl <| .slot (.keywordArgument_type (hu.kwargs k hk)) <|
      .text rfl <| .value (.keywordArgument_var (hu.kwargs k hk)) rfl <| .description <|
      .text rfl <| .slot (.keywordArgument_default (hu.kwargs k hk)) .nil)
  have hraises : ∀ t ∈ f.raises,
      Writes display clean (Fields.raiseValue t) (rows Sphinx.raiseEntry .empty) 1 :=
    fun t ht => Sphinx.writes_raise (hu.raises t ht)
  have houtput : ∀ p ∈ f.output,
      Writes display clean (Fields.productValue p) (rows Sphinx.returnEntry .empty) 2 :=
    fun p hp => Sphinx.writes_product rfl rfl (hu.output p hp)
  refine .congr (.line (.summary rfl hu.summary) <| .line .nil <| .entries rfl hargs <|
    .entries rfl hkwargs <| .entries rfl hraises <| .entries rfl houtput .empty) ?_
  simp only [Style.slotCount]
  omega

end OneLineSphinx

theorem Style.writes_form (s : Style) (hf : f.Consistent) (hu : f.Unmarked clean) :
    Writes display clean f.toValue s.form
      (s.slotCount f.args.length f.kwargs.length f.raises.length f.output.length) := by
  cases s with
  | numpy => exact Numpy.writes_form hf hu
  | google => exact Google.writes_form hf hu
  | sphinx => exact Sphinx.writes_form hf hu
  | pep257 => exact Pep257.writes_form hf hu
  | oneLineSphinx => exact OneLineSphinx.writes_form hu

/-! ### Docstrings -/

theorem isSpan_summaryText {name : Text} (h : IsUnmarked name) (includeName : Bool) :
    IsSpan 1 (summaryText name includeName) := by
  have hslot : IsSpan 1 (placeholder "_summary_".toList) := .placeholder (by decide)
  have hname : IsSpan 0 (name ++ [' ']) := by
    refine ⟨.plain (h.append (by decide) (by decide)), ?_⟩
    rw [EndsPlain, List.getLast?_concat]
    decide
  cases includeName with
  | false => exact hslot
  | true => simpa [summaryText] using hname.append hslot

theorem unmarked_ofDefinition (d : Definition) (guess includeName : Bool) :
    (Fields.ofDefinition d guess includeName).Unmarked (∀ t ∈ d.texts, IsUnmarked t) where
  texts := by
    intro hclean u hu
    rcases isShown_of_mem_texts hu with rfl | ⟨t, ht, hinfix⟩
    · decide
    · exact fun h => hclean t ht (h.trans hinfix)
  title := by
    simp only [Fields.ofDefinition]
    split <;> decide
  summary := fun hclean =>
    isSpan_summaryText (hclean d.name (by simp [Definition.texts])) includeName

/-- Every built-in style can be read and gives a docstring for every definition. If no text of the
definition holds a marker, the style writes a fixed number of markers for each parameter, exception
and output, all at the heads of placeholders, and they are numbered from 1 on in reading order
before the blank lines are condensed. -/
theorem docstring_slots {E : Engine} (hE : E.Documented (helpers E.display)) (s : Style)
    {o : Options} (ho : o.template = s.template) (d : Definition) :
    ∃ g rendered, Generator.ofOptions E o = .ok g ∧ g.fill d = .ok rendered ∧
      (∀ indentation, g.docstring d indentation =
        .ok (indent indentation (Generator.enquote o (Generator.tidy rendered)))) ∧
      ((∀ t ∈ d.texts, IsUnmarked t) →
        let output := (Fields.ofDefinition d o.guessTypes o.includeName).output
        let n := s.slotCount d.args.length d.kwargs.length d.raises.length output.length
        markerCount rendered = n ∧
          ∃ lead pieces, IsUnmarked lead ∧ (∀ p ∈ pieces, IsUnmarked p) ∧ pieces.length = n ∧
            rendered = lead ++ markedPieces pieces ∧
            numberMarkers rendered = lead ++ numberedPieces 1 pieces ∧
            Generator.tidy rendered =
              condenseEnd (condense (lead ++ numberedPieces 1 pieces))) := by
  have hform : o.template = s.form.source := by rw [ho, s.template_eq]
  obtain ⟨rendered, hwrite, hspan⟩ := s.writes_form
    (Fields.consistent_ofDefinition d o.guessTypes o.includeName)
    (unmarked_ofDefinition d o.guessTypes o.includeName)
  obtain ⟨g, hg, rfl, hfill⟩ := Generator.exists_fill hE hform hwrite
  refine ⟨g, rendered, hg, hfill, fun indentation => ?_, fun hclean => ?_⟩
  · rw [Generator.docstring, hfill]
    rfl
  · have hmarked := (hspan hclean).marked
    simp only [Fields.ofDefinition, List.length_map] at hmarked ⊢
    obtain ⟨lead, pieces, hlead, hpieces, hlen, rfl⟩ := hmarked.exists_pieces
    have hnumber : numberMarkers (lead ++ markedPieces pieces) = lead ++ numberedPieces 1 pieces :=
      numberFrom_markedPieces hlead hpieces 1
    refine ⟨hmarked.markerCount_eq, lead, pieces, hlead, hpieces, hlen, rfl, hnumber, ?_⟩
    rw [Generator.tidy, hnumber]

/-- A generator of pairs whose texts start and end like markers, in the style that asks what is
yielded. -/
theorem docstring_slots_pairs :
    let o : Options :=
      { template := Style.sphinx.template
        quote := ['"']
        startOnNewLine := false
        includeName := true
        guessTypes := true }
    let d : Definition :=
      { name := "pairs@@".toList
        decorators := []
        args := [⟨"@@".toList, some "@".toList⟩]
        kwargs := [⟨"@n".toList, none, "@@".toList⟩]
        returns := []
        yields? := some ⟨some "Iterator[Tuple[@int, str]]".toList⟩
        raises := ["@Error".toList] }
    ∃ g rendered, Generator.ofOptions Engine.standard o = .ok g ∧ g.fill d = .ok rendered ∧
      markerCount rendered = 12 ∧
      (∃ lead pieces, IsUnmarked lead ∧ (∀ p ∈ pieces, IsUnmarked p) ∧ pieces.length = 12 ∧
        rendered = lead ++ markedPieces pieces ∧
        Generator.tidy rendered = condenseEnd (condense (lead ++ numberedPieces 1 pieces))) ∧
      g.docstring d "  ".toList = .ok (unlines (List.map String.toList
        ["  \"pairs@@ $\x7b1:_summary_\x7d",
          "",
          "  $\x7b2:_extended_summary_\x7d",
          "",
          "  :param @@: $\x7b3:_description_\x7d",
          "  :type @@: $\x7b4:@\x7d",
          "  :param @n: $\x7b5:_description_\x7d, defaults to $\x7b6:@@\x7d",
          "  :type @n: $\x7b7:_type_\x7d, optional",
          "  :raises @Error: $\x7b8:_description_\x7d",
          "  :yield: $\x7b9:_description_\x7d",
          "  :ytype: $\x7b10:@int\x7d",
          "  :yield: $\x7b11:_description_\x7d",
          "  :ytype: $\x7b12:str\x7d",
          "  \""])) := by
  intro o d
  obtain ⟨g, rendered, hg, hfill, -, hslots⟩ :=
    docstring_slots standard_documented .sphinx (o := o) rfl d
  obtain ⟨hcount, lead, pieces, hlead, hpieces, hlength, hrendered, -, htidy⟩ := hslots (by decide)
  refine ⟨g, rendered, hg, hfill, hcount,
    ⟨lead, pieces, hlead, hpieces, hlength, hrendered, htidy⟩, ?_⟩
  exact Generator.docstring_eq_ok standard_documented (Style.template_eq .sphinx) hg
    (by decide +kernel)

end Docstring

end DocSnippet

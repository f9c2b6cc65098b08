import DocSnippet.Proofs.Docstring.Fields
import DocSnippet.Proofs.Docstring.Form
import DocSnippet.Proofs.Docstring.Page

/-! The layout of the standard style. A docstring starts with the placeholders of its summaries;
sections with an underlined title follow for the parameters, the output and the exceptions, and each
is left out if it has no entries. -/

namespace DocSnippet.Docstring

open Text Template

namespace Numpy

/-! ### The page -/

/-- The line for a description, with the text and the placeholders behind it. -/
def descriptionLine (behind : Text) (slots : List Slot) : Line :=
  ⟨"    ".toList, ⟨"_description_".toList, behind⟩ :: slots⟩

def argumentLines (a : Argument) : List Line :=
  [⟨a.name ++ " : ".toList, [⟨a.type?.getD [], []⟩]⟩, descriptionLine [] []]

def keywordArgumentLines (k : KeywordArgument) : List Line :=
  [⟨k.name ++ " : ".toList, [⟨k.type?.getD [], ", optional".toList⟩]⟩,
    descriptionLine ", by default ".toList [⟨k.default, []⟩]]

def productLines (p : Product) : List Line :=
  [⟨[], [⟨p.type?.getD [], []⟩]⟩, descriptionLine [] []]

def raiseLines (type : Text) : List Line := [⟨type, []⟩, descriptionLine [] []]

/-- A section behind an empty line, with its title underlined. Without entries it is left out. -/
def titled (title : Text) (entries : List Line) : List Line :=
  if entries = [] then []
  else .empty :: ⟨title, []⟩ :: ⟨List.replicate title.length '-', []⟩ :: entries

def summaryLines (name : Text) (includeName : Bool) : List Line :=
  [⟨if includeName then name ++ [' '] else [], [⟨"_summary_".toList, []⟩]⟩, .empty,
    ⟨[], [⟨"_extended_summary_".toList, []⟩]⟩]

def parameterLines (f : Fields) : List Line :=
  f.args.flatMap argumentLines ++ f.kwargs.flatMap keywordArgumentLines

def page (f : Fields) (includeName : Bool) : List Line :=
  summaryLines f.name includeName ++ titled "Parameters".toList (parameterLines f) ++
    titled f.outputTitle (f.output.flatMap productLines) ++
    titled "Raises".toList (f.raises.flatMap raiseLines)

/-! ### Filling in the template -/

variable {display : Value → Text}

theorem write?_argument (a : Argument) :
    (rows argumentEntry .empty).write? (helpers display) (Fields.argumentValue a) =
      some (source (argumentLines a)) := by
  have hname : Cell.var.write? (helpers display) (Fields.argumentValue a) = some a.name :=
    Fields.argumentValue_shown?_var a
  have htype : Cell.typeSlot.write? (helpers display) (Fields.argumentValue a) = _ :=
    Cell.write?_slot (Fields.argumentValue_shown?_type a)
  simp [rows, argumentEntry, descriptionRow, Form.write?, concat?, hname, htype,
    Cell.write?_description, Cell.write?_text, argumentLines, descriptionLine, Line.source,
    Slot.source]

theorem write?_keywordArgument (k : KeywordArgument) :
    (rows keywordArgumentEntry .empty).write? (helpers display) (Fields.keywordArgumentValue k) =
      some (source (keywordArgumentLines k)) := by
  have hname : Cell.var.write? (helpers display) (Fields.keywordArgumentValue k) = some k.name :=
    Fields.keywordArgumentValue_shown?_var k
  have htype : Cell.typeSlot.write? (helpers display) (Fields.keywordArgumentValue k) = _ :=
    Cell.write?_slot (Fields.keywordArgumentValue_shown?_type k)
  have hdefault : Cell.defaultSlot.write? (helpers display) (Fields.keywordArgumentValue k) = _ :=
    Cell.write?_slot (Fields.keywordArgumentValue_shown?_default k)
  simp [rows, keywordArgumentEntry, Form.write?, concat?, hname, htype, hdefault,
    Cell.write?_description, Cell.write?_text, keywordArgumentLines, descriptionLine, Line.source,
    Slot.source]

theorem write?_product (p : Product) :
    (rows productEntry .empty).write? (helpers display) (Fields.productValue p) =
      some (source (productLines p)) := by
  have htype : Cell.typeSlot.write? (helpers display) (Fields.productValue p) = _ :=
    Cell.write?_slot (Fields.productValue_shown?_type p)
  simp [rows, productEntry, descriptionRow, Form.write?, concat?, htype, Cell.write?_description,
    Cell.write?_text, productLines, descriptionLine, Line.source, Slot.source]

theorem write?_raise (type : Text) :
    (rows raiseEntry .empty).write? (helpers display) (Fields.raiseValue type) =
      some (source (raiseLines type)) := by
  have htype : Cell.type.write? (helpers display) (Fields.raiseValue type) = some type :=
    Fields.raiseValue_shown?_type type
  simp [rows, raiseEntry, descriptionRow, Form.write?, concat?, htype, Cell.write?_description,
    Cell.write?_text, raiseLines, descriptionLine, Line.source, Slot.source]

theorem source_summaryLines (name : Text) (includeName : Bool) :
    source (summaryLines name includeName) = summaryText name includeName ++ '\n' :: '\n' ::
      (placeholder "_extended_summary_".toList ++ ['\n']) := by
  cases includeName <;> simp [summaryLines, summaryText, Line.source, Slot.source, Line.empty]

theorem write?_entries_lines {H : Helpers} {v : Value} {items : Name} {entry : List (List Inline)}
    {α : Type} {item : α → Value} {xs : List α} {written : α → List Line} {rest : Form}
    {ls : List Line} (hitems : v.field? items.word = some (.list (xs.map item)))
    (hentry : ∀ x, (rows entry .empty).write? H (item x) = some (source (written x)))
    (hrest : rest.write? H v = some (source ls)) :
    (entries items entry rest).write? H v = some (source (xs.flatMap written ++ ls)) := by
  rw [write?_entries hitems (fun x _ => hentry x) hrest, source_append, source, source,
    List.flatMap_assoc]
  rfl

/-- A section is written with its title and a line below it, if it has entries. -/
theorem write?_titled {H : Helpers} {v : Value} {condition : Name} {heading : List (List Inline)}
    {body rest : Form} {title : Text} {b : Bool} {entries ls : List Line}
    (hcondition : v.field? condition.word = some (.bool b)) (hb : b = true ↔ entries ≠ [])
    (hheading : ∀ t, body.write? H v = some t → (rows heading body).write? H v =
      some (title ++ '\n' :: (List.replicate title.length '-' ++ '\n' :: t)))
    (hbody : body.write? H v = some (source entries)) (hrest : rest.write? H v = some (source ls)) :
    (guarded condition heading body rest).write? H v =
      some (source (titled title entries ++ ls)) := by
  have hlines : (rows ([] :: heading) body).write? H v = _ :=
    write?_line (t := []) rfl (hheading _ hbody)
  rw [write?_guarded hcondition hlines hrest, source_append, titled]
  by_cases h : entries = []
  · rw [if_neg (by simp [hb, h]), if_pos h]
    rfl
  · rw [if_pos (hb.2 h), if_neg h]
    simp [Line.source, Line.empty]

theorem not_isEmpty_iff {α : Type} {lines : α → List Line} (xs : List α) (h : ∀ x, lines x ≠ []) :
    (!xs.isEmpty) = true ↔ xs.flatMap lines ≠ [] := by
  cases xs <;> simp [h]

variable {f : Fields} {rest : Form} {ls : List Line}

theorem write?_parameters (hexist : f.parametersExist = (!f.args.isEmpty || !f.kwargs.isEmpty))
    (hrest : rest.write? (helpers display) f.toValue = some (source ls)) :
    (parameters rest).write? (helpers display) f.toValue =
      some (source (titled "Parameters".toList (parameterLines f) ++ ls)) := by
  have hsome : f.parametersExist = true ↔ parameterLines f ≠ [] := by
    have hargs : (!f.args.isEmpty) = true ↔ f.args.flatMap argumentLines ≠ [] :=
      not_isEmpty_iff f.args (by simp [argumentLines])
    have hkwargs : (!f.kwargs.isEmpty) = true ↔ f.kwargs.flatMap keywordArgumentLines ≠ [] :=
      not_isEmpty_iff f.kwargs (by simp [keywordArgumentLines])
    rw [hexist, Bool.or_eq_true, hargs, hkwargs, parameterLines, ← not_and_or,
      ← List.append_eq_nil_iff]
  have hkwargs : (entries Names.kwargs keywordArgumentEntry .empty).write? (helpers display)
      f.toValue = some (source (f.kwargs.flatMap keywordArgumentLines ++ [])) :=
    write?_entries_lines rfl write?_keywordArgument rfl
  have hargs : (entries Names.args argumentEntry <| entries Names.kwargs keywordArgumentEntry
      .empty).write? (helpers display) f.toValue = some (source (parameterLines f)) := by
    rw [List.append_nil] at hkwargs
    exact write?_entries_lines rfl write?_argument hkwargs
  refine write?_titled rfl hsome (fun t ht => ?_) hargs hrest
  simp [rows, Form.write?, concat?, Cell.write?_text, ht]

theorem write?_products (hexist : f.outputExist = !f.output.isEmpty)
    (hrest : rest.write? (helpers display) f.toValue = some (source ls)) :
    (products rest).write? (helpers display) f.toValue =
      some (source (titled f.outputTitle (f.output.flatMap productLines) ++ ls)) := by
  have hsome : f.outputExist = true ↔ f.output.flatMap productLines ≠ [] :=
    hexist ▸ not_isEmpty_iff f.output (by simp [productLines])
  have houtput : (entries Names.output productEntry .empty).write? (helpers display) f.toValue =
      some (source (f.output.flatMap productLines ++ [])) :=
    write?_entries_lines rfl write?_product rfl
  have htitle : Cell.title.write? (helpers display) f.toValue = some f.outputTitle := rfl
  have hunderline : (Inline.call Names.underline Names.title).write? (helpers display) f.toValue =
    some (List.replicate f.outputTitle.length '-') := rfl
  rw [List.append_nil] at houtput
  refine write?_titled rfl hsome (fun t ht => ?_) houtput hrest
  simp [rows, Form.write?, concat?, htitle, hunderline, ht]

theorem write?_exceptions (hexist : f.raisesExist = !f.raises.isEmpty)
    (hrest : rest.write? (helpers display) f.toValue = some (source ls)) :
    (exceptions rest).write? (helpers display) f.toValue =
      some (source (titled "Raises".toList (f.raises.flatMap raiseLines) ++ ls)) := by
  have hsome : f.raisesExist = true ↔ f.raises.flatMap raiseLines ≠ [] :=
    hexist ▸ not_isEmpty_iff f.raises (by simp [raiseLines])
  have hraises : (entries Names.exceptions raiseEntry .empty).write? (helpers display) f.toValue =
      some (source (f.raises.flatMap raiseLines ++ [])) :=
    write?_entries_lines rfl write?_raise rfl
  rw [List.append_nil] at hraises
  refine write?_titled rfl hsome (fun t ht => ?_) hraises hrest
  simp [rows, Form.write?, concat?, Cell.write?_text, ht]

/-- The template writes the page of every definition. -/
theorem write?_form (d : Definition) (guess includeName : Bool) :
    let f := Fields.ofDefinition d guess includeName
    form.write? (helpers display) f.toValue = some (source (page f includeName)) := by
  intro f
  have hexceptions : (exceptions .empty).write? (helpers display) f.toValue =
      some (source (titled "Raises".toList (f.raises.flatMap raiseLines) ++ [])) :=
    write?_exceptions rfl rfl
  have hproducts := write?_products rfl hexceptions
  have hparameters := write?_parameters rfl hproducts
  have hsummary : (Inline.value Names.summary).write? (helpers display) f.toValue =
      some (summaryText f.name includeName) := rfl
  have hextended : (Inline.value Names.extendedSummary).write? (helpers display) f.toValue =
      some (placeholder "_extended_summary_".toList) := rfl
  rw [form, preamble]
  simp only [rows, List.foldr_cons, List.foldr_nil, Form.write?, List.map_cons, List.map_nil,
    concat?, hsummary, hextended, hparameters]
  simp [page, source_summaryLines]

/-! ### Tidiness -/

theorem isText_description {behind : Text} {slots : List Slot} (hbehind : IsPlain behind)
    (hslots : ∀ s ∈ slots, IsPlain s.content ∧ IsPlain s.behind) :
    (descriptionLine behind slots).IsText := by
  have hlead : IsPlain "    ".toList := by decide
  have hcontent : IsPlain "_description_".toList := by decide
  refine ⟨⟨hlead, fun s hs => ?_⟩, .inr (by simp [descriptionLine])⟩
  rcases List.mem_cons.1 hs with rfl | hs
  · exact ⟨hcontent, hbehind⟩
  · exact hslots s hs

theorem isText_parameter {name type behind : Text} (hname : IsPlain name) (htype : IsPlain type)
    (hbehind : IsPlain behind) : Line.IsText ⟨name ++ " : ".toList, [⟨type, behind⟩]⟩ where
  lead := hname.append (by decide) (by decide)
  slots := by simpa using ⟨htype, hbehind⟩
  visible := .inr (by simp)

theorem isText_argument {a : Argument} (ha : ∀ t ∈ a.texts, IsPlain t) :
    ∀ l ∈ argumentLines a, l.IsText := by
  have hname : IsPlain a.name := ha _ (by simp [Argument.texts])
  have htype := getD_of_forall (P := IsPlain) (by decide) fun t ht =>
    ha t (by simpa [Argument.texts] using .inr ht)
  simpa [argumentLines] using
    ⟨isText_parameter hname htype (by decide), isText_description (by decide) (by simp)⟩

theorem isText_keywordArgument {k : KeywordArgument} (hk : ∀ t ∈ k.texts, IsPlain t) :
    ∀ l ∈ keywordArgumentLines k, l.IsText := by
  have hname : IsPlain k.name := hk _ (by simp [KeywordArgument.texts])
  have hdefault : IsPlain k.default := hk _ (by simp [KeywordArgument.texts])
  have htype := getD_of_forall (P := IsPlain) (by decide) fun t ht =>
    hk t (by simpa [KeywordArgument.texts] using .inr (.inr ht))
  have hslots : ∀ s ∈ [(⟨k.default, []⟩ : Slot)], IsPlain s.content ∧ IsPlain s.behind := by
    simpa using ⟨hdefault, by decide⟩
  simpa [keywordArgumentLines] using
    ⟨isText_parameter hname htype (by decide), isText_description (by decide) hslots⟩

theorem isText_product {p : Product} (hp : ∀ t ∈ p.texts, IsPlain t) :
    ∀ l ∈ productLines p, l.IsText := by
  have htype := getD_of_forall (P := IsPlain) (by decide) fun t ht =>
    hp t (by simpa [Product.texts] using ht)
  have hnil : IsPlain [] := by decide
  have hline : Line.IsText ⟨[], [⟨p.type?.getD [], []⟩]⟩ :=
    ⟨⟨hnil, by simpa using ⟨htype, hnil⟩⟩, .inr (by simp)⟩
  simpa [productLines] using ⟨hline, isText_description (by decide) (by simp)⟩

theorem isText_raise {type : Text} (htype : IsPlain type) (hvisible : ¬isBlank type) :
    ∀ l ∈ raiseLines type, l.IsText := by
  have hline : Line.IsText ⟨type, []⟩ := ⟨⟨htype, by simp⟩, .inl hvisible⟩
  simpa [raiseLines] using ⟨hline, isText_description (by decide) (by simp)⟩

theorem isText_flatMap {α : Type} {lines : α → List Line} {xs : List α}
    (h : ∀ x ∈ xs, ∀ l ∈ lines x, l.IsText) : ∀ l ∈ xs.flatMap lines, l.IsText := by
  intro l hl
  obtain ⟨x, hx, hl⟩ := List.mem_flatMap.1 hl
  exact h x hx l hl

theorem isText_underline {title : Text} (hvisible : ¬isBlank title) :
    Line.IsText ⟨List.replicate title.length '-', []⟩ := by
  have hne : title.length ≠ 0 := by
    intro h
    rw [List.length_eq_zero_iff.1 h] at hvisible
    exact hvisible rfl
  refine ⟨⟨⟨by simp [List.mem_replicate], fun h => ?_⟩, by simp⟩, .inl fun h => ?_⟩
  · have hmem : '@' ∈ List.replicate title.length '-' := h.subset (by simp [marker])
    simp [List.mem_replicate] at hmem
  · have hspace := isBlank_iff.1 h '-' (List.mem_replicate.2 ⟨hne, rfl⟩)
    exact absurd hspace (by decide)

/-- A section behind a tidy page keeps it tidy. -/
theorem tidy_titled {ls entries : List Line} {title : Text} (hls : Tidy ls)
    (htitle : IsPlain title) (hvisible : ¬isBlank title) (hentries : ∀ l ∈ entries, l.IsText) :
    Tidy (ls ++ titled title entries) := by
  have hhead : Line.IsText ⟨title, []⟩ := ⟨⟨htitle, by simp⟩, .inl hvisible⟩
  rw [titled]
  by_cases h : entries = []
  · simpa [h] using hls
  · rw [if_neg h]
    exact hls.append_gap (.next hhead (.next (isText_underline hvisible) (.of_forall h hentries)))

theorem tidy_summaryLines {name : Text} (hname : IsPlain name) (includeName : Bool) :
    Tidy (summaryLines name includeName) := by
  have hnil : IsPlain [] := by decide
  have hline : ∀ {lead content : Text}, IsPlain lead → IsPlain content →
      Line.IsText ⟨lead, [⟨content, []⟩]⟩ := by
    intro lead content hlead hcontent
    exact ⟨⟨hlead, by simpa using ⟨hcontent, hnil⟩⟩, .inr (by simp)⟩
  have hlead : IsPlain (if includeName then name ++ [' '] else []) := by
    split
    · exact hname.append (by decide) (by decide)
    · exact hnil
  exact .gap (hline hlead (by decide)) (.one (hline hnil (by decide)))

/-- The page of plain texts is tidy if every exception can be seen. -/
theorem tidy_page {f : Fields} (hplain : ∀ t ∈ f.texts, IsPlain t)
    (hraises : ∀ t ∈ f.raises, ¬isBlank t) (htitle : IsPlain f.outputTitle)
    (hvisible : ¬isBlank f.outputTitle) (includeName : Bool) : Tidy (page f includeName) := by
  have hname : IsPlain f.name := hplain _ (by simp [Fields.texts])
  have hargs : ∀ l ∈ f.args.flatMap argumentLines, l.IsText :=
    isText_flatMap fun a ha => isText_argument fun t ht =>
      hplain t (Fields.mem_texts_of_mem_args ha ht)
  have hkwargs : ∀ l ∈ f.kwargs.flatMap keywordArgumentLines, l.IsText :=
    isText_flatMap fun k hk => isText_keywordArgument fun t ht =>
      hplain t (Fields.mem_texts_of_mem_kwargs hk ht)
  have houtput : ∀ l ∈ f.output.flatMap productLines, l.IsText :=
    isText_flatMap fun p hp => isText_product fun t ht =>
      hplain t (Fields.mem_texts_of_mem_output hp ht)
  have hexceptions : ∀ l ∈ f.raises.flatMap raiseLines, l.IsText :=
    isText_flatMap fun t ht =>
      isText_raise (hplain t (Fields.mem_texts_of_mem_raises ht)) (hraises t ht)
  have hparameters : ∀ l ∈ parameterLines f, l.IsText := by
    intro l hl
    rcases List.mem_append.1 hl with hl | hl
    · exact hargs l hl
    · exact hkwargs l hl
  have hfirst : Tidy (summaryLines f.name includeName ++
      titled "Parameters".toList (parameterLines f)) :=
    tidy_titled (tidy_summaryLines hname includeName) (by decide) (by decide) hparameters
  exact tidy_titled (tidy_titled hfirst htitle hvisible houtput) (by decide) (by decide) hexceptions

/-! ### Docstrings -/

theorem isPlain_of_isShown {ts : List Text} (h : ∀ t ∈ ts, IsPlain t) {u : Text}
    (hu : IsShown ts u) : IsPlain u := by
  rcases hu with rfl | ⟨t, ht, hu⟩
  · decide
  · exact (h t ht).of_isInfix hu

theorem tidy_page_ofDefinition {d : Definition} (hplain : ∀ t ∈ d.texts, IsPlain t)
    (hraises : ∀ t ∈ d.raises, ¬isBlank t) (guess includeName : Bool) :
    Tidy (page (Fields.ofDefinition d guess includeName) includeName) := by
  have htitle : IsPlain (Fields.ofDefinition d guess includeName).outputTitle ∧
      ¬isBlank (Fields.ofDefinition d guess includeName).outputTitle := by
    simp only [Fields.ofDefinition]
    split <;> decide
  exact tidy_page (fun t ht => isPlain_of_isShown hplain (isShown_of_mem_texts ht)) hraises
    htitle.1 htitle.2 includeName

/-- The standard template can be read, and the docstring of a definition with plain texts is its
page with the placeholders numbered in reading order, between quotes and indented. -/
theorem docstring_page {E : Engine} (hE : E.Documented (helpers E.display)) {o : Options}
    (ho : o.template = Style.numpy.template) {d : Definition} (hplain : ∀ t ∈ d.texts, IsPlain t)
    (hraises : ∀ t ∈ d.raises, ¬isBlank t) (indentation : Text) :
    ∃ g, Generator.ofOptions E o = .ok g ∧
      g.docstring d indentation =
        .ok (indent indentation (o.quote ++ (if o.startOnNewLine then ['\n'] else []) ++
          numbered 1 (page (Fields.ofDefinition d o.guessTypes o.includeName) o.includeName) ++
          o.quote)) := by
  have hform : o.template = form.source := by rw [ho, Style.template_eq, Style.form]
  obtain ⟨g, hg, rfl, hfill⟩ :=
    Generator.exists_fill hE hform (write?_form d o.guessTypes o.includeName)
  have htidy := tidy_page_ofDefinition hplain hraises g.options.guessTypes g.options.includeName
  exact ⟨g, hg, htidy.docstring_eq hfill indentation⟩

/-- A function with all sections and a type that is taken apart. -/
theorem docstring_page_scale :
    let o : Options :=
      { template := Style.numpy.template
        quote := "'''".toList
        startOnNewLine := true
        includeName := true
        guessTypes := true }
    let d : Definition :=
      { name := "scale".toList
        decorators := []
        args := [⟨"box".toList, some "Box".toList⟩]
        kwargs := [⟨"by".toList, some "int | None".toList, "None".toList⟩]
        returns := [⟨some "Tuple[Box, Dict[str, int]]".toList⟩]
        yields? := none
        raises := ["ValueError".toList] }
    ∃ g, Generator.ofOptions Engine.standard o = .ok g ∧
      g.docstring d "  ".toList = .ok (unlines (List.map String.toList
        ["  '''",
          "  scale $\x7b1:_summary_\x7d",
          "",
          "  $\x7b2:_extended_summary_\x7d",
          "",
          "  Parameters",
          "  ----------",
          "  box : $\x7b3:Box\x7d",
          "      $\x7b4:_description_\x7d",
          "  by : $\x7b5:int\x7d, optional",
          "      $\x7b6:_description_\x7d, by default $\x7b7:None\x7d",
          "",
          "  Returns",
          "  -------",
          "  $\x7b8:Box\x7d",
          "      $\x7b9:_description_\x7d",
          "  $\x7b10:Dict[str, int]\x7d",
          "      $\x7b11:_description_\x7d",
          "",
          "  Raises",
          "  ------",
          "  ValueError",
          "      $\x7b12:_description_\x7d",
          "  '''"])) := by
  intro o d
  obtain ⟨g, hg, hd⟩ :=
    docstring_page standard_documented (o := o) rfl (d := d) (by decide) (by decide) "  ".toList
  refine ⟨g, hg, ?_⟩
  rw [hd]
  refine congrArg Except.ok ?_
  decide +kernel

end Numpy

end DocSnippet.Docstring

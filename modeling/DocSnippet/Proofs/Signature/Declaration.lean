import DocSnippet.Definition.Parse
import DocSnippet.Proofs.Signature.Header
import DocSnippet.Proofs.Signature.Tokens

/-! Function declarations in one line. A declaration is a name, parameters and perhaps a result
annotation; its header is written in the usual way. Below such a header the definition is read back
as it was declared: the search finds the keyword of the header, the brackets and the arrow are cut
at the right places, and each parameter is read as what it declares. -/

namespace DocSnippet

open Text Source Definition

namespace Signature

structure IsResult (t : Text) : Prop where
  ne_nil : t ≠ []
  trimmed : trim t = t
  ne_none : t ≠ "None".toList
  not_quoted : ∀ c ∈ t.head?, ¬isQuote c
  chars : ∀ c ∈ t, c ≠ ':' ∧ c ≠ ')' ∧ c ≠ '\n'

namespace IsResult

variable {t : Text}

theorem trim_arrow (ht : IsResult t) : trim ('-' :: '>' :: ' ' :: t) = '-' :: '>' :: ' ' :: t :=
  trim_append_append (s := ['-', '>']) (by decide) ht.trimmed (by simp) ht.ne_nil [' ']

theorem unquote?_eq_none (ht : IsResult t) {q : Char} (hq : isQuote q) : unquote? q t = none := by
  obtain ⟨c, r, rfl⟩ := List.exists_cons_of_ne_nil ht.ne_nil
  have hne : q ≠ c := by
    rintro rfl
    exact ht.not_quoted q (by simp) hq
  simp [unquote?, after?, hne]

theorem resultType?_arrow (ht : IsResult t) : resultType? ('-' :: '>' :: ' ' :: t) = some t := by
  have hafter : after? ['-', '>'] ('-' :: '>' :: ' ' :: t) = some (' ' :: t) := rfl
  have hstart : trimStart (' ' :: t) = t :=
    trimStart_eq_self_iff.2 (trim_eq_self_iff.1 ht.trimmed).1
  have hline : t.all (· != '\n') = true := by
    rw [List.all_eq_true]
    intro c hc
    simpa using (ht.chars c hc).2.2
  have harrow : arrowType? ('-' :: '>' :: ' ' :: t) = some t := by
    simp only [arrowType?, ht.trim_arrow, hafter, hstart, hline, if_true, ht.trimmed, unquoted,
      ht.unquote?_eq_none (q := '"') rfl, ht.unquote?_eq_none (q := '\'') rfl, Option.getD_none]
  simp only [resultType?, harrow, ht.ne_nil, ht.ne_none, or_self, if_false]

end IsResult

structure Declaration where
  name : Text
  params : List Parameter
  result? : Option Text
  isName : IsName name
  isResult : ∀ t ∈ result?, IsResult t

namespace Declaration

variable (d : Declaration)

def paramText : Text := join [',', ' '] (d.params.map Parameter.text)

def arrow? : Option Text := d.result?.map fun t => '-' :: '>' :: ' ' :: t

def ending : Text := (d.arrow?.map fun a => ' ' :: a).getD [] ++ [':']

def afterDef : Text := ' ' :: (d.name ++ '(' :: (d.paramText ++ ')' :: d.ending))

def header : Text := defWord ++ d.afterDef

/-- The definition that a declaration with the given cleaned body denotes. -/
def definition (body : List Text) : Definition :=
  { name := d.name
    decorators := []
    args := d.params.filterMap Parameter.argument?
    kwargs := d.params.filterMap Parameter.keywordArgument?
    returns := returnsOf d.result? body
    yields? := yieldsOf d.result? body
    raises := body.filterMap raised? }

/-! ### The header -/

theorem ofHeader?_header {t : Text} (ht : MaybeAsync d.header t) :
    ofHeader? t = some ⟨d.paramText, d.arrow?⟩ :=
  ofHeader?_def d.isName d.paramText d.ending
    (notMem_endingOf fun r hr hc => ((d.isResult r hr).chars ')' hc).2.1 rfl)
    (ending?_endingOf fun r hr hc => ((d.isResult r hr).chars ':' hc).1 rfl) ht

theorem name?_header {t : Text} (ht : MaybeAsync d.header t) : name? t = some d.name :=
  name?_def d.isName d.paramText d.ending ht

/-! ### Tokens -/

theorem filterMap_paramTokens {β : Type} {f : Text → Option β} (hnil : f [] = none) :
    ((topParts ',' d.paramText).map trim).filterMap f =
      d.params.filterMap fun p => f p.text := by
  obtain ⟨ts, hne, hjoin, hts⟩ := exists_join_of_spells (spells_join (d.params.map Parameter.text))
  have hpart : ∀ t ∈ d.params.map Parameter.text, IsPart ',' t := by
    intro t ht
    obtain ⟨p, -, rfl⟩ := List.mem_map.1 ht
    exact p.isPart_text
  have hparts := visibleTexts_topParts hne hts hpart
  rw [paramText, hjoin, filterMap_map_trim hnil hparts, List.map_map, List.filterMap_map]
  congr 1
  funext p
  simp [p.trim_text]

theorem tokensOf_maybeAsync {t : Text} (ht : MaybeAsync d.header t) :
    tokensOf t = (topParts ',' d.paramText).map trim ++ d.arrow?.toList := by
  have harrow : d.arrow?.map trim = d.arrow? := by
    rw [arrow?]
    cases hr : d.result? with
    | none => rfl
    | some r => simp [(d.isResult r hr).trim_arrow]
  rw [tokensOf, d.ofHeader?_header ht, Option.map_some, Option.getD_some, tokens, harrow]

theorem filterMap_tokensOf {t : Text} (ht : MaybeAsync d.header t) {β : Type} {f : Text → Option β}
    (hnil : f [] = none) :
    (tokensOf t).filterMap f =
      (d.params.filterMap fun p => f p.text) ++ d.arrow?.toList.filterMap f := by
  rw [d.tokensOf_maybeAsync ht, List.filterMap_append, d.filterMap_paramTokens hnil]

theorem filterMap_arrow_eq_nil {β : Type} {f : Text → Option β}
    (hf : ∀ t, IsResult t → f ('-' :: '>' :: ' ' :: t) = none) :
    d.arrow?.toList.filterMap f = [] := by
  rw [arrow?]
  cases hr : d.result? with
  | none => rfl
  | some r => simp [hf r (d.isResult r hr)]

theorem classify_maybeAsync {t : Text} (ht : MaybeAsync d.header t) (body : List Text) :
    classify (tokensOf t) body d.name false = d.definition body := by
  have hdecorators : (tokensOf t).filterMap decorator? = [] := by
    rw [d.filterMap_tokensOf ht rfl, d.filterMap_arrow_eq_nil fun r hr => ?_]
    · simp [Parameter.decorator?_text]
    · simp [decorator?, hr.trim_arrow, after?]
  have hargs : (tokensOf t).filterMap Definition.argument? =
      d.params.filterMap Parameter.argument? := by
    rw [d.filterMap_tokensOf ht rfl, d.filterMap_arrow_eq_nil fun r hr => ?_]
    · simp [Parameter.argument?_text]
    · rw [Definition.argument?, hr.trim_arrow]
      rfl
  have hkwargs : (tokensOf t).filterMap Definition.keywordArgument? =
      d.params.filterMap Parameter.keywordArgument? := by
    rw [d.filterMap_tokensOf ht rfl, d.filterMap_arrow_eq_nil fun r hr => ?_]
    · simp [Parameter.keywordArgument?_text]
    · rw [Definition.keywordArgument?, hr.trim_arrow]
      rfl
  have hresult : (tokensOf t).findSome? resultType? = d.result? := by
    rw [← List.head?_filterMap, d.filterMap_tokensOf ht rfl, arrow?]
    cases hr : d.result? with
    | none => simp [Parameter.resultType?_text]
    | some r => simp [Parameter.resultType?_text, (d.isResult r hr).resultType?_arrow]
  simp only [classify, hdecorators, hargs, hkwargs, hresult, definition, Bool.false_eq_true,
    if_false]

/-! ### Documents -/

theorem ofHeader_maybeAsync {t : Text} (ht : MaybeAsync d.header t) (body : List Text) :
    ofHeader ⟨t, []⟩ body = d.definition body := by
  have hclass : isClassHeader t = false := ht.isClassHeader_eq_false rfl
  simp only [ofHeader, hclass, d.name?_header ht, Option.getD_some, d.classify_maybeAsync ht,
    Bool.false_eq_true, if_false]

/-- Below the header of a declaration, in a line of its own with any white space around it, the
definition is read back as it was declared. -/
theorem parse_below_header {document l : Text} {line : Nat}
    (hcomment : stripComment d.header = d.header) (hkeyword : LeadingKeywordOnly d.header)
    (hline : (lines document)[line]? = some l) (hl : trim l = d.header) :
    parse document (line + 1) = d.definition (Body.below document (line + 1)) := by
  obtain ⟨t, ht, habove⟩ := Header.above?_of_line hline hl rfl hcomment hkeyword
  rw [parse, habove]
  exact d.ofHeader_maybeAsync ht _

/-- A method with a receiver, a name that is like that of a truth value, an annotation, a default in
brackets and a quoted one with a comma. -/
def area : Declaration where
  name := "area".toList
  params :=
    [.ignored _ .self,
      .bare "is_flat".toList (by decide),
      .annotated "w".toList "Unit | int".toList (by decide)
        ⟨⟨'U', "nit | int".toList, rfl, rfl⟩, List.all_eq_true.1 rfl, by decide, by decide⟩,
      .ignored _ .star,
      .full "h".toList "Dict[str, int]".toList "dict(a=1, b=(2, 3))".toList (by decide)
        ⟨⟨'D', "ict[str, int]".toList, rfl, rfl⟩, List.all_eq_true.1 rfl, by decide, by decide⟩
        (by decide),
      .defaulted "unit".toList "'m, (=cm'".toList (by decide) (by decide)]
  result? := some "float".toList
  isName := by decide
  isResult := by
    rintro t ⟨⟩
    exact ⟨by decide, by decide, by decide, by simp [isQuote], by simp⟩

theorem parse_below_header_area :
    let document := "class Box:\n    ".toList ++ area.header ++
      " \n        if not w:\n            raise SizeError(w)\n        yield w\n\ndef side(): ...".toList
    parse document 2 =
      { name := "area".toList
        decorators := []
        args := [⟨"is_flat".toList, some "bool".toList⟩, ⟨"w".toList, some "Unit | int".toList⟩]
        kwargs := [⟨"h".toList, some "Dict[str, int]".toList, "dict(a=1, b=(2, 3))".toList⟩,
          ⟨"unit".toList, some "str".toList, "'m, (=cm'".toList⟩]
        returns := [⟨some "float".toList⟩]
        yields? := some ⟨some "Iterator[float]".toList⟩
        raises := ["SizeError".toList] } := by
  intro document
  have hkeyword : LeadingKeywordOnly area.header :=
    leadingKeywordOnly_of_lastKeyword? (by decide +kernel)
  have hline : (lines document)[1]? = some ("    ".toList ++ area.header ++ [' ']) := by
    decide +kernel
  have hbody : Body.below document 2 =
      ["if not w:".toList, "raise SizeError(w)".toList, "yield w".toList] := by decide +kernel
  rw [area.parse_below_header (by decide +kernel) hkeyword hline (by decide +kernel), hbody]
  decide +kernel

end Declaration

end Signature

end DocSnippet

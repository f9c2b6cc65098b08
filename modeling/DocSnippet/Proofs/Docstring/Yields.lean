import DocSnippet.Docstring.Fields
import DocSnippet.Proofs.Docstring.Expansion
import DocSnippet.Proofs.Docstring.Marker

/-! Results that are yielded. Where a body yields under a plain annotation, the annotation is put
into an iterator and taken out of it again, so that what is yielded is documented as if it were
returned. Where the body does not yield, the annotation alone decides, by the letters that it starts
with. These need not be a whole word: a class whose name goes on behind them is taken for an
iterator. -/

namespace DocSnippet.Docstring

open Text Definition

/-! ### Annotations and statements -/

theorem hasInfix_iff {p t : Text} : hasInfix p t ↔ p <:+: t := by
  induction t with
  | nil => simp [hasInfix]
  | cons c t ih => rw [hasInfix, Bool.or_eq_true, startsWith_iff, ih, List.infix_cons_iff]

theorem hasStatement_iff {keyword : Text} {body : List Text} :
    hasStatement keyword body ↔ ∃ l ∈ body, keyword <:+: l := by
  simp [hasStatement, hasInfix_iff]

theorem ne_nil_of_resultType? {tokens : List Text} {type : Text}
    (h : tokens.findSome? resultType? = some type) : type ≠ [] := by
  obtain ⟨token, -, htoken⟩ := List.exists_of_findSome?_eq_some h
  rw [resultType?] at htoken
  split at htoken
  next t ht =>
    split at htoken
    · simp at htoken
    next hne =>
      rw [← Option.some.inj htoken]
      exact fun h => hne (.inl h)
  · simp at htoken

theorem isPrefix_takeWhile_iff {word t : Text} (hword : ∀ c ∈ word, isWord c) :
    word <+: t.takeWhile isWord ↔ word <+: t := by
  constructor
  · exact fun h => h.trans (List.takeWhile_prefix isWord)
  · rintro ⟨rest, rfl⟩
    rw [List.takeWhile_append_of_pos hword]
    exact List.prefix_append word _

/-- Whether a type is taken for an iterator is seen from its leading word. -/
theorem isIteratorType_iff {type : Text} :
    isIteratorType type ↔
      generatorWord <+: type.takeWhile isWord ∨ iteratorWord <+: type.takeWhile isWord := by
  have hgenerator : ∀ c ∈ generatorWord, isWord c := List.all_eq_true.1 (by decide)
  have hiterator : ∀ c ∈ iteratorWord, isWord c := List.all_eq_true.1 (by decide)
  rw [isIteratorType, Bool.or_eq_true, startsWith_iff, startsWith_iff,
    isPrefix_takeWhile_iff hgenerator, isPrefix_takeWhile_iff hiterator]

section

variable {tokens body : List Text} {type : Text}
  (hresult : tokens.findSome? resultType? = some type) (name : Text)

include hresult

theorem yields?_classify :
    (classify tokens body name false).yields? =
      if isIteratorType type then some ⟨some type⟩
      else if hasStatement "yield ".toList body then
        some ⟨some (iteratorWord ++ ['['] ++ type ++ [']'])⟩
      else none := by
  show yieldsOf (tokens.findSome? resultType?) body = _
  rw [hresult]
  rfl

theorem returns_classify_of_iterator (htype : isIteratorType type) :
    (classify tokens body name false).returns =
      if hasStatement "return ".toList body then [⟨none⟩] else [] := by
  show returnsOf (tokens.findSome? resultType?) body = _
  rw [hresult, returnsOf, Option.filter_some, if_neg (by simp [htype])]

theorem returns_classify_of_plain (htype : ¬isIteratorType type) :
    (classify tokens body name false).returns = [⟨some type⟩] := by
  show returnsOf (tokens.findSome? resultType?) body = _
  rw [hresult, returnsOf, Option.filter_some, if_pos (by simp [htype])]

end

/-! ### Bodies that yield -/

/-- A type that is put into an iterator is taken out of it again. -/
theorem expandYields_wrapped {type : Text} (hne : type ≠ []) (htrim : trim type = type)
    (hline : '\n' ∉ type) (hpart : IsPart ',' type) :
    expandYields ⟨some (iteratorWord ++ ['['] ++ type ++ [']'])⟩ = expandReturns [⟨some type⟩] := by
  have hword : iteratorWord ∈ iteratorWords := by simp [iteratorWords]
  have hparts : ∀ p ∈ [type], IsPart ',' p ∧ '\n' ∉ p := by simp [hpart, hline]
  have hitem := itemType?_join hword hparts
  rw [memberType?_of_trim hne htrim] at hitem
  exact expandYields_of_itemType? hitem

/-- Where a body yields under an annotation that is not taken for an iterator, the values that are
yielded are those that would be returned, and they are the output. -/
theorem yields_as_returned {tokens body : List Text} {type : Text}
    (hresult : tokens.findSome? resultType? = some type) (htrim : trim type = type)
    (hline : '\n' ∉ type) (hpart : IsPart ',' type) (hplain : ¬isIteratorType type)
    (hyield : ∃ l ∈ body, "yield ".toList <:+: l) (name : Text) (guess includeName : Bool) :
    let d := classify tokens body name false
    let f := Fields.ofDefinition d guess includeName
    d.yields? = some ⟨some (iteratorWord ++ ['['] ++ type ++ [']'])⟩ ∧
      f.yields = f.returns ∧ f.returns = f.output ∧ f.outputTitle = "Yields".toList ∧
      f.output = (expandReturns [⟨some type⟩]).map (showProduct guess) := by
  intro d f
  have hyields : d.yields? = some ⟨some (iteratorWord ++ ['['] ++ type ++ [']'])⟩ := by
    rw [yields?_classify hresult, if_neg hplain, if_pos (hasStatement_iff.2 hyield)]
  have hreturns : d.returns = [⟨some type⟩] := returns_classify_of_plain hresult name hplain
  have hexpand := expandYields_wrapped (ne_nil_of_resultType? hresult) htrim hline hpart
  have hsome : d.yields?.isSome := by
    rw [hyields]
    rfl
  have hfreturns : f.returns = (expandReturns [⟨some type⟩]).map (showProduct guess) := by
    simp only [f, Fields.ofDefinition, hreturns]
  have hfyields : f.yields = (expandReturns [⟨some type⟩]).map (showProduct guess) := by
    simp only [f, Fields.ofDefinition, hyields, Option.map_some, Option.getD_some, hexpand]
  have houtput : f.output = f.yields := if_pos hsome
  exact ⟨hyields, by rw [hfyields, hfreturns], by rw [houtput, hfyields, hfreturns], if_pos hsome,
    by rw [houtput, hfyields]⟩

/-- A method that yields pairs, with a quoted annotation. -/
theorem yields_as_returned_pairs :
    let tokens := ["self".toList, "-> 'Tuple[int, Dict[str, int]]'".toList]
    let body := ["for k in self.keys:".toList, "yield k, self.table(k)".toList]
    let type := "Tuple[int, Dict[str, int]]".toList
    (tokens.findSome? resultType? = some type ∧ trim type = type ∧ '\n' ∉ type ∧ IsPart ',' type ∧
      ¬isIteratorType type ∧ ∃ l ∈ body, "yield ".toList <:+: l) ∧
    let f := Fields.ofDefinition (classify tokens body "pairs".toList false) true false
    f.yields = f.returns ∧ f.returns = f.output ∧ f.outputTitle = "Yields".toList ∧
      f.output = [⟨some "int".toList⟩, ⟨some "Dict[str, int]".toList⟩] := by
  intro tokens body type
  have hresult : tokens.findSome? resultType? = some type := by decide
  have hpart : IsPart ',' type := by decide
  have hyield : ∃ l ∈ body, "yield ".toList <:+: l := by decide
  obtain ⟨-, hyields, hreturns, htitle, houtput⟩ := yields_as_returned hresult (by decide)
    (by decide) hpart (by decide) hyield "pairs".toList true false
  refine ⟨⟨hresult, by decide, by decide, hpart, by decide, hyield⟩, hyields, hreturns, htitle, ?_⟩
  rw [houtput]
  decide

/-! ### Bodies that do not yield -/

/-- Where a body does not yield, a result is taken for one that is yielded exactly if the leading
word of its annotation begins with the word for a generator or an iterator. Then the annotation is
what is yielded, and what is returned has no type; otherwise the annotation is what is returned. -/
theorem yields_by_leading_word {tokens body : List Text} {type : Text}
    (hresult : tokens.findSome? resultType? = some type)
    (hyield : ∀ l ∈ body, ¬"yield ".toList <:+: l) (name : Text) :
    let d := classify tokens body name false
    let word := type.takeWhile isWord
    (d.yields?.isSome ↔ generatorWord <+: word ∨ iteratorWord <+: word) ∧
      (d.yields?.isSome → d.yields? = some ⟨some type⟩ ∧ ∀ p ∈ d.returns, p.type? = none) ∧
      (d.yields? = none → d.returns = [⟨some type⟩]) := by
  intro d word
  have hstatement : ¬hasStatement "yield ".toList body := by
    rw [hasStatement_iff]
    rintro ⟨l, hl, hinfix⟩
    exact hyield l hl hinfix
  have hyields : d.yields? = if isIteratorType type then some ⟨some type⟩ else none := by
    rw [yields?_classify hresult, if_neg hstatement]
  rw [← isIteratorType_iff, hyields]
  by_cases htype : isIteratorType type
  · have hreturns : d.returns = if hasStatement "return ".toList body then [⟨none⟩] else [] :=
      returns_classify_of_iterator hresult name htype
    have huntyped : ∀ p ∈ d.returns, p.type? = none := by
      rw [hreturns]
      split <;> simp
    simpa [htype] using huntyped
  · have hreturns : d.returns = [⟨some type⟩] := returns_classify_of_plain hresult name htype
    simp [htype, hreturns]

/-- Another class of the same module is returned, and a generator that is not subscripted is
yielded. -/
theorem yields_by_leading_word_iterable :
    let body := ["return iter(rows)".toList]
    let d := classify ["rows".toList, "-> Iterable[int]".toList] body "f".toList false
    let e := classify ["-> Generator".toList] body "g".toList false
    (["rows".toList, "-> Iterable[int]".toList].findSome? resultType? =
        some "Iterable[int]".toList ∧
      ["-> Generator".toList].findSome? resultType? = some "Generator".toList ∧
      ∀ l ∈ body, ¬"yield ".toList <:+: l) ∧
    (d.yields? = none ∧ d.returns = [⟨some "Iterable[int]".toList⟩]) ∧
      e.yields? = some ⟨some "Generator".toList⟩ := by
  intro body d e
  have hd : ["rows".toList, "-> Iterable[int]".toList].findSome? resultType? =
      some "Iterable[int]".toList := by decide
  have he : ["-> Generator".toList].findSome? resultType? = some "Generator".toList := by decide
  have hyield : ∀ l ∈ body, ¬"yield ".toList <:+: l := by decide
  obtain ⟨hdword, -, hdreturns⟩ := yields_by_leading_word hd hyield "f".toList
  obtain ⟨heword, heyields, -⟩ := yields_by_leading_word he hyield "g".toList
  have hdnone : d.yields? = none := by
    rw [← Option.not_isSome_iff_eq_none, hdword]
    decide
  exact ⟨⟨hd, he, hyield⟩, ⟨hdnone, hdreturns hdnone⟩, (heyields (heword.2 (by decide))).1⟩

/-- A class whose name only begins like that of an iterator is taken for one: what is returned loses
its type, and the class is documented as what is yielded. -/
theorem yields_by_part_of_word :
    let tokens := ["-> IteratorPool".toList]
    let body := ["return pool".toList]
    let type := "IteratorPool".toList
    let d := classify tokens body "pool".toList false
    (tokens.findSome? resultType? = some type ∧ ∀ l ∈ body, ¬"yield ".toList <:+: l) ∧
      (d.yields?.isSome ∧ type.takeWhile isWord ≠ generatorWord ∧
        type.takeWhile isWord ≠ iteratorWord) ∧
      d.yields? = some ⟨some type⟩ ∧ d.returns = [⟨none⟩] := by
  decide

end DocSnippet.Docstring

import DocSnippet.Definition.Parse
import DocSnippet.Proofs.Source.Dedent
import DocSnippet.Proofs.Source.Layout

/-! The attributes of a dataclass. They are read from every line of the class body, in line order,
and the indentation of a line has no part in it. So the parameters of the constructor are those that
the class level declares exactly if no deeper line looks like an attribute; an annotated variable of
a method is taken for one. -/

namespace DocSnippet.Definition

open Text Source

/-- The parameters that the attributes of a class body stand for, without and with a default. -/
def parametersOf (body : List Text) : List Argument × List KeywordArgument :=
  ((attributes body).filterMap Attribute.argument?,
    (attributes body).filterMap Attribute.keywordArgument?)

def Attribute.declared? (l : Text) : Option Attribute := Attribute.ofLine? (trim (stripComment l))

/-- A comment declares nothing, so cleaning can be left to the single line. -/
theorem attributes_cleanLines (ls : List Text) :
    attributes (cleanLines ls) = ls.filterMap Attribute.declared? := by
  induction ls with
  | nil => rfl
  | cons l ls ih =>
    rw [cleanLines_cons, List.filterMap_cons, Attribute.declared?, ← ih]
    by_cases hl : isCommentLine l
    · have hnone : Attribute.ofLine? [] = none := rfl
      rw [if_pos hl, trim_stripComment_of_isCommentLine hl, hnone]
    · rw [if_neg hl, attributes, List.filterMap_cons]
      rfl

/-! ### Lines that are left out -/

theorem length_attributes (as : List Attribute) :
    (as.filterMap Attribute.argument?).length + (as.filterMap Attribute.keywordArgument?).length =
      as.length := by
  induction as with
  | nil => rfl
  | cons a as ih =>
    cases a <;>
      simp only [List.filterMap_cons, Attribute.argument?, Attribute.keywordArgument?,
        List.length_cons] <;>
      omega

/-- Attributes that are left out are missed among the parameters. -/
theorem eq_of_sublist_of_parameters_eq {as bs : List Attribute} (h : List.Sublist as bs)
    (hargs : as.filterMap Attribute.argument? = bs.filterMap Attribute.argument?)
    (hkwargs : as.filterMap Attribute.keywordArgument? =
      bs.filterMap Attribute.keywordArgument?) : as = bs := by
  refine h.eq_of_length ?_
  rw [← length_attributes as, hargs, hkwargs, length_attributes]

theorem filterMap_filter_eq_iff {α β : Type} {f : α → Option β} {p : α → Bool} {xs : List α} :
    (xs.filter p).filterMap f = xs.filterMap f ↔ ∀ x ∈ xs, ¬p x → f x = none := by
  induction xs with
  | nil => simp
  | cons x xs ih =>
    rw [List.forall_mem_cons, ← ih]
    by_cases hx : p x
    · cases hf : f x <;> simp [hx, hf]
    · cases hf : f x with
      | none => simp [hx, hf]
      | some b =>
        -- the kept part of `xs` cannot make up for `b`
        have hle : ((xs.filter p).filterMap f).length ≤ (xs.filterMap f).length :=
          (List.filter_sublist.filterMap f).length_le
        simp only [List.filter_cons_of_neg hx, List.filterMap_cons_some hf, hx, not_false_eq_true,
          forall_true_left, reduceCtorEq, false_and, iff_false]
        intro heq
        rw [heq, List.length_cons] at hle
        omega

/-- The lines that a filter keeps declare the same parameters exactly if the others declare none. -/
theorem parametersOf_filter_eq_iff (p : Text → Bool) (ls : List Text) :
    parametersOf (cleanLines ls) = parametersOf (cleanLines (ls.filter p)) ↔
      ∀ l ∈ ls, ¬p l → Attribute.declared? l = none := by
  rw [← filterMap_filter_eq_iff, parametersOf, parametersOf, attributes_cleanLines,
    attributes_cleanLines, Prod.mk.injEq]
  constructor
  · rintro ⟨hargs, hkwargs⟩
    exact eq_of_sublist_of_parameters_eq (List.filter_sublist.filterMap _) hargs.symm hkwargs.symm
  · intro h
    rw [h]
    exact ⟨rfl, rfl⟩

/-! ### Dataclasses -/

theorem parameters_ofHeader {header : Header} (hclass : isClassHeader header.text)
    (hdataclass : (header.decorators.filterMap decoratorName?).any isDataclassName)
    (body : List Text) :
    ((ofHeader header body).args, (ofHeader header body).kwargs) = parametersOf body := by
  rw [ofHeader, if_pos hclass, if_pos hdataclass]
  rfl

/-- The parameters of a dataclass are the attributes in its whole body. They are those at class
level, in the lines that are indented exactly as the floor, if and only if no deeper line declares
an attribute. -/
theorem parse_dataclass {document : Text} {line : Nat} {header : Header}
    (habove : Header.above? document line = some header) (hclass : isClassHeader header.text)
    (hdataclass : (header.decorators.filterMap decoratorName?).any isDataclassName) :
    let ls := (lines document).drop line
    let body := Body.block (Body.floor ls) ls
    let level := body.filter fun l => indentWidth l = Body.floor ls
    let d := parse document line
    (d.args, d.kwargs) = parametersOf (cleanLines body) ∧
      ((d.args, d.kwargs) = parametersOf (cleanLines level) ↔
        ∀ l ∈ body, Body.floor ls < indentWidth l → Attribute.declared? l = none) := by
  intro ls body level d
  have hparse : d = ofHeader header (cleanLines body) := by
    simp only [d, parse, habove]
    rfl
  have hparameters : (d.args, d.kwargs) = parametersOf (cleanLines body) := by
    rw [hparse, parameters_ofHeader hclass hdataclass]
  refine ⟨hparameters, ?_⟩
  rw [hparameters, parametersOf_filter_eq_iff]
  refine forall₂_congr fun l hl => imp_congr_left ?_
  have hfloor := Body.le_indentWidth_of_mem_block hl
  rw [decide_eq_true_eq]
  omega

/-- A default over two lines, and a method with annotated parameters and a comment that looks like
an attribute. -/
theorem parse_dataclass_cart :
    let document := unlines (["@dataclasses.dataclass(frozen=True)", "class Cart:",
      "    total: int", "    tags: list = field(", "        default_factory=list)", "",
      "    def add(self, n: int):", "        price = 2 * n  # total: int",
      "        return price"].map String.toList)
    let header : Header := ⟨"class Cart:".toList, ["@dataclasses.dataclass(frozen=True)".toList]⟩
    let ls := (lines document).drop 2
    let body := Body.block (Body.floor ls) ls
    let level := body.filter fun l => indentWidth l = Body.floor ls
    let d := parse document 2
    (Header.above? document 2 = some header ∧ isClassHeader header.text ∧
      (header.decorators.filterMap decoratorName?).any isDataclassName ∧
      ∀ l ∈ body, Body.floor ls < indentWidth l → Attribute.declared? l = none) ∧
    (d.args, d.kwargs) = parametersOf (cleanLines level) ∧
      parametersOf (cleanLines level) = ([⟨"total".toList, some "int".toList⟩],
        [⟨"tags".toList, some "list".toList, "field(".toList⟩]) := by
  intro document header ls body level d
  have habove : Header.above? document 2 = some header := by decide +kernel
  have hdeeper : ∀ l ∈ body, Body.floor ls < indentWidth l → Attribute.declared? l = none := by
    decide +kernel
  exact ⟨⟨habove, by decide, by decide, hdeeper⟩,
    (parse_dataclass habove (by decide) (by decide)).2.2 hdeeper, by decide +kernel⟩

/-- A variable that a method annotates is taken for an attribute of the class. -/
theorem parse_dataclass_local_variable :
    let document := unlines (["@dataclass", "class Cart:", "    total: int",
      "    def add(self, n):", "        price: int = n",
      "        self.total += price"].map String.toList)
    let ls := (lines document).drop 2
    let body := Body.block (Body.floor ls) ls
    let level := body.filter fun l => indentWidth l = Body.floor ls
    let d := parse document 2
    Header.above? document 2 = some ⟨"class Cart:".toList, ["@dataclass".toList]⟩ ∧
      parametersOf (cleanLines level) = ([⟨"total".toList, some "int".toList⟩], []) ∧
      d.args = [⟨"total".toList, some "int".toList⟩] ∧
      d.kwargs = [⟨"price".toList, some "int".toList, "n".toList⟩] ∧
      (d.args, d.kwargs) ≠ parametersOf (cleanLines level) := by
  decide +kernel

end DocSnippet.Definition

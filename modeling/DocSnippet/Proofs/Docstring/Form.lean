import DocSnippet.Docstring.Helper
import DocSnippet.Docstring.Style
import DocSnippet.Proofs.Template.Form

/-! The templates of the built-in styles as forms, and what their parts write with the helpers of
docstrings. -/

namespace DocSnippet.Docstring

open Text Template

/-! ### Names -/

namespace Names

def placeholder : Name := ⟨"placeholder".toList, by decide +kernel⟩

def underline : Name := ⟨"underline".toList, by decide +kernel⟩

def summary : Name := ⟨"summary_placeholder".toList, by decide +kernel⟩

def extendedSummary : Name := ⟨"extended_summary_placeholder".toList, by decide +kernel⟩

def description : Name := ⟨"description_placeholder".toList, by decide +kernel⟩

def var : Name := ⟨"var".toList, by decide +kernel⟩

def type : Name := ⟨"type".toList, by decide +kernel⟩

def default : Name := ⟨"default".toList, by decide +kernel⟩

def title : Name := ⟨"output_title".toList, by decide +kernel⟩

def args : Name := ⟨"args".toList, by decide +kernel⟩

def kwargs : Name := ⟨"kwargs".toList, by decide +kernel⟩

def exceptions : Name := ⟨"exceptions".toList, by decide +kernel⟩

def output : Name := ⟨"output".toList, by decide +kernel⟩

def yields : Name := ⟨"yields".toList, by decide +kernel⟩

def returns : Name := ⟨"returns".toList, by decide +kernel⟩

def argsExist : Name := ⟨"args_exist".toList, by decide +kernel⟩

def kwargsExist : Name := ⟨"kwargs_exist".toList, by decide +kernel⟩

def parametersExist : Name := ⟨"parameters_exist".toList, by decide +kernel⟩

def exceptionsExist : Name := ⟨"exceptions_exist".toList, by decide +kernel⟩

def outputExist : Name := ⟨"output_exist".toList, by decide +kernel⟩

def yieldsExist : Name := ⟨"yields_exist".toList, by decide +kernel⟩

end Names

/-! ### Parts of lines -/

namespace Cell

def var : Inline := .value Names.var

def type : Inline := .value Names.type

def title : Inline := .value Names.title

def description : Inline := .value Names.description

def slot (n : Name) : Inline := .wrap Names.placeholder n

def typeSlot : Inline := slot Names.type

def defaultSlot : Inline := slot Names.default

end Cell

/-! ### Parts of templates -/

def rows (ls : List (List Inline)) (rest : Form) : Form := ls.foldr .line rest

def preamble (rest : Form) : Form :=
  rows [[.value Names.summary], [], [.value Names.extendedSummary]] rest

/-- A section behind an empty line, if the condition holds. -/
def guarded (condition : Name) (heading : List (List Inline)) (entries rest : Form) : Form :=
  .choose condition (rows ([] :: heading) entries) .empty rest

/-- Lines for every item of a list. -/
def entries (items : Name) (entry : List (List Inline)) (rest : Form) : Form :=
  .forEach items (rows entry .empty) rest

/-! ### Styles -/

open Cell

namespace Numpy

def descriptionRow : List Inline := [.text "    ".toList, description]

def argumentEntry : List (List Inline) := [[var, .text " : ".toList, typeSlot], descriptionRow]

def keywordArgumentEntry : List (List Inline) :=
  [[var, .text " : ".toList, typeSlot, .text ", optional".toList],
    [.text "    ".toList, description, .text ", by default ".toList, defaultSlot]]

def productEntry : List (List Inline) := [[typeSlot], descriptionRow]

def raiseEntry : List (List Inline) := [[type], descriptionRow]

def parameters (rest : Form) : Form :=
  guarded Names.parametersExist [[.text "Parameters".toList], [.text "----------".toList]]
    (entries Names.args argumentEntry <| entries Names.kwargs keywordArgumentEntry .empty) rest

def products (rest : Form) : Form :=
  guarded Names.outputExist [[title], [.call Names.underline Names.title]]
    (entries Names.output productEntry .empty) rest

def exceptions (rest : Form) : Form :=
  guarded Names.exceptionsExist [[.text "Raises".toList], [.text "------".toList]]
    (entries Names.exceptions raiseEntry .empty) rest

def form : Form := preamble <| parameters <| products <| exceptions .empty

end Numpy

namespace Google

def argumentEntry : List (List Inline) :=
  [[.text "    ".toList, var, .text " (".toList, typeSlot, .text "): ".toList, description]]

def keywordArgumentEntry : List (List Inline) :=
  [[.text "    ".toList, var, .text " (".toList, typeSlot, .text ", optional): ".toList,
    description, .text ". Defaults to ".toList, defaultSlot, .text ".".toList]]

def productEntry : List (List Inline) :=
  [[.text "    ".toList, typeSlot, .text ": ".toList, description]]

def raiseEntry : List (List Inline) := [[.text "    ".toList, type, .text ": ".toList, description]]

def form : Form :=
  preamble <|
  guarded Names.parametersExist [[.text "Args:".toList]]
    (entries Names.args argumentEntry <| entries Names.kwargs keywordArgumentEntry .empty) <|
  guarded Names.exceptionsExist [[.text "Raises:".toList]]
    (entries Names.exceptions raiseEntry .empty) <|
  guarded Names.outputExist [[title, .text ":".toList]] (entries Names.output productEntry .empty)
    .empty

end Google

namespace Sphinx

def argumentEntry : List (List Inline) :=
  [[.text ":param ".toList, var, .text ": ".toList, description],
    [.text ":type ".toList, var, .text ": ".toList, typeSlot]]

def keywordArgumentEntry : List (List Inline) :=
  [[.text ":param ".toList, var, .text ": ".toList, description, .text ", defaults to ".toList,
      defaultSlot],
    [.text ":type ".toList, var, .text ": ".toList, typeSlot, .text ", optional".toList]]

def raiseEntry : List (List Inline) :=
  [[.text ":raises ".toList, type, .text ": ".toList, description]]

def yieldEntry : List (List Inline) :=
  [[.text ":yield: ".toList, description], [.text ":ytype: ".toList, typeSlot]]

def returnEntry : List (List Inline) :=
  [[.text ":return: ".toList, description], [.text ":rtype: ".toList, typeSlot]]

def form : Form :=
  preamble <|
  .line [] <|
  entries Names.args argumentEntry <|
  entries Names.kwargs keywordArgumentEntry <|
  entries Names.exceptions raiseEntry <|
  .choose Names.yieldsExist (entries Names.yields yieldEntry .empty)
    (entries Names.returns returnEntry .empty) .empty

end Sphinx

namespace Pep257

def argumentEntry : List (List Inline) := [[var, .text " -- ".toList, description]]

def keywordArgumentEntry : List (List Inline) :=
  [[var, .text " -- ".toList, description, .text " (default: ".toList, defaultSlot,
    .text ")".toList]]

def productEntry : List (List Inline) := [[typeSlot, .text " -- ".toList, description]]

def raiseEntry : List (List Inline) := [[type, .text " -- ".toList, description]]

def form : Form :=
  preamble <|
  guarded Names.argsExist [[.text "Arguments:".toList]]
    (entries Names.args argumentEntry .empty) <|
  guarded Names.kwargsExist [[.text "Keyword Arguments:".toList]]
    (entries Names.kwargs keywordArgumentEntry .empty) <|
  guarded Names.exceptionsExist [[.text "Raises:".toList]]
    (entries Names.exceptions raiseEntry .empty) <|
  guarded Names.outputExist [[title, .text ":".toList]] (entries Names.output productEntry .empty)
    .empty

end Pep257

namespace OneLineSphinx

def argumentEntry : List (List Inline) :=
  [[.text ":param ".toList, typeSlot, .text " ".toList, var, .text ": ".toList, description]]

def keywordArgumentEntry : List (List Inline) :=
  [[.text ":param ".toList, typeSlot, .text " ".toList, var, .text ": ".toList, description,
    .text ", defaults to ".toList, defaultSlot]]

def form : Form :=
  rows [[.value Names.summary], []] <|
  entries Names.args argumentEntry <|
  entries Names.kwargs keywordArgumentEntry <|
  entries Names.exceptions Sphinx.raiseEntry <|
  entries Names.output Sphinx.returnEntry .empty

end OneLineSphinx

def Style.form : Style → Form
  | .numpy => Numpy.form
  | .google => Google.form
  | .sphinx => Sphinx.form
  | .pep257 => Pep257.form
  | .oneLineSphinx => OneLineSphinx.form

theorem Style.template_eq (s : Style) : s.template = s.form.source := by
  cases s <;> decide +kernel

/-! ### What the parts write -/

variable {display : Value → Text} {v : Value}

theorem Cell.write?_text {H : Helpers} {t : Text} {h : t.all isLiteral} :
    (Inline.text t h).write? H v = some t := rfl

theorem Cell.write?_slot {n : Name} {t : Text} (h : n.write? (helpers display) v = some t) :
    (slot n).write? (helpers display) v = some (placeholder t) := by
  simp only [slot, Inline.write?, h]
  rfl

theorem Cell.write?_description :
    description.write? (helpers display) v = some (placeholder "_description_".toList) := rfl

variable {H : Helpers} {rest : Form} {t u : Text}

theorem write?_line {pieces : List Inline}
    (hpieces : concat? (pieces.map fun i => i.write? H v) = some t)
    (hrest : rest.write? H v = some u) :
    (Form.line pieces rest).write? H v = some (t ++ '\n' :: u) := by
  rw [Form.write?, hpieces, hrest]

theorem write?_guarded {condition : Name} {b : Bool} {heading : List (List Inline)} {body : Form}
    (hb : v.field? condition.word = some (.bool b))
    (hbody : (rows ([] :: heading) body).write? H v = some t) (hrest : rest.write? H v = some u) :
    (guarded condition heading body rest).write? H v = some ((if b then t else []) ++ u) := by
  rw [guarded, Form.write?, hb, hrest]
  cases b with
  | true => simp only [if_true, hbody, Option.map_some]
  | false => rfl

theorem write?_entries {items : Name} {entry : List (List Inline)} {α : Type} {item : α → Value}
    {xs : List α} {f : α → Text} (hitems : v.field? items.word = some (.list (xs.map item)))
    (hentry : ∀ x ∈ xs, (rows entry .empty).write? H (item x) = some (f x))
    (hrest : rest.write? H v = some u) :
    (entries items entry rest).write? H v = some (xs.flatMap f ++ u) := by
  rw [entries, Form.write?, hitems, hrest]
  simp only [List.map_map, concat?_map (f := _ ∘ item) hentry, Option.map_some]

end DocSnippet.Docstring

import DocSnippet.Template.Value

/-! The syntax of templates as trees. -/

namespace DocSnippet.Template

/-- Where a path starts: at the value of the block, or of the block that lies `up` levels further
out; at the value of the whole template; or at a variable of a loop. -/
inductive Origin
  | here (up : Nat)
  | root
  | loop (up : Nat)

structure Path where
  origin : Origin
  keys : List Text

inductive Operand
  | path (p : Path)
  | literal (v : Value)
  | option (key : Text) (value : Operand)
  | call (helper : Text) (operands : List Operand)

/-- A node of a template. A block has a body, and an inverse for the case that the body does not
apply; a section stands for a partial template and holds what is written without it. -/
inductive Node
  | text (t : Text)
  | value (name : Text) (operand : Operand)
  | call (helper : Text) (operands : List Operand)
  | block (helper : Text) (operands : List Operand) (params : List Text) (body inverse : List Node)
  | insert (name : Text)
  | section (name : Text) (body : List Node)

end DocSnippet.Template

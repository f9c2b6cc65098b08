import DocSnippet.Template.Builtin
import DocSnippet.Template.Parse

/-! Filling in a template: the text that its nodes write in a scope, and the engine that reads and
fills in templates with tags in double braces. The helpers of a program come before those of the
engine. -/

namespace DocSnippet.Template

/-- The cause of a call of a helper that nobody knows. -/
def unknownHelper {α : Type} (name : Text) : Except Text α :=
  .error ("helper not found: ".toList ++ name)

section Nodes

variable (H : Helpers)

mutual

def Operand.eval : Operand → Scope → Except Text Value
  | .path p, s => s.resolve p
  | .literal v, _ => .ok v
  | .option _ o, s => o.eval s
  | .call name os, s =>
    match evalAll os s with
    | .error e => .error e
    | .ok ops =>
      match H.lookup name with
      | some h => (h.call ops.values none).map .text
      | none =>
        match Builtin.ofName? name with
        | some h => h.value name ops s
        | none => unknownHelper name

def evalAll : List Operand → Scope → Except Text Operands
  | [], _ => .ok ⟨[], []⟩
  | o :: os, s =>
    match o.eval s, evalAll os s with
    | .ok v, .ok rest =>
      match o with
      | .option key _ => .ok ⟨rest.values, (key, v) :: rest.options⟩
      | _ => .ok ⟨v :: rest.values, rest.options⟩
    | .error e, _ => .error e
    | _, .error e => .error e

end

/-- A call of a helper, in a block if `body?` is present. -/
def renderCall (name : Text) (operands : List Operand) (params : List Text) (body? : Option Body)
    (inverse : Body) (s : Scope) : Except Text Text :=
  match evalAll H operands s with
  | .error e => .error e
  | .ok ops =>
    match H.lookup name with
    | some h => h.call ops.values (body?.map (· s))
    | none =>
      match Builtin.ofName? name with
      | some h => h.write name ops params body? inverse s
      | none => unknownHelper name

mutual

/-- The text that a node writes. A name alone calls the helper of that name, if there is one. -/
def Node.render : Node → Scope → Except Text Text
  | .text t, _ => .ok t
  | .value name operand, s =>
    if (H.lookup name).isSome || (Builtin.ofName? name).isSome then
      renderCall H name [] [] none .empty s
    else (operand.eval H s).map Value.display
  | .call helper operands, s => renderCall H helper operands [] none .empty s
  | .block helper operands params body inverse, s =>
    renderCall H helper operands params (some (renderAll body)) (renderAll inverse) s
  | .insert name, _ => .error ("partial template not found: ".toList ++ name)
  | .section _ body, s => renderAll body s

def renderAll : List Node → Scope → Except Text Text
  | [], _ => .ok []
  | n :: ns, s =>
    match n.render s with
    | .error e => .error e
    | .ok t =>
      match renderAll ns s with
      | .error e => .error e
      | .ok u => .ok (t ++ u)

end

def render (template : List Node) (v : Value) : Except Text Text :=
  renderAll H template (.start v)

end Nodes

/-- The engine for templates with tags in double braces. -/
def Engine.standard : Engine where
  Program := List Node
  read t :=
    match parse? t with
    | some nodes => .ok nodes
    | none => .error "a tag or a block cannot be read".toList
  write := render
  display := Value.display

end DocSnippet.Template

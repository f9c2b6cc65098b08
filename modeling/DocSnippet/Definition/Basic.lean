import DocSnippet.Text.Basic

/-! What is known about a definition: its parameters, what it produces and what it raises. -/

namespace DocSnippet

structure Argument where
  name : Text
  type? : Option Text
  deriving DecidableEq

structure KeywordArgument where
  name : Text
  type? : Option Text
  default : Text
  deriving DecidableEq

structure Product where
  -- absent where something is returned or yielded and nothing tells its type
  type? : Option Text
  deriving DecidableEq

structure Definition where
  name : Text
  decorators : List Text
  args : List Argument
  kwargs : List KeywordArgument
  returns : List Product
  yields? : Option Product
  raises : List Text
  deriving DecidableEq

namespace Definition

def empty : Definition := ⟨[], [], [], [], [], none, []⟩

/-- Whether nothing is known that a docstring could tell. -/
def isEmpty (d : Definition) : Bool :=
  d.name.isEmpty && d.args.isEmpty && d.kwargs.isEmpty && d.returns.isEmpty && d.yields?.isNone &&
    d.raises.isEmpty

end Definition

end DocSnippet

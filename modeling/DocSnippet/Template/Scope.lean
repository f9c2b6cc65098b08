import DocSnippet.Template.Tree
import DocSnippet.Text.Number

/-! What names mean while a template is filled in. Each block with a value of its own adds a frame;
a path is followed from one of the frames. -/

namespace DocSnippet.Template

open Text

structure Frame where
  base : Value
  loop : List (Text × Value)
  params : List (Text × Value)

structure Scope where
  root : Value
  frames : List Frame

namespace Value

/-- The value under a key. Nothing is found under a key that is absent, and a list has indices
only. -/
def get (v : Value) (key : Text) : Except Text Value :=
  match v with
  | .list items =>
    match unsigned? key with
    | some i => .ok (items.getD i .null)
    | none => .error ("not an index: ".toList ++ key)
  | .record fields => .ok ((fields.lookup key).getD .null)
  | _ => .ok .null

/-- The value found by following keys one after another. -/
def follow (v : Value) : List Text → Except Text Value
  | [] => .ok v
  | k :: ks =>
    match v.get k with
    | .ok w => w.follow ks
    | .error e => .error e

end Value

namespace Scope

def start (v : Value) : Scope := ⟨v, [⟨v, [], []⟩]⟩

def push (s : Scope) (f : Frame) : Scope := { s with frames := f :: s.frames }

/-- The frame `up` levels out, or the innermost one if there are not that many. -/
def frame (s : Scope) (up : Nat) : Value :=
  match s.frames[up]? with
  | some f => f.base
  | none => (s.frames.head?.map Frame.base).getD s.root

def param? (s : Scope) (name : Text) : Option Value :=
  s.frames.findSome? fun f => f.params.lookup name

/-- The value of a path. A name given by a block counts before the keys of a record. -/
def resolve (s : Scope) (p : Path) : Except Text Value :=
  match p.origin, p.keys with
  | .root, keys => s.root.follow keys
  | .loop up, name :: _ => .ok ((s.frames[up]?.bind fun f => f.loop.lookup name).getD .null)
  | .loop up, [] => .ok (s.frame up)
  | .here up, [] => .ok (s.frame up)
  | .here up, name :: keys =>
    match s.param? name with
    | some v => v.follow keys
    | none => (s.frame up).follow (name :: keys)

end Scope

end DocSnippet.Template

import DocSnippet.Settings.Toml.Basic

/-! The paths that a settings file has declared so far. A path holds a value, a table or a row of
tables. A table springs up by itself where a longer path is declared; a header may define it later,
once, and a dotted key may go on only in a table that sprang up by a dotted key. -/

namespace DocSnippet.Toml

/-- What a path holds. A table is `defined` by a header and `dotted` if a dotted key made it. -/
inductive Item
  | value (v : Value)
  | table (defined dotted : Bool)
  | tables
  deriving DecidableEq

structure Declared where
  items : List (List Text × Item)

namespace Declared

def empty : Declared := ⟨[]⟩

def get? (d : Declared) (path : List Text) : Option Item := d.items.lookup path

def set (d : Declared) (path : List Text) (item : Item) : Declared :=
  ⟨(path, item) :: d.items.filter fun i => i.1 != path⟩

def clearBelow (d : Declared) (path : List Text) : Declared :=
  ⟨d.items.filter fun i => !(path.isPrefixOf i.1 && i.1 != path)⟩

/-- Goes down from a table along keys and makes tables that are absent. A value has nothing below
it, and dotted keys do not enter a table that a header defines. -/
def descend (dotted : Bool) : List Text → List Text → Declared → Option Declared
  | _, [], d => some d
  | base, k :: ks, d =>
    let path := base ++ [k]
    match d.get? path with
    | none => descend dotted path ks (d.set path (.table false dotted))
    | some (.value _) => none
    | some .tables => descend dotted path ks d
    | some (.table defined _) => if dotted && defined then none else descend dotted path ks d

/-- Whether a key with the given keys before its last one may be set in the table they lead to. -/
def accepts (d : Declared) (table keys : List Text) : Bool :=
  match keys with
  | [] => true
  | keys =>
    match d.get? (table ++ keys) with
    | some (.table _ dotted) => dotted
    | _ => false

/-- Sets a dotted key below a table. No path is set twice. -/
def assign (d : Declared) (table key : List Text) (v : Value) : Option Declared := do
  let d ← descend true table key.dropLast d
  if d.accepts table key.dropLast ∧ (d.get? (table ++ key)).isNone then
    some (d.set (table ++ key) (.value v))
  else none

def defineTable (d : Declared) (path : List Text) : Option Declared := do
  let d ← descend false [] path.dropLast d
  match d.get? path with
  | none => some (d.set path (.table true false))
  | some (.table false false) => some (d.set path (.table true false))
  | _ => none

/-- Adds a table to a row by a header. What the table before it held is out of reach. -/
def defineTables (d : Declared) (path : List Text) : Option Declared := do
  let d ← descend false [] path.dropLast d
  match d.get? path with
  | none => some (d.set path .tables)
  | some .tables => some (d.clearBelow path)
  | _ => none

def top (d : Declared) : List (Text × Value) :=
  d.items.filterMap fun i =>
    match i.1, i.2 with
    | [k], .value v => some (k, v)
    | [k], _ => some (k, .other)
    | _, _ => none

end Declared

end DocSnippet.Toml

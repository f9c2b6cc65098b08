import DocSnippet.Template.Piece

/-! Templates from text: the pieces are nested into blocks. -/

namespace DocSnippet.Template

/-- The pieces behind the tag that closes `name`. -/
def closed? (name : Text) : List Piece → Option (List Piece)
  | .tag mark _ :: ps =>
    match mark.tag with
    | .closing w => if w = name then some ps else none
    | _ => none
  | _ => none

mutual

/-- The nodes up to a tag that closes or divides a block, and the pieces from that tag on. -/
def nodes? : Nat → List Piece → Option (List Node × List Piece)
  | 0, _ => none
  | _ + 1, [] => some ([], [])
  | fuel + 1, .run t :: ps => (nodes? fuel ps).map fun (ns, r) => (.text t :: ns, r)
  | fuel + 1, .tag mark alone :: ps =>
    match mark.tag with
    | .comment => nodes? fuel ps
    | .value name o => (nodes? fuel ps).map fun (ns, r) => (.value name o :: ns, r)
    | .call helper os => (nodes? fuel ps).map fun (ns, r) => (.call helper os :: ns, r)
    | .insert name => (nodes? fuel ps).map fun (ns, r) => (.insert name :: ns, r)
    | .opening c => do
      let (body, r) ← nodes? fuel ps
      let (inverse, r) ← inverse? fuel c.helper r
      let (ns, r) ← nodes? fuel r
      some (.block c.helper c.operands c.params body inverse :: ns, r)
    | .sectionOpening name => do
      let (body, r) ← nodes? fuel ps
      let r ← closed? name r
      let (ns, r) ← nodes? fuel r
      some (.section name body :: ns, r)
    | .orElse _ => some ([], .tag mark alone :: ps)
    | .closing _ => some ([], .tag mark alone :: ps)

/-- The rest of the block `name` from its first division or its end on: the inverse, and the pieces
behind the block. A division with a head is a block of its own inside the inverse. -/
def inverse? : Nat → Text → List Piece → Option (List Node × List Piece)
  | 0, _, _ => none
  | _ + 1, _, [] => none
  | _ + 1, _, .run _ :: _ => none
  | fuel + 1, name, .tag mark alone :: ps =>
    match mark.tag with
    | .orElse (some c) => do
      let (body, r) ← nodes? fuel ps
      let (inverse, r) ← inverse? fuel name r
      some ([.block c.helper c.operands c.params body inverse], r)
    | .orElse none => do
      let (body, r) ← nodes? fuel ps
      let r ← closed? name r
      some (body, r)
    | _ => (closed? name (.tag mark alone :: ps)).map fun r => ([], r)

end

/-- The template that a text denotes, or `none` if a tag cannot be read, a block is not closed or
closed by another name, or a tag divides or closes no block. -/
def parse? (t : Text) : Option (List Node) := do
  let ps ← pieces? t
  let (ns, rest) ← nodes? (2 * ps.length + 2) (layout ⟨false, false⟩ ps)
  if rest.isEmpty then some ns else none

end DocSnippet.Template

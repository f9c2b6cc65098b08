import DocSnippet.Files.Path
import DocSnippet.Files.ReadError

/-! A file system held in memory: the files below one directory, which is the working directory. -/

namespace DocSnippet.Files

open Text

inductive Content
  | text (t : Text)
  | bytes (b : List UInt8)

def Content.read : Content → Except ReadError Text
  | .text t => .ok t
  | .bytes b =>
    match String.fromUTF8? ⟨b.toArray⟩ with
    | some s => .ok s.toList
    | none => .error .notText

structure File where
  path : List Text
  content : Content

structure Tree where
  root : Text
  files : List File

namespace Tree

inductive Entry
  | file (f : File)
  | directory

/-- The entry with the given components. Every beginning of a file's path is a directory. -/
def entry? (t : Tree) (path : List Text) : Option Entry :=
  match t.files.find? fun f => f.path == path with
  | some f => some (.file f)
  | none =>
    if path.isEmpty || t.files.any fun f => path.isPrefixOf f.path then some .directory else none

/-- What a path leads to above the directory, where nothing is known but that there are
directories. -/
def outside (cs : List Text) : ReadError :=
  if cs.all fun c => c == [] || c == ['.'] || c == ['.', '.'] then .isDirectory else .notFound

/-- Follows components from a directory. Only a directory has entries, and two points lead to the
directory above. -/
def walk (t : Tree) : List Text → List Text → Except ReadError (List Text)
  | here, [] => .ok here
  | here, c :: cs =>
    match t.entry? here with
    | none => .error .notFound
    | some (.file _) => .error .notDirectory
    | some .directory =>
      if c = [] ∨ c = ['.'] then walk t here cs
      else if c = ['.', '.'] then
        if here.isEmpty then .error (outside cs) else walk t here.dropLast cs
      else if (t.entry? (here ++ [c])).isSome then walk t (here ++ [c]) cs
      else .error .notFound

def below? (t : Tree) : Path → Option (List Text)
  | .relative p => if p.isEmpty then none else some (splitOn '/' p)
  | .absolute p => if p = t.root then some [] else (after? (t.root ++ ['/']) p).map (splitOn '/')

/-- The components of the entry that a path leads to. Outside the directory there is nothing. -/
def locate (t : Tree) (p : Path) : Except ReadError (List Text) :=
  match t.below? p with
  | some cs => t.walk [] cs
  | none => if p.text.isEmpty then .error .notFound else .error (outside (splitOn '/' p.text))

def read (t : Tree) (p : Path) : Except ReadError Text :=
  match t.locate p with
  | .error e => .error e
  | .ok cs =>
    match t.entry? cs with
    | some (.file f) => f.content.read
    | some .directory => .error .isDirectory
    | none => .error .notFound

def has (t : Tree) (p : Path) : Bool :=
  match t.locate p with
  | .ok _ => true
  | .error e => e = .isDirectory

def canonical? (t : Tree) (p : Path) : Option Path :=
  match t.locate p with
  | .ok cs => some (.absolute (cs.foldl (fun d c => d ++ ['/'] ++ c) t.root))
  | .error .isDirectory => some p
  | .error _ => none

def disk (t : Tree) : Disk where
  cwd := .ok (.absolute t.root)
  has := t.has
  read p := (t.read p).mapError ReadError.message
  canonical? := t.canonical?

def ofList (root : Text) (files : List (Text × Content)) : Tree :=
  ⟨root, files.map fun f => ⟨Path.components f.1, f.2⟩⟩

end Tree

end DocSnippet.Files

import DocSnippet.Text.Basic

/-! Paths, and what the program can ask a file system. -/

namespace DocSnippet.Files

open Text

inductive Path
  | absolute (t : Text)
  | relative (t : Text)
  deriving DecidableEq

namespace Path

/-- A path with a slash at its head is absolute. -/
def ofText (t : Text) : Path := if t.head? = some '/' then .absolute t else .relative t

def text : Path → Text
  | .absolute t => t
  | .relative t => t

def isAbsolute : Path → Bool
  | .absolute _ => true
  | .relative _ => false

def glue (a b : Text) : Text := if a.getLast? = some '/' then a ++ b else a ++ ['/'] ++ b

/-- A path below a directory. An absolute path stands alone. -/
def join (base : Path) (p : Path) : Path :=
  match p with
  | .absolute t => .absolute t
  | .relative t =>
    match base with
    | .absolute b => .absolute (glue b t)
    | .relative b => .relative (if b.isEmpty then t else glue b t)

/-- The components of a path. Empty ones and single points are left out. -/
def components (t : Text) : List Text := (splitOn '/' t).filter fun c => !(c == [] || c == ['.'])

/-- The slashes at the head of an absolute path. Two of them stay, any other number counts as one.
-/
def leadingSlashes (t : Text) : Text :=
  if startsWith ['/', '/'] t && !startsWith ['/', '/', '/'] t then ['/', '/'] else ['/']

/-- The components of a path one below the other, from `start` on. A slash at the end stays. -/
def componentsFrom (start : Path) (t : Text) : Path :=
  let last : List Text := if t.getLast? = some '/' then [[]] else []
  (components t ++ last).foldl (fun d c => d.join (.relative c)) start

/-- An absolute form of a path. A relative path starts at the working directory, if there is one,
and an empty path has no absolute form. -/
def absolute? (p : Path) (cwd : Except Text Path) : Option Path :=
  if p.text.isEmpty then none
  else
    match p, cwd with
    | .absolute t, _ => some (componentsFrom (.absolute (leadingSlashes t)) t)
    | .relative t, .ok d => some (componentsFrom d t)
    | .relative _, .error _ => none

end Path

/-- A file system. Where it fails to give the working directory or the text of a file it tells the
cause; a canonical path is absolute and without detours. -/
structure Disk where
  cwd : Except Text Path
  has : Path → Bool
  read : Path → Except Text Text
  canonical? : Path → Option Path

end DocSnippet.Files

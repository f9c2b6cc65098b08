import DocSnippet.CommandLine.Run
import DocSnippet.Files.ReadError

/-! The program: it reads the files that a request can need and prints what the run leaves
behind. -/

namespace DocSnippet.CommandLine

open Files

/-- Why the system did not give a file. -/
def causeOf : IO.Error → Text
  | .inappropriateType _ code _ =>
    if code = 20 then ReadError.notDirectory.message else ReadError.isDirectory.message
  | .noSuchThing _ code _ =>
    if code = 20 then ReadError.notDirectory.message else ReadError.notFound.message
  | e => e.toString.toList

def fetch (p : Path) : IO (Except Text Text) := do
  try
    let bytes ← IO.FS.readBinFile (String.ofList p.text)
    match String.fromUTF8? bytes with
    | some s => return .ok s.toList
    | none => return .error ReadError.notText.message
  catch e => return .error (causeOf e)

/-- What a path leads to, without detours. -/
def fetchCanonical (p : Path) : IO (Option Path) := do
  try
    let real ← IO.FS.realPath (String.ofList p.text)
    return some (.ofText real.toString.toList)
  catch _ => return none

def fetchDirectory : IO (Except Text Path) := do
  try
    return .ok (.ofText (← IO.currentDir).toString.toList)
  catch e => return .error (causeOf e)

structure Fetched where
  path : Path
  isThere : Bool
  content : Except Text Text

def fetchAll (ps : List Path) : IO (List Fetched) :=
  ps.mapM fun p => do
    return ⟨p, (← fetchCanonical p).isSome, ← fetch p⟩

/-- A file system that holds what was fetched. -/
def fetchedDisk (cwd : Except Text Path) (root? : Option Path) (files : List Fetched) : Disk :=
  let file? (p : Path) := files.find? fun f => f.path = p
  { cwd
    has := fun p => (file? p).any Fetched.isThere
    read := fun p => ((file? p).map Fetched.content).getD (.error "not fetched".toList)
    canonical? := fun _ => root? }

/-- The file system as far as a request can see it: the settings file, the template that the
settings ask for, and the source file. -/
def diskFor (r : Request) : IO Disk := do
  let cwd ← fetchDirectory
  match r with
  | .generate g _ =>
    let start? := (g.root?.map Path.ofText).or cwd.toOption
    let root? ←
      match start? with
      | some p => fetchCanonical p
      | none => pure none
    let settingsFile ← fetchAll (root?.toList.map Settings.filePath)
    let disk := fetchedDisk cwd root? settingsFile
    let template? := root?.bind fun root =>
      (overridden disk (Settings.load Libraries.verbose.toml disk root).1 g).template?.map root.join
    return fetchedDisk cwd root?
      (settingsFile ++ (← fetchAll (Path.ofText g.file :: template?.toList)))
  | .parse file _ => return fetchedDisk cwd none (← fetchAll [Path.ofText file])
  | .templates _ => return fetchedDisk cwd none []

end DocSnippet.CommandLine

open DocSnippet.CommandLine in
def main (args : List String) : IO UInt32 := do
  let args := args.map String.toList
  let outcome ←
    match Libraries.verbose.arguments args with
    | .ok r => do pure (run Libraries.verbose (← diskFor r) r)
    | .error o => pure o
  IO.print (String.ofList outcome.stdout)
  IO.eprint (String.ofList outcome.stderr)
  return outcome.code.toUInt32

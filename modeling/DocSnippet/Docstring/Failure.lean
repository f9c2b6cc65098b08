import DocSnippet.Docstring.Style
import DocSnippet.Files.Path

/-! What can go wrong on the way to a docstring, and how it is told. -/

namespace DocSnippet

open Text Files Docstring

inductive Failure
  | render (cause : Text)
  | templateSyntax (cause : Text)
  | templateRead (path : Files.Path) (cause : Text)
  | unknownStyle (name : Text)
  deriving DecidableEq

def Failure.message : Failure → Text
  | .render cause => "template render failed: ".toList ++ cause
  | .templateSyntax cause => "template syntax error: ".toList ++ cause
  | .templateRead path cause =>
    "failed to read template ".toList ++ path.text ++ ": ".toList ++ cause
  | .unknownStyle name =>
    "unknown docstring style '".toList ++ name ++ "' (available: ".toList ++
      join ", ".toList (Style.all.map Style.name) ++ ")".toList

end DocSnippet

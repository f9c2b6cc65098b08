import DocSnippet.Text.Basic

/-! Some causes why a file cannot be read, in the words of the system. -/

namespace DocSnippet.Files

inductive ReadError
  | notFound
  | isDirectory
  | notDirectory
  | notText
  deriving DecidableEq

def ReadError.message : ReadError → Text
  | .notFound => "No such file or directory (os error 2)".toList
  | .isDirectory => "Is a directory (os error 21)".toList
  | .notDirectory => "Not a directory (os error 20)".toList
  | .notText => "stream did not contain valid UTF-8".toList

end DocSnippet.Files

import DocSnippet.Text.Space

/-! The indentation of a line. -/

namespace DocSnippet.Source

open Text

/-- The white space at the head of a line, up to a carriage return. -/
def indentation (line : Text) : Text := line.takeWhile fun c => isSpace c && c != '\r'

/-- The width of the indentation: every character counts one, a tab too. -/
def indentWidth (line : Text) : Nat := (indentation line).length

end DocSnippet.Source

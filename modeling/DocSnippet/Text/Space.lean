import DocSnippet.Text.Basic

/-! White space and trimming. The class is the Unicode property of that name: it holds the no-break
space and the line separators, and neither the zero width space nor the byte order mark. -/

namespace DocSnippet.Text

/-- The code points with the property `White_Space`. -/
def spaceRanges : List (Nat × Nat) :=
  [(0x09, 0x0D), (0x20, 0x20), (0x85, 0x85), (0xA0, 0xA0), (0x1680, 0x1680), (0x2000, 0x200A),
    (0x2028, 0x2029), (0x202F, 0x202F), (0x205F, 0x205F), (0x3000, 0x3000)]

def isSpace (c : Char) : Bool := inRanges spaceRanges c

def isBlankChar (c : Char) : Bool := c == ' ' || c == '\t'

def isBlank (t : Text) : Bool := t.all isSpace

def trimStart (t : Text) : Text := t.dropWhile isSpace

def trimEnd (t : Text) : Text := dropWhileEnd isSpace t

def trim (t : Text) : Text := trimEnd (trimStart t)

/-- What follows one or more white space characters at the head of a text. -/
def afterSpaces? : Text → Option Text
  | [] => none
  | c :: t => if isSpace c then some (trimStart t) else none

end DocSnippet.Text

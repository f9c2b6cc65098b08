import DocSnippet.Template.Lexeme

/-! The tags of a template. A tag stands in double braces; `#` opens a block, `/` closes one, `else`
and `^` divide it, `!` makes a comment and `>` names a partial template. A `~` inside the braces
takes away the white space on that side. Operands that are lists or records in brackets, and partial
templates written inside a template, are not read. -/

namespace DocSnippet.Template

open Text

structure Call where
  helper : Text
  operands : List Operand
  params : List Text

inductive Tag
  | value (name : Text) (operand : Operand)
  | call (helper : Text) (operands : List Operand)
  | opening (call : Call)
  | orElse (call? : Option Call)
  | closing (name : Text)
  | comment
  | insert (name : Text)
  | sectionOpening (name : Text)

structure Mark where
  tag : Tag
  trimsBefore : Bool
  trimsAfter : Bool

/-! ### Operands -/

/-- Whether a text starts with a word that is no operand: `as` or `else`, unless a name follows. -/
def atKeyword (t : Text) : Bool :=
  ["as".toList, "else".toList].any fun w =>
    match after? w t with
    | some r => (name? (skipGap r)).isNone
    | none => false

mutual

def operand? : Nat → Text → Option (Operand × Text)
  | 0, _ => none
  | fuel + 1, t =>
    if atKeyword t then none
    else
      match literal? t with
      | some l => l.map fun (v, r) => (.literal v, r)
      | none =>
        match path? t with
        | some (p, r) => some (.path p, r)
        | none => nested? fuel t

def operands : Nat → Text → List Operand × Text
  | 0, t => ([], t)
  | fuel + 1, t =>
    match option? fuel (skipGap t) with
    | some (o, r) =>
      let (os, rest) := operands fuel r
      (o :: os, rest)
    | none =>
      match operand? fuel (skipGap t) with
      | some (o, r) =>
        let (os, rest) := operands fuel r
        (o :: os, rest)
      | none => ([], t)

/-- An option at the head of a text: a name, an equals sign and an operand. -/
def option? : Nat → Text → Option (Operand × Text)
  | 0, _ => none
  | fuel + 1, t => do
    let (key, r) ← name? t
    let r ← after? ['='] (skipGap r)
    let (o, r) ← operand? fuel (skipGap r)
    some (.option key o, r)

/-- A call in round brackets. -/
def nested? : Nat → Text → Option (Operand × Text)
  | 0, _ => none
  | fuel + 1, t => do
    let r ← after? ['('] t
    let r := skipGap r
    let close (o : Operand) (r : Text) : Option (Operand × Text) :=
      (after? [')'] (skipGap r)).map fun rest => (o, rest)
    match (name? r).map fun (w, u) => (w, operands fuel u) with
    | some (w, o :: os, u) => close (.call w (o :: os)) u
    | _ => do
      let (_, u) ← path? r
      close (.call (r.take (r.length - u.length)) []) u

end

/-! ### Insides of tags -/

/-- A helper with operands, or a value alone. -/
def expression? (t : Text) : Option (Tag × Text) :=
  match (name? t).map fun (w, r) => (w, operands t.length r) with
  | some (w, o :: os, r) => some (.call w (o :: os), r)
  | _ =>
    match nested? t.length t with
    | some (o, r) => some (.value [] o, r)
    | none => (path? t).map fun (p, r) => (.value (t.take (t.length - r.length)) (.path p), r)

def plainValue? (t : Text) : Option (Tag × Text) :=
  match nested? t.length t with
  | some (o, r) => some (.value [] o, r)
  | none => (path? t).map fun (p, r) => (.value (t.take (t.length - r.length)) (.path p), r)

/-- The names that a block gives to its values: `as` and one or two names between bars. -/
def blockParams? (t : Text) : Option (List Text × Text) := do
  let r ← after? "as".toList (skipGap t)
  let r ← after? ['|'] (skipGap r)
  let (a, r) ← name? (skipGap r)
  match name? (skipGap r) with
  | some (b, r) => (after? ['|'] (skipGap r)).map fun rest => ([a, b], rest)
  | none => (after? ['|'] (skipGap r)).map fun rest => ([a], rest)

/-- The head of a block: a helper, its operands and the names of the block. -/
def call? (t : Text) : Option (Call × Text) := do
  let (w, r) ← name? t
  let (os, r) := operands t.length r
  match blockParams? r with
  | some (ps, r) => some (⟨w, os, ps⟩, r)
  | none => some (⟨w, os, []⟩, r)

/-- The characters in names of partial templates. -/
def isPartialSymbol (c : Char) : Bool := isSymbol c || isSeparator c

/-- The name of a partial template, or of what a closing tag closes. -/
def partialName? (t : Text) : Option (Text × Text) :=
  match t.takeWhile isPartialSymbol with
  | [] => none
  | w => some (w, t.dropWhile isPartialSymbol)

/-! ### Whole tags -/

/-- A `~` at the head of a text, with gaps on both sides. -/
def tilde (t : Text) : Bool × Text :=
  match after? ['~'] (skipGap t) with
  | some r => (true, skipGap r)
  | none => (false, skipGap t)

/-- The end of a tag: an optional `~` and closing braces. -/
def finish? (braces : Text) (before : Bool) (read : Tag × Text) : Option (Mark × Text) :=
  let (after, r) := tilde read.2
  (after? braces r).map fun rest => (⟨read.1, before, after⟩, rest)

/-- What follows the first `close` in a text. -/
def afterFirst? (close : Text) : Text → Option Text
  | [] => none
  | c :: t =>
    match after? close (c :: t) with
    | some r => some r
    | none => afterFirst? close t

def comment? (t : Text) : Option Text :=
  match (after? ['-', '-'] (skipGap t)).bind (afterFirst? ['-', '-', '}', '}']) with
  | some r => some r
  | none => afterFirst? ['}', '}'] t

/-- A division of a block: `else` or `^`, alone or with the head of another block. -/
def division? (before : Bool) (t : Text) : Option (Mark × Text) := do
  let r ← ["else".toList, ['^']].findSome? fun w => after? w t
  match finish? ['}', '}'] before (.orElse none, r) with
  | some m => some m
  | none => do
    let (c, r) ← call? (skipGap r)
    finish? ['}', '}'] before (.orElse (some c), r)

def tripled? (t : Text) : Option (Mark × Text) :=
  let legacy := do
    let r ← after? ['{', '{', '{'] t
    let (before, r) := tilde r
    finish? ['}', '}', '}'] before (← expression? r)
  match legacy with
  | some m => some m
  | none => do
    let r ← after? ['{', '{'] t
    let (before, r) := tilde r
    let r ← after? ['{'] r
    let (tag, r) ← expression? (skipGap r)
    let r ← after? ['}'] (skipGap r)
    finish? ['}', '}'] before (tag, r)

/-- A tag with a sign behind its braces. -/
def signed? (before : Bool) (sign : Char) (t : Text) : Option (Mark × Text) :=
  let t := skipGap t
  let closes := finish? ['}', '}'] before
  if sign = '#' then
    match after? ['>'] t with
    | some r => (partialName? (skipGap r)).bind fun (w, r) => closes (.sectionOpening w, r)
    | none => (call? t).bind fun (c, r) => closes (.opening c, r)
  else if sign = '/' then (partialName? t).bind fun (w, r) => closes (.closing w, r)
  else if sign = '>' then
    (partialName? t).bind fun (w, r) => closes (.insert w, (operands r.length r).2)
  else if sign = '&' then (plainValue? t).bind closes
  else none

def tag? (t : Text) : Option (Mark × Text) := do
  let r ← after? ['{', '{'] t
  match after? ['!'] r with
  | some c => (comment? c).map fun rest => (⟨.comment, false, false⟩, rest)
  | none =>
    let (before, r) := tilde r
    match division? before r with
    | some m => some m
    | none =>
      match (expression? r).bind (finish? ['}', '}'] before) with
      | some m => some m
      | none =>
        match tripled? t with
        | some m => some m
        | none =>
          match r with
          | c :: u => signed? before c u
          | [] => none

/-! ### Raw blocks -/

structure RawBlock where
  opening : Mark
  inside : Text
  closing : Mark

/-- The text of a raw block up to four braces, and the rest. A backslash before braces is dropped
and keeps them in the text. -/
def rawText : Text → Text × Text
  | [] => ([], [])
  | '\\' :: '{' :: '{' :: '{' :: '{' :: t =>
    let (u, r) := rawText t
    ('{' :: '{' :: '{' :: '{' :: u, r)
  | '\\' :: '{' :: '{' :: t =>
    let (u, r) := rawText t
    ('{' :: '{' :: u, r)
  | '{' :: '{' :: '{' :: '{' :: t => ([], '{' :: '{' :: '{' :: '{' :: t)
  | c :: t =>
    let (u, r) := rawText t
    (c :: u, r)

def rawBlock? (t : Text) : Option (RawBlock × Text) := do
  let open4 := ['{', '{', '{', '{']
  let close4 := ['}', '}', '}', '}']
  let r ← after? open4 t
  let (before, r) := tilde r
  let (c, r) ← call? r
  let (opening, r) ← finish? close4 before (.opening c, r)
  let (inside, r) := rawText r
  let r ← after? open4 r
  let (before, r) := tilde r
  let r ← after? ['/'] r
  let (w, r) ← name? (skipGap r)
  let (closing, rest) ← finish? close4 before (.closing w, r)
  some (⟨opening, inside, closing⟩, rest)

end DocSnippet.Template

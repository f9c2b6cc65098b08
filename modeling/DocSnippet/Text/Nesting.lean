import DocSnippet.Text.Basic

/-! Brackets and quotes. A scan keeps the openers that are still open; a separator cuts a text only
where none is. Inside a quoted string nothing but the same quote counts. -/

namespace DocSnippet.Text

def isQuote (c : Char) : Bool := c == '"' || c == '\''

def closer? (c : Char) : Option Char :=
  if c = '[' then some ']' else if c = '(' then some ')' else if c = '{' then some '}' else none

def isClosing (c : Char) : Bool := c == ']' || c == ')' || c == '}'

def isOpening (c : Char) : Bool := isQuote c || (closer? c).isSome

/-- What a scan knows after a piece of text: the open brackets and quotes, innermost first, and
whether every closing bracket so far met its own opener. -/
structure Nesting where
  opened : List Char
  sound : Bool
  deriving DecidableEq

namespace Nesting

/-- Before any text nothing is open. -/
def start : Nesting := ⟨[], true⟩

/-- A character outside quotes. A closing bracket that does not fit the innermost opener is passed
over and makes the scan unsound. -/
def bracket (n : Nesting) (c : Char) : Nesting :=
  if isOpening c then ⟨c :: n.opened, n.sound⟩
  else if isClosing c then
    match n.opened with
    | o :: rest => if closer? o = some c then ⟨rest, n.sound⟩ else ⟨n.opened, false⟩
    | [] => ⟨[], false⟩
  else n

def step (n : Nesting) (c : Char) : Nesting :=
  match n.opened with
  | o :: rest =>
    if isQuote o then (if c = o then ⟨rest, n.sound⟩ else n) else n.bracket c
  | [] => n.bracket c

def run (n : Nesting) (t : Text) : Nesting := t.foldl step n

theorem run_cons (n : Nesting) (c : Char) (t : Text) : n.run (c :: t) = (n.step c).run t := rfl

theorem run_append (n : Nesting) (s t : Text) : n.run (s ++ t) = (n.run s).run t := by
  simp [run, List.foldl_append]

/-- Whether nothing is open and every closing bracket met its opener. -/
def isClosed (n : Nesting) : Bool := n.opened.isEmpty && n.sound

/-- Whether `c` is a separator `sep` outside all brackets and quotes. A bracket or a quote never
separates. -/
def cuts (n : Nesting) (sep c : Char) : Bool :=
  n.opened.isEmpty && c == sep && !isOpening c && !isClosing c

theorem eq_of_cuts {n : Nesting} {sep c : Char} (h : n.cuts sep c) : c = sep := by
  simp only [cuts, Bool.and_eq_true, beq_iff_eq] at h
  exact h.1.1.2

theorem step_of_cuts {n : Nesting} {sep c : Char} (h : n.cuts sep c) : n.step c = n := by
  simp only [cuts, Bool.and_eq_true, Bool.not_eq_true', List.isEmpty_iff] at h
  obtain ⟨⟨⟨hn, -⟩, ho⟩, hc⟩ := h
  simp [step, hn, bracket, ho, hc]

end Nesting

/-- The parts of a text between the separators outside brackets and quotes, from a state on. -/
def topPartsFrom (sep : Char) : Nesting → Text → List Text
  | _, [] => [[]]
  | n, c :: t =>
    if n.cuts sep c then [] :: topPartsFrom sep n t
    else consHead c (topPartsFrom sep (n.step c) t)

theorem topPartsFrom_ne_nil (sep : Char) (n : Nesting) (t : Text) :
    topPartsFrom sep n t ≠ [] := by
  cases t with
  | nil => simp [topPartsFrom]
  | cons c t => simp only [topPartsFrom]; split <;> simp [consHead_ne_nil]

/-- Cutting at the top level loses nothing but the separators. -/
theorem join_topPartsFrom (sep : Char) (n : Nesting) (t : Text) :
    join [sep] (topPartsFrom sep n t) = t := by
  induction t generalizing n with
  | nil => rfl
  | cons c t ih =>
    simp only [topPartsFrom]
    split
    · next h =>
      simp [join_cons [sep] [] (topPartsFrom_ne_nil sep n t), ih, Nesting.eq_of_cuts h]
    · rw [join_consHead _ _ (topPartsFrom_ne_nil sep _ t), ih]

/-- The parts of a text between the separators outside brackets and quotes, kept verbatim. -/
def topParts (sep : Char) (t : Text) : List Text := topPartsFrom sep .start t

def isBalanced (t : Text) : Bool := (Nesting.start.run t).isClosed

structure Split where
  parts : List Text
  balanced : Bool
  deriving DecidableEq

/-- One scan that cuts a text and keeps track of what is open. A separator that cuts is passed over
without a step. -/
def splitFrom (sep : Char) : Nesting → Text → Split
  | n, [] => ⟨[[]], n.isClosed⟩
  | n, c :: t =>
    if n.cuts sep c then
      let s := splitFrom sep n t
      ⟨[] :: s.parts, s.balanced⟩
    else
      let s := splitFrom sep (n.step c) t
      ⟨consHead c s.parts, s.balanced⟩

/-- Cuts a text at the separators outside brackets and quotes. -/
def split (sep : Char) (t : Text) : Split := splitFrom sep .start t

theorem splitFrom_eq (sep : Char) (n : Nesting) (t : Text) :
    splitFrom sep n t = ⟨topPartsFrom sep n t, (n.run t).isClosed⟩ := by
  induction t generalizing n with
  | nil => rfl
  | cons c t ih =>
    rw [splitFrom, topPartsFrom, Nesting.run_cons]
    split
    · next h => rw [ih, Nesting.step_of_cuts h]
    · rw [ih]

/-- The parts and the balance of a text can be found in scans of their own. -/
theorem split_eq (sep : Char) (t : Text) : split sep t = ⟨topParts sep t, isBalanced t⟩ :=
  splitFrom_eq sep .start t

/-- The parts of a balanced text. -/
def balancedParts? (sep : Char) (t : Text) : Option (List Text) :=
  let s := split sep t
  if s.balanced then some s.parts else none

theorem balancedParts?_eq (sep : Char) (t : Text) :
    balancedParts? sep t = if isBalanced t then some (topParts sep t) else none := by
  rw [balancedParts?, split_eq]

end DocSnippet.Text

/-! Text as a list of characters: literals at either end, cutting at a character, joining, and
sizes. Every scan of the library is a recursion on such a list. -/

namespace DocSnippet

/-- A piece of text, read character by character. -/
abbrev Text := List Char

namespace Text

/-- What follows the literal `p` at the head of a text, if the text starts with it. -/
def after? : Text → Text → Option Text
  | [], t => some t
  | _ :: _, [] => none
  | a :: p, c :: t => if a = c then after? p t else none

theorem after?_eq_some_iff {p t r : Text} : after? p t = some r ↔ t = p ++ r := by
  fun_induction after? p t with
  | case1 t => simp
  | case2 => simp
  | case3 p c t ih => simp [ih]
  | case4 a p c t h => simp [Ne.symm h]

theorem length_after? {p t r : Text} (h : after? p t = some r) :
    t.length = p.length + r.length := by
  rw [after?_eq_some_iff.1 h, List.length_append]

def startsWith (p t : Text) : Bool := (after? p t).isSome

/-- What precedes the literal `p` at the end of a text, if the text ends with it. -/
def before? (p t : Text) : Option Text := (after? p.reverse t.reverse).map List.reverse

theorem before?_eq_some_iff {p t r : Text} : before? p t = some r ↔ t = r ++ p := by
  simp only [before?, Option.map_eq_some_iff, after?_eq_some_iff]
  constructor
  · rintro ⟨u, h, rfl⟩
    simpa using congrArg List.reverse h
  · rintro rfl
    exact ⟨r.reverse, by simp, by simp⟩

def endsWith (p t : Text) : Bool := (before? p t).isSome

def hasInfix (p : Text) : Text → Bool
  | [] => p.isEmpty
  | c :: t => startsWith p (c :: t) || hasInfix p t

def consHead (c : Char) : List Text → List Text
  | [] => [[c]]
  | p :: ps => (c :: p) :: ps

/-- The parts of a text between the occurrences of `sep`, empty parts included. -/
def splitOn (sep : Char) : Text → List Text
  | [] => [[]]
  | c :: t => if c = sep then [] :: splitOn sep t else consHead c (splitOn sep t)

/-- The parts one after another with `sep` between them. -/
def join (sep : Text) : List Text → Text
  | [] => []
  | [p] => p
  | p :: q :: ps => p ++ sep ++ join sep (q :: ps)

/-! ### Cutting and joining -/

theorem consHead_ne_nil (c : Char) (ps : List Text) : consHead c ps ≠ [] := by
  cases ps <;> simp [consHead]

theorem splitOn_ne_nil (sep : Char) (t : Text) : splitOn sep t ≠ [] := by
  cases t with
  | nil => simp [splitOn]
  | cons c t => simp only [splitOn]; split <;> simp [consHead_ne_nil]

theorem join_consHead (sep : Text) (c : Char) {ps : List Text} (h : ps ≠ []) :
    join sep (consHead c ps) = c :: join sep ps := by
  match ps, h with
  | [p], _ => rfl
  | p :: q :: ps, _ => rfl

theorem join_cons (sep p : Text) {ps : List Text} (h : ps ≠ []) :
    join sep (p :: ps) = p ++ sep ++ join sep ps := by
  match ps, h with
  | q :: ps, _ => rfl

/-- Cutting loses nothing but the separators. -/
theorem join_splitOn (sep : Char) (t : Text) : join [sep] (splitOn sep t) = t := by
  induction t with
  | nil => rfl
  | cons c t ih =>
    simp only [splitOn]
    split
    · next h => simp [join_cons [sep] [] (splitOn_ne_nil sep t), ih, h]
    · rw [join_consHead _ _ (splitOn_ne_nil sep t), ih]

theorem splitOn_of_notMem {sep : Char} {p : Text} (h : sep ∉ p) : splitOn sep p = [p] := by
  induction p with
  | nil => rfl
  | cons c p ih =>
    simp only [List.mem_cons, not_or] at h
    simp [splitOn, Ne.symm h.1, ih h.2, consHead]

theorem splitOn_append_cons {sep : Char} {p : Text} (h : sep ∉ p) (t : Text) :
    splitOn sep (p ++ sep :: t) = p :: splitOn sep t := by
  induction p with
  | nil => simp [splitOn]
  | cons c p ih =>
    simp only [List.mem_cons, not_or] at h
    simp [splitOn, Ne.symm h.1, ih h.2, consHead]

/-- Parts without the separator are found again. -/
theorem splitOn_join {sep : Char} {ps : List Text} (hne : ps ≠ []) (h : ∀ p ∈ ps, sep ∉ p) :
    splitOn sep (join [sep] ps) = ps := by
  induction ps with
  | nil => exact absurd rfl hne
  | cons p ps ih =>
    cases ps with
    | nil => exact splitOn_of_notMem (h p (by simp))
    | cons q ps =>
      rw [join_cons _ _ (by simp), List.append_assoc, List.singleton_append,
        splitOn_append_cons (h p (by simp)),
        ih (by simp) fun r hr => h r (List.mem_cons_of_mem _ hr)]

theorem notMem_of_mem_splitOn {sep : Char} {t p : Text} (h : p ∈ splitOn sep t) : sep ∉ p := by
  induction t generalizing p with
  | nil => simp [splitOn] at h; simp [h]
  | cons c t ih =>
    simp only [splitOn] at h
    split at h
    · rcases List.mem_cons.1 h with rfl | h
      · simp
      · exact ih h
    · next hc =>
      match hs : splitOn sep t with
      | [] => exact absurd hs (splitOn_ne_nil sep t)
      | q :: qs =>
        rw [hs, consHead] at h
        rcases List.mem_cons.1 h with rfl | h
        · simp [Ne.symm hc, ih (hs ▸ List.mem_cons_self)]
        · exact ih (hs ▸ List.mem_cons_of_mem q h)

/-- The lines of a document. Only a line feed ends a line, and a text that ends with one has an
empty last line. -/
def lines (t : Text) : List Text := splitOn '\n' t

/-- Lines put back together with line feeds. -/
def unlines (ls : List Text) : Text := join ['\n'] ls

theorem unlines_lines (t : Text) : unlines (lines t) = t := join_splitOn '\n' t

theorem lines_unlines {ls : List Text} (hne : ls ≠ []) (h : ∀ l ∈ ls, '\n' ∉ l) :
    lines (unlines ls) = ls := splitOn_join hne h

def dropWhileEnd (p : Char → Bool) : Text → Text
  | [] => []
  | c :: t =>
    match dropWhileEnd p t with
    | [] => if p c then [] else [c]
    | d :: s => c :: d :: s

def byteSize (t : Text) : Nat := t.foldr (fun c n => c.utf8Size + n) 0

@[simp] theorem byteSize_nil : byteSize [] = 0 := rfl

@[simp] theorem byteSize_cons (c : Char) (t : Text) : byteSize (c :: t) = c.utf8Size + byteSize t :=
  rfl

@[simp] theorem byteSize_append (s t : Text) : byteSize (s ++ t) = byteSize s + byteSize t := by
  induction s with
  | nil => simp
  | cons c s ih => simp [ih, Nat.add_assoc]

@[simp] theorem byteSize_reverse (t : Text) : byteSize t.reverse = byteSize t := by
  induction t with
  | nil => rfl
  | cons c t ih => simp [ih, Nat.add_comm]

/-- Whether the code point of a character lies in one of the closed ranges. -/
def inRanges (ranges : List (Nat × Nat)) (c : Char) : Bool :=
  ranges.any fun r => Nat.ble r.1 c.toNat && Nat.ble c.toNat r.2

end Text

end DocSnippet

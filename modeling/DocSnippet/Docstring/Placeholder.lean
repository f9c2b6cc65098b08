import DocSnippet.Text.Number

/-! Placeholders. A marker stands for the number of a placeholder until all are known; a reader
without placeholders sees only what they hold. -/

namespace DocSnippet.Docstring

open Text

/-- The marker that stands for the number of a placeholder. -/
def marker : Text := ['@', '@', '@']

def placeholder (content : Text) : Text := ['$', '{'] ++ marker ++ [':'] ++ content ++ ['}']

/-- Numbers the markers of a text from `n` on, in reading order. -/
def numberFrom : Nat → Text → Text
  | n, '@' :: '@' :: '@' :: t => decimal n ++ numberFrom (n + 1) t
  | n, c :: t => c :: numberFrom n t
  | _, [] => []

def numberMarkers (t : Text) : Text := numberFrom 1 t

/-- The content of a placeholder at the head of a text, and the rest: a dollar sign, and in braces
digits, a colon and anything up to the next closing brace. -/
def placeholder? (t : Text) : Option (Text × Text) :=
  match after? ['$', '{'] t with
  | none => none
  | some r =>
    match r.takeWhile isDigit, after? [':'] (r.dropWhile isDigit) with
    | _ :: _, some u =>
      match u.dropWhile (· != '}') with
      | _ :: rest => some (u.takeWhile (· != '}'), rest)
      | [] => none
    | _, _ => none

theorem placeholder?_rest_lt {t content rest : Text} (h : placeholder? t = some (content, rest)) :
    rest.length < t.length := by
  unfold placeholder? at h
  split at h
  · simp at h
  next r hr =>
    have hr := length_after? hr
    split at h
    next _ u _ hu =>
      have hu := length_after? hu
      split at h
      next c rest' hc =>
        simp only [Option.some.injEq, Prod.mk.injEq] at h
        have h1 : (u.dropWhile (· != '}')).length ≤ u.length :=
          (List.dropWhile_sublist _).length_le
        have h2 : (r.dropWhile isDigit).length ≤ r.length := (List.dropWhile_sublist _).length_le
        rw [hc] at h1
        obtain ⟨-, rfl⟩ := h
        simp only [List.length_cons, List.length_nil] at *
        omega
      · simp at h
    · simp at h

/-- Replaces every placeholder of a text by its content. -/
def dropPlaceholders (t : Text) : Text :=
  match t with
  | [] => []
  | c :: r =>
    match _h : placeholder? (c :: r) with
    | some (content, rest) => content ++ dropPlaceholders rest
    | none => c :: dropPlaceholders r
termination_by t.length
decreasing_by
  · exact placeholder?_rest_lt _h
  · simp

end DocSnippet.Docstring

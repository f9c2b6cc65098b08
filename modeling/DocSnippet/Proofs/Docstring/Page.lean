import DocSnippet.Docstring.Generator
import DocSnippet.Proofs.Template.Standard
import DocSnippet.Proofs.Text.Trim

/-! Pages: the lines of a docstring with their placeholders. A page is written once with markers, as
a template leaves it, and once with numbers. If its texts hold neither markers nor line feeds and
its blank lines are single and empty, tidying the first gives the second. -/

namespace DocSnippet

open Text Template

namespace Docstring

/-! ### Plain text -/

def IsUnmarked (t : Text) : Prop := ¬marker <:+: t

instance (t : Text) : Decidable (IsUnmarked t) := inferInstanceAs (Decidable (¬marker <:+: t))

structure IsPlain (t : Text) : Prop where
  line : '\n' ∉ t
  unmarked : IsUnmarked t

instance (t : Text) : Decidable (IsPlain t) :=
  decidable_of_iff ('\n' ∉ t ∧ IsUnmarked t) ⟨fun h => ⟨h.1, h.2⟩, fun h => ⟨h.line, h.unmarked⟩⟩

/-- A marker at the head of two texts is in the first if the second cannot go on with it. -/
theorem marker_isPrefix_append {t r : Text} (hr : r.head? ≠ some '@') (h : marker <+: t ++ r) :
    marker <+: t := by
  rcases List.prefix_or_prefix_of_prefix h (List.prefix_append t r) with h' | ⟨q, hq⟩
  · exact h'
  · cases q with
    | nil => simp [← hq]
    | cons e q =>
      have he : e = '@' := by
        have hmem : e ∈ marker := by simp [← hq]
        simpa [marker] using hmem
      rw [← hq, List.prefix_append_right_inj] at h
      obtain ⟨u, rfl⟩ := h
      exact absurd (by simp [he]) hr

theorem isUnmarked_of_cons {c : Char} {t : Text} (h : IsUnmarked (c :: t)) : IsUnmarked t :=
  fun ht => h (List.infix_cons ht)

theorem IsUnmarked.append {t r : Text} (ht : IsUnmarked t) (hr : IsUnmarked r)
    (hhead : r.head? ≠ some '@') : IsUnmarked (t ++ r) := by
  induction t with
  | nil => exact hr
  | cons c t ih =>
    intro h
    rcases List.infix_cons_iff.1 h with h | h
    · exact ht (marker_isPrefix_append hhead h).isInfix
    · exact ih (isUnmarked_of_cons ht) h

namespace IsPlain

variable {s t : Text}

theorem of_isInfix (ht : IsPlain t) (hs : s <:+: t) : IsPlain s :=
  ⟨fun h => ht.line (hs.subset h), fun h => ht.unmarked (h.trans hs)⟩

theorem append (hs : IsPlain s) (ht : IsPlain t) (hhead : t.head? ≠ some '@') :
    IsPlain (s ++ t) := by
  refine ⟨fun h => ?_, hs.unmarked.append ht.unmarked hhead⟩
  rcases List.mem_append.1 h with h | h
  · exact hs.line h
  · exact ht.line h

end IsPlain

/-! ### Pages -/

structure Slot where
  content : Text
  behind : Text

structure Line where
  lead : Text
  slots : List Slot

structure Line.Forall (P : Text → Prop) (l : Line) : Prop where
  lead : P l.lead
  slots : ∀ s ∈ l.slots, P s.content ∧ P s.behind

theorem Line.Forall.imp {P Q : Text → Prop} {l : Line} (hl : l.Forall P) (h : ∀ t, P t → Q t) :
    l.Forall Q :=
  ⟨h _ hl.lead, fun s hs => ⟨h _ (hl.slots s hs).1, h _ (hl.slots s hs).2⟩⟩

def Slot.source (s : Slot) : Text := placeholder s.content ++ s.behind

/-- The line with markers in place of numbers. -/
def Line.source (l : Line) : Text := l.lead ++ l.slots.flatMap Slot.source

/-- The page as a template writes it, each line with a line feed at its end. -/
def source (page : List Line) : Text := page.flatMap fun l => l.source ++ ['\n']

def numberedSlots : Nat → List Slot → Text
  | _, [] => []
  | n, s :: ss =>
    ['$', '{'] ++ decimal n ++ [':'] ++ s.content ++ ['}'] ++ s.behind ++ numberedSlots (n + 1) ss

def Line.numbered (n : Nat) (l : Line) : Text := l.lead ++ numberedSlots n l.slots

def numbered : Nat → List Line → Text
  | _, [] => []
  | n, l :: ls => l.numbered n ++ '\n' :: numbered (n + l.slots.length) ls

@[simp] theorem source_nil : source [] = [] := rfl

@[simp] theorem source_cons (l : Line) (ls : List Line) :
    source (l :: ls) = l.source ++ '\n' :: source ls := by
  simp [source]

@[simp] theorem source_append (ls ms : List Line) : source (ls ++ ms) = source ls ++ source ms := by
  simp [source]

/-! ### Numbering -/

theorem isDigit_of_mem_decimal {n : Nat} {c : Char} (h : c ∈ decimal n) : isDigit c := by
  have hc : c.isDigit := Nat.isDigit_of_mem_toDigits (by decide) (by decide) h
  have hrange : 0x30 ≤ c.toNat ∧ c.toNat ≤ 0x39 := by
    simpa [Char.isDigit, UInt32.le_iff_toNat_le] using hc
  exact List.any_eq_true.2 ⟨(0x30, 0x39), List.mem_cons_self, by simpa using hrange⟩

theorem notMem_decimal {c : Char} (hc : ¬isDigit c) (n : Nat) : c ∉ decimal n :=
  fun h => hc (isDigit_of_mem_decimal h)

theorem decimal_ne_nil (n : Nat) : decimal n ≠ [] :=
  List.ne_nil_of_length_pos Nat.length_toDigits_pos

theorem numberFrom_cons {c : Char} {t : Text} (h : ¬marker <+: c :: t) (n : Nat) :
    numberFrom n (c :: t) = c :: numberFrom n t := by
  rw [numberFrom]
  rintro u rfl rfl
  exact h ⟨u, rfl⟩

/-- A text without a marker is passed over, unless the text behind it could complete one. -/
theorem numberFrom_append {t r : Text} (ht : IsUnmarked t) (hr : r.head? ≠ some '@') (n : Nat) :
    numberFrom n (t ++ r) = t ++ numberFrom n r := by
  induction t with
  | nil => rfl
  | cons c t ih =>
    have hnot : ¬marker <+: c :: (t ++ r) := fun h =>
      ht (marker_isPrefix_append hr h).isInfix
    rw [List.cons_append, numberFrom_cons hnot, ih (isUnmarked_of_cons ht)]
    rfl

theorem numberFrom_placeholder {content : Text} (hc : IsUnmarked content) (n : Nat) (r : Text) :
    numberFrom n (placeholder content ++ r) =
      ['$', '{'] ++ decimal n ++ [':'] ++ content ++ ['}'] ++ numberFrom (n + 1) r := by
  have hsource : placeholder content ++ r =
      '$' :: '{' :: '@' :: '@' :: '@' :: ':' :: (content ++ '}' :: r) := by
    simp [placeholder, marker]
  have hcontent := numberFrom_append hc (r := '}' :: r) (by simp) (n + 1)
  rw [hsource]
  simp [numberFrom, hcontent]

theorem head?_flatMap_source {ss : List Slot} {r : Text} (hr : r.head? ≠ some '@') :
    (ss.flatMap Slot.source ++ r).head? ≠ some '@' := by
  cases ss with
  | nil => exact hr
  | cons s ss => simp [Slot.source, placeholder]

theorem numberFrom_slots {ss : List Slot}
    (h : ∀ s ∈ ss, IsUnmarked s.content ∧ IsUnmarked s.behind) {r : Text}
    (hr : r.head? ≠ some '@') (n : Nat) :
    numberFrom n (ss.flatMap Slot.source ++ r) =
      numberedSlots n ss ++ numberFrom (n + ss.length) r := by
  induction ss generalizing n with
  | nil => rfl
  | cons s ss ih =>
    obtain ⟨hcontent, hbehind⟩ := h s (by simp)
    have hrest := ih (fun u hu => h u (by simp [hu])) (n + 1)
    rw [List.flatMap_cons, Slot.source, List.append_assoc, List.append_assoc,
      numberFrom_placeholder hcontent, numberFrom_append hbehind (head?_flatMap_source hr), hrest,
      List.length_cons, numberedSlots, Nat.add_right_comm n 1, Nat.add_assoc n]
    simp only [List.append_assoc]

/-- Numbering the markers of a page gives the page with numbers. -/
theorem numberFrom_source {page : List Line} (h : ∀ l ∈ page, l.Forall IsUnmarked) (n : Nat) :
    numberFrom n (source page) = numbered n page := by
  induction page generalizing n with
  | nil => rfl
  | cons l ls ih =>
    have hl := h l (by simp)
    have hline : numberFrom (n + l.slots.length) ('\n' :: source ls) =
        '\n' :: numbered (n + l.slots.length) ls := by
      rw [numberFrom_cons (by simp [marker]), ih fun m hm => h m (by simp [hm])]
    rw [source_cons, Line.source, List.append_assoc,
      numberFrom_append hl.lead (head?_flatMap_source (by simp)),
      numberFrom_slots hl.slots (by simp), hline, numbered, Line.numbered, List.append_assoc]

/-! ### Blank lines -/

theorem condenseFrom_append {t : Text} (ht : '\n' ∉ t) (r : Text) :
    condenseFrom false (t ++ r) = t ++ condenseFrom false r := by
  induction t with
  | nil => rfl
  | cons c t ih =>
    simp only [List.mem_cons, not_or] at ht
    simp [condenseFrom, Ne.symm ht.1, ih ht.2]

/-- A text with a visible character before its first line feed breaks no line ahead. -/
theorem breaksAhead_append {t : Text} (hline : '\n' ∉ t) (ht : ¬isBlank t) (r : Text) :
    breaksAhead (t ++ r) = false := by
  have htake : (t ++ r).takeWhile isSpace = t.takeWhile isSpace := by
    rw [List.takeWhile_append, if_neg]
    intro hlen
    have hall := List.takeWhile_eq_self_iff.1 ((List.takeWhile_prefix isSpace).eq_of_length hlen)
    exact ht (isBlank_iff.2 hall)
  have hnot : '\n' ∉ t.takeWhile isSpace := fun h => hline ((List.takeWhile_subset isSpace) h)
  rw [breaksAhead, htake]
  simpa using hnot

theorem breaksAhead_newline (t : Text) : breaksAhead ('\n' :: t) = true := by
  simp [breaksAhead, show isSpace '\n' = true from rfl]

theorem condenseFrom_true {t : Text} (ht : breaksAhead t = false) :
    condenseFrom true t = condenseFrom false t := by
  cases t with
  | nil => rfl
  | cons c t =>
    have hc : c ≠ '\n' := by
      rintro rfl
      simp [breaksAhead_newline] at ht
    simp [condenseFrom, ht, hc]

/-- A single empty line stays. -/
theorem condenseFrom_emptyLine {t : Text} (ht : breaksAhead t = false) :
    condenseFrom false ('\n' :: '\n' :: t) = '\n' :: '\n' :: condenseFrom false t := by
  simp [condenseFrom, breaksAhead_newline, condenseFrom_true ht]

theorem condenseEnd_append {t : Text} (hne : t ≠ []) (hline : '\n' ∉ t) (s : Text) :
    condenseEnd (s ++ (t ++ ['\n'])) = s ++ (t ++ ['\n']) := by
  obtain ⟨u, c, rfl⟩ : ∃ u c, t = u ++ [c] :=
    ⟨t.dropLast, t.getLast hne, (List.dropLast_append_getLast hne).symm⟩
  have hc : c ≠ '\n' := by
    rintro rfl
    simp at hline
  have hbody : dropWhileEnd (· == '\n') (s ++ (u ++ [c] ++ ['\n'])) = s ++ (u ++ [c]) := by
    rw [dropWhileEnd_eq_rdropWhile, ← List.append_assoc, List.rdropWhile_concat_pos _ _ _ (by simp),
      ← List.append_assoc, List.rdropWhile_concat_neg _ _ _ (by simpa using hc)]
  rw [condenseEnd, hbody, if_pos (by simp), List.append_assoc]

structure Line.IsText (l : Line) : Prop extends l.Forall IsPlain where
  visible : ¬isBlank l.lead ∨ l.slots ≠ []

namespace Line.IsText

variable {l : Line}

theorem notMem_numberedSlots {ss : List Slot}
    (h : ∀ s ∈ ss, IsPlain s.content ∧ IsPlain s.behind) (n : Nat) :
    '\n' ∉ numberedSlots n ss := by
  induction ss generalizing n with
  | nil => simp [numberedSlots]
  | cons s ss ih =>
    have hnumber : '\n' ∉ decimal n := notMem_decimal (by decide) n
    obtain ⟨hcontent, hbehind⟩ := h s (by simp)
    simp [numberedSlots, hnumber, hcontent.line, hbehind.line, ih fun u hu => h u (by simp [hu])]

theorem notMem_numbered (hl : l.IsText) (n : Nat) : '\n' ∉ l.numbered n := by
  simp [numbered, hl.lead.line, notMem_numberedSlots hl.slots]

theorem not_isBlank_numbered (hl : l.IsText) (n : Nat) : ¬isBlank (l.numbered n) := by
  rw [isBlank_iff]
  intro hspace
  rcases hl.visible with h | h
  · exact h (isBlank_iff.2 fun c hc => hspace c (by simp [numbered, hc]))
  · obtain ⟨s, ss, hss⟩ := List.exists_cons_of_ne_nil h
    exact absurd (hspace '$' (by simp [numbered, hss, numberedSlots])) (by decide)

end Line.IsText

def Line.empty : Line := ⟨[], []⟩

inductive Tidy : List Line → Prop
  | one {l : Line} (hl : l.IsText) : Tidy [l]
  | next {l : Line} {ls : List Line} (hl : l.IsText) (hls : Tidy ls) : Tidy (l :: ls)
  | gap {l : Line} {ls : List Line} (hl : l.IsText) (hls : Tidy ls) : Tidy (l :: .empty :: ls)

namespace Tidy

variable {ls ms : List Line}

theorem of_forall (hne : ls ≠ []) (h : ∀ l ∈ ls, l.IsText) : Tidy ls := by
  induction ls with
  | nil => exact absurd rfl hne
  | cons l ls ih =>
    by_cases hls : ls = []
    · subst hls
      exact .one (h l (by simp))
    · exact .next (h l (by simp)) (ih hls fun m hm => h m (by simp [hm]))

/-- An empty line can stand between two tidy pages. -/
theorem append_gap (hls : Tidy ls) (hms : Tidy ms) : Tidy (ls ++ .empty :: ms) := by
  induction hls with
  | one hl => exact .gap hl hms
  | next hl _ ih => exact .next hl ih
  | gap hl _ ih => exact .gap hl ih

theorem forall_isPlain (hls : Tidy ls) : ∀ l ∈ ls, l.Forall IsPlain := by
  have hempty : Line.empty.Forall IsPlain := ⟨by decide, by simp [Line.empty]⟩
  induction hls with
  | one hl => simpa using hl.toForall
  | next hl _ ih => simpa using ⟨hl.toForall, ih⟩
  | gap hl _ ih => simpa using ⟨hl.toForall, hempty, ih⟩

theorem breaksAhead_numbered (hls : Tidy ls) (n : Nat) : breaksAhead (numbered n ls) = false := by
  cases hls with
  | one hl => exact breaksAhead_append (hl.notMem_numbered n) (hl.not_isBlank_numbered n) _
  | next hl _ => exact breaksAhead_append (hl.notMem_numbered n) (hl.not_isBlank_numbered n) _
  | gap hl _ => exact breaksAhead_append (hl.notMem_numbered n) (hl.not_isBlank_numbered n) _

/-- Condensing leaves a tidy page as it is. -/
theorem condense_numbered (hls : Tidy ls) (n : Nat) :
    condense (numbered n ls) = numbered n ls := by
  rw [condense]
  induction hls generalizing n with
  | one hl =>
    rw [numbered, condenseFrom_append (hl.notMem_numbered n)]
    rfl
  | next hl hls ih =>
    rw [numbered, condenseFrom_append (hl.notMem_numbered n), condenseFrom]
    simp [hls.breaksAhead_numbered, ih]
  | gap hl hls ih =>
    rw [numbered, condenseFrom_append (hl.notMem_numbered n), numbered]
    simp [Line.numbered, Line.empty, numberedSlots, condenseFrom_emptyLine,
      hls.breaksAhead_numbered, ih]

/-- A tidy page ends with a line of text. -/
theorem condenseEnd_numbered (hls : Tidy ls) (n : Nat) :
    condenseEnd (numbered n ls) = numbered n ls := by
  have hend : ∃ s t, t ≠ [] ∧ '\n' ∉ t ∧ numbered n ls = s ++ (t ++ ['\n']) := by
    induction hls generalizing n with
    | @one l hl =>
      refine ⟨[], l.numbered n, ?_, hl.notMem_numbered n, rfl⟩
      intro h
      exact hl.not_isBlank_numbered n (by simp [h, isBlank])
    | @next l ls hl _ ih =>
      obtain ⟨s, t, hne, hline, hs⟩ := ih (n + l.slots.length)
      exact ⟨l.numbered n ++ '\n' :: s, t, hne, hline, by simp [numbered, hs]⟩
    | @gap l ls hl _ ih =>
      obtain ⟨s, t, hne, hline, hs⟩ := ih (n + l.slots.length)
      refine ⟨l.numbered n ++ '\n' :: '\n' :: s, t, hne, hline, ?_⟩
      simp [numbered, Line.numbered, Line.empty, numberedSlots, hs]
  obtain ⟨s, t, hne, hline, hs⟩ := hend
  rw [hs, condenseEnd_append hne hline]

/-- Tidying what a template wrote for a tidy page numbers its placeholders and changes nothing
else. -/
theorem tidy_source (hls : Tidy ls) : Generator.tidy (source ls) = numbered 1 ls := by
  have hunmarked : ∀ l ∈ ls, l.Forall IsUnmarked := fun l hl =>
    (hls.forall_isPlain l hl).imp fun _ => IsPlain.unmarked
  rw [Generator.tidy, numberMarkers, numberFrom_source hunmarked, hls.condense_numbered,
    hls.condenseEnd_numbered]

/-- A template that writes a tidy page gives a docstring with the numbered page. -/
theorem docstring_eq (hls : Tidy ls) {E : Engine} {g : Generator E} {d : Definition}
    (h : g.fill d = .ok (source ls)) (indentation : Text) :
    g.docstring d indentation =
      .ok (indent indentation (g.options.quote ++
        (if g.options.startOnNewLine then ['\n'] else []) ++ numbered 1 ls ++
        g.options.quote)) := by
  rw [Generator.docstring, h, Except.map, hls.tidy_source, Generator.enquote]

end Tidy

/-! ### Generators -/

/-- The running engine keeps to the laws with the helpers of docstrings. -/
theorem standard_documented : Engine.standard.Documented (helpers Engine.standard.display) := by
  have hfree : ∀ w ∈ known, w ∉ (helpers Engine.standard.display).map Prod.fst := by decide
  refine Engine.standard_documented fun w hw => List.lookup_eq_none_iff.2 fun p hp => ?_
  have hne : w ≠ p.1 := by
    rintro rfl
    exact hfree _ hw (List.mem_map_of_mem hp)
  simpa using hne

end Docstring

namespace Generator

open Docstring

variable {E : Engine} {o : Options}

/-- A generator exists if its template can be read. -/
theorem ofOptions_eq {p : E.Program} (h : E.read o.template = .ok p) :
    ofOptions E o = .ok ⟨o, p, h⟩ := by
  unfold ofOptions
  split
  next q hq =>
    obtain rfl := Except.ok.inj (h.symm.trans hq)
    rfl
  next e he =>
    rw [h] at he
    simp at he

/-- A template that is a form is read and filled in as the form tells. -/
theorem exists_fill (hE : E.Documented (helpers E.display)) {F : Form} (ho : o.template = F.source)
    {d : Definition} {t : Text}
    (h : F.write? (helpers E.display)
      (Fields.ofDefinition d o.guessTypes o.includeName).toValue = some t) :
    ∃ g, ofOptions E o = .ok g ∧ g.options = o ∧ g.fill d = .ok t := by
  obtain ⟨p, hp, ht⟩ := hE.fills h
  rw [← ho] at hp
  refine ⟨⟨o, p, hp⟩, ofOptions_eq hp, rfl, ?_⟩
  rw [fill, ht]
  rfl

section Form

variable {F : Form} {d : Definition} {indentation t : Text}

/-- The docstring of a definition is what the form of the template writes, tidied, quoted and
indented. -/
theorem docstring_eq_ok (hE : E.Documented (helpers E.display)) (ho : o.template = F.source)
    {g : Generator E} (hg : ofOptions E o = .ok g)
    (h : (F.write? (helpers E.display)
      (Fields.ofDefinition d o.guessTypes o.includeName).toValue).map
        (fun r => indent indentation (enquote o (tidy r))) = some t) :
    g.docstring d indentation = .ok t := by
  obtain ⟨r, hr, rfl⟩ := Option.map_eq_some_iff.1 h
  obtain ⟨g', hg', rfl, hfill⟩ := exists_fill hE ho hr
  obtain rfl := Except.ok.inj (hg.symm.trans hg')
  rw [docstring, hfill]
  rfl

theorem generate_eq_ok (hE : E.Documented (helpers E.display)) (ho : o.template = F.source)
    {document : Text} {line : Nat}
    (h : (F.write? (helpers E.display)
      (Fields.ofDefinition (.parse document line) o.guessTypes o.includeName).toValue).map
        (fun r => indent indentation (enquote o (tidy r))) = some t) :
    generate E document line o indentation = .ok t := by
  obtain ⟨r, hr, -⟩ := Option.map_eq_some_iff.1 h
  obtain ⟨g, hg, -⟩ := exists_fill hE ho hr
  simp only [generate, hg, docstring_eq_ok hE ho hg h]

end Form

end Generator

end DocSnippet

import DocSnippet.Definition.Parse
import DocSnippet.Proofs.Signature.Header
import DocSnippet.Proofs.Signature.Tokens

/-! The layout of a function header. A header is its opening up to the bracket, its parameters with
commas between them, and its closing from the bracket on. However these pieces are spread over
lines, with comments, blank lines and a comma behind the last parameter, the definition below is the
one that the header in a single line has: the joined lines differ from that line only in white space
around the parameters, which every reader of a header passes over, and in empty parameters, which
declare nothing. -/

namespace DocSnippet.Signature

open Text Source Definition

theorem not_isDefinitionLine_join {ts : List Text} (h : ∀ t ∈ ts, ¬isDefinitionLine t) :
    ¬isDefinitionLine (join [','] ts) := by
  induction ts with
  | nil => decide
  | cons t ts ih =>
    have ht := h t (by simp)
    have ih := ih fun u hu => h u (by simp [hu])
    by_cases hts : ts = []
    · subst hts
      exact ht
    · rw [join_cons _ _ hts, List.append_assoc]
      refine not_isDefinitionLine_append ht ?_ (.inr rfl)
      exact not_isDefinitionLine_append (by decide) ih (.inl rfl)

/-! ### Lines at the cursor -/

theorem linesAbove_of_lines {document : Text} {above below : List Text}
    (h : lines document = above ++ below) :
    Header.linesAbove document above.length = cleanLines above := by
  rw [Header.linesAbove, h, List.take_left]

theorem below_of_lines {document : Text} {above below : List Text}
    (h : lines document = above ++ below) :
    Body.below document above.length = cleanLines (Body.block (Body.floor below) below) := by
  rw [Body.below, h, List.drop_left]

/-! ### Heads -/

structure IsParameterText (t : Text) : Prop where
  part : IsPart ',' t
  code : IsCode t
  not_keyword : ¬isDefinitionLine t

structure IsResultText (t : Text) : Prop where
  chars : ∀ c ∈ t, c ≠ ':' ∧ c ≠ ')' ∧ c ≠ '#' ∧ ¬isQuote c
  not_keyword : ¬isDefinitionLine t

structure Head where
  name : Text
  params : List Text
  result? : Option Text
  isName : IsName name
  isParameterText : ∀ p ∈ params, IsParameterText p
  isResultText : ∀ t ∈ result?, IsResultText t

namespace Head

variable (h : Head)

def opening (async : Bool) : Text :=
  (if async then asyncWord ++ [' '] else []) ++ (defWord ++ ' ' :: (h.name ++ ['(']))

/-- The parameters with a comma between any two of them and perhaps one behind the last. -/
def middle (trailing : Bool) : List Text :=
  h.params.intersperse [','] ++ if trailing then [[',']] else []

def closing : Text := ')' :: endingOf h.result?

/-- The pieces of a header. A line can be broken between any two of them. -/
def pieces (async trailing : Bool) : List Text :=
  h.opening async :: (h.middle trailing ++ [h.closing])

def line (async : Bool) : Text := h.opening async ++ join [',', ' '] h.params ++ h.closing

/-! ### The pieces -/

theorem trim_opening (async : Bool) : trim (h.opening async) = h.opening async := by
  have hbracket : trim ['('] = ['('] := rfl
  cases async with
  | false =>
    exact trim_append_append (s := defWord) rfl hbracket (by simp [defWord]) (by simp)
      (' ' :: h.name)
  | true =>
    exact trim_append_append (s := asyncWord) rfl hbracket (by simp [asyncWord]) (by simp)
      (' ' :: (defWord ++ ' ' :: h.name))

theorem trim_closing : trim h.closing = h.closing :=
  trim_append_append (s := [')']) (t := [':']) rfl rfl (by simp) (by simp) _

theorem isCode_opening (async : Bool) : IsCode (h.opening async) := by
  have hname : IsCode h.name := by
    refine .of_plain fun c hc => ⟨?_, ne_of_isWord (h.isName.word c hc) rfl⟩
    simp [isQuote, ne_of_isWord (h.isName.word c hc) (d := '"') rfl,
      ne_of_isWord (h.isName.word c hc) (d := '\'') rfl]
  have hdef : IsCode (defWord ++ [' ']) := by decide
  have hbody : IsCode (defWord ++ ' ' :: (h.name ++ ['('])) :=
    hdef.append (hname.append (by decide))
  cases async with
  | false => exact hbody
  | true => exact IsCode.append (s := asyncWord ++ [' ']) (by decide) hbody

theorem isCode_closing : IsCode h.closing := by
  rw [closing, endingOf, arrowOf?]
  cases hr : h.result? with
  | none => decide
  | some t =>
    have harrow : IsCode [')', ' ', '-', '>', ' '] := by decide
    have ht : IsCode t := .of_plain fun c hc =>
      ⟨((h.isResultText t hr).chars c hc).2.2.2, ((h.isResultText t hr).chars c hc).2.2.1⟩
    exact harrow.append (ht.append (by decide))

theorem not_isDefinitionLine_closing : ¬isDefinitionLine h.closing := by
  rw [closing, endingOf, arrowOf?]
  cases hr : h.result? with
  | none => decide
  | some t =>
    have harrow : ¬isDefinitionLine [')', ' ', '-', '>', ' '] := by decide
    refine not_isDefinitionLine_append harrow ?_ (.inl rfl)
    exact not_isDefinitionLine_append (h.isResultText t hr).not_keyword (by decide) (.inr rfl)

theorem isCode_pieces (async trailing : Bool) : ∀ p ∈ h.pieces async trailing, IsCode p := by
  intro p hp
  rw [pieces, middle] at hp
  simp only [List.mem_cons, List.mem_append, List.not_mem_nil, or_false] at hp
  rcases hp with rfl | (hp | hp) | rfl
  · exact h.isCode_opening async
  · exact forall_mem_intersperse (fun q hq => (h.isParameterText q hq).code) (by decide) p hp
  · cases trailing with
    | false => simp at hp
    | true =>
      rw [List.mem_singleton.1 hp]
      decide
  · exact h.isCode_closing

theorem exists_join_of_middle {trailing : Bool} {x : Text} (hx : Spells (h.middle trailing) x) :
    ∃ ts, ts ≠ [] ∧ x = join [','] ts ∧ visibleTexts ts = visibleTexts h.params := by
  cases trailing with
  | false => exact exists_join_of_spells (by simpa [middle] using hx)
  | true => exact exists_join_of_spells_comma hx

theorem not_isDefinitionLine_of_middle {trailing : Bool} {x : Text}
    (hx : Spells (h.middle trailing) x) : ¬isDefinitionLine x := by
  obtain ⟨ts, -, rfl, hts⟩ := h.exists_join_of_middle hx
  refine not_isDefinitionLine_join ?_
  exact forall_of_visibleTexts_eq (by decide) (fun t => by rw [isDefinitionLine_trim]) hts
    fun p hp => (h.isParameterText p hp).not_keyword

theorem not_isDefinitionLine_brackets {trailing : Bool} {x : Text}
    (hx : Spells (h.middle trailing) x) : ¬isDefinitionLine ('(' :: (x ++ h.closing)) := by
  have hrest : ¬isDefinitionLine (x ++ h.closing) :=
    not_isDefinitionLine_append (h.not_isDefinitionLine_of_middle hx)
      h.not_isDefinitionLine_closing (.inr rfl)
  exact not_isDefinitionLine_append (s := ['(']) (by decide) hrest (.inl rfl)

/-! ### The header above the cursor -/

section Above

variable {async trailing : Bool} {document : Text} {above ls below : List Text}
  (hls : Layout (h.pieces async trailing) ls)

include hls

theorem exists_getLast?_cleanLines : ∃ l, (cleanLines ls).getLast? = some l ∧ ¬isBlank l := by
  refine hls.exists_getLast?_cleanLines (h.isCode_pieces async trailing) fun p hp => ?_
  have hclosing : (h.pieces async trailing).getLast? = some h.closing := by
    rw [pieces, ← List.cons_append, List.getLast?_concat]
  rw [hclosing, Option.mem_some_iff] at hp
  rw [← hp, h.trim_closing, closing]
  simp

/-- The cleaned lines of a header, joined by blanks to others, end with its opening, its parameters
and its closing. -/
theorem exists_join_cleanLines (above : List Text) :
    ∃ s x u, join [' '] (cleanLines (above ++ ls)) =
        s ++ (h.opening async ++ x ++ h.closing ++ u) ∧ atWordEnd s.reverse ∧
      (∀ c ∈ u, isSpace c) ∧ Spells (h.middle trailing) x := by
  have hne : cleanLines ls ≠ [] := by
    obtain ⟨l, hl, -⟩ := h.exists_getLast?_cleanLines hls
    intro hnil
    simp [hnil] at hl
  obtain ⟨s, hjoin, hs⟩ := join_blank_append (cleanLines above) hne
  have hspells := hls.spells_join_cleanLines (h.isCode_pieces async trailing)
  obtain ⟨gap, v, hgap, hopening, hv⟩ := hspells.exists_head (h.trim_opening async)
  obtain ⟨x, u, hu, rfl, hx⟩ := hv.exists_last h.trim_closing
  refine ⟨s ++ gap, x, u, ?_, ?_, hu, hx⟩
  · rw [cleanLines_append, hjoin, hopening]
    simp
  · rw [List.reverse_append]
    exact atWordEnd_append (atWordEnd_of_isSpace fun c hc => hgap c (List.mem_reverse.1 hc)) hs

/-- The keyword `w` of the opening with none behind it is where the header starts. -/
theorem exists_above?_of_opening (hlines : lines document = above ++ ls ++ below) {v w r : Text}
    (hopening : h.opening async = v ++ (w ++ r)) (hw : IsKeyword w) (hv : atWordEnd v.reverse)
    (hr : ∀ t, atWordEnd (r ++ t)) (hclass : ∀ t, isClassHeader (w ++ (r ++ t)) = false)
    (hnone : ∀ x, Spells (h.middle trailing) x → ¬isDefinitionLine (r ++ (x ++ h.closing))) :
    ∃ x t, Spells (h.middle trailing) x ∧ MaybeAsync (w ++ (r ++ (x ++ h.closing))) t ∧
      Header.above? document (above ++ ls).length = some ⟨t, []⟩ := by
  obtain ⟨s, x, u, hjoin, hs, hu, hx⟩ := h.exists_join_cleanLines hls above
  obtain ⟨l, hl, hvisible⟩ := h.exists_getLast?_cleanLines hls
  have hlast : (cleanLines (above ++ ls)).getLast? = some l := by
    rw [cleanLines_append, List.getLast?_append, hl]
    rfl
  have htrim : trim (w ++ (r ++ x) ++ h.closing) = w ++ (r ++ x) ++ h.closing := by
    refine trim_append_append ?_ h.trim_closing ?_ (by simp [closing]) _
    · rcases hw with rfl | rfl <;> rfl
    · rcases hw with rfl | rfl <;> simp [defWord, classWord]
  rw [Header.above?, linesAbove_of_lines hlines]
  have hsplit : join [' '] (cleanLines (above ++ ls)) =
      s ++ v ++ (w ++ (r ++ (x ++ h.closing)) ++ u) := by
    rw [hjoin, hopening]
    simp
  have hend : atWordEnd (s ++ v).reverse := by
    rw [List.reverse_append]
    exact atWordEnd_append hv hs
  obtain ⟨t, ht, hheader⟩ := Header.ofLines?_of_join hlast hvisible hsplit hend hw
    (hr _) hu (leadingKeywordOnly_append hw (hr _) (hnone x hx)) (by simpa using htrim) (hclass _)
  exact ⟨x, t, hx, ht, hheader⟩

theorem exists_above?_of_name (hlines : lines document = above ++ ls ++ below)
    (hname : ¬IsKeyword h.name) :
    ∃ x t, Spells (h.middle trailing) x ∧
      MaybeAsync (defWord ++ afterDefOf h.name x (endingOf h.result?)) t ∧
      Header.above? document (above ++ ls).length = some ⟨t, []⟩ := by
  have hshape : ∀ x, ' ' :: (h.name ++ ['(']) ++ (x ++ h.closing) =
      afterDefOf h.name x (endingOf h.result?) := by
    intro x
    simp [afterDefOf, closing]
  have hend : atWordEnd (if async then asyncWord ++ [' '] else []).reverse := by
    cases async <;> rfl
  obtain ⟨x, t, hx, ht, habove⟩ := h.exists_above?_of_opening hls hlines rfl (.inl rfl) hend
    (fun _ => rfl) (fun _ => rfl) fun x hx => by
      have hword : ¬isDefinitionLine h.name := fun hd =>
        hname (isKeyword_of_isDefinitionLine h.isName.word hd)
      have hrest :=
        not_isDefinitionLine_append hword (h.not_isDefinitionLine_brackets hx) (.inr rfl)
      have hblank := not_isDefinitionLine_append (s := [' ']) (by decide) hrest (.inl rfl)
      simpa using hblank
  rw [hshape] at ht
  exact ⟨x, t, hx, ht, habove⟩

theorem exists_above?_of_keyword (hlines : lines document = above ++ ls ++ below)
    (hname : IsKeyword h.name) :
    ∃ x t, Spells (h.middle trailing) x ∧ MaybeAsync (h.name ++ '(' :: (x ++ h.closing)) t ∧
      Header.above? document (above ++ ls).length = some ⟨t, []⟩ := by
  have hopening : h.opening async =
      (if async then asyncWord ++ [' '] else []) ++ defWord ++ [' '] ++ (h.name ++ ['(']) := by
    simp [opening]
  refine h.exists_above?_of_opening hls hlines hopening hname ?_ (fun _ => rfl) (fun t => ?_)
    fun x hx => h.not_isDefinitionLine_brackets hx
  · rw [List.reverse_append]
    rfl
  · rcases hname with hn | hn <;> rw [hn] <;> rfl

end Above

/-! ### The definition -/

/-- The definition that a head with the given cleaned body denotes. A keyword in the place of the
name hides the parameters. -/
def definition (body : List Text) : Definition :=
  if IsKeyword h.name then
    classify [] body (((h.params.findSome? name?).or (name? (endingOf h.result?))).getD []) false
  else
    classify (h.params.map trim ++ ((arrowOf? h.result?).map trim).toList) body h.name false

section Definition

variable {trailing : Bool} {x t : Text} (hx : Spells (h.middle trailing) x)

include hx

/-- The parameters are found between the commas, perhaps with empty ones. -/
theorem visibleTexts_parts : visibleTexts (topParts ',' x) = visibleTexts h.params := by
  obtain ⟨ts, hne, rfl, hts⟩ := h.exists_join_of_middle hx
  exact visibleTexts_topParts hne hts fun p hp => (h.isParameterText p hp).part

theorem name?_middle : name? x = h.params.findSome? name? := by
  obtain ⟨ts, hne, rfl, hts⟩ := h.exists_join_of_middle hx
  have htrim : ∀ us : List Text, us.findSome? name? = ((us.map trim).filterMap name?).head? := by
    intro us
    rw [List.filterMap_map, List.head?_filterMap]
    congr 1
    funext u
    exact (name?_trim u).symm
  rw [name?_join, htrim, filterMap_map_trim rfl hts, htrim]

theorem ofHeader_of_name (ht : MaybeAsync (defWord ++ afterDefOf h.name x (endingOf h.result?)) t)
    (hname : ¬IsKeyword h.name) (body : List Text) : ofHeader ⟨t, []⟩ body = h.definition body := by
  have hclass : isClassHeader t = false := ht.isClassHeader_eq_false rfl
  have hsignature := ofHeader?_def h.isName x _
    (notMem_endingOf fun r hr hc => ((h.isResultText r hr).chars ')' hc).2.1 rfl)
    (ending?_endingOf fun r hr hc => ((h.isResultText r hr).chars ':' hc).1 rfl) ht
  have htokens : tokensOf t =
      (topParts ',' x).map trim ++ ((arrowOf? h.result?).map trim).toList := by
    rw [tokensOf, hsignature]
    rfl
  rw [definition, if_neg hname, ← classify_eq_of_visibleTexts_eq (h.visibleTexts_parts hx)]
  simp [ofHeader, hclass, name?_def h.isName x _ ht, htokens]

theorem ofHeader_of_keyword (ht : MaybeAsync (h.name ++ '(' :: (x ++ h.closing)) t)
    (hname : IsKeyword h.name) (body : List Text) : ofHeader ⟨t, []⟩ body = h.definition body := by
  have hclass : isClassHeader t = false := by
    refine ht.isClassHeader_eq_false ?_
    rcases hname with hn | hn <;> rw [hn] <;> rfl
  have htokens : tokensOf t = [] := by
    rw [tokensOf, ofHeader?_keyword hname (h.not_isDefinitionLine_brackets hx) ht]
    rfl
  have hnameOf : name? t = (h.params.findSome? name?).or (name? (endingOf h.result?)) := by
    rw [name?_keyword hname ht, closing, name?_append_cons x (.inr rfl), h.name?_middle hx]
  rw [definition, if_pos hname]
  simp [ofHeader, hclass, hnameOf, htokens]

end Definition

/-! ### Documents -/

theorem parse_of_layout {async trailing : Bool} {document : Text} {above ls below : List Text}
    (hls : Layout (h.pieces async trailing) ls) (hlines : lines document = above ++ ls ++ below) :
    parse document (above.length + ls.length) =
      h.definition (Body.below document (above.length + ls.length)) := by
  rw [← List.length_append]
  by_cases hname : IsKeyword h.name
  · obtain ⟨x, t, hx, ht, habove⟩ := h.exists_above?_of_keyword hls hlines hname
    rw [parse, habove]
    exact h.ofHeader_of_keyword hx ht hname _
  · obtain ⟨x, t, hx, ht, habove⟩ := h.exists_above?_of_name hls hlines hname
    rw [parse, habove]
    exact h.ofHeader_of_name hx ht hname _

theorem layout_line (async : Bool) : Layout (h.pieces async false) [h.line async] := by
  have hclosing : Spells [h.closing] h.closing := by
    simpa using Spells.cons (p := h.closing) rfl (.nil (t := []) (by simp))
  have hmiddle :
      Spells (h.middle false ++ [h.closing]) (join [',', ' '] h.params ++ h.closing) := by
    refine Spells.append ?_ hclosing
    simpa [middle] using spells_join h.params
  refine .last (by simp [pieces]) ⟨h.line async, ?_, .inl rfl⟩
  rw [line, List.append_assoc]
  exact .cons rfl hmiddle

/-- However a function header is laid out, the definition below it is the one below the same header
in a single line, which is the one that the head denotes. -/
theorem parse_layout {async async' trailing : Bool} {A B : Text} {above above' ls below : List Text}
    (hls : Layout (h.pieces async trailing) ls) (hA : lines A = above ++ ls ++ below)
    (hB : lines B = above' ++ [h.line async'] ++ below) :
    parse A (above.length + ls.length) = parse B (above'.length + 1) ∧
      parse A (above.length + ls.length) =
        h.definition (Body.below A (above.length + ls.length)) := by
  have hbelow : Body.below A (above ++ ls).length =
      Body.below B (above' ++ [h.line async']).length := by
    rw [below_of_lines hA, below_of_lines hB]
  have hparse := h.parse_of_layout hls hA
  refine ⟨?_, hparse⟩
  rw [hparse, ← List.length_append, hbelow, List.length_append]
  exact (h.parse_of_layout (h.layout_line async') hB).symm

/-- A method with a default that holds a number sign, a comma and a bracket in quotes. -/
def fetch : Head where
  name := "fetch".toList
  params := ["self".toList, "u: str = '#, ('".toList, "n: Dict[str, int]=f(1, 2)".toList]
  result? := some "List[int]".toList
  isName := by decide
  isParameterText := by
    intro p hp
    simp only [List.mem_cons, List.not_mem_nil, or_false] at hp
    rcases hp with rfl | rfl | rfl <;> exact ⟨by decide, by decide, by decide⟩
  isResultText := by
    rintro t ⟨⟩
    exact ⟨by simp [isQuote], by decide⟩

/-- A comment behind the bracket, a blank line, a line that is all comment, two parameters in one
line, and a comma and a comment at the end. -/
def fetchLines : List Text :=
  ["    async def fetch(  # def old(".toList, "        self,".toList, " \t".toList,
    "# the address".toList, "  u: str = '#, (' ,n: Dict[str, int]=f(1, 2),".toList,
    ") -> List[int]: # class".toList]

theorem layout_fetchLines : Layout (fetch.pieces true true) fetchLines := by
  have hnil : Spells [] [] := .nil (by simp)
  have h₁ : IsLineOf [fetch.opening true] "    async def fetch(  # def old(".toList :=
    ⟨_, .cons (a := "    async def fetch(".toList) rfl (.nil (t := "  ".toList) (isBlank_iff.1 rfl)),
      .inr ⟨_, rfl⟩⟩
  have h₂ : IsLineOf ["self".toList, [',']] "        self,".toList :=
    ⟨_, .cons (a := "        self".toList) rfl (.cons (a := [',']) rfl hnil), .inl rfl⟩
  have h₃ : IsLineOf [] " \t".toList := ⟨_, .nil (isBlank_iff.1 rfl), .inl rfl⟩
  have h₄ : IsLineOf [] "# the address".toList := ⟨_, hnil, .inr ⟨_, rfl⟩⟩
  have h₅ : IsLineOf ["u: str = '#, ('".toList, [','], "n: Dict[str, int]=f(1, 2)".toList, [',']]
      "  u: str = '#, (' ,n: Dict[str, int]=f(1, 2),".toList :=
    ⟨_, .cons (a := "  u: str = '#, ('".toList) (by decide +kernel)
      (.cons (a := [' ', ',']) rfl (.cons rfl (.cons (a := [',']) rfl hnil))), .inl rfl⟩
  have h₆ : IsLineOf [fetch.closing] ") -> List[int]: # class".toList :=
    ⟨_, .cons (a := ") -> List[int]: ".toList) (by decide +kernel) hnil, .inr ⟨_, rfl⟩⟩
  exact .cons h₁ (.cons h₂ (.cons h₃ (.cons h₄ (.cons h₅ (.last (by simp) h₆)))))

theorem parse_layout_fetch :
    let below := ["        raise IOError".toList]
    let A := unlines ("class Site:".toList :: fetchLines ++ below)
    let B := unlines (fetch.line false :: below)
    parse A 7 = parse B 1 ∧
      parse B 1 =
        { name := "fetch".toList
          decorators := []
          args := []
          kwargs := [⟨"u".toList, some "str".toList, "'#, ('".toList⟩,
            ⟨"n".toList, some "Dict[str, int]".toList, "f(1, 2)".toList⟩]
          returns := [⟨some "List[int]".toList⟩]
          yields? := none
          raises := ["IOError".toList] } := by
  intro below A B
  have hA : lines A = ["class Site:".toList] ++ fetchLines ++ below := by decide +kernel
  have hB : lines B = [] ++ [fetch.line false] ++ below := by decide +kernel
  exact ⟨(fetch.parse_layout layout_fetchLines hA hB).1, by decide +kernel⟩

end Head

end DocSnippet.Signature

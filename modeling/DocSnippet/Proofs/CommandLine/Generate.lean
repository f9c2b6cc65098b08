import DocSnippet.CommandLine.Run
import DocSnippet.Files.Tree

/-! A run of `generate`. What a request leads to is said without the order of the run: where its
template comes from, the options that count, and the docstring that is generated for them. Then each
check has a complaint of its own, whether or not an earlier check fails. The run tells the first
complaint in the order of the checks; if there is none, it prints the docstring in the way that is
asked for. The only other text is that of the log, about the settings file. -/

namespace DocSnippet

open Text Docstring Files

/-! ### Absolute paths -/

namespace Files.Path

theorem join_of_isAbsolute (base : Path) {p : Path} (hp : p.isAbsolute) : base.join p = p := by
  cases p with
  | absolute t => rfl
  | relative t => simp [isAbsolute] at hp

theorem isAbsolute_join {base : Path} (hbase : base.isAbsolute) (p : Path) :
    (base.join p).isAbsolute := by
  cases p with
  | absolute t => rfl
  | relative t =>
    cases base with
    | absolute b => rfl
    | relative b => simp [isAbsolute] at hbase

theorem isAbsolute_componentsFrom {start : Path} (hstart : start.isAbsolute) (t : Text) :
    (componentsFrom start t).isAbsolute := by
  rw [componentsFrom]
  generalize components t ++ (if t.getLast? = some '/' then [[]] else []) = cs
  induction cs generalizing start with
  | nil => exact hstart
  | cons c cs ih => exact ih (isAbsolute_join hstart _)

theorem isAbsolute_of_absolute? {p q : Path} {cwd : Except Text Path}
    (hcwd : ∀ d, cwd = .ok d → d.isAbsolute) (h : p.absolute? cwd = some q) : q.isAbsolute := by
  unfold absolute? at h
  split at h
  · simp at h
  · cases p with
    | absolute t => exact Option.some.inj h ▸ isAbsolute_componentsFrom rfl t
    | relative t =>
      cases hd : cwd with
      | error e => simp [hd] at h
      | ok d =>
        rw [hd] at h
        exact Option.some.inj h ▸ isAbsolute_componentsFrom (hcwd d hd) t

end Files.Path

namespace CommandLine

/-! ### What a request leads to -/

inductive TemplateSource
  | file (path : Path)
  | builtin (style : Text)
  deriving DecidableEq

def TemplateSource.read (disk : Disk) : TemplateSource → Except Failure Text
  | .file p => (disk.read p).mapError (.templateRead p)
  | .builtin style => Settings.builtinTemplate style

namespace GenerateRequest

variable (g : GenerateRequest) (L : Libraries) (disk : Disk)

/-- A template on the command line, which lies below the working directory, comes before a style
there, and both come before the template and the style of the project. A template that has no
absolute path lies below the root. -/
def templateSource (project : Settings) : TemplateSource :=
  match g.template?, g.style?, project.template? with
  | some t, _, _ =>
    match (Path.ofText t).absolute? disk.cwd with
    | some p => .file p
    | none => .file (project.root.join (Path.ofText t))
  | none, some style, _ => .builtin style
  | none, none, some p => .file (project.root.join p)
  | none, none, none => .builtin project.style

/-- The options that count. A flag can only add to the settings of the project or take the guesses
away. -/
def optionsFor (project : Settings) (template : Text) : Options :=
  { template
    quote := g.quote?.getD project.quote
    startOnNewLine := project.startOnNewLine || g.startOnNewLine
    includeName := project.includeName || g.includeName
    guessTypes := project.guessTypes && !g.noGuessTypes }

/-- The root of the project as it is asked for, or why there is none. -/
def givenRoot : Except Text Path :=
  match g.root? with
  | some t => .ok (Path.ofText t)
  | none => disk.cwd.mapError ("Could not determine current directory: ".toList ++ ·)

/-- Where the project lies, if it is there. -/
def place? : Option Path := (g.givenRoot disk).toOption.bind disk.canonical?

def loaded : Settings × List Warning :=
  match g.place? disk with
  | some root => Settings.load L.toml disk root
  | none => (Settings.standard (.relative []), [])

def project : Settings := (g.loaded L disk).1

def warnings : List Warning := (g.loaded L disk).2

def template : Except Failure Text := (g.templateSource disk (g.project L disk)).read disk

def options : Options :=
  g.optionsFor (g.project L disk) ((g.template L disk).toOption.getD [])

def document : Text := (disk.read (Path.ofText g.file)).toOption.getD []

def definition : Definition := Definition.parse (g.document disk) (g.line - 1)

def docstring : Except Failure Text :=
  generate L.engine (g.document disk) (g.line - 1) (g.options L disk)
    (Source.docstringIndentation (g.document disk) (g.line - 1) standardIndent)

end GenerateRequest

inductive Check
  | root
  | template
  | templateSyntax
  | source
  | line
  | definition
  | rendering
  deriving DecidableEq

namespace Check

/-- The checks inside a project, in the order in which they are made. -/
def later : List Check := [template, templateSyntax, source, line, definition, rendering]

def order : List Check := root :: later

def failure? {α : Type} : Except Failure α → Option Text
  | .error e => some e.message
  | .ok _ => none

/-- What a check alone has to say against a request. -/
def complaint? (g : GenerateRequest) (L : Libraries) (disk : Disk) : Check → Option Text
  | root =>
    match g.givenRoot disk with
    | .error message => some message
    | .ok p =>
      if (disk.canonical? p).isNone then some ("Path not found: ".toList ++ p.text) else none
  | template => failure? (g.template L disk)
  | templateSyntax => failure? (Generator.ofOptions L.engine (g.options L disk))
  | source =>
    match disk.read (Path.ofText g.file) with
    | .error cause => some ("Could not read ".toList ++ g.file ++ ": ".toList ++ cause)
    | .ok _ => none
  | line => if g.line = 0 then some "Lines are 1-indexed".toList else none
  | definition =>
    if (g.definition disk).isEmpty then
      some ("No definition found above line ".toList ++ decimal g.line ++ " in ".toList ++ g.file)
    else none
  | rendering => failure? (g.docstring L disk)

end Check

/-! ### Settings -/

section Settings

variable {disk : Disk} (hcwd : ∀ d, disk.cwd = .ok d → d.isAbsolute) (g : GenerateRequest)
  (project : Settings)

include hcwd

theorem template_overridden :
    (overridden disk project g).template disk = (g.templateSource disk project).read disk := by
  cases ht : g.template? with
  | some t =>
    cases hp : (Path.ofText t).absolute? disk.cwd with
    | some p =>
      have hjoin (root : Path) : root.join p = p :=
        root.join_of_isAbsolute (Path.isAbsolute_of_absolute? hcwd hp)
      simp only [Settings.template, overridden, ht, hp, Option.getD_some, hjoin,
        GenerateRequest.templateSource, TemplateSource.read]
    | none =>
      cases hs : g.style? <;>
        simp only [Settings.template, overridden, ht, hs, hp, Option.getD_none,
          GenerateRequest.templateSource, TemplateSource.read]
  | none =>
    cases hs : g.style? with
    | some style =>
      simp only [Settings.template, overridden, ht, hs, GenerateRequest.templateSource,
        TemplateSource.read]
    | none =>
      cases hp : project.template? <;>
        simp only [Settings.template, overridden, ht, hs, hp, GenerateRequest.templateSource,
          TemplateSource.read]

/-- The changed settings lead to the template and the options that the request asks for. -/
theorem resolve_overridden :
    (overridden disk project g).resolve disk =
      ((g.templateSource disk project).read disk).map (g.optionsFor project) := by
  rw [Settings.resolve, template_overridden hcwd]
  cases hs : g.style? <;> simp only [overridden, hs] <;> rfl

end Settings

/-! ### Logs -/

theorem Libraries.logged_eq_nil (L : Libraries) {warnings : List Warning}
    (h : ∀ n, ∀ w ∈ warnings, L.log n w = []) : L.logged warnings = [] := by
  rw [Libraries.logged, List.flatten_eq_nil_iff]
  intro t ht
  obtain ⟨n, hn, rfl⟩ := List.mem_mapIdx.1 ht
  exact h n _ (List.getElem_mem hn)

/-! ### Runs -/

/-- A value that counts unless there is a complaint. -/
def checked {α : Type} (complaint? : Option Text) (a : α) : Except Text α :=
  match complaint? with
  | some message => .error message
  | none => .ok a

theorem checked_bind {α β : Type} (complaint? : Option Text) (a : α) (f : α → Except Text β) :
    (checked complaint? a >>= f) = (checked complaint? () >>= fun _ => f a) := by
  cases complaint? <;> rfl

theorem checked_findSome?_cons {α : Type} (complaint? : Check → Option Text) (c : Check)
    (cs : List Check) (x : Except Text α) :
    (checked ((c :: cs).findSome? complaint?) () >>= fun _ => x) =
      (checked (complaint? c) () >>= fun _ =>
        checked (cs.findSome? complaint?) () >>= fun _ => x) := by
  rw [List.findSome?_cons]
  cases complaint? c <;> rfl

section Steps

variable (g : GenerateRequest) (L : Libraries) (disk : Disk)

theorem rootOf_eq :
    rootOf disk g.root? =
      (g.givenRoot disk >>= fun p =>
        match disk.canonical? p with
        | some root => .ok root
        | none => .error ("Path not found: ".toList ++ p.text)) := by
  unfold rootOf GenerateRequest.givenRoot
  cases g.root? with
  | some t => rfl
  | none => cases disk.cwd <;> rfl

theorem rootOf_eq_ok {root : Path} (h : g.place? disk = some root) :
    rootOf disk g.root? = .ok root ∧ Check.root.complaint? g L disk = none := by
  obtain ⟨p, hp, hcanonical⟩ := Option.bind_eq_some_iff.1 h
  have hgiven : g.givenRoot disk = .ok p := by
    cases hg : g.givenRoot disk with
    | error e => simp [hg, Except.toOption] at hp
    | ok q => rw [hg] at hp; exact congrArg Except.ok (Option.some.inj hp)
  rw [rootOf_eq, Check.complaint?, hgiven]
  change (match disk.canonical? p with | some root => _ | none => _) = _ ∧ _
  simp [hcanonical]

theorem exists_complaint (h : g.place? disk = none) :
    ∃ message, rootOf disk g.root? = .error message ∧
      Check.root.complaint? g L disk = some message := by
  rw [rootOf_eq, Check.complaint?]
  cases hg : g.givenRoot disk with
  | error message => exact ⟨message, rfl, rfl⟩
  | ok p =>
    have hcanonical : disk.canonical? p = none := by
      rw [GenerateRequest.place?, hg] at h
      exact h
    refine ⟨"Path not found: ".toList ++ p.text, ?_, by simp [hcanonical]⟩
    change (match disk.canonical? p with | some root => _ | none => _) = _
    rw [hcanonical]

theorem resolve_eq (hcwd : ∀ d, disk.cwd = .ok d → d.isAbsolute) :
    ((overridden disk (g.project L disk) g).resolve disk).mapError Failure.message =
      checked (Check.template.complaint? g L disk) (g.options L disk) := by
  rw [resolve_overridden hcwd, Check.complaint?, GenerateRequest.options,
    GenerateRequest.template]
  cases (g.templateSource disk (g.project L disk)).read disk <;> rfl

theorem readSource_eq :
    readSource disk g.file = checked (Check.source.complaint? g L disk) (g.document disk) := by
  rw [readSource, Check.complaint?, GenerateRequest.document]
  cases disk.read (Path.ofText g.file) <;> rfl

theorem lineIndex_eq :
    lineIndex g.line = checked (Check.line.complaint? g L disk) (g.line - 1) := by
  rw [lineIndex, Check.complaint?]
  split <;> rfl

theorem docstring_eq {generator : Generator L.engine}
    (h : Generator.ofOptions L.engine (g.options L disk) = .ok generator) :
    generator.docstring (g.definition disk)
      (Source.docstringIndentation (g.document disk) (g.line - 1) standardIndent) =
      g.docstring L disk := by
  rw [GenerateRequest.docstring, generate, h]
  rfl

/-- In a project a run fails with the first complaint, and without one it prints what the library
writes. -/
theorem generateWith_eq (hcwd : ∀ d, disk.cwd = .ok d → d.isAbsolute) (json : Bool) :
    generateWith L disk (g.project L disk) g json =
      (checked (Check.later.findSome? (Check.complaint? g L disk)) () >>= fun _ =>
        ((g.docstring L disk).mapError Failure.message).map fun ds =>
          generateOutput L g json (g.document disk) (g.line - 1) (g.definition disk).name
            (if g.plain then dropPlaceholders ds else ds)) := by
  rw [generateWith, Check.later, resolve_eq g L disk hcwd, checked_bind, checked_findSome?_cons]
  refine bind_congr fun _ => ?_
  rw [checked_findSome?_cons]
  simp only [Check.complaint?]
  cases hgenerator : Generator.ofOptions L.engine (g.options L disk) with
  | error e => rfl
  | ok generator =>
    change (readSource disk g.file >>= _) = (checked _ () >>= _)
    rw [readSource_eq g L disk, checked_bind, checked_findSome?_cons]
    refine bind_congr fun _ => ?_
    rw [lineIndex_eq g L disk, checked_bind, checked_findSome?_cons]
    refine bind_congr fun _ => ?_
    change (if (g.definition disk).isEmpty then _ else
      (generator.docstring (g.definition disk) _).mapError Failure.message >>= _) = _
    rw [docstring_eq g L disk hgenerator, checked_findSome?_cons, checked_findSome?_cons]
    simp only [Check.complaint?]
    split
    · rfl
    · cases g.docstring L disk <;> rfl

end Steps

/-- Without a complaint nothing that a request leads to is missing. -/
theorem exists_docstring {L : Libraries} {disk : Disk} {g : GenerateRequest}
    (h : Check.order.findSome? (Check.complaint? g L disk) = none) :
    g.template L disk = .ok (g.options L disk).template ∧
      disk.read (Path.ofText g.file) = .ok (g.document disk) ∧ 0 < g.line ∧
      ∃ ds, g.docstring L disk = .ok ds := by
  rw [List.findSome?_eq_none_iff] at h
  have htemplate : Check.failure? (g.template L disk) = none := h .template (by decide)
  have hsource : Check.source.complaint? g L disk = none := h .source (by decide)
  have hline : Check.line.complaint? g L disk = none := h .line (by decide)
  have hrendering : Check.failure? (g.docstring L disk) = none := h .rendering (by decide)
  refine ⟨?_, ?_, ?_, ?_⟩
  · rw [GenerateRequest.options, GenerateRequest.optionsFor]
    cases ht : g.template L disk with
    | error e => simp [ht, Check.failure?] at htemplate
    | ok t => rfl
  · rw [GenerateRequest.document]
    cases hread : disk.read (Path.ofText g.file) with
    | error e => simp [Check.complaint?, hread] at hsource
    | ok t => rfl
  · rw [Check.complaint?] at hline
    split at hline
    · simp at hline
    · omega
  · cases hd : g.docstring L disk with
    | error e => simp [hd, Check.failure?] at hrendering
    | ok ds => exact ⟨ds, rfl⟩

/-- A run fails with the first complaint, and without one it prints what the library writes, both
behind the log. -/
theorem runGenerate_eq {L : Libraries} {disk : Disk}
    (hcwd : ∀ d, disk.cwd = .ok d → d.isAbsolute) (g : GenerateRequest) (json : Bool) :
    runGenerate L disk g json =
      (Outcome.ofExcept
        (checked (Check.order.findSome? (Check.complaint? g L disk)) () >>= fun _ =>
          ((g.docstring L disk).mapError Failure.message).map fun ds =>
            generateOutput L g json (g.document disk) (g.line - 1) (g.definition disk).name
              (if g.plain then dropPlaceholders ds else ds))).after
        (L.logged (g.warnings L disk)) := by
  rw [runGenerate, Check.order]
  cases hplace : g.place? disk with
  | none =>
    obtain ⟨message, hroot, hcomplaint⟩ := exists_complaint g L disk hplace
    rw [hroot, List.findSome?_cons, hcomplaint, GenerateRequest.warnings,
      GenerateRequest.loaded, hplace]
    rfl
  | some root =>
    obtain ⟨hroot, hcomplaint⟩ := rootOf_eq_ok g L disk hplace
    rw [hroot, List.findSome?_cons, hcomplaint]
    have hload : Settings.load L.toml disk root = (g.project L disk, g.warnings L disk) := by
      rw [GenerateRequest.project, GenerateRequest.warnings, GenerateRequest.loaded, hplace]
    simp only [hload, generateWith_eq g L disk hcwd, Check.later]

instance decidableEqExcept {ε α : Type} [DecidableEq ε] [DecidableEq α] : DecidableEq (Except ε α)
  | .ok a, .ok b => decidable_of_iff (a = b) (by simp)
  | .error d, .error e => decidable_of_iff (d = e) (by simp)
  | .ok _, .error _ => isFalse (by simp)
  | .error _, .ok _ => isFalse (by simp)

/-- A project whose settings ask for a template that is not there, and misspell a key. -/
def workshop : Tree :=
  .ofList "/w".toList
    [("a.py".toList, .text "def f(x=1):\n    return x".toList),
      ("d/.numpydoc.toml".toList, .text "template = 'no.hbs'\nstyel = 'google'".toList),
      ("t.hbs".toList, .text "\x7b\x7bname\x7d\x7d".toList)]

def workshopArguments (options : List String) : List Text :=
  (["generate", "a.py", "--root=d"] ++ options).map String.toList

def workshopRequest (line : Nat) : GenerateRequest :=
  { file := "a.py".toList, line, root? := some "d".toList, style? := none, template? := none
    quote? := none, startOnNewLine := false, includeName := false, noGuessTypes := false
    plain := false, insert := false }

end CommandLine

end DocSnippet

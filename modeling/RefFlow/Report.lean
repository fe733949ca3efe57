import RefFlow.Language
import RefFlow.Reactive
import RefFlow.Settings
import RefFlow.Text.Markup

/-!
# Reports

What the commands print: a table of the references in a file and their number, or a line that says
why there is none. Text from the file is cut to one short line and escaped, so that nothing in it is
taken for markup.

A command needs a parser, which is a parameter here: it gives the concrete tree of a source in a
grammar.
-/

namespace RefFlow.Report

/-- A table. -/
structure Listing where
  title : String
  headers : List String
  rows : List (List String)
deriving DecidableEq, Repr

/-- Something that is printed. -/
inductive Printed where
  | line (s : String)
  | listing (l : Listing)
deriving DecidableEq, Repr

/-- What running a command leads to. -/
structure Outcome where
  /-- The exit status. -/
  status : Nat := 0
  printed : List Printed
  /-- The grammar by which the file was parsed. -/
  grammar : Option Grammar := none
deriving DecidableEq, Repr

/-- A command. -/
inductive Command where
  /-- Lists the references to ref objects, perhaps with their derivations. -/
  | refs (path : String) (language : Option String) (chain : Bool)
  /-- Lists the references to reactive variables. -/
  | reactive (path : String) (language : Option String)
  /-- Shows the version, if asked to. -/
  | version (isAsked : Bool)
deriving DecidableEq, Repr

/-- A parser: the concrete tree of a source in a grammar. -/
abbrev Parser := Grammar → Source → Concrete Unit

/-! ## Loading a file -/

/-- Why a file is not analysed. -/
inductive LoadError where
  | invalidSettings (i : Settings.Invalid)
  | unsupportedFile (p : Path)
  | unsupportedLanguage (name : String)
  | unreadable (p : Path)
  | overlong (p : Path)
deriving DecidableEq, Repr

/-- What is said of an error. -/
def LoadError.message : LoadError → String
  | invalidSettings i => i.message
  | unsupportedFile p => "Unsupported file type: " ++ if p.suffix == "" then p.name else p.suffix
  | unsupportedLanguage name => "Unsupported language: " ++ name
  | unreadable p => "Cannot read " ++ p.text
  | overlong p => "File name too long: " ++ p.text

/-- The language of a file: the one asked for, or else the one that its suffix tells. -/
def languageOf (path : Path) : Option String → Except LoadError Language
  | some name => match Language.ofName? name with
    | some l => .ok l
    | none => .error (.unsupportedLanguage name)
  | none => match Language.ofPath? path with
    | some l => .ok l
    | none => .error (.unsupportedFile path)

/-- A file that was read and is ready to be parsed. -/
structure Loaded where
  options : Options
  source : Source
  grammar : Grammar

/-- Reads a file. -/
def load (s : Surroundings) (path : String) (language : Option String) :
    Except LoadError Loaded := do
  let path := Path.ofString path
  match s.current with
  | (.error i, _) => throw (.invalidSettings i)
  | (.ok options, s) =>
    let language ← languageOf path language
    if s.workspace.isOverlong path then throw (.overlong path)
    match s.workspace.read? path with
    | none => throw (.unreadable path)
    | some bytes =>
      let (source, grammar) := language.prepare bytes
      return { options, source, grammar }

/-! ## Cells -/

/-- Text that stands for itself. -/
def escaped (s : String) : String := String.ofList (Text.Markup.escape s.toList)

/-- The length of the longest text from a file that is shown. -/
def maxSnippet : Nat := 40

/-- A text on one line, cut off if it is too long. -/
def shortened (cs : List Char) : List Char :=
  let t := [' '].intercalate (Text.words cs)
  if t.length > maxSnippet then t.take (maxSnippet - 1) ++ ['…'] else t

/-- The text of a node as it is shown. -/
def snippet (p : Program) (n : Node) : String :=
  String.ofList (Text.Markup.escape (shortened (p.source.chars n.span)))

/-- The position of a node as it is shown. -/
def location (p : Program) (n : Node) : String :=
  let pos := p.position n
  toString pos.line ++ ":" ++ toString pos.column

/-- The line of a site as it is shown. -/
def lineOf (p : Program) (s : Site) : String := toString (p.position s.node).line

/-- One span comes before another, or is the same. -/
def spanLe (a b : Span) : Bool := a.start < b.start || (a.start == b.start && a.stop ≤ b.stop)

/-! ## Tables -/

/-- The number of references as it is shown. -/
def total (n : Nat) : String := "\n[bold]Total:[/bold] " ++ toString n ++ " reference(s)"

/-- The derivation of a reference as it is shown. -/
def chainCell (p : Program) (f : RefObject.Findings) (n : Node) : String :=
  " → ".intercalate ((f.chain n.id).filterMap fun i => (p.place? i).map (snippet p ·.node))

/-- The row of a reference to a ref object. -/
def refRow (p : Program) (f : RefObject.Findings) (chain : Bool) (r : RefObject.Record) :
    List String :=
  [location p r.node, snippet p r.node, r.form.text, if r.isTarget then "write" else "read",
   r.method, lineOf p r.site] ++ if chain then [chainCell p f r.node] else []

/-- What is printed of the references to ref objects. -/
def refReport (p : Program) (path : String) (chain : Bool) (f : RefObject.Findings) :
    List Printed :=
  let records := f.records.values
  if records.isEmpty then [.line "[yellow]No ref-object references found.[/yellow]"]
  else
    let sorted := records.mergeSort fun a b => spanLe a.node.span b.node.span
    [.listing
      { title := "Ref-object references in " ++ escaped path
        headers := ["Location", "Code", "Kind", "Role", "Method", "Defined"] ++
          if chain then ["Chain"] else []
        rows := sorted.map (refRow p f chain) },
     .line (total records.length)]

/-- The row of a reference to a reactive variable. -/
def reactiveRow (p : Program) (r : Reactive.Record) : Except Fault (List String) := do
  return [location p r.node, escaped ((← r.node.text? .name).getD ""), escaped r.method,
    if r.escape then "✓" else "", lineOf p r.site]

/-- What is printed of the references to reactive variables. -/
def reactiveReport (p : Program) (path : String) (f : Reactive.Findings) :
    Except Fault (List Printed) := do
  let records := f.records.values
  if records.isEmpty then return [.line "[yellow]No reactive-variable references found.[/yellow]"]
  else
    let sorted := records.mergeSort fun a b => spanLe a.node.span b.node.span
    return [.listing
      { title := "Reactive-variable references in " ++ escaped path
        headers := ["Location", "Name", "Method", "Escaped", "Defined"]
        rows := ← sorted.mapM (reactiveRow p) },
     .line (total records.length ++ ", " ++ toString (records.countP (·.escape)) ++ " inside $$()")]

/-! ## Commands -/

/-- Loads and parses a file and reports on it, or says why that cannot be done. A path that is too
long is a fault. -/
def onFile (parse : Parser) (s : Surroundings) (path : String) (language : Option String)
    (report : Program → Except Fault (List Printed)) : Except Fault Outcome :=
  match load s path language with
  | .error (.overlong _) => .error .overlongPath
  | .error e =>
    .ok { status := 1, printed := [.line ("[bold red]Error:[/bold red] " ++ escaped e.message)] }
  | .ok l => do
    let p ← Program.analyze l.source l.options (parse l.grammar l.source)
    return { printed := ← report p, grammar := some l.grammar }

/-- The name and the version of the program. -/
def versionLine : String := "reftrace 0.1.0"

/-- Runs a command. -/
def run (parse : Parser) (s : Surroundings) : Command → Except Fault Outcome
  | .refs path language chain => onFile parse s path language fun p => do
    return refReport p path chain (← RefObject.extract p)
  | .reactive path language => onFile parse s path language fun p => do
    reactiveReport p path (← Reactive.extract p)
  | .version isAsked => .ok { printed := if isAsked then [.line versionLine] else [] }

end RefFlow.Report

import RefFlow.Options
import RefFlow.Text.Blank
import RefFlow.Text.LowerCase
import RefFlow.Workspace

/-!
# Settings

Options come from environment variables. A settings file in the working directory may set variables
that are not set yet. They stay set, also if the options turn out to be invalid. What a file is read
as is a matter apart: loading takes the variables that the file sets, and the command line has a
simple reader of lines to find them.

Options are validated once, when the settings are first loaded, and read afresh from the environment
whenever they are asked for.
-/

namespace RefFlow

/-- Environment variables. -/
abbrev Environment := Table String String

namespace Environment

/-- The environment without a variable. -/
def unset (e : Environment) (name : String) : Environment := e.filter fun (n, _) => n != name

end Environment

namespace Settings

/-! ## Settings files -/

/-- A line without the keyword that exports a variable. -/
def withoutExport (cs : List Char) : List Char :=
  let rest := cs.drop 6
  if cs.take 6 == "export".toList && rest.head?.any Text.isBlank then rest.dropWhile Text.isBlank
  else cs

/-- A value without the quotes around it. A quote that does not close at the end makes the value
invalid. -/
def unquoted? (cs : List Char) : Option (List Char) :=
  match cs with
  | q :: rest =>
    if q == '\'' || q == '"' then
      let inner := rest.takeWhile (· != q)
      if rest.length == inner.length + 1 then some inner else none
    else some cs
  | [] => some []

/-- A character that cannot be in the name of a variable. -/
def endsName (c : Char) : Bool := Text.isBlank c || c == '#'

/-- The variable that a line sets. -/
def line? (cs : List Char) : Option (String × String) :=
  let cs := withoutExport (Text.trim cs)
  let name := Text.trim (cs.takeWhile (· != '='))
  match cs.dropWhile (· != '=') with
  | [] => none
  | _ :: value =>
    if name.isEmpty || name.any endsName then none
    else (unquoted? (Text.trim value)).map fun v => (String.ofList name, String.ofList v)

/-- A character that ends a line. -/
def endsLine (c : Char) : Bool := c == '\n' || c == '\r'

/-- The variables that a file sets. Of several lines for one variable the last one counts. -/
def assignments (cs : List Char) : Table String String :=
  ((cs.splitOnP endsLine).filterMap line?).foldl (fun t (n, v) => t.set n v) []

/-- The name of the settings file. -/
def fileName : String := ".env"

/-! ## Loading -/

/-- The environment with the variables of a file added; those that are set already stay. -/
def load (e : Environment) (file : Table String String) : Environment :=
  file.foldl (fun e (n, v) => if e.has n then e else e.set n v) e

/-! ## Options -/

/-- The variable for the kind of source. -/
def sourceTypeName : String := "REFTRACE_SOURCE_TYPE"

/-- The variable for the names that are known to be there. -/
def globalsName : String := "REFTRACE_GLOBALS"

/-- The variable for the way in which functions of the library are found. -/
def traceModeName : String := "REFTRACE_TRACE_MODE"

/-- The variable for the modules of the library. -/
def libraryModulesName : String := "REFTRACE_LIBRARY_MODULES"

/-- The variable for the global objects of the library. -/
def globalObjectsName : String := "REFTRACE_GLOBAL_OBJECTS"

/-- The kinds of source. -/
def sourceTypes : List String := ["module", "script"]

/-- The ways in which functions of the library are found. -/
def traceModes : List String := ["esm", "global", "all"]

/-- A value that is one of several words. -/
def word (s : String) : String := String.ofList (Text.lower (Text.trim s.toList))

/-- A value that is a list: the pieces between commas, without blanks around them, as far as there
is something left. -/
def pieces (s : String) : List String :=
  (((s.toList.splitOn ',').map Text.trim).filter (!·.isEmpty)).map String.ofList

/-- The value of a variable, or the given default. -/
def valueOr (e : Environment) (name default : String) : String := (e.get? name).getD default

/-- The options that an environment describes. -/
def options (e : Environment) : Options where
  sourceType := word (valueOr e sourceTypeName "module")
  globals := pieces (valueOr e globalsName "")
  traceMode := word (valueOr e traceModeName "esm")
  libraryModules := pieces (valueOr e libraryModulesName "vue,@vue/composition-api")
  globalObjects := pieces (valueOr e globalObjectsName "Vue")

/-- A value that is none of the words it may be. -/
structure Invalid where
  /-- The variable. -/
  name : String
  /-- The words that it may be. -/
  allowed : List String
  /-- The word that it is. -/
  value : String
deriving DecidableEq, Repr

/-- What is wrong with a value. -/
def Invalid.message (i : Invalid) : String :=
  i.name ++ " must be one of " ++ ", ".intercalate i.allowed ++ ", got '" ++ i.value ++ "'"

/-- The options, if their words are among those they may be. -/
def validate (o : Options) : Except Invalid Options :=
  if !sourceTypes.contains o.sourceType then
    .error ⟨sourceTypeName, sourceTypes, o.sourceType⟩
  else if !traceModes.contains o.traceMode then
    .error ⟨traceModeName, traceModes, o.traceMode⟩
  else .ok o

end Settings

/-- The surroundings of the program. -/
structure Surroundings where
  environment : Environment := []
  workspace : Workspace := {}
  /-- The settings have been loaded and found valid. -/
  isLoaded : Bool := false

namespace Surroundings

/-- Sets a variable. -/
def set (s : Surroundings) (name value : String) : Surroundings :=
  { s with environment := s.environment.set name value }

/-- Removes a variable. -/
def unset (s : Surroundings) (name : String) : Surroundings :=
  { s with environment := s.environment.unset name }

/-- Writes a file. -/
def write (s : Surroundings) (path : String) (content : Source) : Surroundings :=
  { s with workspace := s.workspace.write path content }

/-- Loads settings, given the variables that the settings file sets. -/
def configureWith (s : Surroundings) (file : Table String String) :
    Except Settings.Invalid Options × Surroundings :=
  let e := Settings.load s.environment file
  (Settings.validate (Settings.options e), { s with environment := e })

/-- The options in force, given the variables that the settings file sets. Settings are loaded
unless that has been done before. -/
def currentWith (s : Surroundings) (file : Table String String) :
    Except Settings.Invalid Options × Surroundings :=
  if s.isLoaded then (.ok (Settings.options s.environment), s)
  else
    match s.configureWith file with
    | (.ok o, s) => (.ok o, { s with isLoaded := true })
    | (.error i, s) => (.error i, s)

/-- The variables that a file sets, the one with the usual name if none is given. -/
def fileVariables (s : Surroundings) (file : String) : Table String String :=
  match s.workspace.read? (Path.ofString (if file == "" then Settings.fileName else file)) with
  | none => []
  | some source => Settings.assignments (Utf8.decode source.bytes)

/-- Loads settings from a file. -/
def configure (s : Surroundings) (file : String) : Except Settings.Invalid Options × Surroundings :=
  s.configureWith (s.fileVariables file)

/-- The options in force. -/
def current (s : Surroundings) : Except Settings.Invalid Options × Surroundings :=
  s.currentWith (s.fileVariables "")

end Surroundings

end RefFlow

import RefFlow.Concrete.Reader
import RefFlow.Report

/-!
# The command line

Lists the references to reactive values in a file. Standard input holds the concrete tree of the
file in its textual form.
-/

namespace RefFlow.CommandLine

/-- How the program is called. -/
def usage : String :=
  "usage: refs FILE [--language LANGUAGE] [--chain] | reactive FILE [--language LANGUAGE] | "
    ++ "--version"

/-- The language asked for among arguments. -/
def language? : List String → Option String
  | "--language" :: l :: _ | "-l" :: l :: _ => some l
  | _ :: rest => language? rest
  | [] => none

/-- The command that arguments spell. -/
def command? : List String → Option Report.Command
  | ["--version"] => some (.version true)
  | "refs" :: path :: rest => some (.refs path (language? rest) (rest.contains "--chain"))
  | "reactive" :: path :: rest => some (.reactive path (language? rest))
  | _ => none

/-- The file that a command is about. -/
def file? : Report.Command → Option String
  | .refs path _ _ | .reactive path _ => some path
  | .version _ => none

/-- The lines that are shown of something printed. -/
def lines : Report.Printed → List String
  | .line s => [s]
  | .listing l => l.title :: "  ".intercalate l.headers :: l.rows.map ("  ".intercalate ·)

/-- What is said of a fault. -/
def faultMessage : Fault → String
  | .missingField kind field => "A node of kind " ++ kind.name ++ " has no " ++ field.text ++ "."
  | .notAList kind field =>
    "The " ++ field.text ++ " of a node of kind " ++ kind.name ++ " is no list."
  | .overlongNumber => "A number has too many digits."
  | .missingNode role => "A construct lacks its " ++ role ++ "."
  | .emptyName => "A name has no segments."
  | .outsideScope => "A name stands outside all scopes."
  | .noScope => "There is no such scope."
  | .overlongPath => "The path is too long."

/-- The variables that the settings are read from. -/
def variableNames : List String :=
  [Settings.sourceTypeName, Settings.globalsName, Settings.traceModeName,
   Settings.libraryModulesName, Settings.globalObjectsName]

/-- The environment of the process, as far as it concerns the settings. -/
def environment : IO Environment := do
  let found ← variableNames.filterMapM fun n => do
    return (← IO.getEnv n).map fun v => (n, v)
  return found

/-- The workspace with a file added, if it can be read. -/
def withFile (w : Workspace) (path : String) : IO Workspace := do
  try
    let bytes ← IO.FS.readBinFile path
    return w.write path ⟨bytes.toList⟩
  catch _ => return w

/-- Runs a command and prints what it leads to. -/
def report (tree : Concrete Unit) (s : Surroundings) (command : Report.Command) : IO UInt32 := do
  match Report.run (fun _ _ => tree) s command with
  | .error f =>
    IO.eprintln (faultMessage f)
    return 1
  | .ok o =>
    for p in o.printed do
      for l in lines p do
        IO.println (String.ofList (Text.Markup.shown l.toList))
    return o.status.toUInt32

end RefFlow.CommandLine

open RefFlow RefFlow.CommandLine in
/-- Runs the command that the arguments spell. -/
def main (args : List String) : IO UInt32 := do
  match command? args with
  | none =>
    IO.eprintln usage
    return 2
  | some command =>
    let workspace ← withFile {} Settings.fileName
    let workspace ← match file? command with
      | some path => withFile workspace path
      | none => pure workspace
    let tree ← match file? command with
      | some _ => do pure (Concrete.read? (← (← IO.getStdin).readToEnd).toList)
      | none => pure (some (.mk () ⟨"program", true, none, ⟨0, 0⟩, []⟩))
    match tree with
    | none =>
      IO.eprintln "Standard input holds no tree."
      return 2
    | some tree => report tree { environment := ← environment, workspace := workspace } command

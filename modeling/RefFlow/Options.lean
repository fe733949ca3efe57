/-!
# Options of an analysis

What an analysis is asked to do. Options are not validated here: a mode that is not one of the known
ones finds nothing, and any kind of source other than a module is a script.
-/

namespace RefFlow

/-- How a program is to be analysed. -/
structure Options where
  /-- How the program is run: as a module, or as a script. -/
  sourceType : String := "module"
  /-- Names that are known to be there without a declaration. -/
  globals : List String := []
  /-- How the functions of the library come into the program. -/
  traceMode : String := "esm"
  /-- The modules that export the functions of the library. -/
  libraryModules : List String := ["vue", "@vue/composition-api"]
  /-- The global objects that hold the functions of the library. -/
  globalObjects : List String := ["Vue"]
deriving DecidableEq, Repr, Inhabited

namespace Options

/-- The functions of the library are looked for in imports. -/
def tracesImports (o : Options) : Bool := o.traceMode == "esm" || o.traceMode == "all"

/-- The functions of the library are looked for in global objects. -/
def tracesGlobals (o : Options) : Bool := o.traceMode == "global" || o.traceMode == "all"

end Options

end RefFlow

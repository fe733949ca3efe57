import RefFlow.Path
import RefFlow.Source
import RefFlow.Table

/-!
# Files

The files and directories that are known, below the working directory and elsewhere. A path is
followed component by component, and every component but the last must be a directory.
-/

namespace RefFlow

/-- Files by their paths, and directories, which have no content. -/
structure Workspace where
  entries : Table Path (Option Source) := []

namespace Workspace

/-- Adds a file. -/
def write (w : Workspace) (path : String) (s : Source) : Workspace :=
  ⟨w.entries.set (Path.ofString path) (some s)⟩

/-- Adds a directory. -/
def makeDirectory (w : Workspace) (path : String) : Workspace :=
  ⟨w.entries.set (Path.ofString path) none⟩

/-- A path leads to a directory: to the place it starts from or one above, to a directory that was
made, or to one that something is in. -/
def isDirectory (w : Workspace) (p : Path) : Bool :=
  p.components.all (· == Path.parentName) || w.entries.any fun (q, s) =>
    q.root == p.root &&
      (q.components == p.components && s.isNone ||
        p.components.isPrefixOf q.components && p.components.length < q.components.length)

/-- Goes up from a place that is given by its components, the last one first. Nothing is above the
root, and what is above the working directory is known by how far it is above. -/
def goUp (root : String) : List String → List String
  | [] => if root == "" then [Path.parentName] else []
  | c :: up => if c == Path.parentName then Path.parentName :: c :: up else up

/-- Follows components from a place that is given by its own components, the last one first. -/
def resolve (w : Workspace) (root : String) : List String → List String → Option Path
  | here, [] => some ⟨root, here.reverse⟩
  | here, c :: cs =>
    if w.isDirectory ⟨root, here.reverse⟩ then
      if c == Path.parentName then w.resolve root (goUp root here) cs
      else w.resolve root (c :: here) cs
    else none

/-- The length of the longest name that is looked up, in bytes. -/
def maxName : Nat := 255

/-- The length of the longest path that is looked up, in bytes. -/
def maxPath : Nat := 4095

/-- Following components from a place leads to a name that is too long. -/
def meetsOverlongName (w : Workspace) (root : String) : List String → List String → Bool
  | _, [] => false
  | here, c :: cs =>
    if w.isDirectory ⟨root, here.reverse⟩ then
      if c == Path.parentName then w.meetsOverlongName root (goUp root here) cs
      else maxName < c.utf8ByteSize || w.meetsOverlongName root (c :: here) cs
    else false

/-- A path cannot be looked up because it is too long, or leads to a name that is. A path with a
zero character in it is not looked up at all. -/
def isOverlong (w : Workspace) (p : Path) : Bool :=
  !p.text.toList.contains (Char.ofNat 0) &&
    (maxPath < p.text.utf8ByteSize || w.meetsOverlongName p.root [] p.components)

/-- The content of the file at a path. -/
def read? (w : Workspace) (p : Path) : Option Source := do
  (w.entries.get? (← w.resolve p.root [] p.components)).join

end Workspace

end RefFlow

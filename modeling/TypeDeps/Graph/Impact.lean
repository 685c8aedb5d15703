import TypeDeps.Graph.Basic
import TypeDeps.Error

/-!
# Impact

A change to a file touches every file that references one of the names it declares. The
relation is followed for one step only, so a file that references nothing of the changed one
is left out even when it references a touched file.
-/
namespace TypeDeps

/-- The answer to one question: the changed path as it was asked for, and the touched paths
in graph order. -/
structure Impact where
  changed : Path
  touched : List Path
  deriving DecidableEq, Repr

namespace SourceFile

/-- The file references one of these names. -/
def references? (f : SourceFile) (names : List String) : Bool :=
  f.references.any (fun n => names.contains n)

end SourceFile

namespace Graph

/-- The files that a change to the path touches. -/
def impactedBy (g : Graph) (path : Path) : Except Error (List SourceFile) :=
  match g.find? path with
  | none => .error (.notInGraph path)
  | some changed => .ok (g.files.filter (·.references? changed.declares))

def impact (g : Graph) (path : Path) : Except Error Impact :=
  (g.impactedBy path).map fun files => ⟨path, files.map SourceFile.path⟩

end Graph

/-- The change touches the changed file itself. -/
def Impact.isSelfReferencing (i : Impact) : Bool := i.touched.any (·.Same i.changed)

end TypeDeps

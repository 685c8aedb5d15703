import TypeDeps.Path

/-!
# Source files

One scanned source file: the type names it declares and the ones it references, in the order
and as often as they were found.
-/
namespace TypeDeps

structure SourceFile where
  path : Path
  declares : List String
  references : List String
  deriving DecidableEq, Repr

namespace SourceFile

/-- Equal lists, and spellings of one path. -/
def Same (a b : SourceFile) : Prop :=
  a.path.Same b.path ∧ a.declares = b.declares ∧ a.references = b.references

instance (a b : SourceFile) : Decidable (Same a b) := inferInstanceAs (Decidable (_ ∧ _ ∧ _))

/-- What equality looks at, as one value. -/
def key (f : SourceFile) : List Path.Component × List String × List String :=
  (f.path.components, f.declares, f.references)

def isLeaf (f : SourceFile) : Bool := f.references.isEmpty

end SourceFile

end TypeDeps

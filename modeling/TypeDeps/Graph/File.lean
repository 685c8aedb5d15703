import TypeDeps.Document.Reader
import TypeDeps.Document.Writer
import TypeDeps.Storage

/-!
# Graph files

A graph is kept in a file as its document. Writing replaces the file all at once.
-/
namespace TypeDeps.Graph

variable {m : Type → Type} [Monad m] [Storage m]

def load (p : Path) : Task m Graph := do
  let bytes ← Storage.read p
  liftExcept (Graph.readStream bytes)

def save (p : Path) (g : Graph) : Task m Unit := do
  let text ← liftExcept g.write
  Storage.writeAtomic p (bytesOf text)

end TypeDeps.Graph

import TypeDeps.Settings.Reader
import TypeDeps.Settings.Writer
import TypeDeps.Storage

/-!
# Settings files
-/
namespace TypeDeps.Settings

variable {m : Type → Type} [Monad m] [Storage m]

def load (p : Path) : Task m Settings := do
  let text ← Storage.readText p
  liftExcept (Settings.read text)

/-- The settings of a file, or the standard ones if there is none. -/
def loadOrStandard (p : Path) : Task m Settings := do
  if ← Storage.has p then load p else pure standard

/-- Settings that cannot be written leave the file alone. -/
def save (p : Path) (s : Settings) : Task m Unit := do
  let text ← liftExcept s.write
  Storage.write p (bytesOf text)

end TypeDeps.Settings

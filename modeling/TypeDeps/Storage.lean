import TypeDeps.Disk.Operations

/-!
# Storage

What the library needs of a file system, so that the same definitions run on a real one and
on a `Disk`. A file is replaced in steps that never let a reader see a part of it: the new
content is written to a temporary file beside it, which then takes its place.
-/
namespace TypeDeps

class Storage (m : Type → Type) where
  contentAt : Path → m (Except StorageFailure (List UInt8))
  isThere : Path → m Bool
  /-- Make a directory and those above it that are missing. -/
  makeDirs : Path → m (Except StorageFailure Unit)
  setContent : Path → List UInt8 → m (Except StorageFailure Unit)
  /-- Move a file to a path, in the stead of a file that was there. -/
  replace (source target : Path) : m (Except StorageFailure Unit)

namespace Disk

/-- A disk changes only if the operation succeeds. -/
def change (f : Disk → Except StorageFailure Disk) : StateM Disk (Except StorageFailure Unit) :=
  fun d =>
    match f d with
    | .ok d => (.ok (), d)
    | .error e => (.error e, d)

instance : Storage (StateM Disk) where
  contentAt p := fun d => (d.contentAt p, d)
  isThere p := fun d => (d.isThere p, d)
  makeDirs p := fun d => d.makeDirs p
  setContent p bytes := change fun d => d.setContent p bytes
  replace source target := change fun d => d.replace source target

end Disk

/-- Work on files that may fail. -/
abbrev Task (m : Type → Type) := ExceptT Error m

namespace Storage

variable {m : Type → Type} [Monad m] [Storage m]

def task {α : Type} (x : m (Except StorageFailure α)) : Task m α :=
  ExceptT.mk (Except.mapError Error.storage <$> x)

def read (p : Path) : Task m (List UInt8) := task (contentAt p)

def readText (p : Path) : Task m String := do
  match stringOf? (← read p) with
  | some text => pure text
  | none => throw (.storage .notText)

def write (p : Path) (bytes : List UInt8) : Task m Unit := task (setContent p bytes)

def has (p : Path) : Task m Bool := ExceptT.lift (isThere p)

/-- The directory that a file is put into, unless it is the working directory. -/
def directoryOf? (p : Path) : Option Path := p.parent?.filter fun q => q.bytes ≠ []

def temporary (p : Path) : Path := p.append ".tmp"

/-- Give a file this content all at once. -/
def writeAtomic (p : Path) (bytes : List UInt8) : Task m Unit := do
  match directoryOf? p with
  | some directory => task (makeDirs directory)
  | none => pure ()
  write (temporary p) bytes
  task (replace (temporary p) p)

end Storage

end TypeDeps

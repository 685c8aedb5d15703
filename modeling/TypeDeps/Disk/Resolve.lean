import TypeDeps.Disk.Basic
import TypeDeps.Error

/-!
# Where paths lead

A path is followed name by name, and every place that is passed must be a directory. The last
name may be free: `spot?` answers the directory it is looked up in.
-/
namespace TypeDeps.Disk

/-- The longest name. -/
def nameLimit : Nat := 255

/-- The bytes of the longest path, with the one that ends it. -/
def pathLimit : Nat := 4096

/-- Paths that lead nowhere on any disk. -/
def checkPath (p : Path) : Except StorageFailure Unit :=
  if p.bytes.contains 0 then .error .nulInPath
  else if p.bytes = [] then .error .notFound
  else if pathLimit ≤ p.bytes.length then .error .nameTooLong
  else .ok ()

/-- The names in a path. Repeated slashes count as one. -/
def names (p : Path) : List Name := p.segments.filter (· ≠ [])

/-- A slash at the end calls for a directory. -/
def endsInSlash (p : Path) : Bool := p.bytes.getLast? = some Path.slash

def origin (d : Disk) (p : Path) : Place := if p.isAbsolute then [] else d.here

/-- Names can be looked up at this place. -/
def enter (d : Disk) (at_ : Place) : Except StorageFailure Unit :=
  match d.at? at_ with
  | none => .error .notFound
  | some (.file _) => .error .notDirectory
  | some .directory => .ok ()

/-- Follow one name. -/
def follow (d : Disk) (at_ : Place) (n : Name) : Except StorageFailure Place := do
  d.enter at_
  if n = [Path.dot] then pure at_
  else if n = [Path.dot, Path.dot] then pure at_.dropLast
  else if nameLimit < n.length then .error .nameTooLong
  else pure (at_ ++ [n])

/-- What a path leads to. -/
def find? (d : Disk) (p : Path) : Except StorageFailure (Place × Node) := do
  checkPath p
  let place ← (names p).foldlM d.follow (d.origin p)
  match d.at? place with
  | none => .error .notFound
  | some .directory => pure (place, .directory)
  | some (.file content) =>
    if endsInSlash p then .error .notDirectory else pure (place, .file content)

/-- The last name of a path and the directory to look it up in. -/
structure Spot where
  directory : Place
  /-- Nothing if the path ends in dots or is the root. -/
  name? : Option Name
  slash : Bool
  deriving DecidableEq, Repr

namespace Spot

def isSpecial (n : Name) : Bool := n = [Path.dot] || n = [Path.dot, Path.dot]

end Spot

def spot? (d : Disk) (p : Path) : Except StorageFailure Spot := do
  checkPath p
  let directory ← (names p).dropLast.foldlM d.follow (d.origin p)
  d.enter directory
  let name? := (names p).getLast?.filter fun n => !Spot.isSpecial n
  pure ⟨directory, name?, endsInSlash p⟩

/-- The place of a free or taken name. -/
def Spot.place (s : Spot) (n : Name) : Except StorageFailure Place :=
  if nameLimit < n.length then .error .nameTooLong else .ok (s.directory ++ [n])

end TypeDeps.Disk

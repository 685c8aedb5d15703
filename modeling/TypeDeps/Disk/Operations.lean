import TypeDeps.Disk.Resolve

/-!
# Reading and changing disks

Every operation answers the disk behind it together with its result. A failed operation
leaves the disk as it was, but for the directories that have been made on the way.
-/
namespace TypeDeps.Disk

def contentAt (d : Disk) (p : Path) : Except StorageFailure (List UInt8) := do
  match ← d.find? p with
  | (_, .file content) => pure content
  | (_, .directory) => .error .isDirectory

/-- The path leads to a file or a directory. -/
def isThere (d : Disk) (p : Path) : Bool := (d.find? p).isOk

def isDirectoryAt (d : Disk) (p : Path) : Bool :=
  match d.find? p with
  | .ok (_, .directory) => true
  | _ => false

/-- Make one directory. -/
def makeDir (d : Disk) (p : Path) : Except StorageFailure Disk := do
  let s ← d.spot? p
  match s.name? with
  | none => .error .exists_
  | some n =>
    let place ← s.place n
    match d.at? place with
    | some _ => .error .exists_
    | none => pure (d.put place .directory)

/-- The path and the directories above it, the innermost one first, without the root and the
working directory. The number bounds how many there are. -/
def upward : Nat → Path → List Path
  | 0, _ => []
  | n + 1, p =>
    match p.parent? with
    | none => []
    | some q => p :: upward n q

/-- Make the first of these directories that has one above it. Those that have to wait for it
are answered, the outermost one first. A directory that is there already will do. -/
def makeOutermost (d : Disk) (waiting : List Path) : List Path →
    Except StorageFailure (Disk × List Path)
  | [] => .ok (d, waiting)
  | p :: above =>
    match d.makeDir p with
    | .ok d => .ok (d, waiting)
    | .error .notFound => makeOutermost d (p :: waiting) above
    | .error .exists_ => if d.isDirectoryAt p then .ok (d, waiting) else .error .exists_
    | .error e => .error e

/-- Make these directories one after the other. -/
def makeEach (d : Disk) : List Path → Except StorageFailure Unit × Disk
  | [] => (.ok (), d)
  | p :: inner =>
    match d.makeDir p with
    | .ok d => makeEach d inner
    | .error .exists_ => if d.isDirectoryAt p then makeEach d inner else (.error .exists_, d)
    | .error e => (.error e, d)

/-- Make a directory and those above it that are missing. -/
def makeDirs (d : Disk) (p : Path) : Except StorageFailure Unit × Disk :=
  match d.makeOutermost [] (upward (p.components.length + 1) p) with
  | .error e => (.error e, d)
  | .ok (d, waiting) => d.makeEach waiting

/-- Open a file for writing: an empty one, whatever was in it. -/
def create (d : Disk) (p : Path) : Except StorageFailure (Place × Disk) := do
  let s ← d.spot? p
  match s.name? with
  | none => .error .isDirectory
  | some n =>
    if s.slash then .error .isDirectory
    else
      let place ← s.place n
      if d.isDirectory place then .error .isDirectory
      else pure (place, d.put place (.file []))

/-- Write at the end of an open file. -/
def append (d : Disk) (place : Place) (bytes : List UInt8) : Disk :=
  match d.at? place with
  | some (.file content) => d.put place (.file (content ++ bytes))
  | _ => d

/-- Give a file this content. -/
def setContent (d : Disk) (p : Path) (bytes : List UInt8) : Except StorageFailure Disk := do
  let (place, d) ← d.create p
  pure (d.append place bytes)

/-- Move a file to a place, in the stead of a file that was there. -/
def replace (d : Disk) (source target : Path) : Except StorageFailure Disk := do
  if target.bytes.contains 0 then throw .nulInPath
  let s ← d.spot? source
  let t ← d.spot? target
  match s.name?, t.name? with
  | some m, some n =>
    let old ← s.place m
    match d.at? old with
    | none => .error .notFound
    | some .directory => .error .isDirectory
    | some (.file content) =>
      let new ← t.place n
      if s.slash || t.slash then .error .notDirectory
      else if new.isPrefixOf old && new ≠ old then .error .notEmpty
      else if d.isDirectory new then .error .isDirectory
      else pure ((d.erase old).put new (.file content))
  | _, _ => .error .busy

/-- Remove a file, or a directory with everything below it. -/
def remove (d : Disk) (p : Path) : Except StorageFailure Disk := do
  let (place, _) ← d.find? p
  if place.isPrefixOf d.here then .error .busy
  else pure { d with nodes := d.nodes.filter fun x => !place.isPrefixOf x.1 }

end TypeDeps.Disk

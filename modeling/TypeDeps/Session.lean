import TypeDeps.ReferenceFilter
import TypeDeps.Store.Fragment

/-!
# Sessions

A session scans the files of a module one after the other and ends with the graph of all of
them. A file whose fragment is up to date is taken from there, any other one is extracted and
its fragment written. Files are kept in the order of their scans.
-/
namespace TypeDeps

inductive ScanOutcome where
  | cached
  | extracted
  deriving DecidableEq, Repr

/-- What finds out which names a source file declares and references. -/
abbrev Extractor := Path → Except Error SourceFile

structure Session where
  store : Store
  filter : ReferenceFilter
  files : List SourceFile
  cached : Nat
  extracted : Nat
  deriving DecidableEq, Repr

/-- What a session leaves behind: the graph, where it has been written, and how many files
were cached and extracted. -/
structure SessionResult where
  path : Path
  graph : Graph
  cached : Nat
  extracted : Nat
  deriving DecidableEq, Repr

namespace Session

variable {m : Type → Type} [Monad m] [Storage m]

def start (store : Store) (filter : ReferenceFilter) : Session := ⟨store, filter, [], 0, 0⟩

/-- The session behind a scan that found these files. -/
def add (s : Session) (outcome : ScanOutcome) (files : List SourceFile) : Session :=
  match outcome with
  | .cached => { s with files := s.files ++ files, cached := s.cached + 1 }
  | .extracted => { s with files := s.files ++ files, extracted := s.extracted + 1 }

/-- The content of a source, where the store compares it. -/
def sourceOf (s : Session) (path : Path) : Task m (Option (List UInt8)) :=
  match s.store.cacheMode with
  | .existence => pure none
  | .contentHash => some <$> Storage.read path

/-- Scan a file. Its fragment is named after the path as it is displayed. -/
def scan (digesting : Store.Digesting) (extract : Extractor) (s : Session) (path : Path) :
    Task m (ScanOutcome × Session) := do
  let key := path.display
  let source? ← s.sourceOf path
  if ← s.store.isCached digesting key source? then
    let fragment ← s.store.readFragment key
    pure (.cached, s.add .cached fragment.files)
  else
    let file ← liftExcept (extract path)
    let filtered := s.filter.apply file
    let _ ← s.store.writeFragment digesting key ⟨[filtered]⟩ source?
    pure (.extracted, s.add .extracted [filtered])

/-- Write the graph of all scanned files. -/
def finish (s : Session) : Task m SessionResult := do
  let graph : Graph := ⟨s.files⟩
  let path ← s.store.writeModule graph
  pure ⟨path, graph, s.cached, s.extracted⟩

end Session

end TypeDeps

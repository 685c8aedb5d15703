import TypeDeps.Graph.File
import TypeDeps.Store.Basic
import TypeDeps.Text.Blank

/-!
# Fragments in a store

A fragment is written once its file has been scanned and read back as long as it counts as up
to date. The digest is a function of the source's content that the caller chooses. It is
written behind the fragment that it vouches for.
-/
namespace TypeDeps.Store

variable {m : Type → Type} [Monad m] [Storage m]

/-- How the content of a source is put into a short text. -/
abbrev Digesting := List UInt8 → String

/-- The stored digest, blanks at its ends apart, is the one of the source. -/
def vouches (stored digest : String) : Bool := Text.trim stored.toList = digest.toList

/-- The fragment of this key is up to date. Without a source there is nothing to compare. -/
def isCached (digesting : Digesting) (s : Store) (key : String) (source? : Option (List UInt8)) :
    Task m Bool := do
  if ← Storage.has (s.fragmentPath key) then
    match s.cacheMode, source? with
    | .existence, _ => pure true
    | .contentHash, none => pure false
    | .contentHash, some source =>
      if ← Storage.has (s.digestPath key) then
        let stored ← Storage.readText (s.digestPath key)
        pure (vouches stored (digesting source))
      else pure false
  else pure false

/-- Write a fragment and, where it counts, the digest of its source. -/
def writeFragment (digesting : Digesting) (s : Store) (key : String) (fragment : Graph)
    (source? : Option (List UInt8)) : Task m Path := do
  fragment.save (s.fragmentPath key)
  match s.cacheMode, source? with
  | .contentHash, some source =>
    Storage.writeAtomic (s.digestPath key) (bytesOf (digesting source))
  | _, _ => pure ()
  pure (s.fragmentPath key)

def readFragment (s : Store) (key : String) : Task m Graph := Graph.load (s.fragmentPath key)

def writeModule (s : Store) (g : Graph) : Task m Path := do
  g.save s.modulePath
  pure s.modulePath

def readModule (s : Store) : Task m Graph := Graph.load s.modulePath

end TypeDeps.Store

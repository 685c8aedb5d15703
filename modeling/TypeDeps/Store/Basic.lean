import TypeDeps.Path

/-!
# Stores and their file names

A store keeps its files in one directory: a fragment for each scanned file, named after the
file's key, in one mode a digest beside it, and one graph for the whole module.
-/
namespace TypeDeps

/-- When a fragment counts as up to date. -/
inductive CacheMode where
  /-- As soon as it is there. -/
  | existence
  /-- If the digest beside it is that of the file's present content. -/
  | contentHash
  deriving DecidableEq, Repr

namespace CacheMode

def name : CacheMode → String
  | existence => "existence"
  | contentHash => "content-hash"

def all : List CacheMode := [existence, contentHash]

def ofName? (s : String) : Option CacheMode := all.find? (·.name = s)

end CacheMode

structure Store where
  outputDir : Path
  moduleKey : String
  cacheMode : CacheMode
  deriving DecidableEq, Repr

namespace Store

/-- The store in the working directory, without a module key. -/
def plain : Store := ⟨⟨[]⟩, "", .existence⟩

/-- A key without the slashes of either kind in front, so that it cannot name an absolute
path. -/
def relativeKey (key : String) : String :=
  String.ofList (key.toList.dropWhile fun c => c = '/' || c = '\\')

def fragmentPath (s : Store) (key : String) : Path :=
  s.outputDir.join (.ofString (relativeKey key ++ ".json"))

def digestPath (s : Store) (key : String) : Path :=
  s.outputDir.join (.ofString (relativeKey key ++ ".json" ++ ".sha256"))

/-- The name that an empty module key stands for. -/
def defaultModule : String := "module"

def moduleName (s : Store) : String := if s.moduleKey = "" then defaultModule else s.moduleKey

def modulePath (s : Store) : Path := s.outputDir.join (.ofString (s.moduleName ++ "-graph.json"))

end Store

end TypeDeps

import TypeDeps.ReferenceFilter
import TypeDeps.Store.Basic

/-!
# Settings

What a settings file fixes: where graphs are kept and under which names, when fragments count
as up to date, and which references are left out.
-/
namespace TypeDeps

structure Settings where
  outputDir : Path
  moduleKey : String
  cacheMode : CacheMode
  excludedPrefixes : List String
  deriving DecidableEq, Repr

namespace Settings

/-- The settings that hold where a file says nothing. -/
def standard : Settings := ⟨.ofString ".", "", .existence, ReferenceFilter.platform.excluded⟩

/-- The settings file that is looked for when none is named. -/
def fileName : String := "typegraph.yaml"

/-- The members of a settings file. -/
inductive Field where
  | outputDir
  | moduleKey
  | cacheMode
  | excludedPrefixes
  deriving DecidableEq, Repr

namespace Field

def all : List Field := [outputDir, moduleKey, cacheMode, excludedPrefixes]

def name : Field → String
  | outputDir => "output-dir"
  | moduleKey => "module-key"
  | cacheMode => "cache-mode"
  | excludedPrefixes => "excluded-prefixes"

def ofName? (s : String) : Option Field := all.find? (·.name = s)

end Field

def store (s : Settings) : Store := ⟨s.outputDir, s.moduleKey, s.cacheMode⟩

def filter (s : Settings) : ReferenceFilter := ⟨s.excludedPrefixes⟩

end Settings

end TypeDeps

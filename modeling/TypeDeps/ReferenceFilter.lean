import TypeDeps.SourceFile

/-!
# Reference filters

Extractors name nested types with `$`; everywhere else they are written with `.`. A filter
brings all names of a file into that form and then drops the references that start with one
of its excluded namespaces. Declared names are never dropped.
-/
namespace TypeDeps

def dottedChar (c : Char) : Char := if c = '$' then '.' else c

/-- The name with `.` for every `$`. -/
def dotted (name : String) : String := String.ofList (name.toList.map dottedChar)

structure ReferenceFilter where
  excluded : List String
  deriving DecidableEq, Repr

namespace ReferenceFilter

/-- The filter that leaves out the platform's own types. -/
def platform : ReferenceFilter := ⟨["java.", "javax."]⟩

/-- The filter that keeps every reference. -/
def keepAll : ReferenceFilter := ⟨[]⟩

/-- The name starts with an excluded namespace, letter by letter. -/
def excludes (filter : ReferenceFilter) (name : String) : Bool :=
  filter.excluded.any fun lead => lead.toList.isPrefixOf name.toList

def apply (filter : ReferenceFilter) (f : SourceFile) : SourceFile :=
  { path := f.path
    declares := f.declares.map dotted
    references := (f.references.map dotted).filter fun n => !filter.excludes n }

end ReferenceFilter

end TypeDeps

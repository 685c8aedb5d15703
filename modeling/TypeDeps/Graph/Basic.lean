import TypeDeps.SourceFile

/-!
# Dependency graphs

A graph is a list of source files. Its order is the order in which they were scanned and it
decides two things: a path stands for the first file that has it, and a type name belongs to
the last file that declares it. A name that several files declare is reported as a clash.
-/
namespace TypeDeps

structure Graph where
  files : List SourceFile
  deriving DecidableEq, Repr

/-- A type name and the files that declare it, the owner last. -/
structure Clash where
  name : String
  paths : List Path
  deriving DecidableEq, Repr

namespace Graph

def size (g : Graph) : Nat := g.files.length

def isEmpty (g : Graph) : Bool := g.files.isEmpty

/-- The first file with this path. -/
def find? (g : Graph) (path : Path) : Option SourceFile :=
  g.files.find? (fun f => f.path.Same path)

/-- The path of the last file that declares the name. -/
def owner? (g : Graph) (name : String) : Option Path :=
  (g.files.reverse.find? (fun f => name ∈ f.declares)).map SourceFile.path

/-- The names that are declared somewhere, in the order of their first declaration. -/
def declaredNames (g : Graph) : List String :=
  (g.files.flatMap SourceFile.declares).foldl
    (fun seen name => if name ∈ seen then seen else seen ++ [name]) []

end Graph

/-- The names seen so far, each with its declaring paths, the latest path first. -/
abbrev Declarers := List (String × List Path)

namespace Declarers

/-- A path is added unless it is the latest one already. -/
def addPath (path : Path) : List Path → List Path
  | [] => [path]
  | p :: ps => if p.Same path then p :: ps else path :: p :: ps

def add (path : Path) (name : String) : Declarers → Declarers
  | [] => [(name, [path])]
  | (n, ps) :: rest =>
    if n = name then (n, addPath path ps) :: rest else (n, ps) :: add path name rest

def addFile (d : Declarers) (f : SourceFile) : Declarers :=
  f.declares.foldl (fun d name => add f.path name d) d

end Declarers

namespace Graph

def declarers (g : Graph) : Declarers := g.files.foldl Declarers.addFile []

/-- The names with more than one declaring path, in the order in which they were first seen. -/
def clashes (g : Graph) : List Clash :=
  g.declarers.filterMap fun (name, paths) =>
    if 1 < paths.length then some ⟨name, paths.reverse⟩ else none

end Graph

end TypeDeps

import TypeDeps.Graph.Basic

/-!
# Drawing a graph

The drawing lists statements in graph order: a node for a file without references, and for
every other file one edge to the owner of each referenced name that has one. A file whose
references all lead out of the graph leaves no trace.
-/
namespace TypeDeps

namespace Dot

inductive Statement where
  | node (path : Path)
  | edge (source target : Path)
  deriving DecidableEq, Repr

def statementsOf (g : Graph) (f : SourceFile) : List Statement :=
  if f.isLeaf then [.node f.path]
  else (f.references.filterMap g.owner?).map (.edge f.path)

def statements (g : Graph) : List Statement := g.files.flatMap (statementsOf g)

/-- A quote inside a quoted string is written after a backslash. -/
def escape (cs : List Char) : List Char :=
  cs.flatMap fun c => if c = '\x22' then ['\\', '\x22'] else [c]

def quote (p : Path) : List Char := '\x22' :: escape (Utf8.lossy p.bytes) ++ ['\x22']

def Statement.text : Statement → List Char
  | .node p => "  ".toList ++ quote p ++ ";\n".toList
  | .edge p q => "  ".toList ++ quote p ++ " -> ".toList ++ quote q ++ ";\n".toList

def header : List Char := "digraph module \x7b\n".toList

def footer : List Char := "\x7d\n".toList

end Dot

/-- The whole drawing in the DOT language. -/
def Graph.dot (g : Graph) : String :=
  String.ofList (Dot.header ++ (Dot.statements g).flatMap Dot.Statement.text ++ Dot.footer)

end TypeDeps

import TypeDeps.Graph.Impact

/-!
# Notices

What the program says about its work besides its answers. Clashes are always worth a warning;
the rest is said only on request.
-/
namespace TypeDeps.CommandLine

inductive Notice where
  | clash (c : Clash)
  | built (files names : Nat)
  | impact (changed : Path) (touched : Nat)
  deriving DecidableEq, Repr

namespace Notice

def isWarning : Notice → Bool
  | clash _ => true
  | _ => false

/-- Warnings are shown in any case, the others from the second request on. -/
def isShown (verbosity : Nat) (n : Notice) : Bool := n.isWarning || 2 ≤ verbosity

def text : Notice → String
  | clash c =>
    "type declared by more than one file; last declaration wins type_name=" ++ c.name ++
      " declarers=" ++ toString c.paths.length ++
      " owner=" ++ (c.paths.getLast?.map Path.display).getD ""
  | built files names =>
    "Built dependency graph records=" ++ toString files ++ " declared_types=" ++ toString names
  | impact changed touched =>
    "Computed impact changed=" ++ changed.display ++ " impacted=" ++ toString touched

def line (n : Notice) : String := (if n.isWarning then " WARN " else "DEBUG ") ++ n.text ++ "\n"

/-- What is said when a graph has been built. -/
def ofGraph (g : Graph) : List Notice :=
  g.clashes.map clash ++ [built g.size g.declaredNames.length]

/-- What is said when an impact has been found. A file that declares nothing touches nothing,
which goes without saying. -/
def ofImpact (g : Graph) (i : Impact) : List Notice :=
  match g.find? i.changed with
  | some f => if f.declares.isEmpty then [] else [impact i.changed i.touched.length]
  | none => []

end Notice

end TypeDeps.CommandLine

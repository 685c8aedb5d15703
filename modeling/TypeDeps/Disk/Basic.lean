import TypeDeps.Path

/-!
# Disks

A disk is a tree of directories and files, held as a list of places with what lies there. A
place is the list of names that leads to it from the root, which always is a directory. Work
is done from one place, the working directory.
-/
namespace TypeDeps

abbrev Name := List UInt8

abbrev Place := List Name

inductive Node where
  | directory
  | file (content : List UInt8)
  deriving DecidableEq, Repr

structure Disk where
  nodes : List (Place × Node)
  here : Place
  deriving DecidableEq, Repr

namespace Disk

/-- What lies at a place. -/
def at? (d : Disk) (p : Place) : Option Node :=
  if p = [] then some .directory else (d.nodes.find? (·.1 = p)).map Prod.snd

def isDirectory (d : Disk) (p : Place) : Bool := d.at? p = some .directory

/-- Put something at a place, in the stead of what was there. -/
def put (d : Disk) (p : Place) (n : Node) : Disk :=
  { d with nodes := (p, n) :: d.nodes.filter (·.1 ≠ p) }

def erase (d : Disk) (p : Place) : Disk := { d with nodes := d.nodes.filter (·.1 ≠ p) }

@[simp] theorem at?_root (d : Disk) : d.at? [] = some .directory := by
  simp [at?]

theorem find?_filter_ne {p q : Place} (nodes : List (Place × Node)) (h : q ≠ p) :
    (nodes.filter (·.1 ≠ p)).find? (·.1 = q) = nodes.find? (·.1 = q) := by
  rw [List.find?_filter]
  congr 1
  funext a
  by_cases hq : a.1 = q
  · simp [hq, h]
  · simp [hq]

theorem find?_filter_self (p : Place) (nodes : List (Place × Node)) :
    (nodes.filter (·.1 ≠ p)).find? (·.1 = p) = none := by
  simp [List.find?_eq_none]

theorem at?_put (d : Disk) {p : Place} (hp : p ≠ []) (q : Place) (n : Node) :
    (d.put p n).at? q = if q = p then some n else d.at? q := by
  by_cases hq : q = p
  · subst hq
    simp [at?, put, hp]
  · by_cases hr : q = []
    · simp [at?, hr, Ne.symm hp]
    · have hpq : ¬p = q := fun e => hq e.symm
      simp only [at?, put, hr, if_false, hq, List.find?_cons, hpq, decide_false]
      rw [find?_filter_ne d.nodes hq]

theorem at?_erase (d : Disk) {p : Place} (hp : p ≠ []) (q : Place) :
    (d.erase p).at? q = if q = p then none else d.at? q := by
  by_cases hq : q = p
  · subst hq
    simp only [at?, erase, hp, if_false, if_true]
    rw [find?_filter_self]
    rfl
  · by_cases hr : q = []
    · simp [at?, hr, Ne.symm hp]
    · simp only [at?, erase, hr, if_false, hq]
      rw [find?_filter_ne d.nodes hq]

/-- All places on the way to a place, the root left out. -/
def placesTo (p : Place) : List Place := (List.range p.length).map fun n => p.take (n + 1)

/-- A disk without files whose working directory is this place. -/
def empty (here : Place) : Disk := ⟨(placesTo here).map fun p => (p, .directory), here⟩

/-! ## Listing -/

/-- The text order of byte strings. -/
def bytesLE (a b : List UInt8) : Bool := !(List.lex b a (· < ·))

/-- A place below the working directory as it is listed. Directories end in a slash. -/
def listed? (d : Disk) (entry : Place × Node) : Option (List UInt8) :=
  if d.here.isPrefixOf entry.1 && entry.1 ≠ d.here then
    let spelled := List.intercalate [Path.slash] (entry.1.drop d.here.length)
    some (if entry.2 = .directory then spelled ++ [Path.slash] else spelled)
  else none

/-- Everything below the working directory. -/
def listing (d : Disk) : List Path :=
  ((d.nodes.filterMap d.listed?).mergeSort bytesLE).map Path.mk

end Disk

end TypeDeps

import TypeDeps.Yaml.Event
import TypeDeps.Yaml.Tokens

/-!
# Streams

A stream holds one document as a list of items in which aliases are resolved. A name gets as
its number the count of names known so far, and an alias stands for the last node that got
the number of its name.
-/
namespace TypeDeps.Yaml

inductive ItemKind where
  /-- There is no document at all. -/
  | void
  | alias (number : Nat)
  | scalar (tag? : Option TagName) (text : List Char) (plain : Bool)
  | sequence (tag? : Option TagName)
  | mapping (tag? : Option TagName)
  /-- The end of a sequence or mapping. -/
  | close
  deriving DecidableEq, Repr

structure Item where
  kind : ItemKind
  mark : Mark
  deriving DecidableEq, Repr

/-- What keeps a stream from being a single document. -/
inductive Defect where
  | notWellFormed
  | unknownName (mark : Mark)
  | continued
  deriving DecidableEq, Repr

structure Stream where
  items : List Item
  /-- The places of the named nodes, the last one first. -/
  named : List (Nat × Nat)
  defect? : Option Defect
  deriving DecidableEq, Repr

namespace Stream

/-- The items from the node that an alias stands for. -/
def target (s : Stream) (number : Nat) : List Item :=
  match s.named.find? (·.1 = number) with
  | some (_, place) => s.items.drop place
  | none => []

/-- The names known so far and the items, the last one first. -/
structure Naming where
  names : List (List Char × Nat)
  items : List Item
  count : Nat
  named : List (Nat × Nat)
  deriving Repr

namespace Naming

def add (n : Naming) (item : Item) : Naming :=
  { n with items := item :: n.items, count := n.count + 1 }

/-- A name that is given again stays one name. -/
def define (n : Naming) : Option (List Char) → Naming
  | none => n
  | some name =>
    { n with
      names := (name, n.names.length) :: n.names.filter (·.1 ≠ name)
      named := (n.names.length, n.count) :: n.named }

/-- The next event. An alias without a node is a fault. -/
def step? (n : Naming) (e : Event) : Option Naming :=
  match e.kind with
  | .alias name =>
    (n.names.find? (·.1 = name)).map fun known => n.add ⟨.alias known.2, e.mark⟩
  | .scalar p text plain => some ((n.define p.anchor?).add ⟨.scalar p.tag? text plain, e.mark⟩)
  | .sequenceStart p => some ((n.define p.anchor?).add ⟨.sequence p.tag?, e.mark⟩)
  | .mappingStart p => some ((n.define p.anchor?).add ⟨.mapping p.tag?, e.mark⟩)
  | .sequenceEnd | .mappingEnd => some (n.add ⟨.close, e.mark⟩)

/-- The state at the end or at the first alias without a node, whose mark is answered. -/
def run (n : Naming) : List Event → Naming × Option Mark
  | [] => (n, none)
  | e :: es =>
    match n.step? e with
    | none => (n, some e.mark)
    | some n => n.run es

end Naming

def ofEvents (es : List Event) (ending : Ending) : Stream :=
  if es.isEmpty && ending = .whole then ⟨[⟨.void, .start⟩], [], none⟩
  else
    let (n, unknown?) := Naming.run ⟨[], [], 0, []⟩ es
    let defect? :=
      match unknown?, ending with
      | some mark, _ => some (.unknownName mark)
      | none, .faulty => some .notWellFormed
      | none, .continued => some .continued
      | none, .whole => none
    ⟨n.items.reverse, n.named, defect?⟩

def read (cs : List Char) : Stream :=
  let (es, ending) := events (tokens cs)
  ofEvents es ending

/-- The items behind a node. `depth` counts the collections that are open. -/
def afterNode (depth : Nat) : List Item → List Item
  | [] => []
  | i :: rest =>
    match i.kind with
    | .sequence _ | .mapping _ => afterNode (depth + 1) rest
    | .close => if depth ≤ 1 then rest else afterNode (depth - 1) rest
    | _ => if depth = 0 then rest else afterNode depth rest

theorem length_afterNode_le (items : List Item) (depth : Nat) :
    (afterNode depth items).length ≤ items.length := by
  induction items generalizing depth with
  | nil => simp [afterNode]
  | cons i rest ih =>
    unfold afterNode
    split
    · exact Nat.le_succ_of_le (ih _)
    · exact Nat.le_succ_of_le (ih _)
    · split
      · simp
      · exact Nat.le_succ_of_le (ih _)
    · split
      · simp
      · exact Nat.le_succ_of_le (ih _)

end Stream

end TypeDeps.Yaml

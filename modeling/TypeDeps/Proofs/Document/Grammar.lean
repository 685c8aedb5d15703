import TypeDeps.Graph.Basic
import TypeDeps.Proofs.Json.Grammar

/-!
# The grammar of documents

A record is an object that has each of its fields once, among any other members, or the array
of the fields' values in their order. A document is a record with the field `files`, a list of
records with the fields `path`, `classes` and `imports`.
-/
namespace TypeDeps.Document

open Json

/-- A field's name and the texts that its value may have. -/
abbrev Field := String × (List UInt8 → Prop)

/-- A member whose key denotes this name. The value is given as a text. -/
def MemberText (m : String × List UInt8) (raw : List UInt8) : Prop :=
  ∃ key, Spells m.1 key ∧ PairText key m.2 raw

/-- The only member of this name has this value. -/
def Sole (ms : List (String × List UInt8)) (name : String) (value : List UInt8) : Prop :=
  ms.filter (·.1 = name) = [(name, value)]

def RecordText (fields : List Field) (raw : List UInt8) : Prop :=
  ArrayOf Prod.snd fields raw ∨
  ∃ ms, ObjectOf MemberText ms raw ∧ (∀ f ∈ fields, ∃ v, Sole ms f.1 v ∧ f.2 v) ∧
    ∀ m ∈ ms, m.1 ∉ fields.map Prod.fst → Value m.2

def EntryText (f : SourceFile) (raw : List UInt8) : Prop :=
  ∃ path, f.path = .ofString path ∧
    RecordText [("path", Spells path), ("classes", ArrayOf Spells f.declares),
      ("imports", ArrayOf Spells f.references)] raw

/-- A document that holds these files. -/
def DocumentText (files : List SourceFile) (bs : List UInt8) : Prop :=
  ∃ raw, RecordText [("files", ArrayOf EntryText files)] raw ∧ Padded raw bs

end TypeDeps.Document

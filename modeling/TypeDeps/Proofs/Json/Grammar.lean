import Mathlib
import TypeDeps.Json.Skipper

/-!
# The grammar of JSON

Texts are byte strings. A string that is asked for must denote characters, so that its
escapes have to pair surrogates, while a string in a value that nobody asked for only has to
end. `Enclosed` is the form that arrays and objects share.
-/
namespace TypeDeps.Json

def Blanks (ws : List UInt8) : Prop := ∀ b ∈ ws, isBlank b

instance (ws : List UInt8) : Decidable (Blanks ws) :=
  inferInstanceAs (Decidable (∀ b ∈ ws, isBlank b = true))

/-- The bytes of a string that stand for themselves. -/
def IsPlain (b : UInt8) : Prop := 0x20 ≤ b ∧ b ≠ 0x22 ∧ b ≠ 0x5C

def hexNumber? (ds : List UInt8) : Option Nat :=
  ds.foldl (fun v? b => do
    let v ← v?
    let d ← hexValue? b
    pure (v * 16 + d)) (some 0)

def HexFour (ds : List UInt8) (n : Nat) : Prop := ds.length = 4 ∧ hexNumber? ds = some n

/-! ## Strings -/

/-- The written form of a part of a string and the bytes that it stands for. -/
inductive Piece : List UInt8 → List UInt8 → Prop
  | plain {b : UInt8} (h : IsPlain b) : Piece [b] [b]
  | letter {b c : UInt8} (h : simpleEscape? b = some c) : Piece [0x5C, b] [c]
  | code {ds : List UInt8} {n : Nat} (h : HexFour ds n) (hl : ¬isLowSurrogate n)
      (hh : ¬isHighSurrogate n) :
      Piece (0x5C :: 0x75 :: ds) (String.utf8EncodeChar (Char.ofNat n))
  | pair {ds es : List UInt8} {high low : Nat} (hd : HexFour ds high) (hh : isHighSurrogate high)
      (he : HexFour es low) (hl : isLowSurrogate low) :
      Piece (0x5C :: 0x75 :: ds ++ 0x5C :: 0x75 :: es)
        (String.utf8EncodeChar (Char.ofNat (pairValue high low)))

inductive Content : List UInt8 → List UInt8 → Prop
  | nil : Content [] []
  | snoc {body bs written cs : List UInt8} (h : Content body bs) (p : Piece written cs) :
      Content (body ++ written) (bs ++ cs)

/-- A text of this string. -/
def Spells (s : String) (raw : List UInt8) : Prop :=
  ∃ body, Content body (bytesOf s) ∧ raw = 0x22 :: body ++ [0x22]

/-- A part of a string whose content does not matter. -/
inductive LoosePiece : List UInt8 → Prop
  | plain {b : UInt8} (h : IsPlain b) : LoosePiece [b]
  | letter {b c : UInt8} (h : simpleEscape? b = some c) : LoosePiece [0x5C, b]
  | code {ds : List UInt8} {n : Nat} (h : HexFour ds n) : LoosePiece (0x5C :: 0x75 :: ds)

inductive LooseContent : List UInt8 → Prop
  | nil : LooseContent []
  | snoc {body written : List UInt8} (h : LooseContent body) (p : LoosePiece written) :
      LooseContent (body ++ written)

def LooseString (raw : List UInt8) : Prop :=
  ∃ body, LooseContent body ∧ raw = 0x22 :: body ++ [0x22]

/-! ## Numbers and literals -/

def Digits (ds : List UInt8) : Prop := ds ≠ [] ∧ ∀ d ∈ ds, isDigit d

/-- Digits without a leading zero, or a zero alone. -/
def IntegerPart (ds : List UInt8) : Prop :=
  ds = [0x30] ∨ (Digits ds ∧ ds.head? ≠ some 0x30)

def FractionPart (raw : List UInt8) : Prop := raw = [] ∨ ∃ ds, Digits ds ∧ raw = 0x2E :: ds

def ExponentPart (raw : List UInt8) : Prop :=
  raw = [] ∨ ∃ mark sign ds, isExponentMark mark ∧ (sign = [] ∨ sign = [0x2B] ∨ sign = [0x2D]) ∧
    Digits ds ∧ raw = mark :: sign ++ ds

def NumberText (raw : List UInt8) : Prop :=
  ∃ sign i f e, (sign = [] ∨ sign = [0x2D]) ∧ IntegerPart i ∧ FractionPart f ∧ ExponentPart e ∧
    raw = sign ++ i ++ f ++ e

def LiteralText (raw : List UInt8) : Prop :=
  raw = 0x6E :: nullLetters ∨ raw = 0x74 :: trueLetters ∨ raw = 0x66 :: falseLetters

/-! ## Arrays, objects and values -/

/-- A text with blanks around it. -/
def Padded (x raw : List UInt8) : Prop :=
  ∃ ws ws', Blanks ws ∧ Blanks ws' ∧ raw = ws ++ x ++ ws'

/-- Items between two brackets, with commas between them and blanks anywhere. -/
def Enclosed (open_ close : UInt8) (items : List (List UInt8)) (raw : List UInt8) : Prop :=
  (items = [] ∧ ∃ ws, Blanks ws ∧ raw = open_ :: ws ++ [close]) ∨
  (items ≠ [] ∧ ∃ padded, List.Forall₂ Padded items padded ∧
    raw = open_ :: List.intercalate [0x2C] padded ++ [close])

def ArrayOf {α : Type} (R : α → List UInt8 → Prop) (xs : List α) (raw : List UInt8) : Prop :=
  ∃ items, List.Forall₂ R xs items ∧ Enclosed 0x5B 0x5D items raw

/-- An object whose members are texts of these. -/
def ObjectOf {α : Type} (R : α → List UInt8 → Prop) (xs : List α) (raw : List UInt8) : Prop :=
  ∃ items, List.Forall₂ R xs items ∧ Enclosed 0x7B 0x7D items raw

def PairText (key value raw : List UInt8) : Prop :=
  ∃ ws ws', Blanks ws ∧ Blanks ws' ∧ raw = key ++ ws ++ 0x3A :: ws' ++ value

/-- Any value, nested to any depth. -/
inductive Value : List UInt8 → Prop
  | literal {raw : List UInt8} (h : LiteralText raw) : Value raw
  | number {raw : List UInt8} (h : NumberText raw) : Value raw
  | string {raw : List UInt8} (h : LooseString raw) : Value raw
  | array {items : List (List UInt8)} {raw : List UInt8} (values : ∀ x ∈ items, Value x)
      (h : Enclosed 0x5B 0x5D items raw) : Value raw
  | object {members : List (List UInt8 × List UInt8)} {raw : List UInt8}
      (keys : ∀ m ∈ members, LooseString m.1) (values : ∀ m ∈ members, Value m.2)
      (h : ObjectOf (fun m item => PairText m.1 m.2 item) members raw) : Value raw

end TypeDeps.Json

import TypeDeps.Decimal.Shortest
import TypeDeps.Yaml.Char

/-!
# What plain scalars mean

A scalar without quotes and tag is read as null, as a boolean or as a number if it has the
form of one, and as text otherwise. A number with zeros in front is text.
-/
namespace TypeDeps.Yaml

inductive Meaning where
  | null
  | boolean (b : Bool)
  | integer (n : Int)
  /-- A finite number, given by the bits of the nearest double. -/
  | float (bits : UInt64)
  | infinite (negative : Bool)
  | notANumber
  | text
  deriving DecidableEq, Repr

namespace Plain

def natFrom (radix acc : Nat) : List Char → Option Nat
  | [] => some acc
  | c :: cs =>
    match (hexValue? c).filter (· < radix) with
    | some d => natFrom radix (acc * radix + d) cs
    | none => none

/-- A number without sign, of at least one digit. -/
def nat? (radix : Nat) (cs : List Char) : Option Nat :=
  if cs.isEmpty then none else natFrom radix 0 cs

def isNull (cs : List Char) : Bool :=
  cs = "null".toList || cs = "Null".toList || cs = "NULL".toList || cs = "~".toList

def boolean? (cs : List Char) : Option Bool :=
  if cs = "true".toList ∨ cs = "True".toList ∨ cs = "TRUE".toList then some true
  else if cs = "false".toList ∨ cs = "False".toList ∨ cs = "FALSE".toList then some false
  else none

def dropSign (cs : List Char) : List Char :=
  match cs with
  | '-' :: r => r
  | '+' :: r => r
  | r => r

/-- Digits with a zero in front of others, with or without a sign. -/
def hasLeadingZero (cs : List Char) : Bool :=
  match dropSign cs with
  | '0' :: c :: r => (c :: r).all isDigit
  | _ => false

def unsigned? (cs : List Char) : Option Nat :=
  let body := match cs with
    | '+' :: r => r
    | r => r
  let decimal := if hasLeadingZero cs then none else nat? 10 body
  match body with
  | '0' :: 'x' :: r => nat? 16 r
  | '0' :: 'o' :: r => nat? 8 r
  | '0' :: 'b' :: r => nat? 2 r
  | _ => decimal

/-- The size of a number with a minus sign. -/
def negated? (cs : List Char) : Option Nat :=
  match cs with
  | '-' :: '0' :: 'x' :: r => nat? 16 r
  | '-' :: '0' :: 'o' :: r => nat? 8 r
  | '-' :: '0' :: 'b' :: r => nat? 2 r
  | '-' :: r => if hasLeadingZero cs then none else nat? 10 r
  | _ => none

/-- Integers have at most 128 bits. -/
def integer? (cs : List Char) : Option Int :=
  match unsigned? cs with
  | some n => if n < Nat.pow 2 128 then some n else none
  | none =>
    match negated? cs with
    | some n => if n ≤ Nat.pow 2 127 then some (-(n : Int)) else none
    | none => none

/-- Digits and power of ten of a number in the common notation. -/
structure Scientific where
  negative : Bool
  digits : Nat
  scale : Int
  deriving DecidableEq, Repr

/-- A power of ten behind its mark. -/
def exponent? (cs : List Char) : Option Int :=
  match cs with
  | '-' :: r => (nat? 10 r).map fun n => -(n : Int)
  | '+' :: r => (nat? 10 r).map fun n => (n : Int)
  | r => (nat? 10 r).map fun n => (n : Int)

def scientific? (cs : List Char) : Option Scientific :=
  let negative := cs.head? = some '-'
  let body := dropSign cs
  let whole := body.takeWhile isDigit
  let rest := body.dropWhile isDigit
  let (fraction, tail) : List Char × List Char :=
    match rest with
    | '.' :: r => (r.takeWhile isDigit, r.dropWhile isDigit)
    | r => ([], r)
  if whole.isEmpty && fraction.isEmpty then none
  else do
    let digits ← nat? 10 (whole ++ fraction)
    let power ←
      match tail with
      | [] => some 0
      | 'e' :: r => exponent? r
      | 'E' :: r => exponent? r
      | _ => none
    pure ⟨negative, digits, power - fraction.length⟩

/-- The nearest double, if it is finite. Numbers far outside the range are decided by their
size alone. -/
def Scientific.double? (s : Scientific) : Option Float :=
  let size := ((toString s.digits).length : Int) + s.scale
  let magnitude : Float :=
    if s.digits = 0 ∨ size < -400 then 0.0
    else if 400 < size then 1.0 / 0.0
    else Float.ofScientific s.digits (s.scale < 0) s.scale.natAbs
  if magnitude.isFinite then some (if s.negative then -magnitude else magnitude) else none

def isInfinity (cs : List Char) : Bool :=
  cs = ".inf".toList || cs = ".Inf".toList || cs = ".INF".toList

def isNotANumber (cs : List Char) : Bool :=
  cs = ".nan".toList || cs = ".NaN".toList || cs = ".NAN".toList

def float? (cs : List Char) : Option Meaning :=
  let body := match cs with
    | '+' :: r => r
    | r => r
  let doubled := match cs with
    | '+' :: '+' :: _ => true
    | '+' :: '-' :: _ => true
    | _ => false
  if doubled then none
  else if isInfinity body then some (.infinite false)
  else if cs.head? = some '-' && isInfinity cs.tail then some (.infinite true)
  else if isNotANumber cs then some .notANumber
  else (scientific? body).bind fun s => s.double?.map fun f => .float f.toBits

end Plain

/-- How a plain scalar is read where nothing says what it should be. -/
def meaning (cs : List Char) : Meaning :=
  if cs.isEmpty || Plain.isNull cs then .null
  else
    match Plain.boolean? cs with
    | some b => .boolean b
    | none =>
      match Plain.integer? cs with
      | some n => .integer n
      | none =>
        if Plain.hasLeadingZero cs then .text
        else (Plain.float? cs).getD .text

/-- A plain scalar with these characters is read as text. -/
def isPlainText (cs : List Char) : Bool := meaning cs = .text && !Plain.hasLeadingZero cs

end TypeDeps.Yaml

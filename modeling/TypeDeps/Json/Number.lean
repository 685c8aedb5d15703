import TypeDeps.Json.Fault

/-!
# Reading numbers

A number ends at the first byte that cannot extend it, or with the document. `NumberReader`
finds its value as well: an integer if it is one of 64 bits, otherwise a double that is
computed from the first 64 bits worth of digits and a power of ten. `NumberSkipper` only
finds the end.
-/
namespace TypeDeps.Json

/-- Where in a number the machine stands. -/
inductive NumberPhase where
  /-- Behind the minus sign. -/
  | sign
  /-- Behind a leading zero. -/
  | zero
  | integer
  /-- In the integer part, behind the digits that count. -/
  | longInteger
  /-- Behind the point, with or without digits yet. -/
  | fraction (digits : Bool)
  /-- Behind the point and the digits that count. -/
  | longFraction
  | exponentMark
  | exponentSign
  | exponent
  /-- In an exponent so far out that only its sign counts. -/
  | longExponent
  deriving DecidableEq, Repr

/-- The number read so far is `significand * 10 ^ scale`, before its exponent. -/
structure NumberReader where
  negative : Bool
  significand : Nat
  scale : Int
  exponentNegative : Bool
  exponent : Nat
  phase : NumberPhase
  deriving DecidableEq, Repr

/-- Powers of ten up to the largest one that is a double. -/
def powerOfTen (n : Nat) : Float := Float.ofScientific 1 false n

/-- A value is brought into the range of powers of ten by dividing, as long as it is not zero.
Growing out of range is an error, shrinking to zero is none. -/
def scaleFloat? (f : Float) (scale : Int) : Option Float :=
  if scale < -308 then
    if f == 0.0 then some f else scaleFloat? (f / powerOfTen 308) (scale + 308)
  else if scale < 0 then some (f / powerOfTen scale.natAbs)
  else if scale ≤ 308 then
    let r := f * powerOfTen scale.natAbs
    if r.isInf then none else some r
  else if f == 0.0 then some f
  else none
termination_by (-scale).toNat
decreasing_by omega

def signed (negative : Bool) (f : Float) : Float := if negative then -f else f

namespace NumberReader

def maxWord : Nat := Nat.pow 2 64 - 1

def maxExponent : Nat := Nat.pow 2 31 - 1

/-- Behind a minus sign. -/
def negative_ : NumberReader := ⟨true, 0, 0, false, 0, .sign⟩

/-- Behind the first digit. -/
def digit (d : Nat) : NumberReader :=
  ⟨false, d, 0, false, 0, if d = 0 then .zero else .integer⟩

/-- Integers outside the words, and minus zero, become doubles. -/
def integerValue (r : NumberReader) : Found :=
  if r.negative then
    if r.significand = 0 ∨ Nat.pow 2 63 < r.significand then
      .float (-(UInt64.ofNat r.significand).toFloat).toBits
    else .integer (-(r.significand : Int))
  else .integer r.significand

def floatValue? (r : NumberReader) : Option Found :=
  let e : Int := if r.exponentNegative then -(r.exponent : Int) else r.exponent
  (scaleFloat? (UInt64.ofNat r.significand).toFloat (r.scale + e)).map fun f =>
    .float (signed r.negative f).toBits

/-- The value of a number that ends here, if it may end here. -/
def finish (r : NumberReader) : Except Cause Found :=
  let float := match r.floatValue? with
    | some v => .ok v
    | none => .error .numberOutOfRange
  match r.phase with
  | .sign | .exponentMark | .exponentSign | .fraction false => .error .endOfValue
  | .zero | .integer => .ok r.integerValue
  | .longInteger | .fraction true | .longFraction | .exponent => float
  | .longExponent => .ok (.float (signed r.negative 0.0).toBits)

/-- The number ends before this byte. -/
def passed (r : NumberReader) : Step NumberReader Found :=
  match r.finish with
  | .ok v => .passed v
  | .error c => .fault (.unmoved c)

/-- Behind the digits of the integer part. -/
def afterInteger (r : NumberReader) (b : UInt8) : Step NumberReader Found :=
  if b = 0x2E then .more { r with phase := .fraction false }
  else if isExponentMark b then .more { r with phase := .exponentMark }
  else r.passed

def afterFraction (r : NumberReader) (b : UInt8) : Step NumberReader Found :=
  if isExponentMark b then .more { r with phase := .exponentMark } else r.passed

def step (r : NumberReader) (b : UInt8) : Step NumberReader Found :=
  let d := digitValue b
  match r.phase with
  | .sign =>
    if isDigit b then
      .more { r with significand := d, phase := if d = 0 then .zero else .integer }
    else .fault (.taken .badNumber)
  | .zero => if isDigit b then .fault (.ahead .badNumber) else r.afterInteger b
  | .integer =>
    if isDigit b then
      if maxWord < r.significand * 10 + d then
        .more { r with scale := r.scale + 1, phase := .longInteger }
      else .more { r with significand := r.significand * 10 + d }
    else r.afterInteger b
  | .longInteger =>
    if isDigit b then .more { r with scale := r.scale + 1 } else r.afterInteger b
  | .fraction digits =>
    if isDigit b then
      if maxWord < r.significand * 10 + d then .more { r with phase := .longFraction }
      else
        .more { r with
          significand := r.significand * 10 + d, scale := r.scale - 1, phase := .fraction true }
    else if digits then r.afterFraction b
    else .fault (.ahead .badNumber)
  | .longFraction => if isDigit b then .more r else r.afterFraction b
  | .exponentMark =>
    if b = 0x2B then .more { r with phase := .exponentSign }
    else if b = 0x2D then .more { r with exponentNegative := true, phase := .exponentSign }
    else if isDigit b then .more { r with exponent := d, phase := .exponent }
    else .fault (.taken .badNumber)
  | .exponentSign =>
    if isDigit b then .more { r with exponent := d, phase := .exponent }
    else .fault (.taken .badNumber)
  | .exponent =>
    if isDigit b then
      if maxExponent < r.exponent * 10 + d then
        if r.significand ≠ 0 ∧ r.exponentNegative = false then .fault (.taken .numberOutOfRange)
        else .more { r with phase := .longExponent }
      else .more { r with exponent := r.exponent * 10 + d }
    else r.passed
  | .longExponent => if isDigit b then .more r else r.passed

end NumberReader

/-- Where in a skipped number the machine stands. -/
inductive NumberSkipper where
  | sign
  | zero
  | integer
  | fraction (digits : Bool)
  | exponentMark
  | exponentSign
  | exponent
  deriving DecidableEq, Repr

namespace NumberSkipper

/-- A number may end here. -/
def canEnd : NumberSkipper → Bool
  | zero | integer | exponent => true
  | fraction digits => digits
  | sign | exponentMark | exponentSign => false

def afterInteger (b : UInt8) : Step NumberSkipper Unit :=
  if b = 0x2E then .more (fraction false)
  else if isExponentMark b then .more exponentMark
  else .passed ()

def step (s : NumberSkipper) (b : UInt8) : Step NumberSkipper Unit :=
  match s with
  | sign =>
    if b = 0x30 then .more zero
    else if isDigit b then .more integer
    else .fault (.taken .badNumber)
  | zero => if isDigit b then .fault (.ahead .badNumber) else afterInteger b
  | integer => if isDigit b then .more integer else afterInteger b
  | fraction digits =>
    if isDigit b then .more (fraction true)
    else if !digits then .fault (.ahead .badNumber)
    else if isExponentMark b then .more exponentMark
    else .passed ()
  | exponentMark =>
    if b = 0x2B ∨ b = 0x2D then .more exponentSign
    else if isDigit b then .more exponent
    else .fault (.taken .badNumber)
  | exponentSign => if isDigit b then .more exponent else .fault (.taken .badNumber)
  | exponent => if isDigit b then .more exponent else .passed ()

end NumberSkipper

end TypeDeps.Json

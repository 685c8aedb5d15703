/-!
# Shortest decimal form of a binary number

A double stands for all reals that round to it. Its shortest decimal form has the fewest
digits among the decimals in that interval, and is the nearest of those to the double. The
search runs through the decimal grids from coarse to fine in exact arithmetic: if any point
of a grid lies in the interval, so does one of the two that enclose the double.
-/
namespace TypeDeps

/-- The number `digits * 10 ^ scale`, with `digits` free of trailing zeros unless it is zero. -/
structure Decimal where
  negative : Bool
  digits : Nat
  scale : Int
  deriving DecidableEq, Repr

namespace Decimal

/-- A positive double `mantissa * 2 ^ exponent` and the half-widths of its interval, counted
in quarters of the last binary place. -/
structure Binary where
  mantissa : Nat
  exponent : Int
  below : Nat
  deriving DecidableEq, Repr

/-- The finite nonzero double with these bits. The gap below a power of two is half as wide,
except at the bottom of the range. -/
def Binary.ofBits (bits : UInt64) : Binary :=
  let field : Nat := bits.toNat / Nat.pow 2 52 % Nat.pow 2 11
  let fraction : Nat := bits.toNat % Nat.pow 2 52
  if field = 0 then ⟨fraction, -1074, 2⟩
  else ⟨Nat.pow 2 52 + fraction, (field : Int) - 1075, if fraction = 0 ∧ 1 < field then 1 else 2⟩

/-- Numerator and denominator of `n * 2 ^ e / 10 ^ k`. -/
def scaled (n : Nat) (e k : Int) : Nat × Nat :=
  (n * Nat.pow 2 e.toNat * Nat.pow 10 (-k).toNat, Nat.pow 2 (-e).toNat * Nat.pow 10 k.toNat)

/-- The largest power of ten, between `low` and `low + steps`, that is no larger than the
number. -/
def magnitudeFrom (b : Binary) (low : Int) : Nat → Int
  | 0 => low
  | steps + 1 =>
    let k := low + (steps + 1)
    let (n, d) := scaled b.mantissa b.exponent k
    if d ≤ n then k else magnitudeFrom b low steps

def magnitude (b : Binary) : Int := magnitudeFrom b (-324) 633

/-- The point of the grid `10 ^ k` that stands for the double, if one does. -/
def onGrid? (b : Binary) (k : Int) : Option Nat :=
  let (n, d) := scaled (4 * b.mantissa) (b.exponent - 2) k
  let (lo, _) := scaled (4 * b.mantissa - b.below) (b.exponent - 2) k
  let (hi, _) := scaled (4 * b.mantissa + 2) (b.exponent - 2) k
  let inside (m : Nat) : Bool :=
    if b.mantissa % 2 = 0 then lo ≤ m * d && m * d ≤ hi else lo < m * d && m * d < hi
  let q := n / d
  let left := n - q * d
  let right := (q + 1) * d - n
  match inside q, inside (q + 1) with
  | false, false => none
  | true, false => some q
  | false, true => some (q + 1)
  | true, true =>
    if left < right then some q
    else if right < left then some (q + 1)
    else some (if q % 2 = 0 then q else q + 1)

/-- Trailing zeros go into the scale. -/
def trim (digits : Nat) (scale : Int) : Nat → Nat × Int
  | 0 => (digits, scale)
  | fuel + 1 =>
    if digits ≠ 0 ∧ digits % 10 = 0 then trim (digits / 10) (scale + 1) fuel else (digits, scale)

/-- The first grid with a hit, from coarse to fine. Seventeen digits always suffice. -/
def search (b : Binary) (top : Int) : Nat → Nat × Int
  | 0 => (0, 0)
  | fuel + 1 =>
    match onGrid? b top with
    | some m => trim m top 20
    | none => search b (top - 1) fuel

/-- The shortest form of a finite double. -/
def ofBits (bits : UInt64) : Decimal :=
  let negative := Nat.pow 2 63 ≤ bits.toNat
  if bits.toNat % Nat.pow 2 63 = 0 then ⟨negative, 0, 0⟩
  else
    let b := Binary.ofBits bits
    let (m, k) := search b (magnitude b + 1) 20
    ⟨negative, m, k⟩

def digitChars (d : Decimal) : List Char := (toString d.digits).toList

/-- The power of ten of the first digit. -/
def leading (d : Decimal) : Int := d.scale + (d.digitChars.length : Int) - 1

def sign (d : Decimal) : List Char := if d.negative then ['-'] else []

/-- Digits with the point at its place, and `.0` where nothing follows it. -/
def positional (d : Decimal) : String :=
  let ds := d.digitChars
  let body :=
    if 0 ≤ d.scale then ds ++ List.replicate d.scale.toNat '0' ++ ['.', '0']
    else
      let cut := (ds.length : Int) + d.scale
      if 0 < cut then ds.take cut.toNat ++ '.' :: ds.drop cut.toNat
      else '0' :: '.' :: List.replicate (-cut).toNat '0' ++ ds
  String.ofList (d.sign ++ body)

/-- One digit, the others after a point, and the power of ten with its sign. -/
def scientific (d : Decimal) : String :=
  let ds := d.digitChars
  let body :=
    match ds with
    | [] => []
    | [c] => [c]
    | c :: cs => c :: '.' :: cs
  let power := if d.leading < 0 then ['-'] else ['+']
  String.ofList (d.sign ++ body ++ 'e' :: power ++ (toString d.leading.natAbs).toList)

end Decimal

end TypeDeps

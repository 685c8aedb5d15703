/-!
# UTF-8

Characters are written by `encode` and read back by a machine that takes one byte at a
time. `decode?` accepts exactly the well-formed byte strings, `validLength` measures the
part before the first fault, and `lossy` shows any byte string by putting U+FFFD for every
maximal piece that cannot be completed.
-/
namespace TypeDeps.Utf8

def encode (cs : List Char) : List UInt8 := cs.flatMap String.utf8EncodeChar

/-- What the bytes of an unfinished character have said: how many more are due, the range
of the next one, and the bits collected so far. -/
structure Pending where
  due : Nat
  low : UInt8
  high : UInt8
  bits : Nat
  deriving DecidableEq, Repr

inductive Reading where
  | char (c : Char)
  | more (p : Pending)
  | bad
  deriving DecidableEq, Repr

/-- The first byte of a character fixes its length. The narrowed second ranges keep out
overlong forms, surrogates and values above U+10FFFF. -/
def first (b : UInt8) : Reading :=
  let n := b.toNat
  if n < 0x80 then .char (Char.ofNat n)
  else if n < 0xC2 then .bad
  else if n < 0xE0 then .more ⟨1, 0x80, 0xBF, n - 0xC0⟩
  else if n = 0xE0 then .more ⟨2, 0xA0, 0xBF, 0⟩
  else if n = 0xED then .more ⟨2, 0x80, 0x9F, 0xD⟩
  else if n < 0xF0 then .more ⟨2, 0x80, 0xBF, n - 0xE0⟩
  else if n = 0xF0 then .more ⟨3, 0x90, 0xBF, 0⟩
  else if n < 0xF4 then .more ⟨3, 0x80, 0xBF, n - 0xF0⟩
  else if n = 0xF4 then .more ⟨3, 0x80, 0x8F, 4⟩
  else .bad

def next (p : Pending) (b : UInt8) : Reading :=
  if p.low ≤ b ∧ b ≤ p.high then
    let bits := p.bits * 64 + (b.toNat - 0x80)
    if p.due ≤ 1 then .char (Char.ofNat bits)
    else .more ⟨p.due - 1, 0x80, 0xBF, bits⟩
  else .bad

def read : Option Pending → UInt8 → Reading
  | none, b => first b
  | some p, b => next p b

/-- `acc` holds the characters read so far, the last one first. -/
def decodeFrom (acc : List Char) : Option Pending → List UInt8 → Option (List Char)
  | none, [] => some acc.reverse
  | some _, [] => none
  | p, b :: bs =>
    match read p b with
    | .char c => decodeFrom (c :: acc) none bs
    | .more q => decodeFrom acc (some q) bs
    | .bad => none

def decode? (bs : List UInt8) : Option (List Char) := decodeFrom [] none bs

/-- `done` counts the bytes of whole characters, `open_` those of the unfinished one. -/
def validFrom (done open_ : Nat) : Option Pending → List UInt8 → Nat
  | _, [] => done
  | p, b :: bs =>
    match read p b with
    | .char _ => validFrom (done + open_ + 1) 0 none bs
    | .more q => validFrom done (open_ + 1) (some q) bs
    | .bad => done

/-- The length of the longest well-formed part at the front. A character that the end cuts
off does not count. -/
def validLength (bs : List UInt8) : Nat := validFrom 0 0 none bs

def replacement : Char := Char.ofNat 0xFFFD

def lossyFrom (acc : List Char) : Option Pending → List UInt8 → List Char
  | none, [] => acc.reverse
  | some _, [] => (replacement :: acc).reverse
  | p, b :: bs =>
    match read p b with
    | .char c => lossyFrom (c :: acc) none bs
    | .more q => lossyFrom acc (some q) bs
    | .bad =>
      match p with
      | none => lossyFrom (replacement :: acc) none bs
      | some _ =>
        match first b with
        | .char c => lossyFrom (c :: replacement :: acc) none bs
        | .more q => lossyFrom (replacement :: acc) (some q) bs
        | .bad => lossyFrom (replacement :: replacement :: acc) none bs

/-- The text shown for bytes that need not be UTF-8. -/
def lossy (bs : List UInt8) : List Char := lossyFrom [] none bs

end TypeDeps.Utf8

namespace TypeDeps

/-- The UTF-8 bytes of a string. -/
def bytesOf (s : String) : List UInt8 := Utf8.encode s.toList

/-- The string that has these UTF-8 bytes, if there is one. -/
def stringOf? (bs : List UInt8) : Option String := (Utf8.decode? bs).map String.ofList

end TypeDeps

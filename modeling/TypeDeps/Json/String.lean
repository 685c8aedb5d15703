import TypeDeps.Json.Fault
import TypeDeps.Text.Utf8

/-!
# Reading strings

Both machines start behind the opening quote and end with the closing one. `StringReader`
keeps the content, pairs surrogates and insists on UTF-8. `StringSkipper` only finds the end.
-/
namespace TypeDeps.Json

/-- Four hexadecimal digits, of which `seen` have been read. The value is lost once a digit
is none, but all four bytes are taken before that is reported. -/
structure HexReader where
  seen : Nat
  value? : Option Nat
  deriving DecidableEq, Repr

namespace HexReader

def start : HexReader := ⟨0, some 0⟩

def step (h : HexReader) (b : UInt8) : Step HexReader Nat :=
  let value? := do
    let v ← h.value?
    let d ← hexValue? b
    pure (v * 16 + d)
  if h.seen < 3 then .more ⟨h.seen + 1, value?⟩
  else
    match value? with
    | some v => .done v
    | none => .fault (.taken .badEscape)

end HexReader

def isHighSurrogate (n : Nat) : Bool := 0xD800 ≤ n && n ≤ 0xDBFF

def isLowSurrogate (n : Nat) : Bool := 0xDC00 ≤ n && n ≤ 0xDFFF

/-- The code point that two surrogates stand for. -/
def pairValue (high low : Nat) : Nat := 0x10000 + (high - 0xD800) * 0x400 + (low - 0xDC00)

/-- The byte that a one-letter escape stands for. -/
def simpleEscape? (b : UInt8) : Option UInt8 :=
  if b = 0x22 ∨ b = 0x5C ∨ b = 0x2F then some b
  else if b = 0x62 then some 0x08
  else if b = 0x66 then some 0x0C
  else if b = 0x6E then some 0x0A
  else if b = 0x72 then some 0x0D
  else if b = 0x74 then some 0x09
  else none

/-- Where in a string the reader stands. -/
inductive StringPhase where
  | plain
  | escape
  | hex (digits : HexReader)
  /-- A high surrogate has been read and its partner must follow. -/
  | partnerSlash (high : Nat)
  | partnerLetter (high : Nat)
  | partnerHex (high : Nat) (digits : HexReader)
  deriving DecidableEq, Repr

/-- `content` holds the bytes read so far, the last one first. -/
structure StringReader where
  content : List UInt8
  phase : StringPhase
  deriving DecidableEq, Repr

namespace StringReader

def start : StringReader := ⟨[], .plain⟩

def push (r : StringReader) (bs : List UInt8) : StringReader :=
  ⟨bs.reverse ++ r.content, .plain⟩

def pushCode (r : StringReader) (n : Nat) : StringReader :=
  r.push (String.utf8EncodeChar (Char.ofNat n))

/-- Content that is not UTF-8 is a fault at its first bad byte. -/
def finish (r : StringReader) : Step StringReader String :=
  let bs := r.content.reverse
  match stringOf? bs with
  | some s => .done s
  | none =>
    .fault ⟨.notUnicode, .taken, .back (bs.length - Utf8.validLength bs)⟩

def step (r : StringReader) (b : UInt8) : Step StringReader String :=
  match r.phase with
  | .plain =>
    if b = 0x22 then r.finish
    else if b = 0x5C then .more ⟨r.content, .escape⟩
    else if b < 0x20 then .fault (.taken .controlCharacter)
    else .more ⟨b :: r.content, .plain⟩
  | .escape =>
    if b = 0x75 then .more ⟨r.content, .hex .start⟩
    else
      match simpleEscape? b with
      | some c => .more (r.push [c])
      | none => .fault (.taken .badEscape)
  | .hex digits =>
    match digits.step b with
    | .more d => .more ⟨r.content, .hex d⟩
    | .done n | .passed n =>
      if isLowSurrogate n then .fault (.taken .loneSurrogate)
      else if isHighSurrogate n then .more ⟨r.content, .partnerSlash n⟩
      else .more (r.pushCode n)
    | .fault f => .fault f
  | .partnerSlash high =>
    if b = 0x5C then .more ⟨r.content, .partnerLetter high⟩
    else .fault (.taken .unpairedSurrogate)
  | .partnerLetter high =>
    if b = 0x75 then .more ⟨r.content, .partnerHex high .start⟩
    else .fault (.taken .unpairedSurrogate)
  | .partnerHex high digits =>
    match digits.step b with
    | .more d => .more ⟨r.content, .partnerHex high d⟩
    | .done n | .passed n =>
      if isLowSurrogate n then .more (r.pushCode (pairValue high n))
      else .fault (.taken .loneSurrogate)
    | .fault f => .fault f

end StringReader

/-- Where in a skipped string the machine stands. -/
inductive StringSkipper where
  | plain
  | escape
  | hex (digits : HexReader)
  deriving DecidableEq, Repr

namespace StringSkipper

def step (s : StringSkipper) (b : UInt8) : Step StringSkipper Unit :=
  match s with
  | plain =>
    if b = 0x22 then .done ()
    else if b = 0x5C then .more escape
    else if b < 0x20 then .fault (.unmoved .controlCharacter)
    else .more plain
  | escape =>
    if b = 0x75 then .more (hex .start)
    else if (simpleEscape? b).isSome then .more plain
    else .fault (.taken .badEscape)
  | hex digits =>
    match digits.step b with
    | .more d => .more (hex d)
    | .done _ | .passed _ => .more plain
    | .fault f => .fault f

end StringSkipper

end TypeDeps.Json

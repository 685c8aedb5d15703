import TypeDeps.Decimal.Shortest
import TypeDeps.Text.Shown

/-!
# Faults in documents

`Cause` lists everything that can be wrong with a document, and `Cause.message` puts it into
words. A `Fault` arises at one byte. It says whether the byte has been taken or only looked at,
and where it is reported as the reader sees it. The place in the document follows from the
`Source` that the bytes come from: a text, which is there as a whole, or a stream, which hands
over every byte that is to be looked at.
-/
namespace TypeDeps.Json

/-- A value of the wrong kind. A number that is no 64-bit integer is given by the bits of the
double that stands for it. -/
inductive Found where
  | null
  | boolean (b : Bool)
  | integer (n : Int)
  | float (bits : UInt64)
  | string (s : String)
  | sequence
  | map
  deriving DecidableEq, Repr

namespace Found

/-- Doubles from 0.00001 to below ten quadrillions are written without a power of ten. -/
def floatText (bits : UInt64) : String :=
  let d := Decimal.ofBits bits
  if d.digits = 0 ∨ (-5 ≤ d.leading ∧ d.leading ≤ 15) then d.positional else d.scientific

def text : Found → String
  | null => "null"
  | boolean b => "boolean \x60" ++ (if b then "true" else "false") ++ "\x60"
  | integer n => "integer \x60" ++ toString n ++ "\x60"
  | float bits => "floating point \x60" ++ floatText bits ++ "\x60"
  | string s => "string " ++ Text.shown s
  | sequence => "sequence"
  | map => "map"

end Found

/-- What a place in the document calls for. -/
inductive Expected where
  | document
  | entry
  | list
  | path
  | name
  deriving DecidableEq, Repr

namespace Expected

def text : Expected → String
  | document => "struct GraphDocument"
  | entry => "struct FileEntry"
  | list => "a sequence"
  | path => "path string"
  | name => "a string"

end Expected

inductive Cause where
  | endOfValue
  | endOfString
  | endOfList
  | endOfObject
  | noValue
  | noLiteral
  | noColon
  | noListEnd
  | noObjectEnd
  | keyNotString
  | trailingComma
  | trailingCharacters
  | badNumber
  | numberOutOfRange
  | controlCharacter
  | badEscape
  | loneSurrogate
  | unpairedSurrogate
  | notUnicode
  | wrongType (found : Found) (expected : Expected)
  /-- An array with too few items for the members it stands for. -/
  | tooShort (items : Nat) (expected : Expected)
  | missingMember (name : String)
  | repeatedMember (name : String)
  deriving DecidableEq, Repr

namespace Cause

def message : Cause → String
  | endOfValue => "EOF while parsing a value"
  | endOfString => "EOF while parsing a string"
  | endOfList => "EOF while parsing a list"
  | endOfObject => "EOF while parsing an object"
  | noValue => "expected value"
  | noLiteral => "expected ident"
  | noColon => "expected \x60:\x60"
  | noListEnd => "expected \x60,\x60 or \x60]\x60"
  | noObjectEnd => "expected \x60,\x60 or \x60\x7d\x60"
  | keyNotString => "key must be a string"
  | trailingComma => "trailing comma"
  | trailingCharacters => "trailing characters"
  | badNumber => "invalid number"
  | numberOutOfRange => "number out of range"
  | controlCharacter => "control character (\\u0000-\\u001F) found while parsing a string"
  | badEscape => "invalid escape"
  | loneSurrogate => "lone leading surrogate in hex escape"
  | unpairedSurrogate => "unexpected end of hex escape"
  | notUnicode => "invalid unicode code point"
  | wrongType found expected => "invalid type: " ++ found.text ++ ", expected " ++ expected.text
  | tooShort items .entry =>
    "invalid length " ++ toString items ++ ", expected struct FileEntry with 3 elements"
  | tooShort items _ =>
    "invalid length " ++ toString items ++ ", expected struct GraphDocument with 1 element"
  | missingMember name => "missing field \x60" ++ name ++ "\x60"
  | repeatedMember name => "duplicate field \x60" ++ name ++ "\x60"

end Cause

/-- What has been done with the byte at which a fault arises. -/
inductive Use where
  | taken
  | looked
  deriving DecidableEq, Repr

/-- Where a fault is reported. -/
inductive Aim where
  /-- Where the reader stands. -/
  | here
  /-- Behind the byte that comes next. -/
  | ahead
  /-- Some bytes before the place where the reader stands. -/
  | back (bytes : Nat)
  deriving DecidableEq, Repr

structure Fault where
  cause : Cause
  use : Use
  aim : Aim
  deriving DecidableEq, Repr

namespace Fault

/-- A fault at a byte that has been taken. -/
def taken (cause : Cause) : Fault := ⟨cause, .taken, .here⟩

/-- A fault at a byte that has only been looked at, reported behind it. -/
def ahead (cause : Cause) : Fault := ⟨cause, .looked, .ahead⟩

/-- A fault at a byte that has only been looked at, reported where the reader stands. -/
def unmoved (cause : Cause) : Fault := ⟨cause, .looked, .here⟩

end Fault

/-- What the bytes of a document come from. -/
inductive Source where
  /-- All bytes are at hand. -/
  | text
  /-- A byte has to be handed over before it can be looked at. -/
  | stream
  deriving DecidableEq, Repr

namespace Source

/-- How many bytes of the source are behind the reader at a byte with `before` others in front
of it. Only in a text does a byte that has been looked at stay ahead. -/
def standing (src : Source) (use : Use) (before : Nat) : Nat :=
  match src, use with
  | text, .looked => before
  | text, .taken | stream, .taken | stream, .looked => before + 1

/-- The place behind the byte that comes next, for a reader with so many bytes behind it. A
stream has handed this byte over already. -/
def ahead (src : Source) (standing : Nat) : Nat :=
  match src with
  | text => standing + 1
  | stream => standing

/-- How many bytes lie before the place at which the fault is reported. -/
def place (src : Source) (f : Fault) (before : Nat) : Nat :=
  let standing := src.standing f.use before
  match f.aim with
  | .here => standing
  | .ahead => src.ahead standing
  | .back bytes => standing - bytes

end Source

/-- One step of a machine that takes one byte at a time. -/
inductive Step (σ α : Type) where
  /-- The byte has been taken and more are due. -/
  | more (state : σ)
  /-- The byte has been taken and was the last one. -/
  | done (value : α)
  /-- The machine was at its end before this byte, which is left to others. -/
  | passed (value : α)
  | fault (fault : Fault)

def isBlank (b : UInt8) : Bool := b = 0x20 || b = 0x09 || b = 0x0A || b = 0x0D

def isDigit (b : UInt8) : Bool := 0x30 ≤ b && b ≤ 0x39

def digitValue (b : UInt8) : Nat := b.toNat - 0x30

def isExponentMark (b : UInt8) : Bool := b = 0x65 || b = 0x45

/-- The value of a hexadecimal digit in either case. -/
def hexValue? (b : UInt8) : Option Nat :=
  if 0x30 ≤ b && b ≤ 0x39 then some (b.toNat - 0x30)
  else if 0x61 ≤ b && b ≤ 0x66 then some (b.toNat - 0x57)
  else if 0x41 ≤ b && b ≤ 0x46 then some (b.toNat - 0x37)
  else none

end TypeDeps.Json

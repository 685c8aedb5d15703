/-!
# Characters of YAML

The classes of characters that scanning and writing are built on. Besides the two ASCII line
ends, next line and the two Unicode separators break lines.
-/
namespace TypeDeps.Yaml

def nextLine : Char := Char.ofNat 0x85

def lineSeparator : Char := Char.ofNat 0x2028

def paragraphSeparator : Char := Char.ofNat 0x2029

def byteOrderMark : Char := Char.ofNat 0xFEFF

def isBreak (c : Char) : Bool :=
  c = '\r' || c = '\n' || c = nextLine || c = lineSeparator || c = paragraphSeparator

/-- What a line break stands for in a scalar: the separators stay, all others are alike. -/
def breakText (c : Char) : Char := if c = lineSeparator ∨ c = paragraphSeparator then c else '\n'

def isBlank (c : Char) : Bool := c = ' ' || c = '\t'

/-- The text ends here, or with a blank or a line break. -/
def endsWord : List Char → Bool
  | [] => true
  | c :: _ => isBlank c || isBreak c

def isDigit (c : Char) : Bool := '0' ≤ c && c ≤ '9'

/-- The value of a hexadecimal digit in either case. -/
def hexValue? (c : Char) : Option Nat :=
  if isDigit c then some (c.toNat - 48)
  else if 'a' ≤ c ∧ c ≤ 'f' then some (c.toNat - 87)
  else if 'A' ≤ c ∧ c ≤ 'F' then some (c.toNat - 55)
  else none

/-- Characters that never start a plain scalar. Three others do if no blank follows. -/
def isIndicator (c : Char) : Bool := ",[]\x7b\x7d#&*!|>\x27\x22%@\x60".toList.contains c

/-- Letters, digits, `_` and `-`: the characters of names. -/
def isNameChar (c : Char) : Bool :=
  isDigit c || ('A' ≤ c && c ≤ 'Z') || ('a' ≤ c && c ≤ 'z') || c = '_' || c = '-'

/-- The characters that a stream may hold. -/
def isAllowed (c : Char) : Bool :=
  let n := c.toNat
  n = 0x09 || n = 0x0A || n = 0x0D || (0x20 ≤ n && n ≤ 0x7E) || n = 0x85 ||
    (0xA0 ≤ n && n ≤ 0xFFFD) || 0x10000 ≤ n

/-- The characters that are written as they are. -/
def isPrintable (c : Char) : Bool :=
  let n := c.toNat
  n = 0x0A || (0x20 ≤ n && n ≤ 0x7E) || (0xA0 ≤ n && n ≤ 0xFFFD && n ≠ 0xFEFF) || 0x10000 ≤ n

/-- Three dashes or dots that stand alone mark the ends of documents. -/
def isDocumentMark : List Char → Bool
  | '-' :: '-' :: '-' :: r => endsWord r
  | '.' :: '.' :: '.' :: r => endsWord r
  | _ => false

end TypeDeps.Yaml

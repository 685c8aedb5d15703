import TypeDeps.Yaml.Char
import TypeDeps.Yaml.Plain

/-!
# Writing scalars

A text is written plain where that reads back as the same text, between single quotes where
only its look is in the way, and between double quotes if it holds characters that must be
escaped. A text of several lines is written as a literal block where one can hold it.
-/
namespace TypeDeps.Yaml

/-- How the characters of a text follow each other, and what that rules out. -/
structure Shape where
  /-- It would be taken for something else than a scalar. -/
  indicators : Bool
  lineBreaks : Bool
  /-- Characters that only escapes can give. -/
  special : Bool
  /-- A blank or a line break at either end. -/
  looseEnds : Bool
  trailingSpace : Bool
  breakThenSpace : Bool
  spaceThenBreak : Bool
  deriving DecidableEq, Repr

namespace Shape

def startsBadly : List Char → Bool
  | '-' :: '-' :: '-' :: _ => true
  | '.' :: '.' :: '.' :: _ => true
  | c :: r => isIndicator c || ((c = '?' || c = ':' || c = '-') && endsWord r)
  | [] => false

/-- A colon before a blank, or a number sign behind one, inside the text. -/
def hasInnerIndicator : List Char → Bool
  | ':' :: r => endsWord r || hasInnerIndicator r
  | c :: '#' :: r => isBlank c || isBreak c || hasInnerIndicator ('#' :: r)
  | _ :: r => hasInnerIndicator r
  | [] => false

/-- Two characters in a row with these properties. -/
def hasPair (first second : Char → Bool) : List Char → Bool
  | a :: b :: r => (first a && second b) || hasPair first second (b :: r)
  | _ => false

def isLoose (c : Option Char) : Bool := c.any fun c => c = ' ' || isBreak c

def of (cs : List Char) : Shape :=
  { indicators := startsBadly cs || hasInnerIndicator cs
    lineBreaks := cs.any isBreak
    special := cs.any fun c => !isPrintable c
    looseEnds := isLoose cs.head? || isLoose cs.getLast?
    trailingSpace := cs.getLast? = some ' '
    breakThenSpace := hasPair isBreak (· = ' ') cs
    spaceThenBreak := hasPair (· = ' ') isBreak cs }

def needsEscapes (s : Shape) : Bool := s.spaceThenBreak || s.special

def allowsPlain (s : Shape) : Bool :=
  !(s.indicators || s.lineBreaks || s.looseEnds || s.breakThenSpace || s.needsEscapes)

def allowsSingle (s : Shape) : Bool := !(s.breakThenSpace || s.needsEscapes)

def allowsLiteral (s : Shape) : Bool := !(s.trailingSpace || s.needsEscapes)

end Shape

inductive Style where
  | plain
  | single
  | double
  | literal
  deriving DecidableEq, Repr

/-- The style a text is written in. -/
def styleOf (cs : List Char) : Style :=
  let shape := Shape.of cs
  if cs.contains '\n' then (if shape.allowsLiteral then .literal else .double)
  else if shape.allowsPlain && isPlainText cs then .plain
  else if shape.allowsSingle then .single
  else .double

def upperHex (n : Nat) : Char := Char.ofNat (if n < 10 then 48 + n else 55 + n)

/-- The last digits of a number, `width` many. -/
def hexDigits (n : Nat) : Nat → List Char
  | 0 => []
  | width + 1 => hexDigits (n / 16) width ++ [upperHex (n % 16)]

def escapeCode (c : Char) : List Char :=
  let n := c.toNat
  if n = 0 then ['0']
  else if n = 0x07 then ['a']
  else if n = 0x08 then ['b']
  else if n = 0x09 then ['t']
  else if n = 0x0A then ['n']
  else if n = 0x0B then ['v']
  else if n = 0x0C then ['f']
  else if n = 0x0D then ['r']
  else if n = 0x1B then ['e']
  else if n = 0x85 then ['N']
  else if n = 0x2028 then ['L']
  else if n = 0x2029 then ['P']
  else if n ≤ 0xFF then 'x' :: hexDigits n 2
  else if n ≤ 0xFFFF then 'u' :: hexDigits n 4
  else 'U' :: hexDigits n 8

def escapeDouble (c : Char) : List Char :=
  if c = '\x22' ∨ c = '\\' then ['\\', c]
  else if !isPrintable c || isBreak c then '\\' :: escapeCode c
  else [c]

def double (cs : List Char) : List Char := '\x22' :: cs.flatMap escapeDouble ++ ['\x22']

def indentation : List Char := [' ', ' ']

/-- The lines behind a separator are indented. `fresh` says that nothing of the line has been
written. -/
def singleBody (fresh : Bool) : List Char → List Char
  | [] => if fresh then indentation else []
  | c :: r =>
    if isBreak c then c :: singleBody true r
    else
      (if fresh then indentation else []) ++ (if c = '\x27' then ['\x27', '\x27'] else [c]) ++
        singleBody false r

def single (cs : List Char) : List Char := '\x27' :: singleBody false cs ++ ['\x27']

/-- Every line that is not empty is indented. -/
def literalBody (fresh : Bool) : List Char → List Char
  | [] => []
  | c :: r =>
    if isBreak c then c :: literalBody true r
    else (if fresh then indentation else []) ++ c :: literalBody false r

/-- A first character that would hide the indentation makes it explicit. -/
def indentHint (cs : List Char) : List Char :=
  if Shape.isLoose cs.head? then ['2'] else []

/-- How many of the line breaks at the end belong to the text. -/
def chompHint (cs : List Char) : List Char :=
  match cs.reverse with
  | [] => ['-']
  | c :: r =>
    if !isBreak c then ['-']
    else if r.isEmpty || r.head?.any isBreak then ['+']
    else []

/-- A literal block ends with a line end in any case. -/
def literal (cs : List Char) : List Char :=
  let body := literalBody true cs
  let close := if (cs.getLast?).any isBreak then [] else ['\n']
  '|' :: indentHint cs ++ chompHint cs ++ '\n' :: body ++ close

/-- A text behind a key or a dash, up to the end of its last line. -/
def scalarLine (cs : List Char) : List Char :=
  match styleOf cs with
  | .plain => ' ' :: cs ++ ['\n']
  | .single => ' ' :: single cs ++ ['\n']
  | .double => ' ' :: double cs ++ ['\n']
  | .literal => ' ' :: literal cs

end TypeDeps.Yaml

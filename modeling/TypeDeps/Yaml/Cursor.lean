import TypeDeps.Yaml.Char

/-!
# Places in a text

A cursor holds what is left of a text and the mark of its first character: how many
characters, lines and columns lie before it.
-/
namespace TypeDeps.Yaml

structure Mark where
  index : Nat
  line : Nat
  column : Nat
  deriving DecidableEq, Repr

namespace Mark

def start : Mark := ⟨0, 0, 0⟩

def next (m : Mark) : Mark := ⟨m.index + 1, m.line, m.column + 1⟩

def nextBy (m : Mark) (n : Nat) : Mark := ⟨m.index + n, m.line, m.column + n⟩

/-- Behind a line break of so many characters. -/
def nextLine (m : Mark) (n : Nat) : Mark := ⟨m.index + n, m.line + 1, 0⟩

end Mark

structure Cursor where
  rest : List Char
  mark : Mark
  deriving DecidableEq, Repr

namespace Cursor

def skip (c : Cursor) (n : Nat) : Cursor := ⟨c.rest.drop n, c.mark.nextBy n⟩

/-- Behind the characters of a class, which are the first part of the answer. -/
def takeWhile (c : Cursor) (p : Char → Bool) : List Char × Cursor :=
  let taken := c.rest.takeWhile p
  (taken, ⟨c.rest.dropWhile p, c.mark.nextBy taken.length⟩)

def skipWhile (c : Cursor) (p : Char → Bool) : Cursor := (c.takeWhile p).2

/-- Behind a line break, if one is here. -/
def skipBreak (c : Cursor) : Cursor :=
  match c.rest with
  | '\r' :: '\n' :: r => ⟨r, c.mark.nextLine 2⟩
  | b :: r => if isBreak b then ⟨r, c.mark.nextLine 1⟩ else c
  | [] => c

def atLineEnd (c : Cursor) : Bool :=
  match c.rest with
  | [] => true
  | b :: _ => isBreak b

/-- Behind blanks, a comment and the line end that must follow them. -/
def skipLineEnd? (c : Cursor) : Option Cursor :=
  let c := c.skipWhile isBlank
  let c := if c.rest.head? = some '#' then c.skipWhile (fun b => !isBreak b) else c
  if c.atLineEnd then some c.skipBreak else none

end Cursor

end TypeDeps.Yaml

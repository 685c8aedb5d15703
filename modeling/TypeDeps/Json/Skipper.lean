import TypeDeps.Json.Number
import TypeDeps.Json.String

/-!
# Skipping values

The value of a member that nobody asked for may be anything. The machine keeps the brackets
that are open and what may come next, so that values nest to any depth.
-/
namespace TypeDeps.Json

inductive Bracket where
  | array
  | object
  deriving DecidableEq, Repr

/-- The rest of a literal word. -/
abbrev Letters := List UInt8

def nullLetters : Letters := [0x75, 0x6C, 0x6C]

def trueLetters : Letters := [0x72, 0x75, 0x65]

def falseLetters : Letters := [0x61, 0x6C, 0x73, 0x65]

namespace Letters

def step (ls : Letters) (b : UInt8) : Step Letters Unit :=
  match ls with
  | [] => .passed ()
  | l :: rest =>
    if b = l then (if rest.isEmpty then .done () else .more rest)
    else .fault (.taken .noLiteral)

end Letters

/-- What may come next in a skipped value. -/
inductive SkipPhase where
  /-- A value. -/
  | value
  /-- Something or the closing bracket. -/
  | opened
  /-- A comma or the closing bracket. -/
  | afterValue
  | key
  | colon
  | keyString (s : StringSkipper)
  | string (s : StringSkipper)
  | number (n : NumberSkipper)
  | literal (ls : Letters)
  deriving DecidableEq, Repr

/-- The open brackets, the innermost first. -/
structure Skipper where
  stack : List Bracket
  phase : SkipPhase
  deriving DecidableEq, Repr

namespace Skipper

def start : Skipper := ⟨[], .value⟩

/-- A value has ended with the byte just taken. -/
def ended (stack : List Bracket) : Step Skipper Unit :=
  if stack.isEmpty then .done () else .more ⟨stack, .afterValue⟩

def startValue (stack : List Bracket) (b : UInt8) : Step Skipper Unit :=
  if b = 0x22 then .more ⟨stack, .string .plain⟩
  else if b = 0x5B then .more ⟨.array :: stack, .opened⟩
  else if b = 0x7B then .more ⟨.object :: stack, .opened⟩
  else if b = 0x6E then .more ⟨stack, .literal nullLetters⟩
  else if b = 0x74 then .more ⟨stack, .literal trueLetters⟩
  else if b = 0x66 then .more ⟨stack, .literal falseLetters⟩
  else if b = 0x2D then .more ⟨stack, .number .sign⟩
  else if b = 0x30 then .more ⟨stack, .number .zero⟩
  else if isDigit b then .more ⟨stack, .number .integer⟩
  else .fault (.ahead .noValue)

def startKey (stack : List Bracket) (b : UInt8) : Step Skipper Unit :=
  if b = 0x22 then .more ⟨stack, .keyString .plain⟩ else .fault (.ahead .keyNotString)

def stepOpened (stack : List Bracket) (b : UInt8) : Step Skipper Unit :=
  match stack with
  | .array :: outer => if b = 0x5D then ended outer else startValue stack b
  | .object :: outer => if b = 0x7D then ended outer else startKey stack b
  | [] => .passed ()

def stepAfter (stack : List Bracket) (b : UInt8) : Step Skipper Unit :=
  match stack with
  | .array :: outer =>
    if b = 0x2C then .more ⟨stack, .value⟩
    else if b = 0x5D then ended outer
    else .fault (.ahead .noListEnd)
  | .object :: outer =>
    if b = 0x2C then .more ⟨stack, .key⟩
    else if b = 0x7D then ended outer
    else .fault (.ahead .noObjectEnd)
  | [] => .passed ()

/-- Blanks between tokens change nothing. -/
def blankOr (s : Skipper) (b : UInt8) (next : Step Skipper Unit) : Step Skipper Unit :=
  if isBlank b then .more s else next

def step (s : Skipper) (b : UInt8) : Step Skipper Unit :=
  match s.phase with
  | .value => s.blankOr b (startValue s.stack b)
  | .opened => s.blankOr b (stepOpened s.stack b)
  | .afterValue => s.blankOr b (stepAfter s.stack b)
  | .key => s.blankOr b (startKey s.stack b)
  | .colon =>
    s.blankOr b (if b = 0x3A then .more ⟨s.stack, .value⟩ else .fault (.ahead .noColon))
  | .keyString t =>
    match t.step b with
    | .more t => .more ⟨s.stack, .keyString t⟩
    | .done _ | .passed _ => .more ⟨s.stack, .colon⟩
    | .fault f => .fault f
  | .string t =>
    match t.step b with
    | .more t => .more ⟨s.stack, .string t⟩
    | .done _ | .passed _ => ended s.stack
    | .fault f => .fault f
  | .literal ls =>
    match ls.step b with
    | .more ls => .more ⟨s.stack, .literal ls⟩
    | .done _ | .passed _ => ended s.stack
    | .fault f => .fault f
  | .number n =>
    match n.step b with
    | .more n => .more ⟨s.stack, .number n⟩
    | .done _ => ended s.stack
    | .passed _ =>
      if s.stack.isEmpty then .passed ()
      else if isBlank b then .more ⟨s.stack, .afterValue⟩
      else stepAfter s.stack b
    | .fault f => .fault f

/-- What is missing when the document ends here. A number that may end here is complete only
if no bracket is open. -/
def atEnd (s : Skipper) : Option Cause :=
  let inBracket : Cause :=
    match s.stack with
    | .array :: _ => .endOfList
    | _ => .endOfObject
  match s.phase with
  | .value => some .endOfValue
  | .opened | .afterValue => some inBracket
  | .key | .colon => some .endOfObject
  | .keyString _ | .string _ => some .endOfString
  | .literal _ => some .endOfValue
  | .number n =>
    if !n.canEnd then some .badNumber
    else if s.stack.isEmpty then none
    else some inBracket

end Skipper

end TypeDeps.Json

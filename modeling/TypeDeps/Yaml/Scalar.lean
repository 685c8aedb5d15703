import TypeDeps.Yaml.Cursor

/-!
# Reading scalars

Each function starts at the first character of a scalar and answers its text and the place
behind it, or nothing if the characters are no scalar. All of them go through the characters
one by one. `Gap` holds the blanks and line breaks since the last character of the text: they
count only if more text follows, and line breaks are folded then.
-/
namespace TypeDeps.Yaml

inductive Gap where
  | none
  /-- Blanks within a line, the last one first. -/
  | blanks (bs : List Char)
  /-- Line breaks: the first one, and the others with the last one first. An escaped line
  break counts as no first one. -/
  | lines (first : List Char) (more : List Char)
  deriving DecidableEq, Repr

namespace Gap

/-- One line break becomes a space, several lose the first one, but separators stay. -/
def text : Gap → List Char
  | none => []
  | blanks bs => bs.reverse
  | lines first more =>
    if first = ['\n'] then (if more.isEmpty then [' '] else more.reverse)
    else first ++ more.reverse

def addBlank (g : Gap) (b : Char) : Gap :=
  match g with
  | none => blanks [b]
  | blanks bs => blanks (b :: bs)
  | lines first more => lines first more

def addBreak (g : Gap) (b : Char) : Gap :=
  match g with
  | none => lines [breakText b] []
  | blanks _ => lines [breakText b] []
  | lines first more => lines first (breakText b :: more)

def hasBreak : Gap → Bool
  | lines _ _ => true
  | _ => false

/-- The text, the last character first, with the gap behind it. -/
def close (g : Gap) (acc : List Char) : List Char := g.text.reverse ++ acc

end Gap

/-- A scalar and the place behind it. `broken` says that line breaks lie in between. -/
structure ScalarRead where
  text : List Char
  broken : Bool
  after : Cursor
  deriving DecidableEq, Repr

def isFlowIndicator (c : Char) : Bool := ",[]\x7b\x7d".toList.contains c

namespace PlainScalar

/-- A colon that ends a plain scalar, or any character that does so inside brackets. -/
def endsHere (inFlow : Bool) (c : Char) (r : List Char) : Bool :=
  (c = ':' && endsWord r) || (inFlow && isFlowIndicator c)

/-- Inside brackets a colon may not stand directly before one of their signs. -/
def isMisplacedColon (inFlow : Bool) (c : Char) (r : List Char) : Bool :=
  inFlow && c = ':' && (r.head?).any fun d => d = '?' || isFlowIndicator d

/-- Behind a gap, what is indented less, a document mark and a comment end the scalar. -/
def endsBehindGap (inFlow : Bool) (indent : Nat) (gap : Gap) (mark : Mark) (cs : List Char) :
    Bool :=
  match gap with
  | .none => false
  | _ =>
    (!inFlow && mark.column < indent) || (mark.column = 0 && isDocumentMark cs) ||
      cs.head? = some '#'

/-- `indent` is the least column that lines behind the first one may start at. -/
def scan (inFlow : Bool) (indent : Nat) (acc : List Char) (gap : Gap) (mark : Mark) :
    List Char → Option ScalarRead
  | [] => some ⟨acc.reverse, gap.hasBreak, ⟨[], mark⟩⟩
  | '\r' :: '\n' :: r => scan inFlow indent acc (gap.addBreak '\n') (mark.nextLine 2) r
  | c :: r =>
    if isBreak c then scan inFlow indent acc (gap.addBreak c) (mark.nextLine 1) r
    else if isBlank c then
      if gap.hasBreak && mark.column < indent && c = '\t' then none
      else scan inFlow indent acc (gap.addBlank c) mark.next r
    else if endsBehindGap inFlow indent gap mark (c :: r) then
      some ⟨acc.reverse, gap.hasBreak, ⟨c :: r, mark⟩⟩
    else if isMisplacedColon inFlow c r then none
    else if endsHere inFlow c r then some ⟨acc.reverse, gap.hasBreak, ⟨c :: r, mark⟩⟩
    else scan inFlow indent (c :: gap.close acc) .none mark.next r

end PlainScalar

/-- A plain scalar, inside brackets or not. -/
def plainScalar? (inFlow : Bool) (indent : Nat) (c : Cursor) : Option ScalarRead :=
  PlainScalar.scan inFlow indent [] .none c.mark c.rest

namespace SingleScalar

def scan (acc : List Char) (gap : Gap) (mark : Mark) : List Char → Option ScalarRead
  | [] => none
  | '\r' :: '\n' :: r => scan acc (gap.addBreak '\n') (mark.nextLine 2) r
  | '\x27' :: '\x27' :: r => scan ('\x27' :: gap.close acc) .none (mark.nextBy 2) r
  | c :: r =>
    if isBreak c then scan acc (gap.addBreak c) (mark.nextLine 1) r
    else if isBlank c then scan acc (gap.addBlank c) mark.next r
    else if mark.column = 0 ∧ isDocumentMark (c :: r) then none
    else if c = '\x27' then some ⟨(gap.close acc).reverse, false, ⟨r, mark.next⟩⟩
    else scan (c :: gap.close acc) .none mark.next r

end SingleScalar

/-- A scalar between single quotes. -/
def singleScalar? (c : Cursor) : Option ScalarRead :=
  SingleScalar.scan [] .none c.mark.next (c.rest.drop 1)

namespace DoubleScalar

inductive Mode where
  | text
  | escape
  /-- Inside the digits of a code, of which so many are due. -/
  | code (due : Nat) (value : Nat)
  deriving DecidableEq, Repr

/-- The character that a one-letter escape stands for. -/
def simpleEscape? (c : Char) : Option Char :=
  if c = '0' then some '\x00'
  else if c = 'a' then some '\x07'
  else if c = 'b' then some '\x08'
  else if c = 't' ∨ c = '\t' then some '\t'
  else if c = 'n' then some '\n'
  else if c = 'v' then some '\x0B'
  else if c = 'f' then some '\x0C'
  else if c = 'r' then some '\r'
  else if c = 'e' then some '\x1B'
  else if c = ' ' ∨ c = '\x22' ∨ c = '/' ∨ c = '\\' then some c
  else if c = 'N' then some nextLine
  else if c = '_' then some (Char.ofNat 0xA0)
  else if c = 'L' then some lineSeparator
  else if c = 'P' then some paragraphSeparator
  else none

/-- The number of digits behind an escape letter. -/
def codeLength? (c : Char) : Option Nat :=
  if c = 'x' then some 2
  else if c = 'u' then some 4
  else if c = 'U' then some 8
  else none

/-- A line break behind a backslash joins the lines without a space. -/
def breakGap (mode : Mode) (gap : Gap) (b : Char) : Gap :=
  match mode with
  | .escape => .lines [] []
  | _ => gap.addBreak b

def isCode : Mode → Bool
  | .code _ _ => true
  | _ => false

def scan (mode : Mode) (acc : List Char) (gap : Gap) (mark : Mark) :
    List Char → Option ScalarRead
  | [] => none
  | '\r' :: '\n' :: r =>
    if isCode mode then none
    else scan .text acc (breakGap mode gap '\n') (mark.nextLine 2) r
  | c :: r =>
    match mode with
    | .code due value =>
      match hexValue? c with
      | none => none
      | some d =>
        let value := value * 16 + d
        if 1 < due then scan (.code (due - 1) value) acc gap mark.next r
        else if h : value.isValidChar then
          scan .text (Char.ofNatAux value h :: acc) .none mark.next r
        else none
    | .escape =>
      if isBreak c then scan .text acc (breakGap mode gap c) (mark.nextLine 1) r
      else
        match codeLength? c with
        | some n => scan (.code n 0) acc gap mark.next r
        | none =>
          match simpleEscape? c with
          | some d => scan .text (d :: acc) .none mark.next r
          | none => none
    | .text =>
      if isBreak c then scan .text acc (gap.addBreak c) (mark.nextLine 1) r
      else if isBlank c then scan .text acc (gap.addBlank c) mark.next r
      else if mark.column = 0 ∧ isDocumentMark (c :: r) then none
      else if c = '\x22' then some ⟨(gap.close acc).reverse, false, ⟨r, mark.next⟩⟩
      else if c = '\\' then scan .escape (gap.close acc) .none mark.next r
      else scan .text (c :: gap.close acc) .none mark.next r

end DoubleScalar

/-- A scalar between double quotes. -/
def doubleScalar? (c : Cursor) : Option ScalarRead :=
  DoubleScalar.scan .text [] .none c.mark.next (c.rest.drop 1)

namespace BlockScalar

/-- What happens to the line breaks at the end. -/
inductive Chomping where
  | strip
  | clip
  | keep
  deriving DecidableEq, Repr

structure Header where
  folded : Bool
  chomping : Chomping
  /-- How much deeper than the node around it the block is indented, if that is given. -/
  indent? : Option Nat
  deriving DecidableEq, Repr

def chomping? (c : Char) : Option Chomping :=
  if c = '+' then some .keep else if c = '-' then some .strip else none

/-- The two indicators come in either order. -/
def header? (c : Cursor) : Option (Header × Cursor) := do
  let folded := c.rest.head? = some '>'
  let c := c.skip 1
  let first? := (c.rest.head?).bind chomping?
  let c := if first?.isSome then c.skip 1 else c
  let digit? := (c.rest.head?).filter isDigit
  let c := if digit?.isSome then c.skip 1 else c
  let last? := if first?.isNone && digit?.isSome then (c.rest.head?).bind chomping? else none
  let c := if last?.isSome then c.skip 1 else c
  if digit? = some '0' then none
  else do
    let c ← c.skipLineEnd?
    pure (⟨folded, (first?.or last?).getD .clip, digit?.map fun d => d.toNat - 48⟩, c)

/-- The state between two lines. `indent?` is the depth of the block once it is known, and
`deepest` the largest column reached before that. `first` is the break behind the last line
and `more` those of the empty lines after it, the last one first. `blankLine` says that the
last line started with a blank. -/
structure Lines where
  indent? : Option Nat
  deepest : Nat
  first : List Char
  more : List Char
  blankLine : Bool
  deriving DecidableEq, Repr

/-- The depth of the block: what its first lines show, but deeper than the node around it. -/
def Lines.indent (l : Lines) (outer column : Nat) : Nat :=
  l.indent?.getD (max (max l.deepest column) (max outer 1))

/-- The breaks before a line that starts with this character. In a folded block, a single
break between two lines that do not start with blanks becomes a space. -/
def Lines.join (l : Lines) (folded : Bool) (c : Char) : List Char :=
  if folded && l.first = ['\n'] && !l.blankLine && !isBlank c then
    if l.more.isEmpty then [' '] else l.more.reverse
  else l.first ++ l.more.reverse

def Lines.tail (l : Lines) : Chomping → List Char
  | .strip => []
  | .clip => l.first
  | .keep => l.first ++ l.more.reverse

inductive Mode where
  | between (l : Lines)
  /-- Inside a line of a block of this depth. -/
  | line (indent : Nat) (blankLine : Bool)
  deriving DecidableEq, Repr

def Mode.tail (chomping : Chomping) : Mode → List Char
  | between l => l.tail chomping
  | line _ _ => []

/-- The mode behind a line break. -/
def Mode.addBreak (m : Mode) (column : Nat) (b : Char) : Mode :=
  match m with
  | between l =>
    between { l with deepest := max l.deepest column, more := breakText b :: l.more }
  | line indent blankLine => between ⟨some indent, 0, [breakText b], [], blankLine⟩

/-- A character of the indentation, of which more is due or the depth is not known yet. -/
def Lines.isIndenting (l : Lines) (column : Nat) : Bool := l.indent?.all (column < ·)

def scan (h : Header) (outer : Nat) (mode : Mode) (acc : List Char) (mark : Mark) :
    List Char → Option ScalarRead
  | [] => some ⟨acc.reverse ++ mode.tail h.chomping, true, ⟨[], mark⟩⟩
  | '\r' :: '\n' :: r =>
    scan h outer (mode.addBreak mark.column '\n') acc (mark.nextLine 2) r
  | c :: r =>
    match mode with
    | .line indent blankLine =>
      if isBreak c then scan h outer (mode.addBreak mark.column c) acc (mark.nextLine 1) r
      else scan h outer (.line indent blankLine) (c :: acc) mark.next r
    | .between l =>
      if l.isIndenting mark.column && c = ' ' then scan h outer (.between l) acc mark.next r
      else if l.isIndenting mark.column && c = '\t' then none
      else if isBreak c then scan h outer (mode.addBreak mark.column c) acc (mark.nextLine 1) r
      else
        let indent := l.indent outer mark.column
        if mark.column = indent then
          scan h outer (.line indent (isBlank c)) (c :: ((l.join h.folded c).reverse ++ acc))
            mark.next r
        else some ⟨acc.reverse ++ l.tail h.chomping, true, ⟨c :: r, mark⟩⟩

end BlockScalar

/-- A literal or folded block. `outer` is the depth that the block must have at least. -/
def blockScalar? (outer : Nat) (c : Cursor) : Option ScalarRead := do
  let (h, c) ← BlockScalar.header? c
  let indent? := h.indent?.map fun n => outer - 1 + n
  BlockScalar.scan h outer (.between ⟨indent?, 0, [], [], false⟩) [] c.mark c.rest

end TypeDeps.Yaml

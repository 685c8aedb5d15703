import TypeDeps.Yaml.Scalar
import TypeDeps.Yaml.Token

/-!
# Dividing a stream into tokens

A text may turn out to be the key of a mapping only when the colon behind it is read. Until
then its place among the tokens is kept open: the key token, and a token that starts the
mapping, are put there later. A key ends in the line it starts in and has at most 1024
characters.

A fault ends the scan. What lies in front of it still counts, up to the first open place;
that part is the answer of `tokens`.
-/
namespace TypeDeps.Yaml

/-- A place that a key token may have to be put at. -/
structure KeyPlace where
  /-- Nothing but a key can stand here. -/
  required : Bool
  /-- The number of tokens in front. -/
  number : Nat
  mark : Mark
  deriving DecidableEq, Repr

namespace KeyPlace

def isStale (k : KeyPlace) (m : Mark) : Bool :=
  k.mark.line < m.line || k.mark.index + 1024 < m.index

/-- The place as it stands at a mark. A stale place is given up, and that is a fault if a key
had to come. -/
def refresh? (m : Mark) : Option KeyPlace → Option (Option KeyPlace)
  | none => some none
  | some k => if !k.isStale m then some (some k) else if k.required then none else some none

end KeyPlace

structure Scanner where
  cursor : Cursor
  /-- The columns of the open block collections, the innermost one first. -/
  indents : List Nat
  key : Option KeyPlace
  /-- The key places outside the open brackets, the innermost one first. -/
  outerKeys : List (Option KeyPlace)
  /-- A block collection or a key may start here. -/
  keyAllowed : Bool
  /-- The tokens, the last one first. -/
  found : List Token
  count : Nat
  /-- The number of tokens in front of the first open place. -/
  settled : Nat
  deriving Repr

namespace Scanner

def start (cs : List Char) : Scanner :=
  ⟨⟨cs, .start⟩, [], none, [], true, [], 0, 0⟩

def inFlow (s : Scanner) : Bool := !s.outerKeys.isEmpty

def mark (s : Scanner) : Mark := s.cursor.mark

def addToken (s : Scanner) (t : Token) : Scanner :=
  { s with found := t :: s.found, count := s.count + 1 }

/-- Put a token behind the first `number` ones. -/
def insertToken (s : Scanner) (number : Nat) (t : Token) : Scanner :=
  let later := s.count - number
  { s with found := s.found.take later ++ t :: s.found.drop later, count := s.count + 1 }

/-- A token for the next `length` characters. -/
def take (s : Scanner) (length : Nat) (kind : TokenKind) : Scanner :=
  let after := s.cursor.skip length
  { s.addToken ⟨kind, s.mark, after.mark⟩ with cursor := after }

/-- A token that ends at another place. -/
def takeTo (s : Scanner) (after : Cursor) (kind : TokenKind) : Scanner :=
  { s.addToken ⟨kind, s.mark, after.mark⟩ with cursor := after }

def allowKey (s : Scanner) (b : Bool) : Scanner := { s with keyAllowed := b }

/-! ## Blanks -/

/-- Behind blanks, comments and line breaks. Tabs count as blanks only where no block
collection can start, and a byte order mark only at the start of a line. -/
def skipBlanks (flow comment keyAllowed : Bool) (mark : Mark) : List Char → Cursor × Bool
  | [] => (⟨[], mark⟩, keyAllowed)
  | '\r' :: '\n' :: r => skipBlanks flow false (keyAllowed || !flow) (mark.nextLine 2) r
  | c :: r =>
    if isBreak c then skipBlanks flow false (keyAllowed || !flow) (mark.nextLine 1) r
    else if comment || c = '#' then skipBlanks flow true keyAllowed mark.next r
    else if c = ' ' || (c = '\t' && (flow || !keyAllowed)) ||
        (c = byteOrderMark && mark.column = 0) then
      skipBlanks flow false keyAllowed mark.next r
    else (⟨c :: r, mark⟩, keyAllowed)

def toNextToken (s : Scanner) : Scanner :=
  let (cursor, keyAllowed) := skipBlanks s.inFlow false s.keyAllowed s.mark s.cursor.rest
  { s with cursor, keyAllowed }

/-! ## Key places -/

def refreshKeys? (s : Scanner) : Option Scanner := do
  let key ← KeyPlace.refresh? s.mark s.key
  let outerKeys ← s.outerKeys.mapM (KeyPlace.refresh? s.mark)
  pure { s with key, outerKeys }

/-- Give up the key place. -/
def dropKey? (s : Scanner) : Option Scanner :=
  if s.key.any KeyPlace.required then none else some { s with key := none }

/-- What follows may be a key. -/
def saveKey? (s : Scanner) : Option Scanner :=
  if s.keyAllowed then do
    let s ← s.dropKey?
    let required := !s.inFlow && s.indents.head? = some s.mark.column
    pure { s with key := some ⟨required, s.count, s.mark⟩ }
  else some s

/-! ## Indentation -/

/-- A block collection starts at this column, unless one is open there. -/
def indent (s : Scanner) (column number : Nat) (kind : TokenKind) (mark : Mark) : Scanner :=
  if s.inFlow || s.indents.head?.any (column ≤ ·) then s
  else { s.insertToken number ⟨kind, mark, mark⟩ with indents := column :: s.indents }

/-- The block collections that are indented deeper end here. -/
def outdent (s : Scanner) (isDeeper : Nat → Bool) : Scanner :=
  if s.inFlow then s
  else
    let closed := s.indents.takeWhile isDeeper
    let s := closed.foldl (fun s _ => s.addToken ⟨.blockEnd, s.mark, s.mark⟩) s
    { s with indents := s.indents.dropWhile isDeeper }

def outdentAll (s : Scanner) : Scanner := s.outdent fun _ => true

/-! ## Tokens of each kind -/

/-- The end of the text counts as the start of a line. -/
def streamEnd? (s : Scanner) : Option Scanner := do
  let m := s.mark
  let cursor : Cursor := if m.column = 0 then s.cursor else ⟨[], ⟨m.index, m.line + 1, 0⟩⟩
  let s ← { s with cursor }.outdentAll.dropKey?
  pure ((s.allowKey false).take 0 .streamEnd)

def directive? (s : Scanner) : Option Scanner := do
  let s ← s.outdentAll.dropKey?
  let (kind, after, next) ← s.cursor.directive?
  pure { (s.allowKey false).takeTo after kind with cursor := next }

def documentMark? (s : Scanner) (kind : TokenKind) : Option Scanner := do
  let s ← s.outdentAll.dropKey?
  pure ((s.allowKey false).take 3 kind)

def openFlow? (s : Scanner) (kind : TokenKind) : Option Scanner := do
  let s ← s.saveKey?
  let s := { s with key := none, outerKeys := s.key :: s.outerKeys }
  pure ((s.allowKey true).take 1 kind)

def closeFlow? (s : Scanner) (kind : TokenKind) : Option Scanner := do
  let s ← s.dropKey?
  let s := { s with key := s.outerKeys.head?.getD none, outerKeys := s.outerKeys.tail }
  pure ((s.allowKey false).take 1 kind)

def flowEntry? (s : Scanner) : Option Scanner := do
  let s ← s.dropKey?
  pure ((s.allowKey true).take 1 .flowEntry)

/-- A sign that can start a block collection, which is allowed only where a line starts. -/
def opening? (s : Scanner) (kind : TokenKind) : Option Scanner :=
  if s.inFlow then some s
  else if s.keyAllowed then some (s.indent s.mark.column s.count kind s.mark)
  else none

def blockEntry? (s : Scanner) : Option Scanner := do
  let s ← s.opening? .blockSequenceStart
  let s ← s.dropKey?
  pure ((s.allowKey true).take 1 .blockEntry)

def key? (s : Scanner) : Option Scanner := do
  let s ← s.opening? .blockMappingStart
  let s ← s.dropKey?
  pure ((s.allowKey !s.inFlow).take 1 .key)

/-- A colon makes the text at the open place a key. -/
def value? (s : Scanner) : Option Scanner := do
  match s.key with
  | some k =>
    let s := s.insertToken k.number ⟨.key, k.mark, k.mark⟩
    let s := s.indent k.mark.column k.number .blockMappingStart k.mark
    pure (({ s with key := none }.allowKey false).take 1 .value)
  | none =>
    let s ← s.opening? .blockMappingStart
    pure ((s.allowKey !s.inFlow).take 1 .value)

def anchor? (s : Scanner) (kind : List Char → TokenKind) : Option Scanner := do
  let s ← s.saveKey?
  let (name, after) ← s.cursor.anchorName?
  pure ((s.allowKey false).takeTo after (kind name))

/-- A blank must follow a tag, or a comma inside brackets. -/
def tag? (s : Scanner) : Option Scanner := do
  let s ← s.saveKey?
  let (kind, after) ← s.cursor.tag?
  if after.atWordEnd || (s.inFlow && after.at? (· = ',')) then
    pure ((s.allowKey false).takeTo after kind)
  else none

/-- The least column for what belongs to the innermost block collection. -/
def innerColumn (s : Scanner) : Nat := (s.indents.head?.map (· + 1)).getD 0

def block? (s : Scanner) : Option Scanner := do
  let s ← s.dropKey?
  let read ← blockScalar? s.innerColumn s.cursor
  pure ((s.allowKey true).takeTo read.after (.scalar read.text false))

def quoted? (s : Scanner) (read? : Cursor → Option ScalarRead) : Option Scanner := do
  let s ← s.saveKey?
  let read ← read? s.cursor
  pure ((s.allowKey false).takeTo read.after (.scalar read.text false))

def plain? (s : Scanner) : Option Scanner := do
  let s ← s.saveKey?
  let read ← plainScalar? s.inFlow s.innerColumn s.cursor
  pure ((s.allowKey read.broken).takeTo read.after (.scalar read.text true))

/-! ## One token after the other -/

/-- What the characters at a place begin. -/
inductive Sign where
  | directive
  | documentMark (kind : TokenKind)
  | openFlow (kind : TokenKind)
  | closeFlow (kind : TokenKind)
  | flowEntry
  | blockEntry
  | key
  | value
  | anchor (kind : List Char → TokenKind)
  | tag
  | block
  | quoted (read? : Cursor → Option ScalarRead)
  | plain

def startsPlain (flow : Bool) (c : Char) (r : List Char) : Bool :=
  if c = '-' then !endsWord r
  else if c = '?' || c = ':' then !flow && !endsWord r
  else !isIndicator c && !isBlank c && !isBreak c

def sign? (flow atLineStart : Bool) (c : Char) (r : List Char) : Option Sign :=
  if atLineStart && c = '%' then some .directive
  else if atLineStart && isDocumentMark (c :: r) then
    some (.documentMark (if c = '-' then .documentStart else .documentEnd))
  else if c = '[' then some (.openFlow .flowSequenceStart)
  else if c = '\x7b' then some (.openFlow .flowMappingStart)
  else if c = ']' then some (.closeFlow .flowSequenceEnd)
  else if c = '\x7d' then some (.closeFlow .flowMappingEnd)
  else if c = ',' then some .flowEntry
  else if c = '-' && endsWord r then some .blockEntry
  else if c = '?' && (flow || endsWord r) then some .key
  else if c = ':' && (flow || endsWord r) then some .value
  else if c = '*' then some (.anchor .alias)
  else if c = '&' then some (.anchor .anchor)
  else if c = '!' then some .tag
  else if (c = '|' || c = '>') && !flow then some .block
  else if c = '\x27' then some (.quoted singleScalar?)
  else if c = '\x22' then some (.quoted doubleScalar?)
  else if startsPlain flow c r then some .plain
  else none

def takeSign? (s : Scanner) : Sign → Option Scanner
  | .directive => s.directive?
  | .documentMark kind => s.documentMark? kind
  | .openFlow kind => s.openFlow? kind
  | .closeFlow kind => s.closeFlow? kind
  | .flowEntry => s.flowEntry?
  | .blockEntry => s.blockEntry?
  | .key => s.key?
  | .value => s.value?
  | .anchor kind => s.anchor? kind
  | .tag => s.tag?
  | .block => s.block?
  | .quoted read? => s.quoted? read?
  | .plain => s.plain?

/-- The tokens in front of the first open place are settled, unless a required key is
missing already. -/
def settle (s : Scanner) : Scanner :=
  match s.refreshKeys? with
  | none => s
  | some fresh =>
    let places := (fresh.key :: fresh.outerKeys).filterMap fun k => k.map KeyPlace.number
    { s with settled := places.foldl min s.count }

def isAtEnd (s : Scanner) : Bool := s.found.head?.any fun t => t.kind = .streamEnd

/-- The state behind the next token. -/
def next? (s : Scanner) : Option Scanner := do
  let s ← s.toNextToken.refreshKeys?
  let column := s.mark.column
  let s := s.outdent (column < ·)
  let s ←
    match s.cursor.rest with
    | [] => s.streamEnd?
    | c :: r => (sign? s.inFlow (column = 0) c r).bind s.takeSign?
  pure s.settle

/-- The state at the end of the stream or at the first fault. -/
def run : Nat → Scanner → Scanner
  | 0, s => s
  | n + 1, s =>
    match s.next? with
    | none => s
    | some s => if s.isAtEnd then s else run n s

def settledTokens (s : Scanner) : List Token := (s.found.drop (s.count - s.settled)).reverse

end Scanner

/-- The tokens of a stream, or those in front of its first fault. Every token but the last
one takes at least one character. -/
def tokens (cs : List Char) : List Token :=
  if cs.all isAllowed then ((Scanner.start cs).run (cs.length + 2)).settledTokens else []

end TypeDeps.Yaml

import TypeDeps.Text.Utf8
import TypeDeps.Yaml.Cursor

/-!
# Tokens

What the characters of a stream are divided into. Besides the signs that are written down
there are tokens for the start and the end of collections that only indentation shows. This
module also reads the tokens made of names: anchors, aliases, tags and directives.
-/
namespace TypeDeps.Yaml

/-- A tag is held as bytes because its escapes need not stand for characters. -/
abbrev TagName := List UInt8

inductive TokenKind where
  | streamEnd
  | version (major minor : Nat)
  /-- What a tag handle stands for. -/
  | tagHandle (handle lead : TagName)
  | documentStart
  | documentEnd
  | blockSequenceStart
  | blockMappingStart
  | blockEnd
  | flowSequenceStart
  | flowSequenceEnd
  | flowMappingStart
  | flowMappingEnd
  | flowEntry
  | blockEntry
  | key
  | value
  | alias (name : List Char)
  | anchor (name : List Char)
  /-- A tag without handle has an empty one. -/
  | tag (handle suffix : TagName)
  | scalar (text : List Char) (plain : Bool)
  deriving DecidableEq, Repr

structure Token where
  kind : TokenKind
  start : Mark
  after : Mark
  deriving DecidableEq, Repr

namespace Cursor

/-- The next character is in the class. -/
def at? (c : Cursor) (p : Char → Bool) : Bool := c.rest.head?.any p

def atWordEnd (c : Cursor) : Bool := endsWord c.rest

/-- The name of an anchor or alias, with the sign in front of it. A blank or a sign that no
name can hold must follow. -/
def anchorName? (c : Cursor) : Option (List Char × Cursor) :=
  let (name, c) := (c.skip 1).takeWhile isNameChar
  if !name.isEmpty && (c.atWordEnd || c.at? fun b => "?:,]\x7d%@\x60".toList.contains b) then
    some (name, c)
  else none

end Cursor

/-! ## Tags -/

namespace TagName

/-- The characters of a tag. Inside angle brackets and in directives there are three more. -/
def isTagChar (extended : Bool) (c : Char) : Bool :=
  isNameChar c || ";/?:@&=+$.!~*\x27()".toList.contains c ||
    (extended && ",[]".toList.contains c)

/-- How many more bytes the first byte of a character announces. -/
def followers? (byte : Nat) : Option Nat :=
  if byte < 0x80 then some 0
  else if byte < 0xC0 then none
  else if byte < 0xE0 then some 1
  else if byte < 0xF0 then some 2
  else if byte < 0xF8 then some 3
  else none

/-- The number of escaped bytes that are due behind this one. -/
def dueAfter? (due byte : Nat) : Option Nat :=
  if due = 0 then followers? byte
  else if 0x80 ≤ byte ∧ byte < 0xC0 then some (due - 1)
  else none

/-- Read on behind the bytes in `acc`, of which the last one comes first. -/
def scan (extended : Bool) (due : Nat) (acc : TagName) (mark : Mark) :
    List Char → Option (TagName × Cursor)
  | '%' :: a :: b :: r =>
    match hexValue? a, hexValue? b with
    | some x, some y =>
      match dueAfter? due (x * 16 + y) with
      | some due => scan extended due (UInt8.ofNat (x * 16 + y) :: acc) (mark.nextBy 3) r
      | none => none
    | _, _ => none
  | cs =>
    if due ≠ 0 ∨ cs.head? = some '%' then none
    else
      match cs with
      | [] => some (acc.reverse, ⟨[], mark⟩)
      | c :: r =>
        if isTagChar extended c then
          scan extended 0 ((String.utf8EncodeChar c).reverse ++ acc) mark.next r
        else some (acc.reverse, ⟨c :: r, mark⟩)

/-- A null byte ends a tag. -/
def untilNull (t : TagName) : TagName := t.takeWhile (· ≠ 0)

end TagName

namespace Cursor

/-- The part of a tag behind its handle, which must not be empty if nothing precedes it. -/
def tagSuffix? (c : Cursor) (extended : Bool) (lead : TagName) (mayBeEmpty : Bool) :
    Option (TagName × Cursor) := do
  let (suffix, after) ← TagName.scan extended 0 [] c.mark c.rest
  if suffix.isEmpty && !mayBeEmpty then none
  else pure (TagName.untilNull (lead ++ suffix), after)

/-- A handle: an exclamation mark, perhaps a name, and perhaps a second mark. -/
def tagHandle? (c : Cursor) : Option (List Char × Cursor) :=
  if c.at? (· = '!') then
    let (name, c) := (c.skip 1).takeWhile isNameChar
    if c.at? (· = '!') then some ('!' :: name ++ ['!'], c.skip 1) else some ('!' :: name, c)
  else none

def asciiBytes (cs : List Char) : TagName := Utf8.encode cs

/-- A tag between angle brackets, behind a handle, or behind a single mark, which stands for
itself if it stands alone. -/
def tag? (c : Cursor) : Option (TokenKind × Cursor) := do
  if (c.skip 1).at? (· = '<') then
    let (suffix, c) ← (c.skip 2).tagSuffix? true [] false
    if c.at? (· = '>') then pure (.tag [] suffix, c.skip 1) else none
  else
    let (handle, c) ← c.tagHandle?
    if 1 < handle.length && handle.getLast? = some '!' then
      let (suffix, c) ← c.tagSuffix? false [] false
      pure (.tag (asciiBytes handle) suffix, c)
    else
      let (suffix, c) ← c.tagSuffix? false (asciiBytes handle.tail) true
      if suffix.isEmpty then pure (.tag [] (asciiBytes ['!']), c)
      else pure (.tag (asciiBytes ['!']) suffix, c)

/-! ## Directives -/

/-- A number of at most nine digits. -/
def directiveNumber? (c : Cursor) : Option (Nat × Cursor) :=
  let (digits, c) := c.takeWhile fun b => '0' ≤ b && b ≤ '9'
  if digits.isEmpty || 9 < digits.length then none
  else some (digits.foldl (fun n d => n * 10 + (d.toNat - 48)) 0, c)

def versionDirective? (c : Cursor) : Option (TokenKind × Cursor) := do
  let (major, c) ← (c.skipWhile isBlank).directiveNumber?
  if c.at? (· = '.') then
    let (minor, c) ← (c.skip 1).directiveNumber?
    pure (.version major minor, c)
  else none

def tagDirective? (c : Cursor) : Option (TokenKind × Cursor) := do
  let (handle, c) ← (c.skipWhile isBlank).tagHandle?
  if 1 < handle.length && handle.getLast? ≠ some '!' then none
  else if !c.at? isBlank then none
  else
    let (lead, c) ← (c.skipWhile isBlank).tagSuffix? true [] false
    if c.atWordEnd then pure (.tagHandle (asciiBytes handle) lead, c) else none

/-- A directive and the place behind its line. -/
def directive? (c : Cursor) : Option (TokenKind × Cursor × Cursor) := do
  let (name, c) := (c.skip 1).takeWhile isNameChar
  if name.isEmpty || !c.atWordEnd then none
  else
    let (kind, c) ←
      if name = "YAML".toList then c.versionDirective?
      else if name = "TAG".toList then c.tagDirective?
      else none
    let next ← c.skipLineEnd?
    pure (kind, c, next)

end Cursor

end TypeDeps.Yaml

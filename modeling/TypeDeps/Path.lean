import TypeDeps.Text.Utf8

/-!
# Paths

A path is a byte string. Two spellings name the same file when their components agree:
repeated and trailing slashes and every `.` but a leading one say nothing, while `..` stays
and absolute and relative paths differ. Each path keeps the spelling it came with.
-/
namespace TypeDeps

structure Path where
  bytes : List UInt8
  deriving DecidableEq, Repr

namespace Path

/-- The byte `/`. -/
def slash : UInt8 := 0x2F

/-- The byte `.`. -/
def dot : UInt8 := 0x2E

inductive Component where
  | root
  | here
  | up
  | name (n : List UInt8)
  deriving DecidableEq, Repr

def ofString (s : String) : Path := ⟨bytesOf s⟩

/-- The path as text, if it is UTF-8. -/
def text? (p : Path) : Option String := stringOf? p.bytes

/-- The path as it is shown to people. -/
def display (p : Path) : String := String.ofList (Utf8.lossy p.bytes)

def isAbsolute (p : Path) : Bool := p.bytes.head? = some slash

/-- The pieces between slashes, empty ones included. -/
def segments (p : Path) : List (List UInt8) := p.bytes.splitOn slash

/-- A segment below the first one. Empty segments and `.` are no components. -/
def Component.ofSegment? (s : List UInt8) : Option Component :=
  if s = [] ∨ s = [dot] then none
  else if s = [dot, dot] then some .up
  else some (.name s)

def components (p : Path) : List Component :=
  let lead :=
    if p.isAbsolute then [Component.root]
    else if p.segments.head? = some [dot] then [Component.here]
    else []
  lead ++ p.segments.filterMap Component.ofSegment?

/-- Both spellings have the same components. -/
def Same (p q : Path) : Prop := p.components = q.components

instance (p q : Path) : Decidable (Same p q) := inferInstanceAs (Decidable (_ = _))

/-- An absolute right side replaces the left one. Otherwise the right side follows a slash,
which is put in unless the left side is empty or ends in one. -/
def join (p q : Path) : Path :=
  if q.isAbsolute then q
  else if p.bytes = [] ∨ p.bytes.getLast? = some slash then ⟨p.bytes ++ q.bytes⟩
  else ⟨p.bytes ++ slash :: q.bytes⟩

def Component.bytes : Component → List UInt8
  | .root => []
  | .here => [dot]
  | .up => [dot, dot]
  | .name n => n

/-- The plainest spelling of a list of components. -/
def ofComponents : List Component → Path
  | [] => ⟨[]⟩
  | [.root] => ⟨[slash]⟩
  | cs => ⟨List.intercalate [slash] (cs.map Component.bytes)⟩

/-- The path without its last component. The root and the empty path have none. -/
def parent? (p : Path) : Option Path :=
  match p.components.getLast? with
  | none => none
  | some .root => none
  | some _ => some (ofComponents p.components.dropLast)

/-- The path with more bytes at its end. -/
def append (p : Path) (ending : String) : Path := ⟨p.bytes ++ bytesOf ending⟩

end Path

end TypeDeps

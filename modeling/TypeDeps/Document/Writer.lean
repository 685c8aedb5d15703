import TypeDeps.Error
import TypeDeps.Graph.Basic
import TypeDeps.Json.Quoted

/-!
# Writing documents

A graph has one canonical document: members in a fixed order, one item a line, two blanks for
each level, and a line end at the close. Only a path that is not UTF-8 keeps a graph from
having one.
-/
namespace TypeDeps.Document

/-- A line break and the blanks of a level. -/
def newline (level : Nat) : List Char := '\n' :: List.replicate (2 * level) ' '

/-- Items between brackets, each on a line of the next level. -/
def block (open_ close : Char) (level : Nat) (items : List (List Char)) : List Char :=
  if items.isEmpty then [open_, close]
  else
    open_ :: List.intercalate [','] (items.map (newline (level + 1) ++ ·)) ++ newline level ++
      [close]

def member (name : String) (value : List Char) : List Char :=
  Json.quote name ++ ": ".toList ++ value

def names (level : Nat) (ns : List String) : List Char := block '[' ']' level (ns.map Json.quote)

/-- The entry of a file whose path has a text form. -/
def entry (path : String) (f : SourceFile) : List Char :=
  block '\x7b' '\x7d' 2
    [member "path" (Json.quote path), member "classes" (names 3 f.declares),
      member "imports" (names 3 f.references)]

def entryOf? (f : SourceFile) : Option (List Char) := f.path.text?.map (entry · f)

def document (entries : List (List Char)) : List Char :=
  block '\x7b' '\x7d' 0 [member "files" (block '[' ']' 1 entries)] ++ ['\n']

end TypeDeps.Document

namespace TypeDeps.Graph

/-- The canonical document. -/
def write (g : Graph) : Except Error String :=
  match g.files.mapM Document.entryOf? with
  | some entries => .ok (String.ofList (Document.document entries))
  | none => .error (.unwritable pathNotText)

/-- Write the document to a place that takes only so many bytes and then fails. The first
part of the answer is what has been taken. A graph without document leaves nothing behind. -/
def writeTo (g : Graph) (room : Option Nat) (failure : StorageFailure) :
    List UInt8 × Except Error Unit :=
  match g.write with
  | .error e => ([], .error e)
  | .ok text =>
    let bytes := bytesOf text
    match room with
    | none => (bytes, .ok ())
    | some n =>
      (bytes.take n, if bytes.length ≤ n then .ok () else .error (.storage failure))

end TypeDeps.Graph

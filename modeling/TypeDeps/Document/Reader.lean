import TypeDeps.Error
import TypeDeps.Graph.Basic
import TypeDeps.Json.Skipper

/-!
# Reading documents

A document holds one object with the member `files`, a list of entries with the members
`path`, `classes` and `imports`. Members come in any order, unknown ones are skipped, and each
object may be replaced by an array of its members' values. The reader is a machine that takes
one byte at a time. Its state says what is open, what has been read of it and what may come
next, so reading is a fold over the bytes and every fault is tied to one byte.
-/
namespace TypeDeps.Document

open Json

/-- How an object is written: with names, or as an array of values in a fixed order. -/
inductive Form where
  | named
  | positional
  deriving DecidableEq, Repr

/-- The members of an entry that hold lists of names. -/
inductive NameList where
  | classes
  | imports
  deriving DecidableEq, Repr

inductive Member where
  | path
  | names (l : NameList)
  deriving DecidableEq, Repr

namespace Member

def key : Member → String
  | path => "path"
  | names .classes => "classes"
  | names .imports => "imports"

/-- The members of an entry in their fixed order. -/
def all : List Member := [path, names .classes, names .imports]

def ofKey? (k : String) : Option Member := all.find? (·.key = k)

end Member

/-- What has been read of an entry. -/
structure Draft where
  path : Option String
  classes : Option (List String)
  imports : Option (List String)
  deriving DecidableEq, Repr

namespace Draft

def empty : Draft := ⟨none, none, none⟩

def has (d : Draft) : Member → Bool
  | .path => d.path.isSome
  | .names .classes => d.classes.isSome
  | .names .imports => d.imports.isSome

/-- The first member that is still missing. -/
def missing? (d : Draft) : Option Member := Member.all.find? (fun m => !d.has m)

def setNames (d : Draft) (l : NameList) (ns : List String) : Draft :=
  match l with
  | .classes => { d with classes := some ns }
  | .imports => { d with imports := some ns }

/-- The file of a complete draft. -/
def file? (d : Draft) : Option SourceFile := do
  let path ← d.path
  let classes ← d.classes
  let imports ← d.imports
  pure ⟨Path.ofString path, classes, imports⟩

end Draft

/-- An open entry: the form of the document around it, the files before it (the last one
first), its own form, and what has been read of it. -/
structure OpenEntry where
  outer : Form
  before : List SourceFile
  form : Form
  draft : Draft
  deriving DecidableEq, Repr

/-- An open object, or the array that replaces it. -/
inductive OpenObject where
  | document (form : Form) (files : Option (List SourceFile))
  | entry (e : OpenEntry)
  deriving DecidableEq, Repr

namespace OpenObject

def form : OpenObject → Form
  | document f _ => f
  | entry e => e.form

def expected : OpenObject → Expected
  | document _ _ => .document
  | entry _ => .entry

end OpenObject

/-- An open list. Items come in with the last one first. -/
inductive OpenList where
  | files (form : Form) (items : List SourceFile)
  | names (e : OpenEntry) (l : NameList) (items : List String)
  deriving DecidableEq, Repr

/-- A place that a value is read for. -/
inductive Place where
  | document
  | files (form : Form)
  | entry (form : Form) (before : List SourceFile)
  | path (e : OpenEntry)
  | names (e : OpenEntry) (l : NameList)
  | name (e : OpenEntry) (l : NameList) (before : List String)
  deriving DecidableEq, Repr

namespace Place

def expected : Place → Expected
  | document => .document
  | files _ => .list
  | entry _ _ => .entry
  | path _ => .path
  | names _ _ => .list
  | name _ _ _ => .name

def ofMember (e : OpenEntry) : Member → Place
  | .path => path e
  | .names l => names e l

/-- The place of the next item of a list. -/
def ofList : OpenList → Place
  | .files form items => entry form items
  | .names e l items => name e l items

/-- The place of the next value in an array that replaces an object, until all are there. -/
def ofObject? : OpenObject → Option Place
  | .document form none => some (files form)
  | .document _ (some _) => none
  | .entry e => e.draft.missing?.map (ofMember e)

end Place

inductive State where
  /-- A value must come. -/
  | value (p : Place)
  /-- Behind an opening bracket, a comma or an item of a list. -/
  | listOpened (l : OpenList)
  | listComma (l : OpenList)
  | listItem (l : OpenList)
  /-- Behind an opening brace, a comma, a key or a value of an object. -/
  | objectOpened (o : OpenObject)
  | objectComma (o : OpenObject)
  | key (o : OpenObject) (r : StringReader)
  | colon (o : OpenObject) (p : Option Place)
  | objectValue (o : OpenObject)
  /-- The same for an array that replaces an object. -/
  | arrayOpened (o : OpenObject)
  | arrayComma (o : OpenObject)
  | arrayValue (o : OpenObject)
  /-- Inside the string that a place calls for. -/
  | pathString (e : OpenEntry) (r : StringReader)
  | nameString (e : OpenEntry) (l : NameList) (before : List String) (r : StringReader)
  | skipping (o : OpenObject) (s : Skipper)
  /-- Inside a value of the wrong kind, which is read to its end. -/
  | wrongString (x : Expected) (r : StringReader)
  | wrongNumber (x : Expected) (r : NumberReader)
  | wrongLiteral (x : Expected) (found : Found) (ls : Letters)
  /-- Behind a key that has been there before. Only the position of the fault is open. -/
  | repeatedKey (name : String)
  /-- Behind a comma in an array that has all its values. -/
  | surplusComma
  /-- Behind the document. -/
  | finished (files : List SourceFile)
  deriving DecidableEq, Repr

namespace State

def start : State := value .document

/-- The state behind a value of an object. -/
def behindValue (o : OpenObject) : State :=
  match o.form with
  | .named => objectValue o
  | .positional => arrayValue o

/-- The list has been closed. -/
def ofList : OpenList → State
  | .files form items => behindValue (.document form (some items.reverse))
  | .names e l items =>
    behindValue (.entry { e with draft := e.draft.setNames l items.reverse })

def ofPath (e : OpenEntry) (path : String) : State :=
  behindValue (.entry { e with draft := { e.draft with path := some path } })

/-- The object has been closed. -/
def ofObject : OpenObject → Except Fault State
  | .document _ (some files) => .ok (finished files)
  | .document _ none => .error (.taken (.missingMember "files"))
  | .entry e =>
    match e.draft.file? with
    | some f => .ok (listItem (.files e.outer (f :: e.before)))
    | none =>
      .error (.taken (.missingMember ((e.draft.missing?.map Member.key).getD "")))

/-- The values that an array for an object has given so far. -/
def arrayLength : OpenObject → Nat
  | .document _ none => 0
  | .document _ (some _) => 1
  | .entry e => (Member.all.takeWhile e.draft.has).length

/-- A value of a kind that the place does not call for. Brackets are only looked at, anything
else is read to its end first. -/
def wrongValue (x : Expected) (b : UInt8) : Except Fault State :=
  if b = 0x22 then .ok (wrongString x .start)
  else if b = 0x5B then .error (.unmoved (.wrongType .sequence x))
  else if b = 0x7B then .error (.unmoved (.wrongType .map x))
  else if b = 0x6E then .ok (wrongLiteral x .null nullLetters)
  else if b = 0x74 then .ok (wrongLiteral x (.boolean true) trueLetters)
  else if b = 0x66 then .ok (wrongLiteral x (.boolean false) falseLetters)
  else if b = 0x2D then .ok (wrongNumber x .negative_)
  else if isDigit b then .ok (wrongNumber x (.digit (digitValue b)))
  else .error (.ahead .noValue)

/-- A bracket that opens an object or the array that replaces it. -/
def openObject (b : UInt8) (o : Form → OpenObject) : Option State :=
  if b = 0x7B then some (objectOpened (o .named))
  else if b = 0x5B then some (arrayOpened (o .positional))
  else none

def opened? (p : Place) (b : UInt8) : Option State :=
  match p with
  | .document => openObject b fun form => .document form none
  | .entry outer before => openObject b fun form => .entry ⟨outer, before, form, .empty⟩
  | .files form => if b = 0x5B then some (listOpened (.files form [])) else none
  | .names e l => if b = 0x5B then some (listOpened (.names e l [])) else none
  | .path e => if b = 0x22 then some (pathString e .start) else none
  | .name e l before => if b = 0x22 then some (nameString e l before .start) else none

def startValue (p : Place) (b : UInt8) : Except Fault State :=
  match opened? p b with
  | some s => .ok s
  | none => wrongValue p.expected b

/-- The state behind a key. -/
def ofKey : OpenObject → String → State
  | .document form files, k =>
    if k = "files" then
      if files.isSome then repeatedKey k else colon (.document form files) (some (.files form))
    else colon (.document form files) none
  | .entry e, k =>
    match Member.ofKey? k with
    | some m => if e.draft.has m then repeatedKey k else colon (.entry e) (some (.ofMember e m))
    | none => colon (.entry e) none

def stepObjectValue (o : OpenObject) (b : UInt8) : Except Fault State :=
  if b = 0x2C then .ok (objectComma o)
  else if b = 0x7D then ofObject o
  else .error (.ahead .noObjectEnd)

/-- Behind a value of an array for an object. Once all values are there, only the closing
bracket is in place. -/
def stepArrayValue (o : OpenObject) (b : UInt8) : Except Fault State :=
  match Place.ofObject? o with
  | some _ =>
    if b = 0x2C then .ok (arrayComma o)
    else if b = 0x5D then .error (.taken (.tooShort (arrayLength o) o.expected))
    else .error (.ahead .noListEnd)
  | none =>
    if b = 0x5D then ofObject o
    else if b = 0x2C then .ok surplusComma
    else .error (.ahead .trailingCharacters)

/-- The next value of an array for an object. -/
def startArrayValue (o : OpenObject) (b : UInt8) : Except Fault State :=
  match Place.ofObject? o with
  | some p => startValue p b
  | none => .error (.ahead .trailingCharacters)

/-- A step on a byte that is no blank between tokens. -/
def stepToken (s : State) (b : UInt8) : Except Fault State :=
  match s with
  | value p => startValue p b
  | listOpened l => if b = 0x5D then .ok (ofList l) else startValue (.ofList l) b
  | listComma l => if b = 0x5D then .error (.ahead .trailingComma) else startValue (.ofList l) b
  | listItem l =>
    if b = 0x2C then .ok (listComma l)
    else if b = 0x5D then .ok (ofList l)
    else .error (.ahead .noListEnd)
  | objectOpened o =>
    if b = 0x22 then .ok (key o .start)
    else if b = 0x7D then ofObject o
    else .error (.ahead .keyNotString)
  | objectComma o =>
    if b = 0x22 then .ok (key o .start)
    else if b = 0x7D then .error (.ahead .trailingComma)
    else .error (.ahead .keyNotString)
  | colon o p =>
    if b = 0x3A then
      match p with
      | some p => .ok (value p)
      | none => .ok (skipping o .start)
    else .error (.ahead .noColon)
  | objectValue o => stepObjectValue o b
  | arrayOpened o =>
    if b = 0x5D then .error (.taken (.tooShort 0 o.expected)) else startArrayValue o b
  | arrayComma o => if b = 0x5D then .error (.ahead .trailingComma) else startArrayValue o b
  | arrayValue o => stepArrayValue o b
  | repeatedKey name =>
    if b = 0x7D then .error (.taken (.repeatedMember name))
    else .error (.unmoved (.repeatedMember name))
  | surplusComma =>
    if b = 0x5D then .error (.ahead .trailingComma) else .error (.ahead .trailingCharacters)
  | finished _ => .error (.ahead .trailingCharacters)
  | key .. | pathString .. | nameString .. | skipping .. | wrongString .. | wrongNumber ..
  | wrongLiteral .. => .ok s

/-- A step inside a string, which goes on as `more` says and ends as `done` says. -/
def stepString (r : StringReader) (b : UInt8) (more : StringReader → State)
    (done : String → Except Fault State) : Except Fault State :=
  match r.step b with
  | .more r => .ok (more r)
  | .done s | .passed s => done s
  | .fault f => .error f

def step (s : State) (b : UInt8) : Except Fault State :=
  match s with
  | key o r => stepString r b (key o) fun k => .ok (ofKey o k)
  | pathString e r => stepString r b (pathString e) fun p => .ok (ofPath e p)
  | nameString e l before r =>
    stepString r b (nameString e l before) fun n => .ok (listItem (.names e l (n :: before)))
  | wrongString x r =>
    stepString r b (wrongString x) fun s => .error (.taken (.wrongType (.string s) x))
  | wrongNumber x r =>
    match r.step b with
    | .more r => .ok (wrongNumber x r)
    | .done v => .error (.taken (.wrongType v x))
    | .passed v => .error (.unmoved (.wrongType v x))
    | .fault f => .error f
  | wrongLiteral x found ls =>
    match ls.step b with
    | .more ls => .ok (wrongLiteral x found ls)
    | .done _ => .error (.taken (.wrongType found x))
    | .passed _ => .error (.unmoved (.wrongType found x))
    | .fault f => .error f
  | skipping o k =>
    match k.step b with
    | .more k => .ok (skipping o k)
    | .done _ => .ok (objectValue o)
    | .passed _ => if isBlank b then .ok (objectValue o) else stepObjectValue o b
    | .fault f => .error f
  | s => if isBlank b then .ok s else stepToken s b

/-- What is wrong when the document ends here, if anything is. -/
def atEnd : State → Except Cause (List SourceFile)
  | value _ | listComma _ | objectComma _ | arrayComma _ => .error .endOfValue
  | listOpened _ | listItem _ | arrayOpened _ | arrayValue _ => .error .endOfList
  | objectOpened _ | objectValue _ | colon _ _ => .error .endOfObject
  | key _ _ | pathString _ _ | nameString _ _ _ _ | wrongString _ _ => .error .endOfString
  | wrongNumber x r =>
    match r.finish with
    | .ok v => .error (.wrongType v x)
    | .error c => .error c
  | wrongLiteral _ _ _ => .error .endOfValue
  | skipping _ k => .error (k.atEnd.getD .endOfObject)
  | repeatedKey name => .error (.repeatedMember name)
  | surplusComma => .error .trailingCharacters
  | finished files => .ok files

/-- The fault is certain already and no further byte can change it. -/
def isDecided : State → Bool
  | repeatedKey _ | surplusComma => true
  | _ => false

end State

/-- Where a run has come to a fault, and how many bytes lie before the byte at which it arises. -/
structure Stop where
  fault : Fault
  before : Nat
  deriving DecidableEq, Repr

/-- A refused document: why, and how many of its bytes lie before the place that is reported. -/
structure Refusal where
  cause : Cause
  place : Nat
  deriving DecidableEq, Repr

def Stop.refusal (src : Source) (x : Stop) : Refusal :=
  ⟨x.fault.cause, src.place x.fault x.before⟩

/-- The state after some bytes that stand behind `taken` others. -/
def run (s : State) (taken : Nat) : List UInt8 → Except Stop State
  | [] => .ok s
  | b :: bs =>
    match s.step b with
    | .ok s => run s (taken + 1) bs
    | .error f => .error ⟨f, taken⟩

/-- What the bytes of a document say. At their end there is none to look at, and every source
stands at the same place. -/
def read (src : Source) (bs : List UInt8) : Except Refusal (List SourceFile) :=
  match run .start 0 bs with
  | .error x => .error (x.refusal src)
  | .ok s =>
    match s.atEnd with
    | .ok files => .ok files
    | .error c => .error ⟨c, bs.length⟩

/-- Line, counted from one, and column of the place behind these bytes. -/
def position (bs : List UInt8) : Nat × Nat :=
  (1 + bs.count 0x0A, (bs.reverse.takeWhile (· ≠ 0x0A)).length)

/-- What is reported of a refused document with these bytes. -/
def Refusal.text (r : Refusal) (bs : List UInt8) : String :=
  let (line, column) := position (bs.take r.place)
  r.cause.message ++ " at line " ++ toString line ++ " column " ++ toString column

end TypeDeps.Document

namespace TypeDeps.Graph

open Json Document

/-- The graph that comes from a source with these bytes. -/
def readFrom (src : Source) (bs : List UInt8) : Except Error Graph :=
  match Document.read src bs with
  | .ok files => .ok ⟨files⟩
  | .error r => .error (.malformed (r.text bs))

/-- The graph of a text. -/
def read (text : String) : Except Error Graph := readFrom .text (bytesOf text)

/-- The graph of a stream that ends properly. -/
def readStream (bs : List UInt8) : Except Error Graph := readFrom .stream bs

/-- The graph of a stream that gives these bytes and then fails. The failure is reported
unless the document has been refused before. -/
def readBroken (bs : List UInt8) (failure : StorageFailure) : Except Error Graph :=
  match run .start 0 bs with
  | .error x => .error (.malformed ((x.refusal .stream).text bs))
  | .ok s =>
    match s.isDecided, s.atEnd with
    | true, .error c => .error (.malformed (Refusal.text ⟨c, bs.length⟩ bs))
    | _, _ => .error (.storage failure)

end TypeDeps.Graph

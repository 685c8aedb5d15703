import TypeDeps.Error
import TypeDeps.Settings.Basic
import TypeDeps.Settings.Fault

/-!
# Reading settings

A settings file is a mapping. Every setting may be missing and unknown ones are passed over.
Any scalar counts as text, just as it is written. An empty file, an empty value and an empty
list of prefixes are one thing.
-/
namespace TypeDeps.Settings

open Yaml

/-- The settings read so far. -/
structure Given where
  outputDir? : Option Path
  moduleKey? : Option String
  cacheMode? : Option CacheMode
  excludedPrefixes? : Option (List String)
  deriving DecidableEq, Repr

namespace Given

def empty : Given := ⟨none, none, none, none⟩

def has (g : Given) : Field → Bool
  | .outputDir => g.outputDir?.isSome
  | .moduleKey => g.moduleKey?.isSome
  | .cacheMode => g.cacheMode?.isSome
  | .excludedPrefixes => g.excludedPrefixes?.isSome

def complete (g : Given) : Settings :=
  ⟨g.outputDir?.getD standard.outputDir, g.moduleKey?.getD standard.moduleKey,
    g.cacheMode?.getD standard.cacheMode, g.excludedPrefixes?.getD standard.excludedPrefixes⟩

end Given

/-! ## What is found -/

def coreTag (name : String) : TagName := bytesOf ("tag:yaml.org,2002:" ++ name)

/-- A tag that starts with an exclamation mark is no one else's. -/
def isLocal (t : TagName) : Bool := t.head? = some 0x21

def plainFound (cs : List Char) : Found :=
  match meaning cs with
  | .text => .string (String.ofList cs)
  | m => .value m

/-- A scalar in a place for something else. -/
def scalarFound (tag? : Option TagName) (cs : List Char) (plain : Bool) (place : Place) :
    Except Fault Found :=
  let text := String.ofList cs
  let tagged (m? : Option Meaning) (expected : Expected) : Except Fault Found :=
    match m? with
    | some m => .ok (.value m)
    | none => .error (.wrongValue text expected place)
  let untagged : Found := if plain then plainFound cs else .string text
  match tag? with
  | none => .ok untagged
  | some t =>
    if t = coreTag "bool" then tagged ((Plain.boolean? cs).map .boolean) .boolean
    else if t = coreTag "int" then tagged ((Plain.integer? cs).map .integer) .integer
    else if t = coreTag "float" then tagged (Plain.float? cs) .float
    else if t = coreTag "null" then tagged (if Plain.isNull cs then some .null else none) .null
    else if isLocal t then .ok untagged
    else .ok (.string text)

/-- The fault of an item that is none of the expected kind. -/
def wrongItem (i : Item) (expected : Expected) (label : String) : Fault :=
  let place : Place := ⟨label, i.mark⟩
  match i.kind with
  | .scalar tag? cs plain =>
    match scalarFound tag? cs plain place with
    | .ok found => .wrongType found expected place
    | .error f => f
  | .sequence _ => .wrongType .sequence expected place
  | .mapping _ => .wrongType .map expected place
  | _ => .unfinished

/-- Nothing is written here. -/
def isBare : ItemKind → Bool
  | .void => true
  | .scalar _ cs plain => cs.isEmpty && plain
  | _ => false

/-! ## Values -/

/-- The fault of a place behind the last item. -/
def missing (s : Stream) : Fault := (s.defect?.map Fault.defect).getD .unfinished

/-- The items of a value, from the node that an alias stands for. -/
def resolve (s : Stream) (items : List Item) : List Item :=
  match items with
  | ⟨.alias number, _⟩ :: _ => s.target number
  | items => items

def text (s : Stream) (expected : Expected) (label : String) (items : List Item) :
    Except Fault String :=
  match resolve s items with
  | [] => .error (missing s)
  | i :: _ =>
    match i.kind with
    | .scalar _ cs _ => .ok (String.ofList cs)
    | _ => .error (wrongItem i expected label)

/-- The texts up to the end of a sequence. `acc` holds those read so far, the last one
first. -/
def texts (s : Stream) (label : String) (acc : List String) : List Item → Except Fault (List String)
  | [] => .error (missing s)
  | i :: rest =>
    if i.kind = .close then .ok acc.reverse
    else
      match text s .string (label ++ "[" ++ toString acc.length ++ "]") (i :: rest) with
      | .ok t => texts s label (t :: acc) rest
      | .error f => .error f

def list (s : Stream) (label : String) (items : List Item) : Except Fault (List String) :=
  match resolve s items with
  | [] => .error (missing s)
  | i :: rest =>
    match i.kind with
    | .sequence _ => texts s label [] rest
    | k => if isBare k then .ok [] else .error (wrongItem i .list label)

def modeNamed (name : String) (place : Place) : Except Fault CacheMode :=
  match CacheMode.ofName? name with
  | some m => .ok m
  | none => .error (.unknownMode name place)

/-- The name in a tag of one's own. -/
def localName? (tag? : Option TagName) : Option String :=
  match tag? with
  | some (b :: rest) =>
    if b = 0x21 then stringOf? (if rest.isEmpty then [b] else rest) else none
  | _ => none

/-- Behind the tag that names a mode there must be nothing or null. -/
def nothing (i : Item) (label : String) : Except Fault Unit :=
  match i.kind with
  | .scalar _ cs plain =>
    if plain && (cs.isEmpty || Plain.isNull cs) then .ok ()
    else .error (.wrongValue (String.ofList cs) .null ⟨label, i.mark⟩)
  | _ => .error (wrongItem i .nothing label)

/-- A mode is named by a scalar or by a tag. A wrong name in a tag is reported for the file. -/
def mode (s : Stream) (label : String) (file : Place) (items : List Item) :
    Except Fault CacheMode :=
  match resolve s items with
  | [] => .error (missing s)
  | i :: _ =>
    let tagged (name : String) : Except Fault CacheMode := do
      let m ← modeNamed name file
      nothing i label
      pure m
    match i.kind with
    | .scalar tag? cs _ =>
      match localName? tag? with
      | some name => tagged name
      | none => modeNamed (String.ofList cs) ⟨label, i.mark⟩
    | .sequence tag? | .mapping tag? =>
      match localName? tag? with
      | some name => tagged name
      | none => .error (wrongItem i .mode label)
    | _ => .error (missing s)

/-! ## Members -/

/-- A key and the label of its value. Behind an alias the label is unknown. -/
def memberKey (s : Stream) (i : Item) : Except Fault (String × String) := do
  let key ← text s .setting "" [i]
  match i.kind with
  | .alias _ => pure (key, "?")
  | _ => pure (key, key)

/-- Take the value of a setting from the items behind its key. -/
def Given.read (s : Stream) (file : Place) (g : Given) (field : Field) (label : String)
    (items : List Item) : Except Fault Given :=
  if g.has field then .error (.repeated field.name file)
  else
    match field with
    | .outputDir => do
      let t ← text s .path label items
      pure { g with outputDir? := some (.ofString t) }
    | .moduleKey => do
      let t ← text s .string label items
      pure { g with moduleKey? := some t }
    | .cacheMode => do
      let m ← mode s label file items
      pure { g with cacheMode? := some m }
    | .excludedPrefixes => do
      let ts ← list s label items
      pure { g with excludedPrefixes? := some ts }

def members (s : Stream) (file : Place) (g : Given) (items : List Item) : Except Fault Given :=
  match items with
  | [] => .error (missing s)
  | i :: rest =>
    if i.kind = .close then .ok g
    else do
      let (key, label) ← memberKey s i
      let g ←
        match Field.ofName? key with
        | some field => g.read s file field label rest
        | none => .ok g
      members s file g (Stream.afterNode 0 rest)
termination_by items.length
decreasing_by
  have := Stream.length_afterNode_le rest 0
  simp only [List.length_cons]
  omega

def ofStream (s : Stream) : Except Fault Settings := do
  let given ←
    match s.items with
    | [] => .error (missing s)
    | i :: rest =>
      match i.kind with
      | .mapping _ => members s ⟨"", i.mark⟩ .empty rest
      | k => if isBare k then .ok .empty else .error (wrongItem i .settings "")
  match s.defect? with
  | none => pure given.complete
  | some d => .error (.defect d)

/-- The settings of a file's text. -/
def read (text : String) : Except Error Settings :=
  (ofStream (Stream.read text.toList)).mapError fun f => .settings f.message

end TypeDeps.Settings

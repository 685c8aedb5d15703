import TypeDeps.Yaml.Token

/-!
# Events

The nodes of the first document of a stream in the order in which they start and end. A stack
of frames says what is expected; every token is put to the frame on top, which takes it,
reports a fault, or closes itself and leaves the token to the frame below. A token that comes
where a node may be left out stands behind an empty scalar.
-/
namespace TypeDeps.Yaml

structure Properties where
  anchor? : Option (List Char)
  tag? : Option TagName
  deriving DecidableEq, Repr

def Properties.none : Properties := ⟨.none, .none⟩

inductive EventKind where
  | alias (name : List Char)
  | scalar (properties : Properties) (text : List Char) (plain : Bool)
  | sequenceStart (properties : Properties)
  | sequenceEnd
  | mappingStart (properties : Properties)
  | mappingEnd
  deriving DecidableEq, Repr

structure Event where
  kind : EventKind
  mark : Mark
  deriving DecidableEq, Repr

/-- The node of a place that has been left empty. -/
def Event.empty (m : Mark) : Event := ⟨.scalar .none [] true, m⟩

/-- Where a node stands: in a block collection or between brackets. A sequence may stand as
deep as the mapping around it. -/
structure Position where
  block : Bool
  indentless : Bool
  deriving DecidableEq, Repr

def Position.inBlock : Position := ⟨true, false⟩

def Position.inBlockMapping : Position := ⟨true, true⟩

def Position.inFlow : Position := ⟨false, false⟩

/-- The places where a node may be left out. -/
inductive Slot where
  | document
  | blockItem
  | indentlessItem
  | blockMember
  | pairKey
  | pairValue
  | flowKey
  | flowValue
  deriving DecidableEq, Repr

namespace Slot

def position : Slot → Position
  | document | blockItem | indentlessItem => .inBlock
  | blockMember => .inBlockMapping
  | _ => .inFlow

/-- The node is left out if this token comes. -/
def isLeftOut : Slot → TokenKind → Bool
  | document, k =>
    match k with
    | .version _ _ | .tagHandle _ _ | .documentStart | .documentEnd | .streamEnd => true
    | _ => false
  | blockItem, k => k = .blockEntry || k = .blockEnd
  | indentlessItem, k => k = .blockEntry || k = .key || k = .value || k = .blockEnd
  | blockMember, k => k = .key || k = .value || k = .blockEnd
  | pairKey, k => k = .value || k = .flowEntry || k = .flowSequenceEnd
  | pairValue, k => k = .flowEntry || k = .flowSequenceEnd
  | flowKey, k => k = .value || k = .flowEntry || k = .flowMappingEnd
  | flowValue, k => k = .flowEntry || k = .flowMappingEnd

end Slot

inductive Frame where
  /-- A node may come. An empty one stands at the mark, or else at the token behind it. -/
  | slot (slot : Slot) (mark? : Option Mark)
  /-- The properties of a node have been read, the first of them at the mark. -/
  | node (position : Position) (anchor? : Option (List Char)) (tag? : Option (TagName × TagName))
    (mark : Mark)
  | blockSequence
  | indentlessSequence
  | blockKey
  | blockValue
  /-- In a sequence in brackets, behind the bracket or a comma. -/
  | flowItem
  /-- In a sequence in brackets, behind an item. -/
  | flowItemEnd
  /-- A mapping of one member inside a sequence, behind its key. -/
  | pairValue
  | pairEnd
  | flowKey
  | flowValue
  /-- Behind a member that had no question mark and no colon. -/
  | flowEmptyValue
  | flowMemberEnd
  deriving DecidableEq, Repr

/-- What a token leaves behind: frames, the end of the document in front of the token, or a
fault. -/
inductive Sequel where
  | frames (fs : List Frame)
  | passed
  | fault
  deriving DecidableEq, Repr

/-- What a token leads to. -/
structure Outcome where
  events : List Event
  sequel : Sequel
  deriving DecidableEq, Repr

namespace Outcome

def fault : Outcome := ⟨[], .fault⟩

def passed : Outcome := ⟨[], .passed⟩

def go (frames : List Frame) : Outcome := ⟨[], .frames frames⟩

def emit (e : Event) (o : Outcome) : Outcome := ⟨e :: o.events, o.sequel⟩

end Outcome

/-- What tag handles stand for. -/
abbrev Handles := List (TagName × TagName)

namespace Handles

/-- Two handles always stand for something, and may be declared to stand for something else. -/
def standard : Handles :=
  [(bytesOf "!", bytesOf "!"), (bytesOf "!!", bytesOf "tag:yaml.org,2002:")]

def resolve? (hs : Handles) : Option (TagName × TagName) → Option (Option TagName)
  | none => some none
  | some (handle, suffix) =>
    if handle.isEmpty then some (some suffix)
    else (hs.find? (·.1 = handle)).map fun h => some (h.2 ++ suffix)

end Handles

namespace Frame

/-- The mark on a scalar that it is no plain one in spite of its look, which says nothing
about scalars otherwise. -/
def scalarProperties (p : Properties) : Properties :=
  if p.tag? = some (bytesOf "!") then { p with tag? := none } else p

/-- The content of a node. Nothing is answered if the token starts none. -/
def content? (position : Position) (p : Properties) (mark : Mark) (t : Token)
    (below : List Frame) : Option Outcome :=
  match t.kind with
  | .blockEntry =>
    if position.indentless then
      some ((Outcome.go (.slot .indentlessItem (some t.after) :: .indentlessSequence :: below)).emit
        ⟨.sequenceStart p, mark⟩)
    else none
  | .scalar text plain =>
    some ((Outcome.go below).emit ⟨.scalar (scalarProperties p) text plain, mark⟩)
  | .flowSequenceStart =>
    some ((Outcome.go (.flowItem :: below)).emit ⟨.sequenceStart p, mark⟩)
  | .flowMappingStart =>
    some ((Outcome.go (.flowKey :: below)).emit ⟨.mappingStart p, mark⟩)
  | .blockSequenceStart =>
    if position.block then
      some ((Outcome.go (.blockSequence :: below)).emit ⟨.sequenceStart p, mark⟩)
    else none
  | .blockMappingStart =>
    if position.block then
      some ((Outcome.go (.blockKey :: below)).emit ⟨.mappingStart p, mark⟩)
    else none
  | _ => none

/-- The first token of a node. -/
def startNode (position : Position) (t : Token) (below : List Frame) : Outcome :=
  match t.kind with
  | .alias name => (Outcome.go below).emit ⟨.alias name, t.start⟩
  | .anchor name => .go (.node position (some name) none t.start :: below)
  | .tag handle suffix => .go (.node position none (some (handle, suffix)) t.start :: below)
  | _ => (content? position .none t.start t below).getD .fault

def onBlockSequence (t : Token) (below : List Frame) : Outcome :=
  match t.kind with
  | .blockEntry => .go (.slot .blockItem (some t.after) :: .blockSequence :: below)
  | .blockEnd => (Outcome.go below).emit ⟨.sequenceEnd, t.start⟩
  | _ => .fault

def onBlockKey (t : Token) (below : List Frame) : Outcome :=
  match t.kind with
  | .key => .go (.slot .blockMember (some t.after) :: .blockValue :: below)
  | .blockEnd => (Outcome.go below).emit ⟨.mappingEnd, t.start⟩
  | _ => .fault

def onBlockValue (t : Token) (below : List Frame) : Outcome :=
  match t.kind with
  | .value => .go (.slot .blockMember (some t.after) :: .blockKey :: below)
  | _ => (onBlockKey t below).emit (.empty t.start)

def onFlowItem (t : Token) (below : List Frame) : Outcome :=
  match t.kind with
  | .flowSequenceEnd => (Outcome.go below).emit ⟨.sequenceEnd, t.start⟩
  | .key =>
    (Outcome.go (.slot .pairKey none :: .pairValue :: .flowItemEnd :: below)).emit
      ⟨.mappingStart .none, t.start⟩
  | _ => startNode .inFlow t (.flowItemEnd :: below)

def onFlowItemEnd (t : Token) (below : List Frame) : Outcome :=
  match t.kind with
  | .flowSequenceEnd => (Outcome.go below).emit ⟨.sequenceEnd, t.start⟩
  | .flowEntry => .go (.flowItem :: below)
  | _ => .fault

def onFlowKey (t : Token) (below : List Frame) : Outcome :=
  match t.kind with
  | .flowMappingEnd => (Outcome.go below).emit ⟨.mappingEnd, t.start⟩
  | .key => .go (.slot .flowKey none :: .flowValue :: below)
  | _ => startNode .inFlow t (.flowEmptyValue :: below)

def onFlowMemberEnd (t : Token) (below : List Frame) : Outcome :=
  match t.kind with
  | .flowMappingEnd => (Outcome.go below).emit ⟨.mappingEnd, t.start⟩
  | .flowEntry => .go (.flowKey :: below)
  | _ => .fault

def onFlowValue (t : Token) (below : List Frame) : Outcome :=
  match t.kind with
  | .value => .go (.slot .flowValue none :: .flowMemberEnd :: below)
  | _ => (onFlowMemberEnd t below).emit (.empty t.start)

/-- The node behind properties: another property, the content, or nothing at all. `skip` is
what the token leads to in the last case. -/
def onNode (hs : Handles) (position : Position) (anchor? : Option (List Char))
    (tag? : Option (TagName × TagName)) (mark : Mark) (t : Token) (below : List Frame)
    (skip : Outcome) : Outcome :=
  match t.kind, anchor?, tag? with
  | .anchor name, none, _ => .go (.node position (some name) tag? mark :: below)
  | .tag handle suffix, _, none =>
    .go (.node position anchor? (some (handle, suffix)) mark :: below)
  | _, _, _ =>
    match hs.resolve? tag? with
    | none => .fault
    | some resolved =>
      let p : Properties := ⟨anchor?, resolved⟩
      (content? position p mark t below).getD (skip.emit ⟨.scalar p [] true, mark⟩)

/-- Put a token to the frames. Without frames the document has ended. The key of a mapping of one
member that is left out takes the token behind it along. -/
def feed (hs : Handles) (t : Token) : List Frame → Outcome
  | [] => .passed
  | .slot s mark? :: below =>
    if s = .pairKey ∧ s.isLeftOut t.kind then (Outcome.go below).emit (.empty t.after)
    else if s.isLeftOut t.kind then (feed hs t below).emit (.empty (mark?.getD t.start))
    else startNode s.position t below
  | .node position anchor? tag? mark :: below =>
    onNode hs position anchor? tag? mark t below (feed hs t below)
  | .blockSequence :: below => onBlockSequence t below
  | .indentlessSequence :: below =>
    match t.kind with
    | .blockEntry => .go (.slot .indentlessItem (some t.after) :: .indentlessSequence :: below)
    | _ => (feed hs t below).emit ⟨.sequenceEnd, t.start⟩
  | .blockKey :: below => onBlockKey t below
  | .blockValue :: below => onBlockValue t below
  | .flowItem :: below => onFlowItem t below
  | .flowItemEnd :: below => onFlowItemEnd t below
  | .pairValue :: below =>
    match t.kind with
    | .value => .go (.slot .pairValue none :: .pairEnd :: below)
    | _ => ((feed hs t below).emit ⟨.mappingEnd, t.start⟩).emit (.empty t.start)
  | .pairEnd :: below => (feed hs t below).emit ⟨.mappingEnd, t.start⟩
  | .flowKey :: below => onFlowKey t below
  | .flowValue :: below => onFlowValue t below
  | .flowEmptyValue :: below => (onFlowMemberEnd t below).emit (.empty t.start)
  | .flowMemberEnd :: below => onFlowMemberEnd t below

end Frame

/-- How far a stream has been read. -/
inductive Phase where
  | start
  /-- Between directives: a version has been given or not, and these handles. -/
  | directives (versioned : Bool) (handles : Handles)
  | document (handles : Handles) (frames : List Frame)
  /-- Behind the first document. -/
  | closed
  /-- There is more than that document. -/
  | surplus
  | finished
  | failed
  deriving DecidableEq, Repr

namespace Phase

def declare (given : Handles) : Handles :=
  given ++ Handles.standard.filter fun h => given.all (·.1 ≠ h.1)

def onDirective (versioned : Bool) (handles : Handles) : TokenKind → Phase
  | .version major minor =>
    if !versioned && major = 1 && (minor = 1 || minor = 2) then .directives true handles
    else .failed
  | .tagHandle handle lead =>
    if handles.any (·.1 = handle) then .failed
    else .directives versioned (handles ++ [(handle, lead)])
  | .documentStart => .document (declare handles) [.slot .document none]
  | _ => .failed

/-- Behind the first document there may only be marks that it has ended. -/
def onClosed : TokenKind → Phase
  | .documentEnd => .closed
  | .streamEnd => .finished
  | _ => .surplus

/-- The phase behind a token that has been put to the frames of the document. -/
def ofOutcome (handles : Handles) (t : Token) (o : Outcome) : List Event × Phase :=
  (o.events,
    match o.sequel with
    | .frames fs => .document handles fs
    | .passed => onClosed t.kind
    | .fault => .failed)

def step (t : Token) : Phase → List Event × Phase
  | .start =>
    match t.kind with
    | .version _ _ | .tagHandle _ _ | .documentStart => ([], onDirective false [] t.kind)
    | .streamEnd => ([], .finished)
    | _ => ofOutcome Handles.standard t (Frame.startNode .inBlock t [])
  | .directives versioned handles => ([], onDirective versioned handles t.kind)
  | .document handles frames => ofOutcome handles t (Frame.feed handles t frames)
  | .closed => ([], onClosed t.kind)
  | .surplus => ([], .surplus)
  | .finished => ([], .finished)
  | .failed => ([], .failed)

end Phase

/-- How a stream ends: with its only document, with a fault in it, or with more behind it. -/
inductive Ending where
  | whole
  | faulty
  | continued
  deriving DecidableEq, Repr

/-- The ending of a stream that has been read as far as its tokens go. -/
def Phase.ending : Phase → Ending
  | .finished => .whole
  | .closed | .surplus => .continued
  | _ => .faulty

/-- The events of the first document up to the first fault, and how the stream ends. -/
def events (ts : List Token) : List Event × Ending :=
  let (found, phase) := ts.foldl
    (fun (found, phase) t =>
      let (new, phase) := Phase.step t phase
      (new.reverse ++ found, phase))
    (([] : List Event), Phase.start)
  (found.reverse, phase.ending)

end TypeDeps.Yaml

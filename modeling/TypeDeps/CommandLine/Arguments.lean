import TypeDeps.Path

/-!
# Arguments

How the command line is read. Options may stand anywhere behind the command they belong to,
and those of the whole program also in front of it. Arguments are taken one by one, so that
of several things to be answered or refused the first one counts.
-/
namespace TypeDeps.CommandLine

abbrev Argument := List UInt8

inductive Command where
  | impact (changed : Path) (graph? : Option Path)
  | dot (graph? output? : Option Path)
  | check (graph? : Option Path)
  | merge (fragments : List Path) (output? : Option Path)
  deriving DecidableEq, Repr

/-- What the command line asks for. -/
structure Request where
  settings? : Option Path
  verbosity : Nat
  command : Command
  deriving DecidableEq, Repr

inductive CommandName where
  | impact
  | dot
  | check
  | merge
  deriving DecidableEq, Repr

namespace CommandName

def all : List CommandName := [impact, dot, check, merge]

def text : CommandName → String
  | impact => "impact"
  | dot => "dot"
  | check => "check"
  | merge => "merge"

def ofArgument? (a : Argument) : Option CommandName := all.find? fun c => bytesOf c.text = a

end CommandName

/-- Requests that are answered at once, and command lines that make no sense. -/
inductive Stop where
  | help
  | version (command? : Option CommandName)
  | misuse
  deriving DecidableEq, Repr

inductive OptionName where
  | settings
  | verbose
  | graph
  | output
  | help
  | version
  deriving DecidableEq, Repr

namespace OptionName

def all : List OptionName := [settings, verbose, graph, output, help, version]

def long : OptionName → String
  | settings => "config"
  | verbose => "verbose"
  | graph => "graph"
  | output => "output"
  | help => "help"
  | version => "version"

def short : OptionName → Char
  | settings => 'c'
  | verbose => 'v'
  | graph => 'g'
  | output => 'o'
  | help => 'h'
  | version => 'V'

def takesValue : OptionName → Bool
  | settings | graph | output => true
  | _ => false

/-- The options of the program are those of every command, too. -/
def belongsTo : OptionName → Option CommandName → Bool
  | graph, c => c = some .impact || c = some .dot || c = some .check
  | output, c => c = some .dot || c = some .merge
  | _, _ => true

end OptionName

/-- How many values a command takes besides its options. -/
def valueLimit : Option CommandName → Option Nat
  | some .impact => some 1
  | some .merge => none
  | _ => some 0

/-- What has been read of the arguments behind the program or behind a command. -/
structure Scan where
  command? : Option CommandName
  settings? : Option Path
  graph? : Option Path
  output? : Option Path
  verbosity : Nat
  /-- The values, the last one first. -/
  values : List Path
  /-- The option whose value comes next. -/
  awaiting? : Option OptionName
  /-- Everything that follows is a value. -/
  valuesOnly : Bool
  deriving DecidableEq, Repr

namespace Scan

def start (command? : Option CommandName) : Scan :=
  ⟨command?, none, none, none, 0, [], none, false⟩

def stored? (s : Scan) : OptionName → Option Path
  | .settings => s.settings?
  | .graph => s.graph?
  | .output => s.output?
  | _ => none

def store (s : Scan) (o : OptionName) (p : Path) : Scan :=
  match o with
  | .settings => { s with settings? := some p }
  | .graph => { s with graph? := some p }
  | .output => { s with output? := some p }
  | _ => s

/-- Give an option its value, which must not be empty. An option is given once. -/
def setValue (s : Scan) (o : OptionName) (value : Argument) : Except Stop Scan :=
  if value = [] ∨ (s.stored? o).isSome then .error .misuse
  else .ok { s.store o ⟨value⟩ with awaiting? := none }

/-- An option without a value of its own. -/
def flag (s : Scan) : OptionName → Except Stop Scan
  | .verbose => .ok { s with verbosity := s.verbosity + 1 }
  | .help => .error .help
  | .version => .error (.version s.command?)
  | o => .ok { s with awaiting? := some o }

def addValue (s : Scan) (value : Argument) : Except Stop Scan :=
  if value = [] ∨ (valueLimit s.command?).any (· ≤ s.values.length) then .error .misuse
  else .ok { s with values := ⟨value⟩ :: s.values }

def optionWhere? (s : Scan) (p : OptionName → Bool) : Option OptionName :=
  OptionName.all.find? fun o => o.belongsTo s.command? && p o

/-- The byte `=`. -/
def equals : UInt8 := 0x3D

/-- The byte `-`. -/
def dash : UInt8 := 0x2D

/-- A long option, behind its dashes, with or without a value attached. -/
def long (s : Scan) (body : Argument) : Except Stop Scan :=
  let name := body.takeWhile (· ≠ equals)
  match s.optionWhere? fun o => bytesOf o.long = name with
  | none => .error .misuse
  | some o =>
    match body.dropWhile (· ≠ equals) with
    | [] => s.flag o
    | _ :: value => if o.takesValue then s.setValue o value else .error .misuse

/-- Short options in a row, behind their dash. The first one that takes a value takes all that
follows. -/
def short (s : Scan) : Argument → Except Stop Scan
  | [] => .ok s
  | b :: r =>
    match s.optionWhere? fun o => o.short.toNat = b.toNat with
    | none => .error .misuse
    | some o =>
      if o.takesValue then
        match r with
        | [] => s.flag o
        | c :: value => s.setValue o (if c = equals then value else c :: value)
      else
        match s.flag o with
        | .ok s => short s r
        | .error stop => .error stop

/-- One more argument, which is not the name of a command. -/
def next (s : Scan) (a : Argument) : Except Stop Scan :=
  if s.valuesOnly then s.addValue a
  else
    let isOption := a.head? = some dash && a ≠ [dash]
    match s.awaiting? with
    | some o => if isOption then .error .misuse else s.setValue o a
    | none =>
      if a = [dash, dash] then .ok { s with valuesOnly := true }
      else if isOption then
        (if a.tail.head? = some dash then s.long (a.drop 2) else s.short a.tail)
      else s.addValue a

/-- All arguments behind a command. -/
def all (s : Scan) : List Argument → Except Stop Scan
  | [] => if s.awaiting?.isSome then .error .misuse else .ok s
  | a :: rest =>
    match s.next a with
    | .ok s => all s rest
    | .error stop => .error stop

/-- The command that has been read, if its values are all there. -/
def command (s : Scan) : Except Stop Command :=
  match s.command?, s.values.reverse with
  | some .impact, [changed] => .ok (.impact changed s.graph?)
  | some .dot, [] => .ok (.dot s.graph? s.output?)
  | some .check, [] => .ok (.check s.graph?)
  | some .merge, f :: fs => .ok (.merge (f :: fs) s.output?)
  | _, _ => .error .misuse

end Scan

/-- What follows the word that asks for help. -/
def helpFor : List Argument → Stop
  | [] => .help
  | [a] => if (CommandName.ofArgument? a).isSome ∨ a = bytesOf "help" then .help else .misuse
  | _ => .misuse

/-- Options behind the command win over those in front of it. -/
def Request.of (before behind : Scan) : Except Stop Request := do
  let command ← behind.command
  pure ⟨behind.settings?.or before.settings?,
    if behind.verbosity = 0 then before.verbosity else behind.verbosity, command⟩

/-- The arguments up to the name of the command, and then those behind it. -/
def Request.readFrom (s : Scan) : List Argument → Except Stop Request
  | [] => .error .misuse
  | a :: rest =>
    if s.awaiting?.isNone && !s.valuesOnly && a = bytesOf "help" then .error (helpFor rest)
    else
      match CommandName.ofArgument? a with
      | some c =>
        if s.awaiting?.isNone && !s.valuesOnly then do
          let behind ← (Scan.start (some c)).all rest
          Request.of s behind
        else do
          let s ← s.next a
          readFrom s rest
      | none => do
        let s ← s.next a
        readFrom s rest

def Request.read (arguments : List Argument) : Except Stop Request :=
  Request.readFrom (.start none) arguments

end TypeDeps.CommandLine

import TypeDeps.CommandLine.Arguments
import TypeDeps.CommandLine.Notice
import TypeDeps.CommandLine.Style
import TypeDeps.Graph.Dot
import TypeDeps.Graph.File
import TypeDeps.Settings.File

/-!
# Commands

Each command reads graph files and says what it found. Its report holds what goes to the two
outputs and the exit code. Notices come in front of the answer, also in front of a failure.
-/
namespace TypeDeps.CommandLine

/-- How reports look: with colours or without, and with notices unless they are muted. -/
structure Look where
  colour : Bool
  muted : Bool
  deriving DecidableEq, Repr

structure Report where
  exit : Nat
  output : String
  errors : String
  deriving DecidableEq, Repr

/-- What a command has said so far and how it ended. -/
structure Progress where
  notices : List Notice
  result : Except Error String

namespace Progress

def failed (notices : List Notice) (e : Error) : Progress := ⟨notices, .error e⟩

end Progress

section Answers

variable (colour : Bool)

def styledPath (p : Path) : String := Style.path.apply colour p.display

def styledNumber (n : Nat) : String := Style.good.apply colour (toString n)

def bullet : String := "    " ++ Style.faint.apply colour "•" ++ " "

def bulletLine (text : String) : String := bullet colour ++ text ++ "\n"

/-- How many touched files are listed. -/
def listLimit : Nat := 20

def impactText (i : Impact) : String :=
  let count := i.touched.length
  let list :=
    if count = 0 then "    " ++ Style.faint.apply colour "(none)" ++ "\n"
    else
      String.join ((i.touched.take listLimit).map fun p => bulletLine colour p.display) ++
        (if listLimit < count then
          bulletLine colour ("... and " ++ toString (count - listLimit) ++ " more")
        else "")
  "Impact analysis for " ++ styledPath colour i.changed ++ ":\n\n  " ++
    Style.name.apply colour "Directly impacted" ++ " (" ++ styledNumber colour count ++
    " files):\n" ++ list

def clashText (c : Clash) : String :=
  "  " ++ Style.doubtful.apply colour "warning" ++ ": " ++ Style.name.apply colour c.name ++
    " declared by " ++ toString c.paths.length ++ " files\n" ++
    String.join (c.paths.map fun p => bulletLine colour p.display)

def checkText (path : Path) (g : Graph) (canonical : Bool) : String :=
  styledPath colour path ++ ": " ++ styledNumber colour g.size ++ " files\n  " ++
    (if canonical then Style.good.apply colour "canonical encoding"
    else Style.doubtful.apply colour "not in canonical encoding") ++ "\n" ++
    String.join (g.clashes.map (clashText colour))

def mergeText (fragments : Nat) (g : Graph) (output : Path) : String :=
  "Merged " ++ styledNumber colour fragments ++ " fragments (" ++ styledNumber colour g.size ++
    " files) into " ++ styledPath colour output ++ "\n"

/-- The lines for a failed command. Only failures of storage have a cause below them. -/
def errorText (e : Error) : String :=
  Style.alarm.apply colour "error" ++ ": " ++ e.message ++ "\n" ++
    (match e.cause? with
    | some cause => "  " ++ Style.faint.apply colour "caused by" ++ ": " ++ cause ++ "\n"
    | none => "")

/-- A failure of the settings themselves, whose cause is not told. -/
def settingsErrorText (e : Error) : String :=
  Style.alarm.apply colour "error" ++ ": " ++ e.message ++ "\n"

end Answers

section Commands

variable {m : Type → Type} [Monad m] [Storage m]

/-- The graph file that is meant: the module's if none is named. -/
def graphPath (settings : Settings) (explicit? : Option Path) : Path :=
  explicit?.getD settings.store.modulePath

def runImpact (colour : Bool) (changed path : Path) : m Progress := do
  match ← (Graph.load path : Task m Graph) with
  | .error e => pure (.failed [] e)
  | .ok g =>
    match g.impact changed with
    | .error e => pure (.failed (Notice.ofGraph g) e)
    | .ok i => pure ⟨Notice.ofGraph g ++ Notice.ofImpact g i, .ok (impactText colour i)⟩

def runDot (path : Path) (output? : Option Path) : m Progress := do
  match ← (Graph.load path : Task m Graph) with
  | .error e => pure (.failed [] e)
  | .ok g =>
    match output? with
    | none => pure ⟨Notice.ofGraph g, .ok g.dot⟩
    | some output =>
      let written ← (Storage.write output (bytesOf g.dot) : Task m Unit)
      pure ⟨Notice.ofGraph g, written.map fun _ => ""⟩

def runCheck (colour : Bool) (path : Path) : m Progress := do
  match ← (Storage.readText path : Task m String) with
  | .error e => pure (.failed [] e)
  | .ok text =>
    match Graph.read text with
    | .error e => pure (.failed [] e)
    | .ok g =>
      let canonical := g.write.toOption = some text
      pure ⟨Notice.ofGraph g, .ok (checkText colour path g canonical)⟩

/-- The files of all these graphs in order, up to the first that cannot be read. -/
def loadAll (notices : List Notice) (files : List SourceFile) :
    List Path → m (List Notice × Except Error Graph)
  | [] => pure (notices, .ok ⟨files⟩)
  | p :: ps => do
    match ← (Graph.load p : Task m Graph) with
    | .error e => pure (notices, .error e)
    | .ok g => loadAll (notices ++ Notice.ofGraph g) (files ++ g.files) ps

def runMerge (colour : Bool) (fragments : List Path) (output : Path) : m Progress := do
  let (notices, merged) ← loadAll [] [] fragments
  match merged with
  | .error e => pure (.failed notices e)
  | .ok g =>
    let written ← (g.save output : Task m Unit)
    pure ⟨notices ++ Notice.ofGraph g,
      written.map fun _ => mergeText colour fragments.length g output⟩

def runCommand (colour : Bool) (settings : Settings) : Command → m Progress
  | .impact changed graph? => runImpact colour changed (graphPath settings graph?)
  | .dot graph? output? => runDot (graphPath settings graph?) output?
  | .check graph? => runCheck colour (graphPath settings graph?)
  | .merge fragments output? => runMerge colour fragments (graphPath settings output?)

def settingsOf (r : Request) : Task m Settings :=
  match r.settings? with
  | some path => Settings.load path
  | none => Settings.loadOrStandard (.ofString Settings.fileName)

def runRequest (look : Look) (r : Request) : m Report := do
  match ← (settingsOf r : Task m Settings) with
  | .error e => pure ⟨1, "", settingsErrorText look.colour e⟩
  | .ok settings =>
    let progress ← runCommand look.colour settings r.command
    let shown := if look.muted then [] else progress.notices.filter (·.isShown r.verbosity)
    let said := String.join (shown.map Notice.line)
    match progress.result with
    | .ok text => pure ⟨0, said ++ text, ""⟩
    | .error e => pure ⟨1, said, errorText look.colour e⟩

def programName : String := "typegraph"

def versionText (command? : Option CommandName) : String :=
  programName ++ ((command?.map fun c => "-" ++ c.text).getD "") ++ " 0.1.0\n"

def usageText : String :=
  "Usage: " ++ programName ++ " [-c FILE] [-v...] COMMAND\n\n" ++
    "Commands:\n" ++
    "  impact CHANGED [-g GRAPH]       list the files that a change to a file touches\n" ++
    "  dot [-g GRAPH] [-o OUTPUT]      draw the graph in the DOT language\n" ++
    "  check [-g GRAPH]                validate a graph file and report clashes\n" ++
    "  merge FRAGMENT... [-o OUTPUT]   merge graphs into one\n"

/-- Run the program with these arguments. -/
def run (look : Look) (arguments : List Argument) : m Report :=
  match Request.read arguments with
  | .ok r => runRequest look r
  | .error .help => pure ⟨0, usageText, ""⟩
  | .error (.version command?) => pure ⟨0, versionText command?, ""⟩
  | .error .misuse => pure ⟨2, "", usageText⟩

end Commands

end TypeDeps.CommandLine

import TypeDeps.Decimal.Shortest
import TypeDeps.Settings.Basic
import TypeDeps.Text.Shown
import TypeDeps.Yaml.Plain
import TypeDeps.Yaml.Stream

/-!
# Faults in settings files

What can be wrong with a settings file, and how it is put into words. A place is named by the
setting it belongs to and by line and column, both counted from one. The first character of
the file is not named.
-/
namespace TypeDeps.Settings

open Yaml

/-- A value of the wrong kind. -/
inductive Found where
  | value (m : Meaning)
  | string (s : String)
  | sequence
  | map
  deriving DecidableEq, Repr

namespace Found

/-- Integers beyond 64 bits are told apart. -/
def integerText (n : Int) : String :=
  "integer \x60" ++ toString n ++ "\x60" ++
    (if (Nat.pow 2 64 : Int) ≤ n then " as u128"
    else if n < -(Nat.pow 2 63 : Int) then " as i128"
    else "")

def floatText (s : String) : String := "floating point \x60" ++ s ++ "\x60"

/-- Text is not found here: it has a form of its own. -/
def meaningText : Meaning → String
  | .null => "unit value"
  | .boolean b => "boolean \x60" ++ (if b then "true" else "false") ++ "\x60"
  | .integer n => integerText n
  | .float bits => floatText (Decimal.ofBits bits).positional
  | .infinite negative => floatText (if negative then "-inf" else "inf")
  | .notANumber => floatText "NaN"
  | .text => "string"

def text : Found → String
  | value m => meaningText m
  | string s => "string " ++ Text.shown s
  | sequence => "sequence"
  | map => "map"

end Found

/-- What a place calls for. -/
inductive Expected where
  | settings
  | setting
  | path
  | string
  | list
  | mode
  | nothing
  | boolean
  | integer
  | float
  | null
  deriving DecidableEq, Repr

def Expected.text : Expected → String
  | settings => "struct Config"
  | setting => "field identifier"
  | path => "path string"
  | string => "a string"
  | list => "a sequence"
  | mode => "a YAML tag starting with '!'"
  | nothing => "unit"
  | boolean => "a boolean"
  | integer => "an integer"
  | float => "a float"
  | null => "null"

/-- A place: the setting it belongs to, which is empty for the file as a whole, and a mark. -/
structure Place where
  label : String
  mark : Mark
  deriving DecidableEq, Repr

inductive Fault where
  | wrongType (found : Found) (expected : Expected) (place : Place)
  | unknownMode (name : String) (place : Place)
  | repeated (name : String) (place : Place)
  /-- A text that is not of the kind that its tag names. -/
  | wrongValue (text : String) (expected : Expected) (place : Place)
  | defect (d : Defect)
  /-- A value is missing where the file ends. -/
  | unfinished
  deriving DecidableEq, Repr

namespace Fault

def at_ (place : Place) (text : String) : String :=
  (if place.label = "" then "" else place.label ++ ": ") ++ text ++
    (if place.mark.line = 0 ∧ place.mark.column = 0 then ""
    else
      " at line " ++ toString (place.mark.line + 1) ++ " column " ++
        toString (place.mark.column + 1))

def quoted (s : String) : String := "\x60" ++ s ++ "\x60"

def message : Fault → String
  | wrongType found expected place =>
    at_ place ("invalid type: " ++ found.text ++ ", expected " ++ expected.text)
  | unknownMode name place =>
    at_ place ("unknown variant " ++ quoted name ++ ", expected " ++
      String.intercalate " or " (CacheMode.all.map fun m => quoted m.name))
  | repeated name place => at_ place ("duplicate field " ++ quoted name)
  | wrongValue text expected place =>
    at_ place ("invalid value: string " ++ Text.shown text ++ ", expected " ++ expected.text)
  | defect .notWellFormed => "the file is not a YAML document"
  | defect (.unknownName mark) => at_ ⟨"", mark⟩ "unknown anchor"
  | defect .continued =>
    "deserializing from YAML containing more than one document is not supported"
  | unfinished => "EOF while parsing a value"

end Fault

end TypeDeps.Settings

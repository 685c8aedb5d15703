/-!
# Styles

Texts that stand out on a terminal. A style is switched on before its text and everything is
switched off behind it. Where the text itself switches everything off, the style is switched
on again.
-/
namespace TypeDeps.CommandLine

inductive Style where
  | path
  | name
  | good
  | doubtful
  | faint
  | alarm
  deriving DecidableEq, Repr

namespace Style

def code : Style → String
  | path => "1;36"
  | name => "1;37"
  | good => "32"
  | doubtful => "33"
  | faint => "2"
  | alarm => "1;31"

def on (s : Style) : List Char := '\x1b' :: '[' :: s.code.toList ++ ['m']

def off : List Char := ['\x1b', '[', '0', 'm']

/-- Switch the style on again wherever everything is switched off. -/
def renew (s : Style) : List Char → List Char
  | '\x1b' :: '[' :: '0' :: 'm' :: r => off ++ s.on ++ renew s r
  | c :: r => c :: renew s r
  | [] => []

/-- The text in this style, if colours are in use at all. -/
def apply (s : Style) (colour : Bool) (text : String) : String :=
  if colour then String.ofList (s.on ++ renew s text.toList ++ off) else text

end Style

end TypeDeps.CommandLine

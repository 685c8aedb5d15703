import TypeDeps.Text.Unprintable

/-!
# Strings shown in messages

A string that a message is about stands between double quotes. Quotes, backslashes and
characters without a picture are shown as escapes.
-/
namespace TypeDeps.Text

/-- The hexadecimal digits of a number, without leading zeros. -/
def hexChars (n : Nat) : List Char := Nat.toDigits 16 n

def showChar (c : Char) : List Char :=
  if c = '\x00' then ['\\', '0']
  else if c = '\t' then ['\\', 't']
  else if c = '\n' then ['\\', 'n']
  else if c = '\r' then ['\\', 'r']
  else if c = '\x22' then ['\\', '\x22']
  else if c = '\\' then ['\\', '\\']
  else if isUnprintable c then ['\\', 'u', '\x7b'] ++ hexChars c.toNat ++ ['\x7d']
  else [c]

def shown (s : String) : String :=
  String.ofList ('\x22' :: s.toList.flatMap showChar ++ ['\x22'])

end TypeDeps.Text

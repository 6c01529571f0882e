import ConfigDecl.Text.Printable

/-! # Quoted text

Text between double quotes, for people to read: a quote and a backslash get a
backslash before them, line feed, carriage return, tab and the null character
have a letter, and any other character that does not stand for itself is given
by its number in hexadecimal. -/

set_option autoImplicit false

namespace ConfigDecl.Text

def hexNumber (n : Nat) : List Char :=
  '\\' :: 'u' :: '\x7b' :: Nat.toDigits 16 n ++ ['\x7d']

def escape (c : Char) : List Char :=
  if c = '\x22' then ['\\', '\x22']
  else if c = '\\' then ['\\', '\\']
  else if c = '\n' then ['\\', 'n']
  else if c = '\r' then ['\\', 'r']
  else if c = '\t' then ['\\', 't']
  else if c = '\x00' then ['\\', '0']
  else if isPrintable c then [c]
  else hexNumber c.toNat

def quote (text : String) : String :=
  String.ofList ('\x22' :: text.toList.flatMap escape ++ ['\x22'])

end ConfigDecl.Text

/-! # Identifiers

Names of constants and of dictionaries, and the keys inside dictionaries, are
identifiers: one ASCII letter, then any number of ASCII letters and digits.
Underscores and letters outside ASCII are not admitted. -/

set_option autoImplicit false

namespace ConfigDecl

def identChars : List Char → Bool
  | [] => false
  | first :: rest => first.isAlpha && rest.all Char.isAlphanum

def isIdent (name : String) : Bool := identChars name.toList

theorem isIdent_ofList (chars : List Char) :
    isIdent (String.ofList chars) = identChars chars := by
  simp [isIdent]

end ConfigDecl

import ConfigDecl.Markup.Fault
import ConfigDecl.Report

/-! # Errors of reading

A source is either not well-formed, which is known by a fault and by the number
of bytes consumed when it was found, or it holds no element at all. -/

set_option autoImplicit false

namespace ConfigDecl.Markup

inductive ReadError where
  | malformed (fault : Fault) (offset : Nat)
  | missingRoot
  deriving DecidableEq, Repr

namespace ReadError

def message : ReadError → String
  | .malformed fault offset => s!"{fault.message} at byte {offset}"
  | .missingRoot => "document has no root element"

def remarks : ReadError → List Remark
  | .malformed _ _ => [.help "the source document must be well-formed XML"]
  | .missingRoot =>
      [.help ("declarations must be contained within a root element, " ++
        "such as `<config>`")]

def causes : ReadError → List String
  | .malformed fault offset =>
      (ReadError.malformed fault offset).message :: fault.message :: fault.causes
  | .missingRoot => []

instance : Reportable ReadError := ⟨message, remarks, causes⟩

def agrees : ReadError → ReadError → Bool
  | .malformed fault offset, .malformed fault' offset' =>
      offset == offset' && fault.message == fault'.message
  | .missingRoot, .missingRoot => true
  | .malformed _ _, .missingRoot => false
  | .missingRoot, .malformed _ _ => false

instance : BEq ReadError := ⟨agrees⟩

end ReadError

end ConfigDecl.Markup

import ConfigDecl.Document
import ConfigDecl.Expr.Error
import ConfigDecl.Output.Literal
import ConfigDecl.Report

/-! # Configuration errors

Why a document yields no configuration.  There is only ever one error, since the
first one ends the run. -/

set_option autoImplicit false

namespace ConfigDecl.Configuration

inductive NameKind where
  | constant
  | dictionary
  deriving DecidableEq, Repr

def NameKind.label : NameKind → String
  | .constant => "constant"
  | .dictionary => "dictionary"

/-- A part of a declaration that is missing.  Declarations without a name are
known by their position among those of their kind, from zero; anything inside a
declaration is known by its path, the names from the declaration down joined
with dots. -/
inductive MissingPart where
  | constantName (position : Nat)
  | constantValue (name : String)
  | dictionaryName (position : Nat)
  /-- The path is that of the dictionary around the entry. -/
  | entryName (path : String)
  | entryValue (path : String)
  | digits (path : String)
  deriving DecidableEq, Repr

namespace MissingPart

def message : MissingPart → String
  | .constantName position => s!"constant #{position + 1} is missing a name"
  | .constantValue name => s!"constant `{name}` is missing a value"
  | .dictionaryName position => s!"dictionary #{position + 1} is missing a name"
  | .entryName path => s!"entry of `{path}` is missing a name"
  | .entryValue path => s!"entry `{path}` is missing a value"
  | .digits path => s!"number `{path}` is missing its digits"

def remarks : MissingPart → List Remark
  | .constantName _ => [.help "provide a `name` attribute"]
  | .constantValue _ => [.help "provide a `value` element"]
  | .dictionaryName _ => [.help "provide a `name` attribute"]
  | .entryName _ => [.help "provide a `name` attribute"]
  | .entryValue _ => [.help "provide a `value` element"]
  | .digits _ => [.help "provide an integer as the value's text"]

instance : Reportable MissingPart := ⟨message, remarks, fun _ => []⟩

end MissingPart

inductive Error where
  | missing (part : MissingPart)
  | expression (error : Expr.EvalError)
  | rendering (error : RenderError)
  | invalidName (kind : NameKind) (name : String)
  | unsupportedKind (kind : Option String)
  | invalidNumber (text : String)
  deriving DecidableEq, Repr

/-- What went wrong, whichever layer found it. -/
inductive Category where
  | structural
  | insufficientOperands
  | unknownToken
  | malformedExpression
  | invalidKey
  | unsupportedKind
  | invalidNumber
  | overflow
  deriving DecidableEq, Repr

namespace Error

def category : Error → Category
  | .missing _ => .structural
  | .expression (.insufficientOperands _ _) => .insufficientOperands
  | .expression (.unknownToken _) => .unknownToken
  | .expression (.malformed _) => .malformedExpression
  | .expression (.overflow _) => .overflow
  | .rendering (.invalidKey _) => .invalidKey
  | .invalidName _ _ => .invalidKey
  | .unsupportedKind _ => .unsupportedKind
  | .invalidNumber _ => .invalidNumber

def message : Error → String
  | .missing part => part.message
  | .expression error => error.message
  | .rendering error => error.message
  | .invalidName kind name => s!"invalid {kind.label} name `{name}`"
  | .unsupportedKind (some kind) => s!"unsupported value type `{kind}`"
  | .unsupportedKind none => "value has no type"
  | .invalidNumber text => s!"invalid number `{text}`"

def supportedKinds : String :=
  ", ".intercalate (Node.kinds.map fun kind => s!"`{kind}`")

def remarks : Error → List Remark
  | .missing part => part.remarks
  | .expression error => error.remarks
  | .rendering error => error.remarks
  | .invalidName _ _ =>
      [.help "names must begin with a letter and contain only letters and digits"]
  | .unsupportedKind _ => [.help s!"`type` must be one of {supportedKinds}"]
  | .invalidNumber _ =>
      [.note "numbers must be integers",
        .help "use a `string` value for text or an `expression` to compute a number"]

def causes : Error → List String
  | .missing part => [part.message]
  | .expression error => [error.message]
  | .rendering error => [error.message]
  | .invalidName _ _ => []
  | .unsupportedKind _ => []
  | .invalidNumber _ => []

instance : Reportable Error := ⟨message, remarks, causes⟩

end Error

end ConfigDecl.Configuration

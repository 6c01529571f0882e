import ConfigDecl.Configuration.Error
import ConfigDecl.Expr.Eval

/-! # Resolution

From a written value to the value that it stands for, given the constants that
are visible.  Entries are resolved in order, those too whose key comes again
later, and the keys are taken as they are. -/

set_option autoImplicit false

namespace ConfigDecl.Configuration

def resolveNumber (text : String) : Except Error Value :=
  match (Integer.numeral? (Text.trim text.toList)).bind Integer.narrow? with
  | some n => .ok (.integer n)
  | none => .error (.invalidNumber text)

def resolveExpression (table : Constants) (text : String) : Except Error Value :=
  match Expr.eval table text with
  | .ok n => .ok (.integer n)
  | .error error => .error (.expression error)

def entryPath (path key : String) : String := s!"{path}.{key}"

mutual

def resolve (table : Constants) (path : String) : Node → Except Error Value
  | .number (some text) => resolveNumber text
  | .number none => .error (.missing (.digits path))
  | .string text => .ok (.text (text.getD ""))
  | .dictionary entries => do
      let dict ← resolveEntries table path ∅ entries
      return .dictionary dict
  | .expression text => resolveExpression table (text.getD "")
  | .unsupported kind => .error (.unsupportedKind kind)

/-- The dictionary at `path` once the entries have been added to it. -/
def resolveEntries (table : Constants) (path : String) (dict : Dictionary Value) :
    List Entry → Except Error (Dictionary Value)
  | [] => .ok dict
  | ⟨none, _⟩ :: _ => .error (.missing (.entryName path))
  | ⟨some key, none⟩ :: _ => .error (.missing (.entryValue (entryPath path key)))
  | ⟨some key, some node⟩ :: rest => do
      let value ← resolve table (entryPath path key) node
      resolveEntries table path (dict.insert key value) rest

end

end ConfigDecl.Configuration

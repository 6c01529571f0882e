import ConfigDecl.Configuration.Run
import ConfigDecl.Text.Quoted

/-! # Traces for people

The progress of a run as text, for someone who follows it step by step.  Values
and errors are shown in the notation of applied constructors, texts quoted;
every line put out, and the error that ends a run, is followed by a note on why
the trace is there. -/

set_option autoImplicit false

namespace ConfigDecl.Configuration

open Text (quote)

def applied (constructor : String) (arguments : List String) : String :=
  constructor ++ "(" ++ ", ".intercalate arguments ++ ")"

mutual

def showValue : Value → String
  | .integer n => applied "Integer" [Integer.decimal n]
  | .text content => applied "Text" [quote content]
  | .dictionary ⟨entries⟩ =>
      applied "Dictionary" [applied "Dict" ["[" ++ ", ".intercalate (showEntries entries) ++ "]"]]

def showEntries : List (String × Value) → List String
  | [] => []
  | (key, value) :: rest => applied "" [quote key, showValue value] :: showEntries rest

end

def showOperator : Expr.Operator → String
  | .add => "Add"
  | .sub => "Sub"
  | .mul => "Mul"
  | .abs => "Abs"

def showEvalError : Expr.EvalError → String
  | .insufficientOperands op available =>
      applied "InsufficientOperands" [showOperator op, toString available]
  | .unknownToken word => applied "UnknownToken" [quote word]
  | .malformed depth => applied "MalformedExpression" [toString depth]
  | .overflow word => applied "IntegerOverflow" [quote word]

def showMissingPart : MissingPart → String
  | .constantName position => applied "MissingConstName" [toString position]
  | .constantValue name => applied "MissingConstValue" [quote name]
  | .dictionaryName position => applied "MissingDictName" [toString position]
  | .entryName path => applied "MissingEntryName" [quote path]
  | .entryValue path => applied "MissingEntryValue" [quote path]
  | .digits path => applied "MissingNumber" [quote path]

def showNameKind : NameKind → String
  | .constant => "Constant"
  | .dictionary => "Dictionary"

def showError : Error → String
  | .missing part => applied "Structure" [showMissingPart part]
  | .expression error => applied "Expr" [showEvalError error]
  | .rendering (.invalidKey key) => applied "Render" [applied "InvalidKey" [quote key]]
  | .invalidName kind name => applied "InvalidName" [showNameKind kind, quote name]
  | .unsupportedKind (some kind) => applied "UnsupportedValueKind" [applied "Some" [quote kind]]
  | .unsupportedKind none => applied "UnsupportedValueKind" ["None"]
  | .invalidNumber text => applied "InvalidNumber" [quote text]

def traceNote : String :=
  "= note: this trace was output as a debugging aid because `cfg()`.\n\n"

namespace Progress

def trace : Progress → String
  | .resolved declared =>
      s!"[translate] resolved {declared.kind.label} `{declared.name}`\n" ++
        s!"|  |  {showValue declared.value}\n|\n"
  | .emitted line => s!"[translate] emit\n|  |  {quote line}\n" ++ traceNote
  | .aborted error =>
      s!"[translate] !!! abort: {error.message}.\n|  |  {showError error}\n" ++ traceNote

end Progress

def Run.trace (run : Run) : String := String.join (run.log.map Progress.trace)

end ConfigDecl.Configuration

import ConfigDecl.Expr.Operator
import ConfigDecl.Report

/-! # Errors of expressions

Why an expression has no value: the word at which evaluation stopped, with the
number of operands that were there if it is an operator without enough of them, or
the number of values left at the end. -/

set_option autoImplicit false

namespace ConfigDecl.Expr

inductive EvalError where
  | insufficientOperands (op : Operator) (available : Nat)
  /-- A word is neither a literal nor an operator nor an integer constant. -/
  | unknownToken (word : String)
  | malformed (depth : Nat)
  | overflow (word : String)
  deriving DecidableEq, Repr

namespace EvalError

def message : EvalError → String
  | .insufficientOperands op _ => s!"insufficient operands for `{op.word}`"
  | .unknownToken word => s!"unknown token `{word}` in expression"
  | .malformed _ => "malformed expression"
  | .overflow word => s!"integer overflow at `{word}`"

def remarks : EvalError → List Remark
  | .insufficientOperands op available =>
      [.note s!"`{op.word}` requires {op.arity} operand(s), but only {available} available",
        .help "operators follow their operands in postfix notation, e.g. `2 3 +`"]
  | .unknownToken _ =>
      [.help ("a token must be an integer, `+`, `-`, `*`, `abs()`, or the name of an " ++
        "integer constant defined earlier in the document")]
  | .malformed 0 => [.note "the expression produced no value"]
  | .malformed depth =>
      [.note s!"the expression left {depth} values on the stack",
        .help "an expression must reduce to exactly one value; is an operator missing?"]
  | .overflow _ =>
      [.note "values must be between -9223372036854775808 and 9223372036854775807"]

instance : Reportable EvalError := ⟨message, remarks, fun _ => []⟩

end EvalError

end ConfigDecl.Expr

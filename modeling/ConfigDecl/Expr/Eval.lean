import ConfigDecl.Constants
import ConfigDecl.Expr.Error
import ConfigDecl.Integer
import ConfigDecl.Text.Blank

/-! # Evaluation

An expression is a sequence of words in postfix notation.  Words are taken from
left to right against a stack of operands: a literal or the name of an integer
constant puts a value on it, an operator takes its operands off, the right one
first, and puts its result on.  Exactly one value must be left.  A word is a
literal if it can be, else an operator if it can be, else a name. -/

set_option autoImplicit false

namespace ConfigDecl.Expr

/-- The operands waiting, the latest first. -/
abbrev Stack := List Int64

def usualDepth : Nat := 8

/-- Put an exact result on the stack; `word` is named if it is out of range. -/
def push (word : String) (n : Int) (stack : Stack) : Except EvalError Stack :=
  match Integer.narrow? n with
  | some value => .ok (value :: stack)
  | none => .error (.overflow word)

def apply (op : Operator) (stack : Stack) : Except EvalError Stack :=
  match op, stack with
  | .add, b :: a :: rest => push op.word (a.toInt + b.toInt) rest
  | .sub, b :: a :: rest => push op.word (a.toInt - b.toInt) rest
  | .mul, b :: a :: rest => push op.word (a.toInt * b.toInt) rest
  | .abs, a :: rest => push op.word a.toInt.natAbs rest
  | _, _ => .error (.insufficientOperands op stack.length)

def evalWord (table : Constants) (stack : Stack) (word : String) :
    Except EvalError Stack :=
  match Integer.literal? word.toList with
  | some n => push word n stack
  | none =>
      match Operator.ofWord? word with
      | some op => apply op stack
      | none =>
          match table.integer? word with
          | some n => .ok (n :: stack)
          | none => .error (.unknownToken word)

def evalWords (table : Constants) : Stack → List String → Except EvalError Stack
  | stack, [] => .ok stack
  | stack, word :: rest => do
      let next ← evalWord table stack word
      evalWords table next rest

def result : Stack → Except EvalError Int64
  | [n] => .ok n
  | stack => .error (.malformed stack.length)

def eval (table : Constants) (expression : String) : Except EvalError Int64 := do
  let stack ← evalWords table [] (Text.wordsOf expression)
  result stack

end ConfigDecl.Expr

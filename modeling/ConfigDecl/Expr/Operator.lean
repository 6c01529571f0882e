/-! # Operators

The operations of expressions, each named by one word and taking a fixed number
of operands. -/

set_option autoImplicit false

namespace ConfigDecl.Expr

inductive Operator where
  | add
  | sub
  | mul
  | abs
  deriving DecidableEq, Repr

namespace Operator

def word : Operator → String
  | .add => "+"
  | .sub => "-"
  | .mul => "*"
  | .abs => "abs()"

def arity : Operator → Nat
  | .add => 2
  | .sub => 2
  | .mul => 2
  | .abs => 1

def ofWord? (word : String) : Option Operator :=
  if word = "+" then some .add
  else if word = "-" then some .sub
  else if word = "*" then some .mul
  else if word = "abs()" then some .abs
  else none

theorem ofWord?_word (op : Operator) : ofWord? op.word = some op := by
  cases op <;> simp [ofWord?, word]

theorem ofWord?_eq_some_iff {op : Operator} {w : String} :
    ofWord? w = some op ↔ w = op.word := by
  constructor
  · intro found
    unfold ofWord? at found
    split at found
    · next same => cases found; exact same
    split at found
    · next same => cases found; exact same
    split at found
    · next same => cases found; exact same
    split at found
    · next same => cases found; exact same
    · cases found
  · rintro rfl
    exact ofWord?_word op

end Operator

end ConfigDecl.Expr

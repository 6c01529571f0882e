import ConfigDecl.Expr.Eval
import ConfigDecl.Proofs.Expr.Tree

/-! # The value of an expression

The value of an expression tree is computed among all integers.  Evaluating the
postfix notation of a tree yields this value when it is in range at every
subtree, and otherwise the fault of the first token that has one.  Conversely a
sequence of words that has a value is the postfix notation of one tree. -/

set_option autoImplicit false

namespace ConfigDecl.Expr

/-- The integers that names stand for. -/
abbrev Scope := String → Option Int64

namespace Tree

/-- The exact value, which is missing only if a name stands for no integer. -/
def value (scope : Scope) : Tree → Option Int
  | .literal leaf => some leaf.exact
  | .name leaf => (scope leaf.word).map Int64.toInt
  | .binary op left right => do
      let a ← left.value scope
      let b ← right.value scope
      return op.exact a b
  | .abs operand => (operand.value scope).map fun a => (a.natAbs : Int)

/-- Every leaf denotes a number and every subtree has its exact value in range. -/
def InRangeThroughout (scope : Scope) (tree : Tree) : Prop :=
  ∀ sub ∈ tree.subtrees, ∃ n, sub.value scope = some n ∧ Integer.InRange n

def overflow? (word : String) (n : Int) : Option EvalError :=
  if Integer.InRange n then none else some (.overflow word)

/-- What is wrong with the token at the root, its operands put aside. -/
def rootFault (scope : Scope) : Tree → Option EvalError
  | .literal leaf => overflow? leaf.word leaf.exact
  | .name leaf => if (scope leaf.word).isSome then none else some (.unknownToken leaf.word)
  | .binary op left right =>
      ((Tree.binary op left right).value scope).bind (overflow? op.operator.word)
  | .abs operand => ((Tree.abs operand).value scope).bind (overflow? Operator.abs.word)

/-- The fault of the first token, in postfix order, that has one. -/
def fault (scope : Scope) (tree : Tree) : Option EvalError :=
  tree.subtrees.findSome? (rootFault scope)

theorem overflow?_eq_none_iff {word : String} {n : Int} :
    overflow? word n = none ↔ Integer.InRange n := by
  simp [overflow?]

theorem fault_binary (scope : Scope) (op : BinaryOperator) (left right : Tree) :
    (Tree.binary op left right).fault scope =
      ((left.fault scope).or (right.fault scope)).or
        ((Tree.binary op left right).rootFault scope) := by
  cases found : (Tree.binary op left right).rootFault scope <;> simp [fault, subtrees, found]

theorem fault_abs (scope : Scope) (operand : Tree) :
    (Tree.abs operand).fault scope =
      (operand.fault scope).or ((Tree.abs operand).rootFault scope) := by
  cases found : (Tree.abs operand).rootFault scope <;> simp [fault, subtrees, found]

theorem InRangeThroughout.value_inRange {scope : Scope} {tree : Tree}
    (inRange : tree.InRangeThroughout scope) :
    ∃ n, tree.value scope = some n ∧ Integer.InRange n :=
  inRange tree tree.mem_subtrees_self

theorem inRangeThroughout_binary {scope : Scope} {op : BinaryOperator} {left right : Tree} :
    (Tree.binary op left right).InRangeThroughout scope ↔
      left.InRangeThroughout scope ∧ right.InRangeThroughout scope ∧
        ∃ n, (Tree.binary op left right).value scope = some n ∧ Integer.InRange n := by
  simp [InRangeThroughout, subtrees, or_imp, forall_and]

theorem inRangeThroughout_abs {scope : Scope} {operand : Tree} :
    (Tree.abs operand).InRangeThroughout scope ↔
      operand.InRangeThroughout scope ∧
        ∃ n, (Tree.abs operand).value scope = some n ∧ Integer.InRange n := by
  simp [InRangeThroughout, subtrees, or_imp, forall_and]

theorem value_binary_of_values {scope : Scope} (op : BinaryOperator) {left right : Tree}
    {a b : Int} (ofLeft : left.value scope = some a) (ofRight : right.value scope = some b) :
    (Tree.binary op left right).value scope = some (op.exact a b) := by
  simp [value, ofLeft, ofRight]

theorem value_abs_of_value {scope : Scope} {operand : Tree} {a : Int}
    (ofOperand : operand.value scope = some a) :
    (Tree.abs operand).value scope = some (a.natAbs : Int) := by
  simp [value, ofOperand]

theorem rootFault_eq_none {scope : Scope} {tree : Tree} {n : Int}
    (exact : tree.value scope = some n) (inRange : Integer.InRange n) :
    tree.rootFault scope = none := by
  cases tree with
  | literal leaf =>
      cases Option.some.inj exact
      exact overflow?_eq_none_iff.2 inRange
  | name leaf =>
      obtain ⟨w, found, _⟩ := Option.map_eq_some_iff.mp exact
      simp [rootFault, found]
  | binary op left right =>
      rw [rootFault, exact]
      exact overflow?_eq_none_iff.2 inRange
  | abs operand =>
      rw [rootFault, exact]
      exact overflow?_eq_none_iff.2 inRange

theorem inRange_of_rootFault_eq_none {scope : Scope} {tree : Tree} {n : Int}
    (exact : tree.value scope = some n) (clear : tree.rootFault scope = none) :
    Integer.InRange n := by
  cases tree with
  | literal leaf =>
      cases Option.some.inj exact
      exact overflow?_eq_none_iff.1 clear
  | name leaf =>
      obtain ⟨w, _, rfl⟩ := Option.map_eq_some_iff.mp exact
      exact Integer.inRange_toInt w
  | binary op left right =>
      rw [rootFault, exact] at clear
      exact overflow?_eq_none_iff.1 clear
  | abs operand =>
      rw [rootFault, exact] at clear
      exact overflow?_eq_none_iff.1 clear

theorem fault_eq_none_iff {scope : Scope} {tree : Tree} :
    tree.fault scope = none ↔ tree.InRangeThroughout scope := by
  constructor
  · intro clear
    have rootClear : ∀ sub ∈ tree.subtrees, sub.rootFault scope = none :=
      List.findSome?_eq_none_iff.1 clear
    clear clear
    induction tree with
    | literal leaf =>
        intro sub member
        cases List.mem_singleton.mp member
        exact ⟨leaf.exact, rfl, inRange_of_rootFault_eq_none rfl (rootClear _ member)⟩
    | name leaf =>
        intro sub member
        cases List.mem_singleton.mp member
        have known := rootClear _ member
        simp only [rootFault, ite_eq_left_iff, reduceCtorEq, imp_false, not_not] at known
        obtain ⟨w, found⟩ := Option.isSome_iff_exists.mp known
        exact ⟨w.toInt, by simp [value, found], Integer.inRange_toInt w⟩
    | binary op left right leftIH rightIH =>
        have leftRange := leftIH fun sub member => rootClear sub (by simp [subtrees, member])
        have rightRange := rightIH fun sub member => rootClear sub (by simp [subtrees, member])
        obtain ⟨a, leftValue, _⟩ := leftRange.value_inRange
        obtain ⟨b, rightValue, _⟩ := rightRange.value_inRange
        have exact := value_binary_of_values op leftValue rightValue
        have within := inRange_of_rootFault_eq_none exact (rootClear _ (mem_subtrees_self _))
        exact inRangeThroughout_binary.2 ⟨leftRange, rightRange, _, exact, within⟩
    | abs operand ih =>
        have operandRange := ih fun sub member => rootClear sub (by simp [subtrees, member])
        obtain ⟨a, operandValue, _⟩ := operandRange.value_inRange
        have exact := value_abs_of_value operandValue
        have within := inRange_of_rootFault_eq_none exact (rootClear _ (mem_subtrees_self _))
        exact inRangeThroughout_abs.2 ⟨operandRange, _, exact, within⟩
  · intro inRange
    refine List.findSome?_eq_none_iff.2 ?_
    intro sub member
    obtain ⟨n, exact, within⟩ := inRange sub member
    exact rootFault_eq_none exact within

end Tree

end ConfigDecl.Expr

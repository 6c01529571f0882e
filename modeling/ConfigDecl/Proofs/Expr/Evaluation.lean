import ConfigDecl.Proofs.Attempt
import ConfigDecl.Proofs.Expr.Value
import Mathlib.Data.List.Forall2

/-! # Evaluation of postfix notation

One pass against a stack computes the value of the tree that the words denote.
Forward, the words of a tree put its value on top of any stack, or stop at its
first fault.  Backward, every stack that is reached holds the values of trees
whose postfix notations, the deepest first, make up the words taken so far. -/

set_option autoImplicit false

namespace ConfigDecl.Expr

/-! ## One word -/

theorem evalWord_literal (table : Constants) (stack : Stack) (leaf : Integer.Literal) :
    evalWord table stack leaf.word = push leaf.word leaf.exact stack := by
  simp [evalWord, leaf.literal?_chars]

/-- The decimal form of an integer puts it on any stack. -/
theorem evalWord_decimal (table : Constants) (stack : Stack) (n : Int64) :
    evalWord table stack (Integer.decimal n) = .ok (n :: stack) := by
  simp [evalWord, Integer.literal?_decimal, push]

theorem evalWord_operator (table : Constants) (stack : Stack) (op : Operator) :
    evalWord table stack op.word = apply op stack := by
  simp [evalWord, literal?_operator, Operator.ofWord?_word]

theorem evalWord_name (table : Constants) (stack : Stack) (leaf : Name) :
    evalWord table stack leaf.word =
      match table.integer? leaf.word with
      | some n => .ok (n :: stack)
      | none => .error (.unknownToken leaf.word) := by
  have notLiteral : Integer.literal? leaf.word.toList = none := by
    refine Integer.literal?_eq_none_iff.2 ?_
    intro other same
    exact leaf.notLiteral other (by rw [Integer.Literal.word, same, String.ofList_toList])
  have notOperator : Operator.ofWord? leaf.word = none := by
    cases found : Operator.ofWord? leaf.word with
    | none => rfl
    | some op => exact absurd (Operator.ofWord?_eq_some_iff.1 found).symm (leaf.notOperator op)
  cases found : table.integer? leaf.word <;> simp [evalWord, notLiteral, notOperator, found]

theorem push_cases (word : String) (n : Int) :
    (∃ w : Int64, w.toInt = n ∧ Tree.overflow? word n = none ∧
      ∀ stack, push word n stack = .ok (w :: stack)) ∨
    (Tree.overflow? word n = some (.overflow word) ∧
      ∀ stack, push word n stack = .error (.overflow word)) := by
  cases narrowed : Integer.narrow? n with
  | some w =>
      obtain ⟨inRange, same⟩ := Integer.narrow?_eq_some_iff.1 narrowed
      refine Or.inl ⟨w, same, Tree.overflow?_eq_none_iff.2 inRange, ?_⟩
      intro stack
      simp [push, narrowed]
  | none =>
      have outOfRange := Integer.narrow?_eq_none_iff.1 narrowed
      refine Or.inr ⟨by simp [Tree.overflow?, outOfRange], ?_⟩
      intro stack
      simp [push, narrowed]

theorem apply_binary (op : BinaryOperator) (a b : Int64) (stack : Stack) :
    apply op.operator (b :: a :: stack) =
      push op.operator.word (op.exact a.toInt b.toInt) stack := by
  cases op <;> rfl

theorem apply_binary_eq_ok {op : BinaryOperator} {stack next : Stack}
    (applied : apply op.operator stack = .ok next) :
    ∃ a b rest, stack = b :: a :: rest := by
  match stack with
  | [] => cases op <;> cases applied
  | [_] => cases op <;> cases applied
  | b :: a :: rest => exact ⟨a, b, rest, rfl⟩

theorem apply_abs_eq_ok {stack next : Stack} (applied : apply .abs stack = .ok next) :
    ∃ a rest, stack = a :: rest := by
  cases stack with
  | nil => cases applied
  | cons a rest => exact ⟨a, rest, rfl⟩

/-! ## Many words -/

theorem evalWords_cons (table : Constants) (stack : Stack) (word : String)
    (rest : List String) :
    evalWords table stack (word :: rest) =
      (evalWord table stack word).bind fun next => evalWords table next rest := rfl

@[simp] theorem evalWords_singleton (table : Constants) (stack : Stack) (word : String) :
    evalWords table stack [word] = evalWord table stack word := by
  rw [evalWords_cons]
  cases evalWord table stack word <;> rfl

theorem evalWords_append (table : Constants) (stack : Stack) (xs ys : List String) :
    evalWords table stack (xs ++ ys) =
      (evalWords table stack xs).bind fun next => evalWords table next ys := by
  induction xs generalizing stack with
  | nil => rfl
  | cons word xs ih =>
      rw [List.cons_append, evalWords_cons, evalWords_cons]
      cases evalWord table stack word with
      | error error => rfl
      | ok next => exact ih next

theorem evalWords_binary (table : Constants) (stack : Stack) (op : BinaryOperator)
    (left right : Tree) :
    evalWords table stack (Tree.binary op left right).words =
      ((evalWords table stack left.words).bind fun next =>
        evalWords table next right.words).bind fun next => apply op.operator next := by
  have words : (Tree.binary op left right).words =
      left.words ++ right.words ++ [op.operator.word] := by
    simp [Tree.words, Tree.tokens, Token.word]
  rw [words, evalWords_append, evalWords_append]
  simp only [evalWords_singleton, evalWord_operator]

theorem evalWords_abs (table : Constants) (stack : Stack) (operand : Tree) :
    evalWords table stack (Tree.abs operand).words =
      (evalWords table stack operand.words).bind fun next => apply .abs next := by
  have words : (Tree.abs operand).words = operand.words ++ [Operator.abs.word] := by
    simp [Tree.words, Tree.tokens, Token.word]
  rw [words, evalWords_append]
  simp only [evalWords_singleton, evalWord_operator]

/-! ## From a tree to its value -/

/-- What comes of a tree: its value if no token has a fault, else the first. -/
inductive Outcome (scope : Scope) (tree : Tree) : Except EvalError Int64 → Prop where
  | value {n : Int64} (clear : tree.fault scope = none)
      (exact : tree.value scope = some n.toInt) : Outcome scope tree (.ok n)
  | fault {error : EvalError} (first : tree.fault scope = some error) :
      Outcome scope tree (.error error)

theorem outcome_literal (scope : Scope) (leaf : Integer.Literal) :
    ∃ outcome, Outcome scope (.literal leaf) outcome ∧
      ∀ stack, push leaf.word leaf.exact stack = outcome.map (· :: stack) := by
  rcases push_cases leaf.word leaf.exact with ⟨w, same, clear, pushed⟩ | ⟨excess, pushed⟩
  · refine ⟨.ok w, .value ?_ (congrArg some same.symm), pushed⟩
    simp [Tree.fault, Tree.subtrees, Tree.rootFault, clear]
  · refine ⟨.error (.overflow leaf.word), .fault ?_, pushed⟩
    simp [Tree.fault, Tree.subtrees, Tree.rootFault, excess]

theorem outcome_name (scope : Scope) (leaf : Name) {n : Int64}
    (found : scope leaf.word = some n) : Outcome scope (.name leaf) (.ok n) := by
  refine .value ?_ (by simp [Tree.value, found])
  simp [Tree.fault, Tree.subtrees, Tree.rootFault, found]

theorem outcome_binary {scope : Scope} (op : BinaryOperator) {left right : Tree} {a b : Int64}
    (ofLeft : Outcome scope left (.ok a)) (ofRight : Outcome scope right (.ok b)) :
    ∃ outcome, Outcome scope (.binary op left right) outcome ∧
      ∀ stack, apply op.operator (b :: a :: stack) = outcome.map (· :: stack) := by
  obtain ⟨leftClear, leftValue⟩ := ofLeft
  obtain ⟨rightClear, rightValue⟩ := ofRight
  have exact := Tree.value_binary_of_values op leftValue rightValue
  have first : (Tree.binary op left right).fault scope =
      Tree.overflow? op.operator.word (op.exact a.toInt b.toInt) := by
    rw [Tree.fault_binary, leftClear, rightClear, Tree.rootFault, exact, Option.none_or,
      Option.none_or, Option.bind_some]
  rcases push_cases op.operator.word (op.exact a.toInt b.toInt) with
    ⟨w, same, clear, pushed⟩ | ⟨excess, pushed⟩
  · refine ⟨.ok w, .value (first.trans clear) (by rw [exact, same]), ?_⟩
    intro stack
    rw [apply_binary, pushed]
    rfl
  · refine ⟨.error (.overflow op.operator.word), .fault (first.trans excess), ?_⟩
    intro stack
    rw [apply_binary, pushed]
    rfl

theorem outcome_binary_of_left {scope : Scope} (op : BinaryOperator) {left : Tree} (right : Tree)
    {error : EvalError} (ofLeft : Outcome scope left (.error error)) :
    Outcome scope (.binary op left right) (.error error) := by
  cases ofLeft with
  | fault first => exact .fault (by simp [Tree.fault_binary, first])

theorem outcome_binary_of_right {scope : Scope} (op : BinaryOperator) {left right : Tree}
    {a : Int64} {error : EvalError} (ofLeft : Outcome scope left (.ok a))
    (ofRight : Outcome scope right (.error error)) :
    Outcome scope (.binary op left right) (.error error) := by
  obtain ⟨leftClear, _⟩ := ofLeft
  cases ofRight with
  | fault first => exact .fault (by simp [Tree.fault_binary, leftClear, first])

theorem outcome_abs_of_operand {scope : Scope} {operand : Tree} {error : EvalError}
    (ofOperand : Outcome scope operand (.error error)) :
    Outcome scope (.abs operand) (.error error) := by
  cases ofOperand with
  | fault first => exact .fault (by simp [Tree.fault_abs, first])

theorem outcome_abs {scope : Scope} {operand : Tree} {a : Int64}
    (ofOperand : Outcome scope operand (.ok a)) :
    ∃ outcome, Outcome scope (.abs operand) outcome ∧
      ∀ stack, apply .abs (a :: stack) = outcome.map (· :: stack) := by
  obtain ⟨operandClear, operandValue⟩ := ofOperand
  have exact := Tree.value_abs_of_value operandValue
  have first : (Tree.abs operand).fault scope =
      Tree.overflow? Operator.abs.word (a.toInt.natAbs : Int) := by
    rw [Tree.fault_abs, operandClear, Tree.rootFault, exact, Option.none_or, Option.bind_some]
  rcases push_cases Operator.abs.word (a.toInt.natAbs : Int) with
    ⟨w, same, clear, pushed⟩ | ⟨excess, pushed⟩
  · exact ⟨.ok w, .value (first.trans clear) (by rw [exact, same]), pushed⟩
  · exact ⟨.error (.overflow Operator.abs.word), .fault (first.trans excess), pushed⟩

/-- On top of any stack, the words of a tree put what comes of it. -/
theorem evalWords_tree (table : Constants) (tree : Tree) :
    ∃ outcome, Outcome table.integer? tree outcome ∧
      ∀ stack, evalWords table stack tree.words = outcome.map (· :: stack) := by
  induction tree with
  | literal leaf =>
      obtain ⟨outcome, holds, pushed⟩ := outcome_literal table.integer? leaf
      refine ⟨outcome, holds, ?_⟩
      intro stack
      rw [← pushed, ← evalWord_literal table]
      exact evalWords_singleton table stack leaf.word
  | name leaf =>
      cases found : table.integer? leaf.word with
      | some n =>
          refine ⟨.ok n, outcome_name _ leaf found, ?_⟩
          intro stack
          refine (evalWords_singleton table stack leaf.word).trans ?_
          rw [evalWord_name, found]
          rfl
      | none =>
          refine ⟨.error (.unknownToken leaf.word), .fault ?_, ?_⟩
          · simp [Tree.fault, Tree.subtrees, Tree.rootFault, found]
          · intro stack
            refine (evalWords_singleton table stack leaf.word).trans ?_
            rw [evalWord_name, found]
            rfl
  | binary op left right leftIH rightIH =>
      obtain ⟨leftOutcome, ofLeft, leftRun⟩ := leftIH
      obtain ⟨rightOutcome, ofRight, rightRun⟩ := rightIH
      cases leftOutcome with
      | error error =>
          refine ⟨.error error, outcome_binary_of_left op right ofLeft, ?_⟩
          intro stack
          rw [evalWords_binary, leftRun]
          simp only [Attempt.map_error, Attempt.bind_error]
      | ok a =>
          cases rightOutcome with
          | error error =>
              refine ⟨.error error, outcome_binary_of_right op ofLeft ofRight, ?_⟩
              intro stack
              rw [evalWords_binary, leftRun, Attempt.map_ok, Attempt.bind_ok, rightRun,
                Attempt.map_error, Attempt.bind_error, Attempt.map_error]
          | ok b =>
              obtain ⟨outcome, holds, applied⟩ := outcome_binary op ofLeft ofRight
              refine ⟨outcome, holds, ?_⟩
              intro stack
              rw [evalWords_binary, leftRun, ← applied, Attempt.map_ok, Attempt.bind_ok, rightRun,
                Attempt.map_ok, Attempt.bind_ok]
  | abs operand ih =>
      obtain ⟨operandOutcome, ofOperand, operandRun⟩ := ih
      cases operandOutcome with
      | error error =>
          refine ⟨.error error, outcome_abs_of_operand ofOperand, ?_⟩
          intro stack
          rw [evalWords_abs, operandRun]
          simp only [Attempt.map_error, Attempt.bind_error]
      | ok a =>
          obtain ⟨outcome, holds, applied⟩ := outcome_abs ofOperand
          refine ⟨outcome, holds, ?_⟩
          intro stack
          rw [evalWords_abs, operandRun, ← applied, Attempt.map_ok, Attempt.bind_ok]

/-! ## From the words taken to trees -/

/-- The operands waiting are the values of the trees. -/
def Holds (scope : Scope) : List Tree → Stack → Prop :=
  List.Forall₂ fun tree n => Outcome scope tree (.ok n)

/-- The words of the trees, the last tree first: the order in which they were taken. -/
def takenWords (trees : List Tree) : List String := trees.reverse.flatMap Tree.words

@[simp] theorem takenWords_cons (tree : Tree) (trees : List Tree) :
    takenWords (tree :: trees) = takenWords trees ++ tree.words := by
  simp [takenWords]

theorem holds_of_outcome {scope : Scope} {trees : List Tree} {stack next : Stack} {tree : Tree}
    (holds : Holds scope trees stack)
    (yields : ∃ outcome, Outcome scope tree outcome ∧ .ok next = outcome.map (· :: stack)) :
    Holds scope (tree :: trees) next := by
  obtain ⟨outcome, comes, same⟩ := yields
  cases outcome with
  | error error => cases same
  | ok n =>
      cases same
      exact List.Forall₂.cons comes holds

theorem holds_of_evalWord {table : Constants} {token : Token} {stack next : Stack}
    {trees : List Tree} (holds : Holds table.integer? trees stack)
    (taken : evalWord table stack token.word = .ok next) :
    ∃ later, Holds table.integer? later next ∧
      takenWords later = takenWords trees ++ [token.word] := by
  cases token with
  | literal leaf =>
      obtain ⟨outcome, comes, pushed⟩ := outcome_literal table.integer? leaf
      have result := (evalWord_literal table stack leaf).symm.trans taken
      refine ⟨.literal leaf :: trees, holds_of_outcome holds ⟨outcome, comes, ?_⟩, ?_⟩
      · rw [← pushed, result]
      · simp [Tree.words, Tree.tokens]
  | name leaf =>
      have result := (evalWord_name table stack leaf).symm.trans taken
      cases found : table.integer? leaf.word with
      | none =>
          rw [found] at result
          cases result
      | some n =>
          rw [found] at result
          cases result
          have holdsName := outcome_name _ leaf found
          refine ⟨.name leaf :: trees, List.Forall₂.cons holdsName holds, ?_⟩
          simp [Tree.words, Tree.tokens]
  | operator op =>
      have result := (evalWord_operator table stack op).symm.trans taken
      by_cases isAbs : op = .abs
      · subst isAbs
        obtain ⟨a, rest, rfl⟩ := apply_abs_eq_ok result
        cases holds with
        | @cons operand _ trees _ ofOperand holds =>
            obtain ⟨outcome, comes, applied⟩ := outcome_abs ofOperand
            refine ⟨.abs operand :: trees, holds_of_outcome holds ⟨outcome, comes, ?_⟩, ?_⟩
            · rw [← applied, result]
            · simp [Tree.words, Tree.tokens]
      · obtain ⟨binary, rfl⟩ : ∃ binary : BinaryOperator, binary.operator = op := by
          cases op with
          | add => exact ⟨.add, rfl⟩
          | sub => exact ⟨.sub, rfl⟩
          | mul => exact ⟨.mul, rfl⟩
          | abs => exact absurd rfl isAbs
        obtain ⟨a, b, rest, rfl⟩ := apply_binary_eq_ok result
        cases holds with
        | @cons right _ trees _ ofRight holds =>
            cases holds with
            | @cons left _ trees _ ofLeft holds =>
                obtain ⟨outcome, comes, applied⟩ := outcome_binary binary ofLeft ofRight
                refine ⟨.binary binary left right :: trees,
                  holds_of_outcome holds ⟨outcome, comes, ?_⟩, ?_⟩
                · rw [← applied, result]
                · simp [Tree.words, Tree.tokens]

theorem holds_of_evalWords {table : Constants} {words : List String} {stack final : Stack}
    {trees : List Tree} (solid : ∀ word ∈ words, Text.Solid word.toList)
    (holds : Holds table.integer? trees stack)
    (run : evalWords table stack words = .ok final) :
    ∃ later, Holds table.integer? later final ∧
      takenWords later = takenWords trees ++ words := by
  induction words generalizing stack trees with
  | nil =>
      cases run
      exact ⟨trees, holds, by simp⟩
  | cons word words ih =>
      rw [evalWords_cons] at run
      cases taken : evalWord table stack word with
      | error error =>
          rw [taken] at run
          cases run
      | ok next =>
          rw [taken] at run
          obtain ⟨token, rfl⟩ := Token.exists_of_solid (solid word (by simp))
          obtain ⟨middle, middleHolds, middleWords⟩ := holds_of_evalWord holds taken
          obtain ⟨later, laterHolds, laterWords⟩ :=
            ih (fun other member => solid other (by simp [member])) middleHolds run
          exact ⟨later, laterHolds, by simp [laterWords, middleWords]⟩

/-! ## Whole expressions -/

theorem eval_eq_bind (table : Constants) (text : String) :
    eval table text = (evalWords table [] (Text.wordsOf text)).bind result := rfl

theorem eval_of_words (table : Constants) {tree : Tree} {text : String}
    (words : Text.wordsOf text = tree.words) :
    Outcome table.integer? tree (eval table text) := by
  obtain ⟨outcome, comes, run⟩ := evalWords_tree table tree
  have whole : eval table text = outcome := by
    rw [eval_eq_bind, words, run]
    cases outcome <;> rfl
  rw [whole]
  exact comes

theorem exists_tree_of_eval {table : Constants} {text : String} {n : Int64}
    (evaluated : eval table text = .ok n) :
    ∃ tree : Tree, Text.wordsOf text = tree.words ∧ Outcome table.integer? tree (.ok n) := by
  rw [eval_eq_bind] at evaluated
  cases run : evalWords table [] (Text.wordsOf text) with
  | error error =>
      rw [run] at evaluated
      cases evaluated
  | ok final =>
      rw [run] at evaluated
      obtain ⟨trees, holds, words⟩ :=
        holds_of_evalWords (fun word member => Text.solid_of_mem_wordsOf member)
          List.Forall₂.nil run
      match final, evaluated with
      | [_], rfl =>
          cases holds with
          | @cons tree _ _ _ comes holds =>
              cases holds
              exact ⟨tree, by simpa [takenWords] using words.symm, comes⟩

/-- Evaluation accepts exactly the postfix notation of expression trees, however
it is spaced, and computes the exact value of the tree. -/
theorem eval_computes_trees (table : Constants) :
    (∀ (tree : Tree) (text : String), Text.Spaced tree.words text.toList →
      (∀ n : Int64, eval table text = .ok n ↔
        tree.InRangeThroughout table.integer? ∧
          tree.value table.integer? = some n.toInt) ∧
      (¬ tree.InRangeThroughout table.integer? →
        ∃ error, tree.fault table.integer? = some error ∧
          eval table text = .error error)) ∧
    ∀ (text : String) (n : Int64), eval table text = .ok n →
      ∃ tree : Tree, Text.wordsOf text = tree.words ∧
        (∀ other : Tree, Text.wordsOf text = other.words → other = tree) ∧
        tree.InRangeThroughout table.integer? ∧
        tree.value table.integer? = some n.toInt := by
  refine ⟨?_, ?_⟩
  · intro tree text spaced
    have words : Text.wordsOf text = tree.words :=
      (Text.wordsOf_eq_iff_spaced fun _ member => Tree.solid_of_mem_words member).2 spaced
    have comes := eval_of_words table words
    cases evaluated : eval table text with
    | ok m =>
        rw [evaluated] at comes
        obtain ⟨clear, exact⟩ := comes
        have inRange := Tree.fault_eq_none_iff.1 clear
        refine ⟨?_, fun outOfRange => absurd inRange outOfRange⟩
        intro n
        rw [exact]
        constructor
        · intro same
          cases same
          exact ⟨inRange, rfl⟩
        · rintro ⟨_, same⟩
          rw [Int64.toInt.inj (Option.some.inj same)]
    | error error =>
        rw [evaluated] at comes
        cases comes with
        | fault first =>
            refine ⟨?_, fun _ => ⟨error, first, rfl⟩⟩
            intro n
            constructor
            · intro same
              cases same
            · rintro ⟨inRange, _⟩
              rw [Tree.fault_eq_none_iff.2 inRange] at first
              cases first
  · intro text n evaluated
    obtain ⟨tree, words, ⟨clear, exact⟩⟩ := exists_tree_of_eval evaluated
    refine ⟨tree, words, ?_, Tree.fault_eq_none_iff.1 clear, exact⟩
    intro other otherWords
    exact Tree.words_injective (otherWords.symm.trans words)

def areaLessTwo : Tree :=
  .binary .sub (.name (.ofWord "AREA" (by decide) (by decide) (by decide)))
    (.literal ⟨false, ['2'], by decide, by simp⟩)

theorem eval_area_less_two :
    Text.Spaced ["AREA", "2", "-"] " AREA\t2  -\n".toList ∧
      eval (Constants.empty.define "AREA" (.integer 5)).1 " AREA\t2  -\n" = .ok 3 := by
  have words : areaLessTwo.words = ["AREA", "2", "-"] := by decide
  have spaced : Text.Spaced areaLessTwo.words " AREA\t2  -\n".toList := by
    rw [words]
    have last : Text.Spaced ["-"] ([' ', ' '] ++ "-".toList ++ ['\n']) :=
      .token (List.all_eq_true.mp (by decide)) (by rintro c ⟨⟩; decide)
        (.blanks (List.all_eq_true.mp (by decide)))
    have later : Text.Spaced ["2", "-"] (['\t'] ++ "2".toList ++ _) :=
      .token (List.all_eq_true.mp (by decide)) (by rintro c ⟨⟩; decide) last
    have whole : Text.Spaced ["AREA", "2", "-"] ([' '] ++ "AREA".toList ++ _) :=
      .token (List.all_eq_true.mp (by decide)) (by rintro c ⟨⟩; decide) later
    exact whole
  refine ⟨words ▸ spaced, ?_⟩
  refine (((eval_computes_trees _).1 areaLessTwo _ spaced).1 3).2 ⟨?_, ?_⟩
  · refine Tree.fault_eq_none_iff.1 ?_
    decide
  · decide

end ConfigDecl.Expr

import ConfigDecl.Proofs.Expr.Refusal
import Mathlib

/-! # The depth of an expression

Operands deepen the stack by one and binary operators make it one less deep, so
the depth after some tokens is known without computing any value.  Tokens that can
all be processed are the postfix notations of trees, one after another, each of
which leaves one value: the depth is the number of these trees, and it is zero
only before the first token.  The errors of an expression tell the first token
that cannot be processed, with the depth there, or the depth at the end. -/

set_option autoImplicit false

namespace ConfigDecl.Expr

/-! ## Depth -/

def Token.isOperand : Token → Bool
  | .literal _ => true
  | .name _ => true
  | .operator _ => false

def Token.isBinary : Token → Bool
  | .literal _ => false
  | .name _ => false
  | .operator op => op.arity == 2

/-- The operands among the tokens less the binary operators. -/
def depth (tokens : List Token) : Int :=
  tokens.countP Token.isOperand - tokens.countP Token.isBinary

theorem depth_append (xs ys : List Token) : depth (xs ++ ys) = depth xs + depth ys := by
  simp only [depth, List.countP_append]
  omega

theorem depth_operator (op : Operator) : depth [.operator op] = 1 - op.arity := by
  cases op <;> rfl

theorem depth_tree (tree : Tree) : depth tree.tokens = 1 := by
  induction tree with
  | literal leaf => rfl
  | name leaf => rfl
  | binary op left right leftIH rightIH =>
      rw [Tree.tokens, depth_append, depth_append, leftIH, rightIH, depth_operator,
        op.arity_operator]
      rfl
  | abs operand ih =>
      rw [Tree.tokens, depth_append, ih, depth_operator]
      rfl

theorem depth_forest (forest : List Tree) :
    depth (forest.flatMap Tree.tokens) = forest.length := by
  induction forest with
  | nil => rfl
  | cons tree forest ih =>
      rw [List.flatMap_cons, depth_append, depth_tree, ih, List.length_cons]
      omega

/-! ## What can be processed -/

/-- Every token can be processed: together they are the postfix notations of trees that
are in range throughout. -/
def Processable (scope : Scope) (tokens : List Token) : Prop :=
  ∃ forest : List Tree, tokens = forest.flatMap Tree.tokens ∧
    ∀ tree ∈ forest, tree.InRangeThroughout scope

/-- This token of the sequence is the first that cannot be processed. -/
structure StopsAt (scope : Scope) (tokens before : List Token) (token : Token) : Prop where
  begins : before ++ [token] <+: tokens
  processable : Processable scope before
  stuck : ¬ Processable scope (before ++ [token])

/-- The last token puts out a value: that of the tree whose root it is, among all
integers. -/
def Yields (scope : Scope) (tokens : List Token) (n : Int) : Prop :=
  ∃ (earlier : List Token) (tree : Tree), tokens = earlier ++ tree.tokens ∧
    tree.value scope = some n

variable {table : Constants} {tokens before : List Token} {token : Token}

/-- Tokens that can be processed never use up all their operands. -/
theorem Processable.depth_eq_zero_iff {scope : Scope} (processable : Processable scope tokens) :
    depth tokens = 0 ↔ tokens = [] := by
  obtain ⟨forest, rfl, _⟩ := processable
  constructor
  · intro empty
    rw [depth_forest] at empty
    cases forest with
    | nil => rfl
    | cons tree forest =>
        rw [List.length_cons] at empty
        omega
  · intro empty
    rw [empty]
    rfl

/-! ## Processing is evaluating -/

theorem exists_forest_of_evalWords {final : Stack}
    (run : evalWords table [] (tokens.map Token.word) = .ok final) :
    ∃ trees, Holds table.integer? trees final ∧ tokens = trees.reverse.flatMap Tree.tokens := by
  obtain ⟨trees, holds, words⟩ :=
    holds_of_evalWords (fun _ member => Token.solid_of_mem_map member) List.Forall₂.nil run
  refine ⟨trees, holds, ?_⟩
  have sameWords : (trees.reverse.flatMap Tree.tokens).map Token.word = tokens.map Token.word := by
    rw [List.map_flatMap]
    exact words
  exact ((List.map_inj_right fun _ _ equal => Token.word_injective equal).1 sameWords).symm

theorem inRangeThroughout_of_outcome {scope : Scope} {tree : Tree} {n : Int64}
    (comes : Outcome scope tree (.ok n)) : tree.InRangeThroughout scope := by
  cases comes with
  | value clear exact => exact Tree.fault_eq_none_iff.1 clear

theorem inRangeThroughout_of_holds {scope : Scope} {trees : List Tree} {stack : Stack}
    (holds : Holds scope trees stack) : ∀ tree ∈ trees, tree.InRangeThroughout scope := by
  have both : List.Forall₂ (fun tree n => tree.InRangeThroughout scope ∧
      Outcome scope tree (.ok n)) trees stack :=
    List.Forall₂.imp (fun _ _ comes => ⟨inRangeThroughout_of_outcome comes, comes⟩) holds
  exact ((List.forall₂_and_left trees stack).1 both).1

theorem evalWords_of_inRange {tree : Tree} (inRange : tree.InRangeThroughout table.integer?)
    (stack : Stack) : ∃ n : Int64, evalWords table stack tree.words = .ok (n :: stack) := by
  obtain ⟨outcome, comes, run⟩ := evalWords_tree table tree
  cases comes with
  | value clear exact => exact ⟨_, run stack⟩
  | fault first =>
      rw [Tree.fault_eq_none_iff.2 inRange] at first
      cases first

theorem exists_evalWords_forest {forest : List Tree}
    (inRange : ∀ tree ∈ forest, tree.InRangeThroughout table.integer?) (stack : Stack) :
    ∃ final, evalWords table stack ((forest.flatMap Tree.tokens).map Token.word) = .ok final := by
  induction forest generalizing stack with
  | nil => exact ⟨stack, rfl⟩
  | cons tree forest ih =>
      obtain ⟨n, first⟩ := evalWords_of_inRange (inRange tree List.mem_cons_self) stack
      obtain ⟨final, later⟩ :=
        ih (fun other member => inRange other (List.mem_cons_of_mem tree member)) (n :: stack)
      refine ⟨final, ?_⟩
      rw [List.flatMap_cons, List.map_append, evalWords_append]
      rw [Tree.words] at first
      rw [first, Attempt.bind_ok]
      exact later

theorem processable_iff_evalWords :
    Processable table.integer? tokens ↔
      ∃ final, evalWords table [] (tokens.map Token.word) = .ok final := by
  constructor
  · intro processable
    obtain ⟨forest, rfl, inRange⟩ := processable
    exact exists_evalWords_forest inRange []
  · intro processed
    obtain ⟨final, run⟩ := processed
    obtain ⟨trees, holds, notations⟩ := exists_forest_of_evalWords run
    refine ⟨trees.reverse, notations, ?_⟩
    intro tree member
    exact inRangeThroughout_of_holds holds tree (List.mem_reverse.1 member)

theorem length_of_evalWords {final : Stack}
    (run : evalWords table [] (tokens.map Token.word) = .ok final) :
    (final.length : Int) = depth tokens := by
  obtain ⟨trees, holds, rfl⟩ := exists_forest_of_evalWords run
  rw [depth_forest, List.length_reverse, holds.length_eq]

theorem evalWords_begin {later : List Token} {final : Stack}
    (run : evalWords table [] ((before ++ later).map Token.word) = .ok final) :
    ∃ reached, evalWords table [] (before.map Token.word) = .ok reached := by
  rw [List.map_append, evalWords_append, Attempt.bind_eq_ok_iff] at run
  obtain ⟨reached, first, _⟩ := run
  exact ⟨reached, first⟩

/-! ## The token that stops an evaluation -/

/-- An evaluation that is stopped is stopped at the first token that cannot be
processed. -/
theorem stopsAt_iff {reached : Stack}
    (run : evalWords table [] (before.map Token.word) = .ok reached) :
    StopsAt table.integer? tokens before token ↔
      (∃ after, tokens = before ++ token :: after) ∧
        ∃ error, Refused table.integer? reached token error := by
  have next : evalWords table [] ((before ++ [token]).map Token.word) =
      evalWord table reached token.word := by
    rw [List.map_append, evalWords_append, run, Attempt.bind_ok]
    exact evalWords_singleton table reached token.word
  have begins : before ++ [token] <+: tokens ↔ ∃ after, tokens = before ++ token :: after := by
    simp [List.IsPrefix, eq_comm]
  constructor
  · intro stops
    refine ⟨begins.1 stops.begins, ?_⟩
    cases taken : evalWord table reached token.word with
    | ok final => exact absurd (processable_iff_evalWords.2 ⟨final, next.trans taken⟩) stops.stuck
    | error error => exact ⟨error, evalWord_eq_error_iff.1 taken⟩
  · intro refusal
    obtain ⟨begun, error, refused⟩ := refusal
    refine ⟨begins.2 begun, processable_iff_evalWords.2 ⟨reached, run⟩, ?_⟩
    intro processable
    obtain ⟨final, taken⟩ := processable_iff_evalWords.1 processable
    rw [next, evalWord_eq_error_iff.2 refused] at taken
    cases taken

theorem eval_eq_error_iff_stopsAt {text : String}
    (words : Text.wordsOf text = tokens.map Token.word) {error : EvalError}
    (other : ∀ left, error ≠ .malformed left) :
    eval table text = .error error ↔
      ∃ before token reached, StopsAt table.integer? tokens before token ∧
        evalWords table [] (before.map Token.word) = .ok reached ∧
        Refused table.integer? reached token error := by
  rw [eval_eq_error_iff other, words, evalWords_eq_error_iff]
  constructor
  · intro stopped
    obtain ⟨before, token, after, reached, split, run, refused⟩ := stopped
    exact ⟨before, token, reached, (stopsAt_iff run).2 ⟨⟨after, split⟩, error, refused⟩, run,
      refused⟩
  · intro stopped
    obtain ⟨before, token, reached, stops, run, refused⟩ := stopped
    obtain ⟨⟨after, split⟩, _⟩ := (stopsAt_iff run).1 stops
    exact ⟨before, token, after, reached, split, run, refused⟩

/-- Where a result or a literal is out of range, so is the value of the tree. -/
theorem yields_of_refused {reached : Stack} {word : String}
    (run : evalWords table [] (before.map Token.word) = .ok reached)
    (refused : Refused table.integer? reached token (.overflow word)) :
    token.word = word ∧
      ∃ n, Yields table.integer? (before ++ [token]) n ∧ ¬ Integer.InRange n := by
  obtain ⟨trees, holds, rfl⟩ := exists_forest_of_evalWords run
  cases refused with
  | @literal leaf outOfRange =>
      exact ⟨rfl, leaf.exact, ⟨_, .literal leaf, rfl, rfl⟩, outOfRange⟩
  | @binary op a b rest operands outOfRange =>
      subst operands
      obtain ⟨right, _, ⟨_, rightValue⟩, below, rfl⟩ := List.forall₂_cons_right_iff.1 holds
      obtain ⟨left, trees, ⟨_, leftValue⟩, _, rfl⟩ := List.forall₂_cons_right_iff.1 below
      have exact := Tree.value_binary_of_values op leftValue rightValue
      refine ⟨rfl, op.exact a.toInt b.toInt,
        ⟨trees.reverse.flatMap Tree.tokens, .binary op left right, ?_, exact⟩, outOfRange⟩
      simp [Tree.tokens]
  | @abs a rest operands outOfRange =>
      subst operands
      obtain ⟨operand, trees, ⟨_, operandValue⟩, _, rfl⟩ := List.forall₂_cons_right_iff.1 holds
      have exact := Tree.value_abs_of_value operandValue
      refine ⟨rfl, a.toInt.natAbs,
        ⟨trees.reverse.flatMap Tree.tokens, .abs operand, ?_, exact⟩, outOfRange⟩
      simp [Tree.tokens]

theorem root_of_tokens {earlier : List Token} {tree : Tree}
    (split : before ++ [token] = earlier ++ tree.tokens) :
    before = earlier ++ tree.operandTokens ∧ token = tree.root := by
  rw [tree.tokens_eq, ← List.append_assoc] at split
  obtain ⟨operands, roots⟩ := List.append_inj' split rfl
  exact ⟨operands, by simpa using roots⟩

/-- A token that is stuck although it puts out a value is stuck at the range. -/
theorem overflow_of_yields {reached : Stack} {error : EvalError} {n : Int}
    (run : evalWords table [] (before.map Token.word) = .ok reached)
    (yields : Yields table.integer? (before ++ [token]) n)
    (refused : Refused table.integer? reached token error) :
    error = .overflow token.word := by
  obtain ⟨earlier, tree, split, exact⟩ := yields
  obtain ⟨operands, root⟩ := root_of_tokens split
  cases refused with
  | @short op short =>
      -- The operands of the tree have been processed, so the stack is as deep as they are
      -- many, whatever lies below: the operator cannot have come short.
      have wholeDepth := congrArg depth split
      rw [depth_append, depth_append, depth_tree, depth_operator] at wholeDepth
      have reachedDepth := length_of_evalWords run
      rw [operands] at run
      obtain ⟨below, early⟩ := evalWords_begin run
      have earlierDepth := length_of_evalWords early
      omega
  | unknown unknown =>
      cases tree with
      | literal leaf => cases root
      | name leaf =>
          cases root
          rw [Tree.value, unknown] at exact
          cases exact
      | binary op left right => cases root
      | abs operand => cases root
  | literal outOfRange => rfl
  | binary operands outOfRange => rfl
  | abs operands outOfRange => rfl

/-! ## Each kind of error -/

variable {text : String}

theorem eval_insufficientOperands_iff (words : Text.wordsOf text = tokens.map Token.word)
    {op : Operator} {available : Nat} :
    eval table text = .error (.insufficientOperands op available) ↔
      ∃ before, StopsAt table.integer? tokens before (.operator op) ∧
        depth before = available ∧ available < op.arity := by
  rw [eval_eq_error_iff_stopsAt words (by simp)]
  constructor
  · intro stopped
    obtain ⟨before, token, reached, stops, run, refused⟩ := stopped
    cases refused with
    | short short => exact ⟨before, stops, (length_of_evalWords run).symm, short⟩
  · intro few
    obtain ⟨before, stops, deep, short⟩ := few
    obtain ⟨reached, run⟩ := processable_iff_evalWords.1 stops.processable
    have length : reached.length = available := by
      have reachedDepth := length_of_evalWords run
      omega
    subst length
    exact ⟨before, .operator op, reached, stops, run, .short short⟩

theorem eval_unknownToken_iff (words : Text.wordsOf text = tokens.map Token.word)
    {word : String} :
    eval table text = .error (.unknownToken word) ↔
      ∃ before leaf, StopsAt table.integer? tokens before (.name leaf) ∧
        table.integer? leaf.word = none ∧ leaf.word = word := by
  rw [eval_eq_error_iff_stopsAt words (by simp)]
  constructor
  · intro stopped
    obtain ⟨before, token, reached, stops, run, refused⟩ := stopped
    cases refused with
    | unknown unknown => exact ⟨before, _, stops, unknown, rfl⟩
  · intro meaningless
    obtain ⟨before, leaf, stops, unknown, rfl⟩ := meaningless
    obtain ⟨reached, run⟩ := processable_iff_evalWords.1 stops.processable
    exact ⟨before, .name leaf, reached, stops, run, .unknown unknown⟩

theorem eval_overflow_iff (words : Text.wordsOf text = tokens.map Token.word) {word : String} :
    eval table text = .error (.overflow word) ↔
      ∃ before token n, StopsAt table.integer? tokens before token ∧
        Yields table.integer? (before ++ [token]) n ∧ ¬ Integer.InRange n ∧
        token.word = word := by
  rw [eval_eq_error_iff_stopsAt words (by simp)]
  constructor
  · intro stopped
    obtain ⟨before, token, reached, stops, run, refused⟩ := stopped
    obtain ⟨named, n, yields, outOfRange⟩ := yields_of_refused run refused
    exact ⟨before, token, n, stops, yields, outOfRange, named⟩
  · intro excess
    obtain ⟨before, token, n, stops, yields, outOfRange, rfl⟩ := excess
    obtain ⟨reached, run⟩ := processable_iff_evalWords.1 stops.processable
    obtain ⟨_, error, refused⟩ := (stopsAt_iff run).1 stops
    cases overflow_of_yields run yields refused
    exact ⟨before, token, reached, stops, run, refused⟩

theorem eval_malformed_iff (words : Text.wordsOf text = tokens.map Token.word) {left : Nat} :
    eval table text = .error (.malformed left) ↔
      Processable table.integer? tokens ∧ depth tokens = left ∧ left ≠ 1 := by
  rw [eval_eq_malformed_iff, words, processable_iff_evalWords]
  constructor
  · intro ended
    obtain ⟨final, run, rfl, several⟩ := ended
    exact ⟨⟨final, run⟩, (length_of_evalWords run).symm, several⟩
  · intro processed
    obtain ⟨⟨final, run⟩, deep, several⟩ := processed
    have length := length_of_evalWords run
    exact ⟨final, run, by omega, several⟩

theorem Operator.arity_le_two (op : Operator) : op.arity ≤ 2 := by
  cases op <;> simp [arity]

/-- Without any operand only the first token is left, and with one only a binary
operator. -/
theorem short_operator (words : Text.wordsOf text = tokens.map Token.word)
    {op : Operator} {available : Nat}
    (short : eval table text = .error (.insufficientOperands op available)) :
    (available = 0 → tokens.head? = some (.operator op)) ∧ (available = 1 → op.arity = 2) := by
  obtain ⟨before, stops, deep, few⟩ := (eval_insufficientOperands_iff words).1 short
  refine ⟨?_, ?_⟩
  · rintro rfl
    have empty : before = [] := stops.processable.depth_eq_zero_iff.1 deep
    subst empty
    obtain ⟨after, rfl⟩ := stops.begins
    rfl
  · rintro rfl
    have small := op.arity_le_two
    omega

theorem eval_malformed_zero_iff (words : Text.wordsOf text = tokens.map Token.word) :
    eval table text = .error (.malformed 0) ↔ tokens = [] := by
  rw [eval_malformed_iff words]
  constructor
  · intro ended
    obtain ⟨processable, deep, _⟩ := ended
    exact processable.depth_eq_zero_iff.1 deep
  · rintro rfl
    exact ⟨⟨[], rfl, fun _ member => nomatch member⟩, rfl, by decide⟩

/-! ## More words and fewer -/

/-- An evaluation that is stopped does not come to the words behind. -/
theorem eval_of_longer {error : EvalError} (other : ∀ left, error ≠ .malformed left)
    (stopped : eval table text = .error error) {longer : String} {more : List String}
    (appended : Text.wordsOf longer = Text.wordsOf text ++ more) :
    eval table longer = .error error := by
  rw [eval_eq_error_iff other] at stopped ⊢
  rw [appended, evalWords_append, stopped, Attempt.bind_error]

theorem eval_of_shorter (stops : StopsAt table.integer? tokens before token) {shorter : String}
    (begins : Text.wordsOf shorter <+: before.map Token.word) :
    (∃ n, eval table shorter = .ok n) ∨ ∃ left, eval table shorter = .error (.malformed left) := by
  obtain ⟨reached, run⟩ := processable_iff_evalWords.1 stops.processable
  obtain ⟨later, whole⟩ := begins
  rw [← whole, evalWords_append, Attempt.bind_eq_ok_iff] at run
  obtain ⟨final, early, _⟩ := run
  exact exists_evalWords_iff.1 ⟨final, early⟩

/-- An expression fails for want of operands exactly if the first token that cannot
be processed is an operator and the depth there, which the error tells, is less than
it takes.  It fails with an unknown token or an overflow exactly if that token means no
integer or puts out one that is out of range.  It is malformed exactly if all tokens
can be processed and do not leave one value; the error tells how many they leave, and
these are none only if there are no tokens.  What stops it stops every longer
expression too, and none that ends before that token. -/
theorem eval_errors_tell_depth (table : Constants) (text : String) :
    ∃ tokens : List Token, Text.wordsOf text = tokens.map Token.word ∧
      (∀ op available, eval table text = .error (.insufficientOperands op available) ↔
        ∃ before, StopsAt table.integer? tokens before (.operator op) ∧
          depth before = available ∧ available < op.arity) ∧
      (∀ op available, eval table text = .error (.insufficientOperands op available) →
        (available = 0 → tokens.head? = some (.operator op)) ∧
        (available = 1 → op.arity = 2)) ∧
      (∀ word, eval table text = .error (.unknownToken word) ↔
        ∃ before leaf, StopsAt table.integer? tokens before (.name leaf) ∧
          table.integer? leaf.word = none ∧ leaf.word = word) ∧
      (∀ word, eval table text = .error (.overflow word) ↔
        ∃ before token n, StopsAt table.integer? tokens before token ∧
          Yields table.integer? (before ++ [token]) n ∧ ¬ Integer.InRange n ∧
          token.word = word) ∧
      (∀ left, eval table text = .error (.malformed left) ↔
        Processable table.integer? tokens ∧ depth tokens = left ∧ left ≠ 1) ∧
      (eval table text = .error (.malformed 0) ↔ tokens = []) ∧
      (∀ error, (∀ left, error ≠ .malformed left) → eval table text = .error error →
        ∀ longer more, Text.wordsOf longer = Text.wordsOf text ++ more →
          eval table longer = .error error) ∧
      ∀ before token, StopsAt table.integer? tokens before token →
        ∀ shorter, Text.wordsOf shorter <+: before.map Token.word →
          (∃ n, eval table shorter = .ok n) ∨
            ∃ left, eval table shorter = .error (.malformed left) := by
  obtain ⟨tokens, words⟩ := exists_tokens text
  refine ⟨tokens, words, fun op available => eval_insufficientOperands_iff words,
    fun op available short => short_operator words short,
    fun word => eval_unknownToken_iff words, fun word => eval_overflow_iff words,
    fun left => eval_malformed_iff words, eval_malformed_zero_iff words, ?_, ?_⟩
  · intro error other stopped longer more appended
    exact eval_of_longer other stopped appended
  · intro before token stops shorter begins
    exact eval_of_shorter stops begins

theorem eval_short_of_operand :
    eval ∅ "7 2 - +" = .error (.insufficientOperands .add 1) ∧
      eval ∅ "7 2 - + nope 99999999999999999999" = .error (.insufficientOperands .add 1) := by
  have short : eval ∅ "7 2 - +" = .error (.insufficientOperands .add 1) := by cbv
  obtain ⟨tokens, _, _, _, _, _, _, _, longer, _⟩ := eval_errors_tell_depth ∅ "7 2 - +"
  have appended : Text.wordsOf "7 2 - + nope 99999999999999999999" =
      Text.wordsOf "7 2 - +" ++ ["nope", "99999999999999999999"] := by cbv
  exact ⟨short, longer _ (by simp) short _ _ appended⟩

end ConfigDecl.Expr

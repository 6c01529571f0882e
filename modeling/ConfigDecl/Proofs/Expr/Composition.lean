import ConfigDecl.Proofs.Expr.Refusal
import Mathlib

/-! # Composition of expressions

Words that have a value by themselves never take an operand from below: on any
stack they put this value on top, and nothing else happens.  So a part of an
expression may be replaced by its value, and the rest comes out as before, errors
and depths included.  A part that refers to no integer or leaves the range fails
the same way in every expression that gets as far. -/

set_option autoImplicit false

namespace ConfigDecl.Expr

variable {table : Constants}

/-! ## What lies below -/

theorem push_above (word : String) (n : Int) (stack below : Stack) :
    push word n (stack ++ below) = (push word n stack).map (· ++ below) := by
  rcases push_cases word n with ⟨w, _, _, pushed⟩ | ⟨_, pushed⟩
  · rw [pushed, pushed]
    rfl
  · rw [pushed, pushed]
    rfl

theorem apply_above {op : Operator} {stack : Stack} (enough : op.arity ≤ stack.length)
    (below : Stack) : apply op (stack ++ below) = (apply op stack).map (· ++ below) := by
  obtain ⟨binary, rfl⟩ | rfl := op.binary_or_abs
  · obtain ⟨a, b, rest, rfl⟩ := exists_operands_binary enough
    rw [List.cons_append, List.cons_append, apply_binary, apply_binary]
    exact push_above _ _ rest below
  · obtain ⟨a, rest, rfl⟩ := exists_operand_abs enough
    rw [List.cons_append, apply_abs, apply_abs]
    exact push_above _ _ rest below

theorem evalWord_above (table : Constants) (token : Token) (stack below : Stack) :
    (∃ op, evalWord table stack token.word = .error (.insufficientOperands op stack.length)) ∨
      evalWord table (stack ++ below) token.word =
        (evalWord table stack token.word).map (· ++ below) := by
  cases token with
  | literal leaf =>
      refine Or.inr ?_
      rw [Token.word, evalWord_literal, evalWord_literal]
      exact push_above leaf.word leaf.exact stack below
  | name leaf =>
      refine Or.inr ?_
      rw [Token.word, evalWord_name, evalWord_name]
      cases table.integer? leaf.word <;> rfl
  | operator op =>
      rw [Token.word, evalWord_operator, evalWord_operator]
      by_cases enough : op.arity ≤ stack.length
      · exact Or.inr (apply_above enough below)
      · exact Or.inl ⟨op, apply_of_short (Nat.lt_of_not_le enough)⟩

/-- Unless an operator finds too few operands, what is below the stack stays below
it, whatever comes of the words. -/
theorem evalWords_above (table : Constants) (tokens : List Token) (stack below : Stack) :
    (∃ op depth, evalWords table stack (tokens.map Token.word) =
        .error (.insufficientOperands op depth)) ∨
      evalWords table (stack ++ below) (tokens.map Token.word) =
        (evalWords table stack (tokens.map Token.word)).map (· ++ below) := by
  -- On the tokens, for every stack: each token hands its stack on to the next, and what
  -- is below is carried along.
  induction tokens generalizing stack with
  | nil => exact Or.inr rfl
  | cons token rest ih =>
      rw [List.map_cons, evalWords_cons, evalWords_cons]
      obtain ⟨op, short⟩ | above := evalWord_above table token stack below
      · refine Or.inl ⟨op, stack.length, ?_⟩
        rw [short, Attempt.bind_error]
      · rw [above]
        cases evalWord table stack token.word with
        | error error => exact Or.inr rfl
        | ok next => exact ih next

/-! ## A part by itself -/

variable {part : List Token} {inner : String}

/-- A part with a value does on every stack what the decimal form of the value does. -/
theorem evalWords_of_value (words : Text.wordsOf inner = part.map Token.word) {n : Int64}
    (evaluated : eval table inner = .ok n) (stack : Stack) :
    evalWords table stack (part.map Token.word) = evalWords table stack [Integer.decimal n] := by
  rw [eval_eq_ok_iff_evalWords, words] at evaluated
  rw [evalWords_singleton, evalWord_decimal]
  obtain ⟨op, depth, short⟩ | above := evalWords_above table part [] stack
  · rw [short] at evaluated
    cases evaluated
  · rw [evaluated] at above
    exact above

/-- A part that is stopped, other than for want of operands, is stopped like that on
every stack. -/
theorem evalWords_of_error (words : Text.wordsOf inner = part.map Token.word)
    {error : EvalError} (other : ∀ depth, error ≠ .malformed depth)
    (supplied : ∀ op depth, error ≠ .insufficientOperands op depth)
    (evaluated : eval table inner = .error error) (stack : Stack) :
    evalWords table stack (part.map Token.word) = .error error := by
  rw [eval_eq_error_iff other, words] at evaluated
  obtain ⟨op, depth, short⟩ | above := evalWords_above table part [] stack
  · rw [short] at evaluated
    exact absurd (Except.error.inj evaluated).symm (supplied op depth)
  · rw [evaluated] at above
    exact above

/-! ## A part of an expression -/

theorem eval_of_parts {before after : List Token} {middle : List String} {whole : String}
    (words : Text.wordsOf whole = before.map Token.word ++ middle ++ after.map Token.word) :
    eval table whole =
      (((evalWords table [] (before.map Token.word)).bind fun stack =>
        evalWords table stack middle).bind fun stack =>
          evalWords table stack (after.map Token.word)).bind result := by
  rw [eval_eq_bind, words, evalWords_append, evalWords_append]

theorem eval_replaced {before after : List Token} {middle middle' : List String}
    {whole replaced : String}
    (words : Text.wordsOf whole = before.map Token.word ++ middle ++ after.map Token.word)
    (words' : Text.wordsOf replaced = before.map Token.word ++ middle' ++ after.map Token.word)
    (alike : ∀ stack, evalWords table stack middle = evalWords table stack middle') :
    eval table whole = eval table replaced := by
  rw [eval_of_parts words, eval_of_parts words', funext alike]

theorem eval_of_stopped_front {before after : List Token} {middle : List String}
    {whole front : String}
    (words : Text.wordsOf whole = before.map Token.word ++ middle ++ after.map Token.word)
    (frontWords : Text.wordsOf front = before.map Token.word) {first : EvalError}
    (other : ∀ depth, first ≠ .malformed depth) (stopped : eval table front = .error first) :
    eval table whole = .error first := by
  rw [eval_eq_error_iff other, frontWords] at stopped
  rw [eval_of_parts words, stopped]
  simp only [Attempt.bind_error]

theorem eval_of_stopped_part {before after : List Token} {middle : List String}
    {whole front : String}
    (words : Text.wordsOf whole = before.map Token.word ++ middle ++ after.map Token.word)
    (frontWords : Text.wordsOf front = before.map Token.word) {error : EvalError}
    (unstopped : ∀ first, eval table front = .error first → ∃ depth, first = .malformed depth)
    (stopped : ∀ stack, evalWords table stack middle = .error error) :
    eval table whole = .error error := by
  -- The front may leave any number of values.
  have processed : ∃ final, evalWords table [] (Text.wordsOf front) = .ok final := by
    rw [exists_evalWords_iff]
    cases ended : eval table front with
    | ok n => exact Or.inl ⟨n, rfl⟩
    | error first =>
        obtain ⟨depth, rfl⟩ := unstopped first ended
        exact Or.inr ⟨depth, rfl⟩
  obtain ⟨final, run⟩ := processed
  rw [frontWords] at run
  rw [eval_of_parts words, run, Attempt.bind_ok, stopped final]
  simp only [Attempt.bind_error]

theorem exists_literal_decimal (n : Int64) :
    ∃ leaf : Integer.Literal, leaf.word = Integer.decimal n ∧ leaf.exact = n.toInt := by
  obtain ⟨leaf, chars, exact⟩ := Integer.exists_literal_of_literal? (Integer.literal?_decimal n)
  refine ⟨leaf, ?_, exact⟩
  rw [Integer.Literal.word, chars, String.ofList_toList]

/-- A part of an expression that has a value may be replaced by this value, written
as one literal, and everything comes out as before.  A part that is stopped by an
unknown name or for leaving the range stops the whole, with the same error, unless
what stands before it is stopped already. -/
theorem eval_composes (table : Constants) {before part after : List Token}
    {whole inner : String}
    (wholeSpaced : Text.Spaced ((before ++ part ++ after).map Token.word) whole.toList)
    (innerSpaced : Text.Spaced (part.map Token.word) inner.toList) :
    (∀ n : Int64, eval table inner = .ok n →
      ∃ leaf : Integer.Literal, leaf.word = Integer.decimal n ∧ leaf.exact = n.toInt ∧
        ∀ replaced : String,
          Text.Spaced ((before ++ [Token.literal leaf] ++ after).map Token.word) replaced.toList →
            eval table whole = eval table replaced) ∧
    ∀ error : EvalError, eval table inner = .error error →
      (∃ word, error = .unknownToken word ∨ error = .overflow word) →
      ∀ front : String, Text.Spaced (before.map Token.word) front.toList →
        (∀ first, eval table front = .error first → (∀ depth, first ≠ .malformed depth) →
          eval table whole = .error first) ∧
        ((∀ first, eval table front = .error first → ∃ depth, first = .malformed depth) →
          eval table whole = .error error) := by
  have innerWords := wordsOf_eq_tokens_iff.2 innerSpaced
  have wholeWords := wordsOf_eq_tokens_iff.2 wholeSpaced
  rw [List.map_append, List.map_append] at wholeWords
  refine ⟨?_, ?_⟩
  · intro n evaluated
    obtain ⟨leaf, word, exact⟩ := exists_literal_decimal n
    refine ⟨leaf, word, exact, ?_⟩
    intro replaced spaced
    have replacedWords := wordsOf_eq_tokens_iff.2 spaced
    rw [List.map_append, List.map_append] at replacedWords
    refine eval_replaced wholeWords replacedWords ?_
    intro stack
    rw [evalWords_of_value innerWords evaluated stack, ← word]
    rfl
  · intro error evaluated stops front frontSpaced
    obtain ⟨word, kind⟩ := stops
    have frontWords := wordsOf_eq_tokens_iff.2 frontSpaced
    refine ⟨?_, ?_⟩
    · intro first stopped other
      exact eval_of_stopped_front wholeWords frontWords other stopped
    · intro unstopped
      have other : ∀ depth, error ≠ .malformed depth := by
        rcases kind with rfl | rfl <;> simp
      have supplied : ∀ op depth, error ≠ .insufficientOperands op depth := by
        rcases kind with rfl | rfl <;> simp
      exact eval_of_stopped_part wholeWords frontWords unstopped
        (evalWords_of_error innerWords other supplied evaluated)

/-- The least integer, by way of its successor. -/
def leastInteger : List Token :=
  [.literal ⟨true, "9223372036854775807".toList, by decide, List.all_eq_true.1 (by decide)⟩,
    .literal ⟨false, ['1'], by decide, List.all_eq_true.1 (by decide)⟩, .operator .sub]

def unknownFactor : List Token :=
  [.name (Name.ofWord "nope" (by decide) (by decide) (by decide)), .operator .mul]

theorem eval_least_integer :
    eval ∅ "-9223372036854775807 1 -" = .ok (-9223372036854775808) ∧
      eval ∅ "-9223372036854775807 1 - abs()" = eval ∅ "\t-9223372036854775808  abs()" ∧
      eval ∅ "nope *" = .error (.unknownToken "nope") ∧
      eval ∅ "-9223372036854775807 1 - nope * +" = .error (.unknownToken "nope") := by
  have evaluated : eval ∅ "-9223372036854775807 1 -" = .ok (-9223372036854775808) := by cbv
  have stopped : eval ∅ "nope *" = .error (.unknownToken "nope") := by cbv
  have least : Text.Spaced (leastInteger.map Token.word) "-9223372036854775807 1 -".toList :=
    wordsOf_eq_tokens_iff.1 (by cbv)
  refine ⟨evaluated, ?_, stopped, ?_⟩
  · have whole : Text.Spaced (([] ++ leastInteger ++ [Token.operator .abs]).map Token.word)
        "-9223372036854775807 1 - abs()".toList := wordsOf_eq_tokens_iff.1 (by cbv)
    obtain ⟨leaf, word, _, alike⟩ := (eval_composes ∅ whole least).1 _ evaluated
    have decimal : Integer.decimal (-9223372036854775808) = "-9223372036854775808" := by cbv
    have words : ([] ++ [Token.literal leaf] ++ [Token.operator .abs]).map Token.word =
        ["-9223372036854775808", "abs()"] := by
      simp [Token.word, word, decimal, Operator.word]
    refine alike _ (wordsOf_eq_tokens_iff.1 ?_)
    rw [words]
    cbv
  · have factor : Text.Spaced (unknownFactor.map Token.word) "nope *".toList :=
      wordsOf_eq_tokens_iff.1 (by cbv)
    have whole : Text.Spaced ((leastInteger ++ unknownFactor ++ [Token.operator .add]).map
        Token.word) "-9223372036854775807 1 - nope * +".toList := wordsOf_eq_tokens_iff.1 (by cbv)
    have stops := (eval_composes ∅ whole factor).2 _ stopped ⟨"nope", .inl rfl⟩ _ least
    refine stops.2 ?_
    intro first failed
    rw [evaluated] at failed
    cases failed

end ConfigDecl.Expr

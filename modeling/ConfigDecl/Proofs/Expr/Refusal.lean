import ConfigDecl.Proofs.Expr.Evaluation

/-! # Where an evaluation stops

A token is refused on a stack for one of few reasons, each with its error: an
operator finds too few operands, a name stands for no integer, or a literal or a
result is out of range.  The words of an expression stop at the first token that
is refused.  If none is, the expression has a value or leaves another number of
values than one, which is an error of another kind. -/

set_option autoImplicit false

namespace ConfigDecl.Expr

variable {table : Constants} {stack : Stack}

/-! ## One token -/

inductive Refused (scope : Scope) (stack : Stack) : Token → EvalError → Prop where
  | short {op : Operator} (short : stack.length < op.arity) :
      Refused scope stack (.operator op) (.insufficientOperands op stack.length)
  | unknown {leaf : Name} (unknown : scope leaf.word = none) :
      Refused scope stack (.name leaf) (.unknownToken leaf.word)
  | literal {leaf : Integer.Literal} (outOfRange : ¬ Integer.InRange leaf.exact) :
      Refused scope stack (.literal leaf) (.overflow leaf.word)
  | binary {op : BinaryOperator} {a b : Int64} {rest : Stack} (operands : stack = b :: a :: rest)
      (outOfRange : ¬ Integer.InRange (op.exact a.toInt b.toInt)) :
      Refused scope stack (.operator op.operator) (.overflow op.operator.word)
  | abs {a : Int64} {rest : Stack} (operands : stack = a :: rest)
      (outOfRange : ¬ Integer.InRange (a.toInt.natAbs : Int)) :
      Refused scope stack (.operator .abs) (.overflow Operator.abs.word)

theorem Refused.ne_malformed {scope : Scope} {token : Token} {error : EvalError}
    (refused : Refused scope stack token error) (depth : Nat) : error ≠ .malformed depth := by
  cases refused <;> simp

theorem push_eq_error_iff {word : String} {n : Int} {error : EvalError} :
    push word n stack = .error error ↔ ¬ Integer.InRange n ∧ error = .overflow word := by
  rcases push_cases word n with ⟨w, rfl, _, pushed⟩ | ⟨excess, pushed⟩
  · simp [pushed, Integer.inRange_toInt]
  · have outOfRange : ¬ Integer.InRange n := by
      intro inRange
      rw [Tree.overflow?_eq_none_iff.2 inRange] at excess
      cases excess
    rw [pushed, Except.error.injEq, eq_comm]
    exact (and_iff_right outOfRange).symm

theorem Operator.binary_or_abs (op : Operator) :
    (∃ binary : BinaryOperator, op = binary.operator) ∨ op = .abs := by
  cases op with
  | add => exact Or.inl ⟨.add, rfl⟩
  | sub => exact Or.inl ⟨.sub, rfl⟩
  | mul => exact Or.inl ⟨.mul, rfl⟩
  | abs => exact Or.inr rfl

theorem BinaryOperator.arity_operator (op : BinaryOperator) : op.operator.arity = 2 := by
  cases op <;> rfl

theorem apply_of_short {op : Operator} (short : stack.length < op.arity) :
    apply op stack = .error (.insufficientOperands op stack.length) := by
  obtain ⟨binary, rfl⟩ | rfl := op.binary_or_abs
  · rw [binary.arity_operator] at short
    match stack, short with
    | [], _ => cases binary <;> rfl
    | [_], _ => cases binary <;> rfl
  · match stack, short with
    | [], _ => rfl

theorem exists_operands_binary {op : BinaryOperator} (enough : op.operator.arity ≤ stack.length) :
    ∃ a b rest, stack = b :: a :: rest := by
  rw [op.arity_operator] at enough
  match stack, enough with
  | b :: a :: rest, _ => exact ⟨a, b, rest, rfl⟩

theorem exists_operand_abs (enough : Operator.abs.arity ≤ stack.length) :
    ∃ a rest, stack = a :: rest := by
  match stack, enough with
  | a :: rest, _ => exact ⟨a, rest, rfl⟩

theorem apply_abs (a : Int64) (rest : Stack) :
    apply .abs (a :: rest) = push Operator.abs.word (a.toInt.natAbs : Int) rest := rfl

theorem apply_eq_error_iff {op : Operator} {error : EvalError} {scope : Scope} :
    apply op stack = .error error ↔ Refused scope stack (.operator op) error := by
  constructor
  · intro failed
    by_cases enough : op.arity ≤ stack.length
    · obtain ⟨binary, rfl⟩ | rfl := op.binary_or_abs
      · obtain ⟨a, b, rest, rfl⟩ := exists_operands_binary enough
        rw [apply_binary, push_eq_error_iff] at failed
        obtain ⟨outOfRange, rfl⟩ := failed
        exact .binary rfl outOfRange
      · obtain ⟨a, rest, rfl⟩ := exists_operand_abs enough
        rw [apply_abs, push_eq_error_iff] at failed
        obtain ⟨outOfRange, rfl⟩ := failed
        exact .abs rfl outOfRange
    · have short := Nat.lt_of_not_le enough
      rw [apply_of_short short] at failed
      cases failed
      exact .short short
  · intro refused
    generalize shown : Token.operator op = token at refused
    cases refused with
    | short short =>
        cases shown
        exact apply_of_short short
    | unknown unknown => cases shown
    | literal outOfRange => cases shown
    | binary operands outOfRange =>
        cases shown
        rw [operands, apply_binary]
        exact push_eq_error_iff.2 ⟨outOfRange, rfl⟩
    | abs operands outOfRange =>
        cases shown
        rw [operands, apply_abs]
        exact push_eq_error_iff.2 ⟨outOfRange, rfl⟩

theorem evalWord_eq_error_iff {token : Token} {error : EvalError} :
    evalWord table stack token.word = .error error ↔
      Refused table.integer? stack token error := by
  cases token with
  | literal leaf =>
      rw [Token.word, evalWord_literal, push_eq_error_iff]
      constructor
      · intro excess
        obtain ⟨outOfRange, rfl⟩ := excess
        exact .literal outOfRange
      · intro refused
        cases refused with
        | literal outOfRange => exact ⟨outOfRange, rfl⟩
  | name leaf =>
      rw [Token.word, evalWord_name]
      constructor
      · intro failed
        cases found : table.integer? leaf.word with
        | none =>
            rw [found] at failed
            cases failed
            exact .unknown found
        | some n =>
            rw [found] at failed
            cases failed
      · intro refused
        cases refused with
        | unknown unknown => rw [unknown]
  | operator op =>
      rw [Token.word, evalWord_operator]
      exact apply_eq_error_iff

/-! ## Many tokens -/

/-- The words of tokens stop at the first token that is refused. -/
theorem evalWords_eq_error_iff {tokens : List Token} {error : EvalError} :
    evalWords table stack (tokens.map Token.word) = .error error ↔
      ∃ before token after reached, tokens = before ++ token :: after ∧
        evalWords table stack (before.map Token.word) = .ok reached ∧
        Refused table.integer? reached token error := by
  constructor
  · intro failed
    induction tokens generalizing stack with
    | nil => cases failed
    | cons token rest ih =>
        rw [List.map_cons, evalWords_cons] at failed
        cases taken : evalWord table stack token.word with
        | error first =>
            rw [taken] at failed
            cases failed
            exact ⟨[], token, rest, stack, rfl, rfl, evalWord_eq_error_iff.1 taken⟩
        | ok next =>
            rw [taken] at failed
            obtain ⟨before, refusedToken, after, reached, rfl, run, refused⟩ := ih failed
            refine ⟨token :: before, refusedToken, after, reached, rfl, ?_, refused⟩
            rw [List.map_cons, evalWords_cons, taken]
            exact run
  · intro stopped
    obtain ⟨before, token, after, reached, rfl, run, refused⟩ := stopped
    rw [List.map_append, List.map_cons, evalWords_append, run, Attempt.bind_ok, evalWords_cons,
      evalWord_eq_error_iff.2 refused, Attempt.bind_error]

theorem evalWords_ne_malformed (tokens : List Token) (depth : Nat) :
    evalWords table stack (tokens.map Token.word) ≠ .error (.malformed depth) := by
  intro failed
  obtain ⟨_, _, _, _, _, _, refused⟩ := evalWords_eq_error_iff.1 failed
  exact refused.ne_malformed depth rfl

/-! ## Whole expressions -/

theorem exists_tokens (text : String) :
    ∃ tokens : List Token, Text.wordsOf text = tokens.map Token.word := by
  have solid : ∀ word ∈ Text.wordsOf text, Text.Solid word.toList := fun _ member =>
    Text.solid_of_mem_wordsOf member
  generalize Text.wordsOf text = words at solid
  induction words with
  | nil => exact ⟨[], rfl⟩
  | cons word words ih =>
      obtain ⟨token, named⟩ := Token.exists_of_solid (solid word List.mem_cons_self)
      obtain ⟨tokens, later⟩ := ih fun other member => solid other (List.mem_cons_of_mem word member)
      exact ⟨token :: tokens, by rw [List.map_cons, named, later]⟩

theorem wordsOf_eq_tokens_iff {tokens : List Token} {text : String} :
    Text.wordsOf text = tokens.map Token.word ↔
      Text.Spaced (tokens.map Token.word) text.toList :=
  Text.wordsOf_eq_iff_spaced fun _ member => Token.solid_of_mem_map member

theorem result_eq_error_iff {error : EvalError} :
    result stack = .error error ↔ stack.length ≠ 1 ∧ error = .malformed stack.length := by
  match stack with
  | [] => simp [result, eq_comm]
  | [_] => simp [result]
  | _ :: _ :: _ => simp [result, eq_comm]

theorem result_eq_ok_iff {n : Int64} : result stack = .ok n ↔ stack = [n] := by
  match stack with
  | [] => simp [result]
  | [_] => simp [result]
  | _ :: _ :: _ => simp [result]

theorem eval_eq_ok_iff_evalWords {text : String} {n : Int64} :
    eval table text = .ok n ↔ evalWords table [] (Text.wordsOf text) = .ok [n] := by
  rw [eval_eq_bind, Attempt.bind_eq_ok_iff]
  simp [result_eq_ok_iff]

theorem eval_eq_malformed_iff {text : String} {depth : Nat} :
    eval table text = .error (.malformed depth) ↔
      ∃ final, evalWords table [] (Text.wordsOf text) = .ok final ∧
        final.length = depth ∧ depth ≠ 1 := by
  obtain ⟨tokens, words⟩ := exists_tokens text
  rw [eval_eq_bind, words]
  cases run : evalWords table [] (tokens.map Token.word) with
  | error error =>
      have other : error ≠ .malformed depth := by
        intro same
        rw [same] at run
        exact evalWords_ne_malformed tokens depth run
      simp [other]
  | ok final =>
      rw [Attempt.bind_ok, result_eq_error_iff]
      constructor
      · intro left
        obtain ⟨several, same⟩ := left
        cases same
        exact ⟨final, rfl, rfl, several⟩
      · intro ended
        obtain ⟨_, same, rfl, several⟩ := ended
        cases same
        exact ⟨several, rfl⟩

/-- The errors that stop an evaluation are those of its words. -/
theorem eval_eq_error_iff {text : String} {error : EvalError}
    (other : ∀ depth, error ≠ .malformed depth) :
    eval table text = .error error ↔
      evalWords table [] (Text.wordsOf text) = .error error := by
  rw [eval_eq_bind]
  cases evalWords table [] (Text.wordsOf text) with
  | error first => simp
  | ok final =>
      rw [Attempt.bind_ok, result_eq_error_iff]
      simp [other]

/-- Unless an evaluation is stopped, all its words are processed. -/
theorem exists_evalWords_iff {text : String} :
    (∃ final, evalWords table [] (Text.wordsOf text) = .ok final) ↔
      (∃ n, eval table text = .ok n) ∨ ∃ depth, eval table text = .error (.malformed depth) := by
  constructor
  · intro processed
    obtain ⟨final, run⟩ := processed
    by_cases single : final.length = 1
    · obtain ⟨n, rfl⟩ := List.length_eq_one_iff.1 single
      exact Or.inl ⟨n, eval_eq_ok_iff_evalWords.2 run⟩
    · exact Or.inr ⟨final.length, eval_eq_malformed_iff.2 ⟨final, run, rfl, single⟩⟩
  · intro ended
    obtain ⟨n, evaluated⟩ | ⟨depth, left⟩ := ended
    · exact ⟨[n], eval_eq_ok_iff_evalWords.1 evaluated⟩
    · obtain ⟨final, run, _⟩ := eval_eq_malformed_iff.1 left
      exact ⟨final, run⟩

end ConfigDecl.Expr

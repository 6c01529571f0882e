import ConfigDecl.Proofs.Expr.Evaluation
import ConfigDecl.Proofs.Output.Decoding

/-! # Identifiers in expressions

An identifier is a word of its own and neither a literal nor an operator, so as
an expression it is a name and nothing else: it has the value of the integer
constant of that name, and none if there is no such constant. -/

set_option autoImplicit false

namespace ConfigDecl.Expr

theorem letter_bounds {c : Char} (letter : c.isAlpha = true) :
    65 ≤ c.toNat ∧ c.toNat ≤ 90 ∨ 97 ≤ c.toNat ∧ c.toNat ≤ 122 := by
  rcases Bool.or_eq_true_iff.1 letter with upper | lower
  · obtain ⟨low, high⟩ := of_decide_eq_true upper
    exact .inl ⟨UInt32.le_iff_toNat_le.1 low, UInt32.le_iff_toNat_le.1 high⟩
  · obtain ⟨low, high⟩ := Bool.and_eq_true_iff.1 lower
    exact .inr ⟨UInt32.le_iff_toNat_le.1 (of_decide_eq_true low),
      UInt32.le_iff_toNat_le.1 (of_decide_eq_true high)⟩

theorem letter_not_digit {c : Char} (letter : c.isAlpha = true) : c.isDigit = false := by
  have bounds := letter_bounds letter
  have above : 57 < c.toNat := by omega
  simpa [Char.isDigit, UInt32.le_iff_toNat_le] using fun _ => above

theorem alphanum_not_blank {c : Char} (alphanum : c.isAlphanum = true) :
    Text.isBlank c = false := by
  rcases Bool.or_eq_true_iff.1 alphanum with letter | digit
  · have bounds := letter_bounds letter
    simp only [Text.isBlank, Text.blankRanges, List.any_cons, List.any_nil, Bool.or_false,
      Bool.or_eq_false_iff, Bool.and_eq_false_iff, decide_eq_false_iff_not]
    omega
  · exact digit_not_blank digit

variable {name : String}

theorem exists_letter_of_isIdent (named : isIdent name = true) :
    ∃ first more, name.toList = first :: more ∧ first.isAlpha = true := by
  rw [isIdent] at named
  cases chars : name.toList with
  | nil =>
      rw [chars] at named
      cases named
  | cons first more =>
      rw [chars, identChars, Bool.and_eq_true] at named
      exact ⟨first, more, rfl, named.1⟩

theorem solid_of_isIdent (named : isIdent name = true) : Text.Solid name.toList := by
  obtain ⟨first, more, chars, _⟩ := exists_letter_of_isIdent named
  refine ⟨?_, ?_⟩
  · rw [chars]
    exact List.cons_ne_nil first more
  · intro c member
    exact alphanum_not_blank (Output.isAlphanum_of_mem_ident named c member)

theorem literal?_of_isIdent (named : isIdent name = true) :
    Integer.literal? name.toList = none := by
  obtain ⟨first, more, chars, letter⟩ := exists_letter_of_isIdent named
  rw [Integer.literal?_eq_none_iff]
  intro leaf same
  rw [chars, Integer.Literal.chars] at same
  split at same
  · cases same
    exact absurd letter (by decide)
  · have digit := leaf.allDigits first (by simp [same])
    rw [letter_not_digit letter] at digit
    cases digit

theorem ofWord?_of_isIdent (named : isIdent name = true) : Operator.ofWord? name = none := by
  cases found : Operator.ofWord? name with
  | none => rfl
  | some op =>
      rw [Operator.ofWord?_eq_some_iff.1 found] at named
      cases op <;> exact absurd named (by decide)

/-- The name that an identifier is in expressions. -/
def Name.ofIdent (named : isIdent name = true) : Name :=
  Name.ofWord name (solid_of_isIdent named) (literal?_of_isIdent named) (ofWord?_of_isIdent named)

theorem wordsOf_of_solid (solid : Text.Solid name.toList) : Text.wordsOf name = [name] := by
  have ended : Text.StartsBlank [] := by
    intro c first
    cases first
  have one := Text.words_solid_append solid ended
  rw [List.append_nil] at one
  simp [Text.wordsOf, one]

theorem evalWord_of_isIdent (named : isIdent name = true) (table : Constants) (stack : Stack) :
    evalWord table stack name =
      match table.integer? name with
      | some n => .ok (n :: stack)
      | none => .error (.unknownToken name) :=
  evalWord_name table stack (Name.ofIdent named)

theorem eval_of_isIdent (named : isIdent name = true) (table : Constants) :
    eval table name =
      match table.integer? name with
      | some n => .ok n
      | none => .error (.unknownToken name) := by
  rw [eval_eq_bind, wordsOf_of_solid (solid_of_isIdent named), evalWords_singleton,
    evalWord_of_isIdent named]
  cases table.integer? name <;> rfl

/-- What is a literal or an operator is that with any constants. -/
theorem evalWord_eq_of_token {word : String}
    (token : Integer.literal? word.toList ≠ none ∨ Operator.ofWord? word ≠ none)
    (table other : Constants) (stack : Stack) :
    evalWord table stack word = evalWord other stack word := by
  unfold evalWord
  cases literal : Integer.literal? word.toList with
  | some n => rfl
  | none =>
      cases operator : Operator.ofWord? word with
      | some op => rfl
      | none =>
          rcases token with isLiteral | isOperator
          · exact absurd literal isLiteral
          · exact absurd operator isOperator

end ConfigDecl.Expr

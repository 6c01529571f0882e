import ConfigDecl.Expr.Operator
import ConfigDecl.Proofs.Integer.Literal
import ConfigDecl.Proofs.Text.Spaced
import Mathlib.Logic.Function.Basic

/-! # Expression trees

A token is a literal, an operator or a name, and a word is at most one of these.
An expression tree has literals and names at its leaves; its tokens in postfix
notation are those of its operands, left before right, and then its own.  The
notation is unambiguous: the tokens of a tree are those of no other tree, not
even in part, when they are read from the end. -/

set_option autoImplicit false

namespace ConfigDecl.Expr

/-! ## Tokens -/

/-- A blank-free word that is neither a literal nor an operator. -/
structure Name where
  word : String
  solid : Text.Solid word.toList
  notLiteral : ∀ literal : Integer.Literal, literal.word ≠ word
  notOperator : ∀ op : Operator, op.word ≠ word

def Name.ofWord (word : String) (solid : Text.Solid word.toList)
    (notLiteral : Integer.literal? word.toList = none)
    (notOperator : Operator.ofWord? word = none) : Name where
  word := word
  solid := solid
  notLiteral := by
    rintro leaf rfl
    exact Integer.literal?_eq_none_iff.1 notLiteral leaf leaf.toList_word.symm
  notOperator := by
    rintro op rfl
    rw [Operator.ofWord?_word] at notOperator
    cases notOperator

inductive Token where
  | literal (literal : Integer.Literal)
  | operator (op : Operator)
  | name (name : Name)

namespace Token

def word : Token → String
  | .literal leaf => leaf.word
  | .operator op => op.word
  | .name leaf => leaf.word

end Token

theorem Operator.word_injective : Function.Injective Operator.word := by
  intro a b same
  have recognised := ofWord?_word a
  rw [same, ofWord?_word b] at recognised
  exact (Option.some.inj recognised).symm

theorem literal?_operator (op : Operator) : Integer.literal? op.word.toList = none := by
  cases op <;> decide

theorem literal_word_ne_operator_word (literal : Integer.Literal) (op : Operator) :
    literal.word ≠ op.word := by
  intro same
  have read := literal.literal?_chars
  rw [← literal.toList_word, same, literal?_operator] at read
  cases read

theorem literal_word_injective : Function.Injective Integer.Literal.word := by
  intro a b same
  have sameChars : a.chars = b.chars := by
    rw [← a.toList_word, ← b.toList_word, same]
  have minusFree : ∀ (literal : Integer.Literal) (rest : List Char),
      literal.digits ≠ '-' :: rest := by
    intro literal rest starts
    have digit := literal.allDigits '-' (by simp [starts])
    rw [Integer.Literal.minus_not_digit] at digit
    cases digit
  obtain ⟨negative, digits, nonempty, allDigits⟩ := a
  obtain ⟨negative', digits', nonempty', allDigits'⟩ := b
  cases negative <;> cases negative' <;> simp only [Integer.Literal.chars] at sameChars
  · simpa using sameChars
  · exact absurd sameChars (minusFree ⟨false, digits, nonempty, allDigits⟩ digits')
  · exact absurd sameChars.symm (minusFree ⟨false, digits', nonempty', allDigits'⟩ digits)
  · simpa using sameChars

theorem Token.word_injective : Function.Injective Token.word := by
  intro a b same
  cases a with
  | literal leaf =>
      cases b with
      | literal other => exact congrArg Token.literal (literal_word_injective same)
      | operator op => exact absurd same (literal_word_ne_operator_word leaf op)
      | name other => exact absurd same (other.notLiteral leaf)
  | operator op =>
      cases b with
      | literal other => exact absurd same.symm (literal_word_ne_operator_word other op)
      | operator other => exact congrArg Token.operator (Operator.word_injective same)
      | name other => exact absurd same (other.notOperator op)
  | name leaf =>
      cases b with
      | literal other => exact absurd same.symm (leaf.notLiteral other)
      | operator op => exact absurd same.symm (leaf.notOperator op)
      | name other =>
          cases leaf
          cases other
          cases same
          rfl

theorem digit_not_blank {c : Char} (digit : c.isDigit = true) : Text.isBlank c = false := by
  have bounds : 48 ≤ c.toNat ∧ c.toNat ≤ 57 := by
    simpa [Char.isDigit, UInt32.le_iff_toNat_le] using digit
  simp only [Text.isBlank, Text.blankRanges, List.any_cons, List.any_nil, Bool.or_false,
    Bool.or_eq_false_iff, Bool.and_eq_false_iff, decide_eq_false_iff_not]
  omega

theorem Token.solid (token : Token) : Text.Solid token.word.toList := by
  cases token with
  | literal leaf =>
      have digitsSolid : ∀ c ∈ leaf.digits, Text.isBlank c = false := fun c member =>
        digit_not_blank (leaf.allDigits c member)
      simp only [word, Integer.Literal.toList_word, Integer.Literal.chars]
      split
      · refine ⟨by simp, ?_⟩
        intro c member
        rcases List.mem_cons.mp member with rfl | inside
        · decide
        · exact digitsSolid c inside
      · exact ⟨leaf.nonempty, digitsSolid⟩
  | operator op => cases op <;> decide
  | name leaf => exact leaf.solid

theorem Token.solid_of_mem_map {tokens : List Token} {word : String}
    (member : word ∈ tokens.map Token.word) : Text.Solid word.toList := by
  obtain ⟨token, _, rfl⟩ := List.mem_map.mp member
  exact token.solid

/-- Every blank-free word is a token. -/
theorem Token.exists_of_solid {word : String} (solid : Text.Solid word.toList) :
    ∃ token : Token, token.word = word := by
  by_cases literal : ∃ literal : Integer.Literal, literal.word = word
  · obtain ⟨literal, same⟩ := literal
    exact ⟨.literal literal, same⟩
  · by_cases operator : ∃ op : Operator, op.word = word
    · obtain ⟨op, same⟩ := operator
      exact ⟨.operator op, same⟩
    · exact ⟨.name ⟨word, solid, not_exists.mp literal, not_exists.mp operator⟩, rfl⟩

/-! ## Trees -/

inductive BinaryOperator where
  | add
  | sub
  | mul
  deriving DecidableEq, Repr

namespace BinaryOperator

def operator : BinaryOperator → Operator
  | .add => .add
  | .sub => .sub
  | .mul => .mul

/-- The operation on all integers. -/
def exact : BinaryOperator → Int → Int → Int
  | .add, a, b => a + b
  | .sub, a, b => a - b
  | .mul, a, b => a * b

theorem operator_injective : Function.Injective operator := by
  intro a b same
  cases a <;> cases b <;> first | rfl | cases same

theorem operator_ne_abs (op : BinaryOperator) : op.operator ≠ .abs := by
  cases op <;> simp [operator]

end BinaryOperator

inductive Tree where
  | literal (literal : Integer.Literal)
  | name (name : Name)
  | binary (op : BinaryOperator) (left right : Tree)
  | abs (operand : Tree)

namespace Tree

/-- The last token in postfix notation. -/
def root : Tree → Token
  | .literal leaf => .literal leaf
  | .name leaf => .name leaf
  | .binary op _ _ => .operator op.operator
  | .abs _ => .operator .abs

/-- The postfix notation. -/
def tokens : Tree → List Token
  | .literal leaf => [.literal leaf]
  | .name leaf => [.name leaf]
  | .binary op left right => left.tokens ++ right.tokens ++ [.operator op.operator]
  | .abs operand => operand.tokens ++ [.operator .abs]

def words (tree : Tree) : List String := tree.tokens.map Token.word

/-- Every subtree, the tree included, in the order of their roots in postfix
notation. -/
def subtrees : Tree → List Tree
  | .literal leaf => [.literal leaf]
  | .name leaf => [.name leaf]
  | .binary op left right => left.subtrees ++ right.subtrees ++ [.binary op left right]
  | .abs operand => operand.subtrees ++ [.abs operand]

/-- Going through the subtrees is going through the tokens. -/
theorem map_root_subtrees (tree : Tree) : tree.subtrees.map root = tree.tokens := by
  induction tree with
  | literal leaf => rfl
  | name leaf => rfl
  | binary op left right leftIH rightIH => simp [subtrees, tokens, root, leftIH, rightIH]
  | abs operand ih => simp [subtrees, tokens, root, ih]

theorem mem_subtrees_self (tree : Tree) : tree ∈ tree.subtrees := by
  cases tree <;> simp [subtrees]

/-! ## The notation is unambiguous -/

def operandTokens : Tree → List Token
  | .literal _ => []
  | .name _ => []
  | .binary _ left right => left.tokens ++ right.tokens
  | .abs operand => operand.tokens

theorem tokens_eq (tree : Tree) : tree.tokens = tree.operandTokens ++ [tree.root] := by
  cases tree <;> rfl

theorem append_tokens_split {a b : Tree} {before before' : List Token}
    (same : before ++ a.tokens = before' ++ b.tokens) :
    before ++ a.operandTokens = before' ++ b.operandTokens ∧ a.root = b.root := by
  rw [tokens_eq a, tokens_eq b, ← List.append_assoc, ← List.append_assoc] at same
  obtain ⟨operands, roots⟩ := List.append_inj' same rfl
  exact ⟨operands, by simpa using roots⟩

/-- Read from the end, the tokens tell where the tree starts and which it is. -/
theorem append_tokens_inj {a b : Tree} {before before' : List Token}
    (same : before ++ a.tokens = before' ++ b.tokens) : before = before' ∧ a = b := by
  induction a generalizing b before before' with
  | literal leaf =>
      obtain ⟨operands, roots⟩ := append_tokens_split same
      cases b with
      | literal other =>
          cases roots
          exact ⟨by simpa [operandTokens] using operands, rfl⟩
      | name other => cases roots
      | binary op left right => cases roots
      | abs operand => cases roots
  | name leaf =>
      obtain ⟨operands, roots⟩ := append_tokens_split same
      cases b with
      | literal other => cases roots
      | name other =>
          cases roots
          exact ⟨by simpa [operandTokens] using operands, rfl⟩
      | binary op left right => cases roots
      | abs operand => cases roots
  | binary op left right leftIH rightIH =>
      obtain ⟨operands, roots⟩ := append_tokens_split same
      cases b with
      | literal other => cases roots
      | name other => cases roots
      | binary op' left' right' =>
          cases BinaryOperator.operator_injective (Token.operator.inj roots)
          simp only [operandTokens, ← List.append_assoc] at operands
          obtain ⟨operands, sameRight⟩ := rightIH operands
          obtain ⟨sameBefore, sameLeft⟩ := leftIH operands
          exact ⟨sameBefore, by rw [sameLeft, sameRight]⟩
      | abs operand => exact absurd (Token.operator.inj roots) op.operator_ne_abs
  | abs operand ih =>
      obtain ⟨operands, roots⟩ := append_tokens_split same
      cases b with
      | literal other => cases roots
      | name other => cases roots
      | binary op left right => exact absurd (Token.operator.inj roots).symm op.operator_ne_abs
      | abs other =>
          obtain ⟨sameBefore, sameOperand⟩ := ih operands
          exact ⟨sameBefore, by rw [sameOperand]⟩

theorem words_injective : Function.Injective words := by
  intro a b same
  have sameTokens : a.tokens = b.tokens :=
    (List.map_inj_right fun _ _ equal => Token.word_injective equal).1 same
  have sameAppended : [] ++ a.tokens = [] ++ b.tokens := sameTokens
  exact (append_tokens_inj sameAppended).2

theorem solid_of_mem_words {tree : Tree} {word : String} (member : word ∈ tree.words) :
    Text.Solid word.toList :=
  Token.solid_of_mem_map member

end Tree

end ConfigDecl.Expr

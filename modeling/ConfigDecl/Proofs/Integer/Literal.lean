import ConfigDecl.Integer

/-! # Integer literals

The written form of an integer: one or more digits with an optional minus before
them, and nothing else.  Reading inverts writing, and what is read was written
as a literal; the decimal form of a word is one of the literals of its value. -/

set_option autoImplicit false

namespace ConfigDecl.Integer

theorem isDigits_iff {digits : List Char} :
    isDigits digits = true ↔ digits ≠ [] ∧ ∀ c ∈ digits, c.isDigit = true := by
  simp [isDigits]

/-- An optional minus and a run of digits, with any number of leading zeros. -/
structure Literal where
  negative : Bool
  digits : List Char
  nonempty : digits ≠ []
  allDigits : ∀ c ∈ digits, c.isDigit = true
  deriving DecidableEq

namespace Literal

def chars (literal : Literal) : List Char :=
  if literal.negative then '-' :: literal.digits else literal.digits

def word (literal : Literal) : String := String.ofList literal.chars

def exact (literal : Literal) : Int :=
  if literal.negative then -(ofDigits literal.digits : Int) else ofDigits literal.digits

@[simp] theorem toList_word (literal : Literal) : literal.word.toList = literal.chars := by
  simp [word]

theorem isDigits_digits (literal : Literal) : isDigits literal.digits = true :=
  isDigits_iff.2 ⟨literal.nonempty, literal.allDigits⟩

theorem minus_not_digit : ('-' : Char).isDigit = false := by decide

theorem literal?_digits {digits : List Char} (digitsOnly : isDigits digits = true) :
    literal? digits = some (ofDigits digits : Int) := by
  cases digits with
  | nil => simp [isDigits] at digitsOnly
  | cons first rest =>
      have firstDigit : first.isDigit = true := (isDigits_iff.1 digitsOnly).2 first (by simp)
      have notMinus : first ≠ '-' := by
        rintro rfl
        rw [minus_not_digit] at firstDigit
        cases firstDigit
      unfold literal?
      split
      · next same =>
          cases same
          exact absurd rfl notMinus
      · rw [if_pos digitsOnly]

theorem literal?_chars (literal : Literal) : literal? literal.chars = some literal.exact := by
  unfold chars exact
  cases literal.negative with
  | true => simp [literal?, literal.isDigits_digits]
  | false => simpa using literal?_digits literal.isDigits_digits

end Literal

/-- What reads as an integer was written as a literal of it. -/
theorem exists_literal_of_literal? {chars : List Char} {n : Int}
    (read : literal? chars = some n) :
    ∃ literal : Literal, literal.chars = chars ∧ literal.exact = n := by
  unfold literal? at read
  split at read
  · next digits =>
      split at read
      · next digitsOnly =>
          obtain ⟨nonempty, allDigits⟩ := isDigits_iff.1 digitsOnly
          cases Option.some.inj read
          exact ⟨⟨true, digits, nonempty, allDigits⟩, rfl, rfl⟩
      · cases read
  · split at read
    · next digitsOnly =>
        obtain ⟨nonempty, allDigits⟩ := isDigits_iff.1 digitsOnly
        cases Option.some.inj read
        exact ⟨⟨false, chars, nonempty, allDigits⟩, rfl, rfl⟩
    · cases read

theorem literal?_eq_none_iff {chars : List Char} :
    literal? chars = none ↔ ∀ literal : Literal, literal.chars ≠ chars := by
  constructor
  · rintro unread literal rfl
    rw [literal.literal?_chars] at unread
    cases unread
  · intro other
    cases read : literal? chars with
    | none => rfl
    | some n =>
        obtain ⟨literal, same, _⟩ := exists_literal_of_literal? read
        exact absurd same (other literal)

/-! ## Numerals -/

/-- What stands before the digits of a numeral. -/
inductive Sign where
  | absent
  | plus
  | minus
  deriving DecidableEq, Repr

def Sign.chars : Sign → List Char
  | .absent => []
  | .plus => ['+']
  | .minus => ['-']

/-- An optional sign, plus or minus, and a run of digits, with any number of leading
zeros. -/
structure Numeral where
  sign : Sign
  digits : List Char
  nonempty : digits ≠ []
  allDigits : ∀ c ∈ digits, c.isDigit = true
  deriving DecidableEq

namespace Numeral

def chars (numeral : Numeral) : List Char := numeral.sign.chars ++ numeral.digits

def exact (numeral : Numeral) : Int :=
  if numeral.sign = .minus then -(ofDigits numeral.digits : Int) else ofDigits numeral.digits

def ofLiteral (literal : Literal) : Numeral where
  sign := if literal.negative then .minus else .absent
  digits := literal.digits
  nonempty := literal.nonempty
  allDigits := literal.allDigits

theorem chars_ofLiteral (literal : Literal) : (ofLiteral literal).chars = literal.chars := by
  unfold chars ofLiteral Literal.chars
  cases literal.negative <;> rfl

theorem exact_ofLiteral (literal : Literal) : (ofLiteral literal).exact = literal.exact := by
  unfold exact ofLiteral Literal.exact
  cases literal.negative <;> rfl

theorem numeral?_of_literal? {chars : List Char} {n : Int} (read : literal? chars = some n) :
    numeral? chars = some n := by
  unfold numeral?
  split
  · next digits =>
      have noDigits : isDigits ('+' :: digits) = false := by simp [isDigits]
      simp [literal?, noDigits] at read
  · exact read

theorem numeral?_chars (numeral : Numeral) : numeral? numeral.chars = some numeral.exact := by
  obtain ⟨sign, digits, nonempty, allDigits⟩ := numeral
  have digitsOnly : isDigits digits = true := isDigits_iff.2 ⟨nonempty, allDigits⟩
  cases sign with
  | absent => exact numeral?_of_literal? (Literal.literal?_digits digitsOnly)
  | plus => exact if_pos digitsOnly
  | minus => exact if_pos digitsOnly

end Numeral

/-- What the reader of numerals accepts are the numerals, and it reads their values. -/
theorem numeral?_eq_some_iff {chars : List Char} {n : Int} :
    numeral? chars = some n ↔
      ∃ numeral : Numeral, numeral.chars = chars ∧ numeral.exact = n := by
  constructor
  · intro read
    unfold numeral? at read
    split at read
    · next digits =>
        split at read
        · next digitsOnly =>
            obtain ⟨nonempty, allDigits⟩ := isDigits_iff.1 digitsOnly
            cases Option.some.inj read
            exact ⟨⟨.plus, digits, nonempty, allDigits⟩, rfl, rfl⟩
        · cases read
    · obtain ⟨literal, rfl, rfl⟩ := exists_literal_of_literal? read
      exact ⟨.ofLiteral literal, Numeral.chars_ofLiteral literal, Numeral.exact_ofLiteral literal⟩
  · rintro ⟨numeral, rfl, rfl⟩
    exact numeral.numeral?_chars

/-! ## Decimal form -/

theorem isDigits_toDigits (n : Nat) : isDigits (Nat.toDigits 10 n) = true :=
  isDigits_iff.2 ⟨Nat.toDigits_ne_nil,
    fun _ member => Nat.isDigit_of_mem_toDigits (by decide) (by decide) member⟩

theorem toList_decimal (n : Int64) :
    (decimal n).toList =
      if 0 ≤ n.toInt then Nat.toDigits 10 n.toInt.toNat
      else '-' :: Nat.toDigits 10 (-n.toInt).toNat := by
  rw [decimal, Int.toString_eq_repr, Int.repr_eq_if]
  split <;> simp

/-- The decimal form of a word is a literal, and of the word's own value. -/
theorem literal?_decimal (n : Int64) : literal? (decimal n).toList = some n.toInt := by
  rw [toList_decimal]
  by_cases nonnegative : 0 ≤ n.toInt
  · rw [if_pos nonnegative, Literal.literal?_digits (isDigits_toDigits _)]
    simp only [ofDigits, Nat.ofDigitChars_ten_toDigits, Option.some.injEq]
    omega
  · rw [if_neg nonnegative]
    simp only [literal?, isDigits_toDigits, if_true, ofDigits, Nat.ofDigitChars_ten_toDigits,
      Option.some.injEq]
    omega

theorem numeral?_decimal (n : Int64) : numeral? (decimal n).toList = some n.toInt :=
  Numeral.numeral?_of_literal? (literal?_decimal n)

end ConfigDecl.Integer

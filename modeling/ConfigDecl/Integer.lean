/-! # Integers of 64 bits

Values are signed words of 64 bits, and arithmetic on them is exact: a result is
computed among all integers and then narrowed, which fails outside the range.
Digits are read in base ten, with any number of leading zeros. -/

set_option autoImplicit false

namespace ConfigDecl.Integer

/-- From `-2 ^ 63` to `2 ^ 63 - 1`. -/
def InRange (n : Int) : Prop := -9223372036854775808 ≤ n ∧ n ≤ 9223372036854775807

instance (n : Int) : Decidable (InRange n) :=
  inferInstanceAs (Decidable (_ ∧ _))

def narrow? (n : Int) : Option Int64 :=
  if InRange n then some (Int64.ofInt n) else none

def decimal (n : Int64) : String := toString n.toInt

/-! ## Reading digits -/

def isDigits (chars : List Char) : Bool := !chars.isEmpty && chars.all Char.isDigit

def ofDigits (chars : List Char) : Nat := Nat.ofDigitChars 10 chars 0

/-- One or more digits with an optional minus before them. -/
def literal? : List Char → Option Int
  | '-' :: digits => if isDigits digits then some (-(ofDigits digits : Int)) else none
  | digits => if isDigits digits then some (ofDigits digits : Int) else none

/-- One or more digits with an optional sign before them, plus or minus. -/
def numeral? : List Char → Option Int
  | '+' :: digits => if isDigits digits then some (ofDigits digits : Int) else none
  | chars => literal? chars

theorem toInt_ofInt {n : Int} (range : InRange n) : (Int64.ofInt n).toInt = n := by
  obtain ⟨low, high⟩ := range
  exact Int64.toInt_ofInt_of_le (by omega) (by omega)

theorem narrow?_eq_some_iff {n : Int} {w : Int64} :
    narrow? n = some w ↔ InRange n ∧ w.toInt = n := by
  unfold narrow?
  constructor
  · intro h
    split at h
    · next range =>
        cases h
        exact ⟨range, toInt_ofInt range⟩
    · cases h
  · rintro ⟨range, rfl⟩
    rw [if_pos range]
    exact congrArg some (Int64.toInt.inj (toInt_ofInt range))

theorem narrow?_eq_none_iff {n : Int} : narrow? n = none ↔ ¬ InRange n := by
  simp [narrow?]

theorem inRange_toInt (w : Int64) : InRange w.toInt := by
  have low := w.le_toInt
  have high := w.toInt_lt
  constructor
  · omega
  · omega

@[simp] theorem narrow?_toInt (w : Int64) : narrow? w.toInt = some w :=
  narrow?_eq_some_iff.2 ⟨inRange_toInt w, rfl⟩

end ConfigDecl.Integer

import ConfigDecl.Dictionary

/-! # Values

What a declaration stands for once its digits are read and its expression is
evaluated: a signed integer of 64 bits, a text, or a dictionary of values. -/

set_option autoImplicit false

namespace ConfigDecl

inductive Value where
  | integer (n : Int64)
  | text (content : String)
  | dictionary (dict : Dictionary Value)
  deriving Repr

instance : Inhabited Value := ⟨.integer 0⟩

namespace Value

/-- The integer, if the value is one; only integers take part in expressions. -/
def integer? : Value → Option Int64
  | .integer n => some n
  | .text _ => none
  | .dictionary _ => none

mutual

def decEq : (a b : Value) → Decidable (a = b)
  | .integer a, .integer b => decidable_of_iff (a = b) (by simp)
  | .integer _, .text _ => isFalse (by simp)
  | .integer _, .dictionary _ => isFalse (by simp)
  | .text _, .integer _ => isFalse (by simp)
  | .text a, .text b => decidable_of_iff (a = b) (by simp)
  | .text _, .dictionary _ => isFalse (by simp)
  | .dictionary _, .integer _ => isFalse (by simp)
  | .dictionary _, .text _ => isFalse (by simp)
  | .dictionary ⟨as⟩, .dictionary ⟨bs⟩ =>
      match entriesDecEq as bs with
      | isTrue same => isTrue (by rw [same])
      | isFalse differ => isFalse (by simpa using differ)

def entriesDecEq : (as bs : List (String × Value)) → Decidable (as = bs)
  | [], [] => isTrue rfl
  | [], _ :: _ => isFalse (by simp)
  | _ :: _, [] => isFalse (by simp)
  | (key, value) :: as, (key', value') :: bs =>
      if sameKey : key = key' then
        match decEq value value' with
        | isTrue sameValue =>
            match entriesDecEq as bs with
            | isTrue same => isTrue (by rw [sameKey, sameValue, same])
            | isFalse differ => isFalse (by simp [differ])
        | isFalse differ => isFalse (by simp [differ])
      else isFalse (by simp [sameKey])

end

instance : DecidableEq Value := decEq

end Value

end ConfigDecl

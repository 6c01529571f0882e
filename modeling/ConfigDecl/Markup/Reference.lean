import ConfigDecl.Markup.Fault

/-! # References

In texts and attribute values `&name;` stands for one of five characters and
`&#number;` for the character of that number, in decimal or, after an `x`, in
hexadecimal.  Everything else stands for itself. -/

set_option autoImplicit false

namespace ConfigDecl.Markup

namespace Radix

def base : Radix → Nat
  | .decimal => 10
  | .hexadecimal => 16

/-- The most bytes a number may have. -/
def maxLength : Radix → Nat
  | .decimal => 7
  | .hexadecimal => 6

def digit? : Radix → Char → Option Nat
  | .decimal, c => if c.isDigit then some (c.toNat - '0'.toNat) else none
  | .hexadecimal, c =>
      if c.isDigit then some (c.toNat - '0'.toNat)
      else if 'a' ≤ c ∧ c ≤ 'f' then some (c.toNat - 'a'.toNat + 10)
      else if 'A' ≤ c ∧ c ≤ 'F' then some (c.toNat - 'A'.toNat + 10)
      else none

end Radix

namespace Reference

def byteLength : List Char → Nat
  | [] => 0
  | c :: rest => c.utf8Size + byteLength rest

def firstByte (c : Char) : UInt8 := (String.utf8EncodeChar c).headD 0

def numberFrom (radix : Radix) (number : Nat) : List Char → Except ReferenceFault Nat
  | [] => .ok number
  | c :: rest =>
      match radix.digit? c with
      | some digit => numberFrom radix (number * radix.base + digit) rest
      | none => .error (.notDigit radix (firstByte c))

def number (radix : Radix) (digits : List Char) : Except ReferenceFault Nat :=
  if radix.maxLength < byteLength digits then .error (.tooLong radix)
  else numberFrom radix 0 digits

/-- The character of a number; the reference stands from `start` to `stop`. -/
def ofNumber (start stop number : Nat) : Except ReferenceFault Char :=
  if number = 0 then .error (.null start stop)
  else if number.isValidChar then .ok (Char.ofNat number)
  else .error (.notCharacter number)

def named? (name : String) : Option Char :=
  if name = "lt" then some '<'
  else if name = "gt" then some '>'
  else if name = "amp" then some '&'
  else if name = "apos" then some '\x27'
  else if name = "quot" then some '\x22'
  else none

/-- The character for what stands between the `&` at `start` and the `;` at `stop`. -/
def resolve (start stop : Nat) : List Char → Except ReferenceFault Char
  | '#' :: 'x' :: digits => do
      let n ← number .hexadecimal digits
      ofNumber start stop n
  | '#' :: digits => do
      let n ← number .decimal digits
      ofNumber start stop n
  | name =>
      match named? (String.ofList name) with
      | some c => .ok c
      | none => .error (.unknownName (start + 1) stop (String.ofList name))

def isDelimiter (c : Char) : Bool := c == '&' || c == ';'

/-- The characters for a text that begins `position` bytes into its source. -/
def expandFrom (position : Nat) (chars : List Char) : Except ReferenceFault (List Char) :=
  match chars with
  | [] => .ok []
  | c :: rest =>
      if c = '&' then
        let name := rest.takeWhile fun d => !isDelimiter d
        let stop := position + 1 + byteLength name
        match after : rest.dropWhile fun d => !isDelimiter d with
        | ';' :: tail => do
            let d ← resolve position stop name
            let expanded ← expandFrom (stop + 1) tail
            return d :: expanded
        | _ => .error (.unterminated position (position + 1 + byteLength rest))
      else do
        let expanded ← expandFrom (position + c.utf8Size) rest
        return c :: expanded
termination_by chars.length
decreasing_by
  · have shorter : tail.length + 1 ≤ rest.length := by
      have := (List.dropWhile_sublist (fun d => !isDelimiter d) (l := rest)).length_le
      rwa [after] at this
    simp only [List.length_cons]
    omega
  · simp

def expand (text : String) : Except ReferenceFault String :=
  String.ofList <$> expandFrom 0 text.toList

end Reference

end ConfigDecl.Markup

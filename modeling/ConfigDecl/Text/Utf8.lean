/-! # UTF-8

Bytes are decoded one at a time by a small machine that either stands before a
character or inside one, knowing the range of the next byte and how many more
follow it.  A sequence that cannot go on is reported where it starts, with the
number of its bytes that could still belong to a character; a sequence cut off
by the end of the data has no such number. -/

set_option autoImplicit false

namespace ConfigDecl

abbrev Bytes := List UInt8

namespace Text.Utf8

structure Fault where
  index : Nat
  length : Option Nat
  deriving DecidableEq, Repr

def Fault.message (fault : Fault) : String :=
  match fault.length with
  | some length => s!"invalid utf-8 sequence of {length} bytes from index {fault.index}"
  | none => s!"incomplete utf-8 byte sequence from index {fault.index}"

inductive State where
  | before
  | inside (start value : Nat) (low high : UInt8) (left : Nat)
  deriving DecidableEq, Repr

inductive Step where
  | char (c : Char)
  | await (state : State)
  | fault (fault : Fault)
  deriving DecidableEq, Repr

/-- The first byte of a character.  Its second byte is narrowed where a shorter
form, a surrogate or a number beyond the last character would follow. -/
def first (index : Nat) (b : UInt8) : Step :=
  if b < 0x80 then .char (Char.ofNat b.toNat)
  else if b < 0xC2 then .fault ⟨index, some 1⟩
  else if b < 0xE0 then .await (.inside index (b.toNat % 32) 0x80 0xBF 0)
  else if b = 0xE0 then .await (.inside index (b.toNat % 16) 0xA0 0xBF 1)
  else if b = 0xED then .await (.inside index (b.toNat % 16) 0x80 0x9F 1)
  else if b < 0xF0 then .await (.inside index (b.toNat % 16) 0x80 0xBF 1)
  else if b = 0xF0 then .await (.inside index (b.toNat % 8) 0x90 0xBF 2)
  else if b < 0xF4 then .await (.inside index (b.toNat % 8) 0x80 0xBF 2)
  else if b = 0xF4 then .await (.inside index (b.toNat % 8) 0x80 0x8F 2)
  else .fault ⟨index, some 1⟩

def step (index : Nat) (b : UInt8) : State → Step
  | .before => first index b
  | .inside start value low high left =>
      if low ≤ b ∧ b ≤ high then
        let value := value * 64 + b.toNat % 64
        match left with
        | 0 => .char (Char.ofNat value)
        | left + 1 => .await (.inside start value 0x80 0xBF left)
      else .fault ⟨start, some (index - start)⟩

def decodeFrom (index : Nat) (state : State) : Bytes → Except Fault (List Char)
  | [] =>
      match state with
      | .before => .ok []
      | .inside start _ _ _ _ => .error ⟨start, none⟩
  | b :: rest =>
      match step index b state with
      | .char c => (c :: ·) <$> decodeFrom (index + 1) .before rest
      | .await next => decodeFrom (index + 1) next rest
      | .fault fault => .error fault

def decode (bytes : Bytes) : Except Fault String :=
  String.ofList <$> decodeFrom 0 .before bytes

def encode (text : String) : Bytes := text.toList.flatMap String.utf8EncodeChar

/-! ## Decoding whatever is there -/

def replacement : Char := '\uFFFD'

def decodeLossyFrom (state : State) : Bytes → List Char
  | [] =>
      match state with
      | .before => []
      | .inside .. => [replacement]
  | b :: rest =>
      match step 0 b state with
      | .char c => c :: decodeLossyFrom .before rest
      | .await next => decodeLossyFrom next rest
      | .fault _ =>
          match state with
          | .before => replacement :: decodeLossyFrom .before rest
          | .inside .. =>
              match first 0 b with
              | .char c => replacement :: c :: decodeLossyFrom .before rest
              | .await next => replacement :: decodeLossyFrom next rest
              | .fault _ => replacement :: replacement :: decodeLossyFrom .before rest

/-- Each sequence that is no character becomes one replacement character. -/
def decodeLossy (bytes : Bytes) : String :=
  String.ofList (decodeLossyFrom .before bytes)

end Text.Utf8

end ConfigDecl

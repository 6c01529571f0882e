import ConfigDecl.Proofs.Attempt
import ConfigDecl.Text.Utf8

/-! # Decoding inverts encoding

The bytes of a character lead the machine from before that character to before
the next one, whatever follows, so a text is decoded from its own bytes.  A byte
below `0x80` is never a part of a longer sequence: it is in the bytes of a text
only as the character of that number. -/

set_option autoImplicit false

namespace ConfigDecl.Text.Utf8

theorem toNat_ofNat_of_lt {n : Nat} (small : n < 256) : (UInt8.ofNat n).toNat = n := by
  simp [Nat.mod_eq_of_lt small]

/-! ## One character -/

theorem first_eq (index : Nat) (b : UInt8) :
    first index b =
      if b.toNat < 0x80 then .char (Char.ofNat b.toNat)
      else if b.toNat < 0xC2 then .fault ⟨index, some 1⟩
      else if b.toNat < 0xE0 then .await (.inside index (b.toNat % 32) 0x80 0xBF 0)
      else if b.toNat = 0xE0 then .await (.inside index (b.toNat % 16) 0xA0 0xBF 1)
      else if b.toNat = 0xED then .await (.inside index (b.toNat % 16) 0x80 0x9F 1)
      else if b.toNat < 0xF0 then .await (.inside index (b.toNat % 16) 0x80 0xBF 1)
      else if b.toNat = 0xF0 then .await (.inside index (b.toNat % 8) 0x90 0xBF 2)
      else if b.toNat < 0xF4 then .await (.inside index (b.toNat % 8) 0x80 0xBF 2)
      else if b.toNat = 0xF4 then .await (.inside index (b.toNat % 8) 0x80 0x8F 2)
      else .fault ⟨index, some 1⟩ := by
  simp only [first, UInt8.lt_iff_toNat_lt, ← UInt8.toNat_inj]
  rfl

/-- A byte after the first carries six bits. -/
def tail (bits : Nat) : UInt8 := UInt8.ofNat (bits % 64 + 128)

theorem toNat_tail (bits : Nat) : (tail bits).toNat = bits % 64 + 128 :=
  toNat_ofNat_of_lt (by omega)

/-- The next byte may be the tail with these bits. -/
def Admits (low high : UInt8) (bits : Nat) : Prop :=
  low.toNat ≤ bits % 64 + 128 ∧ bits % 64 + 128 ≤ high.toNat

theorem admits_any (bits : Nat) : Admits 0x80 0xBF bits := by
  have low : (0x80 : UInt8).toNat = 128 := rfl
  have high : (0xBF : UInt8).toNat = 191 := rfl
  unfold Admits
  omega

theorem decodeFrom_last_tail {low high : UInt8} {bits : Nat} (admits : Admits low high bits)
    (index start value : Nat) (rest : Bytes) :
    decodeFrom index (.inside start value low high 0) (tail bits :: rest) =
      (decodeFrom (index + 1) .before rest).map (Char.ofNat (value * 64 + bits % 64) :: ·) := by
  have within : low ≤ tail bits ∧ tail bits ≤ high := by
    rw [UInt8.le_iff_toNat_le, UInt8.le_iff_toNat_le, toNat_tail]
    exact admits
  have same : (bits % 64 + 128) % 64 = bits % 64 := by omega
  rw [decodeFrom, step, if_pos within, toNat_tail, same]
  rfl

theorem decodeFrom_tail {low high : UInt8} {bits : Nat} (admits : Admits low high bits)
    (index start value left : Nat) (rest : Bytes) :
    decodeFrom index (.inside start value low high (left + 1)) (tail bits :: rest) =
      decodeFrom (index + 1) (.inside start (value * 64 + bits % 64) 0x80 0xBF left) rest := by
  have within : low ≤ tail bits ∧ tail bits ≤ high := by
    rw [UInt8.le_iff_toNat_le, UInt8.le_iff_toNat_le, toNat_tail]
    exact admits
  have same : (bits % 64 + 128) % 64 = bits % 64 := by omega
  rw [decodeFrom, step, if_pos within, toNat_tail, same]

theorem decodeFrom_first {b : UInt8} {state : State} {index : Nat}
    (begins : first index b = .await state) (rest : Bytes) :
    decodeFrom index .before (b :: rest) = decodeFrom (index + 1) state rest := by
  rw [decodeFrom, step, begins]

theorem utf8EncodeChar_eq (c : Char) :
    String.utf8EncodeChar c =
      if c.toNat ≤ 0x7F then [UInt8.ofNat c.toNat]
      else if c.toNat ≤ 0x7FF then [UInt8.ofNat (c.toNat / 64 % 32 + 192), tail c.toNat]
      else if c.toNat ≤ 0xFFFF then
        [UInt8.ofNat (c.toNat / 4096 % 16 + 224), tail (c.toNat / 64), tail c.toNat]
      else
        [UInt8.ofNat (c.toNat / 262144 % 8 + 240), tail (c.toNat / 4096), tail (c.toNat / 64),
          tail c.toNat] := rfl

/-! The first byte of a longer character narrows the second one, and the second
one of that very character is within what is left. -/

theorem first_of_two {n : Nat} (low : 0x80 ≤ n) (high : n ≤ 0x7FF) (index : Nat) :
    first index (UInt8.ofNat (n / 64 % 32 + 192)) =
      .await (.inside index (n / 64) 0x80 0xBF 0) := by
  have lead : (UInt8.ofNat (n / 64 % 32 + 192)).toNat = n / 64 % 32 + 192 :=
    toNat_ofNat_of_lt (by omega)
  have bits : (n / 64 % 32 + 192) % 32 = n / 64 := by omega
  rw [first_eq, lead, if_neg (by omega), if_neg (by omega), if_pos (by omega), bits]

theorem first_of_three {n : Nat} (low : 0x800 ≤ n) (high : n ≤ 0xFFFF)
    (valid : n < 0xD800 ∨ 0xDFFF < n) (index : Nat) :
    ∃ least most, first index (UInt8.ofNat (n / 4096 % 16 + 224)) =
        .await (.inside index (n / 4096) least most 1) ∧ Admits least most (n / 64) := by
  have lead : (UInt8.ofNat (n / 4096 % 16 + 224)).toNat = n / 4096 % 16 + 224 :=
    toNat_ofNat_of_lt (by omega)
  have bits : (n / 4096 % 16 + 224) % 16 = n / 4096 := by omega
  rw [first_eq, lead, bits, if_neg (by omega), if_neg (by omega), if_neg (by omega)]
  by_cases shortest : n / 4096 % 16 + 224 = 0xE0
  · refine ⟨0xA0, 0xBF, by rw [if_pos shortest], ?_⟩
    have least : (0xA0 : UInt8).toNat = 160 := rfl
    have most : (0xBF : UInt8).toNat = 191 := rfl
    unfold Admits
    omega
  rw [if_neg shortest]
  by_cases surrogate : n / 4096 % 16 + 224 = 0xED
  · refine ⟨0x80, 0x9F, by rw [if_pos surrogate], ?_⟩
    have least : (0x80 : UInt8).toNat = 128 := rfl
    have most : (0x9F : UInt8).toNat = 159 := rfl
    unfold Admits
    omega
  · exact ⟨0x80, 0xBF, by rw [if_neg surrogate, if_pos (by omega)], admits_any _⟩

theorem first_of_four {n : Nat} (low : 0x10000 ≤ n) (high : n < 0x110000) (index : Nat) :
    ∃ least most, first index (UInt8.ofNat (n / 262144 % 8 + 240)) =
        .await (.inside index (n / 262144) least most 2) ∧ Admits least most (n / 4096) := by
  have lead : (UInt8.ofNat (n / 262144 % 8 + 240)).toNat = n / 262144 % 8 + 240 :=
    toNat_ofNat_of_lt (by omega)
  have bits : (n / 262144 % 8 + 240) % 8 = n / 262144 := by omega
  rw [first_eq, lead, bits, if_neg (by omega), if_neg (by omega), if_neg (by omega),
    if_neg (by omega), if_neg (by omega), if_neg (by omega)]
  by_cases shortest : n / 262144 % 8 + 240 = 0xF0
  · refine ⟨0x90, 0xBF, by rw [if_pos shortest], ?_⟩
    have least : (0x90 : UInt8).toNat = 144 := rfl
    have most : (0xBF : UInt8).toNat = 191 := rfl
    unfold Admits
    omega
  rw [if_neg shortest]
  by_cases last : n / 262144 % 8 + 240 < 0xF4
  · exact ⟨0x80, 0xBF, by rw [if_pos last], admits_any _⟩
  · refine ⟨0x80, 0x8F, by rw [if_neg last, if_pos (by omega)], ?_⟩
    have least : (0x80 : UInt8).toNat = 128 := rfl
    have most : (0x8F : UInt8).toNat = 143 := rfl
    unfold Admits
    omega

theorem decodeFrom_encodeChar (c : Char) (index : Nat) (rest : Bytes) :
    decodeFrom index .before (String.utf8EncodeChar c ++ rest) =
      (decodeFrom (index + (String.utf8EncodeChar c).length) .before rest).map (c :: ·) := by
  have valid : c.toNat < 0xD800 ∨ 0xDFFF < c.toNat ∧ c.toNat < 0x110000 := c.valid
  have whole : Char.ofNat c.toNat = c := Char.ofNat_toNat c
  rw [utf8EncodeChar_eq]
  split
  · next one =>
      have lead : (UInt8.ofNat c.toNat).toNat = c.toNat := toNat_ofNat_of_lt (by omega)
      have begins : first index (UInt8.ofNat c.toNat) = .char c := by
        rw [first_eq, lead, if_pos (by omega), whole]
      rw [List.singleton_append, decodeFrom, step, begins]
      rfl
  split
  · next two =>
      have begins := first_of_two (by omega) two index
      have value : c.toNat / 64 * 64 + c.toNat % 64 = c.toNat := by omega
      rw [List.cons_append, decodeFrom_first begins, List.singleton_append,
        decodeFrom_last_tail (admits_any _), value, whole]
      rfl
  split
  · next three =>
      obtain ⟨least, most, begins, admits⟩ := first_of_three (by omega) three (by omega) index
      have value : (c.toNat / 4096 * 64 + c.toNat / 64 % 64) * 64 + c.toNat % 64 = c.toNat := by
        omega
      simp only [List.cons_append, List.nil_append]
      rw [decodeFrom_first begins, decodeFrom_tail admits, decodeFrom_last_tail (admits_any _),
        value, whole]
      rfl
  · obtain ⟨least, most, begins, admits⟩ := first_of_four (n := c.toNat) (by omega) (by omega) index
    have value : ((c.toNat / 262144 * 64 + c.toNat / 4096 % 64) * 64 + c.toNat / 64 % 64) * 64 +
        c.toNat % 64 = c.toNat := by omega
    simp only [List.cons_append, List.nil_append]
    rw [decodeFrom_first begins, decodeFrom_tail admits, decodeFrom_tail (admits_any _),
      decodeFrom_last_tail (admits_any _), value, whole]
    rfl

/-! ## Texts -/

theorem decodeFrom_encode (chars : List Char) (index : Nat) :
    decodeFrom index .before (chars.flatMap String.utf8EncodeChar) = .ok chars := by
  induction chars generalizing index with
  | nil => rfl
  | cons c rest ih =>
      rw [List.flatMap_cons, decodeFrom_encodeChar, ih]
      rfl

theorem decode_encode (text : String) : decode (encode text) = .ok text := by
  rw [decode, encode, decodeFrom_encode]
  exact congrArg Except.ok String.ofList_toList

theorem encode_append (a b : String) : encode (a ++ b) = encode a ++ encode b := by
  simp [encode]

theorem encode_injective {a b : String} (same : encode a = encode b) : a = b := by
  have decoded := decode_encode a
  rw [same, decode_encode] at decoded
  exact (Except.ok.inj decoded).symm

/-! ## Bytes below `0x80` -/

theorem toNat_of_mem_encodeChar {c : Char} {b : UInt8} (small : b.toNat < 0x80)
    (member : b ∈ String.utf8EncodeChar c) : c.toNat = b.toNat := by
  have noTail : ∀ bits, b ≠ tail bits := by
    intro bits same
    rw [same, toNat_tail] at small
    omega
  have noLead : ∀ bits, 0x80 ≤ bits → bits < 256 → b ≠ UInt8.ofNat bits := by
    intro bits low high same
    rw [same, toNat_ofNat_of_lt high] at small
    omega
  rw [utf8EncodeChar_eq] at member
  split at member
  · next one =>
      rw [List.mem_singleton.mp member, toNat_ofNat_of_lt (by omega)]
  split at member
  · exfalso
    rcases List.mem_cons.mp member with lead | tails
    · exact noLead _ (by omega) (by omega) lead
    · simp only [List.mem_singleton] at tails
      exact noTail _ tails
  split at member
  · exfalso
    rcases List.mem_cons.mp member with lead | tails
    · exact noLead _ (by omega) (by omega) lead
    · simp only [List.mem_cons, List.not_mem_nil, or_false] at tails
      rcases tails with second | third
      · exact noTail _ second
      · exact noTail _ third
  · exfalso
    rcases List.mem_cons.mp member with lead | tails
    · exact noLead _ (by omega) (by omega) lead
    · simp only [List.mem_cons, List.not_mem_nil, or_false] at tails
      rcases tails with second | third | fourth
      · exact noTail _ second
      · exact noTail _ third
      · exact noTail _ fourth

theorem mem_encode_iff {c : Char} (small : c.toNat < 0x80) {text : String} :
    c.toUInt8 ∈ encode text ↔ c ∈ text.toList := by
  have fits : c.toNat < 256 := by omega
  have number : c.toUInt8.toNat = c.toNat := Nat.mod_eq_of_lt fits
  have single : String.utf8EncodeChar c = [c.toUInt8] := by
    rw [utf8EncodeChar_eq, if_pos (by omega), ← number, UInt8.ofNat_toNat]
  constructor
  · intro member
    obtain ⟨d, inside, encoded⟩ := List.mem_flatMap.mp member
    have same := toNat_of_mem_encodeChar (by omega) encoded
    have equal : d = c := by
      rw [← Char.ofNat_toNat d, same, number, Char.ofNat_toNat]
    rw [← equal]
    exact inside
  · intro inside
    refine List.mem_flatMap.mpr ⟨c, inside, ?_⟩
    rw [single]
    exact List.mem_singleton.mpr rfl

end ConfigDecl.Text.Utf8

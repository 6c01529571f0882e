import ConfigDecl.Proofs.Text.Utf8

/-! # Decoding finds no other encoding

The ranges of the bytes of a character leave room for one form only, so the bytes
that decode to a text are those that it is encoded in.  Together with the inverse
this says what decoding accepts without looking at the machine. -/

set_option autoImplicit false

namespace ConfigDecl.Text.Utf8

theorem toNat_ofNat_of_valid {n : Nat} (valid : n < 0xD800 ∨ 0xDFFF < n ∧ n < 0x110000) :
    (Char.ofNat n).toNat = n := by
  rw [Char.ofNat, dif_pos valid]
  rfl

/-! ## Inside a character -/

theorem decodeFrom_last_eq_ok {index start value : Nat} {low high : UInt8} {bytes : Bytes}
    {chars : List Char}
    (decoded : decodeFrom index (.inside start value low high 0) bytes = .ok chars) :
    ∃ b rest later, bytes = b :: rest ∧ low.toNat ≤ b.toNat ∧ b.toNat ≤ high.toNat ∧
      decodeFrom (index + 1) .before rest = .ok later ∧
        chars = Char.ofNat (value * 64 + b.toNat % 64) :: later := by
  cases bytes with
  | nil => cases decoded
  | cons b rest =>
      rw [decodeFrom, step] at decoded
      by_cases within : low ≤ b ∧ b ≤ high
      · rw [if_pos within] at decoded
        obtain ⟨later, read, rfl⟩ := Attempt.map_eq_ok_iff.1 decoded
        rw [UInt8.le_iff_toNat_le, UInt8.le_iff_toNat_le] at within
        exact ⟨b, rest, later, rfl, within.1, within.2, read, rfl⟩
      · rw [if_neg within] at decoded
        cases decoded

theorem decodeFrom_more_eq_ok {index start value left : Nat} {low high : UInt8} {bytes : Bytes}
    {chars : List Char}
    (decoded : decodeFrom index (.inside start value low high (left + 1)) bytes = .ok chars) :
    ∃ b rest, bytes = b :: rest ∧ low.toNat ≤ b.toNat ∧ b.toNat ≤ high.toNat ∧
      decodeFrom (index + 1) (.inside start (value * 64 + b.toNat % 64) 0x80 0xBF left) rest =
        .ok chars := by
  cases bytes with
  | nil => cases decoded
  | cons b rest =>
      rw [decodeFrom, step] at decoded
      by_cases within : low ≤ b ∧ b ≤ high
      · rw [if_pos within] at decoded
        rw [UInt8.le_iff_toNat_le, UInt8.le_iff_toNat_le] at within
        exact ⟨b, rest, rfl, within.1, within.2, decoded⟩
      · rw [if_neg within] at decoded
        cases decoded

/-! ## The form of a character -/

theorem ofNat_eq (b : UInt8) {n : Nat} (same : n = b.toNat) : UInt8.ofNat n = b := by
  rw [same, UInt8.ofNat_toNat]

theorem tail_eq (b : UInt8) {bits : Nat} (same : bits % 64 + 128 = b.toNat) : tail bits = b :=
  ofNat_eq b same

theorem encodeChar_one {b : UInt8} (small : b.toNat < 0x80) :
    String.utf8EncodeChar (Char.ofNat b.toNat) = [b] := by
  rw [utf8EncodeChar_eq, toNat_ofNat_of_valid (by omega), if_pos (by omega), ofNat_eq b rfl]

theorem encodeChar_two {b t : UInt8} (lead : 0xC2 ≤ b.toNat ∧ b.toNat < 0xE0)
    (within : 0x80 ≤ t.toNat ∧ t.toNat ≤ 0xBF) :
    String.utf8EncodeChar (Char.ofNat (b.toNat % 32 * 64 + t.toNat % 64)) = [b, t] := by
  generalize value : b.toNat % 32 * 64 + t.toNat % 64 = n
  rw [utf8EncodeChar_eq, toNat_ofNat_of_valid (by omega), if_neg (by omega), if_pos (by omega),
    ofNat_eq b (by omega), tail_eq t (by omega)]

theorem encodeChar_three {b t u : UInt8} (lead : 0xE0 ≤ b.toNat ∧ b.toNat < 0xF0)
    (second : 0x80 ≤ t.toNat ∧ t.toNat ≤ 0xBF) (third : 0x80 ≤ u.toNat ∧ u.toNat ≤ 0xBF)
    (shortest : b.toNat = 0xE0 → 0xA0 ≤ t.toNat) (real : b.toNat = 0xED → t.toNat ≤ 0x9F) :
    String.utf8EncodeChar (Char.ofNat ((b.toNat % 16 * 64 + t.toNat % 64) * 64 + u.toNat % 64)) =
      [b, t, u] := by
  generalize value : (b.toNat % 16 * 64 + t.toNat % 64) * 64 + u.toNat % 64 = n
  rw [utf8EncodeChar_eq, toNat_ofNat_of_valid (by omega), if_neg (by omega), if_neg (by omega),
    if_pos (by omega), ofNat_eq b (by omega), tail_eq t (by omega), tail_eq u (by omega)]

theorem encodeChar_four {b t u v : UInt8} (lead : 0xF0 ≤ b.toNat ∧ b.toNat ≤ 0xF4)
    (second : 0x80 ≤ t.toNat ∧ t.toNat ≤ 0xBF) (third : 0x80 ≤ u.toNat ∧ u.toNat ≤ 0xBF)
    (fourth : 0x80 ≤ v.toNat ∧ v.toNat ≤ 0xBF) (shortest : b.toNat = 0xF0 → 0x90 ≤ t.toNat)
    (last : b.toNat = 0xF4 → t.toNat ≤ 0x8F) :
    String.utf8EncodeChar (Char.ofNat
      (((b.toNat % 8 * 64 + t.toNat % 64) * 64 + u.toNat % 64) * 64 + v.toNat % 64)) =
        [b, t, u, v] := by
  generalize value : ((b.toNat % 8 * 64 + t.toNat % 64) * 64 + u.toNat % 64) * 64 +
    v.toNat % 64 = n
  rw [utf8EncodeChar_eq, toNat_ofNat_of_valid (by omega), if_neg (by omega), if_neg (by omega),
    if_neg (by omega), ofNat_eq b (by omega), tail_eq t (by omega), tail_eq u (by omega),
    tail_eq v (by omega)]

/-- What the first byte of a longer character leaves for the others. -/
inductive Leads (index : Nat) (b : UInt8) : State → Prop where
  | two (lead : 0xC2 ≤ b.toNat ∧ b.toNat < 0xE0) :
      Leads index b (.inside index (b.toNat % 32) 0x80 0xBF 0)
  | three {low high : UInt8} (lead : 0xE0 ≤ b.toNat ∧ b.toNat < 0xF0)
      (within : 0x80 ≤ low.toNat ∧ high.toNat ≤ 0xBF)
      (shortest : b.toNat = 0xE0 → 0xA0 ≤ low.toNat) (real : b.toNat = 0xED → high.toNat ≤ 0x9F) :
      Leads index b (.inside index (b.toNat % 16) low high 1)
  | four {low high : UInt8} (lead : 0xF0 ≤ b.toNat ∧ b.toNat ≤ 0xF4)
      (within : 0x80 ≤ low.toNat ∧ high.toNat ≤ 0xBF)
      (shortest : b.toNat = 0xF0 → 0x90 ≤ low.toNat) (last : b.toNat = 0xF4 → high.toNat ≤ 0x8F) :
      Leads index b (.inside index (b.toNat % 8) low high 2)

/-- The first byte is a character by itself, begins none, or leads others. -/
theorem first_cases (index : Nat) (b : UInt8) :
    (b.toNat < 0x80 ∧ first index b = .char (Char.ofNat b.toNat)) ∨
      (∃ fault, first index b = .fault fault) ∨
        ∃ state, first index b = .await state ∧ Leads index b state := by
  have low80 : (0x80 : UInt8).toNat = 128 := rfl
  have low90 : (0x90 : UInt8).toNat = 144 := rfl
  have lowA0 : (0xA0 : UInt8).toNat = 160 := rfl
  have high8F : (0x8F : UInt8).toNat = 143 := rfl
  have high9F : (0x9F : UInt8).toNat = 159 := rfl
  have highBF : (0xBF : UInt8).toNat = 191 := rfl
  rw [first_eq]
  by_cases ascii : b.toNat < 0x80
  · rw [if_pos ascii]
    exact .inl ⟨ascii, rfl⟩
  rw [if_neg ascii]
  by_cases stray : b.toNat < 0xC2
  · rw [if_pos stray]
    exact .inr (.inl ⟨_, rfl⟩)
  rw [if_neg stray]
  by_cases two : b.toNat < 0xE0
  · rw [if_pos two]
    exact .inr (.inr ⟨_, rfl, .two (by omega)⟩)
  rw [if_neg two]
  by_cases shortest : b.toNat = 0xE0
  · rw [if_pos shortest]
    exact .inr (.inr ⟨_, rfl, .three (by omega) (by omega) (by omega) (by omega)⟩)
  rw [if_neg shortest]
  by_cases surrogate : b.toNat = 0xED
  · rw [if_pos surrogate]
    exact .inr (.inr ⟨_, rfl, .three (by omega) (by omega) (by omega) (by omega)⟩)
  rw [if_neg surrogate]
  by_cases three : b.toNat < 0xF0
  · rw [if_pos three]
    exact .inr (.inr ⟨_, rfl, .three (by omega) (by omega) (by omega) (by omega)⟩)
  rw [if_neg three]
  by_cases shortest : b.toNat = 0xF0
  · rw [if_pos shortest]
    exact .inr (.inr ⟨_, rfl, .four (by omega) (by omega) (by omega) (by omega)⟩)
  rw [if_neg shortest]
  by_cases four : b.toNat < 0xF4
  · rw [if_pos four]
    exact .inr (.inr ⟨_, rfl, .four (by omega) (by omega) (by omega) (by omega)⟩)
  rw [if_neg four]
  by_cases last : b.toNat = 0xF4
  · rw [if_pos last]
    exact .inr (.inr ⟨_, rfl, .four (by omega) (by omega) (by omega) (by omega)⟩)
  · rw [if_neg last]
    exact .inr (.inl ⟨_, rfl⟩)

/-! ## Texts -/

/-- What is decoded begins with the bytes of the first character. -/
theorem exists_first_of_decodeFrom {index : Nat} {b : UInt8} {bytes : Bytes} {chars : List Char}
    (decoded : decodeFrom index .before (b :: bytes) = .ok chars) :
    ∃ index' c rest later, b :: bytes = String.utf8EncodeChar c ++ rest ∧
      decodeFrom index' .before rest = .ok later ∧ chars = c :: later := by
  rcases first_cases index b with ⟨small, begins⟩ | ⟨fault, begins⟩ | ⟨state, begins, leads⟩
  · rw [decodeFrom, step, begins] at decoded
    obtain ⟨later, read, rfl⟩ := Attempt.map_eq_ok_iff.1 decoded
    refine ⟨_, _, bytes, later, ?_, read, rfl⟩
    rw [encodeChar_one small]
    rfl
  · rw [decodeFrom, step, begins] at decoded
    cases decoded
  · rw [decodeFrom_first begins] at decoded
    cases leads with
    | two lead =>
        obtain ⟨t, rest, later, rfl, low, high, read, rfl⟩ := decodeFrom_last_eq_ok decoded
        refine ⟨_, _, rest, later, ?_, read, rfl⟩
        rw [encodeChar_two lead ⟨low, high⟩]
        rfl
    | three lead within shortest real =>
        obtain ⟨t, rest, rfl, low, high, more⟩ := decodeFrom_more_eq_ok decoded
        obtain ⟨u, rest, later, rfl, low', high', read, rfl⟩ := decodeFrom_last_eq_ok more
        refine ⟨_, _, rest, later, ?_, read, rfl⟩
        rw [encodeChar_three lead (by omega) ⟨low', high'⟩ (by omega) (by omega)]
        rfl
    | four lead within shortest last =>
        obtain ⟨t, rest, rfl, low, high, more⟩ := decodeFrom_more_eq_ok decoded
        obtain ⟨u, rest, rfl, low', high', more⟩ := decodeFrom_more_eq_ok more
        obtain ⟨v, rest, later, rfl, low'', high'', read, rfl⟩ := decodeFrom_last_eq_ok more
        refine ⟨_, _, rest, later, ?_, read, rfl⟩
        rw [encodeChar_four lead (by omega) ⟨low', high'⟩ ⟨low'', high''⟩ (by omega) (by omega)]
        rfl

theorem encode_of_decodeFrom {bytes : Bytes} {index : Nat} {chars : List Char}
    (decoded : decodeFrom index .before bytes = .ok chars) :
    chars.flatMap String.utf8EncodeChar = bytes := by
  induction chars generalizing bytes index with
  | nil =>
      cases bytes with
      | nil => rfl
      | cons b bytes =>
          obtain ⟨_, _, _, _, _, _, none⟩ := exists_first_of_decodeFrom decoded
          cases none
  | cons c chars ih =>
      cases bytes with
      | nil => cases decoded
      | cons b bytes =>
          obtain ⟨index', d, rest, later, whole, read, same⟩ := exists_first_of_decodeFrom decoded
          cases same
          rw [List.flatMap_cons, ih read, whole]

/-- Bytes decode to a text just if they are its encoding. -/
theorem decode_eq_ok_iff {bytes : Bytes} {text : String} :
    decode bytes = .ok text ↔ encode text = bytes := by
  constructor
  · intro decoded
    obtain ⟨chars, read, rfl⟩ := Attempt.map_eq_ok_iff.1 decoded
    rw [encode, String.toList_ofList, encode_of_decodeFrom read]
  · rintro rfl
    exact decode_encode text

/-! ## Texts in parts -/

/-- The byte does not begin a character but goes on with one. -/
def Continues (b : UInt8) : Prop := 0x80 ≤ b.toNat ∧ b.toNat ≤ 0xBF

theorem continues_tail (bits : Nat) : Continues (tail bits) := by
  rw [Continues, toNat_tail]
  omega

theorem continues_of_mem_tail {c : Char} {b : UInt8}
    (member : b ∈ (String.utf8EncodeChar c).tail) : Continues b := by
  have ofTails : (∃ bits, b = tail bits) → Continues b := by
    rintro ⟨bits, rfl⟩
    exact continues_tail bits
  apply ofTails
  rw [utf8EncodeChar_eq] at member
  split at member
  · cases member
  split at member
  · exact ⟨_, List.mem_singleton.1 member⟩
  split at member
  · rcases List.mem_cons.1 member with second | third
    · exact ⟨_, second⟩
    · exact ⟨_, List.mem_singleton.1 third⟩
  · rcases List.mem_cons.1 member with second | later
    · exact ⟨_, second⟩
    rcases List.mem_cons.1 later with third | fourth
    · exact ⟨_, third⟩
    · exact ⟨_, List.mem_singleton.1 fourth⟩

/-- Bytes parted at the beginning of a character are two texts. -/
theorem exists_of_flatMap_encodeChar {chars : List Char} {first second : Bytes}
    (whole : chars.flatMap String.utf8EncodeChar = first ++ second)
    (begins : ∀ b ∈ second.head?, ¬ Continues b) :
    ∃ before after, chars = before ++ after ∧ before.flatMap String.utf8EncodeChar = first ∧
      after.flatMap String.utf8EncodeChar = second := by
  induction chars generalizing first with
  | nil =>
      obtain ⟨rfl, rfl⟩ := List.append_eq_nil_iff.1 whole.symm
      exact ⟨[], [], rfl, rfl, rfl⟩
  | cons c rest ih =>
      cases first with
      | nil => exact ⟨[], c :: rest, rfl, rfl, whole⟩
      | cons b first =>
          rw [List.flatMap_cons] at whole
          rcases List.append_eq_append_iff.1 whole with
            ⟨inner, split, later⟩ | ⟨inner, split, later⟩
          · obtain ⟨before, after, rfl, encoded, behind⟩ := ih later
            refine ⟨c :: before, after, rfl, ?_, behind⟩
            rw [List.flatMap_cons, encoded, split]
          · cases inner with
            | nil =>
                refine ⟨[c], rest, rfl, ?_, ?_⟩
                · rw [List.flatMap_singleton, split, List.append_nil]
                · rw [later, List.nil_append]
            | cons d inner =>
                -- The second part would begin inside the character.
                have member : d ∈ (String.utf8EncodeChar c).tail := by
                  rw [split, List.cons_append, List.tail_cons]
                  exact List.mem_append_right _ List.mem_cons_self
                have head : d ∈ second.head? := by
                  rw [later]
                  exact rfl
                exact absurd (continues_of_mem_tail member) (begins d head)

theorem exists_of_encode_eq_append {text : String} {first second : Bytes}
    (whole : encode text = first ++ second) (begins : ∀ b ∈ second.head?, ¬ Continues b) :
    ∃ before after, text = before ++ after ∧ encode before = first ∧ encode after = second := by
  obtain ⟨before, after, split, front, behind⟩ := exists_of_flatMap_encodeChar whole begins
  refine ⟨String.ofList before, String.ofList after, ?_, ?_, ?_⟩
  · rw [← String.ofList_append, ← split, String.ofList_toList]
  · rw [encode, String.toList_ofList, front]
  · rw [encode, String.toList_ofList, behind]

end ConfigDecl.Text.Utf8

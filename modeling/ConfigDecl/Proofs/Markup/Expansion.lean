import ConfigDecl.Proofs.Markup.Escape
import ConfigDecl.Proofs.Text.Canonical

/-! # Texts in parts

What a text expands to is found piece by piece, each character or reference by
itself, and does not depend on where the text begins.  So a text may be decoded in
two parts whenever it is not parted inside a character or a reference, and two
texts that follow each other may be decoded as one. -/

set_option autoImplicit false

namespace ConfigDecl.Markup

open Text.Utf8 (encode encode_append decode_eq_ok_iff mem_encode_iff)

/-! ## Expanding -/

namespace Reference

def Resolves (name : List Char) (c : Char) : Prop := ∀ start stop, resolve start stop name = .ok c

/-- The characters with every reference replaced by its character. -/
inductive Expands : List Char → List Char → Prop where
  | nil : Expands [] []
  | plain {c : Char} {rest expanded : List Char} (plain : c ≠ '&')
      (later : Expands rest expanded) : Expands (c :: rest) (c :: expanded)
  | reference {name rest expanded : List Char} {c : Char}
      (free : ∀ d ∈ name, isDelimiter d = false) (resolves : Resolves name c)
      (later : Expands rest expanded) : Expands ('&' :: (name ++ ';' :: rest)) (c :: expanded)

theorem ofNumber_eq_ok {start stop start' stop' n : Nat} {c : Char}
    (made : ofNumber start stop n = .ok c) : ofNumber start' stop' n = .ok c := by
  rw [ofNumber] at made ⊢
  by_cases zero : n = 0
  · rw [if_pos zero] at made
    cases made
  · rw [if_neg zero] at made ⊢
    exact made

theorem resolves_of_resolve {name : List Char} {c : Char} {start stop : Nat}
    (resolved : resolve start stop name = .ok c) : Resolves name c := by
  intro start' stop'
  have numbered : ∀ (radix : Radix) (digits : List Char),
      (number radix digits).bind (ofNumber start stop) = .ok c →
        (number radix digits).bind (ofNumber start' stop') = .ok c := by
    intro radix digits made
    obtain ⟨n, read, made⟩ := Attempt.bind_eq_ok_iff.1 made
    exact Attempt.bind_eq_ok_iff.2 ⟨n, read, ofNumber_eq_ok made⟩
  unfold resolve at resolved ⊢
  split at resolved
  · exact numbered _ _ resolved
  · exact numbered _ _ resolved
  · cases known : named? (String.ofList name) with
    | none =>
        rw [known] at resolved
        cases resolved
    | some d =>
        rw [known] at resolved
        exact resolved

theorem expands_of_expandFrom {position : Nat} {chars expanded : List Char}
    (read : expandFrom position chars = .ok expanded) : Expands chars expanded := by
  induction position, chars using expandFrom.induct generalizing expanded with
  | case1 position =>
      rw [expandFrom] at read
      cases read
      exact .nil
  | case2 position rest name stop tail after =>
      rename_i ih
      have split : rest = name ++ ';' :: tail := by rw [← after, List.takeWhile_append_dropWhile]
      have free : ∀ d ∈ name, isDelimiter d = false := by
        intro d member
        simpa using List.mem_takeWhile_imp member
      rw [split, expandFrom_delimited free] at read
      obtain ⟨c, resolved, mapped⟩ := Attempt.bind_eq_ok_iff.1 read
      obtain ⟨later, expanded, rfl⟩ := Attempt.map_eq_ok_iff.1 mapped
      rw [split]
      exact .reference free (resolves_of_resolve resolved) (ih expanded)
  | case3 position rest unterminated =>
      rw [expandFrom, if_pos rfl] at read
      dsimp only at read
      split at read
      · next tail after => exact (unterminated tail after).elim
      · cases read
  | case4 position c rest plain ih =>
      rw [expandFrom_plain plain] at read
      obtain ⟨later, expanded, rfl⟩ := Attempt.map_eq_ok_iff.1 read
      exact .plain plain (ih expanded)

theorem expandFrom_of_expands {chars expanded : List Char} (expands : Expands chars expanded)
    (position : Nat) : expandFrom position chars = .ok expanded := by
  induction expands generalizing position with
  | nil => rw [expandFrom]
  | plain plain _ ih =>
      rw [expandFrom_plain plain, ih]
      rfl
  | reference free resolves _ ih =>
      rw [expandFrom_delimited free, resolves, Attempt.bind_ok, ih]
      rfl

theorem expand_eq_ok_iff {text expanded : String} :
    expand text = .ok expanded ↔ Expands text.toList expanded.toList := by
  constructor
  · intro read
    obtain ⟨chars, expanded, rfl⟩ := Attempt.map_eq_ok_iff.1 read
    rw [String.toList_ofList]
    exact expands_of_expandFrom expanded
  · intro expands
    rw [expand, expandFrom_of_expands expands]
    exact congrArg Except.ok String.ofList_toList

theorem Expands.append {first second expanded expanded' : List Char}
    (front : Expands first expanded) (behind : Expands second expanded') :
    Expands (first ++ second) (expanded ++ expanded') := by
  induction front with
  | nil => exact behind
  | plain plain _ ih => exact .plain plain ih
  | reference free resolves _ ih =>
      rw [List.cons_append, List.append_assoc, List.cons_append]
      exact .reference free resolves ih

/-- Every reference that begins in the characters ends in them. -/
def Closed (chars : List Char) : Prop :=
  ∀ before name, chars = before ++ '&' :: name → ';' ∈ name

theorem Closed.of_append (before : List Char) {chars : List Char}
    (closed : Closed (before ++ chars)) : Closed chars := by
  intro earlier name split
  apply closed (before ++ earlier) name
  rw [split, List.append_assoc]

theorem Expands.exists_of_append {first second whole : List Char}
    (expands : Expands (first ++ second) whole) (closed : Closed first) :
    ∃ expanded expanded', Expands first expanded ∧ Expands second expanded' ∧
      whole = expanded ++ expanded' := by
  generalize parts : first ++ second = chars at expands
  induction expands generalizing first with
  | nil =>
      obtain ⟨rfl, rfl⟩ := List.append_eq_nil_iff.1 parts
      exact ⟨[], [], .nil, .nil, rfl⟩
  | @plain c rest expanded plain later ih =>
      cases first with
      | nil =>
          rw [List.nil_append] at parts
          rw [parts]
          exact ⟨[], _, .nil, .plain plain later, rfl⟩
      | cons d first =>
          obtain ⟨rfl, same⟩ := List.cons.inj parts
          have closed' : Closed first := Closed.of_append [d] closed
          obtain ⟨front, behind, left, right, rfl⟩ := ih closed' same
          exact ⟨d :: front, behind, .plain plain left, right, rfl⟩
  | @reference name rest expanded c free resolves later ih =>
      cases first with
      | nil =>
          rw [List.nil_append] at parts
          rw [parts]
          exact ⟨[], _, .nil, .reference free resolves later, rfl⟩
      | cons d first =>
          obtain ⟨rfl, same⟩ := List.cons.inj parts
          have ends : ';' ∈ first := closed [] first rfl
          have outside : ';' ∉ name := by
            intro member
            exact absurd (free ';' member) (by decide)
          -- The `;` in the first part is that of the reference.
          rcases List.append_eq_append_iff.1 same with ⟨more, split, _⟩ | ⟨more, split, left⟩
          · apply absurd _ outside
            rw [split]
            exact List.mem_append_left _ ends
          · cases more with
            | nil =>
                rw [List.append_nil] at split
                rw [split] at ends
                exact absurd ends outside
            | cons e more =>
                obtain ⟨rfl, rest⟩ := List.cons.inj left
                have closed' : Closed more := by
                  apply Closed.of_append ('&' :: name ++ [';'])
                  rw [split] at closed
                  simpa using closed
                obtain ⟨front, behind, left, right, rfl⟩ := ih closed' rest.symm
                refine ⟨c :: front, behind, ?_, right, rfl⟩
                rw [split]
                exact .reference free resolves left

end Reference

/-! ## Decoding -/

theorem decodeBytes_eq_ok_iff {bytes : Bytes} {text : String} :
    decodeBytes bytes = .ok text ↔ encode text = bytes := by
  rw [← decode_eq_ok_iff, decodeBytes]
  cases Text.Utf8.decode bytes <;> simp

theorem decodeText_eq_ok_iff {bytes : Bytes} {expanded : String} :
    decodeText bytes = .ok expanded ↔
      ∃ text, encode text = bytes ∧ Reference.Expands text.toList expanded.toList := by
  rw [decodeText, Attempt.do_eq_bind, Attempt.bind_eq_ok_iff]
  simp only [decodeBytes_eq_ok_iff]
  apply exists_congr
  intro text
  rw [← Reference.expand_eq_ok_iff]
  cases Reference.expand text <;> simp

/-- What follows a text in the source is not the rest of a character of the text
or of a reference in it. -/
structure Parted (text after : Bytes) : Prop where
  character : ∀ b ∈ after.head?, ¬ Text.Utf8.Continues b
  reference : ∀ before name, text = before ++ '&'.toUInt8 :: name → ';'.toUInt8 ∈ name

theorem closed_of_parted {text : String} {after : Bytes} (parted : Parted (encode text) after) :
    Reference.Closed text.toList := by
  intro before name split
  have encoded : encode text =
      encode (String.ofList before) ++ '&'.toUInt8 :: encode (String.ofList name) := by
    rw [← String.ofList_toList (s := text), split]
    simp [encode]
    rfl
  have ends := parted.reference _ _ encoded
  rw [mem_encode_iff (by decide), String.toList_ofList] at ends
  exact ends

/-- Two texts that follow each other are one text. -/
theorem decodeText_append {first second : Bytes} {expanded expanded' : String}
    (front : decodeText first = .ok expanded) (behind : decodeText second = .ok expanded') :
    decodeText (first ++ second) = .ok (expanded ++ expanded') := by
  rw [decodeText_eq_ok_iff] at front behind ⊢
  obtain ⟨text, rfl, expands⟩ := front
  obtain ⟨text', rfl, expands'⟩ := behind
  refine ⟨text ++ text', encode_append text text', ?_⟩
  rw [String.toList_append, String.toList_append]
  exact expands.append expands'

/-- A text that is not parted inside a character or a reference is two texts. -/
theorem exists_of_decodeText_append {first second : Bytes} {whole : String}
    (read : decodeText (first ++ second) = .ok whole) (parted : Parted first second) :
    ∃ expanded expanded', decodeText first = .ok expanded ∧ decodeText second = .ok expanded' ∧
      whole = expanded ++ expanded' := by
  obtain ⟨text, encoded, expands⟩ := decodeText_eq_ok_iff.1 read
  obtain ⟨before, after, rfl, rfl, rfl⟩ :=
    Text.Utf8.exists_of_encode_eq_append encoded parted.character
  rw [String.toList_append] at expands
  obtain ⟨expanded, expanded', front, behind, split⟩ :=
    expands.exists_of_append (closed_of_parted parted)
  refine ⟨String.ofList expanded, String.ofList expanded', ?_, ?_, ?_⟩
  · rw [decodeText_eq_ok_iff]
    refine ⟨before, rfl, ?_⟩
    rwa [String.toList_ofList]
  · rw [decodeText_eq_ok_iff]
    refine ⟨after, rfl, ?_⟩
    rwa [String.toList_ofList]
  · rw [← String.ofList_append, ← split, String.ofList_toList]

end ConfigDecl.Markup

import ConfigDecl.Markup.Attribute
import ConfigDecl.Proofs.Text.Reach
import ConfigDecl.Proofs.Text.Utf8

/-! # Escapes

A character that would be taken for markup is written as a reference, by a name
out of a table; every other character stands for itself.  Expanding the
references gives the text back, whatever the text is, as long as the table gives
a name to the `&` itself. -/

set_option autoImplicit false

namespace ConfigDecl.Markup

open Text (Stops stops_cons takeWhile_append_of_stops dropWhile_append_of_stops)

/-- The characters that are written as references, each with the name it has. -/
structure Escapes where
  names : List (Char × String)
  known : ∀ pair ∈ names, Reference.named? pair.2 = some pair.1
  letters : ∀ pair ∈ names, pair.2.toList.all Char.isAlpha = true
  ampersand : (names.lookup '&').isSome = true

namespace Escapes

/-- In a text. -/
def inText : Escapes where
  names := [('&', "amp"), ('<', "lt"), ('>', "gt")]
  known := by decide
  letters := by decide
  ampersand := by decide

/-- In a value between double quotation marks. -/
def inValue : Escapes where
  names := [('&', "amp"), ('<', "lt"), ('>', "gt"), ('\x22', "quot")]
  known := by decide
  letters := by decide
  ampersand := by decide

variable (escapes : Escapes)

def written (c : Char) : List Char :=
  match escapes.names.lookup c with
  | some name => '&' :: (name.toList ++ [';'])
  | none => [c]

def escape (text : String) : String := String.ofList (text.toList.flatMap escapes.written)

variable {escapes}

theorem mem_names {c : Char} {name : String} (found : escapes.names.lookup c = some name) :
    (c, name) ∈ escapes.names := by
  obtain ⟨before, after, split, _⟩ := List.lookup_eq_some_iff.1 found
  rw [split]
  exact List.mem_append_right _ List.mem_cons_self

end Escapes

/-! ## Expanding -/

namespace Reference

theorem resolve_named {name : List Char} {c : Char} (letters : ∀ d ∈ name, d.isAlpha = true)
    (known : named? (String.ofList name) = some c) (start stop : Nat) :
    resolve start stop name = .ok c := by
  have notNumber : name.head? ≠ some '#' := by
    intro begins
    have letter := letters '#' (List.mem_of_head? begins)
    exact absurd letter (by decide)
  unfold resolve
  split
  · exact absurd rfl notNumber
  · exact absurd rfl notNumber
  · rw [known]

theorem expandFrom_plain {c : Char} (plain : c ≠ '&') (position : Nat) (rest : List Char) :
    expandFrom position (c :: rest) =
      (expandFrom (position + c.utf8Size) rest).map (c :: ·) := by
  rw [expandFrom, if_neg plain]
  cases expandFrom (position + c.utf8Size) rest <;> rfl

/-- A reference is read up to its `;`, whatever comes after it. -/
theorem expandFrom_delimited {name : List Char} (free : ∀ d ∈ name, isDelimiter d = false)
    (position : Nat) (rest : List Char) :
    expandFrom position ('&' :: (name ++ ';' :: rest)) =
      (resolve position (position + 1 + byteLength name) name).bind fun c =>
        (expandFrom (position + 1 + byteLength name + 1) rest).map (c :: ·) := by
  have reached : ∀ d ∈ name, (!isDelimiter d) = true := by
    intro d member
    rw [free d member]
    rfl
  have stops : Stops (fun d => !isDelimiter d) (';' :: rest) := stops_cons rfl
  have before := takeWhile_append_of_stops reached stops
  have after := dropWhile_append_of_stops reached stops
  rw [expandFrom, if_pos rfl]
  simp only [before]
  split
  · next tail found =>
      rw [after] at found
      cases found
      cases resolve position (position + 1 + byteLength name) name with
      | error fault => rfl
      | ok c => cases expandFrom (position + 1 + byteLength name + 1) rest <;> rfl
  · next other =>
      exact absurd after (other rest)

theorem isDelimiter_of_isAlpha {d : Char} (letter : d.isAlpha = true) : isDelimiter d = false := by
  simp only [isDelimiter, Bool.or_eq_false_iff, beq_eq_false_iff_ne]
  constructor
  · rintro rfl
    exact absurd letter (by decide)
  · rintro rfl
    exact absurd letter (by decide)

theorem expandFrom_reference {name : List Char} {c : Char}
    (letters : ∀ d ∈ name, d.isAlpha = true) (known : named? (String.ofList name) = some c)
    (position : Nat) (rest : List Char) :
    expandFrom position ('&' :: (name ++ ';' :: rest)) =
      (expandFrom (position + 1 + byteLength name + 1) rest).map (c :: ·) := by
  have free : ∀ d ∈ name, isDelimiter d = false :=
    fun d member => isDelimiter_of_isAlpha (letters d member)
  rw [expandFrom_delimited free, resolve_named letters known]
  rfl

theorem expandFrom_written (escapes : Escapes) (c : Char) (position : Nat) (rest : List Char) :
    ∃ next, expandFrom position (escapes.written c ++ rest) =
      (expandFrom next rest).map (c :: ·) := by
  rw [Escapes.written]
  cases found : escapes.names.lookup c with
  | some name =>
      have member := Escapes.mem_names found
      have known : named? (String.ofList name.toList) = some c := by
        rw [String.ofList_toList]
        exact escapes.known _ member
      have letters := List.all_eq_true.1 (escapes.letters _ member)
      have read := expandFrom_reference letters known position rest
      refine ⟨_, Eq.trans ?_ read⟩
      simp only [List.cons_append, List.append_assoc, List.nil_append]
  | none =>
      have plain : c ≠ '&' := by
        rintro rfl
        have named := escapes.ampersand
        rw [found] at named
        cases named
      exact ⟨_, expandFrom_plain plain position rest⟩

theorem expandFrom_escaped (escapes : Escapes) (chars : List Char) (position : Nat) :
    expandFrom position (chars.flatMap escapes.written) = .ok chars := by
  induction chars generalizing position with
  | nil => rw [List.flatMap_nil, expandFrom]
  | cons c rest ih =>
      obtain ⟨next, step⟩ := expandFrom_written escapes c position (rest.flatMap escapes.written)
      rw [List.flatMap_cons, step, ih]
      rfl

theorem expand_escape (escapes : Escapes) (text : String) :
    expand (escapes.escape text) = .ok text := by
  rw [expand, Escapes.escape, String.toList_ofList, expandFrom_escaped]
  exact congrArg Except.ok String.ofList_toList

end Reference

theorem decodeBytes_encode (text : String) : decodeBytes (Text.Utf8.encode text) = .ok text := by
  rw [decodeBytes, Text.Utf8.decode_encode]

theorem decodeText_escape (escapes : Escapes) (text : String) :
    decodeText (Text.Utf8.encode (escapes.escape text)) = .ok text := by
  have decoded := decodeBytes_encode (escapes.escape text)
  simp only [decodeText, decoded, Reference.expand_escape, Attempt.do_eq_bind, Attempt.bind_ok]

/-! ## What is left of markup -/

namespace Escapes

variable {escapes : Escapes}

theorem mem_written {c d : Char} (member : d ∈ escapes.written c) :
    d = '&' ∨ d = ';' ∨ d.isAlpha = true ∨ escapes.names.lookup d = none := by
  rw [written] at member
  cases found : escapes.names.lookup c with
  | some name =>
      rw [found] at member
      simp only [List.mem_cons, List.mem_append, List.not_mem_nil, or_false] at member
      obtain ampersand | letter | semicolon := member
      · exact .inl ampersand
      · have letters := List.all_eq_true.1 (escapes.letters _ (mem_names found))
        exact .inr (.inr (.inl (letters d letter)))
      · exact .inr (.inl semicolon)
  | none =>
      rw [found] at member
      cases List.mem_singleton.mp member
      exact .inr (.inr (.inr found))

/-- A character with a name is not there any more, unless references are made of it. -/
theorem not_mem_encode_escape {c : Char} (named : escapes.names.lookup c ≠ none)
    (apart : c ≠ '&' ∧ c ≠ ';' ∧ c.isAlpha = false) (small : c.toNat < 0x80) (text : String) :
    c.toUInt8 ∉ Text.Utf8.encode (escapes.escape text) := by
  intro encoded
  have member := (Text.Utf8.mem_encode_iff small).1 encoded
  rw [escape, String.toList_ofList, List.mem_flatMap] at member
  obtain ⟨original, _, member⟩ := member
  obtain ampersand | semicolon | letter | unnamed := mem_written member
  · exact apart.1 ampersand
  · exact apart.2.1 semicolon
  · rw [apart.2.2] at letter
    cases letter
  · exact named unnamed

theorem encode_escape_ne_nil {text : String} (filled : text ≠ "") :
    Text.Utf8.encode (escapes.escape text) ≠ [] := by
  intro none
  have read := decodeText_escape escapes text
  have empty := decodeText_escape escapes ""
  rw [none] at read
  exact filled (Except.ok.inj (read.symm.trans empty))

end Escapes

end ConfigDecl.Markup

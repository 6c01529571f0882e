import ConfigDecl.Proofs.Integer.Literal
import ConfigDecl.Proofs.Output.Keys
import ConfigDecl.Proofs.Text.Reach
import Mathlib.Data.List.Basic

/-! # Reading literals back

A literal tells where it ends, whatever comes after it: an integer at the first
character that is no part of a numeral, a text at the first quote, a dictionary
at the brace that stands where a key would.  So it can be read back from the
front of a text, as long as no text in the value contains a quote. -/

set_option autoImplicit false

namespace ConfigDecl.Value

mutual

/-- The texts at every depth. -/
def texts : Value → List String
  | .integer _ => []
  | .text content => [content]
  | .dictionary ⟨entries⟩ => entriesTexts entries

def entriesTexts : List (String × Value) → List String
  | [] => []
  | (_, value) :: rest => texts value ++ entriesTexts rest

end

/-- No text at any depth contains a quote. -/
def QuoteFree (value : Value) : Prop := ∀ content ∈ value.texts, '\x22' ∉ content.toList

instance (value : Value) : Decidable value.QuoteFree :=
  inferInstanceAs (Decidable (∀ content ∈ value.texts, '\x22' ∉ content.toList))

end ConfigDecl.Value

namespace ConfigDecl.Output

open Text (Stops stops_nil stops_cons takeWhile_append_of_stops dropWhile_append_of_stops)

/-- What comes after the delimiter, if the text begins with it. -/
def after? (delimiter : String) (chars : List Char) : Option (List Char) :=
  delimiter.toList.isPrefixOf? chars

theorem after?_append (delimiter : String) (rest : List Char) :
    after? delimiter (delimiter.toList ++ rest) = some rest := by
  simp [after?]

/-- The delimiter is not there when the first characters differ already. -/
theorem after?_eq_none {delimiter : String} {first c : Char} {more rest : List Char}
    (begins : delimiter.toList = first :: more) (differ : c ≠ first) :
    after? delimiter (c :: rest) = none := by
  have apart : (first == c) = false := beq_false_of_ne fun same => differ same.symm
  rw [after?, begins, List.isPrefixOf?, apart]
  rfl

def isNumeral (c : Char) : Bool := c.isDigit || c == '-'

def notQuote (c : Char) : Bool := c != '\x22'

def decodeInteger (chars : List Char) : Option (Value × List Char) :=
  ((Integer.literal? (chars.takeWhile isNumeral)).bind Integer.narrow?).map fun n =>
    (.integer n, chars.dropWhile isNumeral)

def decodeContent (chars : List Char) : Option (Value × List Char) :=
  (after? textClose (chars.dropWhile notQuote)).map fun rest =>
    (.text (String.ofList (chars.takeWhile notQuote)), rest)

mutual

/-- The value whose literal the text begins with, and the rest of the text. -/
def decodeValue : Nat → List Char → Option (Value × List Char)
  | 0, _ => none
  | fuel + 1, chars =>
      match after? textOpen chars with
      | some content => decodeContent content
      | none =>
          match after? dictionaryOpen chars with
          | some body =>
              (after? "\n" body).bind fun lines =>
                (decodeEntries fuel lines).map fun (entries, rest) =>
                  (.dictionary ⟨entries⟩, rest)
          | none => decodeInteger chars

def decodeEntries : Nat → List Char → Option (List (String × Value) × List Char)
  | 0, _ => none
  | fuel + 1, chars =>
      match after? dictionaryClose chars with
      | some rest => some ([], rest)
      | none =>
          (after? dictionaryArrow (chars.dropWhile Char.isAlphanum)).bind fun body =>
            (decodeValue fuel body).bind fun (value, ending) =>
              (after? entryEnd ending).bind fun line =>
                (after? "\n" line).bind fun next =>
                  (decodeEntries fuel next).map fun (entries, rest) =>
                    ((String.ofList (chars.takeWhile Char.isAlphanum), value) :: entries, rest)

end

/-! ## Integers, texts and names -/

theorem isNumeral_decimal (n : Int64) : ∀ c ∈ (Integer.decimal n).toList, isNumeral c = true := by
  have digits : ∀ m : Nat, ∀ c ∈ Nat.toDigits 10 m, isNumeral c = true := by
    intro m c member
    simp [isNumeral, (Integer.isDigits_iff.1 (Integer.isDigits_toDigits m)).2 c member]
  intro c member
  rw [Integer.toList_decimal] at member
  split at member
  · exact digits _ c member
  · rcases List.mem_cons.mp member with rfl | digit
    · decide
    · exact digits _ c digit

theorem decodeInteger_append (n : Int64) {rest : List Char} (stops : Stops isNumeral rest) :
    decodeInteger ((Integer.decimal n).toList ++ rest) = some (.integer n, rest) := by
  have reached := isNumeral_decimal n
  rw [decodeInteger, takeWhile_append_of_stops reached stops,
    dropWhile_append_of_stops reached stops, Integer.literal?_decimal]
  simp

theorem decodeContent_append {content : String} (quoteFree : '\x22' ∉ content.toList)
    (rest : List Char) :
    decodeContent (content.toList ++ (textClose.toList ++ rest)) =
      some (.text content, rest) := by
  have reached : ∀ c ∈ content.toList, notQuote c = true := by
    intro c member
    have differ : c ≠ '\x22' := by
      rintro rfl
      exact quoteFree member
    simp [notQuote, differ]
  have stops : Stops notQuote (textClose.toList ++ rest) := stops_cons (by decide)
  rw [decodeContent, takeWhile_append_of_stops reached stops,
    dropWhile_append_of_stops reached stops, after?_append]
  simp

theorem isAlphanum_of_mem_ident {name : String} (ident : isIdent name = true) :
    ∀ c ∈ name.toList, c.isAlphanum = true := by
  intro c member
  rw [isIdent] at ident
  cases chars : name.toList with
  | nil =>
      rw [chars] at member
      cases member
  | cons first later =>
      rw [chars, identChars, Bool.and_eq_true] at ident
      rw [chars] at member
      rcases List.mem_cons.mp member with rfl | inside
      · simp [Char.isAlphanum, ident.1]
      · exact List.all_eq_true.mp ident.2 c inside

/-! ## Values -/

theorem after?_numeral {delimiter : String} {first : Char} {more : List Char}
    (begins : delimiter.toList = first :: more) (differ : isNumeral first = false)
    {numeral : List Char} (nonempty : numeral ≠ []) (all : ∀ c ∈ numeral, isNumeral c = true)
    (rest : List Char) : after? delimiter (numeral ++ rest) = none := by
  cases numeral with
  | nil => exact absurd rfl nonempty
  | cons c numeral =>
      refine after?_eq_none begins ?_
      rintro rfl
      rw [all c (by simp)] at differ
      cases differ

theorem decimal_ne_nil (n : Int64) : (Integer.decimal n).toList ≠ [] := by
  intro empty
  have read := Integer.literal?_decimal n
  rw [empty] at read
  cases read

theorem after?_close_ident {key : String} (ident : isIdent key = true) (rest : List Char) :
    after? dictionaryClose (key.toList ++ rest) = none := by
  have alphanum := isAlphanum_of_mem_ident ident
  rw [isIdent] at ident
  cases chars : key.toList with
  | nil =>
      rw [chars] at ident
      cases ident
  | cons first later =>
      rw [chars] at alphanum
      have begins : dictionaryClose.toList = '\x7d' :: [] := by decide
      refine after?_eq_none begins ?_
      rintro rfl
      have brace := alphanum '\x7d' (by simp)
      revert brace
      decide

theorem toList_literal_dictionary (entries : List (String × Value)) (rest : List Char) :
    (Value.literal (.dictionary ⟨entries⟩)).toList ++ rest =
      dictionaryOpen.toList ++ ("\n".toList ++ ((Value.entriesLiteral entries).toList ++
        (dictionaryClose.toList ++ rest))) := by
  rw [Value.literal]
  simp only [String.toList_append, List.append_assoc]

theorem toList_entriesLiteral_cons (key : String) (value : Value)
    (later : List (String × Value)) (rest : List Char) :
    (Value.entriesLiteral ((key, value) :: later)).toList ++ rest =
      key.toList ++ (dictionaryArrow.toList ++ (value.literal.toList ++ (entryEnd.toList ++
        ("\n".toList ++ ((Value.entriesLiteral later).toList ++ rest))))) := by
  rw [Value.entriesLiteral]
  simp only [String.toList_append, List.append_assoc]

mutual

theorem decodeValue_append : ∀ (value : Value) (fuel : Nat) (rest : List Char),
    value.KeysAreIdents → value.QuoteFree → value.literal.length ≤ fuel →
    Stops isNumeral rest →
    decodeValue fuel (value.literal.toList ++ rest) = some (value, rest)
  | .integer n, fuel, rest, _, _, enough, stops => by
      have all := isNumeral_decimal n
      have nonempty := decimal_ne_nil n
      cases fuel with
      | zero =>
          have none : Integer.decimal n = "" := by
            simpa [Value.literal] using enough
          exact absurd (by rw [none]; rfl) nonempty
      | succ fuel =>
          have noText : after? textOpen ((Integer.decimal n).toList ++ rest) = none :=
            after?_numeral rfl (by decide) nonempty all rest
          have noDictionary : after? dictionaryOpen ((Integer.decimal n).toList ++ rest) = none :=
            after?_numeral rfl (by decide) nonempty all rest
          rw [Value.literal, decodeValue, noText, noDictionary]
          exact decodeInteger_append n stops
  | .text content, fuel, rest, _, quoteFree, enough, _ => by
      cases fuel with
      | zero => simp [Value.literal, textOpen] at enough
      | succ fuel =>
          rw [Value.literal, String.toList_append, String.toList_append, List.append_assoc,
            List.append_assoc, decodeValue, after?_append]
          exact decodeContent_append (quoteFree content (by simp [Value.texts])) rest
  | .dictionary ⟨entries⟩, fuel, rest, idents, quoteFree, enough, _ => by
      simp only [Value.literal, String.length_append] at enough
      have openLength : dictionaryOpen.length = 1 := by decide
      have breakLength : "\n".length = 1 := by decide
      cases fuel with
      | zero => omega
      | succ fuel =>
          have body := decodeEntries_append entries fuel rest idents quoteFree (by omega)
          have begins : textOpen.toList = '@' :: ['\x22'] := by decide
          have noText (more : List Char) : after? textOpen (dictionaryOpen.toList ++ more) = none :=
            after?_eq_none begins (by decide)
          rw [toList_literal_dictionary, decodeValue, noText]
          simp only [after?_append, Option.bind_some, body, Option.map_some]

theorem decodeEntries_append : ∀ (entries : List (String × Value)) (fuel : Nat)
    (rest : List Char),
    (∀ key ∈ Value.entriesKeys entries, isIdent key = true) →
    (∀ content ∈ Value.entriesTexts entries, '\x22' ∉ content.toList) →
    (Value.entriesLiteral entries).length + 1 ≤ fuel →
    decodeEntries fuel ((Value.entriesLiteral entries).toList ++
      (dictionaryClose.toList ++ rest)) = some (entries, rest)
  | [], fuel, rest, _, _, enough => by
      cases fuel with
      | zero => omega
      | succ fuel =>
          have nothing : (Value.entriesLiteral []).toList = [] := rfl
          rw [nothing, List.nil_append, decodeEntries, after?_append]
  | (key, value) :: later, fuel, rest, idents, quoteFree, enough => by
      have ident : isIdent key = true := idents key (by simp [Value.entriesKeys])
      have valueIdents : value.KeysAreIdents := fun other member =>
        idents other (by simp [Value.entriesKeys, member])
      have laterIdents : ∀ other ∈ Value.entriesKeys later, isIdent other = true :=
        fun other member => idents other (by simp [Value.entriesKeys, member])
      have valueQuoteFree : value.QuoteFree := fun content member =>
        quoteFree content (by simp [Value.entriesTexts, member])
      have laterQuoteFree : ∀ content ∈ Value.entriesTexts later, '\x22' ∉ content.toList :=
        fun content member => quoteFree content (by simp [Value.entriesTexts, member])
      simp only [Value.entriesLiteral, String.length_append] at enough
      have breakLength : "\n".length = 1 := by decide
      cases fuel with
      | zero => omega
      | succ fuel =>
          have alphanum := isAlphanum_of_mem_ident ident
          have keyStops (more : List Char) :
              Stops Char.isAlphanum (dictionaryArrow.toList ++ more) := stops_cons (by decide)
          have valueStops (more : List Char) :
              Stops isNumeral (entryEnd.toList ++ more) := stops_cons (by decide)
          rw [toList_entriesLiteral_cons, decodeEntries, after?_close_ident ident,
            takeWhile_append_of_stops alphanum (keyStops _),
            dropWhile_append_of_stops alphanum (keyStops _)]
          simp only [after?_append, Option.bind_some]
          rw [decodeValue_append value fuel _ valueIdents valueQuoteFree (by omega)
            (valueStops _)]
          simp only [after?_append, Option.bind_some]
          rw [decodeEntries_append later fuel rest laterIdents laterQuoteFree (by omega)]
          simp

end

theorem literal_injective {a b : Value} (aIdents : a.KeysAreIdents) (bIdents : b.KeysAreIdents)
    (aQuoteFree : a.QuoteFree) (bQuoteFree : b.QuoteFree) (same : a.literal = b.literal) :
    a = b := by
  have readA := decodeValue_append a a.literal.length [] aIdents aQuoteFree le_rfl stops_nil
  have readB := decodeValue_append b b.literal.length [] bIdents bQuoteFree le_rfl stops_nil
  rw [same, readB] at readA
  cases readA
  rfl

end ConfigDecl.Output

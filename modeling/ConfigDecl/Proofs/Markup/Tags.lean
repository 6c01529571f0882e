import ConfigDecl.Proofs.Markup.Escape
import ConfigDecl.Proofs.Markup.Pile

/-! # Writing tags

A tag is written as its name and then, each after a space, its attributes with
their values between double quotation marks.  What is written ends where it
seems to end, as no name has a character that means something in a tag and no
value has a double quotation mark left; so the name and the attributes are read
back from it, the attributes in order. -/

set_option autoImplicit false

namespace ConfigDecl.Markup

open Text (Stops stops_nil stops_cons takeWhile_append_of_stops dropWhile_append_of_stops)
open Text.Utf8 (encode encode_append encode_injective mem_encode_iff)

/-! ## Names -/

def isNameChar (c : Char) : Bool := c.isAlphanum || ['-', '_', '.', ':'].contains c

def nameChars : List Char → Bool
  | [] => false
  | first :: rest => first.isAlpha && rest.all isNameChar

/-- One ASCII letter, and then ASCII letters, digits and four signs. -/
def isName (name : String) : Bool := nameChars name.toList

theorem isNameChar_of_isName {name : String} (named : isName name = true) :
    ∀ c ∈ name.toList, isNameChar c = true := by
  unfold isName at named
  intro c member
  cases chars : name.toList with
  | nil =>
      rw [chars] at member
      cases member
  | cons first rest =>
      rw [chars, nameChars, Bool.and_eq_true, List.all_eq_true] at named
      rw [chars] at member
      cases member with
      | head => simp [isNameChar, Char.isAlphanum, named.1]
      | tail _ later => exact named.2 c later

theorem encode_ne_nil_of_isName {name : String} (named : isName name = true) :
    encode name ≠ [] := by
  intro none
  have empty : name = "" := encode_injective none
  rw [empty] at named
  cases named

/-- The byte of an ASCII character that no name has. -/
theorem not_mem_encode_of_isName {name : String} (named : isName name = true) {c : Char}
    (small : c.toNat < 0x80) (outside : isNameChar c = false) : c.toUInt8 ∉ encode name := by
  intro encoded
  have inside := isNameChar_of_isName named c ((mem_encode_iff small).1 encoded)
  rw [outside] at inside
  cases inside

theorem ne_of_mem_encode_name {name : String} (named : isName name = true) {b : UInt8}
    (member : b ∈ encode name) {c : Char} (small : c.toNat < 0x80)
    (outside : isNameChar c = false) : b ≠ c.toUInt8 := by
  intro same
  rw [same] at member
  exact not_mem_encode_of_isName named small outside member

theorem isSpace_of_isName {name : String} (named : isName name = true) :
    ∀ b ∈ encode name, Byte.isSpace b = false := by
  intro b member
  simp only [Byte.isSpace, Bool.or_eq_false_iff, beq_eq_false_iff_ne]
  refine ⟨⟨⟨?_, ?_⟩, ?_⟩, ?_⟩ <;>
    exact ne_of_mem_encode_name named member (by decide) (by decide)

/-! ## What is written -/

def attributesMarkup : List (String × String) → String
  | [] => ""
  | (key, value) :: rest =>
      " " ++ key ++ "=\x22" ++ Escapes.inValue.escape value ++ "\x22" ++ attributesMarkup rest

namespace Named

def markup (named : Named) : String := named.1 ++ attributesMarkup named.2

/-- The name and the keys are names, and every key is there once. -/
structure WellNamed (named : Named) : Prop where
  name : isName named.1 = true
  keys : ∀ pair ∈ named.2, isName pair.1 = true
  distinct : (named.2.map Prod.fst).Nodup

instance (named : Named) : Decidable named.WellNamed :=
  decidable_of_iff (isName named.1 = true ∧ (∀ pair ∈ named.2, isName pair.1 = true) ∧
      (named.2.map Prod.fst).Nodup)
    ⟨fun ⟨name, keys, distinct⟩ => ⟨name, keys, distinct⟩,
      fun ⟨name, keys, distinct⟩ => ⟨name, keys, distinct⟩⟩

end Named

def space : UInt8 := ' '.toUInt8

theorem encode_attributesMarkup_cons (key value : String) (rest : List (String × String)) :
    encode (attributesMarkup ((key, value) :: rest)) =
      space :: (encode key ++ Byte.equals :: Byte.doubleQuote ::
        (encode (Escapes.inValue.escape value) ++ Byte.doubleQuote ::
          encode (attributesMarkup rest))) := by
  have opening : encode "=\x22" = [Byte.equals, Byte.doubleQuote] := rfl
  have closing : encode "\x22" = [Byte.doubleQuote] := rfl
  have blank : encode " " = [space] := rfl
  simp [attributesMarkup, encode_append, opening, closing, blank]

theorem doubleQuote_not_mem_value (value : String) :
    Byte.doubleQuote ∉ encode (Escapes.inValue.escape value) :=
  Escapes.not_mem_encode_escape (by decide) (by decide) (by decide) value

/-! ## Reading attributes -/

theorem upTo_append {mark : UInt8} {before : Bytes} (free : mark ∉ before) (after : Bytes) :
    upTo mark (before ++ mark :: after) = (before, some after) := by
  induction before with
  | nil => simp [upTo]
  | cons b rest ih =>
      have apart : b ≠ mark := by
        rintro rfl
        exact free List.mem_cons_self
      have later : mark ∉ rest := fun member => free (List.mem_cons_of_mem b member)
      simp [upTo, apart, ih later]

namespace Attribute

theorem quotedValue_append {value : Bytes} (free : Byte.doubleQuote ∉ value) (length : Nat)
    (after : Bytes) :
    quotedValue length (Byte.doubleQuote :: (value ++ Byte.doubleQuote :: after)) =
      .ok (value, after) := by
  have kept : (Byte.doubleQuote :: (value ++ Byte.doubleQuote :: after)).dropWhile Byte.isSpace =
      Byte.doubleQuote :: (value ++ Byte.doubleQuote :: after) :=
    List.dropWhile_cons_of_neg (by decide)
  have quote : Byte.isQuote Byte.doubleQuote = true := by decide
  rw [quotedValue, kept]
  simp only [quote, if_true, upTo_append free]

theorem afterEquals_cons (length : Nat) (rest : Bytes) :
    afterEquals length (Byte.equals :: rest) = .ok rest := by
  have kept : (Byte.equals :: rest).dropWhile Byte.isSpace = Byte.equals :: rest :=
    List.dropWhile_cons_of_neg (by decide)
  rw [afterEquals, kept]
  exact if_pos rfl

/-- An attribute is read from its own bytes, whatever comes after it. -/
theorem next?_append {key value : Bytes} {earlier : List Attribute} (filled : key ≠ [])
    (plain : ∀ b ∈ key, isKeyEnd b = false) (fresh : ∀ other ∈ earlier, other.key ≠ key)
    (free : Byte.doubleQuote ∉ value) (length : Nat) (after : Bytes) :
    ∃ position, next? length earlier
        (space :: (key ++ Byte.equals :: Byte.doubleQuote ::
          (value ++ Byte.doubleQuote :: after))) =
      .ok (some (⟨position, key, value⟩, after)) := by
  cases key with
  | nil => exact absurd rfl filled
  | cons first more =>
      have notSpace : Byte.isSpace first = false := by
        have whole := plain first List.mem_cons_self
        exact (Bool.or_eq_false_iff.1 whole).2
      have reached : ∀ b ∈ more, (!isKeyEnd b) = true := by
        intro b member
        simp [plain b (List.mem_cons_of_mem first member)]
      have stops : Stops (fun b => !isKeyEnd b) (Byte.equals :: Byte.doubleQuote ::
          (value ++ Byte.doubleQuote :: after)) := stops_cons rfl
      have unseen : earlier.find? (fun other => other.key == first :: more) = none := by
        rw [List.find?_eq_none]
        intro other member same
        exact fresh other member (eq_of_beq same)
      refine ⟨positionOf length (more ++ Byte.equals :: Byte.doubleQuote ::
        (value ++ Byte.doubleQuote :: after)), ?_⟩
      rw [next?, List.dropWhile_cons_of_pos (by decide), List.cons_append,
        List.dropWhile_cons_of_neg (by simp [notSpace])]
      simp only [takeWhile_append_of_stops reached stops, dropWhile_append_of_stops reached stops,
        afterEquals_cons, quotedValue_append free, unseen, Attempt.do_eq_bind, Attempt.bind_ok]
      rfl

end Attribute

theorem readAttributes_of_next {length : Nat} {earlier : List Attribute} {bytes after : Bytes}
    {written : Attribute} {pair : String × String}
    (next : Attribute.next? length earlier bytes = .ok (some (written, after)))
    (decoded : written.decode = .ok pair) :
    readAttributes length earlier bytes =
      (readAttributes length (earlier ++ [written]) after).map (pair :: ·) := by
  rw [readAttributes]
  split
  · next fault failed =>
      rw [next] at failed
      cases failed
  · next ended =>
      rw [next] at ended
      cases ended
  · next found =>
      rw [next] at found
      cases found
      rw [decoded]
      cases readAttributes length (earlier ++ [written]) after <;> rfl

theorem readAttributes_nil (length : Nat) (earlier : List Attribute) :
    readAttributes length earlier [] = .ok [] := by
  rw [readAttributes]
  rfl

theorem readAttributes_attributesMarkup (length : Nat) {attributes : List (String × String)}
    (named : ∀ pair ∈ attributes, isName pair.1 = true)
    (distinct : (attributes.map Prod.fst).Nodup) (earlier : List Attribute)
    (fresh : ∀ other ∈ earlier, ∀ pair ∈ attributes, other.key ≠ encode pair.1) :
    readAttributes length earlier (encode (attributesMarkup attributes)) = .ok attributes := by
  induction attributes generalizing earlier with
  | nil => exact readAttributes_nil length earlier
  | cons pair rest ih =>
      obtain ⟨key, value⟩ := pair
      have keyNamed : isName key = true := named (key, value) List.mem_cons_self
      have plain : ∀ b ∈ encode key, Attribute.isKeyEnd b = false := by
        intro b member
        have notEquals : b ≠ Byte.equals :=
          ne_of_mem_encode_name keyNamed member (by decide) (by decide)
        simp [Attribute.isKeyEnd, notEquals, isSpace_of_isName keyNamed b member]
      obtain ⟨position, next⟩ := Attribute.next?_append (encode_ne_nil_of_isName keyNamed) plain
        (fun other member => fresh other member (key, value) List.mem_cons_self)
        (doubleQuote_not_mem_value value) length (encode (attributesMarkup rest))
      have decoded : Attribute.decode ⟨position, encode key,
          encode (Escapes.inValue.escape value)⟩ = .ok (key, value) := by
        simp only [Attribute.decode, decodeBytes_encode, decodeText_escape, Attempt.do_eq_bind,
          Attempt.bind_ok]
        rfl
      rw [List.map_cons, List.nodup_cons] at distinct
      have others : ∀ other ∈ earlier ++ [⟨position, encode key,
          encode (Escapes.inValue.escape value)⟩], ∀ pair ∈ rest, other.key ≠ encode pair.1 := by
        intro other member pair later
        obtain before | last := List.mem_append.1 member
        · exact fresh other before pair (List.mem_cons_of_mem _ later)
        · cases List.mem_singleton.1 last
          intro same
          have again : pair.1 ∈ rest.map Prod.fst := List.mem_map_of_mem later
          rw [← encode_injective same] at again
          exact distinct.1 again
      rw [encode_attributesMarkup_cons, readAttributes_of_next next decoded,
        ih (fun pair later => named pair (List.mem_cons_of_mem _ later)) distinct.2 _ others]
      rfl

/-! ## Reading tags -/

theorem stops_attributesMarkup (attributes : List (String × String)) :
    Stops (fun b => !Byte.isSpace b) (encode (attributesMarkup attributes)) := by
  cases attributes with
  | nil => exact stops_nil
  | cons pair rest =>
      obtain ⟨key, value⟩ := pair
      rw [encode_attributesMarkup_cons]
      exact stops_cons rfl

theorem tagOf_markup {named : Named} (wellNamed : named.WellNamed) :
    Scanner.tagOf (encode named.markup) = ⟨encode named.1, encode (attributesMarkup named.2)⟩ := by
  have reached : ∀ b ∈ encode named.1, (!Byte.isSpace b) = true := by
    intro b member
    simp [isSpace_of_isName wellNamed.name b member]
  have stops := stops_attributesMarkup named.2
  rw [Scanner.tagOf, Named.markup, encode_append, takeWhile_append_of_stops reached stops,
    dropWhile_append_of_stops reached stops]

theorem decode_tagOf_markup {named : Named} (wellNamed : named.WellNamed) :
    (Scanner.tagOf (encode named.markup)).decode = .ok named := by
  have attributes := fun length =>
    readAttributes_attributesMarkup length wellNamed.keys wellNamed.distinct []
      (fun other member => nomatch member)
  rw [tagOf_markup wellNamed]
  simp only [Tag.decode, attributes, decodeBytes_encode, Attempt.do_eq_bind, Attempt.bind_ok]
  rfl

/-! ## Where a tag ends -/

/-- The bytes are a part of the tag: they change the open quotation mark from
`mark` to `mark'`, and the tag does not end in them. -/
def Passes (bytes : Bytes) (mark mark' : Option UInt8) : Prop :=
  ∀ rest, upToTagEnd mark (bytes ++ rest) =
    (bytes ++ (upToTagEnd mark' rest).1, (upToTagEnd mark' rest).2)

theorem passes_nil (mark : Option UInt8) : Passes [] mark mark := by
  intro rest
  rfl

theorem passes_cons {mark mark' : Option UInt8} {b : UInt8} {bytes : Bytes}
    (inside : ¬(mark = none ∧ b = Byte.greater))
    (later : Passes bytes (quoteAfter mark b) mark') : Passes (b :: bytes) mark mark' := by
  intro rest
  rw [List.cons_append, upToTagEnd, if_neg inside, later rest]
  rfl

theorem passes_append {mark mark' mark'' : Option UInt8} {a b : Bytes}
    (first : Passes a mark mark') (second : Passes b mark' mark'') :
    Passes (a ++ b) mark mark'' := by
  intro rest
  rw [List.append_assoc, first, second]
  simp

theorem passes_plain {bytes : Bytes}
    (plain : ∀ b ∈ bytes, b ≠ Byte.greater ∧ Byte.isQuote b = false) :
    Passes bytes none none := by
  induction bytes with
  | nil => exact passes_nil none
  | cons b rest ih =>
      obtain ⟨notEnd, notQuote⟩ := plain b List.mem_cons_self
      have after : quoteAfter none b = none := by simp [quoteAfter, notQuote]
      refine passes_cons (fun ends => notEnd ends.2) ?_
      rw [after]
      exact ih fun other member => plain other (List.mem_cons_of_mem b member)

theorem passes_single {b : UInt8} (notEnd : b ≠ Byte.greater) (notQuote : Byte.isQuote b = false) :
    Passes [b] none none := by
  apply passes_plain
  intro other member
  rw [List.mem_singleton.1 member]
  exact ⟨notEnd, notQuote⟩

theorem passes_inside {mark : UInt8} {bytes : Bytes} (free : mark ∉ bytes) :
    Passes bytes (some mark) (some mark) := by
  induction bytes with
  | nil => exact passes_nil (some mark)
  | cons b rest ih =>
      have apart : b ≠ mark := by
        rintro rfl
        exact free List.mem_cons_self
      have after : quoteAfter (some mark) b = some mark := by simp [quoteAfter, apart]
      refine passes_cons (by simp) ?_
      rw [after]
      exact ih fun member => free (List.mem_cons_of_mem b member)

theorem passes_quoted {mark : UInt8} {bytes : Bytes} (quote : Byte.isQuote mark = true)
    (notEnd : mark ≠ Byte.greater) (free : mark ∉ bytes) :
    Passes (mark :: (bytes ++ [mark])) none none := by
  have opens : quoteAfter none mark = some mark := by simp [quoteAfter, quote]
  have closes : quoteAfter (some mark) mark = none := by simp [quoteAfter]
  refine passes_cons (fun ends => notEnd ends.2) ?_
  rw [opens]
  refine passes_append (passes_inside free) (passes_cons (by simp) ?_)
  rw [closes]
  exact passes_nil none

theorem passes_name {name : String} (named : isName name = true) :
    Passes (encode name) none none := by
  apply passes_plain
  intro b member
  simp only [Byte.isQuote, Bool.or_eq_false_iff, beq_eq_false_iff_ne]
  refine ⟨?_, ?_, ?_⟩ <;> exact ne_of_mem_encode_name named member (by decide) (by decide)

theorem passes_attributesMarkup {attributes : List (String × String)}
    (named : ∀ pair ∈ attributes, isName pair.1 = true) :
    Passes (encode (attributesMarkup attributes)) none none := by
  induction attributes with
  | nil => exact passes_nil none
  | cons pair rest ih =>
      obtain ⟨key, value⟩ := pair
      have keyPasses := passes_name (named (key, value) List.mem_cons_self)
      have valuePasses := passes_quoted (by decide) (by decide) (doubleQuote_not_mem_value value)
      have later := ih fun pair member => named pair (List.mem_cons_of_mem _ member)
      have blank : Passes [space] none none := passes_single (by decide) (by decide)
      have sign : Passes [Byte.equals] none none := passes_single (by decide) (by decide)
      have all := passes_append blank (passes_append keyPasses
        (passes_append sign (passes_append valuePasses later)))
      rw [encode_attributesMarkup_cons]
      simpa using all

theorem upToTagEnd_markup {named : Named} (wellNamed : named.WellNamed) (rest : Bytes) :
    upToTagEnd none (encode named.markup ++ Byte.greater :: rest) =
      (encode named.markup, some rest) := by
  have passes := passes_append (passes_name wellNamed.name)
    (passes_attributesMarkup wellNamed.keys)
  rw [Named.markup, encode_append, passes (Byte.greater :: rest), upToTagEnd,
    if_pos ⟨rfl, rfl⟩, List.append_nil]

theorem getLast?_attributesMarkup {attributes : List (String × String)}
    (filled : attributes ≠ []) :
    (encode (attributesMarkup attributes)).getLast? = some Byte.doubleQuote := by
  induction attributes with
  | nil => exact absurd rfl filled
  | cons pair rest ih =>
      obtain ⟨key, value⟩ := pair
      have parted : encode (attributesMarkup ((key, value) :: rest)) =
          (space :: (encode key ++ Byte.equals :: Byte.doubleQuote ::
            encode (Escapes.inValue.escape value))) ++
              (Byte.doubleQuote :: encode (attributesMarkup rest)) := by
        rw [encode_attributesMarkup_cons]
        simp
      rw [parted, List.getLast?_append]
      cases rest with
      | nil => rfl
      | cons other later => simp [List.getLast?_cons, ih (List.cons_ne_nil other later)]

/-- The tag is not that of an element with nothing inside. -/
theorem getLast?_markup {named : Named} (wellNamed : named.WellNamed) :
    (encode named.markup).getLast? ≠ some Byte.slash := by
  rw [Named.markup, encode_append]
  intro last
  by_cases bare : named.2 = []
  · have member : Byte.slash ∈ encode named.1 := by
      rw [bare] at last
      simpa [attributesMarkup, encode] using List.mem_of_getLast? last
    exact not_mem_encode_of_isName wellNamed.name (by decide) (by decide) member
  · rw [List.getLast?_append, getLast?_attributesMarkup bare] at last
    exact absurd (Option.some.inj last) (by decide)

end ConfigDecl.Markup

import ConfigDecl.Markup.Event
import ConfigDecl.Markup.Reference
import ConfigDecl.Markup.Stream

/-! # Attributes

What follows the name of a tag is a sequence of attributes, each a key, an `=`
and a value between quotation marks, with spaces allowed around each of them and
none needed between one attribute and the next.  The first fault ends the
reading.  A key is looked for among the earlier ones before its value is read,
and an attribute is decoded before the next one is looked at. -/

set_option autoImplicit false

namespace ConfigDecl.Markup

/-! ## Decoding -/

def decodeBytes (bytes : Bytes) : Except Fault String :=
  match Text.Utf8.decode bytes with
  | .ok text => .ok text
  | .error fault => .error (.badEncoding fault)

def decodeText (bytes : Bytes) : Except Fault String := do
  let text ← decodeBytes bytes
  match Reference.expand text with
  | .ok expanded => .ok expanded
  | .error fault => .error (.badReference fault)

/-! ## One attribute -/

/-- An attribute as it is written, with the position of its key in the tag. -/
structure Attribute where
  position : Nat
  key : Bytes
  value : Bytes
  deriving DecidableEq, Repr

namespace Attribute

def isKeyEnd (b : UInt8) : Bool := b == Byte.equals || Byte.isSpace b

/-- The position in a tag of `length` bytes of the last of them and `rest`. -/
def positionOf (length : Nat) (rest : Bytes) : Nat := length - (rest.length + 1)

def afterEquals (length : Nat) (bytes : Bytes) : Except AttributeFault Bytes :=
  match bytes.dropWhile Byte.isSpace with
  | [] => .error (.noEquals length)
  | b :: rest =>
      if b = Byte.equals then .ok rest else .error (.noEquals (positionOf length rest))

def quotedValue (length : Nat) (bytes : Bytes) : Except AttributeFault (Bytes × Bytes) :=
  match bytes.dropWhile Byte.isSpace with
  | [] => .error (.noValue length)
  | mark :: rest =>
      if Byte.isQuote mark then
        match upTo mark rest with
        | (value, some after) => .ok (value, after)
        | (_, none) => .error (.noClosingQuote length mark)
      else .error (.notQuoted (positionOf length rest))

/-- The next attribute of a tag of `length` bytes, if one is left, and what
follows it.  `earlier` are the attributes before it. -/
def next? (length : Nat) (earlier : List Attribute) (bytes : Bytes) :
    Except AttributeFault (Option (Attribute × Bytes)) :=
  match bytes.dropWhile Byte.isSpace with
  | [] => .ok none
  | b :: rest => do
      let position := positionOf length rest
      let key := b :: rest.takeWhile fun b => !isKeyEnd b
      let afterKey ← afterEquals length (rest.dropWhile fun b => !isKeyEnd b)
      match earlier.find? fun other => other.key == key with
      | some previous => .error (.duplicated position previous.position)
      | none =>
          let (value, after) ← quotedValue length afterKey
          return some (⟨position, key, value⟩, after)

def decode (written : Attribute) : Except Fault (String × String) := do
  let key ← decodeBytes written.key
  let value ← decodeText written.value
  return (key, value)

theorem afterEquals_length {length : Nat} {bytes after : Bytes}
    (read : afterEquals length bytes = .ok after) : after.length < bytes.length := by
  unfold afterEquals at read
  split at read
  · cases read
  · next b rest front =>
      split at read
      · cases read
        have shorter := (List.dropWhile_sublist Byte.isSpace (l := bytes)).length_le
        rw [front] at shorter
        exact shorter
      · cases read

theorem quotedValue_length {length : Nat} {bytes value after : Bytes}
    (read : quotedValue length bytes = .ok (value, after)) :
    after.length < bytes.length := by
  unfold quotedValue at read
  split at read
  · cases read
  · next mark rest front =>
      split at read
      · split at read
        · next ended =>
            cases read
            have shorter := (List.dropWhile_sublist Byte.isSpace (l := bytes)).length_le
            have inner := upTo_length mark rest
            rw [ended] at inner
            simp only [front, List.length_cons, Option.getD_some] at shorter inner
            omega
        · cases read
      · cases read

/-- Every attribute consumes at least one byte. -/
theorem next?_length {length : Nat} {earlier : List Attribute} {bytes after : Bytes}
    {written : Attribute} (read : next? length earlier bytes = .ok (some (written, after))) :
    after.length < bytes.length := by
  unfold next? at read
  split at read
  · cases read
  · next b rest front =>
      cases equals : afterEquals length (rest.dropWhile fun b => !isKeyEnd b) with
      | error fault => simp [equals, bind, Except.bind] at read
      | ok afterKey =>
          simp only [equals, bind, Except.bind] at read
          split at read
          · cases read
          · cases quoted : quotedValue length afterKey with
            | error fault => simp [quoted] at read
            | ok pair =>
                simp only [quoted, pure, Except.pure, Except.ok.injEq, Option.some.injEq,
                  Prod.mk.injEq] at read
                obtain ⟨_, rfl⟩ := read
                have shorter := (List.dropWhile_sublist Byte.isSpace (l := bytes)).length_le
                have keyEnds :=
                  (List.dropWhile_sublist (fun b => !isKeyEnd b) (l := rest)).length_le
                have equalsRead := afterEquals_length equals
                have valueRead := quotedValue_length quoted
                simp only [front, List.length_cons] at shorter
                omega

end Attribute

/-! ## All attributes -/

def readAttributes (length : Nat) (earlier : List Attribute) (bytes : Bytes) :
    Except Fault (List (String × String)) :=
  match _read : Attribute.next? length earlier bytes with
  | .error fault => .error (.badAttribute fault)
  | .ok none => .ok []
  | .ok (some (written, after)) => do
      let decoded ← written.decode
      let others ← readAttributes length (earlier ++ [written]) after
      return decoded :: others
termination_by bytes.length
decreasing_by exact Attribute.next?_length _read

namespace Tag

def length (tag : Tag) : Nat := tag.name.length + tag.attributes.length

def decode (tag : Tag) : Except Fault (String × List (String × String)) := do
  -- A fault in the attributes comes before one in the name.
  let attributes ← readAttributes tag.length [] tag.attributes
  let name ← decodeBytes tag.name
  return (name, attributes)

end Tag

end ConfigDecl.Markup

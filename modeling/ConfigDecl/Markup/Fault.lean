import ConfigDecl.Markup.Byte
import ConfigDecl.Text.Quoted

/-! # Faults of markup

Everything that can be wrong with a source.  Positions inside a tag count from
the byte after its `<`; ranges inside a text count bytes from the start of the
text. -/

set_option autoImplicit false

namespace ConfigDecl.Markup

open Text (quote)

/-- What the source ended in, or what is not the construct it begins as. -/
inductive Construct where
  /-- Anything that begins with `<!`. -/
  | declaration
  | cdata
  | comment
  | doctype
  | instruction
  | element (name : String)
  deriving DecidableEq, Repr

def Construct.label : Construct → String
  | .declaration => "Bang"
  | .cdata => "CData"
  | .comment => "Comment"
  | .doctype => "DOCTYPE"
  | .instruction => "XmlDecl"
  | .element name => s!"</{name}>"

inductive AttributeFault where
  | noEquals (position : Nat)
  | noValue (position : Nat)
  | notQuoted (position : Nat)
  | noClosingQuote (position : Nat) (mark : UInt8)
  | duplicated (position previous : Nat)
  deriving DecidableEq, Repr

namespace AttributeFault

def message : AttributeFault → String
  | .noEquals position =>
      s!"position {position}: attribute key must be directly followed by `=` or space"
  | .noValue position => s!"position {position}: `=` must be followed by an attribute value"
  | .notQuoted position =>
      s!"position {position}: attribute value must be enclosed in `\"` or `'`"
  | .noClosingQuote position mark =>
      s!"position {position}: missing closing quote `{Byte.toChar mark}` in attribute value"
  | .duplicated position previous =>
      s!"position {position}: duplicated attribute, previous declaration at position {previous}"

end AttributeFault

inductive Radix where
  | decimal
  | hexadecimal
  deriving DecidableEq, Repr

def Radix.label : Radix → String
  | .decimal => "decimal"
  | .hexadecimal => "hexadecimal"

inductive ReferenceFault where
  | unterminated (start stop : Nat)
  | unknownName (start stop : Nat) (name : String)
  | null (start stop : Nat)
  | tooLong (radix : Radix)
  | notDigit (radix : Radix) (byte : UInt8)
  | notCharacter (number : Nat)
  deriving DecidableEq, Repr

namespace ReferenceFault

def atRange (start stop : Nat) (text : String) : String :=
  s!"Error while escaping character at range {start}..{stop}: {text}"

def message : ReferenceFault → String
  | .unterminated start stop => atRange start stop "Cannot find ';' after '&'"
  | .unknownName start stop name =>
      atRange start stop s!"Unrecognized escape symbol: {quote name}"
  | .null start stop => atRange start stop "Null character entity not allowed"
  | .tooLong radix => s!"Cannot convert {radix.label} to utf8"
  | .notDigit radix byte => s!"'{Byte.toChar byte}' is not a valid {radix.label} character"
  | .notCharacter number => s!"'{number}' is not a valid codepoint"

end ReferenceFault

inductive Fault where
  | unfinished (construct : Construct)
  | unknownDeclaration (byte : UInt8)
  | emptyDoctype
  | mismatchedEnd (expected found : String)
  | badAttribute (fault : AttributeFault)
  | badReference (fault : ReferenceFault)
  | badEncoding (fault : Text.Utf8.Fault)
  /-- The source itself could not be read; the text is the system's. -/
  | unreadable (cause : String)
  deriving DecidableEq, Repr

namespace Fault

def message : Fault → String
  | .unfinished construct => s!"Unexpected EOF during reading {construct.label}"
  | .unknownDeclaration byte =>
      "Only Comment (`--`), CDATA (`[CDATA[`) and DOCTYPE (`DOCTYPE`) nodes can start with " ++
        s!"a '!', but symbol `{Byte.toChar byte}` found"
  | .emptyDoctype => "DOCTYPE declaration must not be empty"
  | .mismatchedEnd expected found => s!"Expecting </{expected}> found </{found}>"
  | .badAttribute fault => s!"error while parsing attribute: {fault.message}"
  | .badReference fault => fault.message
  | .badEncoding fault => s!"Malformed UTF-8 input: {fault.message}"
  | .unreadable cause => s!"I/O error: {cause}"

def causes : Fault → List String
  | .unfinished _ => []
  | .unknownDeclaration _ => []
  | .emptyDoctype => []
  | .mismatchedEnd _ _ => []
  | .badAttribute fault => [fault.message]
  | .badReference fault => [fault.message]
  | .badEncoding fault => [fault.message]
  | .unreadable cause => [cause]

end Fault

end ConfigDecl.Markup

import ConfigDecl.Text.Utf8

/-! # Bytes of markup

The bytes that mark up a source.  Space is the ASCII space, carriage return,
line feed and tab, and no more than these. -/

set_option autoImplicit false

namespace ConfigDecl.Markup.Byte

def less : UInt8 := '<'.toUInt8

def greater : UInt8 := '>'.toUInt8

def slash : UInt8 := '/'.toUInt8

def bang : UInt8 := '!'.toUInt8

def question : UInt8 := '?'.toUInt8

def equals : UInt8 := '='.toUInt8

def dash : UInt8 := '-'.toUInt8

def openBracket : UInt8 := '['.toUInt8

def closeBracket : UInt8 := ']'.toUInt8

def doubleQuote : UInt8 := '\x22'.toUInt8

def singleQuote : UInt8 := '\x27'.toUInt8

def isSpace (b : UInt8) : Bool :=
  b == ' '.toUInt8 || b == '\r'.toUInt8 || b == '\n'.toUInt8 || b == '\t'.toUInt8

def isQuote (b : UInt8) : Bool := b == doubleQuote || b == singleQuote

/-- The byte without the case of an ASCII letter. -/
def lowered (b : UInt8) : UInt8 := if 0x41 ≤ b ∧ b ≤ 0x5A then b + 0x20 else b

def ofAscii (text : String) : Bytes := text.toList.map Char.toUInt8

/-- The character whose number is the byte. -/
def toChar (b : UInt8) : Char := Char.ofNat b.toNat

end ConfigDecl.Markup.Byte

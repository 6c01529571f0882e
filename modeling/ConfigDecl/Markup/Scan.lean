import ConfigDecl.Markup.Event

/-! # Scanning

Bytes become a stream of events.  The scanner is tolerant: names are not
examined, nothing has to be declared, and a tag that the source ends in is taken
as if it were complete.  It stands either in text or just after the `<` of a
tag, and knows the names of the elements that are open, so that every end tag
closes the innermost one.

A source comes either whole or in blocks of a fixed size.  Only the end of a
document type depends on that: it is the first `>` that finds as many `<` as `>`
before it in the declaration, and only the current block is looked back on. -/

set_option autoImplicit false

namespace ConfigDecl.Markup

inductive Delivery where
  | whole
  | blocks (size : Nat)
  deriving DecidableEq, Repr

/-- The bytes of the current block, the latest first, out of those before a
position, the latest first. -/
def Delivery.current (delivery : Delivery) (position : Nat) (before : Bytes) : Bytes :=
  match delivery with
  | .whole => before
  | .blocks size => before.take (position % size)

structure Scanner where
  rest : Bytes
  /-- The number of bytes of the byte order mark, which was left out. -/
  markLength : Nat
  /-- The number of bytes consumed since. -/
  offset : Nat
  /-- Whether the `<` of a tag has just been consumed. -/
  inTag : Bool
  /-- The names of the open elements, the innermost first. -/
  opened : List Bytes
  delivery : Delivery
  deriving DecidableEq, Repr

inductive Step where
  | event (event : Event) (next : Scanner)
  | done (offset : Nat)
  | fault (fault : Fault) (offset : Nat)
  deriving DecidableEq, Repr

/-! ## Where things end -/

def upTo (mark : UInt8) : Bytes → Bytes × Option Bytes
  | [] => ([], none)
  | b :: rest =>
      if b = mark then ([], some rest)
      else
        let (before, after) := upTo mark rest
        (b :: before, after)

def quoteAfter (mark : Option UInt8) (b : UInt8) : Option UInt8 :=
  match mark with
  | none => if Byte.isQuote b then some b else none
  | some open' => if b = open' then none else mark

def upToTagEnd (mark : Option UInt8) : Bytes → Bytes × Option Bytes
  | [] => ([], none)
  | b :: rest =>
      if mark = none ∧ b = Byte.greater then ([], some rest)
      else
        let (before, after) := upToTagEnd (quoteAfter mark b) rest
        (b :: before, after)

/-- The bytes before the first `>` at which the bytes before it, the latest first,
satisfy `closes`, together with those after it.  `before` has been passed. -/
def upToClosing (closes : Bytes → Bool) (before : Bytes) : Bytes → Option (Bytes × Bytes)
  | [] => none
  | b :: rest =>
      if b = Byte.greater ∧ closes before then some (before.reverse, rest)
      else upToClosing closes (b :: before) rest

/-! ## Declarations -/

def cdataCloses : Bytes → Bool
  | b :: a :: _ => a == Byte.closeBracket && b == Byte.closeBracket
  | _ => false

def commentCloses : Bytes → Bool
  -- The two dashes at the end are not those at the beginning.
  | b :: a :: _ :: _ :: _ :: _ => a == Byte.dash && b == Byte.dash
  | _ => false

def balanced (bytes : Bytes) : Bool := bytes.count Byte.less == bytes.count Byte.greater

def doctypeCloses (delivery : Delivery) (position : Nat) (before : Bytes) : Bool :=
  balanced (delivery.current (position + before.length) before)

def startsWith (opening bytes : Bytes) : Bool := opening.isPrefixOf bytes

def cdataOpening : Bytes := Byte.ofAscii "![cdata["

def commentOpening : Bytes := Byte.ofAscii "!--"

def doctypeOpening : Bytes := Byte.ofAscii "!doctype"

inductive DeclarationKind where
  | cdata
  | comment
  | doctype
  deriving DecidableEq, Repr

namespace DeclarationKind

def construct : DeclarationKind → Construct
  | .cdata => .cdata
  | .comment => .comment
  | .doctype => .doctype

def ofByte (b : UInt8) : Except Fault DeclarationKind :=
  if b = Byte.openBracket then .ok .cdata
  else if b = Byte.dash then .ok .comment
  else if Byte.lowered b = 'd'.toUInt8 then .ok .doctype
  else .error (.unknownDeclaration b)

def event (content : Bytes) : DeclarationKind → Except Fault Event
  | .cdata =>
      if startsWith cdataOpening (content.map Byte.lowered) then
        .ok (.cdata (content.drop cdataOpening.length).dropLast.dropLast)
      else .error (.unfinished .cdata)
  | .comment =>
      if startsWith commentOpening content then .ok .skipped
      else .error (.unfinished .comment)
  | .doctype =>
      if startsWith doctypeOpening (content.map Byte.lowered) then
        if (content.drop doctypeOpening.length).all Byte.isSpace then .error .emptyDoctype
        else .ok .skipped
      else .error (.unfinished .doctype)

end DeclarationKind

namespace Scanner

def inText (scanner : Scanner) (rest : Bytes) (offset : Nat) : Scanner :=
  { scanner with rest := rest, offset := offset, inTag := false }

/-- Whether a declaration closes before a `>`, the bytes since its `!` given with
the latest first; the `!` is the next byte of the scanner. -/
def closes (scanner : Scanner) : DeclarationKind → Bytes → Bool
  | .cdata => cdataCloses
  | .comment => commentCloses
  | .doctype => doctypeCloses scanner.delivery (scanner.markLength + scanner.offset)

def declaration (scanner : Scanner) : Step :=
  match scanner.rest.drop 1 with
  | [] => .fault (.unfinished .declaration) scanner.offset
  | b :: rest =>
      match DeclarationKind.ofByte b with
      | .error fault => .fault fault scanner.offset
      | .ok kind =>
          match upToClosing (scanner.closes kind) [Byte.bang] (b :: rest) with
          | none => .fault (.unfinished kind.construct) scanner.offset
          | some (content, after) =>
              let offset := scanner.offset + content.length + 1
              match kind.event content with
              | .error fault => .fault fault offset
              | .ok event => .event event (scanner.inText after offset)

def consumed (content : Bytes) (after : Option Bytes) : Nat :=
  content.length + after.toList.length

/-- The name that an end tag gives: what follows the `/`, less the spaces at its
end unless it is nothing but spaces. -/
def endName (content : Bytes) : Bytes :=
  if content.all Byte.isSpace then content
  else (content.reverse.dropWhile Byte.isSpace).reverse

def shownName (name : Bytes) : String := (Text.Utf8.decode name).toOption.getD ""

def endTag (scanner : Scanner) : Step :=
  let (content, after) := upTo Byte.greater scanner.rest
  let offset := scanner.offset + consumed content after
  let found := content.drop 1
  match scanner.opened with
  | [] => .fault (.mismatchedEnd "" (shownName found)) (offset - content.length)
  | name :: outer =>
      if endName found = name then
        .event .close { scanner.inText (after.getD []) offset with opened := outer }
      else
        .fault (.mismatchedEnd (shownName name) (shownName (endName found)))
          (offset - content.length)

def instruction (scanner : Scanner) : Step :=
  let (content, after) := upTo Byte.greater scanner.rest
  let offset := scanner.offset + consumed content after
  if 2 < content.length ∧ content.getLast? = some Byte.question then
    .event .skipped (scanner.inText (after.getD []) offset)
  else .fault (.unfinished .instruction) (offset - content.length)

def tagOf (content : Bytes) : Tag :=
  ⟨content.takeWhile (fun b => !Byte.isSpace b), content.dropWhile fun b => !Byte.isSpace b⟩

def elementTag (scanner : Scanner) : Step :=
  let (content, after) := upToTagEnd none scanner.rest
  let offset :=
    match after with
    | some _ => scanner.offset + content.length + 1
    -- A tag that the source ends in does not count as consumed.
    | none => scanner.offset
  let next := scanner.inText (after.getD []) offset
  if content.getLast? = some Byte.slash then .event (.empty (tagOf content.dropLast)) next
  else
    let tag := tagOf content
    .event (.start tag) { next with opened := tag.name :: scanner.opened }

/-- What follows the `<` of a tag.  The byte that tells its kind is still there for
the reader of that kind. -/
def tag (scanner : Scanner) : Step :=
  match scanner.rest with
  | [] => .done scanner.offset
  | b :: _ =>
      if b = Byte.bang then scanner.declaration
      else if b = Byte.slash then scanner.endTag
      else if b = Byte.question then scanner.instruction
      else scanner.elementTag

/-- A text runs to the next `<`, which is consumed with it, or to the end. -/
def text (scanner : Scanner) : Step :=
  let (content, after) := upTo Byte.less scanner.rest
  .event (.text content)
    { scanner with
      rest := after.getD []
      offset := scanner.offset + consumed content after
      inTag := true }

def step (scanner : Scanner) : Step :=
  if scanner.inTag then scanner.tag
  else
    match scanner.rest with
    | [] => .done scanner.offset
    | b :: rest =>
        if b = Byte.less then
          tag { scanner with rest := rest, offset := scanner.offset + 1, inTag := true }
        else scanner.text

end Scanner

end ConfigDecl.Markup

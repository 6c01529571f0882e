import ConfigDecl.Proofs.Markup.Asides
import ConfigDecl.Proofs.Markup.Grammar

/-! # Writing elements and reading them back

An element is written as its start tag, its text, its children in order and its
end tag.  A text of no characters is written as an empty character data section,
to tell it from no text at all.  What is written is read by the grammar as that
very element, whatever follows it and wherever it stands, and so the root element
of such a source is the one that was written. -/

set_option autoImplicit false

namespace ConfigDecl.Markup

open Text.Utf8 (encode encode_append)

namespace Element

def textMarkup : Option String → String
  | none => ""
  | some text => if text = "" then "<![CDATA[]]>" else Escapes.inText.escape text

mutual

def markup : Element → String
  | ⟨name, attributes, text, children⟩ =>
      "<" ++ Named.markup (name, attributes) ++ ">" ++ textMarkup text ++ markupAll children ++
        "</" ++ name ++ ">"

def markupAll : List Element → String
  | [] => ""
  | child :: rest => markup child ++ markupAll rest

end

/-- The names of the element and of those inside it, and the keys of their
attributes, are names; no element has two attributes of one key. -/
def WellNamed (element : Element) : Prop := ∀ named ∈ element.preorder, named.WellNamed

instance (element : Element) : Decidable element.WellNamed :=
  inferInstanceAs (Decidable (∀ named ∈ element.preorder, named.WellNamed))

end Element

/-! ## The bytes of an element -/

theorem encode_markup (named : Named) (text : Option String) (children : List Element)
    (rest : Bytes) :
    encode (Element.markup ⟨named.1, named.2, text, children⟩) ++ rest =
      Byte.less :: (encode named.markup ++ Byte.greater :: (encode (Element.textMarkup text) ++
        (encode (Element.markupAll children) ++
          Byte.less :: Byte.slash :: (encode named.1 ++ Byte.greater :: rest)))) := by
  have less : encode "<" = [Byte.less] := rfl
  have greater : encode ">" = [Byte.greater] := rfl
  have ending : encode "</" = [Byte.less, Byte.slash] := rfl
  simp [Element.markup, encode_append, less, greater, ending]

theorem encode_markupAll_cons (child : Element) (children : List Element) (rest : Bytes) :
    encode (Element.markupAll (child :: children)) ++ rest =
      encode child.markup ++ (encode (Element.markupAll children) ++ rest) := by
  rw [Element.markupAll, encode_append, List.append_assoc]

theorem exists_less_markup (element : Element) :
    ∃ more, encode element.markup = Byte.less :: more := by
  obtain ⟨name, attributes, text, children⟩ := element
  have bytes := encode_markup (name, attributes) text children []
  rw [List.append_nil] at bytes
  exact ⟨_, bytes⟩

/-- A tag follows, of a child or of the end. -/
theorem exists_less_markupAll (children : List Element) (rest : Bytes) :
    ∃ more, encode (Element.markupAll children) ++ Byte.less :: rest = Byte.less :: more := by
  cases children with
  | nil => exact ⟨rest, rfl⟩
  | cons child later =>
      obtain ⟨more, front⟩ := exists_less_markup child
      rw [encode_markupAll_cons, front]
      exact ⟨_, rfl⟩

/-! ## The pieces of an element -/

theorem leadingTexts_elements (children : List Element) :
    Piece.leadingTexts (children.map Piece.element) = [] := by
  cases children <;> rfl

theorem filterMap_elements (children : List Element) :
    (children.map Piece.element).filterMap Piece.element? = children := by
  induction children with
  | nil => rfl
  | cons child rest ih => simp [ih]

theorem ofPieces_text (named : Named) (text : Option String) (children : List Element) :
    Element.ofPieces named.1 named.2 (text.toList.map Piece.text ++ children.map Piece.element) =
      ⟨named.1, named.2, text, children⟩ := by
  have texts : Piece.leadingTexts (text.toList.map Piece.text ++ children.map Piece.element) =
      text.toList := by
    cases text with
    | none => exact leadingTexts_elements children
    | some content => exact congrArg (content :: ·) (leadingTexts_elements children)
  have elements : (text.toList.map Piece.text ++ children.map Piece.element).filterMap
      Piece.element? = children := by
    rw [List.filterMap_append, filterMap_elements]
    cases text <;> rfl
  have joined : Piece.joined text.toList = text := by
    cases text <;> simp [Piece.joined, String.join_cons, String.join_nil]
  rw [Element.ofPieces, texts, elements, joined]

/-! ## Reading what is written -/

/-- A text, if there is one, is the first piece of the content. -/
theorem contentReads_textMarkup {opened : List Bytes} {after : Bytes} {stream : Stream}
    (text : Option String)
    (scans : Scans opened (encode (Element.textMarkup text) ++ Byte.less :: after) stream) :
    ∃ later, Scans opened (Byte.less :: after) later ∧
      ∀ {name : String} {pieces : List Piece} {rest : Stream},
        ContentReads name later (.ok (pieces, rest)) →
          ContentReads name stream (.ok (text.toList.map Piece.text ++ pieces, rest)) := by
  cases text with
  | none => exact ⟨stream, scans, id⟩
  | some content =>
      have first : ∃ event : Event, event.content? = some (.ok content) ∧
          Begins event opened (Byte.less :: after) stream := by
        by_cases empty : content = ""
        · subst empty
          have unended : ¬ Byte.ofAscii "]]>" <:+: ([] : Bytes) := by decide
          have reads := tagReads_cdata unended opened (Byte.less :: after)
          exact ⟨.cdata [], rfl, begins_of_tagReads reads scans⟩
        · rw [Element.textMarkup, if_neg empty] at scans
          have free : Byte.less ∉ encode (Escapes.inText.escape content) :=
            Escapes.not_mem_encode_escape (by decide) (by decide) (by decide) content
          refine ⟨.text (encode (Escapes.inText.escape content)), ?_, ?_⟩
          · exact congrArg some (decodeText_escape Escapes.inText content)
          · exact begins_text scans (Escapes.encode_escape_ne_nil empty) free
      obtain ⟨event, decoded, offset, later, rfl, laterScans⟩ := first
      refine ⟨later, laterScans, ?_⟩
      intro name pieces rest reads
      exact .text decoded reads

/-! The induction is on the tree, with whatever follows in the source left open. -/

mutual

theorem elementReads_markup : ∀ (element : Element), element.WellNamed →
    ∀ {opened : List Bytes} {rest : Bytes} {stream : Stream},
      Scans opened (encode element.markup ++ rest) stream →
        ∃ later, Scans opened rest later ∧ ElementReads stream (.ok (element, later))
  | ⟨name, attributes, text, children⟩, wellNamed, opened, rest, stream, scans => by
      have own : Named.WellNamed (name, attributes) := wellNamed _ List.mem_cons_self
      have inside : ∀ named ∈ Element.preorderAll children, named.WellNamed := by
        intro named member
        exact wellNamed named (List.mem_cons_of_mem _ member)
      rw [encode_markup (name, attributes)] at scans
      obtain ⟨offset, content, rfl, contentScans⟩ :=
        begins_of_tagReads (tagReads_start own opened _) scans
      obtain ⟨more, front⟩ := exists_less_markupAll children
        (Byte.slash :: (encode name ++ Byte.greater :: rest))
      rw [front] at contentScans
      obtain ⟨childStream, childScans, withText⟩ := contentReads_textMarkup text contentScans
      rw [← front] at childScans
      obtain ⟨later, laterScans, reads⟩ :=
        contentReads_markupAll children inside own.name childScans
      refine ⟨later, laterScans, ?_⟩
      rw [← ofPieces_text (name, attributes) text children]
      exact .start (decode_tagOf_markup own) (withText reads)

theorem contentReads_markupAll : ∀ (children : List Element),
    (∀ named ∈ Element.preorderAll children, named.WellNamed) →
    ∀ {name : String}, isName name = true →
      ∀ {opened : List Bytes} {rest : Bytes} {stream : Stream},
        Scans (encode name :: opened) (encode (Element.markupAll children) ++
          Byte.less :: Byte.slash :: (encode name ++ Byte.greater :: rest)) stream →
        ∃ later, Scans opened rest later ∧
          ContentReads name stream (.ok (children.map Piece.element, later))
  | [], _, name, named, opened, rest, stream, scans => by
      obtain ⟨offset, later, rfl, laterScans⟩ :=
        begins_of_tagReads (tagReads_close named opened rest) scans
      exact ⟨later, laterScans, .close⟩
  | child :: children, wellNamed, name, named, opened, rest, stream, scans => by
      have first : child.WellNamed := by
        intro other member
        exact wellNamed other (List.mem_append_left _ member)
      have others : ∀ other ∈ Element.preorderAll children, other.WellNamed := by
        intro other member
        exact wellNamed other (List.mem_append_right _ member)
      rw [encode_markupAll_cons] at scans
      obtain ⟨middle, middleScans, firstReads⟩ := elementReads_markup child first scans
      obtain ⟨later, laterScans, reads⟩ := contentReads_markupAll children others named middleScans
      exact ⟨later, laterScans, .element firstReads reads⟩

end

/-- No source that begins with a tag begins with a byte order mark. -/
theorem scans_ofSource (delivery : Delivery) (rest : Bytes) :
    Scans [] (Byte.less :: rest) (Stream.ofSource delivery (Byte.less :: rest)) :=
  ⟨Scanner.ofSource delivery (Byte.less :: rest), rfl, rfl, rfl, rfl⟩

/-- Reading undoes writing, however the source is delivered. -/
theorem read_markup (delivery : Delivery) {element : Element} (wellNamed : element.WellNamed) :
    Element.read delivery (encode element.markup) = .ok element := by
  obtain ⟨more, front⟩ := exists_less_markup element
  have scans : Scans [] (encode element.markup ++ [])
      (Stream.ofSource delivery (encode element.markup)) := by
    rw [List.append_nil, front]
    exact scans_ofSource delivery more
  obtain ⟨later, _, reads⟩ := elementReads_markup element wellNamed scans
  exact assemble_of_documentReads (.root reads)

/-- What looks like markup, references or line ends is in a value and in texts;
one text has no characters and one child has no text. -/
def misleadingElement : Element :=
  ⟨"a:b", [("k", "\x22>'/>&lt;"), ("k.2", ""), ("x-1", "=\r\n\t é")], some "",
    [⟨"c_", [], none, []⟩, ⟨"c_", [], some " </a:b>&amp;]]>\r\n𝄞\x00", [⟨"d", [], some "&", []⟩]⟩]⟩

theorem read_markup_misleadingElement :
    misleadingElement.WellNamed ∧
      misleadingElement.markup =
        "<a:b k=\x22&quot;&gt;'/&gt;&amp;lt;\x22 k.2=\x22\x22 x-1=\x22=\r\n\t é\x22>" ++
          "<![CDATA[]]><c_></c_><c_> &lt;/a:b&gt;&amp;amp;]]&gt;\r\n𝄞\x00<d>&amp;</d></c_></a:b>" ∧
      Element.read .whole (encode misleadingElement.markup) = .ok misleadingElement := by
  have wellNamed : misleadingElement.WellNamed := by decide
  exact ⟨wellNamed, by decide, read_markup .whole wellNamed⟩

end ConfigDecl.Markup

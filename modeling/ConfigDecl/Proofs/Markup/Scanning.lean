import ConfigDecl.Proofs.Markup.Nesting
import ConfigDecl.Proofs.Markup.Tags

/-! # Scanning what is written

A tag and a text that are written come out of a scanner as one event each, and
the scanner goes on right behind them.  How many bytes it has consumed until
then does not matter to what it reads, nor does how the source is delivered. -/

set_option autoImplicit false

namespace ConfigDecl.Markup

open Text.Utf8 (encode encode_append)

/-- The stream of a scanner that stands in text, with those elements open and
that much left of its source. -/
def Scans (opened : List Bytes) (rest : Bytes) (stream : Stream) : Prop :=
  ∃ scanner : Scanner, scanner.inTag = false ∧ scanner.opened = opened ∧
    scanner.rest = rest ∧ scanner.stream = stream

def Begins (event : Event) (opened : List Bytes) (rest : Bytes) (stream : Stream) : Prop :=
  ∃ offset later, stream = .next event offset later ∧ Scans opened rest later

namespace Scanner

variable {scanner : Scanner}

theorem step_less (inText : scanner.inTag = false) {rest : Bytes}
    (front : scanner.rest = Byte.less :: rest) :
    scanner.step =
      tag { scanner with rest := rest, offset := scanner.offset + 1, inTag := true } := by
  simp [step, inText, front]

/-! ## Texts -/

theorem step_text (inText : scanner.inTag = false) {raw after : Bytes} (filled : raw ≠ [])
    (free : Byte.less ∉ raw) (whole : scanner.rest = raw ++ Byte.less :: after) :
    scanner.step = .event (.text raw)
      { scanner with
        rest := after
        offset := scanner.offset + (raw.length + 1)
        inTag := true } := by
  cases raw with
  | nil => exact absurd rfl filled
  | cons b more =>
      have apart : b ≠ Byte.less := by
        rintro rfl
        exact free List.mem_cons_self
      have front : scanner.rest = b :: (more ++ Byte.less :: after) := whole
      rw [step, inText, front]
      simp only [apart, if_false, Bool.false_eq_true, text, whole, upTo_append free]
      rfl

/-- A text takes the `<` after it along; the stream is the same as if that were
still to come. -/
theorem stream_before_less (inTag : scanner.inTag = true) (counted : 0 < scanner.offset) :
    scanner.stream =
      stream { scanner with
        rest := Byte.less :: scanner.rest
        offset := scanner.offset - 1
        inTag := false } := by
  have same : step { scanner with
        rest := Byte.less :: scanner.rest
        offset := scanner.offset - 1
        inTag := false } = scanner.step := by
    have offset : scanner.offset - 1 + 1 = scanner.offset := by omega
    rw [step_less rfl rfl, step, if_pos inTag, offset, ← inTag]
  rw [stream_eq, ← same, ← stream_eq]

end Scanner

theorem begins_text {opened : List Bytes} {raw after : Bytes} {stream : Stream}
    (scans : Scans opened (raw ++ Byte.less :: after) stream) (filled : raw ≠ [])
    (free : Byte.less ∉ raw) : Begins (.text raw) opened (Byte.less :: after) stream := by
  obtain ⟨scanner, inText, rfl, whole, rfl⟩ := scans
  rw [Scanner.stream_eq, Scanner.step_text inText filled free whole]
  have counted : 0 < scanner.offset + (raw.length + 1) := by omega
  refine ⟨_, _, rfl, _, ?_, ?_, ?_, (Scanner.stream_before_less rfl counted).symm⟩ <;> rfl

/-! ## Tags -/

/-- Behind a `<` that event is read, with `after` left and other elements open. -/
def TagReads (opened : List Bytes) (rest : Bytes) (event : Event) (opened' : List Bytes)
    (after : Bytes) : Prop :=
  ∀ scanner : Scanner, scanner.opened = opened → scanner.rest = rest →
    ∃ next, scanner.tag = .event event next ∧ next.inTag = false ∧ next.opened = opened' ∧
      next.rest = after

theorem begins_of_tagReads {opened opened' : List Bytes} {rest after : Bytes} {event : Event}
    {stream : Stream} (reads : TagReads opened rest event opened' after)
    (scans : Scans opened (Byte.less :: rest) stream) : Begins event opened' after stream := by
  obtain ⟨scanner, inText, open', whole, rfl⟩ := scans
  obtain ⟨next, read, nextInText, nextOpened, nextRest⟩ :=
    reads { scanner with rest := rest, offset := scanner.offset + 1, inTag := true } open' rfl
  rw [Scanner.stream_eq, Scanner.step_less inText whole, read]
  exact ⟨next.offset, next.stream, rfl, next, nextInText, nextOpened, nextRest, rfl⟩

theorem tagReads_start {named : Named} (wellNamed : named.WellNamed) (opened : List Bytes)
    (after : Bytes) :
    TagReads opened (encode named.markup ++ Byte.greater :: after)
      (.start (Scanner.tagOf (encode named.markup))) (encode named.1 :: opened) after := by
  intro scanner open' whole
  have ended := upToTagEnd_markup wellNamed after
  have name : (Scanner.tagOf (encode named.markup)).name = encode named.1 := by
    rw [tagOf_markup wellNamed]
  have read : scanner.elementTag = .event (.start (Scanner.tagOf (encode named.markup)))
      { scanner.inText after (scanner.offset + (encode named.markup).length + 1) with
        opened := encode named.1 :: opened } := by
    rw [Scanner.elementTag, whole, ended]
    simp only [getLast?_markup wellNamed, if_false, name, open']
    rfl
  refine ⟨_, Eq.trans ?_ read, rfl, rfl, rfl⟩
  -- The first byte is that of a letter, so the tag is that of an element.
  cases front : encode named.1 with
  | nil => exact absurd front (encode_ne_nil_of_isName wellNamed.name)
  | cons b more =>
      have member : b ∈ encode named.1 := by
        rw [front]
        exact List.mem_cons_self
      have notBang : b ≠ Byte.bang :=
        ne_of_mem_encode_name wellNamed.name member (by decide) (by decide)
      have notSlash : b ≠ Byte.slash :=
        ne_of_mem_encode_name wellNamed.name member (by decide) (by decide)
      have notQuestion : b ≠ Byte.question :=
        ne_of_mem_encode_name wellNamed.name member (by decide) (by decide)
      have first : scanner.rest = b :: (more ++ encode (attributesMarkup named.2) ++
          Byte.greater :: after) := by
        rw [whole, Named.markup, encode_append, front]
        rfl
      rw [Scanner.tag, first]
      simp only [notBang, notSlash, notQuestion, if_false]

theorem endName_encode {name : String} (named : isName name = true) :
    Scanner.endName (encode name) = encode name := by
  have kept : (encode name).reverse.dropWhile Byte.isSpace = (encode name).reverse := by
    cases backwards : (encode name).reverse with
    | nil => rfl
    | cons b more =>
        have member : b ∈ encode name := by
          rw [← List.mem_reverse, backwards]
          exact List.mem_cons_self
        exact List.dropWhile_cons_of_neg (by simp [isSpace_of_isName named b member])
  rw [Scanner.endName, kept, List.reverse_reverse, ite_self]

theorem tagReads_close {name : String} (named : isName name = true) (opened : List Bytes)
    (after : Bytes) :
    TagReads (encode name :: opened) (Byte.slash :: (encode name ++ Byte.greater :: after))
      .close opened after := by
  intro scanner open' whole
  have free : Byte.greater ∉ Byte.slash :: encode name := by
    intro member
    cases member with
    | tail _ later => exact not_mem_encode_of_isName named (by decide) (by decide) later
  have ended := upTo_append free after
  have read : scanner.endTag = .event .close
      { scanner.inText after
          (scanner.offset + Scanner.consumed (Byte.slash :: encode name) (some after)) with
        opened := opened } := by
    rw [Scanner.endTag, whole, ← List.cons_append, ended]
    simp only [open', List.drop_succ_cons, List.drop_zero, endName_encode named, if_true]
    rfl
  refine ⟨_, Eq.trans ?_ read, rfl, rfl, rfl⟩
  rw [Scanner.tag, whole]
  rfl

end ConfigDecl.Markup

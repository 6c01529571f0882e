import ConfigDecl.Markup.Lowering
import ConfigDecl.Proofs.Markup.Grammar
import ConfigDecl.Proofs.Markup.Listing
import Mathlib

/-! # Declarations by their tags

Every start tag and every empty tag before the end of the root begins an element,
and the elements in document order are those of the tags in the order of the
source.  So the declarations of a document are those of the tags of their names
inside the root: one for each, in order, and made of the element that begins
there. -/

set_option autoImplicit false

namespace ConfigDecl.Markup

/-! ## Where elements begin -/

namespace Stream

def tag? : Stream → Option Tag
  | .next event _ _ => event.tag?
  | .done _ => none
  | .faulty _ _ => none

/-- The stream from each start tag and each empty tag on, up to the one that
completes the root, elements of these names being open. -/
def starts (opened : List String) : Stream → List Stream
  | .done _ => []
  | .faulty _ _ => []
  | .next event offset rest =>
      (if event.tag?.isSome then [.next event offset rest] else []) ++
        match event.opened? opened with
        | none => []
        | some opened => rest.starts opened

/-- The starts behind an element, inside those of these names. -/
def startsBehind (opened : List String) (after : Stream) : List Stream :=
  if opened = [] then [] else after.starts opened

end Stream

theorem filterMap_tag?_starts (opened : List String) (stream : Stream) :
    (stream.starts opened).filterMap Stream.tag? =
      (stream.throughRoot opened).filterMap Event.tag? := by
  induction stream generalizing opened with
  | done offset => rfl
  | faulty fault offset => rfl
  | next event offset rest ih =>
      rw [Stream.starts, Stream.throughRoot, List.filterMap_append, List.filterMap_cons]
      cases tagged : event.tag? <;> cases event.opened? opened <;>
        simp [Stream.tag?, tagged, ih]

/-! ## What begins there -/

/-- The stream opens with the element: it is what the grammar reads from there. -/
def Opens (start : Stream) (element : Element) : Prop :=
  ∃ after, ElementReads start (.ok (element, after))

theorem title_of_opens {start : Stream} {element : Element} (opens : Opens start element) :
    start.tag?.map Tag.title = some element.name := by
  obtain ⟨after, reads⟩ := opens
  generalize outcome : (Except.ok (element, after) : Outcome Element) = read at reads
  cases reads with
  | empty decoded =>
      cases outcome
      simp [Stream.tag?, Event.tag?, Tag.title, decoded, Element.ofPieces, Except.toOption]
  | start decoded content =>
      obtain ⟨inside, _, same⟩ := Attempt.map_eq_ok_iff.1 outcome.symm
      cases same
      simp [Stream.tag?, Event.tag?, Tag.title, decoded, Element.ofPieces, Except.toOption]
  | emptyFault faulty => cases outcome
  | startFault faulty => cases outcome

/-- The elements are opened at the first of the starts, one at each, and the others
are later. -/
def OpenAt (elements : List Element) (starts later : List Stream) : Prop :=
  ∃ inside, starts = inside ++ later ∧ List.Forall₂ Opens inside elements

theorem OpenAt.nil (later : List Stream) : OpenAt [] later later := ⟨[], rfl, .nil⟩

theorem OpenAt.cons {start : Stream} {element : Element} {elements : List Element}
    {starts later : List Stream} (first : Opens start element)
    (others : OpenAt elements starts later) :
    OpenAt (element :: elements) (start :: starts) later := by
  obtain ⟨inside, rfl, each⟩ := others
  exact ⟨start :: inside, rfl, .cons first each⟩

theorem OpenAt.append {first more : List Element} {starts between later : List Stream}
    (before : OpenAt first starts between) (behind : OpenAt more between later) :
    OpenAt (first ++ more) starts later := by
  obtain ⟨inside, rfl, each⟩ := before
  obtain ⟨others, rfl, eachOther⟩ := behind
  exact ⟨inside ++ others, (List.append_assoc _ _ _).symm, List.rel_append each eachOther⟩

open Element (elementsAmong)

theorem elementsAmong_single (name : String) (attributes : List (String × String))
    (pieces : List Piece) :
    elementsAmong [Element.ofPieces name attributes pieces] =
      Element.ofPieces name attributes pieces ::
        elementsAmong (pieces.filterMap Piece.element?) := by
  rw [Element.elementsAmong_cons, Element.elementsAmong_nil, List.append_nil]
  rfl

-- Of the names of the open elements it only counts whether there are any, so the content of an
-- element is taken inside elements of any names.
mutual

theorem openAt_of_elementReads : ∀ {stream : Stream} {outcome : Outcome Element},
    ElementReads stream outcome → ∀ {element : Element} {after : Stream},
      outcome = .ok (element, after) → ∀ opened : List String,
        OpenAt (elementsAmong [element]) (stream.starts opened) (after.startsBehind opened)
  | _, _, @ElementReads.empty tag offset rest named decoded, element, after, same, opened => by
      cases same
      have here : (Stream.next (.empty tag) offset rest).starts opened =
          .next (.empty tag) offset rest :: rest.startsBehind opened := by
        cases opened <;> rfl
      rw [here, elementsAmong_single, List.filterMap_nil, Element.elementsAmong_nil]
      exact .cons ⟨rest, .empty decoded⟩ (.nil _)
  | _, _, @ElementReads.start tag offset rest named outcome decoded content, element, after, same,
      opened => by
      obtain ⟨⟨pieces, behind⟩, ok, made⟩ := Attempt.map_eq_ok_iff.1 same
      cases made
      have opens : Opens (.next (.start tag) offset rest)
          (Element.ofPieces named.1 named.2 pieces) := by
        rw [ok] at content
        exact ⟨behind, .start decoded content⟩
      have here : (Stream.next (.start tag) offset rest).starts opened =
          .next (.start tag) offset rest :: rest.starts (tag.title :: opened) := rfl
      rw [here, elementsAmong_single]
      exact .cons opens (openAt_of_contentReads content ok tag.title opened)
  | _, _, .emptyFault _, _, _, same, _ => nomatch same
  | _, _, .startFault _, _, _, same, _ => nomatch same

theorem openAt_of_contentReads : ∀ {name : String} {stream : Stream}
    {outcome : Outcome (List Piece)}, ContentReads name stream outcome →
      ∀ {pieces : List Piece} {after : Stream}, outcome = .ok (pieces, after) →
        ∀ (inner : String) (outer : List String),
          OpenAt (elementsAmong (pieces.filterMap Piece.element?))
            (stream.starts (inner :: outer)) (after.startsBehind outer)
  | _, _, _, @ContentReads.close _ offset rest, pieces, after, same, inner, outer => by
      cases same
      have here : (Stream.next .close offset rest).starts (inner :: outer) =
          rest.startsBehind outer := by
        cases outer <;> rfl
      rw [here, List.filterMap_nil, Element.elementsAmong_nil]
      exact .nil _
  | _, _, _, @ContentReads.skipped _ offset rest outcome later, pieces, after, same, inner,
      outer => openAt_of_contentReads later same inner outer
  | _, _, _, @ContentReads.text _ event offset rest content outcome decoded later, pieces, after,
      same, inner, outer => by
      obtain ⟨⟨others, _⟩, ok, made⟩ := Attempt.map_eq_ok_iff.1 same
      cases made
      have here : (Stream.next event offset rest).starts (inner :: outer) =
          rest.starts (inner :: outer) := by
        cases event <;> first | rfl | cases decoded
      rw [here]
      exact openAt_of_contentReads later ok inner outer
  | _, _, _, @ContentReads.element _ stream mid child outcome first later, pieces, after, same,
      inner, outer => by
      obtain ⟨⟨others, _⟩, ok, made⟩ := Attempt.map_eq_ok_iff.1 same
      cases made
      have split : elementsAmong ((Piece.element child :: others).filterMap Piece.element?) =
          elementsAmong [child] ++ elementsAmong (others.filterMap Piece.element?) := by
        rw [List.filterMap_cons, Piece.element?_element, Element.elementsAmong_cons,
          Element.elementsAmong_cons child [], Element.elementsAmong_nil, List.append_nil]
      rw [split]
      exact (openAt_of_elementReads first rfl (inner :: outer)).append
        (openAt_of_contentReads later ok inner outer)
  | _, _, _, .textFault _, _, _, same, _, _ => nomatch same
  | _, _, _, .elementFault _, _, _, same, _, _ => nomatch same
  | _, _, _, .ended, _, _, same, _, _ => nomatch same
  | _, _, _, .faulty, _, _, same, _, _ => nomatch same

end

/-- The elements of a document, the root first, begin at the starts of its stream. -/
theorem opens_of_documentReads {stream : Stream} {root : Element}
    (reads : DocumentReads stream (.ok root)) :
    List.Forall₂ Opens (stream.starts []) (root :: elementsAmong root.children) := by
  generalize outcome : (Except.ok root : Except ReadError Element) = read at reads
  induction reads with
  | @outside event offset rest _ passed _ ih =>
      have here : (Stream.next event offset rest).starts [] = rest.starts [] := by
        cases event <;> first | rfl | cases passed
      rw [here]
      exact ih outcome
  | root reads =>
      obtain ⟨⟨element, after⟩, rfl, rfl⟩ := Attempt.map_eq_ok_iff.1 outcome.symm
      obtain ⟨inside, starts, each⟩ := openAt_of_elementReads reads rfl []
      rw [starts, Stream.startsBehind, if_pos rfl, List.append_nil]
      rw [Element.elementsAmong_cons, Element.elementsAmong_nil, List.append_nil] at each
      exact each
  | ended => cases outcome
  | faulty => cases outcome

/-! ## Declarations -/

def startsNamed (name : String) (starts : List Stream) : List Stream :=
  starts.filter fun start => start.tag?.map Tag.title = some name

theorem opens_named (name : String) {starts : List Stream} {elements : List Element}
    (each : List.Forall₂ Opens starts elements) :
    List.Forall₂ Opens (startsNamed name starts)
      (elements.filter fun element => element.name = name) := by
  rw [startsNamed]
  refine List.rel_filter ?_ each
  intro start element opens
  simp [title_of_opens opens]

/-- The declarations are made, one for one and in order, of the elements that begin at
the starts. -/
def MadeAt {Declaration : Type} (make : Element → Declaration) :
    List Stream → List Declaration → Prop :=
  List.Forall₂ fun start declaration =>
    ∃ element, Opens start element ∧ declaration = make element

theorem madeAt_map {Declaration : Type} (make : Element → Declaration) {starts : List Stream}
    {elements : List Element} (each : List.Forall₂ Opens starts elements) :
    MadeAt make starts (elements.map make) := by
  rw [MadeAt, List.forall₂_map_right_iff]
  exact each.imp fun start element opens => ⟨element, opens, rfl⟩

theorem read_of_readDocument {delivery : Delivery} {source : Bytes} {doc : Document}
    (reads : readDocument delivery source = .ok doc) :
    ∃ root, DocumentReads (Stream.ofSource delivery source) (.ok root) ∧ root.document = doc := by
  obtain ⟨root, made, declares⟩ := Attempt.map_eq_ok_iff.1 reads
  refine ⟨root, ?_, declares⟩
  exact (assemble_eq_iff_documentReads (nested_ofSource delivery source) _).1 made

/-- The elements of a name below another are those of its listing in document order
without itself, and the declarations of a source are those of the tags of their
names inside its root. -/
theorem descendants_in_document_order :
    (∀ root : Element,
      root.listing.Pairwise (fun first later => first.1 < later.1) ∧
      (∀ path element, (path, element) ∈ root.listing ↔ root.at? path = some element) ∧
      ∀ name, root.descendantsNamed name =
        (root.listing.tail.map Prod.snd).filter fun element => element.name = name) ∧
    ∀ (delivery : Delivery) (source : Bytes) (doc : Document),
      readDocument delivery source = .ok doc →
        ((Stream.ofSource delivery source).starts []).filterMap Stream.tag? =
          ((Stream.ofSource delivery source).throughRoot []).filterMap Event.tag? ∧
        ∃ first inside, (Stream.ofSource delivery source).starts [] = first :: inside ∧
          MadeAt Element.constant (startsNamed "constant" inside) doc.constants ∧
          MadeAt Element.dictionary (startsNamed "dictionary" inside) doc.dictionaries := by
  refine ⟨?_, ?_⟩
  · intro root
    refine ⟨Element.pairwise_listing root, Element.mem_listing_iff root, ?_⟩
    intro name
    rw [Element.tail_listing]
    exact Element.descendantsNamed_eq name root
  · intro delivery source doc reads
    refine ⟨filterMap_tag?_starts [] _, ?_⟩
    obtain ⟨root, documentReads, rfl⟩ := read_of_readDocument reads
    have opens := opens_of_documentReads documentReads
    generalize (Stream.ofSource delivery source).starts [] = starts at opens
    cases opens with
    | @cons first _ inside _ _ each =>
        refine ⟨first, inside, rfl, ?_, ?_⟩
        · rw [Element.document, Element.descendantsNamed_eq "constant"]
          exact madeAt_map _ (opens_named "constant" each)
        · rw [Element.document, Element.descendantsNamed_eq "dictionary"]
          exact madeAt_map _ (opens_named "dictionary" each)

def nestedConstants : Bytes :=
  Byte.ofAscii
    "<constant><constant name='a'><dictionary/><constant/></constant></constant><constant/>"

theorem declarations_nested :
    readDocument .whole nestedConstants =
        .ok ⟨[⟨some "a", none⟩, ⟨none, none⟩], [⟨none, []⟩]⟩ ∧
      ∃ first inside, (Stream.ofSource .whole nestedConstants).starts [] = first :: inside ∧
        MadeAt Element.constant (startsNamed "constant" inside)
            [⟨some "a", none⟩, ⟨none, none⟩] ∧
        MadeAt Element.dictionary (startsNamed "dictionary" inside) [⟨none, []⟩] := by
  have reads : readDocument .whole nestedConstants =
      .ok ⟨[⟨some "a", none⟩, ⟨none, none⟩], [⟨none, []⟩]⟩ := by cbv
  exact ⟨reads, (descendants_in_document_order.2 .whole nestedConstants _ reads).2⟩

end ConfigDecl.Markup

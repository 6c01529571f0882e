import ConfigDecl.Proofs.Markup.Nesting
import ConfigDecl.Proofs.Markup.Pile

/-! # The grammar of a document

A document is anything but an element, any number of times, and then its root
element; an element is an empty tag, or a start tag, content and an end tag; and
content is any number of texts, elements and events that are passed over.  A
stream is read by this grammar with no pile: what is inside an element is read
by the reading of its content.  An element that is read in this way reaches the
pile as one child, whatever the pile is. -/

set_option autoImplicit false

namespace ConfigDecl.Markup

/-- What stands directly inside an element. -/
inductive Piece where
  | text (content : String)
  | element (child : Element)
  deriving DecidableEq

namespace Piece

def element? : Piece → Option Element
  | .text _ => none
  | .element child => some child

@[simp] theorem element?_text (content : String) : (Piece.text content).element? = none := rfl

@[simp] theorem element?_element (child : Element) : (Piece.element child).element? = some child :=
  rfl

def leadingTexts : List Piece → List String
  | [] => []
  | .text content :: rest => content :: leadingTexts rest
  | .element _ :: _ => []

def joined (texts : List String) : Option String :=
  if texts = [] then none else some (String.join texts)

theorem joined_concat (texts : List String) (last : String) :
    joined (texts ++ [last]) = some ((joined texts).getD "" ++ last) := by
  cases texts with
  | nil => simp [joined, String.join_cons, String.join_nil]
  | cons first rest =>
      simp [joined, String.join_cons, String.join_append, String.join_nil, String.append_assoc]

end Piece

def Element.ofPieces (name : String) (attributes : List (String × String))
    (pieces : List Piece) : Element :=
  ⟨name, attributes, Piece.joined (Piece.leadingTexts pieces), pieces.filterMap Piece.element?⟩

/-! ## Reading without a pile -/

/-- What a reading comes to: a value and the stream after it, or an error. -/
abbrev Outcome (α : Type) := Except ReadError (α × Stream)

def Outcome.cons (piece : Piece) (outcome : Outcome (List Piece)) : Outcome (List Piece) :=
  outcome.map fun read => (piece :: read.1, read.2)

/-- The element of the tag, once its content has been read. -/
def Outcome.inside (named : Named) (outcome : Outcome (List Piece)) : Outcome Element :=
  outcome.map fun read => (Element.ofPieces named.1 named.2 read.1, read.2)

mutual

/-- An empty tag, or a start tag, content and an end tag. -/
inductive ElementReads : Stream → Outcome Element → Prop where
  | empty {tag : Tag} {offset : Nat} {rest : Stream} {named : Named}
      (decoded : tag.decode = .ok named) :
      ElementReads (.next (.empty tag) offset rest)
        (.ok (Element.ofPieces named.1 named.2 [], rest))
  | emptyFault {tag : Tag} {offset : Nat} {rest : Stream} {fault : Fault}
      (faulty : tag.decode = .error fault) :
      ElementReads (.next (.empty tag) offset rest) (.error (.malformed fault offset))
  | start {tag : Tag} {offset : Nat} {rest : Stream} {named : Named}
      {outcome : Outcome (List Piece)} (decoded : tag.decode = .ok named)
      (content : ContentReads named.1 rest outcome) :
      ElementReads (.next (.start tag) offset rest) (outcome.inside named)
  | startFault {tag : Tag} {offset : Nat} {rest : Stream} {fault : Fault}
      (faulty : tag.decode = .error fault) :
      ElementReads (.next (.start tag) offset rest) (.error (.malformed fault offset))

/-- Texts, elements and what is passed over, up to the end tag of the element of
that name. -/
inductive ContentReads : String → Stream → Outcome (List Piece) → Prop where
  | close {name : String} {offset : Nat} {rest : Stream} :
      ContentReads name (.next .close offset rest) (.ok ([], rest))
  | skipped {name : String} {offset : Nat} {rest : Stream} {outcome : Outcome (List Piece)}
      (later : ContentReads name rest outcome) :
      ContentReads name (.next .skipped offset rest) outcome
  | text {name : String} {event : Event} {offset : Nat} {rest : Stream} {content : String}
      {outcome : Outcome (List Piece)} (decoded : event.content? = some (.ok content))
      (later : ContentReads name rest outcome) :
      ContentReads name (.next event offset rest) (outcome.cons (.text content))
  | textFault {name : String} {event : Event} {offset : Nat} {rest : Stream} {fault : Fault}
      (faulty : event.content? = some (.error fault)) :
      ContentReads name (.next event offset rest) (.error (.malformed fault (event.place offset)))
  | element {name : String} {stream after : Stream} {child : Element}
      {outcome : Outcome (List Piece)} (first : ElementReads stream (.ok (child, after)))
      (later : ContentReads name after outcome) :
      ContentReads name stream (outcome.cons (.element child))
  | elementFault {name : String} {stream : Stream} {error : ReadError}
      (first : ElementReads stream (.error error)) : ContentReads name stream (.error error)
  | ended {name : String} {offset : Nat} :
      ContentReads name (.done offset) (.error (.malformed (.unfinished (.element name)) offset))
  | faulty {name : String} {fault : Fault} {offset : Nat} :
      ContentReads name (.faulty fault offset) (.error (.malformed fault offset))

end

/-- Whether an event before the root element is passed over. -/
def Event.isOutside : Event → Bool
  | .start _ => false
  | .empty _ => false
  | .close => false
  | .text _ => true
  | .cdata _ => true
  | .skipped => true

/-- Anything but an element, any number of times, and then the root element. -/
inductive DocumentReads : Stream → Except ReadError Element → Prop where
  | outside {event : Event} {offset : Nat} {rest : Stream} {outcome : Except ReadError Element}
      (passed : event.isOutside = true) (later : DocumentReads rest outcome) :
      DocumentReads (.next event offset rest) outcome
  | root {stream : Stream} {outcome : Outcome Element} (read : ElementReads stream outcome) :
      DocumentReads stream (outcome.map Prod.fst)
  | ended {offset : Nat} : DocumentReads (.done offset) (.error .missingRoot)
  | faulty {fault : Fault} {offset : Nat} :
      DocumentReads (.faulty fault offset) (.error (.malformed fault offset))

/-! ## Pieces of an open element -/

namespace OpenElement

def add (element : OpenElement) : Piece → OpenElement
  | .text content => element.addText content
  | .element child => element.addChild child

def addAll (element : OpenElement) (pieces : List Piece) : OpenElement :=
  pieces.foldl add element

@[simp] theorem addAll_nil (element : OpenElement) : element.addAll [] = element := rfl

@[simp] theorem addAll_cons (element : OpenElement) (piece : Piece) (rest : List Piece) :
    element.addAll (piece :: rest) = (element.add piece).addAll rest := rfl

@[simp] theorem name_add (element : OpenElement) (piece : Piece) :
    (element.add piece).name = element.name := by
  cases piece with
  | text content =>
      rw [add, addText]
      split <;> rfl
  | element child => rfl

theorem closed_addAll_of_child {element : OpenElement} (later : element.latestFirst ≠ [])
    (pieces : List Piece) :
    (element.addAll pieces).closed =
      ⟨element.name, element.attributes, element.text,
        element.latestFirst.reverse ++ pieces.filterMap Piece.element?⟩ := by
  induction pieces generalizing element with
  | nil => simp [closed]
  | cons piece rest ih =>
      cases piece with
      | text content =>
          have unchanged : element.add (.text content) = element := by
            simp [add, addText, later]
          rw [addAll_cons, unchanged, ih later]
          rfl
      | element child =>
          have more : (element.add (.element child)).latestFirst ≠ [] := List.cons_ne_nil _ _
          rw [addAll_cons, ih more]
          simp [add, addChild]

theorem closed_addAll {element : OpenElement} {texts : List String}
    (childless : element.latestFirst = []) (soFar : element.text = Piece.joined texts)
    (pieces : List Piece) :
    (element.addAll pieces).closed =
      ⟨element.name, element.attributes, Piece.joined (texts ++ Piece.leadingTexts pieces),
        pieces.filterMap Piece.element?⟩ := by
  induction pieces generalizing element texts with
  | nil => simp [closed, childless, soFar, Piece.leadingTexts]
  | cons piece rest ih =>
      cases piece with
      | text content =>
          have added : element.add (.text content) =
              { element with text := some (element.text.getD "" ++ content) } := by
            simp [add, addText, childless]
          have more : (element.add (.text content)).text = Piece.joined (texts ++ [content]) := by
            rw [added, Piece.joined_concat, soFar]
          rw [addAll_cons, ih (by rw [added, childless]) more, added]
          simp [Piece.leadingTexts, List.filterMap_cons]
      | element child =>
          have later : (element.add (.element child)).latestFirst ≠ [] := List.cons_ne_nil _ _
          rw [addAll_cons, closed_addAll_of_child later]
          simp [add, addChild, childless, soFar, Piece.leadingTexts]

theorem closed_addAll_new (named : Named) (pieces : List Piece) :
    ((OpenElement.new named).addAll pieces).closed =
      Element.ofPieces named.1 named.2 pieces := by
  have noText : (none : Option String) = Piece.joined [] := rfl
  rw [closed_addAll rfl noText]
  rfl

end OpenElement

/-! ## What is read reaches the pile -/

/-- The element is complete and `rest` comes after it. -/
def handOver (element : Element) (rest : Stream) (pile : List OpenElement) :
    Except ReadError Element :=
  (settle element pile).resume rest

theorem assemble_of_content {event : Event} {content : String}
    (decoded : event.content? = some (.ok content)) (element : OpenElement)
    (outer : List OpenElement) (offset : Nat) (rest : Stream) :
    assemble (element :: outer) (.next event offset rest) =
      assemble (element.add (.text content) :: outer) rest :=
  assemble_of_advances (.content decoded) offset rest

theorem fault?_of_content {event : Event} {fault : Fault}
    (faulty : event.content? = some (.error fault)) (element : OpenElement)
    (outer : List OpenElement) : event.fault? (names (element :: outer)) = some fault := by
  cases event with
  | text raw => exact congrArg Attempt.failure? (Option.some.inj faulty)
  | cdata raw => exact congrArg Attempt.failure? (Option.some.inj faulty)
  | _ => cases faulty

mutual

theorem assemble_of_elementReads : ∀ {stream : Stream} {outcome : Outcome Element},
    ElementReads stream outcome → ∀ pile : List OpenElement,
      assemble pile stream = outcome.bind fun read => handOver read.1 read.2 pile
  | _, _, @ElementReads.empty _ offset rest _ decoded, pile =>
      assemble_of_advances (.empty decoded) offset rest
  | _, _, @ElementReads.emptyFault tag offset rest _ faulty, pile => by
      have found : (Event.empty tag).fault? (names pile) = _ :=
        Attempt.failure?_eq_some_iff.2 faulty
      exact assemble_of_fault found offset rest
  | _, _, @ElementReads.start _ offset rest named content decoded reads, pile => by
      rw [assemble_of_advances (.start decoded), Advance.resume,
        assemble_of_contentReads reads (.new named) rfl pile]
      cases content with
      | error error => rfl
      | ok read =>
          rw [Attempt.bind_ok, OpenElement.closed_addAll_new]
          rfl
  | _, _, @ElementReads.startFault tag offset rest _ faulty, pile => by
      have found : (Event.start tag).fault? (names pile) = _ :=
        Attempt.failure?_eq_some_iff.2 faulty
      exact assemble_of_fault found offset rest

theorem assemble_of_contentReads : ∀ {name : String} {stream : Stream}
    {outcome : Outcome (List Piece)}, ContentReads name stream outcome →
      ∀ element : OpenElement, element.name = name → ∀ outer : List OpenElement,
        assemble (element :: outer) stream =
          outcome.bind fun read => handOver (element.addAll read.1).closed read.2 outer
  | _, _, _, @ContentReads.close _ offset rest, element, named, outer =>
      assemble_of_advances .close offset rest
  | _, _, _, @ContentReads.skipped _ offset rest outcome later, element, named, outer =>
      (assemble_of_advances .skipped offset rest).trans
        (assemble_of_contentReads later element named outer)
  | _, _, _, @ContentReads.text _ event offset rest content outcome decoded later, element, named,
      outer => by
      rw [assemble_of_content decoded]
      rw [assemble_of_contentReads later (element.add (.text content)) (by simp [named]) outer]
      cases outcome <;> rfl
  | _, _, _, @ContentReads.textFault _ _ offset rest _ faulty, element, named, outer =>
      assemble_of_fault (fault?_of_content faulty element outer) offset rest
  | _, _, _, @ContentReads.element _ _ after child outcome first later, element, named, outer => by
      rw [assemble_of_elementReads first, Attempt.bind_ok]
      refine (assemble_of_contentReads later (element.add (.element child)) (by simp [named])
        outer).trans ?_
      cases outcome <;> rfl
  | _, _, _, .elementFault first, element, named, outer => by
      rw [assemble_of_elementReads first]
      rfl
  | _, _, _, .ended, element, named, outer => by
      rw [← named]
      rfl
  | _, _, _, .faulty, element, named, outer => rfl

end

theorem assemble_of_documentReads {stream : Stream} {outcome : Except ReadError Element}
    (reads : DocumentReads stream outcome) : assemble [] stream = outcome := by
  induction reads with
  | @outside event offset rest outcome passed _ ih =>
      have tagless : event.tag? = none := by cases event <;> first | rfl | cases passed
      rw [assemble_of_advances (.outside tagless)]
      exact ih
  | @root stream outcome read =>
      rw [assemble_of_elementReads read]
      cases outcome <;> rfl
  | ended => rfl
  | faulty => rfl

/-! ## Every stream can be read -/

def Stream.length (stream : Stream) : Nat := stream.events.length

def Within {α : Type} (size : Nat) (outcome : Outcome α) : Prop :=
  ∀ read, outcome = .ok read → read.2.length < size

theorem within_error {α : Type} (size : Nat) (error : ReadError) :
    Within size (.error error : Outcome α) := by
  intro read same
  cases same

theorem within_ok {α : Type} {size : Nat} {after : Stream} (shorter : after.length < size)
    (a : α) : Within size (.ok (a, after)) := by
  intro read same
  cases same
  exact shorter

theorem within_map {α β : Type} {outcome : Outcome α} {size larger : Nat}
    (within : Within size outcome) (wider : size ≤ larger) (change : α → β) :
    Within larger (outcome.map fun read => (change read.1, read.2)) := by
  intro read same
  obtain ⟨before, rfl, rfl⟩ := Attempt.map_eq_ok_iff.1 same
  exact Nat.lt_of_lt_of_le (within before rfl) wider

theorem exists_elementReads_of_content {rest : Stream}
    (content : ∀ name, ∃ outcome, ContentReads name rest outcome ∧ Within rest.length outcome)
    {event : Event} {tag : Tag} (tagged : event.tag? = some tag) (offset : Nat) :
    ∃ outcome, ElementReads (.next event offset rest) outcome ∧
      Within (rest.length + 1) outcome := by
  cases event with
  | empty _ =>
      cases decoded : tag.decode with
      | error fault =>
          cases tagged
          exact ⟨_, .emptyFault decoded, within_error _ _⟩
      | ok named =>
          cases tagged
          exact ⟨_, .empty decoded, within_ok (Nat.lt_succ_self _) _⟩
  | start _ =>
      cases decoded : tag.decode with
      | error fault =>
          cases tagged
          exact ⟨_, .startFault decoded, within_error _ _⟩
      | ok named =>
          cases tagged
          obtain ⟨outcome, reads, within⟩ := content named.1
          exact ⟨_, .start decoded reads, within_map within (Nat.le_succ _) _⟩
  | _ => cases tagged

/-- Content can be read from any stream, and takes up something of it. -/
theorem exists_contentReads (stream : Stream) (name : String) :
    ∃ outcome, ContentReads name stream outcome ∧ Within stream.length outcome := by
  -- What comes after a child is no part of the stream's structure: the induction is on lengths.
  induction size : stream.length using Nat.strongRecOn generalizing stream name with
  | ind size ih =>
      subst size
      cases stream with
      | done offset => exact ⟨_, .ended, within_error _ _⟩
      | faulty fault offset => exact ⟨_, .faulty, within_error _ _⟩
      | next event offset rest =>
          have shorter : rest.length < (Stream.next event offset rest).length := Nat.lt_succ_self _
          have wider := Nat.le_of_lt shorter
          have inside := fun other => ih rest.length shorter rest other rfl
          obtain ⟨later, laterReads, laterWithin⟩ := inside name
          cases tagged : event.tag? with
          | some tag =>
              obtain ⟨first, reads, within⟩ := exists_elementReads_of_content inside tagged offset
              cases first with
              | error error => exact ⟨_, .elementFault reads, within_error _ _⟩
              | ok read =>
                  have afterShorter := within read rfl
                  obtain ⟨outcome, afterReads, afterWithin⟩ :=
                    ih read.2.length afterShorter read.2 name rfl
                  refine ⟨_, .element reads afterReads, ?_⟩
                  exact within_map afterWithin (Nat.le_of_lt afterShorter) _
          | none =>
              cases attempted : event.content? with
              | some attempt =>
                  cases attempt with
                  | error fault => exact ⟨_, .textFault attempted, within_error _ _⟩
                  | ok content =>
                      exact ⟨_, .text attempted laterReads, within_map laterWithin wider _⟩
              | none =>
                  cases event with
                  | close => exact ⟨_, .close, within_ok shorter _⟩
                  | skipped =>
                      refine ⟨_, .skipped laterReads, ?_⟩
                      intro read same
                      exact Nat.lt_trans (laterWithin read same) shorter
                  | start tag => cases tagged
                  | empty tag => cases tagged
                  | text raw => cases attempted
                  | cdata raw => cases attempted

/-- A document can be read from any stream that closes nothing that is not open. -/
theorem exists_documentReads {stream : Stream} (nested : stream.Nested 0) :
    ∃ outcome, DocumentReads stream outcome := by
  induction stream with
  | done offset => exact ⟨_, .ended⟩
  | faulty fault offset => exact ⟨_, .faulty⟩
  | next event offset rest ih =>
      have element : ∀ tag, event.tag? = some tag →
          ∃ outcome, DocumentReads (.next event offset rest) outcome := by
        intro tag tagged
        obtain ⟨outcome, reads, _⟩ :=
          exists_elementReads_of_content (exists_contentReads rest) tagged offset
        exact ⟨_, .root reads⟩
      cases event with
      | start tag => exact element tag rfl
      | empty tag => exact element tag rfl
      | close => exact absurd nested.1 (Nat.lt_irrefl 0)
      | text raw =>
          obtain ⟨outcome, reads⟩ := ih nested
          exact ⟨outcome, .outside rfl reads⟩
      | cdata raw =>
          obtain ⟨outcome, reads⟩ := ih nested
          exact ⟨outcome, .outside rfl reads⟩
      | skipped =>
          obtain ⟨outcome, reads⟩ := ih nested
          exact ⟨outcome, .outside rfl reads⟩

/-- The pile and the grammar read the same. -/
theorem assemble_eq_iff_documentReads {stream : Stream} (nested : stream.Nested 0)
    (outcome : Except ReadError Element) :
    assemble [] stream = outcome ↔ DocumentReads stream outcome := by
  constructor
  · intro made
    obtain ⟨read, reads⟩ := exists_documentReads nested
    rw [← made, assemble_of_documentReads reads]
    exact reads
  · intro reads
    exact assemble_of_documentReads reads

end ConfigDecl.Markup

import ConfigDecl.Markup.Assembly
import ConfigDecl.Proofs.Attempt

/-! # The pile

An event meets a pile of open elements in one of three ways: it has a fault, it
completes the root, or it leaves another pile.  From this one step follows what
a whole run keeps: which elements are open, which tags the elements come from,
where the root ends and which fault is the first. -/

set_option autoImplicit false

namespace ConfigDecl.Markup

/-- A tag that has been decoded: the name and the attributes. -/
abbrev Named := String × List (String × String)

def OpenElement.new (named : Named) : OpenElement := ⟨named.1, named.2, none, []⟩

namespace Event

def tag? : Event → Option Tag
  | .start tag => some tag
  | .empty tag => some tag
  | .close => none
  | .text _ => none
  | .cdata _ => none
  | .skipped => none

/-- The text that the event adds to an element around it, if it is of a kind that
does. -/
def content? : Event → Option (Except Fault String)
  | .start _ => none
  | .empty _ => none
  | .close => none
  | .text raw => some (decodeText raw)
  | .cdata raw => some (decodeBytes raw)
  | .skipped => none

/-- Where a fault in the event is found.  The `<` after a text has been consumed
but does not count. -/
def place (offset : Nat) : Event → Nat
  | .start _ => offset
  | .empty _ => offset
  | .close => offset
  | .text _ => offset - 1
  | .cdata _ => offset
  | .skipped => offset

/-- What is wrong with the event when the elements of these names are open. -/
def fault? (opened : List String) : Event → Option Fault
  | .start tag => Attempt.failure? tag.decode
  | .empty tag => Attempt.failure? tag.decode
  | .close => none
  | .text raw => if opened = [] then none else Attempt.failure? (decodeText raw)
  | .cdata raw => if opened = [] then none else Attempt.failure? (decodeBytes raw)
  | .skipped => none

end Event

/-! ## One event -/

inductive Advance where
  | root (element : Element)
  | piled (pile : List OpenElement)

def settle (element : Element) : List OpenElement → Advance
  | [] => .root element
  | parent :: outer => .piled (parent.addChild element :: outer)

/-- Where no element is open, everything but tags is passed over. -/
inductive Advances : List OpenElement → Event → Advance → Prop where
  | start {pile : List OpenElement} {tag : Tag} {named : Named}
      (decoded : tag.decode = .ok named) :
      Advances pile (.start tag) (.piled (.new named :: pile))
  | empty {pile : List OpenElement} {tag : Tag} {named : Named}
      (decoded : tag.decode = .ok named) :
      Advances pile (.empty tag) (settle (OpenElement.new named).closed pile)
  | close {element : OpenElement} {outer : List OpenElement} :
      Advances (element :: outer) .close (settle element.closed outer)
  | content {element : OpenElement} {outer : List OpenElement} {event : Event}
      {content : String} (decoded : event.content? = some (.ok content)) :
      Advances (element :: outer) event (.piled (element.addText content :: outer))
  | skipped {pile : List OpenElement} : Advances pile .skipped (.piled pile)
  | outside {event : Event} (tagless : event.tag? = none) : Advances [] event (.piled [])

def Advance.resume (rest : Stream) : Advance → Except ReadError Element
  | .root element => .ok element
  | .piled pile => assemble pile rest

def names (pile : List OpenElement) : List String := pile.map OpenElement.name

theorem foundAt_ofTag (offset : Nat) (tag : Tag) :
    foundAt offset (OpenElement.ofTag tag) = (foundAt offset tag.decode).map .new := by
  rw [OpenElement.ofTag]
  cases tag.decode <;> rfl

theorem assemble_of_advances {pile : List OpenElement} {event : Event} {next : Advance}
    (advances : Advances pile event next) (offset : Nat) (rest : Stream) :
    assemble pile (.next event offset rest) = next.resume rest := by
  cases advances with
  | start decoded =>
      rw [assemble, foundAt_ofTag, decoded]
      rfl
  | empty decoded =>
      cases pile <;> rw [assemble, foundAt_ofTag, decoded] <;> rfl
  | @close element outer => cases outer <;> rfl
  | content decoded =>
      cases event with
      | text raw =>
          rw [assemble, Option.some.inj decoded]
          rfl
      | cdata raw =>
          rw [assemble, Option.some.inj decoded]
          rfl
      | _ => cases decoded
  | skipped => cases pile <;> rfl
  | outside tagless => cases event <;> first | rfl | cases tagless

theorem assemble_of_fault {pile : List OpenElement} {event : Event} {fault : Fault}
    (faulty : event.fault? (names pile) = some fault) (offset : Nat) (rest : Stream) :
    assemble pile (.next event offset rest) = .error (.malformed fault (event.place offset)) := by
  cases event with
  | start tag =>
      rw [assemble, foundAt_ofTag, Attempt.failure?_eq_some_iff.1 faulty]
      rfl
  | empty tag =>
      cases pile <;> rw [assemble, foundAt_ofTag, Attempt.failure?_eq_some_iff.1 faulty] <;> rfl
  | close => cases faulty
  | text raw =>
      cases pile with
      | nil => cases faulty
      | cons element outer =>
          rw [assemble, Attempt.failure?_eq_some_iff.1 faulty]
          rfl
  | cdata raw =>
      cases pile with
      | nil => cases faulty
      | cons element outer =>
          rw [assemble, Attempt.failure?_eq_some_iff.1 faulty]
          rfl
  | skipped => cases faulty

theorem advances_or_fault (pile : List OpenElement) (event : Event) :
    (event.fault? (names pile) = none ∧ ∃ next, Advances pile event next) ∨
      ∃ fault, event.fault? (names pile) = some fault := by
  cases found : event.fault? (names pile) with
  | some fault => exact Or.inr ⟨fault, rfl⟩
  | none =>
      refine Or.inl ⟨rfl, ?_⟩
      cases event with
      | start tag =>
          obtain ⟨named, decoded⟩ := Attempt.failure?_eq_none_iff.1 found
          exact ⟨_, .start decoded⟩
      | empty tag =>
          obtain ⟨named, decoded⟩ := Attempt.failure?_eq_none_iff.1 found
          exact ⟨_, .empty decoded⟩
      | close =>
          cases pile with
          | nil => exact ⟨_, .outside rfl⟩
          | cons element outer => exact ⟨_, .close⟩
      | text raw =>
          cases pile with
          | nil => exact ⟨_, .outside rfl⟩
          | cons element outer =>
              obtain ⟨content, decoded⟩ := Attempt.failure?_eq_none_iff.1 found
              exact ⟨_, .content (congrArg some decoded)⟩
      | cdata raw =>
          cases pile with
          | nil => exact ⟨_, .outside rfl⟩
          | cons element outer =>
              obtain ⟨content, decoded⟩ := Attempt.failure?_eq_none_iff.1 found
              exact ⟨_, .content (congrArg some decoded)⟩
      | skipped => exact ⟨_, .skipped⟩

/-! ## Which elements are open -/

def Tag.title (tag : Tag) : String := (tag.decode.toOption.map Prod.fst).getD ""

/-- The names of the open elements after the event, the innermost first, unless
the event completes the root. -/
def Event.opened? (opened : List String) : Event → Option (List String)
  | .start tag => some (tag.title :: opened)
  | .empty _ => if opened = [] then none else some opened
  | .close =>
      match opened with
      | [] => some []
      | [_] => none
      | _ :: outer => some outer
  | .text _ => some opened
  | .cdata _ => some opened
  | .skipped => some opened

def Advance.names? : Advance → Option (List String)
  | .root _ => none
  | .piled pile => some (names pile)

theorem names?_settle (element : Element) (pile : List OpenElement) :
    (settle element pile).names? = if names pile = [] then none else some (names pile) := by
  cases pile <;> rfl

@[simp] theorem name_addText (element : OpenElement) (content : String) :
    (element.addText content).name = element.name := by
  rw [OpenElement.addText]
  split <;> rfl

theorem opened?_of_advances {pile : List OpenElement} {event : Event} {next : Advance}
    (advances : Advances pile event next) : event.opened? (names pile) = next.names? := by
  cases advances with
  | start decoded =>
      simp [Event.opened?, Tag.title, decoded, Advance.names?, names, OpenElement.new,
        Except.toOption]
  | empty decoded => rw [names?_settle, Event.opened?]
  | @close element outer => cases outer <;> rfl
  | content decoded =>
      cases event with
      | text raw => simp [Event.opened?, Advance.names?, names]
      | cdata raw => simp [Event.opened?, Advance.names?, names]
      | _ => cases decoded
  | skipped => rfl
  | outside tagless => cases event <;> first | rfl | cases tagless

/-! ## What a run keeps -/

namespace Stream

/-- The events up to the one that completes the root, elements of these names
being open. -/
def throughRoot (opened : List String) : Stream → List Event
  | .done _ => []
  | .faulty _ _ => []
  | .next event _ rest =>
      event ::
        match event.opened? opened with
        | none => []
        | some opened => rest.throughRoot opened

/-- Everything that is wrong before the root is complete, in the order of the
stream, elements of these names being open. -/
def faults (opened : List String) : Stream → List ReadError
  | .done offset =>
      match opened with
      | [] => [.missingRoot]
      | innermost :: _ => [.malformed (.unfinished (.element innermost)) offset]
  | .faulty fault offset => [.malformed fault offset]
  | .next event offset rest =>
      ((event.fault? opened).map fun fault =>
          ReadError.malformed fault (event.place offset)).toList ++
        match event.opened? opened with
        | none => []
        | some opened => rest.faults opened

end Stream

/-- A run fails with the first fault that it meets. -/
theorem failure?_assemble (pile : List OpenElement) (stream : Stream) :
    Attempt.failure? (assemble pile stream) = (stream.faults (names pile)).head? := by
  induction stream generalizing pile with
  | done offset => cases pile <;> rfl
  | faulty fault offset => rfl
  | next event offset rest ih =>
      rcases advances_or_fault pile event with ⟨clear, next, advances⟩ | ⟨fault, faulty⟩
      · rw [assemble_of_advances advances, Stream.faults, clear, opened?_of_advances advances]
        cases next with
        | root element => rfl
        | piled later => exact ih later
      · rw [assemble_of_fault faulty, Stream.faults, faulty]
        rfl

theorem assemble_next_eq_ok {pile : List OpenElement} {event : Event} {offset : Nat}
    {rest : Stream} {root : Element} (made : assemble pile (.next event offset rest) = .ok root) :
    ∃ next, Advances pile event next ∧ next.resume rest = .ok root := by
  rcases advances_or_fault pile event with ⟨_, next, advances⟩ | ⟨fault, faulty⟩
  · rw [assemble_of_advances advances] at made
    exact ⟨next, advances, made⟩
  · rw [assemble_of_fault faulty] at made
    cases made

/-- What comes after the root makes no difference, and neither do offsets. -/
theorem assemble_of_throughRoot_eq {pile : List OpenElement} {stream other : Stream}
    {root : Element} (made : assemble pile stream = .ok root)
    (same : other.throughRoot (names pile) = stream.throughRoot (names pile)) :
    assemble pile other = .ok root := by
  induction stream generalizing pile other with
  | done offset => cases pile <;> cases made
  | faulty fault offset => cases made
  | next event offset rest ih =>
      obtain ⟨next, advances, resumed⟩ := assemble_next_eq_ok made
      cases other with
      | done offset' => cases same
      | faulty fault offset' => cases same
      | next event' offset' rest' =>
          obtain ⟨sameEvent, sameRest⟩ := List.cons.inj same
          subst sameEvent
          rw [assemble_of_advances advances]
          cases next with
          | root element => exact resumed
          | piled later =>
              rw [opened?_of_advances advances] at sameRest
              exact ih resumed sameRest

/-! ## Which tags the elements come from -/

namespace Element

mutual

/-- The tag of the element, and of those inside it, in document order. -/
def preorder : Element → List Named
  | ⟨name, attributes, _, children⟩ => (name, attributes) :: preorderAll children

def preorderAll : List Element → List Named
  | [] => []
  | child :: rest => preorder child ++ preorderAll rest

end

theorem preorderAll_append (xs ys : List Element) :
    preorderAll (xs ++ ys) = preorderAll xs ++ preorderAll ys := by
  induction xs with
  | nil => rfl
  | cons x xs ih => simp [preorderAll, ih]

end Element

def OpenElement.preorder (element : OpenElement) : List Named :=
  (element.name, element.attributes) :: Element.preorderAll element.latestFirst.reverse

theorem preorder_addChild (parent : OpenElement) (child : Element) :
    (parent.addChild child).preorder = parent.preorder ++ child.preorder := by
  simp [OpenElement.preorder, OpenElement.addChild, Element.preorderAll_append,
    Element.preorderAll]

theorem preorder_addText (element : OpenElement) (content : String) :
    (element.addText content).preorder = element.preorder := by
  rw [OpenElement.addText]
  split <;> rfl

def pilePreorder (pile : List OpenElement) : List Named :=
  pile.reverse.flatMap OpenElement.preorder

@[simp] theorem pilePreorder_cons (element : OpenElement) (outer : List OpenElement) :
    pilePreorder (element :: outer) = pilePreorder outer ++ element.preorder := by
  simp [pilePreorder]

def Advance.preorder : Advance → List Named
  | .root element => element.preorder
  | .piled pile => pilePreorder pile

theorem preorder_settle (element : OpenElement) (pile : List OpenElement) :
    (settle element.closed pile).preorder = pilePreorder (element :: pile) := by
  have closed : element.closed.preorder = element.preorder := rfl
  cases pile with
  | nil => simp [settle, Advance.preorder, closed, pilePreorder]
  | cons parent outer => simp [settle, Advance.preorder, closed, preorder_addChild]

theorem preorder_of_advances {pile : List OpenElement} {event : Event} {next : Advance}
    (advances : Advances pile event next) :
    next.preorder.map Except.ok =
      (pilePreorder pile).map Except.ok ++ event.tag?.toList.map Tag.decode := by
  cases advances with
  | start decoded =>
      simp [Advance.preorder, OpenElement.preorder, OpenElement.new, Element.preorderAll,
        Event.tag?, decoded]
  | empty decoded =>
      simp [preorder_settle, OpenElement.preorder, OpenElement.new, Element.preorderAll,
        Event.tag?, decoded]
  | close => simp [preorder_settle, Event.tag?]
  | content decoded =>
      have tagless : event.tag? = none := by cases event <;> first | rfl | cases decoded
      simp [Advance.preorder, preorder_addText, tagless]
  | skipped => simp [Advance.preorder, Event.tag?]
  | outside tagless => simp [Advance.preorder, tagless]

/-- The elements are those of the tags up to the end of the root, in pre-order. -/
theorem preorder_assemble {pile : List OpenElement} {stream : Stream} {root : Element}
    (made : assemble pile stream = .ok root) :
    root.preorder.map Except.ok =
      (pilePreorder pile).map Except.ok ++
        ((stream.throughRoot (names pile)).filterMap Event.tag?).map Tag.decode := by
  induction stream generalizing pile with
  | done offset => cases pile <;> cases made
  | faulty fault offset => cases made
  | next event offset rest ih =>
      obtain ⟨next, advances, resumed⟩ := assemble_next_eq_ok made
      have step := preorder_of_advances advances
      have split : ∀ later : List Event,
          (event :: later).filterMap Event.tag? =
            event.tag?.toList ++ later.filterMap Event.tag? := by
        intro later
        cases found : event.tag? <;> simp [found]
      rw [Stream.throughRoot, opened?_of_advances advances, split, List.map_append,
        ← List.append_assoc, ← step]
      cases next with
      | root element =>
          cases resumed
          simp [Advance.names?, Advance.preorder]
      | piled later => exact ih resumed

end ConfigDecl.Markup

import ConfigDecl.Markup.Stream

/-! # Nesting

A scanner knows the names of the elements that are open.  A start tag adds its
name, an end tag takes the innermost one away, and nothing else changes them; so
in the stream of a source every end tag closes an element that is open. -/

set_option autoImplicit false

namespace ConfigDecl.Markup

/-- What an event makes of the names of the open elements, the innermost first. -/
inductive Turns : Event → List Bytes → List Bytes → Prop where
  | start (tag : Tag) (opened : List Bytes) : Turns (.start tag) opened (tag.name :: opened)
  | empty (tag : Tag) (opened : List Bytes) : Turns (.empty tag) opened opened
  | close (name : Bytes) (opened : List Bytes) : Turns .close (name :: opened) opened
  | text (raw : Bytes) (opened : List Bytes) : Turns (.text raw) opened opened
  | cdata (raw : Bytes) (opened : List Bytes) : Turns (.cdata raw) opened opened
  | skipped (opened : List Bytes) : Turns .skipped opened opened

namespace Scanner

variable {scanner next : Scanner} {event : Event}

theorem turns_of_declaration_event {kind : DeclarationKind} {content : Bytes}
    (made : kind.event content = .ok event) (opened : List Bytes) : Turns event opened opened := by
  cases kind with
  | cdata =>
      simp only [DeclarationKind.event] at made
      split at made
      · cases made
        exact .cdata _ opened
      · cases made
  | comment =>
      simp only [DeclarationKind.event] at made
      split at made
      · cases made
        exact .skipped opened
      · cases made
  | doctype =>
      simp only [DeclarationKind.event] at made
      split at made
      · split at made
        · cases made
        · cases made
          exact .skipped opened
      · cases made

theorem turns_of_declaration (read : scanner.declaration = .event event next) :
    Turns event scanner.opened next.opened := by
  unfold declaration at read
  split at read
  · cases read
  · split at read
    · cases read
    · split at read
      · cases read
      · dsimp only at read
        split at read
        · cases read
        · next made =>
            cases read
            exact turns_of_declaration_event made scanner.opened

theorem turns_of_endTag (read : scanner.endTag = .event event next) :
    Turns event scanner.opened next.opened := by
  unfold endTag at read
  dsimp only at read
  split at read
  · cases read
  · next name outer open' =>
      split at read
      · cases read
        rw [open']
        exact .close name outer
      · cases read

theorem turns_of_instruction (read : scanner.instruction = .event event next) :
    Turns event scanner.opened next.opened := by
  unfold instruction at read
  dsimp only at read
  split at read
  · cases read
    exact .skipped scanner.opened
  · cases read

theorem turns_of_elementTag (read : scanner.elementTag = .event event next) :
    Turns event scanner.opened next.opened := by
  unfold elementTag at read
  dsimp only at read
  split at read
  · cases read
    exact .empty _ scanner.opened
  · cases read
    exact .start _ scanner.opened

theorem turns_of_tag (read : scanner.tag = .event event next) :
    Turns event scanner.opened next.opened := by
  unfold tag at read
  split at read
  · cases read
  · split at read
    · exact turns_of_declaration read
    split at read
    · exact turns_of_endTag read
    split at read
    · exact turns_of_instruction read
    · exact turns_of_elementTag read

theorem turns_of_step (read : scanner.step = .event event next) :
    Turns event scanner.opened next.opened := by
  unfold step at read
  split at read
  · exact turns_of_tag read
  · split at read
    · cases read
    · split at read
      · have turns := turns_of_tag read
        exact turns
      · cases read
        exact .text _ scanner.opened

theorem stream_eq (scanner : Scanner) :
    scanner.stream =
      match scanner.step with
      | .event event next => .next event next.offset next.stream
      | .done offset => .done offset
      | .fault fault offset => .faulty fault offset := by
  rw [stream]
  split <;> simp [*]

end Scanner

/-- Every end tag closes an element that is open, `depth` of them being open at
the beginning. -/
def Stream.Nested (depth : Nat) : Stream → Prop
  | .done _ => True
  | .faulty _ _ => True
  | .next (.start _) _ rest => rest.Nested (depth + 1)
  | .next .close _ rest => 0 < depth ∧ rest.Nested (depth - 1)
  | .next (.empty _) _ rest => rest.Nested depth
  | .next (.text _) _ rest => rest.Nested depth
  | .next (.cdata _) _ rest => rest.Nested depth
  | .next .skipped _ rest => rest.Nested depth

theorem nested_of_turns {event : Event} {opened opened' : List Bytes}
    (turns : Turns event opened opened') {rest : Stream} (nested : rest.Nested opened'.length)
    (offset : Nat) : (Stream.next event offset rest).Nested opened.length := by
  cases turns with
  | start tag => exact nested
  | empty tag => exact nested
  | close name => exact ⟨Nat.succ_pos _, nested⟩
  | text raw => exact nested
  | cdata raw => exact nested
  | skipped => exact nested

theorem nested_stream (scanner : Scanner) : scanner.stream.Nested scanner.opened.length := by
  induction scanner using Scanner.stream.induct with
  | case1 scanner event next read ih =>
      rw [Scanner.stream_eq, read]
      exact nested_of_turns (Scanner.turns_of_step read) ih next.offset
  | case2 scanner offset read =>
      rw [Scanner.stream_eq, read]
      trivial
  | case3 scanner fault offset read =>
      rw [Scanner.stream_eq, read]
      trivial

/-- A reader closes nothing that is not open. -/
theorem nested_ofSource (delivery : Delivery) (source : Bytes) :
    (Stream.ofSource delivery source).Nested 0 :=
  nested_stream (Scanner.ofSource delivery source)

end ConfigDecl.Markup

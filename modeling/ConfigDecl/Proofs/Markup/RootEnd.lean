import ConfigDecl.Proofs.Markup.Locality
import ConfigDecl.Proofs.Markup.Pile
import Mathlib

/-! # Where the root ends

The root is complete at the `>` of the tag that closes it, and what comes behind
that may be anything.  A source that ends earlier has no root, with one
exception: where it ends inside a tag that closes the root, the tag counts as
complete. -/

set_option autoImplicit false

namespace ConfigDecl.Markup

/-- The scanner reads these events up to the one that completes the root,
elements of these names being open, and `left` is left then. -/
inductive RootEnds : List String → Scanner → List Event → Bytes → Prop where
  | here {opened : List String} {scanner next : Scanner} {event : Event}
      (read : scanner.step = .event event next) (completes : event.opened? opened = none) :
      RootEnds opened scanner [event] next.rest
  | later {opened opened' : List String} {scanner next : Scanner} {event : Event}
      {events : List Event} {left : Bytes} (read : scanner.step = .event event next)
      (remains : event.opened? opened = some opened') (ends : RootEnds opened' next events left) :
      RootEnds opened scanner (event :: events) left

theorem closes_of_completes {event : Event} {opened : List String}
    (completes : event.opened? opened = none) : event.Closes := by
  cases event with
  | empty tag => exact .empty tag
  | close => exact .close
  | start tag | text raw | cdata raw | skipped => cases completes

namespace RootEnds

variable {opened : List String} {scanner : Scanner} {events : List Event} {left : Bytes}

theorem unique (ends : RootEnds opened scanner events left) {events' : List Event}
    {left' : Bytes} (ends' : RootEnds opened scanner events' left') :
    events = events' ∧ left = left' := by
  induction ends generalizing events' with
  | here read completes =>
      cases ends' with
      | here read' completes' =>
          rw [read] at read'
          cases read'
          exact ⟨rfl, rfl⟩
      | later read' remains _ =>
          rw [read] at read'
          cases read'
          rw [completes] at remains
          cases remains
  | later read remains _ ih =>
      cases ends' with
      | here read' completes =>
          rw [read] at read'
          cases read'
          rw [completes] at remains
          cases remains
      | later read' remains' ends' =>
          rw [read] at read'
          cases read'
          rw [remains] at remains'
          cases remains'
          obtain ⟨rfl, same⟩ := ih ends'
          exact ⟨rfl, same⟩

theorem throughRoot_eq (ends : RootEnds opened scanner events left) :
    scanner.stream.throughRoot opened = events := by
  induction ends with
  | here read completes => rw [Scanner.stream_eq, read, Stream.throughRoot, completes]
  | later read remains _ ih =>
      rw [Scanner.stream_eq, read, Stream.throughRoot, remains]
      exact congrArg (_ :: ·) ih

end RootEnds

theorem exists_rootEnds {pile : List OpenElement} {scanner : Scanner} {root : Element}
    (made : assemble pile scanner.stream = .ok root) :
    ∃ events left, RootEnds (names pile) scanner events left := by
  induction scanner using Scanner.stream.induct generalizing pile with
  | case1 scanner event next read ih =>
      rw [Scanner.stream_eq, read] at made
      obtain ⟨advance, advances, resumed⟩ := assemble_next_eq_ok made
      have opened := opened?_of_advances advances
      cases advance with
      | root element => exact ⟨[event], next.rest, .here read opened⟩
      | piled later =>
          obtain ⟨events, left, ends⟩ := ih resumed
          exact ⟨event :: events, left, .later read opened ends⟩
  | case2 scanner offset read =>
      rw [Scanner.stream_eq, read] at made
      cases pile <;> cases made
  | case3 scanner fault offset read =>
      rw [Scanner.stream_eq, read] at made
      cases made

theorem step_of_nothing {scanner : Scanner} (nothing : scanner.rest = []) :
    scanner.step = .done scanner.offset := by
  rw [Scanner.step, Scanner.tag, nothing]
  cases scanner.inTag <;> rfl

/-- Either the root ends at a `>`, then with anything behind it and also without
it, or it ends with the source inside a tag. -/
theorem rootEnds_cases {opened : List String} {scanner : Scanner} {events : List Event}
    {left : Bytes} (ends : RootEnds opened scanner events left) :
    (∃ before, scanner.rest = before ++ Byte.greater :: left ∧
      (∀ other, RootEnds opened (scanner.withRest (before ++ Byte.greater :: other)) events other) ∧
      RootEnds opened (scanner.withRest before) events []) ∨
    (left = [] ∧ ∃ before tag, scanner.pending = before ++ Byte.less :: tag ∧ LacksEnd tag) := by
  induction ends with
  | @here opened scanner next event read completes =>
      have closes := closes_of_completes completes
      cases Scanner.stepEnds read with
      | found split any suffix cut =>
          obtain ⟨before, offset, rfl, short⟩ := cut closes
          refine .inl ⟨before, ?_, ?_, ?_⟩
          · rw [split, List.append_assoc, List.singleton_append]
          · intro other
            have whole := any other
            rw [List.append_assoc, List.singleton_append] at whole
            exact .here whole completes
          · exact .here short completes
      | missing nothing lacks =>
          obtain ⟨tag, pending, lacksEnd⟩ := lacks closes
          exact .inr ⟨nothing, [], tag, pending, lacksEnd⟩
  | @later opened opened' scanner next event events left read remains ends ih =>
      cases Scanner.stepEnds read with
      | @found used split any suffix cut =>
          rcases ih with ended | unended
          · obtain ⟨before, whole, behind, short⟩ := ended
            refine .inl ⟨used ++ before, ?_, ?_, ?_⟩
            · rw [split, whole, List.append_assoc]
            · intro other
              rw [List.append_assoc]
              exact .later (any _) remains (behind other)
            · exact .later (any before) remains short
          · obtain ⟨nothing, before, tag, pending, lacksEnd⟩ := unended
            obtain ⟨earlier, whole⟩ := suffix
            refine .inr ⟨nothing, earlier ++ before, tag, ?_, lacksEnd⟩
            rw [← whole, pending, List.append_assoc]
      | missing nothing lacks =>
          -- Nothing is left, so no event completes the root.
          have stops := step_of_nothing nothing
          cases ends with
          | here read _ =>
              rw [stops] at read
              cases read
          | later read _ _ =>
              rw [stops] at read
              cases read

/-! ## Sources -/

theorem startsWith_iff {opening bytes : Bytes} :
    startsWith opening bytes = true ↔ opening <+: bytes := List.isPrefixOf_iff_prefix

theorem mark_prefix_append_iff {consumed left : Bytes} :
    Scanner.byteOrderMark <+: consumed ++ Byte.greater :: left ↔
      Scanner.byteOrderMark <+: consumed := by
  constructor
  · intro begins
    obtain ⟨rest, split⟩ := begins
    rcases List.append_eq_append_iff.1 split with ⟨more, whole, _⟩ | ⟨more, whole, later⟩
    · rw [whole]
      exact List.prefix_append _ more
    · cases more with
      | nil =>
          rw [List.append_nil] at whole
          exact ⟨[], (List.append_nil _).trans whole⟩
      | cons b more =>
          -- The mark would have the `>` in it.
          have inside : Byte.greater ∈ Scanner.byteOrderMark := by
            rw [whole, (List.cons.inj later).1]
            exact List.mem_append_right _ List.mem_cons_self
          exact absurd inside (by decide)
  · intro begins
    exact begins.trans (List.prefix_append consumed _)

theorem markOf_append (consumed left : Bytes) :
    Scanner.markOf (consumed ++ Byte.greater :: left) = Scanner.markOf consumed := by
  simp only [Scanner.markOf, startsWith_iff, mark_prefix_append_iff]

theorem markOf_le (source : Bytes) : Scanner.markOf source ≤ source.length := by
  rw [Scanner.markOf]
  split
  · next begins => exact (startsWith_iff.1 begins).length_le
  · exact Nat.zero_le _

theorem ofSource_append (delivery : Delivery) (consumed left : Bytes) :
    Scanner.ofSource delivery (consumed ++ Byte.greater :: left) =
      (Scanner.ofSource delivery consumed).withRest
        ((Scanner.ofSource delivery consumed).rest ++ Byte.greater :: left) := by
  rw [Scanner.ofSource, markOf_append, List.drop_append_of_le_length (markOf_le consumed)]
  rfl

/-- The root of the source is complete: it ends at a `>`. -/
def Complete (delivery : Delivery) (source : Bytes) : Prop :=
  ∃ consumed events left, source = consumed ++ Byte.greater :: left ∧
    RootEnds [] (Scanner.ofSource delivery source) events left

/-- The source ends in a tag that would close an element. -/
def EndsInTag (source : Bytes) : Prop :=
  ∃ before tag, source = before ++ Byte.less :: tag ∧ LacksEnd tag

/-- The source ends in the tag that closes its root. -/
def CutShort (delivery : Delivery) (source : Bytes) : Prop :=
  EndsInTag source ∧ ∃ events, RootEnds [] (Scanner.ofSource delivery source) events []

theorem getLast?_of_lacksEnd {tag : Bytes} (lacks : LacksEnd tag) :
    ∃ last, tag.getLast? = some last ∧ last ≠ Byte.greater := by
  cases lacks with
  | @endTag content unended =>
      refine ⟨_, List.getLast?_eq_some_getLast (List.cons_ne_nil Byte.slash content), ?_⟩
      intro same
      have member := List.getLast_mem (List.cons_ne_nil Byte.slash content)
      rw [same] at member
      cases member with
      | tail _ member => exact unended member
  | emptyTag kind last unended => exact ⟨Byte.slash, last, by decide⟩

theorem not_endsInTag_of_greater (consumed : Bytes) :
    ¬ EndsInTag (consumed ++ [Byte.greater]) := by
  intro ends
  obtain ⟨before, tag, whole, lacks⟩ := ends
  obtain ⟨last, ofTag, apart⟩ := getLast?_of_lacksEnd lacks
  have same := congrArg List.getLast? whole
  rw [List.getLast?_concat, List.getLast?_append, List.getLast?_cons, ofTag] at same
  exact apart (Option.some.inj same).symm

variable {delivery : Delivery}

theorem pending_ofSource (delivery : Delivery) (source : Bytes) :
    (Scanner.ofSource delivery source).pending = source.drop (Scanner.markOf source) := rfl

theorem endsInTag_of_pending {source before tag : Bytes}
    (split : (Scanner.ofSource delivery source).pending = before ++ Byte.less :: tag)
    (lacks : LacksEnd tag) : EndsInTag source := by
  refine ⟨source.take (Scanner.markOf source) ++ before, tag, ?_, lacks⟩
  rw [List.append_assoc, ← split, pending_ofSource, List.take_append_drop]

theorem complete_or_cutShort {source : Bytes} {events : List Event} {left : Bytes}
    (ends : RootEnds [] (Scanner.ofSource delivery source) events left) :
    Complete delivery source ∨ CutShort delivery source := by
  rcases rootEnds_cases ends with ended | unended
  · obtain ⟨before, split, _⟩ := ended
    refine .inl ⟨source.take (Scanner.markOf source) ++ before, events, left, ?_, ends⟩
    rw [List.append_assoc, ← split]
    exact (List.take_append_drop (Scanner.markOf source) source).symm
  · obtain ⟨rfl, before, tag, split, lacks⟩ := unended
    exact .inr ⟨endsInTag_of_pending split lacks, events, ends⟩

theorem not_cutShort_of_complete {source : Bytes} (complete : Complete delivery source) :
    ¬ CutShort delivery source := by
  intro cut
  obtain ⟨consumed, events, left, rfl, ends⟩ := complete
  obtain ⟨inTag, events', ends'⟩ := cut
  obtain ⟨_, rfl⟩ := ends.unique ends'
  exact not_endsInTag_of_greater consumed inTag

/-- Behind the `>` that completes the root may stand anything, and the `>` may be
missing. -/
theorem rootEnds_behind {consumed left : Bytes} {events : List Event}
    (ends : RootEnds [] (Scanner.ofSource delivery (consumed ++ Byte.greater :: left)) events left) :
    (∀ other, RootEnds [] (Scanner.ofSource delivery (consumed ++ Byte.greater :: other)) events
      other) ∧ RootEnds [] (Scanner.ofSource delivery consumed) events [] := by
  rcases rootEnds_cases ends with ended | unended
  · obtain ⟨before, split, behind, short⟩ := ended
    rw [ofSource_append, Scanner.rest_withRest] at split
    have same := List.append_cancel_right split
    constructor
    · intro other
      have there := behind other
      rw [ofSource_append, ← same] at there
      rw [ofSource_append]
      exact there
    · rw [ofSource_append, ← same] at short
      exact short
  · obtain ⟨rfl, before, tag, split, lacks⟩ := unended
    exact absurd (endsInTag_of_pending split lacks) (not_endsInTag_of_greater consumed)

theorem read_of_rootEnds {source other left left' : Bytes} {events : List Event} {root : Element}
    (ends : RootEnds [] (Scanner.ofSource delivery source) events left)
    (ends' : RootEnds [] (Scanner.ofSource delivery other) events left')
    (made : Element.read delivery source = .ok root) : Element.read delivery other = .ok root := by
  apply assemble_of_throughRoot_eq made
  rw [names, List.map_nil, Stream.ofSource, Stream.ofSource, ends.throughRoot_eq,
    ends'.throughRoot_eq]

theorem not_complete_take {consumed left : Bytes} {events : List Event}
    (ends : RootEnds [] (Scanner.ofSource delivery (consumed ++ Byte.greater :: left)) events left)
    {n : Nat} (short : n ≤ consumed.length) :
    ¬ Complete delivery ((consumed ++ Byte.greater :: left).take n) := by
  intro complete
  obtain ⟨consumed', events', left', whole, ends'⟩ := complete
  have parts := List.take_append_drop n (consumed ++ Byte.greater :: left)
  rw [whole] at ends' parts
  have again := (rootEnds_behind ends').1
    (left' ++ (consumed ++ Byte.greater :: left).drop n)
  rw [List.append_assoc, List.cons_append] at parts
  rw [parts] at again
  obtain ⟨_, same⟩ := ends.unique again
  have total := congrArg List.length parts
  have taken := congrArg List.length whole
  have behind := congrArg List.length same
  simp only [List.length_append, List.length_cons, List.length_take, List.length_drop]
    at total taken behind
  omega

/-- An accepted source has a complete root or ends in the tag that closes it.  So
what is cut before the end of a root is refused unless it ends in that tag, and
of every accepted source with a complete root there is such a cut: the one that
only lacks the last `>`. -/
theorem read_unless_complete (delivery : Delivery) (source : Bytes) :
    (∀ root, Element.read delivery source = .ok root →
      (Complete delivery source ↔ ¬ CutShort delivery source)) ∧
    ∀ consumed events left, source = consumed ++ Byte.greater :: left →
      RootEnds [] (Scanner.ofSource delivery source) events left →
      (∀ n ≤ consumed.length, CutShort delivery (source.take n) ∨
        ∃ error, Element.read delivery (source.take n) = .error error) ∧
      ∀ root, Element.read delivery source = .ok root →
        Element.read delivery consumed = .ok root ∧ CutShort delivery consumed := by
  have accepted : ∀ source root, Element.read delivery source = .ok root →
      Complete delivery source ∨ CutShort delivery source := by
    intro source root made
    obtain ⟨events, left, ends⟩ := exists_rootEnds made
    exact complete_or_cutShort ends
  constructor
  · intro root made
    constructor
    · exact not_cutShort_of_complete
    · intro uncut
      rcases accepted source root made with complete | cut
      · exact complete
      · exact absurd cut uncut
  · intro consumed events left whole ends
    subst whole
    constructor
    · intro n short
      cases made : Element.read delivery ((consumed ++ Byte.greater :: left).take n) with
      | error error => exact .inr ⟨error, rfl⟩
      | ok root =>
          rcases accepted _ root made with complete | cut
          · exact absurd complete (not_complete_take ends short)
          · exact .inl cut
    · intro root made
      have without := (rootEnds_behind ends).2
      have incomplete := not_complete_take ends (Nat.le_refl consumed.length)
      rw [List.take_left] at incomplete
      refine ⟨read_of_rootEnds ends without made, ?_⟩
      rcases complete_or_cutShort without with complete | cut
      · exact absurd complete incomplete
      · exact cut

theorem read_unended :
    Element.read .whole (Byte.ofAscii "<a></a") = .ok ⟨"a", [], none, []⟩ ∧
      CutShort .whole (Byte.ofAscii "<a></a") := by
  have start : (Scanner.ofSource .whole (Byte.ofAscii "<a></a>")).step =
      .event (.start ⟨Byte.ofAscii "a", []⟩)
        ⟨Byte.ofAscii "</a>", 0, 3, false, [Byte.ofAscii "a"], .whole⟩ := by decide
  have close : Scanner.step ⟨Byte.ofAscii "</a>", 0, 3, false, [Byte.ofAscii "a"], .whole⟩ =
      .event .close ⟨[], 0, 7, false, [], .whole⟩ := by decide
  have ends : RootEnds [] (Scanner.ofSource .whole (Byte.ofAscii "<a></a>"))
      [.start ⟨Byte.ofAscii "a", []⟩, .close] [] := .later start rfl (.here close rfl)
  have made : Element.read .whole (Byte.ofAscii "<a></a>") = .ok ⟨"a", [], none, []⟩ := by cbv
  obtain ⟨_, complete⟩ := read_unless_complete .whole (Byte.ofAscii "<a></a>")
  exact (complete _ _ _ rfl ends).2 _ made

/-- A source may be accepted although its root is not complete. -/
theorem read_incomplete :
    Element.read .whole (Byte.ofAscii "<a></a") = .ok ⟨"a", [], none, []⟩ ∧
      ¬ Complete .whole (Byte.ofAscii "<a></a") := by
  have start : (Scanner.ofSource .whole (Byte.ofAscii "<a></a")).step =
      .event (.start ⟨Byte.ofAscii "a", []⟩)
        ⟨Byte.ofAscii "</a", 0, 3, false, [Byte.ofAscii "a"], .whole⟩ := by decide
  have close : Scanner.step ⟨Byte.ofAscii "</a", 0, 3, false, [Byte.ofAscii "a"], .whole⟩ =
      .event .close ⟨[], 0, 6, false, [], .whole⟩ := by decide
  have ends : RootEnds [] (Scanner.ofSource .whole (Byte.ofAscii "<a></a"))
      [.start ⟨Byte.ofAscii "a", []⟩, .close] [] := .later start rfl (.here close rfl)
  refine ⟨by cbv, ?_⟩
  intro complete
  obtain ⟨consumed, events, left, whole, ends'⟩ := complete
  obtain ⟨_, rfl⟩ := ends.unique ends'
  have last := congrArg List.getLast? whole
  rw [List.getLast?_concat] at last
  exact absurd last (by decide)

end ConfigDecl.Markup

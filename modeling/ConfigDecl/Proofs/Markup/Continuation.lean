import ConfigDecl.Proofs.Markup.Delivery
import ConfigDecl.Proofs.Markup.Expansion
import ConfigDecl.Proofs.Markup.Scanning

/-! # What is left of a source

Of a source that comes whole, what is read from a point on depends on the bytes
that are left and on the elements that are open there, not on how far the scanner
has come.  So what is left of one source may follow what was read of another, and
a text before a tag may be read off before the tag is looked at. -/

set_option autoImplicit false

namespace ConfigDecl.Markup

/-! ## Positions -/

/-- The scanner without its position in the source. -/
def Scanner.unplaced (scanner : Scanner) : Scanner := { scanner with markLength := 0, offset := 0 }

def Step.unplaced : Step → Step
  | .event read next => .event read next.unplaced
  | .done _ => .done 0
  | .fault found _ => .fault found 0

namespace Scanner

variable {scanner other : Scanner}

@[simp] theorem rest_unplaced (scanner : Scanner) : scanner.unplaced.rest = scanner.rest := rfl

@[simp] theorem opened_unplaced (scanner : Scanner) :
    scanner.unplaced.opened = scanner.opened := rfl

@[simp] theorem inTag_unplaced (scanner : Scanner) : scanner.unplaced.inTag = scanner.inTag := rfl

theorem closes_unplaced (whole : scanner.delivery = .whole) (kind : DeclarationKind) :
    scanner.unplaced.closes kind = scanner.closes kind := by
  cases kind with
  | cdata => rfl
  | comment => rfl
  | doctype =>
      funext before
      simp only [closes, doctypeCloses, unplaced, whole, Delivery.current]

theorem declaration_unplaced (whole : scanner.delivery = .whole) :
    scanner.unplaced.declaration.unplaced = scanner.declaration.unplaced := by
  simp only [declaration, rest_unplaced, closes_unplaced whole]
  cases scanner.rest.drop 1 with
  | nil => rfl
  | cons b rest =>
      dsimp only
      cases DeclarationKind.ofByte b with
      | error fault => rfl
      | ok kind =>
          dsimp only
          cases upToClosing (scanner.closes kind) [Byte.bang] (b :: rest) with
          | none => rfl
          | some parts =>
              obtain ⟨content, after⟩ := parts
              dsimp only
              cases kind.event content <;> rfl

theorem endTag_unplaced (scanner : Scanner) :
    scanner.unplaced.endTag.unplaced = scanner.endTag.unplaced := by
  rw [endTag, endTag, opened_unplaced]
  cases scanner.opened with
  | nil => rfl
  | cons name outer =>
      dsimp only
      rw [apply_ite Step.unplaced, apply_ite Step.unplaced]
      rfl

theorem instruction_unplaced (scanner : Scanner) :
    scanner.unplaced.instruction.unplaced = scanner.instruction.unplaced := by
  rw [instruction, instruction]
  dsimp only
  rw [apply_ite Step.unplaced, apply_ite Step.unplaced]
  rfl

theorem elementTag_unplaced (scanner : Scanner) :
    scanner.unplaced.elementTag.unplaced = scanner.elementTag.unplaced := by
  rw [elementTag, elementTag]
  dsimp only
  rw [apply_ite Step.unplaced, apply_ite Step.unplaced]
  rfl

theorem tag_unplaced (whole : scanner.delivery = .whole) :
    scanner.unplaced.tag.unplaced = scanner.tag.unplaced := by
  rw [tag, tag, rest_unplaced]
  cases scanner.rest with
  | nil => rfl
  | cons b rest =>
      dsimp only
      by_cases isBang : b = Byte.bang
      · rw [if_pos isBang, if_pos isBang, declaration_unplaced whole]
      by_cases isSlash : b = Byte.slash
      · rw [if_neg isBang, if_neg isBang, if_pos isSlash, if_pos isSlash, endTag_unplaced]
      by_cases isQuestion : b = Byte.question
      · rw [if_neg isBang, if_neg isBang, if_neg isSlash, if_neg isSlash, if_pos isQuestion,
          if_pos isQuestion, instruction_unplaced]
      · rw [if_neg isBang, if_neg isBang, if_neg isSlash, if_neg isSlash, if_neg isQuestion,
          if_neg isQuestion, elementTag_unplaced]

theorem tag_of_unplaced_eq (whole : scanner.delivery = .whole)
    (same : other.unplaced = scanner.unplaced) : other.tag.unplaced = scanner.tag.unplaced := by
  have whole' : other.delivery = .whole := (congrArg delivery same).trans whole
  rw [← tag_unplaced whole, ← tag_unplaced whole', same]

theorem step_unplaced (whole : scanner.delivery = .whole) :
    scanner.unplaced.step.unplaced = scanner.step.unplaced := by
  rw [step, step, inTag_unplaced, rest_unplaced]
  by_cases inside : scanner.inTag = true
  · rw [if_pos inside, if_pos inside, tag_unplaced whole]
  · rw [if_neg inside, if_neg inside]
    cases scanner.rest with
    | nil => rfl
    | cons b rest =>
        dsimp only
        by_cases isLess : b = Byte.less
        · rw [if_pos isLess, if_pos isLess]
          exact tag_of_unplaced_eq whole rfl
        · rw [if_neg isLess, if_neg isLess]
          rfl

theorem step_of_unplaced_eq (whole : scanner.delivery = .whole)
    (same : other.unplaced = scanner.unplaced) : other.step.unplaced = scanner.step.unplaced := by
  have whole' : other.delivery = .whole := (congrArg delivery same).trans whole
  rw [← step_unplaced whole, ← step_unplaced whole', same]

end Scanner

/-- What is made of the rest of a source does not depend on the position. -/
theorem assemble_of_unplaced_eq {pile : List OpenElement} {scanner other : Scanner}
    {root : Element} (whole : scanner.delivery = .whole) (same : other.unplaced = scanner.unplaced)
    (made : assemble pile scanner.stream = .ok root) : assemble pile other.stream = .ok root := by
  induction scanner using Scanner.stream.induct generalizing pile other with
  | case1 scanner event next read ih =>
      have steps := Scanner.step_of_unplaced_eq whole same
      rw [Scanner.stream_eq, read] at made
      rw [read] at steps
      rw [Scanner.stream_eq]
      cases read' : other.step with
      | done offset =>
          rw [read'] at steps
          cases steps
      | fault fault offset =>
          rw [read'] at steps
          cases steps
      | event event' next' =>
          rw [read'] at steps
          obtain ⟨rfl, sameNext⟩ := Step.event.inj steps
          obtain ⟨advance, advances, resumed⟩ := assemble_next_eq_ok made
          dsimp only
          rw [assemble_of_advances advances]
          cases advance with
          | root element => exact resumed
          | piled later =>
              exact ih ((Scanner.delivery_of_step read).trans whole) sameNext resumed
  | case2 scanner offset read =>
      rw [Scanner.stream_eq, read] at made
      cases pile <;> cases made
  | case3 scanner fault offset read =>
      rw [Scanner.stream_eq, read] at made
      cases made

/-- With the elements of the pile open and these the names in their tags, the rest
of a source makes the root. -/
def Makes (pile : List OpenElement) (opened : List Bytes) (rest : Bytes) (root : Element) : Prop :=
  assemble pile (Scanner.stream ⟨rest, 0, 0, false, opened, .whole⟩) = .ok root

variable {pile : List OpenElement} {root : Element}

theorem makes_iff (scanner : Scanner) (whole : scanner.delivery = .whole)
    (outside : scanner.inTag = false) :
    Makes pile scanner.opened scanner.rest root ↔ assemble pile scanner.stream = .ok root := by
  have same : Scanner.unplaced ⟨scanner.rest, 0, 0, false, scanner.opened, .whole⟩ =
      scanner.unplaced := by
    rw [Scanner.unplaced, Scanner.unplaced, whole, outside]
  constructor
  · intro made
    exact assemble_of_unplaced_eq rfl same.symm made
  · intro made
    exact assemble_of_unplaced_eq whole same made

/-! ## Tags -/

theorem makes_tag_iff {pile' : List OpenElement} {opened opened' : List Bytes} {rest after : Bytes}
    {event : Event} (reads : TagReads opened rest event opened' after)
    (advances : Advances pile event (.piled pile')) :
    Makes pile opened (Byte.less :: rest) root ↔ Makes pile' opened' after root := by
  obtain ⟨next, read, outside, rfl, rfl⟩ := reads ⟨rest, 0, 1, true, opened, .whole⟩ rfl rfl
  have step : Scanner.step ⟨Byte.less :: rest, 0, 0, false, opened, .whole⟩ = .event event next :=
    (Scanner.step_less rfl rfl).trans read
  rw [Makes, Scanner.stream_eq, step, assemble_of_advances advances, Advance.resume,
    makes_iff next (Scanner.delivery_of_step step) outside]

/-! ## Texts -/

/-- The text has been read and may be empty; around it the elements of the pile are
open.  Outside of the root it is not decoded. -/
inductive Absorbs : Bytes → List OpenElement → List OpenElement → Prop where
  | nothing {pile : List OpenElement} : Absorbs [] pile pile
  | outside {raw : Bytes} : Absorbs raw [] []
  | inside {raw : Bytes} {content : String} {element : OpenElement} {outer : List OpenElement}
      (filled : raw ≠ []) (decoded : decodeText raw = .ok content) :
      Absorbs raw (element :: outer) (element.addText content :: outer)

theorem absorbs_of_advances {raw : Bytes} {next : Advance} (filled : raw ≠ [])
    (advances : Advances pile (.text raw) next) :
    ∃ pile', next = .piled pile' ∧ Absorbs raw pile pile' := by
  cases advances with
  | content decoded => exact ⟨_, rfl, .inside filled (Option.some.inj decoded)⟩
  | outside tagless => exact ⟨[], rfl, .outside⟩

theorem advances_of_absorbs {raw : Bytes} {pile' : List OpenElement} (filled : raw ≠ [])
    (absorbs : Absorbs raw pile pile') : Advances pile (.text raw) (.piled pile') := by
  cases absorbs with
  | nothing => exact absurd rfl filled
  | outside => exact .outside rfl
  | inside _ decoded => exact .content (congrArg some decoded)

theorem addText_addText (element : OpenElement) (first second : String) :
    (element.addText first).addText second = element.addText (first ++ second) := by
  rw [OpenElement.addText, OpenElement.addText, OpenElement.addText]
  by_cases childless : element.latestFirst.isEmpty = true
  · simp [childless, String.append_assoc]
  · simp [childless]

/-- Two texts that follow each other add what they add up to. -/
theorem Absorbs.append {first second : Bytes} {between pile' : List OpenElement}
    (front : Absorbs first pile between) (behind : Absorbs second between pile') :
    Absorbs (first ++ second) pile pile' := by
  cases front with
  | nothing => exact behind
  | outside =>
      cases behind with
      | nothing => exact .outside
      | outside => exact .outside
  | inside filled decoded =>
      cases behind with
      | nothing =>
          rw [List.append_nil]
          exact .inside filled decoded
      | inside _ decoded' =>
          rw [addText_addText]
          exact .inside (List.append_ne_nil_of_left_ne_nil filled _)
            (decodeText_append decoded decoded')

theorem Absorbs.exists_of_append {first second : Bytes} {pile' : List OpenElement}
    (absorbs : Absorbs (first ++ second) pile pile') (parted : pile ≠ [] → Parted first second) :
    ∃ between, Absorbs first pile between ∧ Absorbs second between pile' := by
  by_cases filled : first = []
  · rw [filled] at absorbs ⊢
    exact ⟨pile, .nothing, absorbs⟩
  by_cases filled' : second = []
  · rw [filled', List.append_nil] at absorbs
    rw [filled']
    exact ⟨pile', absorbs, .nothing⟩
  generalize whole : first ++ second = raw at absorbs
  cases absorbs with
  | nothing => exact absurd (List.append_eq_nil_iff.1 whole).1 filled
  | outside => exact ⟨[], .outside, .outside⟩
  | inside _ decoded =>
      rw [← whole] at decoded
      obtain ⟨content, content', front, behind, rfl⟩ :=
        exists_of_decodeText_append decoded (parted (List.cons_ne_nil _ _))
      refine ⟨_, .inside filled front, ?_⟩
      rw [← addText_addText]
      exact .inside filled' behind

theorem makes_text_iff {opened : List Bytes} {raw after : Bytes} (free : Byte.less ∉ raw) :
    Makes pile opened (raw ++ Byte.less :: after) root ↔
      ∃ pile', Absorbs raw pile pile' ∧ Makes pile' opened (Byte.less :: after) root := by
  by_cases filled : raw = []
  · subst filled
    constructor
    · intro made
      exact ⟨pile, .nothing, made⟩
    · rintro ⟨pile', absorbs, made⟩
      cases absorbs with
      | nothing => exact made
      | outside => exact made
      | inside filled _ => exact absurd rfl filled
  · have counted : 0 < 0 + (raw.length + 1) := by omega
    rw [Makes, Scanner.stream_eq, Scanner.step_text rfl filled free rfl]
    dsimp only
    rw [Scanner.stream_before_less rfl counted]
    constructor
    · intro made
      obtain ⟨next, advances, resumed⟩ := assemble_next_eq_ok made
      obtain ⟨pile', rfl, absorbs⟩ := absorbs_of_advances filled advances
      exact ⟨pile', absorbs, (makes_iff _ rfl rfl).2 resumed⟩
    · rintro ⟨pile', absorbs, made⟩
      rw [assemble_of_advances (advances_of_absorbs filled absorbs)]
      exact (makes_iff _ rfl rfl).1 made

/-- Without a tag there is no root. -/
theorem mem_of_makes {opened : List Bytes} {rest : Bytes} (made : Makes pile opened rest root) :
    Byte.less ∈ rest := by
  by_contra free
  cases rest with
  | nil =>
      rw [Makes, Scanner.stream_eq] at made
      cases pile <;> cases made
  | cons b more =>
      have apart : b ≠ Byte.less := fun same => free (List.mem_cons.2 (.inl same.symm))
      have step : Scanner.step ⟨b :: more, 0, 0, false, opened, .whole⟩ =
          .event (.text (b :: more)) ⟨[], 0, (b :: more).length, true, opened, .whole⟩ := by
        simp [Scanner.step, apart, Scanner.text, upTo_of_not_mem free, Scanner.consumed]
      rw [Makes, Scanner.stream_eq, step] at made
      obtain ⟨next, advances, resumed⟩ := assemble_next_eq_ok made
      obtain ⟨pile', rfl, _⟩ := absorbs_of_advances (List.cons_ne_nil b more) advances
      rw [Scanner.stream_eq] at resumed
      cases pile' <;> cases resumed

theorem exists_makes_text {opened : List Bytes} {raw rest : Bytes} (free : Byte.less ∉ raw)
    (made : Makes pile opened (raw ++ rest) root) :
    ∃ text after, rest = text ++ Byte.less :: after ∧ Byte.less ∉ text := by
  have member : Byte.less ∈ rest := (List.mem_append.1 (mem_of_makes made)).resolve_left free
  obtain ⟨text, after, split, free'⟩ := List.eq_append_cons_of_mem member
  exact ⟨text, after, split, free'⟩

/-- Outside of the root a text makes no difference. -/
theorem makes_outside_iff {opened : List Bytes} {raw rest : Bytes} (free : Byte.less ∉ raw) :
    Makes [] opened (raw ++ rest) root ↔ Makes [] opened rest root := by
  have alike : ∀ text after : Bytes, Byte.less ∉ text →
      (Makes [] opened (text ++ Byte.less :: after) root ↔
        Makes [] opened (Byte.less :: after) root) := by
    intro text after free
    rw [makes_text_iff free]
    constructor
    · rintro ⟨pile', absorbs, made⟩
      cases absorbs with
      | nothing => exact made
      | outside => exact made
    · intro made
      exact ⟨[], .outside, made⟩
  by_cases tagged : Byte.less ∈ rest
  · obtain ⟨text, after, rfl, free'⟩ := List.eq_append_cons_of_mem tagged
    have none : Byte.less ∉ raw ++ text := by simp [free, free']
    rw [← List.append_assoc, alike _ _ none, alike _ _ free']
  · have none : Byte.less ∉ raw ++ rest := by simp [free, tagged]
    constructor
    · intro made
      exact absurd (mem_of_makes made) none
    · intro made
      exact absurd (mem_of_makes made) tagged

/-! ## Sources -/

/-- What the scanner has read off makes no difference any more: what is left may
be put in the place of other bytes. -/
theorem exists_used_of_comes {source : Bytes} {scanner : Scanner}
    (comes : Comes source pile scanner) (left : scanner.rest ≠ []) :
    ∃ used, (Scanner.ofSource .whole source).rest = used ++ scanner.rest ∧ ∀ other,
      assemble [] ((Scanner.ofSource .whole source).withRest (used ++ other)).stream =
        assemble pile (scanner.withRest other).stream := by
  induction comes with
  | start => exact ⟨[], rfl, fun other => rfl⟩
  | @step pile later scanner next event comes read advances ih =>
      cases Scanner.stepEnds read with
      | missing nothing _ => exact absurd nothing left
      | @found used split any _ _ =>
          have filled : scanner.rest ≠ [] := by
            rw [split]
            exact List.append_ne_nil_of_right_ne_nil used left
          obtain ⟨earlier, whole, same⟩ := ih filled
          refine ⟨earlier ++ used, ?_, ?_⟩
          · rw [whole, split, List.append_assoc]
          · intro other
            rw [List.append_assoc, same, Scanner.stream_eq, any]
            exact assemble_of_advances advances _ _

/-- From a point of the reading on, the root is made of what is left. -/
theorem assemble_of_comes {source : Bytes} {scanner : Scanner}
    (comes : Comes source pile scanner) :
    assemble pile scanner.stream = Element.read .whole source := by
  induction comes with
  | start => rfl
  | @step pile later scanner next event _ read advances ih =>
      rw [← ih, Scanner.stream_eq scanner, read, assemble_of_advances advances]
      rfl

theorem not_mem_mark (source : Bytes) : Byte.less ∉ source.take (Scanner.markOf source) := by
  rw [Scanner.markOf]
  split
  · next begins =>
      obtain ⟨rest, rfl⟩ := List.isPrefixOf_iff_prefix.1 begins
      rw [List.take_left]
      decide
  · simp

/-- The byte order mark might as well be passed over as a text. -/
theorem read_eq_ok_iff_makes {source : Bytes} :
    Element.read .whole source = .ok root ↔ Makes [] [] source root := by
  have behind : Makes [] [] (source.drop (Scanner.markOf source)) root ↔
      Element.read .whole source = .ok root :=
    makes_iff (Scanner.ofSource .whole source) rfl rfl
  rw [← behind, ← makes_outside_iff (not_mem_mark source), List.take_append_drop]

end ConfigDecl.Markup

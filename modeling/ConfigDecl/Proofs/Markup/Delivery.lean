import ConfigDecl.Proofs.Markup.Locality
import ConfigDecl.Proofs.Markup.Pile
import Mathlib.Tactic.ByContra

/-! # Deliveries

A source that comes in blocks is read as if it came whole, but for its document
types.  The end of one is looked for by the angle brackets before it in the same
block.  Where the brackets are balanced at every block boundary inside it, that
is where it ends; otherwise it is taken to end too early. -/

set_option autoImplicit false

namespace ConfigDecl.Markup

/-! ## Brackets -/

theorem balanced_iff {bytes : Bytes} :
    balanced bytes = true ↔ bytes.count Byte.less = bytes.count Byte.greater := beq_iff_eq

theorem balanced_append_of_balanced {first : Bytes} (even : balanced first = true)
    (rest : Bytes) : balanced (first ++ rest) = balanced rest := by
  rw [balanced_iff] at even
  rw [Bool.eq_iff_iff, balanced_iff, balanced_iff, List.count_append, List.count_append]
  omega

theorem exists_unmatched {bytes : Bytes} {depth : Nat}
    (excess : depth + bytes.count Byte.less < bytes.count Byte.greater) :
    ∃ before after, bytes = before ++ Byte.greater :: after ∧
      depth + before.count Byte.less = before.count Byte.greater := by
  induction bytes generalizing depth with
  | nil => simp at excess
  | cons b rest ih =>
      by_cases opens : b = Byte.less
      · subst opens
        have differ : Byte.less ≠ Byte.greater := by decide
        rw [List.count_cons_self, List.count_cons_of_ne differ] at excess
        have inner : depth + 1 + rest.count Byte.less < rest.count Byte.greater := by omega
        obtain ⟨before, after, split, level⟩ := ih inner
        refine ⟨Byte.less :: before, after, congrArg (Byte.less :: ·) split, ?_⟩
        rw [List.count_cons_self, List.count_cons_of_ne differ]
        omega
      · rw [List.count_cons_of_ne opens] at excess
        by_cases ends : b = Byte.greater
        · subst ends
          rw [List.count_cons_self] at excess
          cases depth with
          | zero => exact ⟨[], rest, rfl, rfl⟩
          | succ depth =>
              have inner : depth + rest.count Byte.less < rest.count Byte.greater := by omega
              obtain ⟨before, after, split, level⟩ := ih inner
              refine ⟨Byte.greater :: before, after, congrArg (Byte.greater :: ·) split, ?_⟩
              rw [List.count_cons_of_ne opens, List.count_cons_self]
              omega
        · rw [List.count_cons_of_ne ends] at excess
          obtain ⟨before, after, split, level⟩ := ih excess
          refine ⟨b :: before, after, congrArg (b :: ·) split, ?_⟩
          rw [List.count_cons_of_ne opens, List.count_cons_of_ne ends]
          exact level

/-! ## The end of a document type -/

/-- The content of a document type and what comes after it, `bytes` following the
`!` at `position`. -/
def doctypeEnd (delivery : Delivery) (position : Nat) (bytes : Bytes) : Option (Bytes × Bytes) :=
  upToClosing (doctypeCloses delivery position) [Byte.bang] bytes

/-- The content goes up to the first `>` that closes the document type. -/
structure DoctypeEnds (delivery : Delivery) (position : Nat) (bytes content after : Bytes) :
    Prop where
  split : Byte.bang :: bytes = content ++ Byte.greater :: after
  closes : doctypeCloses delivery position content.reverse = true
  first : ∀ earlier later, content = earlier ++ Byte.greater :: later →
    doctypeCloses delivery position earlier.reverse = false

theorem exists_inner {bytes content after : Bytes}
    (split : Byte.bang :: bytes = content ++ Byte.greater :: after) :
    ∃ inner, content = Byte.bang :: inner ∧ bytes = inner ++ Byte.greater :: after := by
  cases content with
  | nil => exact absurd (List.cons.inj split).1 (by decide)
  | cons b inner =>
      obtain ⟨rfl, rest⟩ := List.cons.inj split
      exact ⟨inner, rfl, rest⟩

theorem doctypeEnd_eq_some_iff {delivery : Delivery} {position : Nat}
    {bytes content after : Bytes} :
    doctypeEnd delivery position bytes = some (content, after) ↔
      DoctypeEnds delivery position bytes content after := by
  rw [doctypeEnd, upToClosing_eq_some_iff]
  constructor
  · rintro ⟨inner, rfl, rfl, closed, unclosed⟩
    refine ⟨rfl, ?_, ?_⟩
    · rw [List.reverse_append, List.reverse_reverse]
      exact closed
    · intro earlier later there
      obtain ⟨more, rfl, split⟩ := exists_inner there
      rw [List.reverse_cons]
      exact unclosed more later split
  · intro ends
    obtain ⟨inner, rfl, split⟩ := exists_inner ends.split
    have closed := ends.closes
    rw [List.reverse_cons] at closed
    refine ⟨inner, split, rfl, closed, ?_⟩
    intro more later there
    have open' := ends.first (Byte.bang :: more) later (congrArg (Byte.bang :: ·) there)
    rw [List.reverse_cons] at open'
    exact open'

theorem not_closes_of_doctypeEnd {delivery : Delivery} {position : Nat} {bytes : Bytes}
    (missing : doctypeEnd delivery position bytes = none) {content after : Bytes}
    (split : Byte.bang :: bytes = content ++ Byte.greater :: after) :
    doctypeCloses delivery position content.reverse = false := by
  obtain ⟨inner, rfl, rest⟩ := exists_inner split
  rw [List.reverse_cons]
  exact unclosed_of_upToClosing_eq_none missing inner after rest

/-! ## Whole and in blocks -/

theorem doctypeCloses_whole (position : Nat) (content : Bytes) :
    doctypeCloses .whole position content.reverse = balanced content := by
  rw [doctypeCloses, Delivery.current, balanced, balanced, List.count_reverse, List.count_reverse]

/-- Where the block begins that a `>` right behind so many bytes of a document
type is in, unless the document type begins in it too. -/
def blockStart (size position length : Nat) : Nat := length - (position + length) % size

theorem doctypeCloses_blocks (size position : Nat) (content : Bytes) :
    doctypeCloses (.blocks size) position content.reverse =
      balanced (content.drop (blockStart size position content.length)) := by
  rw [doctypeCloses, Delivery.current, List.take_reverse, List.length_reverse, balanced, balanced,
    List.count_reverse, List.count_reverse]
  rfl

theorem blockStart_cases (size position length : Nat) :
    blockStart size position length = 0 ∨
      blockStart size position length ≤ length ∧
        (position + blockStart size position length) % size = 0 := by
  rw [blockStart]
  by_cases inside : length ≤ (position + length) % size
  · exact .inl (Nat.sub_eq_zero_of_le inside)
  · refine .inr ⟨Nat.sub_le _ _, ?_⟩
    have moved : position + (length - (position + length) % size) =
        (position + length) - (position + length) % size := by omega
    rw [moved]
    exact Nat.sub_mod_eq_zero_of_mod_eq (Nat.mod_mod _ _).symm

theorem blockStart_of_boundary {size position k : Nat} (boundary : (position + k) % size = 0)
    {more : Nat} (inside : more < size) : blockStart size position (k + more) = k := by
  have behind : (position + (k + more)) % size = more := by
    rw [← Nat.add_assoc, Nat.add_mod, boundary, Nat.zero_add, Nat.mod_mod,
      Nat.mod_eq_of_lt inside]
  rw [blockStart, behind, Nat.add_sub_cancel]

/-- At every boundary of blocks inside the content, its `!` being at `position`,
as many brackets have closed as have been opened. -/
def EvenAtBlocks (size position : Nat) (content : Bytes) : Prop :=
  ∀ k ≤ content.length, (position + k) % size = 0 → balanced (content.take k) = true

theorem doctypeCloses_of_even {size position : Nat} {before after : Bytes}
    (even : EvenAtBlocks size position (before ++ after)) :
    doctypeCloses (.blocks size) position before.reverse =
      doctypeCloses .whole position before.reverse := by
  rw [doctypeCloses_blocks, doctypeCloses_whole]
  obtain start | ⟨within, boundary⟩ := blockStart_cases size position before.length
  · rw [start, List.drop_zero]
  · generalize blockStart size position before.length = k at within boundary
    have inside : k ≤ (before ++ after).length := by
      rw [List.length_append]
      omega
    have there := even k inside boundary
    rw [List.take_append_of_le_length within] at there
    rw [← balanced_append_of_balanced there (before.drop k), List.take_append_drop]

theorem doctypeEnds_of_even {size position : Nat} {bytes content after : Bytes}
    (ends : DoctypeEnds .whole position bytes content after)
    (even : EvenAtBlocks size position content) :
    DoctypeEnds (.blocks size) position bytes content after where
  split := ends.split
  closes := by
    rw [← List.append_nil content] at even
    rw [doctypeCloses_of_even even]
    exact ends.closes
  first := by
    intro earlier later there
    rw [there] at even
    rw [doctypeCloses_of_even even]
    exact ends.first earlier later there

/-- Up to its end no more brackets close in a document type than are open. -/
theorem count_greater_le {position : Nat} {bytes content after : Bytes}
    (ends : DoctypeEnds .whole position bytes content after) (k : Nat) :
    (content.take k).count Byte.greater ≤ (content.take k).count Byte.less := by
  by_contra excess
  rw [Nat.not_le, ← Nat.zero_add (List.count Byte.less _)] at excess
  obtain ⟨before, rest, split, level⟩ := exists_unmatched excess
  have whole : content = before ++ Byte.greater :: (rest ++ content.drop k) := by
    rw [← List.cons_append, ← List.append_assoc, ← split, List.take_append_drop]
  have open' := ends.first before _ whole
  rw [doctypeCloses_whole] at open'
  have even : balanced before = true := balanced_iff.2 (by omega)
  rw [even] at open'
  cases open'

/-- If what is open at a boundary is closed less than a block behind it, the block
closes more than it opens. -/
theorem exists_closes_in_block {size position k n : Nat} {content : Bytes}
    (boundary : (position + k) % size = 0) (inside : k ≤ content.length)
    (open' : (content.take k).count Byte.greater < (content.take k).count Byte.less)
    (behind : k ≤ n) (within : n ≤ k + size)
    (closed : (content.take n).count Byte.less ≤ (content.take n).count Byte.greater) :
    ∃ before after, content = before ++ Byte.greater :: after ∧
      doctypeCloses (.blocks size) position before.reverse = true := by
  have parts : content.take n = content.take k ++ (content.take n).drop k := by
    rw [← List.take_append_drop k (content.take n), List.take_take, Nat.min_eq_left behind,
      List.drop_left' (by rw [List.length_take]; omega)]
  rw [parts, List.count_append, List.count_append] at closed
  have excess : 0 + ((content.take n).drop k).count Byte.less <
      ((content.take n).drop k).count Byte.greater := by omega
  obtain ⟨before, rest, split, level⟩ := exists_unmatched excess
  refine ⟨content.take k ++ before, rest ++ content.drop n, ?_, ?_⟩
  · rw [List.append_assoc, ← List.cons_append, ← List.append_assoc before, ← split,
      ← List.append_assoc, ← parts, List.take_append_drop]
  · have lengths := congrArg List.length split
    simp only [List.length_drop, List.length_take, List.length_append, List.length_cons] at lengths
    have taken : (content.take k).length = k := List.length_take_of_le inside
    rw [doctypeCloses_blocks, List.length_append, taken,
      blockStart_of_boundary boundary (by omega), List.drop_left' taken, balanced_iff]
    omega

theorem exists_closes_of_open {size position k : Nat} {content : Bytes}
    (boundary : (position + k) % size = 0) (inside : k ≤ content.length)
    (open' : (content.take k).count Byte.greater < (content.take k).count Byte.less)
    (even : balanced content = true) :
    ∃ before after, content = before ++ Byte.greater :: after ∧
      doctypeCloses (.blocks size) position before.reverse = true := by
  have positive : 0 < size := by
    rcases Nat.eq_zero_or_pos size with rfl | positive
    · rw [Nat.mod_zero] at boundary
      have first : k = 0 := by omega
      rw [first, List.take_zero] at open'
      exact absurd open' (Nat.lt_irrefl _)
    · exact positive
  -- The last boundary with brackets open is in the block looked for.
  induction left : content.length - k using Nat.strongRecOn generalizing k with
  | _ left ih =>
      by_cases within : k + size ≤ content.length
      · by_cases again :
          (content.take (k + size)).count Byte.greater < (content.take (k + size)).count Byte.less
        · refine ih (content.length - (k + size)) (by omega) ?_ within again rfl
          rw [← Nat.add_assoc, Nat.add_mod_right, boundary]
        · exact exists_closes_in_block boundary inside open' (Nat.le_add_right k size)
            (Nat.le_refl _) (Nat.le_of_not_lt again)
      · refine exists_closes_in_block boundary inside open' inside (by omega) ?_
        rw [List.take_length]
        exact Nat.le_of_eq (balanced_iff.1 even)

theorem length_le_of_closes {delivery : Delivery} {position : Nat}
    {bytes content after before rest : Bytes}
    (ends : DoctypeEnds delivery position bytes content after)
    (split : Byte.bang :: bytes = before ++ Byte.greater :: rest)
    (closed : doctypeCloses delivery position before.reverse = true) :
    content.length ≤ before.length := by
  by_contra longer
  -- The earlier `>` would be in the content, which ends at the first that closes.
  have front : before ++ [Byte.greater] <+: content ++ Byte.greater :: after := by
    rw [← ends.split, split]
    exact ⟨rest, by simp⟩
  have within : (before ++ [Byte.greater]).length ≤ content.length := by
    rw [List.length_append, List.length_singleton]
    omega
  obtain ⟨more, rfl⟩ := List.prefix_of_prefix_length_le front (List.prefix_append _ _) within
  rw [List.append_assoc, List.singleton_append] at ends
  rw [ends.first before more rfl] at closed
  cases closed

theorem exists_shorter_of_uneven {size position : Nat} {bytes content after : Bytes}
    (ends : DoctypeEnds .whole position bytes content after)
    (uneven : ¬ EvenAtBlocks size position content) :
    ∃ content' after', doctypeEnd (.blocks size) position bytes = some (content', after') ∧
      content'.length < content.length := by
  simp only [EvenAtBlocks, not_forall] at uneven
  obtain ⟨k, inside, boundary, uneven⟩ := uneven
  have atMost := count_greater_le ends k
  have open' : (content.take k).count Byte.greater < (content.take k).count Byte.less := by
    refine Nat.lt_of_le_of_ne atMost ?_
    intro same
    exact uneven (balanced_iff.2 same.symm)
  have even := ends.closes
  rw [doctypeCloses_whole] at even
  obtain ⟨before, rest, split, closed⟩ := exists_closes_of_open boundary inside open' even
  have whole := ends.split
  rw [split, List.append_assoc, List.cons_append] at whole
  have shorter : before.length < content.length := by
    rw [split, List.length_append, List.length_cons]
    omega
  cases found : doctypeEnd (.blocks size) position bytes with
  | none =>
      rw [not_closes_of_doctypeEnd found whole] at closed
      cases closed
  | some parts =>
      obtain ⟨content', after'⟩ := parts
      have atFirst := length_le_of_closes (doctypeEnd_eq_some_iff.1 found) whole closed
      exact ⟨content', after', rfl, Nat.lt_of_le_of_lt atFirst shorter⟩

/-- A document type goes on with `bytes` after its `!`, and block boundaries make
no difference to where it ends: they are even, or it has no end in either case. -/
inductive EvenDoctype (size position : Nat) (bytes : Bytes) : Prop where
  | closed {content after : Bytes}
      (ends : doctypeEnd .whole position bytes = some (content, after))
      (even : EvenAtBlocks size position content)
  | unclosed (whole : doctypeEnd .whole position bytes = none)
      (inBlocks : doctypeEnd (.blocks size) position bytes = none)

theorem evenDoctype_iff {size position : Nat} {bytes : Bytes} :
    EvenDoctype size position bytes ↔
      doctypeEnd (.blocks size) position bytes = doctypeEnd .whole position bytes := by
  constructor
  · intro even
    cases even with
    | closed ends even =>
        rw [ends]
        exact doctypeEnd_eq_some_iff.2 (doctypeEnds_of_even (doctypeEnd_eq_some_iff.1 ends) even)
    | unclosed whole inBlocks => rw [whole, inBlocks]
  · intro same
    cases whole : doctypeEnd .whole position bytes with
    | none =>
        rw [whole] at same
        exact .unclosed whole same
    | some parts =>
        obtain ⟨content, after⟩ := parts
        refine .closed whole ?_
        by_contra uneven
        obtain ⟨content', after', found, shorter⟩ :=
          exists_shorter_of_uneven (doctypeEnd_eq_some_iff.1 whole) uneven
        rw [same, whole] at found
        cases found
        exact Nat.lt_irrefl _ shorter

/-! ## Scanning -/

namespace Scanner

def withDelivery (scanner : Scanner) (delivery : Delivery) : Scanner :=
  { scanner with delivery := delivery }

end Scanner

def Step.withDelivery (delivery : Delivery) : Step → Step
  | .event read next => .event read (next.withDelivery delivery)
  | .done offset => .done offset
  | .fault found offset => .fault found offset

/-- The next event is a document type: its `!` is at `position` in the source, and
`bytes` follow it. -/
inductive MeetsDoctype : Scanner → Nat → Bytes → Prop where
  | inTag {scanner : Scanner} {b : UInt8} {rest : Bytes} (inside : scanner.inTag = true)
      (front : scanner.rest = Byte.bang :: b :: rest)
      (kind : DeclarationKind.ofByte b = .ok .doctype) :
      MeetsDoctype scanner (scanner.markLength + scanner.offset) (b :: rest)
  | inText {scanner : Scanner} {rest bytes : Bytes} {position : Nat}
      (outside : scanner.inTag = false) (front : scanner.rest = Byte.less :: rest)
      (meets : MeetsDoctype
        { scanner with rest := rest, offset := scanner.offset + 1, inTag := true } position bytes) :
      MeetsDoctype scanner position bytes

namespace Scanner

variable {scanner : Scanner} {delivery : Delivery}

/-- If a document type is next, it ends in the same place when the source comes
in the other delivery. -/
def EndsAlike (scanner : Scanner) (delivery : Delivery) : Prop :=
  ∀ position bytes, MeetsDoctype scanner position bytes →
    doctypeEnd delivery position bytes = doctypeEnd scanner.delivery position bytes

theorem declaration_withDelivery {rest : Bytes} (front : scanner.rest = Byte.bang :: rest)
    (inside : scanner.inTag = true) (alike : scanner.EndsAlike delivery) :
    (scanner.withDelivery delivery).declaration = scanner.declaration.withDelivery delivery := by
  have front' : (scanner.withDelivery delivery).rest = Byte.bang :: rest := front
  rw [declaration, declaration, front, front', List.drop_one, List.tail_cons]
  cases rest with
  | nil => rfl
  | cons b rest =>
      cases kindOf : DeclarationKind.ofByte b with
      | error fault =>
          simp only [kindOf]
          rfl
      | ok kind =>
          have closing : upToClosing ((scanner.withDelivery delivery).closes kind) [Byte.bang]
              (b :: rest) = upToClosing (scanner.closes kind) [Byte.bang] (b :: rest) := by
            cases kind with
            | cdata => rfl
            | comment => rfl
            | doctype => exact alike _ _ (.inTag inside front kindOf)
          cases ended : upToClosing (scanner.closes kind) [Byte.bang] (b :: rest) with
          | none =>
              simp only [kindOf, closing, ended]
              rfl
          | some parts =>
              obtain ⟨content, after⟩ := parts
              simp only [kindOf, closing, ended]
              cases kind.event content <;> rfl

theorem endTag_withDelivery (scanner : Scanner) (delivery : Delivery) :
    (scanner.withDelivery delivery).endTag = scanner.endTag.withDelivery delivery := by
  have opened : (scanner.withDelivery delivery).opened = scanner.opened := rfl
  rw [endTag, endTag, opened]
  cases scanner.opened with
  | nil => rfl
  | cons name outer =>
      dsimp only
      rw [apply_ite (Step.withDelivery delivery)]
      rfl

theorem instruction_withDelivery (scanner : Scanner) (delivery : Delivery) :
    (scanner.withDelivery delivery).instruction = scanner.instruction.withDelivery delivery := by
  rw [instruction, instruction]
  dsimp only
  rw [apply_ite (Step.withDelivery delivery)]
  rfl

theorem elementTag_withDelivery (scanner : Scanner) (delivery : Delivery) :
    (scanner.withDelivery delivery).elementTag = scanner.elementTag.withDelivery delivery := by
  rw [elementTag, elementTag]
  dsimp only
  rw [apply_ite (Step.withDelivery delivery)]
  rfl

theorem tag_withDelivery (inside : scanner.inTag = true) (alike : scanner.EndsAlike delivery) :
    (scanner.withDelivery delivery).tag = scanner.tag.withDelivery delivery := by
  cases front : scanner.rest with
  | nil =>
      have front' : (scanner.withDelivery delivery).rest = [] := front
      rw [tag, tag, front, front']
      rfl
  | cons b rest =>
      have front' : (scanner.withDelivery delivery).rest = b :: rest := front
      rw [tag, tag, front, front']
      dsimp only
      by_cases isBang : b = Byte.bang
      · rw [if_pos isBang, if_pos isBang]
        rw [isBang] at front
        exact declaration_withDelivery front inside alike
      by_cases isSlash : b = Byte.slash
      · rw [if_neg isBang, if_neg isBang, if_pos isSlash, if_pos isSlash]
        exact endTag_withDelivery scanner delivery
      by_cases isQuestion : b = Byte.question
      · rw [if_neg isBang, if_neg isBang, if_neg isSlash, if_neg isSlash, if_pos isQuestion,
          if_pos isQuestion]
        exact instruction_withDelivery scanner delivery
      · rw [if_neg isBang, if_neg isBang, if_neg isSlash, if_neg isSlash, if_neg isQuestion,
          if_neg isQuestion]
        exact elementTag_withDelivery scanner delivery

theorem step_withDelivery (alike : scanner.EndsAlike delivery) :
    (scanner.withDelivery delivery).step = scanner.step.withDelivery delivery := by
  have inTag' : (scanner.withDelivery delivery).inTag = scanner.inTag := rfl
  rw [step, step, inTag']
  by_cases inside : scanner.inTag = true
  · rw [if_pos inside, if_pos inside]
    exact tag_withDelivery inside alike
  · rw [if_neg inside, if_neg inside]
    have outside : scanner.inTag = false := Bool.eq_false_iff.2 inside
    cases front : scanner.rest with
    | nil =>
        have front' : (scanner.withDelivery delivery).rest = [] := front
        rw [front']
        rfl
    | cons b rest =>
        have front' : (scanner.withDelivery delivery).rest = b :: rest := front
        rw [front']
        dsimp only
        by_cases isLess : b = Byte.less
        · rw [if_pos isLess, if_pos isLess]
          rw [isLess] at front
          have entered : EndsAlike
              { scanner with rest := rest, offset := scanner.offset + 1, inTag := true } delivery :=
            fun position bytes meets => alike position bytes (.inText outside front meets)
          exact tag_withDelivery rfl entered
        · rw [if_neg isLess, if_neg isLess]
          rfl

theorem delivery_of_step {next : Scanner} {event : Event}
    (read : scanner.step = .event event next) : next.delivery = scanner.delivery := by
  have alike : scanner.EndsAlike scanner.delivery := fun _ _ _ => rfl
  have same := step_withDelivery alike
  rw [show scanner.withDelivery scanner.delivery = scanner from rfl, read, Step.withDelivery]
    at same
  rw [(Step.event.inj same).2]
  rfl

end Scanner

/-! ## Reading -/

/-- The source being read whole, the scanner comes here without the root being
complete, the elements of the pile being open. -/
inductive Comes (source : Bytes) : List OpenElement → Scanner → Prop where
  | start : Comes source [] (Scanner.ofSource .whole source)
  | step {pile later : List OpenElement} {scanner next : Scanner} {event : Event}
      (comes : Comes source pile scanner) (read : scanner.step = .event event next)
      (advances : Advances pile event (.piled later)) : Comes source later next

/-- The source has a document type before its root is complete, with its `!` at
`position` and `bytes` behind that. -/
def HasDoctype (source : Bytes) (position : Nat) (bytes : Bytes) : Prop :=
  ∃ pile scanner, Comes source pile scanner ∧ MeetsDoctype scanner position bytes

theorem delivery_of_comes {source : Bytes} {pile : List OpenElement} {scanner : Scanner}
    (comes : Comes source pile scanner) : scanner.delivery = .whole := by
  induction comes with
  | start => rfl
  | step _ read _ ih => rw [Scanner.delivery_of_step read, ih]

theorem endsAlike_of_comes {source : Bytes} {delivery : Delivery}
    (alike : ∀ position bytes, HasDoctype source position bytes →
      doctypeEnd delivery position bytes = doctypeEnd .whole position bytes)
    {pile : List OpenElement} {scanner : Scanner} (comes : Comes source pile scanner) :
    scanner.EndsAlike delivery := by
  intro position bytes meets
  rw [delivery_of_comes comes]
  exact alike position bytes ⟨pile, scanner, comes, meets⟩

theorem assemble_withDelivery {source : Bytes} {delivery : Delivery}
    (alike : ∀ position bytes, HasDoctype source position bytes →
      doctypeEnd delivery position bytes = doctypeEnd .whole position bytes)
    {pile : List OpenElement} {scanner : Scanner} (comes : Comes source pile scanner) :
    assemble pile (scanner.withDelivery delivery).stream = assemble pile scanner.stream := by
  induction scanner using Scanner.stream.induct generalizing pile with
  | case1 scanner event next read ih =>
      have stepped := Scanner.step_withDelivery (endsAlike_of_comes alike comes)
      rw [Scanner.stream_eq, Scanner.stream_eq scanner, stepped, read, Step.withDelivery]
      dsimp only
      rcases advances_or_fault pile event with ⟨_, advance, advances⟩ | ⟨fault, faulty⟩
      · rw [assemble_of_advances advances, assemble_of_advances advances]
        cases advance with
        | root element => rfl
        | piled later => exact ih (comes.step read advances)
      · rw [assemble_of_fault faulty, assemble_of_fault faulty]
        rfl
  | case2 scanner offset read =>
      have stepped := Scanner.step_withDelivery (endsAlike_of_comes alike comes)
      rw [Scanner.stream_eq, Scanner.stream_eq scanner, stepped, read]
      rfl
  | case3 scanner fault offset read =>
      have stepped := Scanner.step_withDelivery (endsAlike_of_comes alike comes)
      rw [Scanner.stream_eq, Scanner.stream_eq scanner, stepped, read]
      rfl

/-- Where its document types are even a source is read in blocks as it is whole. -/
theorem read_blocks {size : Nat} {source : Bytes}
    (even : ∀ position bytes, HasDoctype source position bytes → EvenDoctype size position bytes) :
    Element.read (.blocks size) source = Element.read .whole source := by
  have start : Scanner.ofSource (.blocks size) source =
      (Scanner.ofSource .whole source).withDelivery (.blocks size) := rfl
  rw [Element.read, Element.read, Stream.ofSource, Stream.ofSource, start]
  apply assemble_withDelivery (fun position bytes has => ?_) .start
  exact evenDoctype_iff.1 (even position bytes has)

end ConfigDecl.Markup

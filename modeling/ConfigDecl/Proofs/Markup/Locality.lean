import ConfigDecl.Proofs.Markup.Nesting
import ConfigDecl.Proofs.Markup.Tags

/-! # Where events end

A scanner reads an event from the bytes up to its end and does not look at those
behind, so what comes after may be anything.  Where the source ends before the
event does, the event is read all the same and nothing is left; among the events
that close an element this happens to a tag that lacks its `>`. -/

set_option autoImplicit false

namespace ConfigDecl.Markup

/-! ## Bytes up to an end -/

theorem upTo_of_not_mem {mark : UInt8} {bytes : Bytes} (free : mark ∉ bytes) :
    upTo mark bytes = (bytes, none) := by
  induction bytes with
  | nil => rfl
  | cons b rest ih =>
      have apart : b ≠ mark := by
        intro same
        apply free
        rw [same]
        exact List.mem_cons_self
      rw [upTo, if_neg apart, ih fun member => free (List.mem_cons_of_mem b member)]

theorem upTo_eq_some {mark : UInt8} {bytes before after : Bytes}
    (found : upTo mark bytes = (before, some after)) :
    bytes = before ++ mark :: after ∧ mark ∉ before := by
  by_cases member : mark ∈ bytes
  · obtain ⟨first, rest, rfl, free⟩ := List.eq_append_cons_of_mem member
    rw [upTo_append free] at found
    cases found
    exact ⟨rfl, free⟩
  · rw [upTo_of_not_mem member] at found
    cases found

theorem upTo_eq_none {mark : UInt8} {bytes before : Bytes}
    (missing : upTo mark bytes = (before, none)) : before = bytes ∧ mark ∉ bytes := by
  by_cases member : mark ∈ bytes
  · obtain ⟨first, rest, rfl, free⟩ := List.eq_append_cons_of_mem member
    rw [upTo_append free] at missing
    cases missing
  · rw [upTo_of_not_mem member] at missing
    cases missing
    exact ⟨rfl, member⟩

/-- The tag ends at its `>`, whatever comes behind it, and goes on to the end of
the source if that is before the `>`. -/
theorem upToTagEnd_eq_some {mark : Option UInt8} {bytes before after : Bytes}
    (found : upToTagEnd mark bytes = (before, some after)) :
    bytes = before ++ Byte.greater :: after ∧
      (∀ other, upToTagEnd mark (before ++ Byte.greater :: other) = (before, some other)) ∧
      upToTagEnd mark before = (before, none) := by
  induction bytes generalizing mark before with
  | nil => cases found
  | cons b rest ih =>
      rw [upToTagEnd] at found
      by_cases ends : mark = none ∧ b = Byte.greater
      · rw [if_pos ends] at found
        cases found
        obtain ⟨rfl, rfl⟩ := ends
        exact ⟨rfl, fun _ => rfl, rfl⟩
      · rw [if_neg ends] at found
        cases later : upToTagEnd (quoteAfter mark b) rest with
        | mk inner more =>
            rw [later] at found
            cases found
            obtain ⟨split, any, cut⟩ := ih later
            refine ⟨congrArg (b :: ·) split, ?_, ?_⟩
            · intro other
              rw [List.cons_append, upToTagEnd, if_neg ends, any]
            · rw [upToTagEnd, if_neg ends, cut]

theorem upToTagEnd_eq_none {mark : Option UInt8} {bytes before : Bytes}
    (missing : upToTagEnd mark bytes = (before, none)) : before = bytes := by
  induction bytes generalizing mark before with
  | nil =>
      cases missing
      rfl
  | cons b rest ih =>
      rw [upToTagEnd] at missing
      by_cases ends : mark = none ∧ b = Byte.greater
      · rw [if_pos ends] at missing
        cases missing
      · rw [if_neg ends] at missing
        cases later : upToTagEnd (quoteAfter mark b) rest with
        | mk inner more =>
            rw [later] at missing
            cases missing
            exact congrArg (b :: ·) (ih later)

/-- No `>` of the bytes closes. -/
def Unclosed (closes : Bytes → Bool) (before bytes : Bytes) : Prop :=
  ∀ inner after, bytes = inner ++ Byte.greater :: after → closes (inner.reverse ++ before) = false

theorem upToClosing_of_unclosed {closes : Bytes → Bool} {before inner : Bytes}
    (unclosed : Unclosed closes before inner) (rest : Bytes) :
    upToClosing closes before (inner ++ rest) =
      upToClosing closes (inner.reverse ++ before) rest := by
  induction inner generalizing before with
  | nil => rfl
  | cons b inner ih =>
      have passes : ¬ (b = Byte.greater ∧ closes before = true) := by
        rintro ⟨rfl, closed⟩
        have open' : closes before = false := unclosed [] inner rfl
        rw [open'] at closed
        cases closed
      have later : Unclosed closes (b :: before) inner := by
        intro more after split
        have there := unclosed (b :: more) after (congrArg (b :: ·) split)
        rw [List.reverse_cons, List.append_assoc, List.singleton_append] at there
        exact there
      rw [List.cons_append, upToClosing, if_neg passes, ih later, List.reverse_cons,
        List.append_assoc, List.singleton_append]

theorem unclosed_of_upToClosing_eq_none {closes : Bytes → Bool} {before bytes : Bytes}
    (missing : upToClosing closes before bytes = none) : Unclosed closes before bytes := by
  intro inner after split
  induction inner generalizing before bytes with
  | nil =>
      rw [split, List.nil_append, upToClosing] at missing
      by_cases closed : closes before = true
      · rw [if_pos ⟨rfl, closed⟩] at missing
        cases missing
      · exact Bool.eq_false_iff.2 closed
  | cons b inner ih =>
      rw [split, List.cons_append, upToClosing] at missing
      split at missing
      · cases missing
      · rw [List.reverse_cons, List.append_assoc, List.singleton_append]
        exact ih missing rfl

theorem upToClosing_eq_some_iff {closes : Bytes → Bool} {before bytes content after : Bytes} :
    upToClosing closes before bytes = some (content, after) ↔
      ∃ inner, bytes = inner ++ Byte.greater :: after ∧ content = before.reverse ++ inner ∧
        closes (inner.reverse ++ before) = true ∧ Unclosed closes before inner := by
  constructor
  · intro found
    induction bytes generalizing before with
    | nil => cases found
    | cons b rest ih =>
        rw [upToClosing] at found
        by_cases ends : b = Byte.greater ∧ closes before = true
        · rw [if_pos ends] at found
          cases found
          refine ⟨[], ?_, (List.append_nil _).symm, ends.2, ?_⟩
          · rw [ends.1]
            rfl
          intro inner after split
          simp at split
        · rw [if_neg ends] at found
          obtain ⟨inner, split, whole, closed, unclosed⟩ := ih found
          refine ⟨b :: inner, congrArg (b :: ·) split, ?_, ?_, ?_⟩
          · rw [whole, List.reverse_cons, List.append_assoc, List.singleton_append]
          · rw [List.reverse_cons, List.append_assoc, List.singleton_append]
            exact closed
          · intro more after there
            cases more with
            | nil =>
                have same : b = Byte.greater := (List.cons.inj there).1
                exact Bool.eq_false_iff.2 fun closed => ends ⟨same, closed⟩
            | cons c more =>
                obtain ⟨rfl, later⟩ := List.cons.inj there
                rw [List.reverse_cons, List.append_assoc, List.singleton_append]
                exact unclosed more after later
  · rintro ⟨inner, rfl, rfl, closed, unclosed⟩
    rw [upToClosing_of_unclosed unclosed, upToClosing, if_pos ⟨rfl, closed⟩,
      List.reverse_append, List.reverse_reverse]

theorem upToClosing_eq_some {closes : Bytes → Bool} {before bytes content after : Bytes}
    (found : upToClosing closes before bytes = some (content, after)) :
    ∃ inner, bytes = inner ++ Byte.greater :: after ∧ ∀ other,
      upToClosing closes before (inner ++ Byte.greater :: other) = some (content, other) := by
  obtain ⟨inner, split, whole, closed, unclosed⟩ := upToClosing_eq_some_iff.1 found
  refine ⟨inner, split, ?_⟩
  intro other
  exact upToClosing_eq_some_iff.2 ⟨inner, rfl, whole, closed, unclosed⟩

/-! ## Tags -/

/-- The event closes an element. -/
inductive Event.Closes : Event → Prop where
  | empty (tag : Tag) : Closes (.empty tag)
  | close : Closes .close

/-- What follows the `<` of a tag that would close an element is without the `>`
of the tag. -/
inductive LacksEnd : Bytes → Prop where
  | endTag {content : Bytes} (unended : Byte.greater ∉ content) : LacksEnd (Byte.slash :: content)
  | emptyTag {b : UInt8} {content : Bytes} (kind : b ∉ [Byte.bang, Byte.slash, Byte.question])
      (last : (b :: content).getLast? = some Byte.slash)
      (unended : (upToTagEnd none (b :: content)).2 = none) : LacksEnd (b :: content)

namespace Scanner

def withRest (scanner : Scanner) (rest : Bytes) : Scanner := { scanner with rest := rest }

@[simp] theorem rest_withRest (scanner : Scanner) (rest : Bytes) :
    (scanner.withRest rest).rest = rest := rfl

@[simp] theorem opened_withRest (scanner : Scanner) (rest : Bytes) :
    (scanner.withRest rest).opened = scanner.opened := rfl

@[simp] theorem inTag_withRest (scanner : Scanner) (rest : Bytes) :
    (scanner.withRest rest).inTag = scanner.inTag := rfl

@[simp] theorem closes_withRest (scanner : Scanner) (rest : Bytes) (kind : DeclarationKind) :
    (scanner.withRest rest).closes kind = scanner.closes kind := by
  cases kind <;> rfl

/-- A reading of the event that leaves `next`: it ends at a `>` and does not
depend on what comes behind, or it ends with the source. -/
inductive TagEnds (read : Scanner → Step) (scanner : Scanner) (event : Event) (next : Scanner) :
    Prop where
  | found {content : Bytes} (inText : next.inTag = false)
      (split : scanner.rest = content ++ Byte.greater :: next.rest)
      (any : ∀ other, read (scanner.withRest (content ++ Byte.greater :: other)) =
        .event event (next.withRest other))
      (cut : event.Closes → content ≠ [] ∧ ∃ offset, read (scanner.withRest content) =
        .event event { next with rest := [], offset := offset })
  | missing (nothing : next.rest = []) (lacks : event.Closes → LacksEnd scanner.rest)

variable {scanner next : Scanner} {event : Event}

theorem not_closes_of_declaration_event {kind : DeclarationKind} {content : Bytes}
    (made : kind.event content = .ok event) : ¬ event.Closes := by
  intro closes
  cases kind with
  | cdata =>
      simp only [DeclarationKind.event] at made
      split at made
      · cases made
        cases closes
      · cases made
  | comment =>
      simp only [DeclarationKind.event] at made
      split at made
      · cases made
        cases closes
      · cases made
  | doctype =>
      simp only [DeclarationKind.event] at made
      split at made
      · split at made
        · cases made
        · cases made
          cases closes
      · cases made

theorem tagEnds_declaration {rest : Bytes} (front : scanner.rest = Byte.bang :: rest)
    (read : scanner.declaration = .event event next) :
    TagEnds declaration scanner event next := by
  rw [declaration, front, List.drop_one, List.tail_cons] at read
  cases rest with
  | nil => cases read
  | cons b rest =>
      cases kindOf : DeclarationKind.ofByte b with
      | error fault =>
          simp only [kindOf] at read
          cases read
      | ok kind =>
          cases ended : upToClosing (scanner.closes kind) [Byte.bang] (b :: rest) with
          | none =>
              simp only [kindOf, ended] at read
              cases read
          | some parts =>
              obtain ⟨content, after⟩ := parts
              cases made : kind.event content with
              | error fault =>
                  simp only [kindOf, ended, made] at read
                  cases read
              | ok event =>
                  simp only [kindOf, ended, made] at read
                  cases read
                  obtain ⟨inner, split, any⟩ := upToClosing_eq_some ended
                  have whole : scanner.rest = (Byte.bang :: inner) ++ Byte.greater :: after := by
                    rw [front, split]
                    rfl
                  apply TagEnds.found rfl whole
                  · intro other
                    obtain ⟨more, again⟩ : ∃ more, inner ++ Byte.greater :: other = b :: more := by
                      cases inner with
                      | nil => exact ⟨other, by rw [(List.cons.inj split).1]; rfl⟩
                      | cons c inner =>
                          exact ⟨inner ++ Byte.greater :: other, by rw [(List.cons.inj split).1]; rfl⟩
                    have closing := any other
                    rw [again] at closing
                    simp only [List.cons_append, again, declaration, rest_withRest, List.drop_one,
                      List.tail_cons, kindOf, closes_withRest, closing, made]
                    rfl
                  · intro closes
                    exact absurd closes (not_closes_of_declaration_event made)

theorem tagEnds_endTag {rest : Bytes} (front : scanner.rest = Byte.slash :: rest)
    (read : scanner.endTag = .event event next) : TagEnds endTag scanner event next := by
  rw [endTag] at read
  cases ended : upTo Byte.greater scanner.rest with
  | mk content after =>
      simp only [ended] at read
      cases open' : scanner.opened with
      | nil =>
          rw [open'] at read
          cases read
      | cons name outer =>
          simp only [open'] at read
          by_cases same : endName (content.drop 1) = name
          · rw [if_pos same] at read
            cases read
            cases after with
            | none =>
                obtain ⟨rfl, free⟩ := upTo_eq_none ended
                apply TagEnds.missing
                · rfl
                · intro _
                  rw [front] at free ⊢
                  exact .endTag fun member => free (List.mem_cons_of_mem _ member)
            | some after =>
                obtain ⟨split, free⟩ := upTo_eq_some ended
                apply TagEnds.found rfl split
                · intro other
                  simp only [endTag, rest_withRest, opened_withRest, upTo_append free, open',
                    if_pos same]
                  rfl
                · intro _
                  refine ⟨?_, scanner.offset + consumed content none, ?_⟩
                  · intro bare
                    rw [front, bare] at split
                    exact absurd (List.cons.inj split).1 (by decide)
                  simp only [endTag, rest_withRest, opened_withRest, upTo_of_not_mem free, open',
                    if_pos same]
                  rfl
          · rw [if_neg same] at read
            cases read

theorem tagEnds_instruction (read : scanner.instruction = .event event next) :
    TagEnds instruction scanner event next := by
  rw [instruction] at read
  cases ended : upTo Byte.greater scanner.rest with
  | mk content after =>
      simp only [ended] at read
      by_cases closed : 2 < content.length ∧ content.getLast? = some Byte.question
      · rw [if_pos closed] at read
        cases read
        have open' : ¬ Event.skipped.Closes := by
          intro closes
          cases closes
        cases after with
        | none => exact .missing rfl fun closes => absurd closes open'
        | some after =>
            obtain ⟨split, free⟩ := upTo_eq_some ended
            apply TagEnds.found rfl split
            · intro other
              simp only [instruction, rest_withRest, upTo_append free, if_pos closed]
              rfl
            · intro closes
              exact absurd closes open'
      · rw [if_neg closed] at read
        cases read

theorem tagEnds_elementTag {b : UInt8} {rest : Bytes} (front : scanner.rest = b :: rest)
    (kind : b ∉ [Byte.bang, Byte.slash, Byte.question])
    (read : scanner.elementTag = .event event next) : TagEnds elementTag scanner event next := by
  rw [elementTag] at read
  cases ended : upToTagEnd none scanner.rest with
  | mk content after =>
      simp only [ended] at read
      cases after with
      | none =>
          obtain rfl := upToTagEnd_eq_none ended
          by_cases last : scanner.rest.getLast? = some Byte.slash
          · rw [if_pos last] at read
            cases read
            apply TagEnds.missing
            · rfl
            · intro _
              rw [front] at last ended ⊢
              exact .emptyTag kind last (congrArg Prod.snd ended)
          · rw [if_neg last] at read
            cases read
            apply TagEnds.missing
            · rfl
            · intro closes
              cases closes
      | some after =>
          obtain ⟨split, any, cut⟩ := upToTagEnd_eq_some ended
          by_cases last : content.getLast? = some Byte.slash
          · rw [if_pos last] at read
            cases read
            apply TagEnds.found rfl split
            · intro other
              simp only [elementTag, rest_withRest, any, if_pos last]
              rfl
            · intro _
              refine ⟨?_, scanner.offset, ?_⟩
              · intro bare
                rw [bare] at last
                cases last
              simp only [elementTag, rest_withRest, cut, if_pos last]
              rfl
          · rw [if_neg last] at read
            cases read
            apply TagEnds.found rfl split
            · intro other
              simp only [elementTag, rest_withRest, any, if_neg last]
              rfl
            · intro closes
              cases closes

/-- What reads a tag, by the first byte behind its `<`. -/
def tagReader (b : UInt8) : Scanner → Step :=
  if b = Byte.bang then declaration
  else if b = Byte.slash then endTag
  else if b = Byte.question then instruction
  else elementTag

theorem tag_eq_tagReader {b : UInt8} (head : scanner.rest.head? = some b) :
    scanner.tag = tagReader b scanner := by
  obtain ⟨rest, front⟩ := List.head?_eq_some_iff.1 head
  rw [tag, front, tagReader]
  by_cases isBang : b = Byte.bang
  · simp only [if_pos isBang]
  by_cases isSlash : b = Byte.slash
  · simp only [if_neg isBang, if_pos isSlash]
  by_cases isQuestion : b = Byte.question
  · simp only [if_neg isBang, if_neg isSlash, if_pos isQuestion]
  · simp only [if_neg isBang, if_neg isSlash, if_neg isQuestion]

theorem tagEnds_tagReader {b : UInt8} {rest : Bytes} (front : scanner.rest = b :: rest)
    (read : tagReader b scanner = .event event next) :
    TagEnds (tagReader b) scanner event next := by
  rw [tagReader] at read ⊢
  by_cases isBang : b = Byte.bang
  · rw [if_pos isBang] at read ⊢
    subst isBang
    exact tagEnds_declaration front read
  by_cases isSlash : b = Byte.slash
  · rw [if_neg isBang, if_pos isSlash] at read ⊢
    subst isSlash
    exact tagEnds_endTag front read
  by_cases isQuestion : b = Byte.question
  · rw [if_neg isBang, if_neg isSlash, if_pos isQuestion] at read ⊢
    exact tagEnds_instruction read
  · rw [if_neg isBang, if_neg isSlash, if_neg isQuestion] at read ⊢
    exact tagEnds_elementTag front (by simp [isBang, isSlash, isQuestion]) read

theorem tagEnds_tag (read : scanner.tag = .event event next) : TagEnds tag scanner event next := by
  cases front : scanner.rest with
  | nil =>
      rw [tag, front] at read
      cases read
  | cons b rest =>
      have head : scanner.rest.head? = some b := congrArg List.head? front
      rw [tag_eq_tagReader head] at read
      cases tagEnds_tagReader front read with
      | missing nothing lacks => exact .missing nothing lacks
      | @found content inText split any cut =>
          rw [split] at head
          apply TagEnds.found inText split
          · intro other
            rw [tag_eq_tagReader, any]
            cases content <;> exact head
          · intro closes
            obtain ⟨filled, offset, read⟩ := cut closes
            refine ⟨filled, offset, ?_⟩
            rw [tag_eq_tagReader, read]
            cases content with
            | nil => exact absurd rfl filled
            | cons c content => exact head

/-! ## Steps -/

/-- What is left of the source, with the `<` of the tag that the scanner stands
in. -/
def pending (scanner : Scanner) : Bytes :=
  if scanner.inTag then Byte.less :: scanner.rest else scanner.rest

/-- A step reads the event from `used`, whatever comes behind, or goes on to the
end of the source. -/
inductive StepEnds (scanner : Scanner) (event : Event) (next : Scanner) : Prop where
  | found {used : Bytes} (split : scanner.rest = used ++ next.rest)
      (any : ∀ other, (scanner.withRest (used ++ other)).step =
        .event event (next.withRest other))
      (suffix : next.pending <:+ scanner.pending)
      (cut : event.Closes → ∃ before offset, used = before ++ [Byte.greater] ∧
        (scanner.withRest before).step = .event event { next with rest := [], offset := offset })
  | missing (nothing : next.rest = [])
      (lacks : event.Closes → ∃ tag, scanner.pending = Byte.less :: tag ∧ LacksEnd tag)

theorem stepEnds_of_inTag (inside : scanner.inTag = true)
    (ends : TagEnds tag scanner event next) : StepEnds scanner event next := by
  have pending : scanner.pending = Byte.less :: scanner.rest := by rw [pending, if_pos inside]
  cases ends with
  | missing nothing lacks =>
      apply StepEnds.missing nothing
      intro closes
      exact ⟨scanner.rest, pending, lacks closes⟩
  | @found content inText split any cut =>
      have whole : scanner.rest = (content ++ [Byte.greater]) ++ next.rest := by
        rw [split, List.append_assoc, List.singleton_append]
      apply StepEnds.found whole
      · intro other
        rw [step, inTag_withRest, if_pos inside, List.append_assoc, List.singleton_append, any]
      · rw [pending, Scanner.pending, inText, if_neg Bool.false_ne_true, whole]
        exact (List.suffix_append _ next.rest).trans (List.suffix_cons Byte.less _)
      · intro closes
        obtain ⟨_, offset, read⟩ := cut closes
        refine ⟨content, offset, rfl, ?_⟩
        rw [step, inTag_withRest, if_pos inside, read]

theorem stepEnds_of_less (outside : scanner.inTag = false) {rest : Bytes}
    (front : scanner.rest = Byte.less :: rest)
    (ends : TagEnds tag { scanner with rest := rest, offset := scanner.offset + 1, inTag := true }
      event next) : StepEnds scanner event next := by
  have pending : scanner.pending = Byte.less :: rest := by
    rw [pending, outside, if_neg Bool.false_ne_true, front]
  have enters : ∀ other, (scanner.withRest (Byte.less :: other)).step =
      tag (withRest { scanner with offset := scanner.offset + 1, inTag := true } other) := by
    intro other
    rw [step, inTag_withRest, outside, rest_withRest]
    rfl
  cases ends with
  | missing nothing lacks =>
      apply StepEnds.missing nothing
      intro closes
      exact ⟨rest, pending, lacks closes⟩
  | @found content inText split any cut =>
      have whole : scanner.rest = (Byte.less :: (content ++ [Byte.greater])) ++ next.rest := by
        rw [front, List.cons_append, List.append_assoc]
        exact congrArg (Byte.less :: ·) split
      apply StepEnds.found whole
      · intro other
        rw [List.cons_append, enters, List.append_assoc]
        exact any other
      · rw [Scanner.pending, inText, if_neg Bool.false_ne_true, pending, ← front, whole]
        exact List.suffix_append _ next.rest
      · intro closes
        obtain ⟨_, offset, read⟩ := cut closes
        refine ⟨Byte.less :: content, offset, rfl, ?_⟩
        rw [enters]
        exact read

theorem stepEnds_of_text (outside : scanner.inTag = false) {b : UInt8} {rest : Bytes}
    (front : scanner.rest = b :: rest) (notLess : b ≠ Byte.less)
    (read : scanner.text = .event event next) : StepEnds scanner event next := by
  have stays : ∀ other : Scanner, other.inTag = false → other.rest.head? = some b →
      other.step = other.text := by
    intro other outside head
    obtain ⟨more, front⟩ := List.head?_eq_some_iff.1 head
    rw [step, outside, front]
    simp only [Bool.false_eq_true, notLess, if_false]
  have open' : ∀ raw, ¬ (Event.text raw).Closes := by
    intro raw closes
    cases closes
  rw [text] at read
  cases ended : upTo Byte.less scanner.rest with
  | mk content after =>
      simp only [ended] at read
      cases read
      cases after with
      | none =>
          apply StepEnds.missing
          · rfl
          · intro closes
            exact absurd closes (open' content)
      | some after =>
          obtain ⟨split, free⟩ := upTo_eq_some ended
          have whole : scanner.rest = (content ++ [Byte.less]) ++ after := by
            rw [split, List.append_assoc, List.singleton_append]
          have head : (content ++ [Byte.less]).head? = some b := by
            rw [front] at split
            cases content with
            | nil => exact absurd (List.cons.inj split).1 notLess
            | cons c content => exact congrArg some (List.cons.inj split).1.symm
          apply StepEnds.found whole
          · intro other
            rw [stays]
            · simp only [text, rest_withRest, List.append_assoc, List.singleton_append,
                upTo_append free]
              rfl
            · exact outside
            · rw [rest_withRest, List.head?_append, head, Option.some_or]
          · rw [Scanner.pending, Scanner.pending, outside, if_neg Bool.false_ne_true, split]
            exact List.suffix_append content (Byte.less :: after)
          · intro closes
            exact absurd closes (open' content)

theorem stepEnds (read : scanner.step = .event event next) : StepEnds scanner event next := by
  rw [step] at read
  by_cases inside : scanner.inTag = true
  · rw [if_pos inside] at read
    exact stepEnds_of_inTag inside (tagEnds_tag read)
  · rw [if_neg inside] at read
    have outside : scanner.inTag = false := Bool.eq_false_iff.2 inside
    cases front : scanner.rest with
    | nil =>
        rw [front] at read
        cases read
    | cons b rest =>
        simp only [front] at read
        by_cases isLess : b = Byte.less
        · subst isLess
          rw [if_pos rfl] at read
          exact stepEnds_of_less outside front (tagEnds_tag read)
        · rw [if_neg isLess] at read
          exact stepEnds_of_text outside front isLess read

end Scanner

end ConfigDecl.Markup

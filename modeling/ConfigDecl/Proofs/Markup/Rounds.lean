import ConfigDecl.Proofs.Markup.Locality
import ConfigDecl.Proofs.Markup.Pile
import Mathlib

/-! # Rounds of reading

A source is read in rounds.  Each takes one event from the scanner and puts it on
the pile, and goes on unless the source has ended, there is a fault, or the root
is complete.  No round is told how many there are to be: what ends them is that
every event takes something off the source. -/

set_option autoImplicit false

namespace ConfigDecl.Markup

/-! ## One event on the pile -/

/-- The pile takes up a content if an element is open. -/
def takeUp (content : Except Fault String) : List OpenElement → Except Fault Advance
  | [] => .ok (.piled [])
  | element :: outer => content.map fun text => .piled (element.addText text :: outer)

def Event.advance (pile : List OpenElement) : Event → Except Fault Advance
  | .start tag => tag.decode.map fun named => .piled (.new named :: pile)
  | .empty tag => tag.decode.map fun named => settle (OpenElement.new named).closed pile
  | .close =>
      match pile with
      | [] => .ok (.piled [])
      | element :: outer => .ok (settle element.closed outer)
  | .text raw => takeUp (decodeText raw) pile
  | .cdata raw => takeUp (decodeBytes raw) pile
  | .skipped => .ok (.piled pile)

theorem failure?_takeUp (content : Except Fault String) (pile : List OpenElement) :
    Attempt.failure? (takeUp content pile) =
      if names pile = [] then none else Attempt.failure? content := by
  cases pile with
  | nil => rfl
  | cons element outer => cases content <;> rfl

theorem failure?_advance (pile : List OpenElement) (event : Event) :
    Attempt.failure? (event.advance pile) = event.fault? (names pile) := by
  cases event with
  | start tag =>
      rw [Event.advance, Event.fault?]
      cases tag.decode <;> rfl
  | empty tag =>
      rw [Event.advance, Event.fault?]
      cases tag.decode <;> rfl
  | close => cases pile <;> rfl
  | text raw => exact failure?_takeUp (decodeText raw) pile
  | cdata raw => exact failure?_takeUp (decodeBytes raw) pile
  | skipped => rfl

theorem advances_of_takeUp {event : Event} {content : Except Fault String}
    (adds : event.content? = some content) {pile : List OpenElement} {next : Advance}
    (taken : takeUp content pile = .ok next) : Advances pile event next := by
  cases pile with
  | nil =>
      cases taken
      have tagless : event.tag? = none := by cases event <;> first | rfl | cases adds
      exact .outside tagless
  | cons element outer =>
      obtain ⟨text, decoded, rfl⟩ := Attempt.map_eq_ok_iff.1 taken
      rw [decoded] at adds
      exact .content adds

theorem advances_of_advance {pile : List OpenElement} {event : Event} {next : Advance}
    (advanced : event.advance pile = .ok next) : Advances pile event next := by
  cases event with
  | start tag =>
      obtain ⟨named, decoded, rfl⟩ := Attempt.map_eq_ok_iff.1 advanced
      exact .start decoded
  | empty tag =>
      obtain ⟨named, decoded, rfl⟩ := Attempt.map_eq_ok_iff.1 advanced
      exact .empty decoded
  | close =>
      cases pile with
      | nil =>
          cases advanced
          exact .outside rfl
      | cons element outer =>
          cases advanced
          exact .close
  | text raw => exact advances_of_takeUp rfl advanced
  | cdata raw => exact advances_of_takeUp rfl advanced
  | skipped =>
      cases advanced
      exact .skipped

/-! ## One round -/

structure Assembler where
  pile : List OpenElement
  scanner : Scanner

inductive Round where
  | last (outcome : Except ReadError Element)
  | further (later : Assembler)

/-- The error for a source that ends, so many bytes of it consumed, with the
elements of the pile open. -/
def endError (offset : Nat) : List OpenElement → ReadError
  | [] => .missingRoot
  | innermost :: _ => .malformed (.unfinished (.element innermost.name)) offset

namespace Assembler

def ofSource (delivery : Delivery) (source : Bytes) : Assembler :=
  ⟨[], Scanner.ofSource delivery source⟩

def round (assembler : Assembler) : Round :=
  match assembler.scanner.step with
  | .done offset => .last (.error (endError offset assembler.pile))
  | .fault fault offset => .last (.error (.malformed fault offset))
  | .event event next =>
      match event.advance assembler.pile with
      | .error fault => .last (.error (.malformed fault (event.place next.offset)))
      | .ok (.root element) => .last (.ok element)
      | .ok (.piled pile) => .further ⟨pile, next⟩

def outcome (assembler : Assembler) : Except ReadError Element :=
  assemble assembler.pile assembler.scanner.stream

end Assembler

def Round.outcome : Round → Except ReadError Element
  | .last outcome => outcome
  | .further later => later.outcome

namespace Assembler

theorem round_of_fault {assembler : Assembler} {next : Scanner} {event : Event} {fault : Fault}
    (read : assembler.scanner.step = .event event next)
    (faulty : event.fault? (names assembler.pile) = some fault) :
    assembler.round = .last (.error (.malformed fault (event.place next.offset))) := by
  rw [← failure?_advance, Attempt.failure?_eq_some_iff] at faulty
  simp only [round, read, faulty]

theorem outcome_round (assembler : Assembler) : assembler.round.outcome = assembler.outcome := by
  rw [round, outcome, Scanner.stream_eq]
  cases assembler.scanner.step with
  | done offset => cases assembler.pile <;> rfl
  | fault fault offset => rfl
  | event event next =>
      dsimp only
      cases advanced : event.advance assembler.pile with
      | error fault =>
          have faulty : event.fault? (names assembler.pile) = some fault := by
            rw [← failure?_advance, advanced, Attempt.failure?_error]
          rw [assemble_of_fault faulty]
          rfl
      | ok advance =>
          rw [assemble_of_advances (advances_of_advance advanced)]
          cases advance <;> rfl

end Assembler

/-! ## Progress -/

namespace Scanner

variable {scanner next : Scanner} {event : Event} {offset : Nat}

theorem declaration_ne_done : scanner.declaration ≠ .done offset := by
  intro ended
  unfold declaration at ended
  split at ended
  · cases ended
  · split at ended
    · cases ended
    · split at ended
      · cases ended
      · dsimp only at ended
        split at ended <;> cases ended

theorem endTag_ne_done : scanner.endTag ≠ .done offset := by
  intro ended
  unfold endTag at ended
  dsimp only at ended
  split at ended
  · cases ended
  · split at ended <;> cases ended

theorem instruction_ne_done : scanner.instruction ≠ .done offset := by
  intro ended
  unfold instruction at ended
  dsimp only at ended
  split at ended <;> cases ended

theorem elementTag_ne_done : scanner.elementTag ≠ .done offset := by
  intro ended
  unfold elementTag at ended
  dsimp only at ended
  split at ended <;> cases ended

theorem rest_of_tag_done (ended : scanner.tag = .done offset) : scanner.rest = [] := by
  unfold tag at ended
  split at ended
  · next nothing => exact nothing
  · split at ended
    · exact absurd ended declaration_ne_done
    split at ended
    · exact absurd ended endTag_ne_done
    split at ended
    · exact absurd ended instruction_ne_done
    · exact absurd ended elementTag_ne_done

/-- The source has ended where nothing is left but perhaps the `<` of a tag. -/
theorem pending_of_done (ended : scanner.step = .done offset) :
    scanner.pending = [] ∨ scanner.pending = [Byte.less] := by
  rw [step] at ended
  rw [pending]
  by_cases inside : scanner.inTag = true
  · rw [if_pos inside] at ended ⊢
    exact .inr (congrArg (Byte.less :: ·) (rest_of_tag_done ended))
  · rw [if_neg inside] at ended ⊢
    cases front : scanner.rest with
    | nil => exact .inl rfl
    | cons b rest =>
        simp only [front] at ended
        by_cases isLess : b = Byte.less
        · rw [if_pos isLess] at ended
          have nothing : rest = [] := rest_of_tag_done ended
          rw [isLess, nothing]
          exact .inr rfl
        · rw [if_neg isLess] at ended
          cases ended

theorem exists_used_of_step (read : scanner.step = .event event next) :
    ∃ used, used ≠ [] ∧ scanner.rest = used ++ next.rest := by
  have shorter := step_rest_lt read
  obtain ⟨used, split⟩ : ∃ used, scanner.rest = used ++ next.rest := by
    cases stepEnds read with
    | found split _ _ _ => exact ⟨_, split⟩
    | missing nothing _ => exact ⟨scanner.rest, by rw [nothing, List.append_nil]⟩
  refine ⟨used, ?_, split⟩
  rintro rfl
  rw [split, List.nil_append] at shorter
  exact Nat.lt_irrefl _ shorter

end Scanner

namespace Assembler

/-- Only an event without a fault makes a further round, and then less is left. -/
theorem rest_lt_of_round {assembler later : Assembler}
    (further : assembler.round = .further later) :
    later.scanner.rest.length < assembler.scanner.rest.length := by
  rw [round] at further
  cases read : assembler.scanner.step with
  | done offset =>
      rw [read] at further
      cases further
  | fault fault offset =>
      rw [read] at further
      cases further
  | event event next =>
      simp only [read] at further
      cases advanced : event.advance assembler.pile with
      | error fault =>
          rw [advanced] at further
          cases further
      | ok advance =>
          rw [advanced] at further
          cases advance with
          | root element => cases further
          | piled pile =>
              cases further
              exact Scanner.step_rest_lt read

/-- From nowhere do the rounds go on for ever. -/
theorem wellFounded_round :
    WellFounded fun later assembler : Assembler => assembler.round = .further later :=
  Subrelation.wf rest_lt_of_round
    (measure fun assembler : Assembler => assembler.scanner.rest.length).wf

end Assembler

/-! ## All rounds -/

/-- Reading ends after exactly so many rounds, with that outcome. -/
inductive Runs : Assembler → Nat → Except ReadError Element → Prop where
  | last {assembler : Assembler} {outcome : Except ReadError Element}
      (ended : assembler.round = .last outcome) : Runs assembler 1 outcome
  | further {assembler later : Assembler} {rounds : Nat} {outcome : Except ReadError Element}
      (goesOn : assembler.round = .further later) (runs : Runs later rounds outcome) :
      Runs assembler (rounds + 1) outcome

namespace Runs

variable {assembler : Assembler} {rounds : Nat} {outcome : Except ReadError Element}

theorem outcome_eq (runs : Runs assembler rounds outcome) : outcome = assembler.outcome := by
  induction runs with
  | last ended =>
      rw [← Assembler.outcome_round, ended]
      rfl
  | @further assembler later _ _ goesOn _ ih =>
      rw [← Assembler.outcome_round assembler, goesOn]
      exact ih

theorem rounds_unique (runs : Runs assembler rounds outcome) {rounds' : Nat}
    {outcome' : Except ReadError Element} (runs' : Runs assembler rounds' outcome') :
    rounds' = rounds := by
  induction runs generalizing rounds' with
  | last ended =>
      cases runs' with
      | last _ => rfl
      | further goesOn _ =>
          rw [ended] at goesOn
          cases goesOn
  | further goesOn _ ih =>
      cases runs' with
      | last ended =>
          rw [goesOn] at ended
          cases ended
      | further goesOn' runs' =>
          rw [goesOn] at goesOn'
          cases goesOn'
          rw [ih runs']

/-- There is at most one round for each byte that is left, and one more. -/
theorem rounds_le (runs : Runs assembler rounds outcome) :
    rounds ≤ assembler.scanner.rest.length + 1 := by
  induction runs with
  | last _ => exact Nat.le_add_left 1 _
  | further goesOn _ ih =>
      have shorter := Assembler.rest_lt_of_round goesOn
      omega

end Runs

theorem exists_runs (assembler : Assembler) :
    ∃ rounds, Runs assembler rounds assembler.outcome := by
  induction assembler using Assembler.wellFounded_round.induction with
  | _ assembler ih =>
      -- `ih` is for the assemblers with less left, to which alone a round leads.
      rw [← Assembler.outcome_round]
      cases round : assembler.round with
      | last outcome => exact ⟨1, .last round⟩
      | further later =>
          obtain ⟨rounds, runs⟩ := ih later round
          exact ⟨rounds + 1, .further round runs⟩

theorem runs_iff {assembler : Assembler} {rounds : Nat}
    (runs : Runs assembler rounds assembler.outcome) (count : Nat)
    (outcome : Except ReadError Element) :
    Runs assembler count outcome ↔ count = rounds ∧ outcome = assembler.outcome := by
  constructor
  · intro runs'
    exact ⟨runs.rounds_unique runs', runs'.outcome_eq⟩
  · rintro ⟨rfl, rfl⟩
    exact runs

/-- Reading ends on every source.  An event takes something off it.  The end of the
source, which is where nothing is left, and every fault make the round the last
one, whichever elements are open.  So there is one number of rounds, at most one
for each byte and one more, after which there is an outcome, and that is what is
read. -/
theorem read_ends_on_every_source :
    (∀ scanner : Scanner,
      (∀ event next, scanner.step = .event event next →
        ∃ used, used ≠ [] ∧ scanner.rest = used ++ next.rest) ∧
      (∀ offset, scanner.step = .done offset →
        scanner.pending = [] ∨ scanner.pending = [Byte.less]) ∧
      ∀ pile : List OpenElement,
        (∀ offset, scanner.step = .done offset →
          Runs ⟨pile, scanner⟩ 1 (.error (endError offset pile))) ∧
        (∀ fault offset, scanner.step = .fault fault offset →
          Runs ⟨pile, scanner⟩ 1 (.error (.malformed fault offset))) ∧
        ∀ event next fault, scanner.step = .event event next →
          event.fault? (names pile) = some fault →
          Runs ⟨pile, scanner⟩ 1 (.error (.malformed fault (event.place next.offset)))) ∧
    ∀ (delivery : Delivery) (source : Bytes), ∃ rounds, rounds ≤ source.length + 1 ∧
      ∀ count outcome, Runs (.ofSource delivery source) count outcome ↔
        count = rounds ∧ outcome = Element.read delivery source := by
  refine ⟨?_, ?_⟩
  · intro scanner
    refine ⟨fun _ _ => Scanner.exists_used_of_step, fun _ => Scanner.pending_of_done, ?_⟩
    intro pile
    refine ⟨?_, ?_, ?_⟩
    · intro offset ended
      apply Runs.last
      rw [Assembler.round, ended]
    · intro fault offset faulty
      apply Runs.last
      rw [Assembler.round, faulty]
    · intro event next fault read faulty
      exact .last (Assembler.round_of_fault read faulty)
  · intro delivery source
    obtain ⟨rounds, runs⟩ := exists_runs (.ofSource delivery source)
    have within : (Scanner.ofSource delivery source).rest.length ≤ source.length := by
      rw [Scanner.ofSource, List.length_drop]
      exact Nat.sub_le _ _
    exact ⟨rounds, Nat.le_trans runs.rounds_le (Nat.succ_le_succ within), runs_iff runs⟩

/-- A byte order mark, a tag without a name, and a tag that the source ends in. -/
def unendedTag : Bytes := Scanner.byteOrderMark ++ Byte.ofAscii "<><a"

/-- Rounds of reading that source, an end tag with no element open, and a
reference that lacks its end. -/
theorem read_ends_unendedTag :
    (∃ used, used ≠ [] ∧ unendedTag.drop 3 = used ++ Byte.ofAscii "<a") ∧
    Runs ⟨[.new ("a", []), .new ("", [])],
        ⟨[], 3, 3, false, [Byte.ofAscii "a", []], .whole⟩⟩ 1
      (.error (.malformed (.unfinished (.element "a")) 3)) ∧
    Runs (.ofSource .whole (Byte.ofAscii "</a>")) 1
      (.error (.malformed (.mismatchedEnd "" "a") 2)) ∧
    Runs ⟨[.new ("a", [])], ⟨Byte.ofAscii "&", 0, 3, false, [Byte.ofAscii "a"], .whole⟩⟩ 1
      (.error (.malformed (.badReference (.unterminated 0 1)) 3)) ∧
    ∃ rounds, rounds ≤ 8 ∧ ∀ count outcome,
      Runs (.ofSource .whole unendedTag) count outcome ↔
        count = rounds ∧ outcome = .error (.malformed (.unfinished (.element "a")) 3) := by
  have start : (Scanner.ofSource .whole unendedTag).step = .event (.start ⟨[], []⟩)
      ⟨Byte.ofAscii "<a", 3, 2, false, [[]], .whole⟩ := by decide
  have ended : Scanner.step ⟨[], 3, 3, false, [Byte.ofAscii "a", []], .whole⟩ = .done 3 := by
    decide
  have mismatched : (Scanner.ofSource .whole (Byte.ofAscii "</a>")).step =
      .fault (.mismatchedEnd "" "a") 2 := by cbv
  have text : Scanner.step ⟨Byte.ofAscii "&", 0, 3, false, [Byte.ofAscii "a"], .whole⟩ =
      .event (.text (Byte.ofAscii "&")) ⟨[], 0, 4, true, [Byte.ofAscii "a"], .whole⟩ := by decide
  have faulty : (Event.text (Byte.ofAscii "&")).fault? (names [.new ("a", [])]) =
      some (.badReference (.unterminated 0 1)) := by cbv
  have made : Element.read .whole unendedTag =
      .error (.malformed (.unfinished (.element "a")) 3) := by cbv
  have ends := read_ends_on_every_source.2 .whole unendedTag
  rw [made] at ends
  refine ⟨(read_ends_on_every_source.1 _).1 _ _ start, ?_, ?_, ?_, ends⟩
  · exact ((read_ends_on_every_source.1 _).2.2 _).1 _ ended
  · exact ((read_ends_on_every_source.1 _).2.2 _).2.1 _ _ mismatched
  · exact ((read_ends_on_every_source.1 _).2.2 _).2.2 _ _ _ text faulty

end ConfigDecl.Markup

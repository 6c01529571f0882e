import ConfigDecl.Proofs.Markup.Grammar
import Mathlib

/-! # Elements are assembled by the grammar

A run over the events of a source with a pile of open elements comes to what the
grammar of documents says of them. -/

set_option autoImplicit false

namespace ConfigDecl.Markup

/-- The events of a stream that closes nothing that is not open are read by the
grammar, and those of a source are such a stream.  The elements of the root are
those of the tags up to its end, in pre-order, and nothing after its end matters;
what fails, fails with the first fault. -/
theorem assemble_reads_grammar :
    (∀ (delivery : Delivery) (source : Bytes) (outcome : Except ReadError Element),
      Element.read delivery source = outcome ↔
        DocumentReads (Stream.ofSource delivery source) outcome) ∧
    ∀ stream : Stream, stream.Nested 0 →
      (∀ outcome, assemble [] stream = outcome ↔ DocumentReads stream outcome) ∧
      (∀ root, assemble [] stream = .ok root →
        ((stream.throughRoot []).filterMap Event.tag?).map Tag.decode =
            root.preorder.map Except.ok ∧
          ∀ other : Stream, other.throughRoot [] = stream.throughRoot [] →
            assemble [] other = .ok root) ∧
      Attempt.failure? (assemble [] stream) = (stream.faults []).head? := by
  refine ⟨?_, ?_⟩
  · intro delivery source outcome
    exact assemble_eq_iff_documentReads (nested_ofSource delivery source) outcome
  · intro stream nested
    refine ⟨assemble_eq_iff_documentReads nested, ?_, failure?_assemble [] stream⟩
    intro root made
    refine ⟨?_, ?_⟩
    · rw [preorder_assemble made]
      rfl
    · intro other same
      exact assemble_of_throughRoot_eq made same

def scattered : Stream :=
  let name (text : String) (attributes : String) : Tag :=
    ⟨Byte.ofAscii text, Byte.ofAscii attributes⟩
  .next (.text (Byte.ofAscii "&")) 2 <|
  .next (.start (name "a" " k='1'")) 10 <|
  .next (.text (Byte.ofAscii "x&lt;")) 16 <|
  .next .skipped 22 <|
  .next (.cdata (Byte.ofAscii "&")) 36 <|
  .next (.start (name "b" "")) 39 <|
  .next (.empty (name "c" "")) 43 <|
  .next (.text (Byte.ofAscii "y")) 45 <|
  .next .close 48 <|
  .next (.text (Byte.ofAscii "z")) 50 <|
  .next .close 53 <|
  -- The root is complete; what comes behind it has a fault.
  .faulty (.unfinished .comment) 55

theorem assemble_scattered :
    scattered.Nested 0 ∧
      DocumentReads scattered
        (.ok ⟨"a", [("k", "1")], some "x<&", [⟨"b", [], none, [⟨"c", [], none, []⟩]⟩]⟩) := by
  have nested : scattered.Nested 0 := by simp [scattered, Stream.Nested]
  refine ⟨nested, ((assemble_reads_grammar.2 scattered nested).1 _).1 ?_⟩
  cbv

end ConfigDecl.Markup

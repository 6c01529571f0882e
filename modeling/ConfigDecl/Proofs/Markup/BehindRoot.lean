import ConfigDecl.Configuration.Run
import ConfigDecl.Markup.Lowering
import ConfigDecl.Proofs.Markup.RootEnd

/-! # What stands behind the root

The root of a source is known with the `>` of the tag that closes it.  Whatever
stands behind that, well-formed or not, the root read is the same, and so is all
that is made of it. -/

set_option autoImplicit false

namespace ConfigDecl.Markup

variable {delivery : Delivery}

/-- The tag that closes the root ends at a `>`, and with that the source is so long. -/
def ClosesAt (delivery : Delivery) (source : Bytes) (length : Nat) : Prop :=
  ∃ consumed events left, source = consumed ++ Byte.greater :: left ∧
    length = consumed.length + 1 ∧ RootEnds [] (Scanner.ofSource delivery source) events left

theorem closesAt_unique {source : Bytes} {length length' : Nat}
    (closes : ClosesAt delivery source length) (closes' : ClosesAt delivery source length') :
    length' = length := by
  obtain ⟨consumed, events, left, whole, rfl, ends⟩ := closes
  obtain ⟨consumed', events', left', whole', rfl, ends'⟩ := closes'
  obtain ⟨_, rfl⟩ := ends.unique ends'
  rw [whole] at whole'
  rw [List.append_cancel_right whole']

theorem existsUnique_closesAt {source : Bytes} (complete : Complete delivery source) :
    ∃! length, ClosesAt delivery source length := by
  obtain ⟨consumed, events, left, whole, ends⟩ := complete
  have closes : ClosesAt delivery source (consumed.length + 1) :=
    ⟨consumed, events, left, whole, rfl, ends⟩
  exact ⟨_, closes, fun length' closes' => closesAt_unique closes closes'⟩

theorem read_take_append {source : Bytes} {root : Element} {length : Nat}
    (made : Element.read delivery source = .ok root) (closes : ClosesAt delivery source length)
    (behind : Bytes) : Element.read delivery (source.take length ++ behind) = .ok root := by
  obtain ⟨consumed, events, left, rfl, rfl, ends⟩ := closes
  have front : (consumed ++ Byte.greater :: left).take (consumed.length + 1) ++ behind =
      consumed ++ Byte.greater :: behind := by
    rw [List.take_length_add_append, List.take_succ_cons, List.take_zero, List.append_assoc,
      List.singleton_append]
  rw [front]
  exact read_of_rootEnds ends ((rootEnds_behind ends).1 behind) made

/-- An accepted source whose closing tag is not cut short closes its root at one
place, and up to there it is enough to know the root, the document and what comes
of that, whatever is put behind. -/
theorem read_whatever_follows {source : Bytes} {root : Element}
    (made : Element.read delivery source = .ok root) :
    (¬ CutShort delivery source → ∃! length, ClosesAt delivery source length) ∧
      ∀ length, ClosesAt delivery source length → ∀ behind : Bytes,
        Element.read delivery (source.take length ++ behind) = .ok root ∧
          readDocument delivery (source.take length ++ behind) = readDocument delivery source ∧
          (readDocument delivery (source.take length ++ behind)).map Configuration.run =
            .ok (Configuration.run root.document) := by
  constructor
  · intro uncut
    obtain ⟨events, left, ends⟩ := exists_rootEnds made
    rcases complete_or_cutShort ends with complete | cut
    · exact existsUnique_closesAt complete
    · exact absurd cut uncut
  · intro length closes behind
    have again := read_take_append made closes behind
    rw [readDocument, readDocument, again, made]
    exact ⟨rfl, rfl, rfl⟩

theorem read_rootThenRubbish :
    ClosesAt .whole (Byte.ofAscii "<a>x</a>\n") 8 ∧
      Element.read .whole (Byte.ofAscii "<a>x</a></b>" ++ [0xFF]) =
        .ok ⟨"a", [], some "x", []⟩ := by
  have start : (Scanner.ofSource .whole (Byte.ofAscii "<a>x</a>\n")).step =
      .event (.start ⟨Byte.ofAscii "a", []⟩)
        ⟨Byte.ofAscii "x</a>\n", 0, 3, false, [Byte.ofAscii "a"], .whole⟩ := by decide
  have text : Scanner.step ⟨Byte.ofAscii "x</a>\n", 0, 3, false, [Byte.ofAscii "a"], .whole⟩ =
      .event (.text (Byte.ofAscii "x"))
        ⟨Byte.ofAscii "/a>\n", 0, 5, true, [Byte.ofAscii "a"], .whole⟩ := by decide
  have close : Scanner.step ⟨Byte.ofAscii "/a>\n", 0, 5, true, [Byte.ofAscii "a"], .whole⟩ =
      .event .close ⟨Byte.ofAscii "\n", 0, 8, false, [], .whole⟩ := by decide
  have named : (Event.start ⟨Byte.ofAscii "a", []⟩).opened? [] = some ["a"] := by cbv
  have closes : ClosesAt .whole (Byte.ofAscii "<a>x</a>\n") 8 :=
    ⟨Byte.ofAscii "<a>x</a", _, Byte.ofAscii "\n", by decide, by decide,
      .later start named (.later text rfl (.here close rfl))⟩
  have made : Element.read .whole (Byte.ofAscii "<a>x</a>\n") = .ok ⟨"a", [], some "x", []⟩ := by
    cbv
  have rubbish : (Byte.ofAscii "<a>x</a>\n").take 8 ++ (Byte.ofAscii "</b>" ++ [0xFF]) =
      Byte.ofAscii "<a>x</a></b>" ++ [0xFF] := by decide
  -- Behind the end tag of the root come one more and a byte that is no text.
  rw [← rubbish]
  exact ⟨closes, ((read_whatever_follows made).2 8 closes _).1⟩

end ConfigDecl.Markup

import ConfigDecl.Proofs.Markup.Locality
import ConfigDecl.Proofs.Markup.Scanning

/-! # Comments, instructions and sections

What is written as a comment or a processing instruction is passed over as one
event, and what is written as a CDATA section comes out as it is, as long as the
end does not come too early. -/

set_option autoImplicit false

namespace ConfigDecl.Markup

/-- A comment or a processing instruction as it is written.  A comment may be empty,
an instruction has content: `<??>` is too short for one. -/
inductive Aside : Bytes → Prop where
  | comment {content : Bytes} (unended : ¬ Byte.ofAscii "-->" <:+: content) :
      Aside (Byte.ofAscii "<!--" ++ content ++ Byte.ofAscii "-->")
  | instruction {content : Bytes} (filled : content ≠ []) (unended : Byte.greater ∉ content) :
      Aside (Byte.ofAscii "<?" ++ content ++ Byte.ofAscii "?>")

/-- A CDATA section as it is written. -/
def cdataSection (content : Bytes) : Bytes :=
  Byte.ofAscii "<![CDATA[" ++ content ++ Byte.ofAscii "]]>"

/-! ## Ends that do not come too early -/

/-- A closing mark that ends before the last one is inside the content. -/
theorem infix_of_append_eq {mark content before after : Bytes} (free : Byte.greater ∉ mark)
    (split : content ++ mark = before ++ mark ++ Byte.greater :: after) :
    mark ++ [Byte.greater] <:+: content := by
  have whole : content ++ mark = (before ++ mark ++ [Byte.greater]) ++ after := by
    rw [split, List.append_assoc (before ++ mark), List.singleton_append]
  rcases List.append_eq_append_iff.1 whole with ⟨more, longer, rest⟩ | ⟨more, longer, _⟩
  · cases more with
    | nil =>
        rw [List.append_nil] at longer
        exact ⟨before, [], by rw [List.append_nil, ← longer, List.append_assoc]⟩
    | cons b more =>
        -- The `>` would be in the mark.
        exfalso
        apply free
        have last : (b :: more).getLast? = some Byte.greater := by
          have same := congrArg List.getLast? longer
          rw [List.getLast?_concat, List.getLast?_append, List.getLast?_cons,
            Option.some_or] at same
          rw [List.getLast?_cons, ← same]
        rw [rest]
        exact List.mem_append_left _ (List.mem_of_getLast? last)
  · exact ⟨before, more, by rw [longer, List.append_assoc before mark]⟩

theorem upToClosing_of_unended {closes : Bytes → Bool} (opening : Bytes) {mark content : Bytes}
    (free : Byte.greater ∉ mark) (unended : ¬ mark ++ [Byte.greater] <:+: content)
    (closed : closes (Byte.bang :: opening ++ content ++ mark).reverse = true)
    (only : ∀ before, before <+: Byte.bang :: opening ++ (content ++ mark) →
      closes before.reverse = true → ∃ front, before = Byte.bang :: opening ++ front ++ mark)
    (after : Bytes) :
    upToClosing closes [Byte.bang] (opening ++ content ++ mark ++ Byte.greater :: after) =
      some (Byte.bang :: opening ++ content ++ mark, after) := by
  apply upToClosing_eq_some_iff.2
  refine ⟨opening ++ content ++ mark, rfl, rfl, ?_, ?_⟩
  · rw [← List.reverse_cons]
    exact closed
  · intro inner later split
    rw [← List.reverse_cons]
    by_contra early
    have part : Byte.bang :: inner <+: Byte.bang :: opening ++ (content ++ mark) := by
      rw [List.cons_append, ← List.append_assoc, split]
      exact List.prefix_append (Byte.bang :: inner) _
    obtain ⟨front, same⟩ := only _ part (Bool.not_eq_false _ ▸ early)
    apply unended
    have whole : Byte.bang :: opening ++ (content ++ mark) =
        Byte.bang :: opening ++ (front ++ mark ++ Byte.greater :: later) := by
      rw [List.cons_append, ← List.append_assoc, split, ← List.cons_append, same]
      simp only [List.append_assoc, List.cons_append]
    exact infix_of_append_eq free (List.append_cancel_left whole)

/-- What begins with the opening and has more than that before the mark is the
opening, and then the mark. -/
theorem exists_front {opening mark content before front : Bytes}
    (part : before <+: opening ++ content) (split : before = front ++ mark)
    (long : opening.length ≤ front.length) : ∃ inner, before = opening ++ inner ++ mark := by
  have begins : front <+: opening ++ content := by
    rw [split] at part
    exact (List.prefix_append front mark).trans part
  have opens := List.prefix_append opening content
  obtain ⟨inner, rfl⟩ := List.prefix_of_prefix_length_le opens begins long
  exact ⟨inner, split⟩

theorem tag_of_declaration {scanner : Scanner} {kind : DeclarationKind} {event : Event} {b : UInt8}
    {rest content after : Bytes} (front : scanner.rest = Byte.bang :: b :: rest)
    (ofKind : DeclarationKind.ofByte b = .ok kind)
    (closing : upToClosing (scanner.closes kind) [Byte.bang] (b :: rest) = some (content, after))
    (made : kind.event content = .ok event) :
    scanner.tag = .event event (scanner.inText after (scanner.offset + content.length + 1)) := by
  rw [Scanner.tag, front]
  simp only [if_true, Scanner.declaration, front, List.drop_one, List.tail_cons, ofKind, closing,
    made]

/-! ## Comments -/

theorem commentCloses_iff {bytes : Bytes} :
    commentCloses bytes.reverse = true ↔
      ∃ front, bytes = front ++ Byte.ofAscii "--" ∧ 3 ≤ front.length := by
  constructor
  · intro closes
    rw [← List.reverse_reverse bytes]
    match bytes.reverse, closes with
    | b :: a :: x :: y :: z :: front, closes =>
        rw [commentCloses, Bool.and_eq_true, beq_iff_eq, beq_iff_eq] at closes
        obtain ⟨rfl, rfl⟩ := closes
        refine ⟨(x :: y :: z :: front).reverse, ?_, ?_⟩
        · rw [List.reverse_cons, List.reverse_cons, List.append_assoc]
          rfl
        · simp only [List.length_reverse, List.length_cons]
          omega
    | [], fails | [_], fails | [_, _], fails | [_, _, _], fails | [_, _, _, _], fails => cases fails
  · rintro ⟨front, rfl, long⟩
    rw [List.reverse_append]
    rw [← List.length_reverse] at long
    match front.reverse, long with
    | _ :: _ :: _ :: _, _ => rfl
    | [], short | [_], short | [_, _], short =>
        simp only [List.length_cons, List.length_nil] at short
        omega

theorem event_comment (content : Bytes) :
    DeclarationKind.comment.event (commentOpening ++ content) = .ok .skipped := by
  rw [DeclarationKind.event]
  exact if_pos (List.isPrefixOf_iff_prefix.2 (List.prefix_append commentOpening content))

theorem tagReads_comment {content : Bytes} (unended : ¬ Byte.ofAscii "-->" <:+: content)
    (opened : List Bytes) (after : Bytes) :
    TagReads opened (Byte.ofAscii "!--" ++ content ++ Byte.ofAscii "-->" ++ after) .skipped opened
      after := by
  intro scanner open' whole
  have closed : commentCloses
      (Byte.bang :: Byte.ofAscii "--" ++ content ++ Byte.ofAscii "--").reverse = true := by
    refine commentCloses_iff.2 ⟨Byte.bang :: Byte.ofAscii "--" ++ content, rfl, ?_⟩
    rw [List.length_append]
    exact Nat.le_add_right 3 _
  have only : ∀ before,
      before <+: Byte.bang :: Byte.ofAscii "--" ++ (content ++ Byte.ofAscii "--") →
      commentCloses before.reverse = true →
        ∃ front, before = Byte.bang :: Byte.ofAscii "--" ++ front ++ Byte.ofAscii "--" := by
    intro before part closes
    obtain ⟨front, split, long⟩ := commentCloses_iff.1 closes
    exact exists_front part split long
  have closing := upToClosing_of_unended (Byte.ofAscii "--") (by decide) unended closed only after
  have front : scanner.rest = Byte.bang ::
      (Byte.ofAscii "--" ++ content ++ Byte.ofAscii "--" ++ Byte.greater :: after) := by
    rw [whole]
    simp only [List.append_assoc]
    rfl
  have made : DeclarationKind.comment.event
      (Byte.bang :: Byte.ofAscii "--" ++ content ++ Byte.ofAscii "--") = .ok .skipped := by
    rw [List.append_assoc]
    exact event_comment (content ++ Byte.ofAscii "--")
  exact ⟨_, tag_of_declaration front rfl closing made, rfl, open', rfl⟩

/-! ## Instructions -/

theorem tagReads_instruction {content : Bytes} (filled : content ≠ [])
    (unended : Byte.greater ∉ content) (opened : List Bytes) (after : Bytes) :
    TagReads opened (Byte.ofAscii "?" ++ content ++ Byte.ofAscii "?>" ++ after) .skipped opened
      after := by
  intro scanner open' whole
  have free : Byte.greater ∉ Byte.question :: content ++ [Byte.question] := by
    have differ : Byte.greater ≠ Byte.question := by decide
    simp [unended, differ]
  have front : scanner.rest =
      Byte.question :: content ++ [Byte.question] ++ Byte.greater :: after := by
    rw [whole]
    simp only [List.append_assoc]
    rfl
  have long : 2 < (Byte.question :: content ++ [Byte.question]).length := by
    have positive := List.length_pos_iff.2 filled
    simp only [List.length_append, List.length_cons, List.length_nil]
    omega
  have last : (Byte.question :: content ++ [Byte.question]).getLast? = some Byte.question :=
    List.getLast?_concat
  have read : scanner.instruction = .event .skipped (scanner.inText after (scanner.offset +
      Scanner.consumed (Byte.question :: content ++ [Byte.question]) (some after))) := by
    rw [Scanner.instruction, front, upTo_append free]
    exact if_pos ⟨long, last⟩
  refine ⟨_, Eq.trans ?_ read, rfl, open', rfl⟩
  rw [Scanner.tag, front]
  rfl

example : Element.read .whole (Byte.ofAscii "<a><??></a>") =
    .error (.malformed (.unfinished .instruction) 5) := by cbv

/-! ## Sections -/

theorem cdataCloses_iff {bytes : Bytes} :
    cdataCloses bytes.reverse = true ↔ ∃ front, bytes = front ++ Byte.ofAscii "]]" := by
  constructor
  · intro closes
    rw [← List.reverse_reverse bytes]
    match bytes.reverse, closes with
    | b :: a :: front, closes =>
        rw [cdataCloses, Bool.and_eq_true, beq_iff_eq, beq_iff_eq] at closes
        obtain ⟨rfl, rfl⟩ := closes
        refine ⟨front.reverse, ?_⟩
        rw [List.reverse_cons, List.reverse_cons, List.append_assoc]
        rfl
    | [], fails | [_], fails => cases fails
  · rintro ⟨front, rfl⟩
    rw [List.reverse_append]
    rfl

theorem event_cdata (content : Bytes) :
    DeclarationKind.cdata.event (Byte.ofAscii "![CDATA[" ++ content ++ Byte.ofAscii "]]") =
      .ok (.cdata content) := by
  have begins : startsWith cdataOpening
      ((Byte.ofAscii "![CDATA[" ++ content ++ Byte.ofAscii "]]").map Byte.lowered) = true := by
    rw [List.append_assoc, List.map_append]
    exact List.isPrefixOf_iff_prefix.2 (List.prefix_append cdataOpening _)
  have inner : (Byte.ofAscii "![CDATA[" ++ content ++ Byte.ofAscii "]]").drop cdataOpening.length =
      content ++ [Byte.closeBracket] ++ [Byte.closeBracket] := by
    have opening : (Byte.ofAscii "![CDATA[").length = cdataOpening.length := by decide
    rw [← opening, List.append_assoc, List.drop_left, List.append_assoc]
    rfl
  rw [DeclarationKind.event, if_pos begins, inner, List.dropLast_concat, List.dropLast_concat]

theorem tagReads_cdata {content : Bytes} (unended : ¬ Byte.ofAscii "]]>" <:+: content)
    (opened : List Bytes) (after : Bytes) :
    TagReads opened (Byte.ofAscii "![CDATA[" ++ content ++ Byte.ofAscii "]]>" ++ after)
      (.cdata content) opened after := by
  intro scanner open' whole
  have closed : cdataCloses
      (Byte.bang :: Byte.ofAscii "[CDATA[" ++ content ++ Byte.ofAscii "]]").reverse = true :=
    cdataCloses_iff.2 ⟨_, rfl⟩
  have only : ∀ before,
      before <+: Byte.bang :: Byte.ofAscii "[CDATA[" ++ (content ++ Byte.ofAscii "]]") →
      cdataCloses before.reverse = true →
        ∃ front, before = Byte.bang :: Byte.ofAscii "[CDATA[" ++ front ++ Byte.ofAscii "]]" := by
    intro before part closes
    obtain ⟨front, split⟩ := cdataCloses_iff.1 closes
    refine exists_front part split ?_
    by_contra short
    -- A bracket that closes would be in the opening.
    have first : front ++ [Byte.closeBracket] <+:
        Byte.bang :: Byte.ofAscii "[CDATA[" ++ (content ++ Byte.ofAscii "]]") := by
      refine List.IsPrefix.trans ⟨[Byte.closeBracket], ?_⟩ part
      rw [split, List.append_assoc]
      rfl
    have within := List.prefix_of_prefix_length_le first (List.prefix_append _ _) (by
      rw [List.length_append, List.length_singleton]
      omega)
    have member : Byte.closeBracket ∈ Byte.bang :: Byte.ofAscii "[CDATA[" :=
      within.subset (List.mem_append_right _ List.mem_cons_self)
    exact absurd member (by decide)
  have closing :=
    upToClosing_of_unended (Byte.ofAscii "[CDATA[") (by decide) unended closed only after
  have front : scanner.rest = Byte.bang ::
      (Byte.ofAscii "[CDATA[" ++ content ++ Byte.ofAscii "]]" ++ Byte.greater :: after) := by
    rw [whole]
    simp only [List.append_assoc]
    rfl
  exact ⟨_, tag_of_declaration front rfl closing (event_cdata content), rfl, open', rfl⟩

/-! ## Either -/

theorem tagReads_of_aside {aside : Bytes} (isAside : Aside aside) :
    ∃ tag, aside = Byte.less :: tag ∧
      ∀ opened after, TagReads opened (tag ++ after) .skipped opened after := by
  cases isAside with
  | comment unended => exact ⟨_, rfl, tagReads_comment unended⟩
  | instruction filled unended => exact ⟨_, rfl, tagReads_instruction filled unended⟩

end ConfigDecl.Markup

import ConfigDecl.Proofs.Markup.Asides
import ConfigDecl.Proofs.Markup.Continuation
import Mathlib

/-! # Equivalent markup

Comments and processing instructions may stand anywhere outside of tags, before
the root and in its content, and a text may be written as a CDATA section instead:
the root that is read stays the same.  An aside put into a text makes two texts of
it, which are decoded one by one, and taking it away makes one text of two. -/

set_option autoImplicit false

namespace ConfigDecl.Markup

open Text.Utf8 (encode)

/-! ## Rewritings -/

/-- What is before `after` in the source ends with a whole tag or the like and then
`text`, which is a text or the front part of one.  The elements of the pile are open
there: none before the root, and inside of it at least the root. -/
inductive OutsideTags (source : Bytes) : List OpenElement → Bytes → Bytes → Prop where
  | beginning : OutsideTags source [] [] source
  | behind {pile : List OpenElement} {scanner : Scanner} {text after : Bytes}
      (comes : Comes source pile scanner) (inText : scanner.inTag = false)
      (split : scanner.rest = text ++ after) (free : Byte.less ∉ text) :
      OutsideTags source pile text after

/-- The point before `after` is behind the `<` of a tag or the like, and before its end. -/
inductive InsideTag (source : Bytes) : Bytes → Prop where
  | intro {pile : List OpenElement} {scanner next : Scanner} {event : Event} {inner after : Bytes}
      (comes : Comes source pile scanner) (read : scanner.step = .event event next)
      (begun : scanner.pending = Byte.less :: (inner ++ after))
      (unended : next.rest.length < after.length) : InsideTag source after

inductive BehindRoot (source : Bytes) : Bytes → Prop where
  | intro {pile : List OpenElement} {scanner next : Scanner} {event : Event} {root : Element}
      {after : Bytes} (comes : Comes source pile scanner) (read : scanner.step = .event event next)
      (completes : Advances pile event (.root root)) (left : after <:+ next.rest) :
      BehindRoot source after

/-- The other source is written differently in one place.  An aside is not put
inside of a character or a reference of a text of the root, and only a whole text
of the root is made a section. -/
inductive Rewritten : Bytes → Bytes → Prop where
  | inserted {before after aside text : Bytes} {pile : List OpenElement}
      (outside : OutsideTags (before ++ after) pile text after)
      (parted : pile ≠ [] → Parted text after) (isAside : Aside aside) :
      Rewritten (before ++ after) (before ++ (aside ++ after))
  | removed {before after aside text : Bytes} {pile : List OpenElement}
      (outside : OutsideTags (before ++ (aside ++ after)) pile text (aside ++ after))
      (isAside : Aside aside) : Rewritten (before ++ (aside ++ after)) (before ++ after)
  | quoted {before raw after : Bytes} {content : String} {element : OpenElement}
      {outer : List OpenElement}
      (outside : OutsideTags (before ++ (raw ++ Byte.less :: after)) (element :: outer) []
        (raw ++ Byte.less :: after))
      (filled : raw ≠ []) (free : Byte.less ∉ raw) (decoded : decodeText raw = .ok content)
      (unended : ¬ Byte.ofAscii "]]>" <:+: encode content) :
      Rewritten (before ++ (raw ++ Byte.less :: after))
        (before ++ (cdataSection (encode content) ++ Byte.less :: after))

/-! ## Where a point may be -/

theorem not_mem_of_text {scanner next : Scanner} {event : Event} {first after : Bytes}
    (read : scanner.text = .event event next) (split : scanner.rest = first ++ after)
    (short : next.rest.length < after.length) : Byte.less ∉ first := by
  intro member
  obtain ⟨content, more, rfl, free⟩ := List.eq_append_cons_of_mem member
  rw [List.append_assoc, List.cons_append] at split
  rw [Scanner.text, split, upTo_append free] at read
  cases read
  rw [Option.getD_some, List.length_append] at short
  omega

theorem outside_or_inside_of_step {source : Bytes} {pile : List OpenElement}
    {scanner next : Scanner} {event : Event} {first after : Bytes}
    (comes : Comes source pile scanner) (read : scanner.step = .event event next)
    (split : scanner.rest = first ++ after) (short : next.rest.length < after.length) :
    (∃ pile text, OutsideTags source pile text after) ∨ InsideTag source after := by
  cases inTag : scanner.inTag with
  | true =>
      have begun : scanner.pending = Byte.less :: (first ++ after) := by
        rw [Scanner.pending, if_pos inTag, split]
      exact .inr (.intro comes read begun short)
  | false =>
      by_cases begins : scanner.rest.head? = some Byte.less
      · cases first with
        | nil => exact .inl ⟨pile, [], .behind comes inTag split List.not_mem_nil⟩
        | cons b inner =>
            rw [split] at begins
            cases begins
            have begun : scanner.pending = Byte.less :: (inner ++ after) := by
              rw [Scanner.pending, inTag]
              exact split
            exact .inr (.intro comes read begun short)
      · have isText : scanner.text = .event event next := by
          rw [Scanner.step, inTag] at read
          cases front : scanner.rest with
          | nil =>
              rw [front] at read
              cases read
          | cons b rest =>
              have apart : b ≠ Byte.less := by
                rintro rfl
                exact begins (congrArg List.head? front)
              simp only [Bool.false_eq_true, if_false, front, apart] at read
              exact read
        exact .inl ⟨pile, first, .behind comes inTag split (not_mem_of_text isText split short)⟩

theorem outside_or_inside_of_comes {source : Bytes} {pile : List OpenElement}
    {scanner : Scanner} {root : Element} {after : Bytes} (comes : Comes source pile scanner)
    (made : assemble pile scanner.stream = .ok root) (left : after <:+ scanner.rest) :
    (∃ pile text, OutsideTags source pile text after) ∨ InsideTag source after ∨
      BehindRoot source after := by
  induction scanner using Scanner.stream.induct generalizing pile with
  | case1 scanner event next read ih =>
      rw [Scanner.stream_eq, read] at made
      obtain ⟨advance, advances, resumed⟩ := assemble_next_eq_ok made
      have rest : next.rest <:+ scanner.rest := by
        cases Scanner.stepEnds read with
        | found split => exact ⟨_, split.symm⟩
        | missing nothing _ =>
            rw [nothing]
            exact List.nil_suffix
      by_cases short : next.rest.length < after.length
      · obtain ⟨first, split⟩ := left
        rcases outside_or_inside_of_step comes read split.symm short with outside | inside
        · exact .inl outside
        · exact .inr (.inl inside)
      · have later : after <:+ next.rest := List.suffix_of_suffix_length_le left rest (by omega)
        cases advance with
        | root element => exact .inr (.inr (.intro comes read advances later))
        | piled later' => exact ih (comes.step read advances) resumed later
  | case2 scanner offset read =>
      rw [Scanner.stream_eq, read] at made
      cases pile <;> cases made
  | case3 scanner fault offset read =>
      rw [Scanner.stream_eq, read] at made
      cases made

/-- Every point of a source that is accepted, but for those in its byte order mark,
is outside of tags, inside of one, or behind the root. -/
theorem outside_or_inside {source : Bytes} {root : Element} {after : Bytes}
    (made : Element.read .whole source = .ok root)
    (point : after = source ∨ after <:+ source.drop (Scanner.markOf source)) :
    (∃ pile text, OutsideTags source pile text after) ∨ InsideTag source after ∨
      BehindRoot source after := by
  rcases point with rfl | left
  · exact .inl ⟨[], [], .beginning⟩
  · exact outside_or_inside_of_comes .start made left

/-! ## In one place -/

section

variable {pile : List OpenElement} {opened : List Bytes} {root : Element}
  {text aside after : Bytes}

theorem makes_with_aside (isAside : Aside aside) (free : Byte.less ∉ text)
    (parted : pile ≠ [] → Parted text after) (made : Makes pile opened (text ++ after) root) :
    Makes pile opened (text ++ (aside ++ after)) root := by
  obtain ⟨tag, rfl, reads⟩ := tagReads_of_aside isAside
  obtain ⟨text', after, rfl, free'⟩ := exists_makes_text free made
  have none : Byte.less ∉ text ++ text' := by simp [free, free']
  rw [← List.append_assoc, makes_text_iff none] at made
  obtain ⟨pile', absorbs, made⟩ := made
  have parted' : pile ≠ [] → Parted text text' := by
    intro inside
    refine ⟨?_, (parted inside).reference⟩
    intro b head
    apply (parted inside).character
    rw [List.head?_append, Option.mem_def.1 head]
    rfl
  obtain ⟨between, front, behind⟩ := absorbs.exists_of_append parted'
  refine (makes_text_iff free).2 ⟨between, front, ?_⟩
  refine (makes_tag_iff (reads opened _) .skipped).2 ?_
  exact (makes_text_iff free').2 ⟨pile', behind, made⟩

theorem makes_without_aside (isAside : Aside aside) (free : Byte.less ∉ text)
    (made : Makes pile opened (text ++ (aside ++ after)) root) :
    Makes pile opened (text ++ after) root := by
  obtain ⟨tag, rfl, reads⟩ := tagReads_of_aside isAside
  obtain ⟨between, front, made⟩ := (makes_text_iff free).1 made
  have skipped := (makes_tag_iff (reads opened after) .skipped).1 made
  obtain ⟨text', after, rfl, free'⟩ := exists_makes_text List.not_mem_nil skipped
  obtain ⟨pile', behind, made⟩ := (makes_text_iff free').1 skipped
  have none : Byte.less ∉ text ++ text' := by simp [free, free']
  rw [← List.append_assoc, makes_text_iff none]
  exact ⟨pile', front.append behind, made⟩

theorem makes_of_section {raw : Bytes} {content : String} {element : OpenElement}
    {outer : List OpenElement} (filled : raw ≠ []) (free : Byte.less ∉ raw)
    (decoded : decodeText raw = .ok content)
    (unended : ¬ Byte.ofAscii "]]>" <:+: encode content)
    (made : Makes (element :: outer) opened (raw ++ Byte.less :: after) root) :
    Makes (element :: outer) opened (cdataSection (encode content) ++ Byte.less :: after) root := by
  obtain ⟨pile', absorbs, made⟩ := (makes_text_iff free).1 made
  cases absorbs with
  | nothing => exact absurd rfl filled
  | inside _ decoded' =>
      rw [decoded] at decoded'
      cases decoded'
      have advances : Advances (element :: outer) (.cdata (encode content))
          (.piled (element.addText content :: outer)) :=
        .content (congrArg some (decodeBytes_encode content))
      exact (makes_tag_iff (tagReads_cdata unended opened _) advances).2 made

/-! ## In the source -/

theorem exists_front_of_outsideTags {before : Bytes}
    (outside : OutsideTags (before ++ after) pile text after)
    (made : Element.read .whole (before ++ after) = .ok root) :
    ∃ front opened, before = front ++ text ∧ Byte.less ∉ text ∧
      ∀ rest, Element.read .whole (front ++ rest) = .ok root ↔ Makes pile opened rest root := by
  generalize whole : before ++ after = source at outside made
  cases outside with
  | beginning =>
      have nothing : before = [] :=
        List.append_cancel_right (whole.trans (List.nil_append after).symm)
      exact ⟨[], [], nothing, List.not_mem_nil, fun rest => read_eq_ok_iff_makes⟩
  | @behind _ scanner _ _ comes inText split free =>
      have isWhole : scanner.delivery = .whole := delivery_of_comes comes
      rw [← assemble_of_comes comes, ← makes_iff scanner isWhole inText] at made
      have left : scanner.rest ≠ [] := List.ne_nil_of_mem (mem_of_makes made)
      obtain ⟨used, behind, same⟩ := exists_used_of_comes comes left
      refine ⟨source.take (Scanner.markOf source) ++ used, scanner.opened, ?_, free, ?_⟩
      · have parts : before ++ after =
            source.take (Scanner.markOf source) ++ used ++ text ++ after := by
          rw [whole, List.append_assoc, List.append_assoc, ← split, ← behind]
          exact (List.take_append_drop (Scanner.markOf source) source).symm
        exact List.append_cancel_right parts
      · intro rest
        rw [read_eq_ok_iff_makes, List.append_assoc, makes_outside_iff (not_mem_mark source)]
        have start : Makes [] [] (used ++ rest) root ↔ _ :=
          makes_iff ((Scanner.ofSource .whole source).withRest (used ++ rest)) rfl rfl
        have there : Makes pile scanner.opened rest root ↔ _ :=
          makes_iff (scanner.withRest rest) isWhole inText
        rw [start, there, same]

end

theorem read_of_rewritten {source other : Bytes} {root : Element}
    (rewritten : Rewritten source other) (made : Element.read .whole source = .ok root) :
    Element.read .whole other = .ok root := by
  cases rewritten with
  | inserted outside parted isAside =>
      obtain ⟨front, opened, rfl, free, resumes⟩ := exists_front_of_outsideTags outside made
      rw [List.append_assoc, resumes] at made ⊢
      exact makes_with_aside isAside free parted made
  | removed outside isAside =>
      obtain ⟨front, opened, rfl, free, resumes⟩ := exists_front_of_outsideTags outside made
      rw [List.append_assoc, resumes] at made ⊢
      exact makes_without_aside isAside free made
  | quoted outside filled free decoded unended =>
      obtain ⟨front, opened, rfl, _, resumes⟩ := exists_front_of_outsideTags outside made
      rw [List.append_nil, resumes] at made ⊢
      exact makes_of_section filled free decoded unended made

/-- Rewritten in any number of places, a source that is accepted has the same root. -/
theorem read_of_rewritings {source other : Bytes} {root : Element}
    (rewritings : Relation.ReflTransGen Rewritten source other)
    (made : Element.read .whole source = .ok root) : Element.read .whole other = .ok root := by
  induction rewritings with
  | refl => exact made
  | tail _ last ih => exact read_of_rewritten last ih

theorem parted_of_semicolon {text after : Bytes} (last : text.getLast? = some ';'.toUInt8)
    (character : ∀ b ∈ after.head?, ¬ Text.Utf8.Continues b) : Parted text after := by
  refine ⟨character, ?_⟩
  rintro before name rfl
  rw [List.getLast?_append, List.getLast?_cons, Option.some_or] at last
  cases ends : name.getLast? with
  | none =>
      rw [ends] at last
      exact absurd last (by decide)
  | some b =>
      rw [ends] at last
      cases last
      exact List.mem_of_getLast? ends

theorem outsideTags_inside (text after : Bytes) (free : Byte.less ∉ text) :
    OutsideTags (Byte.ofAscii "<a>" ++ (text ++ after)) [.new ("a", [])] text after := by
  have read : (Scanner.ofSource .whole (Byte.ofAscii "<a>" ++ (text ++ after))).step =
      .event (.start ⟨Byte.ofAscii "a", []⟩)
        ⟨text ++ after, 0, 3, false, [Byte.ofAscii "a"], .whole⟩ := rfl
  have decoded : Tag.decode ⟨Byte.ofAscii "a", []⟩ = .ok ("a", []) := by cbv
  exact .behind (.step .start read (.start decoded)) rfl rfl free

theorem read_requoted :
    Relation.ReflTransGen Rewritten (Byte.ofAscii "<a>x<?p?>&amp;y</a>")
        (Byte.ofAscii "<a><![CDATA[x&]]><!-- -->y</a>") ∧
      Element.read .whole (Byte.ofAscii "<a>x<?p?>&amp;y</a>") = .ok ⟨"a", [], some "x&y", []⟩ ∧
      Element.read .whole (Byte.ofAscii "<a><![CDATA[x&]]><!-- -->y</a>") =
        .ok ⟨"a", [], some "x&y", []⟩ := by
  have instruction : Aside (Byte.ofAscii "<?p?>") :=
    @Aside.instruction (Byte.ofAscii "p") (by decide) (by decide)
  have comment : Aside (Byte.ofAscii "<!-- -->") :=
    @Aside.comment (Byte.ofAscii " ") (by decide)
  have removed : Rewritten (Byte.ofAscii "<a>x<?p?>&amp;y</a>") (Byte.ofAscii "<a>x&amp;y</a>") :=
    @Rewritten.removed (Byte.ofAscii "<a>x") _ _ _ _
      (outsideTags_inside (Byte.ofAscii "x") (Byte.ofAscii "<?p?>&amp;y</a>") (by decide))
      instruction
  have parted : Parted (Byte.ofAscii "x&amp;") (Byte.ofAscii "y</a>") := by
    apply parted_of_semicolon rfl
    intro b head
    cases head
    exact fun continues => absurd continues.1 (by decide)
  have inserted : Rewritten (Byte.ofAscii "<a>x&amp;y</a>")
      (Byte.ofAscii "<a>x&amp;<!-- -->y</a>") :=
    @Rewritten.inserted (Byte.ofAscii "<a>x&amp;") _ _ _ _
      (outsideTags_inside (Byte.ofAscii "x&amp;") (Byte.ofAscii "y</a>") (by decide))
      (fun _ => parted) comment
  have quoted : Rewritten (Byte.ofAscii "<a>x&amp;<!-- -->y</a>")
      (Byte.ofAscii "<a><![CDATA[x&]]><!-- -->y</a>") :=
    @Rewritten.quoted (Byte.ofAscii "<a>") (Byte.ofAscii "x&amp;") _ "x&" _ _
      (outsideTags_inside [] (Byte.ofAscii "x&amp;<!-- -->y</a>") (by decide)) (by decide)
      (by decide) (by cbv) (by decide)
  have rewritings := ((Relation.ReflTransGen.single removed).tail inserted).tail quoted
  have made : Element.read .whole (Byte.ofAscii "<a>x<?p?>&amp;y</a>") =
      .ok ⟨"a", [], some "x&y", []⟩ := by cbv
  exact ⟨rewritings, made, read_of_rewritings rewritings made⟩

end ConfigDecl.Markup

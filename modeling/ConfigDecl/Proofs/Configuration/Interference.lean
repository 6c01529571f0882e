import ConfigDecl.Proofs.Configuration.Agreement
import ConfigDecl.Proofs.Configuration.FirstFailure

/-! # Constants that are not read

A constant is out of sight once its name is defined again.  If no expression has
the name in it until then, or until the end, the constant makes no difference:
the configuration without it is the same but for its line, and with another
value in its place only its line is another. -/

set_option autoImplicit false

namespace ConfigDecl.Configuration

/-- No expression reads the name before it is defined again.  The constant that
defines it again does not read it either. -/
structure Unread (name : String) (later : List (Binding Node))
    (dictionaries : List DictionaryDecl) : Prop where
  constants : ∀ before decl after, later = before ++ decl :: after →
    (∀ earlier ∈ before, earlier.name ≠ some name) → name ∉ decl.tokens
  dictionaries : (∀ decl ∈ later, decl.name ≠ some name) →
    ∀ decl ∈ dictionaries, name ∉ decl.tokens

variable {table other : Constants} {name : String} {later : List (Binding Node)}
  {dictionaries : List DictionaryDecl}

/-! ## The rest of the run -/

theorem knownBehind_of_unread {before : List (Binding Node)} {tokens : List String}
    (unread : (∀ earlier ∈ before, earlier.name ≠ some name) → name ∉ tokens)
    {word : String} (member : word ∈ tokens) : KnownBehind (· ≠ name) before word := by
  by_cases again : ∃ earlier ∈ before, earlier.name = some word
  · exact .inr again
  · refine .inl ?_
    rintro rfl
    exact unread (fun earlier among named => again ⟨earlier, among, named⟩) member

theorem readsKnown_of_unread (unread : Unread name later dictionaries) :
    ReadsKnown (· ≠ name) later := by
  intro before decl after split word member
  exact knownBehind_of_unread (unread.constants before decl after split) member

theorem puts_of_unread (unread : Unread name later dictionaries)
    (alike : Alike (· ≠ name) table other) {items dictionaryItems : List Item}
    (puts : PutsConstants table later items)
    (putsDictionaries : List.Forall₂ (PutsDictionary (tableBehind table items)) dictionaries
      dictionaryItems) :
    PutsConstants other later items ∧
      List.Forall₂ (PutsDictionary (tableBehind other items)) dictionaries dictionaryItems := by
  refine puts_of_alike alike (readsKnown_of_unread unread) ?_ puts putsDictionaries
  intro decl member word among
  exact knownBehind_of_unread (fun fresh => unread.dictionaries fresh decl member) among

theorem alike_define_left (sound : table.Sound) (declared : Resolved) :
    Alike (· ≠ declared.name) (declared.define table) table where
  sound := sound_define sound declared
  sound' := sound
  integer? word differs := by
    have apart : ¬ (declared.kind = .constant ∧ declared.name = word) :=
      fun named => differs named.2.symm
    rw [integer?_define sound, if_neg apart]

/-! ## Whole documents -/

theorem declared_cut {doc : Document} {before : List (Binding Node)} {items : List Item}
    (split : doc.constants = before ++ later) (puts : PutsConstants ∅ before items) :
    (run (doc.cut before.length)).declared = items.map Prod.fst := by
  have short : before.length - doc.constants.length = 0 := by
    rw [split, List.length_append]
    omega
  have cut : doc.cut before.length = ⟨before, []⟩ := by
    rw [Document.cut, short, split, List.take_left, List.take_zero]
  have all : putOutAll ∅ (declarations (doc.cut before.length)) = .ok items := by
    rw [cut, putOutAll_parts_iff]
    exact ⟨items, [], (List.append_nil items).symm, puts, .nil⟩
  exact declared_runFrom all

/-- A constant that is not read can be left out, or have any other value that has
a literal where it stands: nothing changes but its line. -/
theorem lines_of_unread {doc : Document} {before after : List (Binding Node)}
    {decl : Binding Node} {name : String} {lines : List String}
    (split : doc.constants = before ++ decl :: after) (named : decl.name = some name)
    (unread : Unread name after doc.dictionaries) (has : HasLines doc lines) :
    ∃ first line rest, lines = first ++ line :: rest ∧ first.length = before.length ∧
      HasLines ⟨before ++ after, doc.dictionaries⟩ (first ++ rest) ∧
      ∀ node value literal,
        resolve (tableAfter ∅ (run (doc.cut before.length)).declared) name node = .ok value →
        value.render = .ok literal →
        HasLines ⟨before ++ ⟨some name, some node⟩ :: after, doc.dictionaries⟩
          (first ++ (name ++ " is " ++ literal ++ ";") :: rest) := by
  obtain ⟨constants, dictionaries⟩ := doc
  dsimp only at split unread has ⊢
  rw [split] at has
  obtain ⟨firstItems, laterItems, dictionaryItems, rfl, putsFirst, putsLater, putsDictionaries⟩ :=
    hasLines_append_iff.1 has
  cases putsLater with
  | @cons _ _ _ item restItems putsDecl putsRest =>
      obtain ⟨ident, rfl⟩ : isIdent item.1.name = true ∧ item.1.name = name := by
        cases putsDecl with
        | intro ident _ _ => exact ⟨ident, Option.some.inj named⟩
      have sound := sound_tableBehind Constants.sound_empty firstItems
      -- Before and behind the constant the tables differ in its name alone.
      have without := puts_of_unread unread (alike_define_left sound item.1) putsRest
        putsDictionaries
      refine ⟨firstItems.map Prod.snd, item.2,
        restItems.map Prod.snd ++ dictionaryItems.map Prod.snd, rfl, ?_, ?_, ?_⟩
      · rw [List.length_map, putsConstants_length putsFirst]
      · exact hasLines_append_iff.2
          ⟨firstItems, restItems, dictionaryItems, rfl, putsFirst, without.1, without.2⟩
      · intro node value literal resolves rendered
        obtain ⟨keys, rfl⟩ := Value.render_eq_ok_iff.1 rendered
        rw [declared_cut split putsFirst] at resolves
        have puts : PutsConstant (tableBehind ∅ firstItems) ⟨some item.1.name, some node⟩ _ :=
          .intro ident resolves keys
        -- With the other value the table differs in that name from the one before.
        have replaced := puts_of_unread unread
          (alike_define_left sound ⟨.constant, item.1.name, value⟩).symm without.1 without.2
        exact hasLines_append_iff.2 ⟨firstItems, _ :: restItems, dictionaryItems, rfl, putsFirst,
          .cons puts replaced.1, replaced.2⟩

def redefinition : List (Binding Node) :=
  [⟨some "y", some (.number (some "7"))⟩, ⟨some "x", some (.expression (some "y 1 +"))⟩,
    ⟨some "z", some (.expression (some "x"))⟩]

/-- Without the constants in the middle, `x` is what it was before. -/
def shadowing (shadowed : List (Binding Node)) : Document where
  constants := [⟨some "x", some (.number (some "1"))⟩] ++ (shadowed ++ redefinition)
  dictionaries := [⟨some "d", [⟨some "k", some (.expression (some "x abs()"))⟩]⟩]

theorem unread_redefinition (dictionaries : List DictionaryDecl) :
    Unread "x" redefinition dictionaries where
  constants := by
    intro before decl after split fresh
    match before, split with
    | [], split =>
        cases split
        exact List.not_mem_nil
    | [_], split =>
        cases split
        have tokens : Binding.tokens ⟨some "x", some (.expression (some "y 1 +"))⟩ =
            ["y", "1", "+"] := by
          cbv
        rw [tokens]
        decide
    | _ :: second :: _, split =>
        have again : redefinition[1].name = some "x" := rfl
        obtain ⟨rfl, _⟩ := List.cons.inj (List.cons.inj split).2
        exact absurd again (fresh _ (List.mem_cons_of_mem _ List.mem_cons_self))
  dictionaries fresh := absurd rfl (fresh redefinition[1] (List.getElem_mem _))

theorem lines_shadowing :
    HasLines (shadowing [⟨some "x", some (.number (some "2"))⟩])
        ["x is 1;", "x is 2;", "y is 7;", "x is 8;", "z is 8;", "d -> \x7b\nk -> 8.\n\x7d"] ∧
      HasLines (shadowing [])
        ["x is 1;", "y is 7;", "x is 8;", "z is 8;", "d -> \x7b\nk -> 8.\n\x7d"] ∧
      HasLines (shadowing [⟨some "x", some (.expression (some "x 1 -"))⟩])
        ["x is 1;", "x is 0;", "y is 7;", "x is 8;", "z is 8;", "d -> \x7b\nk -> 8.\n\x7d"] := by
  have has : HasLines (shadowing [⟨some "x", some (.number (some "2"))⟩])
      ["x is 1;", "x is 2;", "y is 7;", "x is 8;", "z is 8;", "d -> \x7b\nk -> 8.\n\x7d"] :=
    .of_put (by cbv)
  obtain ⟨first, line, rest, split, length, without, replaced⟩ :=
    @lines_of_unread (shadowing [⟨some "x", some (.number (some "2"))⟩])
      [⟨some "x", some (.number (some "1"))⟩] redefinition ⟨some "x", some (.number (some "2"))⟩
      "x" _ rfl rfl (unread_redefinition _) has
  obtain ⟨only, rfl⟩ := List.length_eq_one_iff.1 length
  cases split
  have resolves : resolve
      (tableAfter ∅ (run ((shadowing [⟨some "x", some (.number (some "2"))⟩]).cut 1)).declared)
      "x" (.expression (some "x 1 -")) = .ok (.integer 0) := by
    cbv
  have rendered : Value.render (.integer 0) = .ok "0" := by cbv
  exact ⟨has, without, replaced _ _ _ resolves rendered⟩

end ConfigDecl.Configuration

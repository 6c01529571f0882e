import ConfigDecl.Proofs.Configuration.References

/-! # The two parts of a run

A run puts out the constants one after the other, each visible to the next, and
then the dictionaries, for which all the constants are visible.  A declaration
that has a line has the same one at any other position, so the constants may be
taken in stretches and the dictionaries one by one. -/

set_option autoImplicit false

namespace ConfigDecl.Configuration

variable {table : Constants}

/-! ## One declaration -/

/-- The constant declares the item where the constants of the table are visible. -/
inductive PutsConstant (table : Constants) : Binding Node → Item → Prop where
  | intro {name : String} {node : Node} {value : Value} (named : isIdent name = true)
      (resolves : resolve table name node = .ok value) (keys : value.KeysAreIdents) :
      PutsConstant table ⟨some name, some node⟩
        (⟨.constant, name, value⟩, name ++ " is " ++ value.literal ++ ";")

inductive PutsDictionary (table : Constants) : DictionaryDecl → Item → Prop where
  | intro {name : String} {entries : List Entry} {dict : Dictionary Value}
      (named : isIdent name = true) (resolves : resolveEntries table name ∅ entries = .ok dict)
      (keys : (Value.dictionary dict).KeysAreIdents) :
      PutsDictionary table ⟨some name, entries⟩
        (⟨.dictionary, name, .dictionary dict⟩,
          name ++ " -> " ++ (Value.dictionary dict).literal)

theorem putOut_constant_iff {position : Nat} {decl : Binding Node} {item : Item} :
    (Declaration.constant position decl).putOut table = .ok item ↔
      PutsConstant table decl item := by
  rw [putOut_eq_ok_iff]
  constructor
  · rintro ⟨resolved, keys, line⟩
    match decl with
    | ⟨none, _⟩ => cases resolved
    | ⟨some _, none⟩ => cases resolved
    | ⟨some name, some node⟩ =>
        rw [Declaration.resolve, Attempt.do_eq_bind, Attempt.bind_eq_ok_iff] at resolved
        obtain ⟨value, resolves, checked⟩ := resolved
        obtain ⟨named, declared⟩ := checkName_eq_ok_iff.1 checked
        obtain ⟨_, written⟩ := item
        cases declared
        change written = _ at line
        rw [line]
        exact .intro named resolves keys
  · rintro ⟨named, resolves, keys⟩
    refine ⟨?_, keys, rfl⟩
    rw [Declaration.resolve, resolves]
    exact checkName_eq_ok_iff.2 ⟨named, rfl⟩

theorem putOut_dictionary_iff {position : Nat} {decl : DictionaryDecl} {item : Item} :
    (Declaration.dictionary position decl).putOut table = .ok item ↔
      PutsDictionary table decl item := by
  rw [putOut_eq_ok_iff]
  constructor
  · rintro ⟨resolved, keys, line⟩
    match decl with
    | ⟨none, _⟩ => cases resolved
    | ⟨some name, entries⟩ =>
        rw [Declaration.resolve, Attempt.do_eq_bind, Attempt.bind_eq_ok_iff] at resolved
        obtain ⟨dict, resolves, checked⟩ := resolved
        obtain ⟨named, declared⟩ := checkName_eq_ok_iff.1 checked
        obtain ⟨_, written⟩ := item
        cases declared
        change written = _ at line
        rw [line]
        exact .intro named resolves keys
  · rintro ⟨named, resolves, keys⟩
    refine ⟨?_, keys, rfl⟩
    rw [Declaration.resolve, resolves]
    exact checkName_eq_ok_iff.2 ⟨named, rfl⟩

theorem define_of_putsDictionary {decl : DictionaryDecl} {item : Item}
    (puts : PutsDictionary table decl item) : item.1.define table = table := by
  cases puts
  rfl

/-! ## Stretches of constants -/

inductive PutsConstants : Constants → List (Binding Node) → List Item → Prop where
  | nil {table : Constants} : PutsConstants table [] []
  | cons {table : Constants} {decl : Binding Node} {rest : List (Binding Node)} {item : Item}
      {items : List Item} (first : PutsConstant table decl item)
      (later : PutsConstants (item.1.define table) rest items) :
      PutsConstants table (decl :: rest) (item :: items)

def tableBehind (table : Constants) (items : List Item) : Constants :=
  tableAfter table (items.map Prod.fst)

theorem tableBehind_cons (table : Constants) (first : Item) (rest : List Item) :
    tableBehind table (first :: rest) = tableBehind (first.1.define table) rest := rfl

theorem tableBehind_append (table : Constants) (first later : List Item) :
    tableBehind table (first ++ later) = tableBehind (tableBehind table first) later := by
  simp only [tableBehind, tableAfter, List.map_append, List.foldl_append]

theorem sound_tableBehind (sound : table.Sound) (items : List Item) :
    (tableBehind table items).Sound := by
  induction items generalizing table with
  | nil => exact sound
  | cons item items ih => exact ih (sound_define sound item.1)

theorem putsConstants_length {decls : List (Binding Node)} {items : List Item}
    (puts : PutsConstants table decls items) : items.length = decls.length := by
  induction puts with
  | nil => rfl
  | cons _ _ ih => rw [List.length_cons, List.length_cons, ih]

theorem putsConstants_append_iff {first later : List (Binding Node)} {items : List Item} :
    PutsConstants table (first ++ later) items ↔
      ∃ firstItems laterItems, items = firstItems ++ laterItems ∧
        PutsConstants table first firstItems ∧
        PutsConstants (tableBehind table firstItems) later laterItems := by
  constructor
  · intro puts
    induction first generalizing table items with
    | nil => exact ⟨[], items, rfl, .nil, puts⟩
    | cons decl first ih =>
        cases puts with
        | cons puts others =>
            obtain ⟨firstItems, laterItems, rfl, before, behind⟩ := ih others
            exact ⟨_ :: firstItems, laterItems, rfl, .cons puts before, behind⟩
  · rintro ⟨firstItems, laterItems, rfl, before, behind⟩
    induction before with
    | nil => exact behind
    | cons puts _ ih => exact .cons puts (ih behind)

theorem putOutAll_constantsFrom_iff {start : Nat} {decls : List (Binding Node)}
    {items : List Item} :
    putOutAll table (constantsFrom start decls) = .ok items ↔ PutsConstants table decls items := by
  induction decls generalizing start table items with
  | nil =>
      constructor
      · intro all
        cases all
        exact .nil
      · intro puts
        cases puts
        rfl
  | cons decl rest ih =>
      rw [constantsFrom_cons, putOutAll_cons_eq_ok_iff]
      constructor
      · rintro ⟨item, later, rfl, first, others⟩
        exact .cons (putOut_constant_iff.1 first) (ih.1 others)
      · intro puts
        cases puts with
        | cons first others => exact ⟨_, _, rfl, putOut_constant_iff.2 first, ih.2 others⟩

theorem putOutAll_dictionariesFrom_iff {start : Nat} {decls : List DictionaryDecl}
    {items : List Item} :
    putOutAll table (dictionariesFrom start decls) = .ok items ↔
      List.Forall₂ (PutsDictionary table) decls items := by
  induction decls generalizing start items with
  | nil =>
      rw [List.forall₂_nil_left_iff]
      constructor
      · intro all
        cases all
        rfl
      · rintro rfl
        rfl
  | cons decl rest ih =>
      rw [dictionariesFrom_cons, putOutAll_cons_eq_ok_iff, List.forall₂_cons_left_iff]
      constructor
      · rintro ⟨item, later, rfl, first, others⟩
        have puts := putOut_dictionary_iff.1 first
        rw [define_of_putsDictionary puts] at others
        exact ⟨item, later, puts, ih.1 others, rfl⟩
      · rintro ⟨item, later, puts, others, rfl⟩
        refine ⟨item, later, rfl, putOut_dictionary_iff.2 puts, ?_⟩
        rw [define_of_putsDictionary puts]
        exact ih.2 others

/-! ## Whole documents -/

theorem putOutAll_parts_iff {doc : Document} {items : List Item} :
    putOutAll ∅ (declarations doc) = .ok items ↔
      ∃ constants dictionaries, items = constants ++ dictionaries ∧
        PutsConstants ∅ doc.constants constants ∧
        List.Forall₂ (PutsDictionary (tableBehind ∅ constants)) doc.dictionaries dictionaries := by
  rw [declarations_eq, putOutAll_append, Attempt.bind_eq_ok_iff]
  constructor
  · rintro ⟨constants, first, mapped⟩
    obtain ⟨dictionaries, later, rfl⟩ := Attempt.map_eq_ok_iff.1 mapped
    exact ⟨constants, dictionaries, rfl, putOutAll_constantsFrom_iff.1 first,
      putOutAll_dictionariesFrom_iff.1 later⟩
  · rintro ⟨constants, dictionaries, rfl, first, later⟩
    refine ⟨constants, putOutAll_constantsFrom_iff.2 first, ?_⟩
    exact Attempt.map_eq_ok_iff.2 ⟨dictionaries, putOutAll_dictionariesFrom_iff.2 later, rfl⟩

/-- The document has a configuration, and these are its lines. -/
structure HasLines (doc : Document) (lines : List String) : Prop where
  put : (run doc).lines = .ok lines
  joined : ofDocument doc = .ok (joinLines lines)

theorem HasLines.of_put {doc : Document} {lines : List String}
    (put : (run doc).lines = .ok lines) : HasLines doc lines where
  put := put
  joined := by rw [ofDocument, Run.output, put, Attempt.map_ok]

theorem hasLines_iff_putOutAll {doc : Document} {lines : List String} :
    HasLines doc lines ↔
      ∃ items, putOutAll ∅ (declarations doc) = .ok items ∧ items.map Prod.snd = lines := by
  constructor
  · intro has
    have put := has.put
    rw [run, lines_runFrom] at put
    exact Attempt.map_eq_ok_iff.1 put
  · rintro ⟨items, all, rfl⟩
    apply HasLines.of_put
    rw [run, lines_runFrom, all, Attempt.map_ok]

theorem hasLines_iff {doc : Document} {lines : List String} :
    HasLines doc lines ↔
      ∃ constants dictionaries,
        lines = constants.map Prod.snd ++ dictionaries.map Prod.snd ∧
        PutsConstants ∅ doc.constants constants ∧
        List.Forall₂ (PutsDictionary (tableBehind ∅ constants)) doc.dictionaries dictionaries := by
  rw [hasLines_iff_putOutAll]
  constructor
  · rintro ⟨items, all, rfl⟩
    obtain ⟨constants, dictionaries, rfl, first, later⟩ := putOutAll_parts_iff.1 all
    exact ⟨constants, dictionaries, List.map_append, first, later⟩
  · rintro ⟨constants, dictionaries, rfl, first, later⟩
    have all := putOutAll_parts_iff.2 ⟨constants, dictionaries, rfl, first, later⟩
    exact ⟨constants ++ dictionaries, all, List.map_append⟩

/-- The lines of a document whose constants are taken in two stretches. -/
theorem hasLines_append_iff {before later : List (Binding Node)}
    {dictionaries : List DictionaryDecl} {lines : List String} :
    HasLines ⟨before ++ later, dictionaries⟩ lines ↔
      ∃ firstItems laterItems dictionaryItems,
        lines = firstItems.map Prod.snd ++
          (laterItems.map Prod.snd ++ dictionaryItems.map Prod.snd) ∧
        PutsConstants ∅ before firstItems ∧
        PutsConstants (tableBehind ∅ firstItems) later laterItems ∧
        List.Forall₂ (PutsDictionary (tableBehind (tableBehind ∅ firstItems) laterItems))
          dictionaries dictionaryItems := by
  rw [hasLines_iff]
  constructor
  · rintro ⟨constants, dictionaryItems, rfl, puts, putsDictionaries⟩
    obtain ⟨firstItems, laterItems, rfl, first, behind⟩ := putsConstants_append_iff.1 puts
    rw [tableBehind_append] at putsDictionaries
    refine ⟨firstItems, laterItems, dictionaryItems, ?_, first, behind, putsDictionaries⟩
    rw [List.map_append, List.append_assoc]
  · rintro ⟨firstItems, laterItems, dictionaryItems, rfl, first, behind, putsDictionaries⟩
    refine ⟨firstItems ++ laterItems, dictionaryItems, ?_, ?_, ?_⟩
    · rw [List.map_append, List.append_assoc]
    · exact putsConstants_append_iff.2 ⟨firstItems, laterItems, rfl, first, behind⟩
    · rw [tableBehind_append]
      exact putsDictionaries

end ConfigDecl.Configuration

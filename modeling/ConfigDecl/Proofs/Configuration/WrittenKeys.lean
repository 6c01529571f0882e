import ConfigDecl.Proofs.Configuration.Faults
import ConfigDecl.Proofs.Configuration.Refinement

/-! # Keys that are written

Keys are examined in the value that a declaration stands for, not in the node it
is written with.  A dictionary keeps the last value of a key that it repeats; the
values before that are resolved and dropped, and the keys inside them are never
examined.  All other keys of a document that has a configuration are
identifiers. -/

set_option autoImplicit false

namespace ConfigDecl

namespace Node

inductive Holds : Node → String → Prop where
  | key {entries : List Entry} {key : String} {value : Option Node}
      (entry : ⟨some key, value⟩ ∈ entries) : Holds (.dictionary entries) key
  | inside {entries : List Entry} {name : Option String} {node : Node} {key : String}
      (entry : ⟨name, some node⟩ ∈ entries) (within : Holds node key) :
      Holds (.dictionary entries) key

/-- The key is written where no entry around it is followed by another of the
same name. -/
inductive Keeps : Node → String → Prop where
  | key {entries : List Entry} {key : String} {value : Option Node}
      (entry : ⟨some key, value⟩ ∈ entries) : Keeps (.dictionary entries) key
  | inside {entries before after : List Entry} {name : String} {node : Node} {key : String}
      (split : entries = before ++ ⟨some name, some node⟩ :: after)
      (last : ∀ entry ∈ after, entry.name ≠ some name) (within : Keeps node key) :
      Keeps (.dictionary entries) key

/-- The key is written inside an entry that is followed by another of the same
name. -/
inductive Drops : Node → String → Prop where
  | replaced {entries before after : List Entry} {name : String} {node : Node} {key : String}
      {again : Entry} (split : entries = before ++ ⟨some name, some node⟩ :: after)
      (later : again ∈ after) (same : again.name = some name) (within : Holds node key) :
      Drops (.dictionary entries) key
  | inside {entries : List Entry} {name : Option String} {node : Node} {key : String}
      (entry : ⟨name, some node⟩ ∈ entries) (within : Drops node key) :
      Drops (.dictionary entries) key

theorem holds_of_drops {node : Node} {key : String} (drops : node.Drops key) : node.Holds key := by
  induction drops with
  | replaced split later same within =>
      rw [split]
      exact .inside (List.mem_append_right _ List.mem_cons_self) within
  | inside entry _ ih => exact .inside entry ih

end Node

namespace Document

def nodes (doc : Document) : List Node :=
  doc.constants.filterMap Binding.value ++
    doc.dictionaries.map fun decl => Node.dictionary decl.entries

def Holds (doc : Document) (key : String) : Prop := ∃ node ∈ doc.nodes, node.Holds key

def Keeps (doc : Document) (key : String) : Prop := ∃ node ∈ doc.nodes, node.Keeps key

def Drops (doc : Document) (key : String) : Prop := ∃ node ∈ doc.nodes, node.Drops key

end Document

namespace Configuration

variable {refers : String → Int64 → Prop}

/-! ## Entries that denote -/

theorem names_of_entriesDenote {entries : List Entry} {pairs : List (String × Value)}
    (each : EntriesDenote refers entries pairs) :
    entries.map Binding.name = pairs.map fun pair => some pair.1 := by
  induction entries generalizing pairs with
  | nil =>
      cases each
      rfl
  | cons entry rest ih =>
      cases each with
      | cons first later => rw [List.map_cons, List.map_cons, ih later]

theorem entriesDenote_append {before after : List Entry} {pairs : List (String × Value)}
    (each : EntriesDenote refers (before ++ after) pairs) :
    ∃ first rest, pairs = first ++ rest ∧ EntriesDenote refers before first ∧
      EntriesDenote refers after rest := by
  induction before generalizing pairs with
  | nil => exact ⟨[], pairs, rfl, .nil, each⟩
  | cons entry before ih =>
      cases each with
      | @cons key _ value _ _ denotes later =>
          obtain ⟨first, rest, rfl, ofBefore, ofAfter⟩ := ih later
          exact ⟨(key, value) :: first, rest, rfl, .cons denotes ofBefore, ofAfter⟩

theorem exists_of_mem_entries {entries : List Entry} {pairs : List (String × Value)}
    (each : EntriesDenote refers entries pairs) {name : Option String} {node : Node}
    (entry : ⟨name, some node⟩ ∈ entries) :
    ∃ key value, name = some key ∧ Denotes refers node value := by
  obtain ⟨before, after, split⟩ := List.append_of_mem entry
  rw [split] at each
  obtain ⟨_, _, _, _, ofAfter⟩ := entriesDenote_append each
  cases ofAfter with
  | cons first later => exact ⟨_, _, rfl, first⟩

/-! ## Which keys a value has -/

theorem mem_deepKeys_of_mem_keys {dict : Dictionary Value} {key : String}
    (member : key ∈ dict.keys) : key ∈ (Value.dictionary dict).deepKeys := by
  obtain ⟨entry, inside, rfl⟩ := List.mem_map.1 member
  rw [Value.deepKeys, Value.entriesKeys_eq_flatMap, List.mem_flatMap]
  exact ⟨entry, inside, List.mem_cons_self⟩

theorem mem_deepKeys_of_mem_entry {dict : Dictionary Value} {name key : String} {value : Value}
    (entry : (name, value) ∈ dict.entries) (within : key ∈ value.deepKeys) :
    key ∈ (Value.dictionary dict).deepKeys := by
  rw [Value.deepKeys, Value.entriesKeys_eq_flatMap, List.mem_flatMap]
  exact ⟨(name, value), entry, List.mem_cons_of_mem name within⟩

theorem get?_of_last {dict : Dictionary Value} {first rest : List (String × Value)}
    {name : String} {value : Value} (collects : dict.Collects (first ++ (name, value) :: rest))
    (last : name ∉ rest.map Prod.fst) : dict.get? name = some value := by
  have absent : rest.reverse.lookup name = none := by
    rw [List.lookup_eq_none_iff]
    intro pair member
    rw [bne_iff_ne]
    intro same
    apply last
    rw [same]
    exact List.mem_map_of_mem (List.mem_reverse.1 member)
  rw [collects.get?_eq, List.reverse_append, List.reverse_cons, List.append_assoc,
    List.lookup_append, absent, List.singleton_append, List.lookup_cons_self, Option.none_or]

theorem mem_deepKeys_of_keeps {node : Node} {key : String} (keeps : node.Keeps key)
    {value : Value} (denotes : Denotes refers node value) : key ∈ value.deepKeys := by
  induction keeps generalizing value with
  | @key entries key _ entry =>
      cases denotes with
      | @dictionary _ pairs dict each collects =>
          apply mem_deepKeys_of_mem_keys
          have written : some key ∈ entries.map Binding.name := List.mem_map_of_mem entry
          rw [names_of_entriesDenote each] at written
          obtain ⟨pair, member, same⟩ := List.mem_map.1 written
          rw [collects.keys_eq, List.mem_eraseDups, ← Option.some.inj same]
          exact List.mem_map_of_mem member
  | @inside entries before after name node key split last _ ih =>
      cases denotes with
      | @dictionary _ pairs dict each collects =>
          rw [split] at each
          obtain ⟨first, rest, rfl, _, ofAfter⟩ := entriesDenote_append each
          cases ofAfter with
          | @cons _ _ value _ rest denotes later =>
              have lasts : name ∉ rest.map Prod.fst := by
                intro member
                obtain ⟨pair, inside, rfl⟩ := List.mem_map.1 member
                have named : some pair.1 ∈ after.map Binding.name := by
                  rw [names_of_entriesDenote later]
                  exact List.mem_map_of_mem inside
                obtain ⟨entry, among, same⟩ := List.mem_map.1 named
                exact last entry among same
              exact mem_deepKeys_of_mem_entry (Dictionary.mem_of_get? (get?_of_last collects lasts))
                (ih denotes)

theorem keeps_or_drops {node : Node} {key : String} (holds : node.Holds key) {value : Value}
    (denotes : Denotes refers node value) : node.Keeps key ∨ node.Drops key := by
  induction holds generalizing value with
  | key entry => exact .inl (.key entry)
  | @inside entries name node key entry within ih =>
      cases denotes with
      | dictionary each _ =>
          obtain ⟨name, _, rfl, inner⟩ := exists_of_mem_entries each entry
          obtain ⟨before, after, split⟩ := List.append_of_mem entry
          by_cases repeated : ∃ again ∈ after, again.name = some name
          · obtain ⟨again, later, same⟩ := repeated
            exact .inr (.replaced split later same within)
          · have last : ∀ again ∈ after, again.name ≠ some name := by
              intro again later same
              exact repeated ⟨again, later, same⟩
            cases ih inner with
            | inl keeps => exact .inl (.inside split last keeps)
            | inr drops => exact .inr (.inside entry drops)

/-! ## Documents -/

theorem exists_declaration_of_mem_nodes {doc : Document} {node : Node}
    (member : node ∈ doc.nodes) :
    ∃ decl ∈ declarations doc, ∀ before declared, Declares before decl declared →
      Denotes (Refers before) node declared.value := by
  rcases List.mem_append.1 member with among | among
  · obtain ⟨⟨name, value⟩, inside, rfl⟩ := List.mem_filterMap.1 among
    obtain ⟨position, bound, there⟩ := List.mem_iff_getElem.1 inside
    refine ⟨.constant position ⟨name, some node⟩, ?_, ?_⟩
    · apply List.mem_append_left
      rw [List.mem_mapIdx]
      exact ⟨position, bound, congrArg _ there⟩
    · intro before declared declares
      cases declares with
      | constant named denotes keys => exact denotes
  · obtain ⟨decl, inside, rfl⟩ := List.mem_map.1 among
    obtain ⟨position, bound, there⟩ := List.mem_iff_getElem.1 inside
    refine ⟨.dictionary position decl, ?_, ?_⟩
    · apply List.mem_append_right
      rw [List.mem_mapIdx]
      exact ⟨position, bound, congrArg _ there⟩
    · intro before declared declares
      cases declares with
      | dictionary named denotes keys => exact denotes

/-- With a configuration every node denotes, and the keys in its value are
identifiers. -/
theorem exists_denotes_of_mem_nodes {doc : Document} {out : String}
    (has : ofDocument doc = .ok out) {node : Node} (member : node ∈ doc.nodes) :
    ∃ before value, Denotes (Refers before) node value ∧ value.KeysAreIdents := by
  obtain ⟨items, puts, _⟩ := (ofDocument_eq_ok_iff doc out).1 has
  obtain ⟨decl, among, denotes⟩ := exists_declaration_of_mem_nodes member
  obtain ⟨item, declares, _⟩ := exists_forall₂_iff.1 ⟨items, puts⟩ decl among
  exact ⟨decl.scope doc, item.1.value, denotes _ _ declares, declares.keys⟩

/-- In a document that has a configuration every key is an identifier but for
those inside entries that are followed by another of the same name.  So all of
its keys are identifiers exactly when those are. -/
theorem kept_keys_are_idents (doc : Document) (out : String) (has : ofDocument doc = .ok out) :
    (∀ key, doc.Keeps key → isIdent key = true) ∧
    (∀ key, doc.Holds key → isIdent key = true ∨ doc.Drops key) ∧
    ((∀ key, doc.Holds key → isIdent key = true) ↔ ∀ key, doc.Drops key → isIdent key = true) := by
  have kept : ∀ node ∈ doc.nodes, ∀ key, node.Keeps key → isIdent key = true := by
    intro node member key keeps
    obtain ⟨before, value, denotes, idents⟩ := exists_denotes_of_mem_nodes has member
    exact idents key (mem_deepKeys_of_keeps keeps denotes)
  have held : ∀ key, doc.Holds key → isIdent key = true ∨ doc.Drops key := by
    intro key holds
    obtain ⟨node, member, holds⟩ := holds
    obtain ⟨before, value, denotes, _⟩ := exists_denotes_of_mem_nodes has member
    cases keeps_or_drops holds denotes with
    | inl keeps => exact .inl (kept node member key keeps)
    | inr drops => exact .inr ⟨node, member, drops⟩
  refine ⟨?_, held, ?_⟩
  · intro key keeps
    obtain ⟨node, member, keeps⟩ := keeps
    exact kept node member key keeps
  · constructor
    · intro all key drops
      obtain ⟨node, member, drops⟩ := drops
      exact all key ⟨node, member, Node.holds_of_drops drops⟩
    · intro dropped key holds
      cases held key holds with
      | inl ident => exact ident
      | inr drops => exact dropped key drops

/-- The entry that is followed by another of its name holds a key that is no
identifier. -/
def repeating : Document where
  constants := []
  dictionaries :=
    [⟨some "d", [⟨some "a", some (.dictionary [⟨some "1bad", some (.number (some "1"))⟩])⟩,
      ⟨some "a", some (.dictionary [⟨some "b", some (.number (some "2"))⟩])⟩]⟩]

theorem kept_keys_repeating :
    ofDocument repeating = .ok "d -> \x7b\na -> \x7b\nb -> 2.\n\x7d.\n\x7d" ∧
      isIdent "b" = true ∧ repeating.Drops "1bad" := by
  have has : ofDocument repeating = .ok "d -> \x7b\na -> \x7b\nb -> 2.\n\x7d.\n\x7d" := rfl
  obtain ⟨kept, held, _⟩ := kept_keys_are_idents repeating _ has
  have keeps : repeating.Keeps "b" := by
    refine ⟨_, List.mem_cons_self, ?_⟩
    have split : [⟨some "a", some (.dictionary [⟨some "1bad", some (.number (some "1"))⟩])⟩,
        ⟨some "a", some (.dictionary [⟨some "b", some (.number (some "2"))⟩])⟩] =
        [(⟨some "a", some (.dictionary [⟨some "1bad", some (.number (some "1"))⟩])⟩ : Entry)] ++
          ⟨some "a", some (.dictionary [⟨some "b", some (.number (some "2"))⟩])⟩ :: [] := rfl
    apply Node.Keeps.inside split
    · intro entry member
      cases member
    · exact .key List.mem_cons_self
  have holds : repeating.Holds "1bad" := by
    refine ⟨_, List.mem_cons_self, ?_⟩
    exact .inside List.mem_cons_self (.key List.mem_cons_self)
  refine ⟨has, kept "b" keeps, ?_⟩
  rcases held "1bad" holds with ident | drops
  · exact absurd ident (by decide)
  · exact drops

/-- A document may have a configuration and hold a key that is no identifier. -/
theorem ofDocument_repeating :
    ofDocument repeating = .ok "d -> \x7b\na -> \x7b\nb -> 2.\n\x7d.\n\x7d" ∧
      repeating.Holds "1bad" ∧ isIdent "1bad" = false := by
  refine ⟨rfl, ⟨_, List.mem_cons_self, ?_⟩, by decide⟩
  exact .inside List.mem_cons_self (.key List.mem_cons_self)

end Configuration

end ConfigDecl

import ConfigDecl.Proofs.Constants.Lookup
import ConfigDecl.Proofs.Dictionary.History

/-! # Tables over a history

A definition does to the definitions of a table what it does to a dictionary: a
name that is there keeps its place and takes the new value, and a new one comes
last.  So a table holds the dictionary of the definitions made, and its index is
determined by it. -/

set_option autoImplicit false

namespace ConfigDecl

/-- A key that first stands at a position has its value replaced there. -/
theorem Dictionary.insertEntry_of_first {α : Type} {key : String} {entries : List (String × α)}
    {position : Nat} (there : entries[position]?.map Prod.fst = some key)
    (first : ∀ earlier < position, entries[earlier]?.map Prod.fst ≠ some key) (value : α) :
    insertEntry key value entries = entries.modify position fun entry => (entry.1, value) := by
  induction entries generalizing position with
  | nil => cases there
  | cons entry rest ih =>
      rw [insertEntry]
      cases position with
      | zero =>
          have same : entry.1 = key := Option.some.inj there
          rw [if_pos same]
          rfl
      | succ position =>
          have apart : entry.1 ≠ key := fun same =>
            first 0 (Nat.succ_pos position) (congrArg some same)
          have later : insertEntry key value rest =
              rest.modify position fun entry => (entry.1, value) := by
            apply ih there
            intro earlier before
            exact first (earlier + 1) (Nat.succ_lt_succ before)
          rw [if_neg apart, later, List.modify_succ_cons]

namespace Constants

def toDictionary (table : Constants) : Dictionary Value := ⟨table.defs.toList⟩

def names (table : Constants) : List String := table.defs.toList.map Prod.fst

def defineAll (table : Constants) (definitions : List (String × Value)) : Constants :=
  definitions.foldl (fun table definition => (table.define definition.1 definition.2).1) table

def ofDefinitions (definitions : List (String × Value)) : Constants :=
  (∅ : Constants).defineAll definitions

/-! ## One definition -/

theorem snd_define (table : Constants) (name : String) (value : Value) :
    (table.define name value).2 = table.lookup name := by
  rw [lookup_eq, define]
  cases table.index[name]? <;> rfl

theorem toDictionary_define {table : Constants} (sound : table.Sound) (name : String)
    (value : Value) :
    (table.define name value).1.toDictionary = table.toDictionary.insert name value := by
  cases found : table.index[name]? with
  | some position =>
      have there : table.defs.toList[position]?.map Prod.fst = some name := by
        rw [Array.getElem?_toList, ← sound]
        exact found
      have first : ∀ earlier < position, table.defs.toList[earlier]?.map Prod.fst ≠ some name := by
        intro earlier before named
        rw [Array.getElem?_toList, ← sound, found] at named
        exact absurd (Option.some.inj named) (Nat.ne_of_gt before)
      rw [define_known found, toDictionary, Array.toList_modify, toDictionary, Dictionary.insert,
        Dictionary.insertEntry_of_first there first]
  | none =>
      have fresh : name ∉ table.defs.toList.map Prod.fst := by
        intro member
        obtain ⟨position, there⟩ := List.mem_iff_getElem?.1 member
        rw [List.getElem?_map, Array.getElem?_toList, ← sound, found] at there
        cases there
      rw [define_new found, toDictionary, Array.toList_push, toDictionary, Dictionary.insert,
        Dictionary.insertEntry_of_fresh fresh]

theorem Sound.within {table : Constants} (sound : table.Sound) {name : String} {position : Nat}
    (indexed : table.index[name]? = some position) : position < table.defs.size := by
  obtain ⟨entry, there, _⟩ := Option.map_eq_some_iff.1 ((sound name position).1 indexed)
  exact (Array.getElem?_eq_some_iff.1 there).1

/-- What the index finds is what is found in the definitions. -/
theorem lookup_eq_get? {table : Constants} (sound : table.Sound) (distinct : table.names.Nodup)
    (name : String) : table.lookup name = table.toDictionary.get? name := by
  apply Option.ext
  intro value
  rw [lookup_eq_some_iff sound, @Dictionary.get?_eq_some_iff Value table.toDictionary distinct,
    toDictionary, Array.mem_def]

theorem prefix_names_define {table : Constants} (sound : table.Sound) (name : String)
    (value : Value) : table.names <+: (table.define name value).1.names := by
  have keys : (table.define name value).1.names = (table.toDictionary.insert name value).keys :=
    congrArg Dictionary.keys (toDictionary_define sound name value)
  rw [keys]
  exact Dictionary.prefix_keys_insert table.toDictionary name value

/-! ## Many definitions -/

theorem sound_defineAll {table : Constants} (sound : table.Sound)
    (definitions : List (String × Value)) : (table.defineAll definitions).Sound := by
  induction definitions generalizing table with
  | nil => exact sound
  | cons definition rest ih => exact ih (sound_define sound definition.1 definition.2)

theorem toDictionary_defineAll {table : Constants} (sound : table.Sound)
    (definitions : List (String × Value)) :
    (table.defineAll definitions).toDictionary = table.toDictionary.insertAll definitions := by
  induction definitions generalizing table with
  | nil => rfl
  | cons definition rest ih =>
      rw [Dictionary.insertAll_cons, ← toDictionary_define sound]
      exact ih (sound_define sound definition.1 definition.2)

theorem sound_ofDefinitions (definitions : List (String × Value)) :
    (ofDefinitions definitions).Sound :=
  sound_defineAll sound_empty definitions

theorem toDictionary_ofDefinitions (definitions : List (String × Value)) :
    (ofDefinitions definitions).toDictionary = Dictionary.ofList definitions :=
  toDictionary_defineAll sound_empty definitions

/-- The index and the definitions agree, and the definitions are those of the
history: each name once and in the order in which the names were first defined,
each with the value that it was last given. -/
structure HoldsInOrder (definitions : List (String × Value)) (table : Constants) : Prop where
  distinct : table.names.Nodup
  sound : table.Sound
  within : ∀ (name : String) (position : Nat),
    table.index[name]? = some position → position < table.defs.size
  names_eq : table.names = (definitions.map Prod.fst).eraseDups
  lookup_eq : ∀ name, table.lookup name = definitions.reverse.lookup name
  entries_eq : table.defs.toList = (Dictionary.ofList definitions).entries

theorem holdsInOrder_ofDefinitions (definitions : List (String × Value)) :
    HoldsInOrder definitions (ofDefinitions definitions) := by
  have sound := sound_ofDefinitions definitions
  have same := toDictionary_ofDefinitions definitions
  have collects := Dictionary.collects_ofList definitions
  have keys : (ofDefinitions definitions).names = (Dictionary.ofList definitions).keys :=
    congrArg Dictionary.keys same
  have distinct : (ofDefinitions definitions).names.Nodup := by
    rw [keys]
    exact Dictionary.keys_nodup_ofList definitions
  refine ⟨distinct, sound, fun _ _ => sound.within, keys.trans collects.keys_eq, ?_,
    congrArg Dictionary.entries same⟩
  intro name
  rw [lookup_eq_get? sound distinct, same, collects.get?_eq]

/-! ## Equal tables -/

/-- Where the index and the definitions agree, the definitions determine the index. -/
theorem beq_iff_of_sound {table other : Constants} (sound : table.Sound)
    (otherSound : other.Sound) :
    (table == other) = true ↔ table.toDictionary = other.toDictionary := by
  have parts : (table == other) = (table.defs == other.defs && table.index == other.index) := rfl
  rw [parts, Bool.and_eq_true, beq_iff_eq]
  constructor
  · intro both
    rw [toDictionary, both.1, toDictionary]
  · intro same
    have sameDefs : table.defs = other.defs :=
      Array.toList_inj.1 (congrArg Dictionary.entries same)
    have sameIndex : ∀ name : String, table.index[name]? = other.index[name]? := by
      intro name
      apply Option.ext
      intro position
      rw [sound, otherSound, sameDefs]
    exact ⟨sameDefs, (Std.TreeMap.Equiv.of_forall_constGet?_eq sameIndex).beq⟩

theorem ofDefinitions_beq_iff (definitions others : List (String × Value)) :
    (ofDefinitions definitions == ofDefinitions others) = true ↔
      (definitions.map Prod.fst).eraseDups = (others.map Prod.fst).eraseDups ∧
        ∀ name, definitions.reverse.lookup name = others.reverse.lookup name := by
  rw [beq_iff_of_sound (sound_ofDefinitions definitions) (sound_ofDefinitions others),
    toDictionary_ofDefinitions, toDictionary_ofDefinitions]
  have collects := Dictionary.collects_ofList definitions
  have otherCollects := Dictionary.collects_ofList others
  constructor
  · intro same
    refine ⟨?_, ?_⟩
    · rw [← collects.keys_eq, same, otherCollects.keys_eq]
    · intro name
      rw [← collects.get?_eq, same, otherCollects.get?_eq]
  · intro both
    apply Dictionary.collects_iff.1
    exact ⟨collects.keys_eq.trans both.1, fun name => (collects.get?_eq name).trans (both.2 name)⟩

/-- A table that has come about by definitions is an insertion-ordered map whose
index never drifts from its definitions.  One more definition gives back what was
found before, changes what is found under its own name only and moves nothing; and
two such tables are equal exactly if the same names were first defined in the same
order and last given the same values. -/
theorem ofDefinitions_is_ordered_map (definitions : List (String × Value)) :
    HoldsInOrder definitions (ofDefinitions definitions) ∧
    (∀ name value,
      ((ofDefinitions definitions).define name value).2 =
        (ofDefinitions definitions).lookup name ∧
      (∀ other, ((ofDefinitions definitions).define name value).1.lookup other =
        if other = name then some value else (ofDefinitions definitions).lookup other) ∧
      (ofDefinitions definitions).names <+:
        ((ofDefinitions definitions).define name value).1.names) ∧
    ∀ others, (ofDefinitions definitions == ofDefinitions others) = true ↔
      (definitions.map Prod.fst).eraseDups = (others.map Prod.fst).eraseDups ∧
        ∀ name, definitions.reverse.lookup name = others.reverse.lookup name := by
  have holds := holdsInOrder_ofDefinitions definitions
  refine ⟨holds, ?_, ofDefinitions_beq_iff definitions⟩
  intro name value
  refine ⟨snd_define _ name value, ?_, prefix_names_define holds.sound name value⟩
  intro other
  exact lookup_define holds.sound name other value

end Constants

end ConfigDecl

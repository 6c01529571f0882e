import ConfigDecl.Constants

/-! # Looking up constants

The index and the definitions of a table agree: a name is indexed exactly at the
position where it is defined.  Every definition preserves this, so that a look-up
after a definition finds the new value under that name and what it found before
under any other. -/

set_option autoImplicit false

namespace ConfigDecl.Constants

/-- The index sends a name to a position exactly if the name is defined there. -/
def Sound (table : Constants) : Prop :=
  ∀ (name : String) (position : Nat),
    table.index[name]? = some position ↔ table.defs[position]?.map Prod.fst = some name

theorem getElem?_index_insert (index : Std.TreeMap String Nat) (name other : String)
    (position : Nat) :
    (index.insert name position)[other]? =
      if other = name then some position else index[other]? := by
  rw [Std.TreeMap.getElem?_insert]
  by_cases same : other = name
  · simp [same]
  · have apart : compare name other ≠ .eq := fun equal =>
      same (Std.LawfulEqOrd.eq_of_compare equal).symm
    simp [same, apart]

theorem sound_empty : (∅ : Constants).Sound := by
  intro name position
  have noIndex : (∅ : Constants).index[name]? = none := Std.TreeMap.getElem?_emptyc
  have noDefs : (∅ : Constants).defs[position]? = none := rfl
  rw [noIndex, noDefs]
  simp

theorem lookup_eq (table : Constants) (name : String) :
    table.lookup name =
      table.index[name]?.bind fun position => table.defs[position]?.map Prod.snd := by
  unfold lookup
  cases table.index[name]? with
  | none => rfl
  | some position => cases found : table.defs[position]? <;> simp [found]

theorem lookup_eq_some_iff {table : Constants} (sound : table.Sound) {name : String}
    {value : Value} : table.lookup name = some value ↔ (name, value) ∈ table.defs := by
  rw [lookup_eq, Array.mem_iff_getElem?]
  constructor
  · intro found
    obtain ⟨position, indexed, there⟩ := Option.bind_eq_some_iff.1 found
    obtain ⟨entry, here, named⟩ := Option.map_eq_some_iff.1 ((sound name position).1 indexed)
    rw [here] at there
    refine ⟨position, ?_⟩
    rw [here, ← named, ← Option.some.inj there]
  · rintro ⟨position, there⟩
    have indexed : table.index[name]? = some position := by
      rw [sound name position, there]
      rfl
    rw [indexed, Option.bind_some, there]
    rfl

@[simp] theorem lookup_empty (name : String) : (∅ : Constants).lookup name = none := by
  have noIndex : (∅ : Constants).index[name]? = none := Std.TreeMap.getElem?_emptyc
  rw [lookup_eq, noIndex]
  rfl

theorem define_known {table : Constants} {name : String} {position : Nat}
    (known : table.index[name]? = some position) (value : Value) :
    (table.define name value).1 =
      { table with defs := table.defs.modify position fun entry => (entry.1, value) } := by
  simp [define, known]

theorem define_new {table : Constants} {name : String} (unknown : table.index[name]? = none)
    (value : Value) :
    (table.define name value).1 =
      ⟨table.defs.push (name, value), table.index.insert name table.defs.size⟩ := by
  simp [define, unknown]

theorem sound_define {table : Constants} (sound : table.Sound) (name : String) (value : Value) :
    (table.define name value).1.Sound := by
  intro other position
  cases found : table.index[name]? with
  | some known =>
      rw [define_known found]
      simp only [Array.getElem?_modify]
      rw [sound other position]
      by_cases here : known = position
      · simp [here, Function.comp_def]
      · simp [here]
  | none =>
      rw [define_new found]
      simp only [getElem?_index_insert, Array.getElem?_push]
      by_cases last : position = table.defs.size
      · subst last
        by_cases same : other = name
        · simp [same]
        · have vacant : table.index[other]? ≠ some table.defs.size := by
            intro indexed
            have defined := (sound other table.defs.size).1 indexed
            simp at defined
          have apart : ¬ name = other := fun equal => same equal.symm
          simp [same, apart, vacant]
      · by_cases same : other = name
        · have undefined : table.defs[position]?.map Prod.fst ≠ some name := by
            intro defined
            rw [(sound name position).2 defined] at found
            cases found
          have apart : ¬ table.defs.size = position := fun equal => last equal.symm
          simp only [same, if_true, if_neg last, Option.some.injEq]
          exact iff_of_false apart undefined
        · simp only [if_neg same, if_neg last]
          exact sound other position

theorem lookup_define {table : Constants} (sound : table.Sound) (name other : String)
    (value : Value) :
    (table.define name value).1.lookup other =
      if other = name then some value else table.lookup other := by
  rw [lookup_eq, lookup_eq]
  cases found : table.index[name]? with
  | some known =>
      rw [define_known found]
      simp only [Array.getElem?_modify]
      obtain ⟨entry, atKnown, named⟩ := Option.map_eq_some_iff.mp ((sound name known).1 found)
      by_cases same : other = name
      · simp [same, found, atKnown]
      · cases indexed : table.index[other]? with
        | none => simp [same]
        | some position =>
            have apart : known ≠ position := by
              rintro rfl
              obtain ⟨entry', atPosition, named'⟩ :=
                Option.map_eq_some_iff.mp ((sound other known).1 indexed)
              rw [atKnown] at atPosition
              cases atPosition
              exact same (named'.symm.trans named)
            simp [same, apart]
  | none =>
      rw [define_new found]
      simp only [getElem?_index_insert, Array.getElem?_push]
      by_cases same : other = name
      · simp [same]
      · cases indexed : table.index[other]? with
        | none => simp [same]
        | some position =>
            have apart : position ≠ table.defs.size := by
              rintro rfl
              have defined := (sound other table.defs.size).1 indexed
              simp at defined
            simp [same, apart]

theorem integer?_define {table : Constants} (sound : table.Sound) (name other : String)
    (value : Value) :
    (table.define name value).1.integer? other =
      if other = name then value.integer? else table.integer? other := by
  rw [integer?, integer?, lookup_define sound]
  by_cases same : other = name <;> simp [same]

end ConfigDecl.Constants

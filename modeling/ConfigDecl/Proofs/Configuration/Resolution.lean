import ConfigDecl.Proofs.Configuration.Denotation

/-! # Resolution computes the denotation

With constants visible that agree with what names refer to, a node resolves to a
value exactly when it denotes that value, whatever its path is. -/

set_option autoImplicit false

namespace ConfigDecl.Configuration

variable {refers : String → Int64 → Prop} {table : Constants}

theorem resolveNumber_eq_ok_iff {text : String} {value : Value} :
    resolveNumber text = .ok value ↔ Denotes refers (.number (some text)) value := by
  rw [resolveNumber]
  cases narrowed : (Integer.numeral? (Text.trim text.toList)).bind Integer.narrow? with
  | some n =>
      obtain ⟨m, read, narrow⟩ := Option.bind_eq_some_iff.mp narrowed
      obtain ⟨_, same⟩ := Integer.narrow?_eq_some_iff.1 narrow
      constructor
      · intro resolved
        cases resolved
        exact .number (by rw [read, same])
      · intro denotes
        cases denotes with
        | @number _ n' read' =>
            rw [read, ← same] at read'
            rw [Int64.toInt.inj (Option.some.inj read')]
  | none =>
      constructor
      · intro resolved
        cases resolved
      · intro denotes
        cases denotes with
        | number read => simp [read] at narrowed

theorem resolveExpression_eq_ok_iff (agree : Agree refers table.integer?) {text : Option String}
    {value : Value} :
    resolveExpression table (text.getD "") = .ok value ↔
      Denotes refers (.expression text) value := by
  rw [resolveExpression]
  constructor
  · intro resolved
    split at resolved
    · next n evaluated =>
        cases resolved
        obtain ⟨tree, words, computes⟩ := (eval_eq_ok_iff agree).1 evaluated
        exact .expression words computes
    · cases resolved
  · intro denotes
    cases denotes with
    | expression words computes => rw [(eval_eq_ok_iff agree).2 ⟨_, words, computes⟩]

mutual

theorem resolve_eq_ok_iff (agree : Agree refers table.integer?) :
    ∀ (node : Node) (path : String) (value : Value),
      resolve table path node = .ok value ↔ Denotes refers node value
  | .number (some text), path, value => by
      rw [resolve]
      exact resolveNumber_eq_ok_iff
  | .number none, path, value => by
      rw [resolve]
      constructor
      · intro resolved
        cases resolved
      · intro denotes
        cases denotes
  | .string text, path, value => by
      rw [resolve]
      constructor
      · intro resolved
        cases resolved
        exact .string
      · intro denotes
        cases denotes
        rfl
  | .expression text, path, value => by
      rw [resolve]
      exact resolveExpression_eq_ok_iff agree
  | .unsupported kind, path, value => by
      rw [resolve]
      constructor
      · intro resolved
        cases resolved
      · intro denotes
        cases denotes
  | .dictionary entries, path, value => by
      rw [resolve, Attempt.do_eq_bind, Attempt.bind_eq_ok_iff]
      constructor
      · rintro ⟨dict, resolved, same⟩
        cases same
        obtain ⟨pairs, each, made⟩ :=
          (resolveEntries_eq_ok_iff agree entries path ∅ dict).1 resolved
        exact .dictionary each (Dictionary.collects_iff.2 made)
      · intro denotes
        cases denotes with
        | @dictionary _ pairs dict each collects =>
            have made : dict = (∅ : Dictionary Value).insertAll pairs :=
              Dictionary.collects_iff.1 collects
            exact ⟨dict, (resolveEntries_eq_ok_iff agree entries path ∅ dict).2
              ⟨pairs, each, made⟩, rfl⟩

theorem resolveEntries_eq_ok_iff (agree : Agree refers table.integer?) :
    ∀ (entries : List Entry) (path : String) (dict result : Dictionary Value),
      resolveEntries table path dict entries = .ok result ↔
        ∃ pairs, EntriesDenote refers entries pairs ∧ result = dict.insertAll pairs
  | [], path, dict, result => by
      rw [resolveEntries]
      constructor
      · intro resolved
        cases resolved
        exact ⟨[], .nil, rfl⟩
      · rintro ⟨pairs, each, rfl⟩
        cases each
        rfl
  | ⟨none, value⟩ :: rest, path, dict, result => by
      rw [resolveEntries]
      constructor
      · intro resolved
        cases resolved
      · rintro ⟨pairs, each, _⟩
        cases each
  | ⟨some key, none⟩ :: rest, path, dict, result => by
      rw [resolveEntries]
      constructor
      · intro resolved
        cases resolved
      · rintro ⟨pairs, each, _⟩
        cases each
  | ⟨some key, some node⟩ :: rest, path, dict, result => by
      rw [resolveEntries, Attempt.do_eq_bind, Attempt.bind_eq_ok_iff]
      constructor
      · rintro ⟨value, first, later⟩
        obtain ⟨pairs, each, made⟩ :=
          (resolveEntries_eq_ok_iff agree rest path (dict.insert key value) result).1 later
        exact ⟨(key, value) :: pairs,
          .cons ((resolve_eq_ok_iff agree node (entryPath path key) value).1 first) each, made⟩
      · rintro ⟨pairs, each, made⟩
        cases each with
        | @cons _ _ value _ pairs first later =>
            refine ⟨value, (resolve_eq_ok_iff agree node (entryPath path key) value).2 first, ?_⟩
            exact (resolveEntries_eq_ok_iff agree rest path (dict.insert key value) result).2
              ⟨pairs, later, made⟩

end

/-- A node denotes at most one value. -/
theorem denotes_unique (agree : Agree refers table.integer?) {node : Node} {a b : Value}
    (first : Denotes refers node a) (second : Denotes refers node b) : a = b := by
  have resolved := (resolve_eq_ok_iff agree node "" a).2 first
  rw [(resolve_eq_ok_iff agree node "" b).2 second] at resolved
  exact (Except.ok.inj resolved).symm

/-! ## The constants of a run -/

/-- The visible constants are those declared before. -/
structure Visible (table : Constants) (before : List (Binding Node)) : Prop where
  sound : table.Sound
  agree : Agree (Refers before) table.integer?

theorem visible_nil : Visible ∅ [] where
  sound := Constants.sound_empty
  agree name n := by
    refine iff_of_false (not_refers_nil name n) ?_
    simp [Constants.integer?]

theorem integer?_eq_some_iff {value : Value} {n : Int64} :
    value.integer? = some n ↔ value = .integer n := by
  cases value <;> simp [Value.integer?]

theorem visible_define {before : List (Binding Node)} (visible : Visible table before)
    {name : String} {node : Node} {value : Value} (denotes : Denotes (Refers before) node value) :
    Visible (table.define name value).1 (before ++ [⟨some name, some node⟩]) where
  sound := Constants.sound_define visible.sound name value
  agree other n := by
    rw [refers_snoc, Constants.integer?_define visible.sound]
    split
    · rw [integer?_eq_some_iff]
      constructor
      · intro denotesInteger
        exact denotes_unique visible.agree denotes denotesInteger
      · rintro rfl
        exact denotes
    · exact visible.agree other n

end ConfigDecl.Configuration

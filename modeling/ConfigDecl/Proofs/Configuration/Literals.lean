import ConfigDecl.Proofs.Configuration.Resolution

/-! # Nodes that are literals

Every value can be written as a node that refers to no constant: an integer in
decimal, a text as it is, and a dictionary with an entry for each key in order.
A value that came out of a resolution has each key once in each of its
dictionaries, and resolving its literal gives it back. -/

set_option autoImplicit false

namespace ConfigDecl

namespace Node

mutual

/-- The literal of a value. -/
def ofValue : Value → Node
  | .integer n => .number (some (Integer.decimal n))
  | .text content => .string (some content)
  | .dictionary ⟨entries⟩ => .dictionary (ofEntries entries)

def ofEntries : List (String × Value) → List Entry
  | [] => []
  | (key, value) :: rest => ⟨some key, some (ofValue value)⟩ :: ofEntries rest

end

end Node

namespace Value

mutual

/-- Every dictionary, at every depth, has each key once. -/
def KeysDistinct : Value → Prop
  | .integer _ => True
  | .text _ => True
  | .dictionary ⟨entries⟩ => (entries.map Prod.fst).Nodup ∧ EntriesDistinct entries

def EntriesDistinct : List (String × Value) → Prop
  | [] => True
  | (_, value) :: rest => KeysDistinct value ∧ EntriesDistinct rest

end

theorem entriesDistinct_insertEntry {key : String} {value : Value}
    {entries : List (String × Value)} (distinct : value.KeysDistinct)
    (others : EntriesDistinct entries) :
    EntriesDistinct (Dictionary.insertEntry key value entries) := by
  induction entries with
  | nil => exact ⟨distinct, trivial⟩
  | cons entry rest ih =>
      obtain ⟨other, old⟩ := entry
      obtain ⟨oldDistinct, restDistinct⟩ := others
      rw [Dictionary.insertEntry]
      split
      · exact ⟨distinct, restDistinct⟩
      · exact ⟨oldDistinct, ih restDistinct⟩

theorem keysDistinct_insert {dict : Dictionary Value} {key : String} {value : Value}
    (distinct : value.KeysDistinct) (others : (Value.dictionary dict).KeysDistinct) :
    (Value.dictionary (dict.insert key value)).KeysDistinct :=
  ⟨Dictionary.keys_nodup_insert others.1 key value, entriesDistinct_insertEntry distinct others.2⟩

end Value

namespace Configuration

variable {table : Constants}

/-! ## Resolved values -/

mutual

theorem keysDistinct_of_resolve : ∀ {node : Node} {path : String} {value : Value},
    resolve table path node = .ok value → value.KeysDistinct
  | .number (some text), path, value, resolved => by
      rw [resolve, resolveNumber] at resolved
      split at resolved
      · cases resolved
        trivial
      · cases resolved
  | .number none, path, value, resolved => by
      rw [resolve] at resolved
      cases resolved
  | .string text, path, value, resolved => by
      rw [resolve] at resolved
      cases resolved
      trivial
  | .expression text, path, value, resolved => by
      rw [resolve, resolveExpression] at resolved
      split at resolved
      · cases resolved
        trivial
      · cases resolved
  | .unsupported kind, path, value, resolved => by
      rw [resolve] at resolved
      cases resolved
  | .dictionary entries, path, value, resolved => by
      rw [resolve, Attempt.do_eq_bind, Attempt.bind_eq_ok_iff] at resolved
      obtain ⟨dict, collected, same⟩ := resolved
      cases same
      have empty : (Value.dictionary ∅).KeysDistinct := ⟨List.nodup_nil, trivial⟩
      exact keysDistinct_of_resolveEntries empty collected

theorem keysDistinct_of_resolveEntries : ∀ {entries : List Entry} {path : String}
    {dict result : Dictionary Value}, (Value.dictionary dict).KeysDistinct →
      resolveEntries table path dict entries = .ok result →
        (Value.dictionary result).KeysDistinct
  | [], path, dict, result, distinct, resolved => by
      rw [resolveEntries] at resolved
      cases resolved
      exact distinct
  | ⟨none, _⟩ :: rest, path, dict, result, distinct, resolved => by
      rw [resolveEntries] at resolved
      cases resolved
  | ⟨some key, none⟩ :: rest, path, dict, result, distinct, resolved => by
      rw [resolveEntries] at resolved
      cases resolved
  | ⟨some key, some node⟩ :: rest, path, dict, result, distinct, resolved => by
      rw [resolveEntries, Attempt.do_eq_bind, Attempt.bind_eq_ok_iff] at resolved
      obtain ⟨value, first, later⟩ := resolved
      have inserted : (Value.dictionary (dict.insert key value)).KeysDistinct :=
        Value.keysDistinct_insert (keysDistinct_of_resolve first) distinct
      exact keysDistinct_of_resolveEntries inserted later

end

/-! ## Resolving literals -/

theorem solid_decimal (n : Int64) : Text.Solid (Integer.decimal n).toList := by
  obtain ⟨leaf, chars, _⟩ := Integer.exists_literal_of_literal? (Integer.literal?_decimal n)
  have solid := (Expr.Token.literal leaf).solid
  rw [Expr.Token.word, leaf.toList_word, chars] at solid
  exact solid

theorem resolveNumber_decimal (n : Int64) :
    resolveNumber (Integer.decimal n) = .ok (.integer n) := by
  rw [resolveNumber, Text.trim_of_solid (solid_decimal n), Integer.numeral?_decimal,
    Option.bind_some, Integer.narrow?_toInt]

mutual

theorem resolve_ofValue : ∀ (value : Value) (path : String), value.KeysDistinct →
    resolve table path (Node.ofValue value) = .ok value
  | .integer n, path, _ => by
      rw [Node.ofValue, resolve]
      exact resolveNumber_decimal n
  | .text content, path, _ => by
      rw [Node.ofValue, resolve]
      rfl
  | .dictionary ⟨entries⟩, path, distinct => by
      have collected := resolveEntries_ofEntries entries path [] distinct.1 distinct.2
      have empty : (∅ : Dictionary Value) = ⟨[]⟩ := rfl
      rw [Node.ofValue, resolve, empty, collected]
      rfl

theorem resolveEntries_ofEntries : ∀ (entries : List (String × Value)) (path : String)
    (before : List (String × Value)), ((before ++ entries).map Prod.fst).Nodup →
      Value.EntriesDistinct entries →
        resolveEntries table path ⟨before⟩ (Node.ofEntries entries) = .ok ⟨before ++ entries⟩
  | [], path, before, _, _ => by
      rw [Node.ofEntries, resolveEntries, List.append_nil]
  | (key, value) :: rest, path, before, once, distinct => by
      have fresh : key ∉ before.map Prod.fst := by
        rw [List.map_append, List.nodup_append] at once
        intro member
        exact once.2.2 key member key List.mem_cons_self rfl
      have inserted : (⟨before⟩ : Dictionary Value).insert key value =
          ⟨before ++ [(key, value)]⟩ :=
        congrArg Dictionary.mk (Dictionary.insertEntry_of_fresh fresh value)
      have shifted : before ++ (key, value) :: rest = (before ++ [(key, value)]) ++ rest := by simp
      rw [shifted] at once
      rw [Node.ofEntries, resolveEntries, resolve_ofValue value _ distinct.1, Attempt.do_eq_bind,
        Attempt.bind_ok, inserted, resolveEntries_ofEntries rest path _ once distinct.2, shifted]

end

end Configuration

end ConfigDecl

import ConfigDecl.Proofs.Configuration.Steps

/-! # Faults of a declaration

The faults of a declaration are listed whole, in the order in which they count:
a missing part, the faults of its value in document order, its name, and then
the keys that the value ends up with.  Nothing is resolved to list them.  An
attempt to put the declaration out fails with the first fault of the list, and
succeeds when the list is empty. -/

set_option autoImplicit false

namespace ConfigDecl.Dictionary

variable {α β : Type}

def mapValues (change : α → β) (dict : Dictionary α) : Dictionary β :=
  ⟨dict.entries.map fun entry => (entry.1, change entry.2)⟩

theorem insertEntry_map (change : α → β) (key : String) (value : α)
    (entries : List (String × α)) :
    (insertEntry key value entries).map (fun entry => (entry.1, change entry.2)) =
      insertEntry key (change value) (entries.map fun entry => (entry.1, change entry.2)) := by
  induction entries with
  | nil => rfl
  | cons entry rest ih =>
      obtain ⟨other, old⟩ := entry
      by_cases same : other = key
      · simp [insertEntry, same]
      · simp [insertEntry, same, ih]

theorem mapValues_insert (change : α → β) (dict : Dictionary α) (key : String) (value : α) :
    (dict.insert key value).mapValues change =
      (dict.mapValues change).insert key (change value) :=
  congrArg Dictionary.mk (insertEntry_map change key value dict.entries)

end ConfigDecl.Dictionary

namespace ConfigDecl

theorem Value.entriesKeys_eq_flatMap (entries : List (String × Value)) :
    Value.entriesKeys entries = entries.flatMap fun entry => entry.1 :: entry.2.deepKeys := by
  induction entries with
  | nil => rfl
  | cons entry rest ih => simp [Value.entriesKeys, ih]

namespace Node

mutual

/-- The keys, in pre-order, of the value that the node stands for: each key once
in every dictionary, before the keys in what its last occurrence holds. -/
def deepKeys : Node → List String
  | .number _ => []
  | .string _ => []
  | .dictionary entries =>
      (Dictionary.ofList (heldKeys entries)).entries.flatMap fun entry => entry.1 :: entry.2
  | .expression _ => []
  | .unsupported _ => []

def heldKeys : List Entry → List (String × List String)
  | [] => []
  | ⟨none, _⟩ :: rest => heldKeys rest
  | ⟨some _, none⟩ :: rest => heldKeys rest
  | ⟨some key, some node⟩ :: rest => (key, deepKeys node) :: heldKeys rest

end

end Node

namespace Configuration

/-- The names from a declaration down, joined with dots. -/
def joinPath (names : List String) : String := ".".intercalate names

theorem joinPath_append_key {names : List String} (nonempty : names ≠ []) (key : String) :
    joinPath (names ++ [key]) = entryPath (joinPath names) key := by
  rw [joinPath, String.intercalate_append_of_ne_nil nonempty (List.cons_ne_nil key []),
    String.intercalate_singleton]
  rfl

def numberFaults (text : String) : List Error :=
  match Integer.numeral? (Text.trim text.toList) with
  | some n => if Integer.InRange n then [] else [.invalidNumber text]
  | none => [.invalidNumber text]

def expressionFaults (table : Constants) (text : String) : List Error :=
  match Expr.eval table text with
  | .ok _ => []
  | .error error => [.expression error]

mutual

/-- What is wrong with the node that the names lead to, in document order. -/
def nodeFaults (table : Constants) (names : List String) : Node → List Error
  | .number (some text) => numberFaults text
  | .number none => [.missing (.digits (joinPath names))]
  | .string _ => []
  | .dictionary entries => entriesFaults table names entries
  | .expression text => expressionFaults table (text.getD "")
  | .unsupported kind => [.unsupportedKind kind]

def entriesFaults (table : Constants) (names : List String) : List Entry → List Error
  | [] => []
  | ⟨none, _⟩ :: rest =>
      .missing (.entryName (joinPath names)) :: entriesFaults table names rest
  | ⟨some key, none⟩ :: rest =>
      .missing (.entryValue (joinPath (names ++ [key]))) :: entriesFaults table names rest
  | ⟨some key, some node⟩ :: rest =>
      nodeFaults table (names ++ [key]) node ++ entriesFaults table names rest

end

def nameFaults (kind : NameKind) (name : String) : List Error :=
  if isIdent name then [] else [.invalidName kind name]

def keyFaults (keys : List String) : List Error :=
  (keys.filter fun key => !isIdent key).map fun key => .rendering (.invalidKey key)

def givenFaults (table : Constants) (kind : NameKind) (name : String) (node : Node) :
    List Error :=
  nodeFaults table [name] node ++ nameFaults kind name ++ keyFaults node.deepKeys

/-- The faults of a declaration, those that count before others first. -/
def Declaration.faults (table : Constants) : Declaration → List Error
  | .constant position ⟨none, _⟩ => [.missing (.constantName position)]
  | .constant _ ⟨some name, none⟩ => [.missing (.constantValue name)]
  | .constant _ ⟨some name, some node⟩ => givenFaults table .constant name node
  | .dictionary position ⟨none, _⟩ => [.missing (.dictionaryName position)]
  | .dictionary _ ⟨some name, entries⟩ =>
      givenFaults table .dictionary name (.dictionary entries)

/-! ## The first fault is the failure -/

variable {table : Constants}

theorem failure?_resolveNumber (text : String) :
    Attempt.failure? (resolveNumber text) = (numberFaults text).head? := by
  rw [resolveNumber, numberFaults]
  cases Integer.numeral? (Text.trim text.toList) with
  | none => rfl
  | some n =>
      by_cases range : Integer.InRange n
      · simp [Integer.narrow?, range]
      · simp [Integer.narrow?, range]

theorem failure?_resolveExpression (text : String) :
    Attempt.failure? (resolveExpression table text) = (expressionFaults table text).head? := by
  rw [resolveExpression, expressionFaults]
  cases Expr.eval table text <;> rfl

mutual

theorem failure?_resolve {names : List String} (nonempty : names ≠ []) : ∀ node : Node,
    Attempt.failure? (resolve table (joinPath names) node) =
      (nodeFaults table names node).head?
  | .number (some text) => failure?_resolveNumber text
  | .number none => rfl
  | .string _ => rfl
  | .dictionary entries => by
      rw [resolve, nodeFaults, ← failure?_resolveEntries nonempty ∅ entries]
      cases resolveEntries table (joinPath names) ∅ entries <;> rfl
  | .expression text => failure?_resolveExpression (text.getD "")
  | .unsupported _ => rfl

theorem failure?_resolveEntries {names : List String} (nonempty : names ≠ [])
    (dict : Dictionary Value) : ∀ entries : List Entry,
    Attempt.failure? (resolveEntries table (joinPath names) dict entries) =
      (entriesFaults table names entries).head?
  | [] => rfl
  | ⟨none, _⟩ :: _ => rfl
  | ⟨some key, none⟩ :: _ => by
      rw [resolveEntries, entriesFaults, joinPath_append_key nonempty]
      rfl
  | ⟨some key, some node⟩ :: rest => by
      have longer : names ++ [key] ≠ [] := by simp
      have first := failure?_resolve longer node
      rw [joinPath_append_key nonempty] at first
      rw [resolveEntries, entriesFaults, List.head?_append, ← first]
      cases resolve table (entryPath (joinPath names) key) node with
      | error error => rfl
      | ok value => exact failure?_resolveEntries nonempty (dict.insert key value) rest

end

mutual

theorem deepKeys_of_resolve {path : String} {value : Value} : ∀ {node : Node},
    resolve table path node = .ok value → value.deepKeys = node.deepKeys
  | .number (some text), resolved => by
      rw [resolve, resolveNumber] at resolved
      split at resolved <;> cases resolved
      rfl
  | .number none, resolved => by cases resolved
  | .string _, resolved => by
      cases resolved
      rfl
  | .dictionary entries, resolved => by
      rw [resolve, Attempt.do_eq_bind, Attempt.bind_eq_ok_iff] at resolved
      obtain ⟨dict, collected, same⟩ := resolved
      cases same
      have held := mapValues_of_resolveEntries collected
      rw [Node.deepKeys, Dictionary.ofList, show Dictionary.empty = Dictionary.mapValues
        Value.deepKeys ∅ from rfl, ← held]
      simp [Value.deepKeys, Value.entriesKeys_eq_flatMap, Dictionary.mapValues, List.flatMap_map]
  | .expression text, resolved => by
      rw [resolve, resolveExpression] at resolved
      split at resolved <;> cases resolved
      rfl
  | .unsupported _, resolved => by cases resolved

theorem mapValues_of_resolveEntries {path : String} {dict result : Dictionary Value} :
    ∀ {entries : List Entry}, resolveEntries table path dict entries = .ok result →
      result.mapValues Value.deepKeys =
        (dict.mapValues Value.deepKeys).insertAll (Node.heldKeys entries)
  | [], resolved => by
      cases resolved
      rfl
  | ⟨none, _⟩ :: _, resolved => by cases resolved
  | ⟨some _, none⟩ :: _, resolved => by cases resolved
  | ⟨some key, some node⟩ :: rest, resolved => by
      rw [resolveEntries, Attempt.do_eq_bind, Attempt.bind_eq_ok_iff] at resolved
      obtain ⟨value, first, later⟩ := resolved
      rw [mapValues_of_resolveEntries later, Dictionary.mapValues_insert,
        deepKeys_of_resolve first, Node.heldKeys, Dictionary.insertAll_cons]

end

theorem firstBadKey_eq_head? (keys : List String) :
    (Value.firstBadKey keys).map Error.rendering = (keyFaults keys).head? := by
  rw [Value.firstBadKey, keyFaults, List.head?_map, List.head?_filter, Option.map_map]
  rfl

/-- What is left to do with a value that has been resolved. -/
theorem failure?_checked (kind : NameKind) (name : String) (value : Value) :
    Attempt.failure? ((checkName kind name value).bind Resolved.write) =
      (nameFaults kind name ++ keyFaults value.deepKeys).head? := by
  rw [checkName, nameFaults]
  by_cases named : isIdent name = true
  · rw [if_pos named, if_pos named, List.nil_append, ← firstBadKey_eq_head?, Attempt.bind_ok,
      Resolved.write, Value.render_eq]
    cases Value.firstBadKey value.deepKeys <;> rfl
  · rw [if_neg named, if_neg named]
    rfl

theorem failure?_given (kind : NameKind) (name : String) (node : Node) :
    Attempt.failure? ((resolve table name node).bind fun value =>
        (checkName kind name value).bind Resolved.write) =
      (givenFaults table kind name node).head? := by
  have path : joinPath [name] = name := String.intercalate_singleton
  have first : Attempt.failure? (resolve table (joinPath [name]) node) =
      (nodeFaults table [name] node).head? := failure?_resolve (List.cons_ne_nil name []) node
  rw [path] at first
  rw [givenFaults, List.append_assoc, List.head?_append, ← first]
  cases resolved : resolve table name node with
  | error error => rfl
  | ok value =>
      rw [← deepKeys_of_resolve resolved]
      exact failure?_checked kind name value

/-- Putting a declaration out fails with the first of its faults. -/
theorem failure?_putOut (decl : Declaration) :
    Attempt.failure? (decl.putOut table) = (decl.faults table).head? := by
  match decl with
  | .constant _ ⟨none, _⟩ => rfl
  | .constant _ ⟨some _, none⟩ => rfl
  | .dictionary _ ⟨none, _⟩ => rfl
  | .constant _ ⟨some name, some node⟩ =>
      rw [Declaration.faults, ← failure?_given, Declaration.putOut, Declaration.resolve]
      cases resolve table name node <;> rfl
  | .dictionary _ ⟨some name, entries⟩ =>
      rw [Declaration.faults, ← failure?_given, Declaration.putOut, Declaration.resolve, resolve]
      cases resolveEntries table name ∅ entries <;> rfl

example :
    (Declaration.constant 0 ⟨some "9", some (.dictionary
      [⟨some "a", some (.dictionary [⟨none, none⟩, ⟨some "n", some (.number none)⟩])⟩,
        ⟨some "b", none⟩, ⟨some "a", some (.number (some "1x"))⟩,
        ⟨some "_", some (.string none)⟩])⟩).faults ∅ =
      [.missing (.entryName "9.a"), .missing (.digits "9.a.n"), .missing (.entryValue "9.b"),
        .invalidNumber "1x", .invalidName .constant "9", .rendering (.invalidKey "_")] := by
  decide

end Configuration

end ConfigDecl

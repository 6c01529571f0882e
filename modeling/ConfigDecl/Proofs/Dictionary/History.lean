import ConfigDecl.Proofs.Dictionary.Occurrences
import ConfigDecl.Value
import Mathlib.Data.Finset.Card

/-! # Dictionaries over a history

A dictionary is changed by putting in a value under a key, or by making it anew
from pairs.  After any history it is the dictionary of the pairs that have gone
into it since it was last made anew: every step keeps it so, and the order of the
entries and their values can be read off those pairs. -/

set_option autoImplicit false

namespace ConfigDecl.Dictionary

variable {α : Type}

/-- What is done to a dictionary.  What goes in may be made from the dictionary as
it is, a copy of it for example. -/
inductive Operation (α : Type) where
  | insert (key : String) (value : Dictionary α → α)
  | rebuild (pairs : Dictionary α → List (String × α))

namespace Operation

def apply (dict : Dictionary α) : Operation α → Dictionary α
  | .insert key value => dict.insert key (value dict)
  | .rebuild pairs => ofList (pairs dict)

/-- The pairs that have gone into the dictionary since it was last made anew, these
having gone into it before the operation. -/
def pairs (dict : Dictionary α) (before : List (String × α)) :
    Operation α → List (String × α)
  | .insert key value => before ++ [(key, value dict)]
  | .rebuild pairs => pairs dict

end Operation

def after (operations : List (Operation α)) : Dictionary α :=
  operations.foldl Operation.apply empty

def pairsFrom (dict : Dictionary α) (before : List (String × α)) :
    List (Operation α) → List (String × α)
  | [] => before
  | operation :: rest => pairsFrom (operation.apply dict) (operation.pairs dict before) rest

/-- The pairs that have gone into the dictionary, in order, since the operations
last made it anew. -/
def pairsOf (operations : List (Operation α)) : List (String × α) :=
  pairsFrom empty [] operations

theorem apply_ofList (before : List (String × α)) (operation : Operation α) :
    operation.apply (ofList before) = ofList (operation.pairs (ofList before) before) := by
  cases operation with
  | insert key value =>
      rw [Operation.apply, Operation.pairs, ofList, ofList, insertAll_append]
      rfl
  | rebuild pairs => rfl

theorem foldl_apply_ofList (before : List (String × α)) (operations : List (Operation α)) :
    operations.foldl Operation.apply (ofList before) =
      ofList (pairsFrom (ofList before) before operations) := by
  induction operations generalizing before with
  | nil => rfl
  | cons operation rest ih =>
      rw [List.foldl_cons, pairsFrom, apply_ofList]
      exact ih _

theorem after_eq_ofList (operations : List (Operation α)) :
    after operations = ofList (pairsOf operations) :=
  foldl_apply_ofList [] operations

/-! ## What the entries are -/

/-- The dictionary has the keys of the pairs, each once and in the order in which
they first came in, each with the value that came in last. -/
structure ListsInOrder (pairs : List (String × α)) (dict : Dictionary α) : Prop where
  distinct : dict.keys.Nodup
  entries_eq : dict.entries.map (fun entry => (entry.1, some entry.2)) =
    (pairs.map Prod.fst).eraseDups.map fun key => (key, pairs.reverse.lookup key)
  get?_eq : ∀ key, dict.get? key = pairs.reverse.lookup key
  size_eq : dict.size = (pairs.map Prod.fst).toFinset.card

theorem listsInOrder_ofList (pairs : List (String × α)) : ListsInOrder pairs (ofList pairs) where
  distinct := keys_nodup_ofList pairs
  entries_eq := by
    have collects := collects_ofList pairs
    have found : ∀ entry ∈ (ofList pairs).entries,
        (entry.1, some entry.2) = (entry.1, pairs.reverse.lookup entry.1) := by
      intro entry member
      rw [← collects.get?_eq, get?_of_mem (keys_nodup_ofList pairs) member]
    rw [List.map_congr_left found, ← collects.keys_eq, keys, List.map_map]
    rfl
  get?_eq := (collects_ofList pairs).get?_eq
  size_eq := by
    have sameKeys : (ofList pairs).keys.toFinset = (pairs.map Prod.fst).toFinset := by
      ext key
      rw [(collects_ofList pairs).keys_eq, List.mem_toFinset, List.mem_eraseDups, List.mem_toFinset]
    rw [← sameKeys, List.toFinset_card_of_nodup (keys_nodup_ofList pairs), keys, List.length_map,
      size]

theorem prefix_keys_insert (dict : Dictionary α) (key : String) (value : α) :
    dict.keys <+: (dict.insert key value).keys := by
  rw [keys_insert]
  split
  · exact List.prefix_refl _
  · exact List.prefix_append _ _

/-! ## Entries put in again -/

theorem insert_of_get? {dict : Dictionary α} {key : String} {value : α}
    (found : dict.get? key = some value) : dict.insert key value = dict := by
  obtain ⟨entries⟩ := dict
  apply congrArg mk
  induction entries with
  | nil => cases found
  | cons entry rest ih =>
      obtain ⟨front, old⟩ := entry
      rw [get?_cons] at found
      rw [insertEntry]
      by_cases here : front = key
      · rw [if_pos here] at found
        rw [if_pos here, Option.some.inj found]
      · rw [if_neg here] at found
        rw [if_neg here, ih found]

theorem insertAll_of_get? {dict : Dictionary α} {pairs : List (String × α)}
    (found : ∀ pair ∈ pairs, dict.get? pair.1 = some pair.2) : dict.insertAll pairs = dict := by
  induction pairs with
  | nil => rfl
  | cons pair rest ih =>
      rw [insertAll_cons, insert_of_get? (found pair List.mem_cons_self)]
      exact ih fun other later => found other (List.mem_cons_of_mem _ later)

theorem insertAll_entries {dict : Dictionary α} (distinct : dict.keys.Nodup) :
    dict.insertAll dict.entries = dict :=
  insertAll_of_get? fun _ member => get?_of_mem distinct member

theorem insertAll_of_fresh {before pairs : List (String × α)}
    (distinct : ((before ++ pairs).map Prod.fst).Nodup) :
    (⟨before⟩ : Dictionary α).insertAll pairs = ⟨before ++ pairs⟩ := by
  induction pairs generalizing before with
  | nil => rw [insertAll_nil, List.append_nil]
  | cons pair rest ih =>
      have shifted : before ++ pair :: rest = (before ++ [pair]) ++ rest := by simp
      have fresh : pair.1 ∉ before.map Prod.fst := by
        rw [List.map_append, List.nodup_append] at distinct
        intro member
        exact distinct.2.2 pair.1 member pair.1 List.mem_cons_self rfl
      rw [insertAll_cons, insert, insertEntry_of_fresh fresh, shifted]
      rw [shifted] at distinct
      exact ih distinct

theorem ofList_entries {dict : Dictionary α} (distinct : dict.keys.Nodup) :
    ofList dict.entries = dict :=
  @insertAll_of_fresh α [] dict.entries distinct

/-! ## Every history -/

/-- After any history a dictionary lists the keys in the order in which they first
came in, with the values that came in last.  What is put in next leaves the other
values and all places as they are, and its own entries make the dictionary again,
once or twice over. -/
theorem after_any_history (operations : List (Operation α)) :
    ListsInOrder (pairsOf operations) (after operations) ∧
    (∀ key value,
      (∀ other, ((after operations).insert key value).get? other =
        if other = key then some value else (after operations).get? other) ∧
      (after operations).keys <+: ((after operations).insert key value).keys) ∧
    ofList (after operations).entries = after operations ∧
    ofList ((after operations).entries ++ (after operations).entries) = after operations ∧
    ∀ xs ys : List (String × α),
      ofList (xs ++ ys) = ys.foldl (fun dict pair => dict.insert pair.1 pair.2) (ofList xs) := by
  have lists : ListsInOrder (pairsOf operations) (after operations) := by
    rw [after_eq_ofList]
    exact listsInOrder_ofList _
  have again := ofList_entries lists.distinct
  refine ⟨lists, ?_, again, ?_, ?_⟩
  · intro key value
    refine ⟨?_, prefix_keys_insert _ key value⟩
    intro other
    exact get?_insert _ key other value
  · rw [ofList, insertAll_append, ← ofList, again]
    exact insertAll_entries lists.distinct
  · intro xs ys
    exact insertAll_append empty xs ys

/-- A dictionary that is put into itself, and one of its keys given another value. -/
example :
    after [.insert "a" fun _ => Value.text "x", .insert "b" Value.dictionary,
        .insert "a" fun _ => Value.text "y"] =
      ⟨[("a", .text "y"), ("b", .dictionary ⟨[("a", .text "x")]⟩)]⟩ := by
  rfl

end ConfigDecl.Dictionary

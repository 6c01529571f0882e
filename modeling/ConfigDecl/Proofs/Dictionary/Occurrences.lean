import ConfigDecl.Dictionary
import Mathlib.Data.List.Nodup

/-! # Dictionaries from occurrences

Keys may occur many times in what a dictionary is made from.  The dictionary
lists them in the order of their first occurrences, and each has the value of
its last one; there is only one dictionary of that description. -/

set_option autoImplicit false

namespace ConfigDecl.Dictionary

variable {α : Type}

/-- The keys in the order of their first occurrences, each with its last value. -/
structure Collects (pairs : List (String × α)) (dict : Dictionary α) : Prop where
  keys_eq : dict.keys = (pairs.map Prod.fst).eraseDups
  get?_eq : ∀ key, dict.get? key = pairs.reverse.lookup key

theorem insertEntry_of_fresh {key : String} {entries : List (String × α)}
    (fresh : key ∉ entries.map Prod.fst) (value : α) :
    insertEntry key value entries = entries ++ [(key, value)] := by
  induction entries with
  | nil => rfl
  | cons entry rest ih =>
      rw [List.map_cons, List.mem_cons, not_or] at fresh
      have apart : entry.1 ≠ key := fun same => fresh.1 same.symm
      rw [insertEntry, if_neg apart, ih fresh.2, List.cons_append]

theorem keys_nodup_insert {dict : Dictionary α} (distinct : dict.keys.Nodup) (key : String)
    (value : α) : (dict.insert key value).keys.Nodup := by
  rw [keys_insert]
  split
  · exact distinct
  · next fresh =>
      refine List.nodup_append.2 ⟨distinct, by simp, ?_⟩
      rintro other member _ last rfl
      cases List.mem_singleton.mp last
      exact fresh member

theorem keys_nodup_insertAll {dict : Dictionary α} (distinct : dict.keys.Nodup)
    (pairs : List (String × α)) : (dict.insertAll pairs).keys.Nodup := by
  induction pairs generalizing dict with
  | nil => exact distinct
  | cons pair pairs ih => exact ih (keys_nodup_insert distinct pair.1 pair.2)

theorem keys_nodup_ofList (pairs : List (String × α)) : (ofList pairs).keys.Nodup := by
  have distinct : (empty : Dictionary α).keys.Nodup := List.nodup_nil
  exact keys_nodup_insertAll distinct pairs

theorem keys_insert_of_eraseDups {dict : Dictionary α} {seen : List String}
    (keys : dict.keys = seen.eraseDups) (key : String) (value : α) :
    (dict.insert key value).keys = (seen ++ [key]).eraseDups := by
  rw [keys_insert, keys, List.eraseDups_append]
  by_cases known : key ∈ seen
  · simp [List.mem_eraseDups, List.removeAll, known]
  · simp [List.mem_eraseDups, List.removeAll, List.eraseDups_cons, known]

theorem keys_insertAll_of_eraseDups {dict : Dictionary α} {seen : List String}
    (keys : dict.keys = seen.eraseDups) (pairs : List (String × α)) :
    (dict.insertAll pairs).keys = (seen ++ pairs.map Prod.fst).eraseDups := by
  induction pairs generalizing dict seen with
  | nil => simpa using keys
  | cons pair pairs ih =>
      rw [insertAll_cons, ih (keys_insert_of_eraseDups keys pair.1 pair.2)]
      simp

theorem get?_insertAll (dict : Dictionary α) (pairs : List (String × α)) (key : String) :
    (dict.insertAll pairs).get? key = (pairs.reverse.lookup key).or (dict.get? key) := by
  induction pairs generalizing dict with
  | nil => simp
  | cons pair pairs ih =>
      obtain ⟨other, value⟩ := pair
      rw [insertAll_cons, ih, get?_insert, List.reverse_cons, List.lookup_append, Option.or_assoc]
      by_cases same : key = other
      · simp [same]
      · have apart : (key == other) = false := beq_false_of_ne same
        simp [List.lookup_cons, same, apart]

theorem collects_ofList (pairs : List (String × α)) : Collects pairs (ofList pairs) where
  keys_eq := by
    have none : (empty : Dictionary α).keys = ([] : List String).eraseDups := rfl
    exact keys_insertAll_of_eraseDups none pairs
  get?_eq key := by simp [ofList, get?_insertAll]

theorem get?_cons (key other : String) (value : α) (rest : List (String × α)) :
    (⟨(key, value) :: rest⟩ : Dictionary α).get? other =
      if key = other then some value else (⟨rest⟩ : Dictionary α).get? other := by
  by_cases same : key = other <;> simp [get?, same]

theorem get?_eq_none_of_not_mem (dict : Dictionary α) {key : String} (fresh : key ∉ dict.keys) :
    dict.get? key = none := by
  simp only [get?, Option.map_eq_none_iff, List.find?_eq_none, beq_iff_eq]
  rintro entry member rfl
  exact fresh (List.mem_map_of_mem member)

theorem mem_of_get? {dict : Dictionary α} {key : String} {value : α}
    (found : dict.get? key = some value) : (key, value) ∈ dict.entries := by
  obtain ⟨entry, first, rfl⟩ := Option.map_eq_some_iff.1 found
  have same : (entry.1 == key) = true :=
    List.find?_some (p := fun other : String × α => other.1 == key) first
  rw [← eq_of_beq same]
  exact List.mem_of_find?_eq_some first

theorem get?_of_mem {dict : Dictionary α} (distinct : dict.keys.Nodup) {key : String} {value : α}
    (member : (key, value) ∈ dict.entries) : dict.get? key = some value := by
  obtain ⟨entries⟩ := dict
  induction entries with
  | nil => cases member
  | cons entry rest ih =>
      obtain ⟨front, old⟩ := entry
      obtain ⟨fresh, laterDistinct⟩ := List.nodup_cons.mp distinct
      rw [get?_cons]
      rcases List.mem_cons.mp member with here | later
      · cases here
        simp
      · have apart : front ≠ key := by
          rintro rfl
          exact fresh (List.mem_map.2 ⟨(front, value), later, rfl⟩)
        rw [if_neg apart]
        exact ih laterDistinct later

theorem get?_eq_some_iff {dict : Dictionary α} (distinct : dict.keys.Nodup) {key : String}
    {value : α} : dict.get? key = some value ↔ (key, value) ∈ dict.entries :=
  ⟨mem_of_get?, get?_of_mem distinct⟩

/-- Keys in order and values determine a dictionary. -/
theorem ext_get? {a b : Dictionary α} (sameKeys : a.keys = b.keys) (distinct : a.keys.Nodup)
    (sameValues : ∀ key, a.get? key = b.get? key) : a = b := by
  obtain ⟨as⟩ := a
  obtain ⟨bs⟩ := b
  induction as generalizing bs with
  | nil =>
      have none : bs.map Prod.fst = [] := sameKeys.symm
      rw [List.map_eq_nil_iff.mp none]
  | cons entry as ih =>
      obtain ⟨key, value⟩ := entry
      cases bs with
      | nil => simp [keys] at sameKeys
      | cons entry' bs =>
          obtain ⟨key', value'⟩ := entry'
          obtain ⟨rfl, laterKeys⟩ : key = key' ∧ as.map Prod.fst = bs.map Prod.fst := by
            simpa [keys] using sameKeys
          obtain ⟨fresh, laterDistinct⟩ : key ∉ as.map Prod.fst ∧ (as.map Prod.fst).Nodup :=
            List.nodup_cons.mp distinct
          have firstValue := sameValues key
          simp only [get?_cons, if_true, Option.some.injEq] at firstValue
          have laterValues : ∀ other, (⟨as⟩ : Dictionary α).get? other =
              (⟨bs⟩ : Dictionary α).get? other := by
            intro other
            by_cases same : key = other
            · subst same
              have freshToo : key ∉ bs.map Prod.fst := laterKeys ▸ fresh
              rw [get?_eq_none_of_not_mem ⟨as⟩ fresh, get?_eq_none_of_not_mem ⟨bs⟩ freshToo]
            · simpa [get?_cons, same] using sameValues other
          have later := ih laterDistinct bs laterKeys laterValues
          cases firstValue
          cases later
          rfl

theorem collects_iff {pairs : List (String × α)} {dict : Dictionary α} :
    Collects pairs dict ↔ dict = ofList pairs := by
  constructor
  · intro collects
    have made := collects_ofList pairs
    have sameKeys : (ofList pairs).keys = dict.keys := made.keys_eq.trans collects.keys_eq.symm
    refine (ext_get? sameKeys (keys_nodup_ofList pairs) ?_).symm
    intro key
    rw [made.get?_eq, collects.get?_eq]
  · rintro rfl
    exact collects_ofList pairs

end ConfigDecl.Dictionary

/-! # Dictionaries

A dictionary maps keys to values and lists its entries in the order in which
their keys first came in.  Inserting under a key that is there replaces the
value and leaves the entry where it stands. -/

set_option autoImplicit false

namespace ConfigDecl

structure Dictionary (α : Type) where
  entries : List (String × α)
  deriving DecidableEq, Repr

namespace Dictionary

variable {α : Type}

def empty : Dictionary α := ⟨[]⟩

instance : EmptyCollection (Dictionary α) := ⟨empty⟩

def insertEntry (key : String) (value : α) : List (String × α) → List (String × α)
  | [] => [(key, value)]
  | (other, old) :: rest =>
      if other = key then (other, value) :: rest
      else (other, old) :: insertEntry key value rest

def insert (dict : Dictionary α) (key : String) (value : α) : Dictionary α :=
  ⟨insertEntry key value dict.entries⟩

def get? (dict : Dictionary α) (key : String) : Option α :=
  (dict.entries.find? fun entry => entry.1 == key).map Prod.snd

def keys (dict : Dictionary α) : List String := dict.entries.map Prod.fst

def size (dict : Dictionary α) : Nat := dict.entries.length

def isEmpty (dict : Dictionary α) : Bool := dict.entries.isEmpty

def insertAll (dict : Dictionary α) (pairs : List (String × α)) : Dictionary α :=
  pairs.foldl (fun dict pair => dict.insert pair.1 pair.2) dict

def ofList (pairs : List (String × α)) : Dictionary α := empty.insertAll pairs

@[simp] theorem insertAll_nil (dict : Dictionary α) : dict.insertAll [] = dict := rfl

@[simp] theorem insertAll_cons (dict : Dictionary α) (pair : String × α)
    (pairs : List (String × α)) :
    dict.insertAll (pair :: pairs) = (dict.insert pair.1 pair.2).insertAll pairs := rfl

theorem keys_insertEntry (key : String) (value : α) (entries : List (String × α)) :
    (insertEntry key value entries).map Prod.fst =
      if key ∈ entries.map Prod.fst then entries.map Prod.fst
      else entries.map Prod.fst ++ [key] := by
  induction entries with
  | nil => rfl
  | cons entry rest ih =>
      obtain ⟨other, old⟩ := entry
      by_cases same : other = key
      · simp [insertEntry, same]
      · have apart : ¬ key = other := fun equal => same equal.symm
        by_cases known : key ∈ rest.map Prod.fst
        · rw [if_pos known] at ih
          simp [insertEntry, same, apart, ih, known]
        · rw [if_neg known] at ih
          simp [insertEntry, same, apart, ih, known]

/-- A key that is there keeps its place; a new one comes last. -/
theorem keys_insert (dict : Dictionary α) (key : String) (value : α) :
    (dict.insert key value).keys =
      if key ∈ dict.keys then dict.keys else dict.keys ++ [key] :=
  keys_insertEntry key value dict.entries

@[simp] theorem get?_empty (key : String) : (empty : Dictionary α).get? key = none := rfl

theorem get?_insert (dict : Dictionary α) (key other : String) (value : α) :
    (dict.insert key value).get? other =
      if other = key then some value else dict.get? other := by
  obtain ⟨entries⟩ := dict
  simp only [get?, insert]
  induction entries with
  | nil =>
      by_cases same : other = key
      · simp [insertEntry, same]
      · have apart : ¬ key = other := fun equal => same equal.symm
        simp [insertEntry, same, apart]
  | cons entry rest ih =>
      obtain ⟨front, old⟩ := entry
      by_cases here : front = key
      · by_cases same : other = key
        · simp [insertEntry, here, same]
        · have apart : ¬ key = other := fun equal => same equal.symm
          simp [insertEntry, here, same, apart]
      · by_cases found : front = other
        · have apart : ¬ other = key := fun equal => here (found.trans equal)
          simp [insertEntry, found, apart]
        · simp [insertEntry, here, found, ih]

theorem insertAll_append (dict : Dictionary α) (xs ys : List (String × α)) :
    dict.insertAll (xs ++ ys) = (dict.insertAll xs).insertAll ys :=
  List.foldl_append

end Dictionary

end ConfigDecl

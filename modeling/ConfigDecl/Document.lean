/-! # Documents

A document declares constants and then dictionaries, each in order.  It says
what was written and no more: names and values may be missing, numbers are not
read, expressions not evaluated, and a value may be of any kind at all.  What is
wrong with a document is found out when its configuration is asked for. -/

set_option autoImplicit false

namespace ConfigDecl

/-- A name given to something written; either may be missing. -/
structure Binding (α : Type) where
  name : Option String
  value : Option α
  deriving DecidableEq, Repr

/-- A value as it is written.  A missing text means that the value has none. -/
inductive Node where
  | number (text : Option String)
  | string (text : Option String)
  | dictionary (entries : List (Binding Node))
  | expression (text : Option String)
  /-- A value of a kind that is none of these, or of no kind. -/
  | unsupported (kind : Option String)
  deriving Repr

instance : Inhabited Node := ⟨.number none⟩

abbrev Entry := Binding Node

structure DictionaryDecl where
  name : Option String
  entries : List Entry
  deriving Repr

structure Document where
  constants : List (Binding Node)
  dictionaries : List DictionaryDecl
  deriving Repr

namespace Node

def kinds : List String := ["number", "string", "dictionary", "expression"]

def ofKind (kind : Option String) (text : Option String) (entries : List Entry) : Node :=
  match kind with
  | some "number" => .number text
  | some "string" => .string text
  | some "dictionary" => .dictionary entries
  | some "expression" => .expression text
  | other => .unsupported other

mutual

def decEq : (a b : Node) → Decidable (a = b)
  | .number a, .number b => decidable_of_iff (a = b) (by simp)
  | .number _, .string _ => isFalse (by simp)
  | .number _, .dictionary _ => isFalse (by simp)
  | .number _, .expression _ => isFalse (by simp)
  | .number _, .unsupported _ => isFalse (by simp)
  | .string _, .number _ => isFalse (by simp)
  | .string a, .string b => decidable_of_iff (a = b) (by simp)
  | .string _, .dictionary _ => isFalse (by simp)
  | .string _, .expression _ => isFalse (by simp)
  | .string _, .unsupported _ => isFalse (by simp)
  | .dictionary _, .number _ => isFalse (by simp)
  | .dictionary _, .string _ => isFalse (by simp)
  | .dictionary as, .dictionary bs =>
      match entriesDecEq as bs with
      | isTrue same => isTrue (by rw [same])
      | isFalse differ => isFalse (by simpa using differ)
  | .dictionary _, .expression _ => isFalse (by simp)
  | .dictionary _, .unsupported _ => isFalse (by simp)
  | .expression _, .number _ => isFalse (by simp)
  | .expression _, .string _ => isFalse (by simp)
  | .expression _, .dictionary _ => isFalse (by simp)
  | .expression a, .expression b => decidable_of_iff (a = b) (by simp)
  | .expression _, .unsupported _ => isFalse (by simp)
  | .unsupported _, .number _ => isFalse (by simp)
  | .unsupported _, .string _ => isFalse (by simp)
  | .unsupported _, .dictionary _ => isFalse (by simp)
  | .unsupported _, .expression _ => isFalse (by simp)
  | .unsupported a, .unsupported b => decidable_of_iff (a = b) (by simp)

def entriesDecEq : (as bs : List (Binding Node)) → Decidable (as = bs)
  | [], [] => isTrue rfl
  | [], _ :: _ => isFalse (by simp)
  | _ :: _, [] => isFalse (by simp)
  | ⟨name, value⟩ :: as, ⟨name', value'⟩ :: bs =>
      if sameName : name = name' then
        match valueDecEq value value' with
        | isTrue sameValue =>
            match entriesDecEq as bs with
            | isTrue same => isTrue (by rw [sameName, sameValue, same])
            | isFalse differ => isFalse (by simp [differ])
        | isFalse differ => isFalse (by simp [differ])
      else isFalse (by simp [sameName])

def valueDecEq : (a b : Option Node) → Decidable (a = b)
  | none, none => isTrue rfl
  | none, some _ => isFalse (by simp)
  | some _, none => isFalse (by simp)
  | some a, some b =>
      match decEq a b with
      | isTrue same => isTrue (by rw [same])
      | isFalse differ => isFalse (by simpa using differ)

end

instance : DecidableEq Node := decEq

end Node

deriving instance DecidableEq for DictionaryDecl

deriving instance DecidableEq for Document

end ConfigDecl

import ConfigDecl.Output.Literal

/-! # Keys and literals

A value has a literal exactly when each of its keys, at every depth, is an
identifier.  The literal is then the whole text of the value; otherwise the
first key that is not an identifier, in pre-order, is to blame. -/

set_option autoImplicit false

namespace ConfigDecl.Value

open Output

mutual

/-- The keys at every depth in pre-order, a key before those in what it holds. -/
def deepKeys : Value → List String
  | .integer _ => []
  | .text _ => []
  | .dictionary ⟨entries⟩ => entriesKeys entries

def entriesKeys : List (String × Value) → List String
  | [] => []
  | (key, value) :: rest => key :: (deepKeys value ++ entriesKeys rest)

end

mutual

/-- The written form of the value, whatever its keys are. -/
def literal : Value → String
  | .integer n => Integer.decimal n
  | .text content => textOpen ++ content ++ textClose
  | .dictionary ⟨entries⟩ => dictionaryOpen ++ "\n" ++ entriesLiteral entries ++ dictionaryClose

def entriesLiteral : List (String × Value) → String
  | [] => ""
  | (key, value) :: rest =>
      key ++ dictionaryArrow ++ literal value ++ entryEnd ++ "\n" ++ entriesLiteral rest

end

/-- Every key at every depth is an identifier. -/
def KeysAreIdents (value : Value) : Prop := ∀ key ∈ value.deepKeys, isIdent key = true

def firstBadKey (keys : List String) : Option RenderError :=
  (keys.find? fun key => !isIdent key).map RenderError.invalidKey

theorem firstBadKey_eq_none_iff {keys : List String} :
    firstBadKey keys = none ↔ ∀ key ∈ keys, isIdent key = true := by
  simp [firstBadKey]

theorem firstBadKey_append (xs ys : List String) :
    firstBadKey (xs ++ ys) = (firstBadKey xs).or (firstBadKey ys) := by
  simp only [firstBadKey, List.find?_append]
  cases xs.find? fun key => !isIdent key <;> rfl

mutual

theorem failure_renderOnto (buffer : String) : ∀ value : Value,
    (value.renderOnto buffer).failure = firstBadKey value.deepKeys
  | .integer _ => rfl
  | .text _ => rfl
  | .dictionary ⟨entries⟩ => by
      have failure := failure_renderEntriesOnto (buffer ++ dictionaryOpen ++ "\n") entries
      simp only [renderOnto, deepKeys]
      rw [← failure]
      split
      · next written => rw [written]
      · next written => rw [written]

theorem failure_renderEntriesOnto (buffer : String) : ∀ entries : List (String × Value),
    (renderEntriesOnto buffer entries).failure = firstBadKey (entriesKeys entries)
  | [] => rfl
  | (key, value) :: rest => by
      by_cases ident : isIdent key = true
      · have failure := failure_renderOnto (buffer ++ key ++ dictionaryArrow) value
        have keys : firstBadKey (entriesKeys ((key, value) :: rest)) =
            (firstBadKey value.deepKeys).or (firstBadKey (entriesKeys rest)) := by
          rw [entriesKeys, ← firstBadKey_append]
          simp [firstBadKey, ident]
        rw [renderEntriesOnto, if_pos ident, keys, ← failure]
        split
        · next written =>
            rw [written, Option.none_or]
            exact failure_renderEntriesOnto _ rest
        · next written => rw [written, Option.some_or]
      · simp [renderEntriesOnto, entriesKeys, firstBadKey, ident]

end

mutual

theorem renderOnto_of_idents (buffer : String) : ∀ value : Value, value.KeysAreIdents →
    value.renderOnto buffer = ⟨buffer ++ value.literal, none⟩
  | .integer _, _ => rfl
  | .text _, _ => by simp [renderOnto, literal, String.append_assoc]
  | .dictionary ⟨entries⟩, idents => by
      rw [renderOnto, renderEntriesOnto_of_idents _ entries idents]
      simp [literal, String.append_assoc]

theorem renderEntriesOnto_of_idents (buffer : String) : ∀ entries : List (String × Value),
    (∀ key ∈ entriesKeys entries, isIdent key = true) →
    renderEntriesOnto buffer entries = ⟨buffer ++ entriesLiteral entries, none⟩
  | [], _ => by simp [renderEntriesOnto, entriesLiteral]
  | (key, value) :: rest, idents => by
      have ident : isIdent key = true := idents key (by simp [entriesKeys])
      have valueIdents : value.KeysAreIdents := fun other member =>
        idents other (by simp [entriesKeys, member])
      have restIdents : ∀ other ∈ entriesKeys rest, isIdent other = true := fun other member =>
        idents other (by simp [entriesKeys, member])
      rw [renderEntriesOnto, if_pos ident, renderOnto_of_idents _ value valueIdents]
      simp only []
      rw [renderEntriesOnto_of_idents _ rest restIdents]
      simp [entriesLiteral, String.append_assoc]

end

theorem render_eq (value : Value) :
    value.render =
      match firstBadKey value.deepKeys with
      | none => .ok value.literal
      | some failure => .error failure := by
  rw [render, Rendering.toExcept, failure_renderOnto]
  cases found : firstBadKey value.deepKeys with
  | none => simp [renderOnto_of_idents "" value (firstBadKey_eq_none_iff.1 found)]
  | some failure => rfl

theorem render_eq_ok_iff {value : Value} {text : String} :
    value.render = .ok text ↔ value.KeysAreIdents ∧ text = value.literal := by
  rw [render_eq, KeysAreIdents, ← firstBadKey_eq_none_iff]
  cases firstBadKey value.deepKeys with
  | none => simp [eq_comm]
  | some failure => simp

end ConfigDecl.Value

import Mathlib.Data.List.TakeWhile

/-! # How far a class of characters reaches

The longest beginning of a text within a class of characters is known once what
follows it is known to start outside of the class; and so for bytes. -/

set_option autoImplicit false

namespace ConfigDecl.Text

/-- Nothing, or a character outside of the class and whatever follows. -/
def Stops {α : Type} (inside : α → Bool) (rest : List α) : Prop :=
  ∀ c ∈ rest.head?, inside c = false

variable {α : Type} {inside : α → Bool} {chars rest : List α}

theorem stops_nil : Stops inside [] := by
  intro c first
  cases first

theorem stops_cons {c : α} (outside : inside c = false) : Stops inside (c :: rest) := by
  intro d first
  cases Option.mem_some.mp first
  exact outside

theorem takeWhile_append_of_stops (reached : ∀ c ∈ chars, inside c = true)
    (stops : Stops inside rest) : (chars ++ rest).takeWhile inside = chars := by
  have none : rest.takeWhile inside = [] := by
    cases rest with
    | nil => rfl
    | cons c rest => simp [stops c rfl]
  rw [List.takeWhile_append_of_pos reached, none, List.append_nil]

theorem dropWhile_append_of_stops (reached : ∀ c ∈ chars, inside c = true)
    (stops : Stops inside rest) : (chars ++ rest).dropWhile inside = rest := by
  have all : rest.dropWhile inside = rest := by
    cases rest with
    | nil => rfl
    | cons c rest => simp [stops c rfl]
  rw [List.dropWhile_append_of_pos reached, all]

theorem stops_dropWhile (inside : α → Bool) (chars : List α) :
    Stops inside (chars.dropWhile inside) := by
  intro c first
  have stopped := List.head?_dropWhile_not inside chars
  rw [Option.mem_def.mp first] at stopped
  simpa using stopped

end ConfigDecl.Text

/-! # Attempts

A computation that can fail yields a value or an error.  Attempts in sequence
have a value when each of them has, and the first error is that of the whole. -/

set_option autoImplicit false

namespace ConfigDecl.Attempt

variable {ε α β : Type}

@[simp] theorem do_eq_bind (x : Except ε α) (f : α → Except ε β) : (x >>= f) = x.bind f := rfl

@[simp] theorem bind_ok (a : α) (f : α → Except ε β) : (Except.ok a).bind f = f a := rfl

@[simp] theorem bind_error (error : ε) (f : α → Except ε β) :
    (Except.error error).bind f = .error error := rfl

@[simp] theorem map_ok (a : α) (f : α → β) : (Except.ok a : Except ε α).map f = .ok (f a) := rfl

@[simp] theorem map_error (error : ε) (f : α → β) :
    (Except.error error).map f = .error error := rfl

/-- The error, if the attempt ended in one. -/
def failure? : Except ε α → Option ε
  | .ok _ => none
  | .error error => some error

@[simp] theorem failure?_ok (a : α) : failure? (.ok a : Except ε α) = none := rfl

@[simp] theorem failure?_error (error : ε) :
    failure? (.error error : Except ε α) = some error := rfl

theorem failure?_eq_some_iff {x : Except ε α} {error : ε} :
    failure? x = some error ↔ x = .error error := by
  cases x <;> simp

theorem failure?_eq_none_iff {x : Except ε α} : failure? x = none ↔ ∃ a, x = .ok a := by
  cases x <;> simp

theorem bind_eq_ok_iff {x : Except ε α} {f : α → Except ε β} {b : β} :
    x.bind f = .ok b ↔ ∃ a, x = .ok a ∧ f a = .ok b := by
  cases x <;> simp

theorem map_eq_ok_iff {x : Except ε α} {f : α → β} {b : β} :
    x.map f = .ok b ↔ ∃ a, x = .ok a ∧ f a = b := by
  cases x <;> simp

theorem map_eq_error_iff {x : Except ε α} {f : α → β} {error : ε} :
    x.map f = .error error ↔ x = .error error := by
  cases x <;> simp

/-! ## Side by side -/

/-- Two attempts come out alike: with values that are related, or with errors of
the same sort. -/
inductive Matches {σ α' : Type} (sort : ε → σ) (relates : α → α' → Prop) :
    Except ε α → Except ε α' → Prop where
  | ok {a : α} {a' : α'} (related : relates a a') : Matches sort relates (.ok a) (.ok a')
  | error {cause cause' : ε} (same : sort cause' = sort cause) :
      Matches sort relates (.error cause) (.error cause')

section

variable {σ α' β' : Type} {sort : ε → σ} {relates : α → α' → Prop} {relates' : β → β' → Prop}

theorem Matches.refl (x : Except ε α) : Matches sort Eq x x := by
  cases x with
  | ok a => exact .ok rfl
  | error cause => exact .error rfl

theorem Matches.of_ok {a : α} {x' : Except ε α'} (both : Matches sort relates (.ok a) x') :
    ∃ a', x' = .ok a' ∧ relates a a' := by
  cases both with
  | ok related => exact ⟨_, rfl, related⟩

theorem Matches.of_ok_right {x : Except ε α} {a' : α'}
    (both : Matches sort relates x (.ok a')) : ∃ a, x = .ok a ∧ relates a a' := by
  cases both with
  | ok related => exact ⟨_, rfl, related⟩

theorem Matches.of_error {cause : ε} {x' : Except ε α'}
    (both : Matches sort relates (.error cause : Except ε α) x') :
    ∃ cause', x' = .error cause' ∧ sort cause' = sort cause := by
  cases both with
  | error same => exact ⟨_, rfl, same⟩

theorem Matches.of_error_right {x : Except ε α} {cause' : ε}
    (both : Matches sort relates x (.error cause' : Except ε α')) :
    ∃ cause, x = .error cause ∧ sort cause' = sort cause := by
  cases both with
  | error same => exact ⟨_, rfl, same⟩

theorem Matches.bind {x : Except ε α} {x' : Except ε α'} {f : α → Except ε β}
    {f' : α' → Except ε β'} (first : Matches sort relates x x')
    (later : ∀ a a', relates a a' → Matches sort relates' (f a) (f' a')) :
    Matches sort relates' (x.bind f) (x'.bind f') := by
  cases first with
  | ok related => exact later _ _ related
  | error same => exact .error same

theorem Matches.map {x : Except ε α} {x' : Except ε α'} {f : α → β} {f' : α' → β'}
    (first : Matches sort relates x x')
    (later : ∀ a a', relates a a' → relates' (f a) (f' a')) :
    Matches sort relates' (x.map f) (x'.map f') := by
  cases first with
  | ok related => exact .ok (later _ _ related)
  | error same => exact .error same

end

end ConfigDecl.Attempt

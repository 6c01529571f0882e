import ConfigDecl.Proofs.Configuration.Faults

/-! # The first failure

A document that has no configuration has a first declaration that cannot be put
out.  The document cut before it has a configuration, its first fault is the
error of the whole, and nothing that is declared after it matters. -/

set_option autoImplicit false

namespace ConfigDecl

/-- The document with as many of its declarations as are counted, from the
first: dictionaries are left once all the constants are. -/
def Document.cut (doc : Document) (count : Nat) : Document where
  constants := doc.constants.take count
  dictionaries := doc.dictionaries.take (count - doc.constants.length)

namespace Configuration

theorem take_mapIdx {α β : Type} (place : Nat → α → β) (xs : List α) (count : Nat) :
    (xs.mapIdx place).take count = (xs.take count).mapIdx place := by
  apply List.ext_getElem?
  intro position
  rw [List.getElem?_take, List.getElem?_mapIdx, List.getElem?_mapIdx, List.getElem?_take]
  by_cases inside : position < count
  · rw [if_pos inside, if_pos inside]
  · rw [if_neg inside, if_neg inside]
    rfl

theorem declarations_cut (doc : Document) (count : Nat) :
    declarations (doc.cut count) = (declarations doc).take count := by
  simp only [declarations, Document.cut, List.take_append, take_mapIdx, List.length_mapIdx]

theorem putOutAll_eq_error_iff {table : Constants} {decls : List Declaration} {error : Error} :
    putOutAll table decls = .error error ↔
      ∃ count decl items, decls[count]? = some decl ∧
        putOutAll table (decls.take count) = .ok items ∧
        decl.putOut (tableAfter table (items.map Prod.fst)) = .error error := by
  constructor
  · intro failed
    induction decls generalizing table with
    | nil => cases failed
    | cons first rest ih =>
        rw [putOutAll] at failed
        cases attempt : first.putOut table with
        | error cause =>
            rw [attempt, Attempt.bind_error] at failed
            cases failed
            exact ⟨0, first, [], rfl, rfl, attempt⟩
        | ok item =>
            rw [attempt, Attempt.bind_ok, Attempt.map_eq_error_iff] at failed
            obtain ⟨count, decl, items, there, before, fails⟩ := ih failed
            refine ⟨count + 1, decl, item :: items, there, ?_, fails⟩
            rw [List.take_succ_cons, putOutAll, attempt, Attempt.bind_ok, before,
              Attempt.map_ok]
  · rintro ⟨count, decl, items, there, before, fails⟩
    obtain ⟨inside, here⟩ := List.getElem?_eq_some_iff.1 there
    have split : decls = decls.take count ++ decl :: decls.drop (count + 1) := by
      rw [← here, ← List.drop_eq_getElem_cons inside, List.take_append_drop]
    rw [split, putOutAll_append, before, Attempt.bind_ok, putOutAll, fails, Attempt.bind_error,
      Attempt.map_error]

/-- The document cut at the position has a configuration, and with the constants
that it defines the declaration there has faults, the error first. -/
def FailsAt (doc : Document) (position : Nat) (error : Error) : Prop :=
  ∃ decl, (declarations doc)[position]? = some decl ∧
    (∃ out, ofDocument (doc.cut position) = .ok out) ∧
    (decl.faults (tableAfter ∅ (run (doc.cut position)).declared)).head? = some error

theorem failsAt_iff {doc : Document} {position : Nat} {error : Error} :
    FailsAt doc position error ↔
      ∃ decl items, (declarations doc)[position]? = some decl ∧
        putOutAll ∅ ((declarations doc).take position) = .ok items ∧
        decl.putOut (tableAfter ∅ (items.map Prod.fst)) = .error error := by
  constructor
  · rintro ⟨decl, there, ⟨out, cut⟩, first⟩
    obtain ⟨items, before, declared, _⟩ := ofDocument_eq_ok_iff_putOutAll.1 cut
    rw [declared, ← failure?_putOut, Attempt.failure?_eq_some_iff] at first
    rw [declarations_cut] at before
    exact ⟨decl, items, there, before, first⟩
  · rintro ⟨decl, items, there, before, first⟩
    rw [← declarations_cut] at before
    refine ⟨decl, there, ⟨_, ofDocument_eq_ok_iff_putOutAll.2 ⟨items, before, ?_, rfl⟩⟩, ?_⟩
    · exact declared_runFrom before
    · rw [run, declared_runFrom before, ← failure?_putOut, first, Attempt.failure?_error]

theorem ofDocument_eq_error_iff {doc : Document} {error : Error} :
    ofDocument doc = .error error ↔ ∃ position, FailsAt doc position error := by
  rw [ofDocument_eq, Attempt.map_eq_error_iff, putOutAll_eq_error_iff]
  simp only [failsAt_iff]

theorem failsAt_of_cut_eq {doc other : Document} {position : Nat} {error : Error}
    (same : other.cut (position + 1) = doc.cut (position + 1))
    (fails : FailsAt doc position error) : FailsAt other position error := by
  obtain ⟨decl, items, there, before, first⟩ := failsAt_iff.1 fails
  have taken :
      (declarations other).take (position + 1) = (declarations doc).take (position + 1) := by
    rw [← declarations_cut, ← declarations_cut, same]
  refine failsAt_iff.2 ⟨decl, items, ?_, ?_, first⟩
  · rw [← there, ← List.getElem?_take_of_lt (Nat.lt_succ_self position), taken,
      List.getElem?_take_of_lt (Nat.lt_succ_self position)]
  · have shorter := congrArg (List.take position) taken
    rw [List.take_take, List.take_take, Nat.min_eq_left (Nat.le_succ position)] at shorter
    rw [shorter, before]

/-- A document has an error exactly when one of its declarations fails with it
after all before have been put out, and every document that agrees with this one
up to and including that declaration has the same error. -/
theorem ofDocument_fails_at_first (doc : Document) (error : Error) :
    (ofDocument doc = .error error ↔ ∃ position, FailsAt doc position error) ∧
    ∀ position, FailsAt doc position error →
      ∀ other : Document, other.cut (position + 1) = doc.cut (position + 1) →
        ofDocument other = .error error := by
  refine ⟨ofDocument_eq_error_iff, ?_⟩
  intro position fails other same
  exact ofDocument_eq_error_iff.2 ⟨position, failsAt_of_cut_eq same fails⟩

def faultyThird : Document where
  constants :=
    [⟨some "x", some (.number (some " 7 "))⟩, ⟨some "x", some (.string none)⟩,
      -- It has faults of several kinds at two depths.
      ⟨some "3", some (.dictionary
        [⟨some "a", some (.dictionary
          [⟨some "_", some (.number none)⟩, ⟨none, none⟩])⟩,
          ⟨some "a", none⟩])⟩,
      ⟨none, none⟩]
  dictionaries := [⟨none, []⟩]

theorem ofDocument_faultyThird :
    ofDocument faultyThird = .error (.missing (.digits "3.a._")) ∧
      ∀ other : Document, other.cut 3 = faultyThird.cut 3 →
        ofDocument other = .error (.missing (.digits "3.a._")) := by
  have first := ofDocument_fails_at_first faultyThird (.missing (.digits "3.a._"))
  have fails : FailsAt faultyThird 2 (.missing (.digits "3.a._")) := by
    refine ⟨_, rfl, ⟨"x is 7;\nx is @\"\";", ?_⟩, ?_⟩
    · rfl
    · decide
  exact ⟨first.1.2 ⟨2, fails⟩, first.2 2 fails⟩

end Configuration

end ConfigDecl

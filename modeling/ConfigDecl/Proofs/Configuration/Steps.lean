import ConfigDecl.Configuration.Run
import ConfigDecl.Proofs.Attempt
import ConfigDecl.Proofs.Output.Keys

/-! # The steps of a run

A run takes one step for each declaration: it is resolved, its literal is
written, and it becomes visible to the next step.  The items that the steps put
out, each declared name with its line, are those of the whole run, and a run of
two parts in sequence is the second part with what the first one declared. -/

set_option autoImplicit false

namespace ConfigDecl.Configuration

/-- What a declaration declares, and its line. -/
abbrev Item := Resolved × String

def Resolved.write (declared : Resolved) : Except Error Item :=
  match declared.value.render with
  | .ok literal => .ok (declared, declared.line literal)
  | .error failure => .error (.rendering failure)

def Declaration.putOut (table : Constants) (decl : Declaration) : Except Error Item :=
  (decl.resolve table).bind Resolved.write

def putOutAll (table : Constants) : List Declaration → Except Error (List Item)
  | [] => .ok []
  | decl :: rest =>
      (decl.putOut table).bind fun item =>
        (putOutAll (item.1.define table) rest).map (item :: ·)

def tableAfter (table : Constants) (declared : List Resolved) : Constants :=
  declared.foldl Resolved.define table

@[simp] theorem tableAfter_nil (table : Constants) : tableAfter table [] = table := rfl

@[simp] theorem tableAfter_cons (table : Constants) (first : Resolved) (rest : List Resolved) :
    tableAfter table (first :: rest) = tableAfter (first.define table) rest := rfl

def Progress.declared? : Progress → Option Resolved
  | .resolved declared => some declared
  | .emitted _ => none
  | .aborted _ => none

/-- What the run reports as declared, in order. -/
def Run.declared (run : Run) : List Resolved := run.log.filterMap Progress.declared?

theorem write_eq_ok_iff {declared : Resolved} {item : Item} :
    declared.write = .ok item ↔
      declared.value.KeysAreIdents ∧ item = (declared, declared.line declared.value.literal) := by
  rw [Resolved.write]
  constructor
  · intro written
    split at written
    · next literal rendered =>
        obtain ⟨idents, same⟩ := Value.render_eq_ok_iff.1 rendered
        rw [same] at written
        exact ⟨idents, (Except.ok.inj written).symm⟩
    · cases written
  · rintro ⟨idents, rfl⟩
    rw [Value.render_eq_ok_iff.2 ⟨idents, rfl⟩]

theorem putOut_eq_ok_iff {table : Constants} {decl : Declaration} {item : Item} :
    decl.putOut table = .ok item ↔
      decl.resolve table = .ok item.1 ∧ item.1.value.KeysAreIdents ∧
        item.2 = item.1.line item.1.value.literal := by
  rw [Declaration.putOut, Attempt.bind_eq_ok_iff]
  constructor
  · rintro ⟨declared, resolved, written⟩
    obtain ⟨idents, rfl⟩ := write_eq_ok_iff.1 written
    exact ⟨resolved, idents, rfl⟩
  · rintro ⟨resolved, idents, same⟩
    refine ⟨item.1, resolved, write_eq_ok_iff.2 ⟨idents, ?_⟩⟩
    rw [← same]

/-- A run begins with the item of its first declaration. -/
theorem runFrom_cons_of_putOut {table : Constants} {decl : Declaration} {item : Item}
    (rest : List Declaration) (first : decl.putOut table = .ok item) :
    runFrom table (decl :: rest) =
      let later := runFrom (item.1.define table) rest
      ⟨later.lines.map (item.2 :: ·), .resolved item.1 :: .emitted item.2 :: later.log⟩ := by
  obtain ⟨resolved, idents, line⟩ := putOut_eq_ok_iff.1 first
  have rendered := Value.render_eq_ok_iff.2 ⟨idents, rfl⟩
  simp only [runFrom, resolved, rendered, line]

theorem lines_runFrom_cons_of_failure {table : Constants} {decl : Declaration} {error : Error}
    (rest : List Declaration) (first : decl.putOut table = .error error) :
    (runFrom table (decl :: rest)).lines = .error error := by
  rw [Declaration.putOut] at first
  rw [runFrom]
  cases resolved : decl.resolve table with
  | error cause =>
      rw [resolved, Attempt.bind_error] at first
      cases first
      rfl
  | ok declared =>
      rw [resolved, Attempt.bind_ok, Resolved.write] at first
      cases rendered : declared.value.render with
      | error failure =>
          rw [rendered] at first
          cases first
          simp only [rendered]
      | ok literal =>
          rw [rendered] at first
          cases first

theorem lines_runFrom (table : Constants) (decls : List Declaration) :
    (runFrom table decls).lines = (putOutAll table decls).map (·.map Prod.snd) := by
  induction decls generalizing table with
  | nil => rfl
  | cons decl rest ih =>
      rw [putOutAll]
      cases first : decl.putOut table with
      | error error => exact lines_runFrom_cons_of_failure rest first
      | ok item =>
          rw [runFrom_cons_of_putOut rest first, Attempt.bind_ok]
          simp only [ih]
          cases putOutAll (item.1.define table) rest <;> rfl

theorem putOutAll_cons_eq_ok_iff {table : Constants} {decl : Declaration}
    {rest : List Declaration} {items : List Item} :
    putOutAll table (decl :: rest) = .ok items ↔
      ∃ item later, items = item :: later ∧ decl.putOut table = .ok item ∧
        putOutAll (item.1.define table) rest = .ok later := by
  rw [putOutAll, Attempt.bind_eq_ok_iff]
  constructor
  · rintro ⟨item, first, mapped⟩
    obtain ⟨later, restItems, rfl⟩ := Attempt.map_eq_ok_iff.1 mapped
    exact ⟨item, later, rfl, first, restItems⟩
  · rintro ⟨item, later, rfl, first, restItems⟩
    exact ⟨item, first, Attempt.map_eq_ok_iff.2 ⟨later, restItems, rfl⟩⟩

theorem declared_runFrom {table : Constants} {decls : List Declaration} {items : List Item}
    (all : putOutAll table decls = .ok items) :
    (runFrom table decls).declared = items.map Prod.fst := by
  induction decls generalizing table items with
  | nil =>
      cases all
      rfl
  | cons decl rest ih =>
      obtain ⟨item, later, rfl, first, restItems⟩ := putOutAll_cons_eq_ok_iff.1 all
      have declaredLater := ih restItems
      rw [Run.declared] at declaredLater
      rw [runFrom_cons_of_putOut rest first, Run.declared]
      simp [List.filterMap_cons, Progress.declared?, declaredLater]

/-! ## Whole documents -/

theorem ofDocument_eq (doc : Document) :
    ofDocument doc =
      (putOutAll ∅ (declarations doc)).map fun items => joinLines (items.map Prod.snd) := by
  rw [ofDocument, Run.output, run, lines_runFrom]
  cases putOutAll ∅ (declarations doc) <;> rfl

/-- A document has a configuration when all its declarations are put out, and
the run has then reported what they declare. -/
theorem ofDocument_eq_ok_iff_putOutAll {doc : Document} {out : String} :
    ofDocument doc = .ok out ↔
      ∃ items, putOutAll ∅ (declarations doc) = .ok items ∧
        (run doc).declared = items.map Prod.fst ∧ out = joinLines (items.map Prod.snd) := by
  rw [ofDocument_eq, Attempt.map_eq_ok_iff]
  constructor
  · rintro ⟨items, all, rfl⟩
    exact ⟨items, all, declared_runFrom all, rfl⟩
  · rintro ⟨items, all, _, rfl⟩
    exact ⟨items, all, rfl⟩

theorem putOutAll_append (table : Constants) (xs ys : List Declaration) :
    putOutAll table (xs ++ ys) =
      (putOutAll table xs).bind fun items =>
        (putOutAll (tableAfter table (items.map Prod.fst)) ys).map (items ++ ·) := by
  induction xs generalizing table with
  | nil =>
      simp only [List.nil_append, putOutAll, Attempt.bind_ok, List.map_nil, tableAfter_nil]
      cases putOutAll table ys <;> rfl
  | cons decl xs ih =>
      rw [List.cons_append, putOutAll, putOutAll]
      cases decl.putOut table with
      | error error => rfl
      | ok item =>
          simp only [Attempt.bind_ok, ih]
          cases putOutAll (item.1.define table) xs with
          | error error => rfl
          | ok items =>
              simp only [Attempt.bind_ok, Attempt.map_ok, List.map_cons, tableAfter_cons]
              cases putOutAll (tableAfter (item.1.define table) (items.map Prod.fst)) ys <;> rfl

end ConfigDecl.Configuration

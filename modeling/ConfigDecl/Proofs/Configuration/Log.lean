import ConfigDecl.Proofs.Configuration.FirstFailure
import ConfigDecl.Proofs.Configuration.Reached

/-! # What a log tells

A declaration that is put out reports its value and, right after it, its line.
One that fails reports its value only when everything but its literal was in
order; what follows is the error, and with it the log ends.  So a log shows which
declarations were put out, in order, and how the run came to its end. -/

set_option autoImplicit false

namespace ConfigDecl.Configuration

def Item.reported (item : Item) : List Progress := [.resolved item.1, .emitted item.2]

variable {doc : Document} {table : Constants} {error : Error}

/-! ## Before the end -/

theorem reported_of_putsOut {decls : List Declaration} {items : List Item}
    (puts : List.Forall₂ (PutsOut doc) decls items) :
    (items.map Prod.fst).flatMap Resolved.reported = items.flatMap Item.reported := by
  induction puts with
  | nil => rfl
  | @cons decl item decls items first _ ih =>
      have line := (lineOf_iff.1 first.2).2
      have same : item.1.reported = Item.reported item := by
        rw [Resolved.reported, Item.reported, line]
      rw [List.map_cons, List.flatMap_cons, List.flatMap_cons, ih, same]

theorem reaches_of_putOutAll {declared : List Resolved} {decls rest : List Declaration}
    {items : List Item} (reaches : Reaches doc table declared (decls ++ rest))
    (all : putOutAll table decls = .ok items) :
    List.Forall₂ (PutsOut doc) decls items ∧
      Reaches doc (tableAfter table (items.map Prod.fst)) (declared ++ items.map Prod.fst)
        rest := by
  induction decls generalizing table declared items with
  | nil =>
      cases all
      rw [List.map_nil, List.append_nil]
      exact ⟨.nil, reaches⟩
  | cons decl decls ih =>
      obtain ⟨item, later, rfl, first, restItems⟩ := putOutAll_cons_eq_ok_iff.1 all
      have puts := (putOut_eq_ok_iff_declares (visible_of_reaches reaches)).1 first
      obtain ⟨others, reached⟩ := ih (.step reaches first) restItems
      refine ⟨.cons puts others, ?_⟩
      rw [List.append_assoc] at reached
      exact reached

theorem log_of_putOutAll {decls rest : List Declaration} {items : List Item}
    (split : declarations doc = decls ++ rest) (all : putOutAll ∅ decls = .ok items) :
    List.Forall₂ (PutsOut doc) decls items ∧
      (run doc).log = items.flatMap Item.reported ++
        (runFrom (tableAfter ∅ (items.map Prod.fst)) rest).log := by
  have whole : Reaches doc ∅ [] (decls ++ rest) := by
    rw [← split]
    exact .start
  obtain ⟨puts, reached⟩ := reaches_of_putOutAll whole all
  refine ⟨puts, ?_⟩
  rw [log_of_reaches reached, List.nil_append, reported_of_putsOut puts]

/-! ## The end -/

mutual

theorem resolve_ne_rendering {failure : RenderError} : ∀ (node : Node) (path : String),
    resolve table path node ≠ .error (.rendering failure)
  | .number (some text), path => by
      intro failed
      rw [resolve, resolveNumber] at failed
      split at failed <;> cases failed
  | .number none, path => by
      intro failed
      cases failed
  | .string text, path => by
      intro failed
      cases failed
  | .dictionary entries, path => by
      intro failed
      rw [resolve] at failed
      cases collected : resolveEntries table path ∅ entries with
      | ok dict =>
          rw [collected] at failed
          cases failed
      | error cause =>
          rw [collected] at failed
          cases failed
          exact resolveEntries_ne_rendering entries path ∅ collected
  | .expression text, path => by
      intro failed
      rw [resolve, resolveExpression] at failed
      split at failed <;> cases failed
  | .unsupported kind, path => by
      intro failed
      cases failed

theorem resolveEntries_ne_rendering {failure : RenderError} : ∀ (entries : List Entry)
    (path : String) (dict : Dictionary Value),
    resolveEntries table path dict entries ≠ .error (.rendering failure)
  | [], path, dict => by
      intro failed
      cases failed
  | ⟨none, _⟩ :: _, path, dict => by
      intro failed
      cases failed
  | ⟨some key, none⟩ :: _, path, dict => by
      intro failed
      cases failed
  | ⟨some key, some node⟩ :: rest, path, dict => by
      intro failed
      rw [resolveEntries] at failed
      cases first : resolve table (entryPath path key) node with
      | ok value =>
          rw [first] at failed
          exact resolveEntries_ne_rendering rest path (dict.insert key value) failed
      | error cause =>
          rw [first] at failed
          cases failed
          exact resolve_ne_rendering node (entryPath path key) first

end

theorem checkName_ne_rendering {kind : NameKind} {name : String} {value : Value}
    {failure : RenderError} : checkName kind name value ≠ .error (.rendering failure) := by
  intro failed
  rw [checkName] at failed
  split at failed <;> cases failed

/-- Nothing is written before a declaration has been resolved. -/
theorem declaration_resolve_ne_rendering {failure : RenderError} (decl : Declaration) :
    decl.resolve table ≠ .error (.rendering failure) := by
  intro failed
  match decl with
  | .constant _ ⟨none, _⟩ => cases failed
  | .constant _ ⟨some _, none⟩ => cases failed
  | .dictionary _ ⟨none, _⟩ => cases failed
  | .constant _ ⟨some name, some node⟩ =>
      rw [Declaration.resolve] at failed
      cases resolved : resolve table name node with
      | ok value =>
          rw [resolved] at failed
          exact checkName_ne_rendering failed
      | error cause =>
          rw [resolved] at failed
          cases failed
          exact resolve_ne_rendering node name resolved
  | .dictionary _ ⟨some name, entries⟩ =>
      rw [Declaration.resolve] at failed
      cases resolved : resolveEntries table name ∅ entries with
      | ok dict =>
          rw [resolved] at failed
          exact checkName_ne_rendering failed
      | error cause =>
          rw [resolved] at failed
          cases failed
          exact resolveEntries_ne_rendering entries name ∅ resolved

/-- What is reported of a declaration that fails with the error, before the error
itself: its value, if a key in it could not be written, and nothing otherwise. -/
inductive Unwritten (table : Constants) (decl : Declaration) (error : Error) :
    List Progress → Prop where
  | key {key : String} {declared : Resolved} (bad : error = .rendering (.invalidKey key))
      (resolved : decl.resolve table = .ok declared) :
      Unwritten table decl error [.resolved declared]
  | none (other : ∀ key, error ≠ .rendering (.invalidKey key)) : Unwritten table decl error []

theorem log_runFrom_of_failure {decl : Declaration} (rest : List Declaration)
    (fails : decl.putOut table = .error error) :
    ∃ last, Unwritten table decl error last ∧
      (runFrom table (decl :: rest)).log = last ++ [.aborted error] := by
  rw [Declaration.putOut] at fails
  rw [runFrom]
  cases resolved : decl.resolve table with
  | error cause =>
      rw [resolved, Attempt.bind_error] at fails
      cases fails
      refine ⟨[], .none ?_, rfl⟩
      intro key bad
      rw [bad] at resolved
      exact declaration_resolve_ne_rendering decl resolved
  | ok declared =>
      rw [resolved, Attempt.bind_ok, Resolved.write] at fails
      cases rendered : declared.value.render with
      | ok literal =>
          rw [rendered] at fails
          cases fails
      | error failure =>
          rw [rendered] at fails
          cases fails
          cases failure with
          | invalidKey key =>
              refine ⟨[.resolved declared], .key rfl resolved, ?_⟩
              simp only [rendered]
              rfl

/-! ## The whole run -/

/-- A document has a configuration exactly when its log is one value and one line
for each declaration in order, the lines being those of the configuration.  It
has an error exactly when the log shows the declarations before the first one
that fails, the value of that one if a key in it could not be written, and the
error last. -/
theorem log_tells_run (doc : Document) :
    (∀ out, ofDocument doc = .ok out ↔
      ∃ items, List.Forall₂ (PutsOut doc) (declarations doc) items ∧
        (run doc).log = items.flatMap Item.reported ∧
        out = "\n".intercalate (items.map Prod.snd)) ∧
    ∀ error, ofDocument doc = .error error ↔
      ∃ position decl items last, FailsAt doc position error ∧
        (declarations doc)[position]? = some decl ∧
        List.Forall₂ (PutsOut doc) ((declarations doc).take position) items ∧
        Unwritten (tableAfter ∅ (items.map Prod.fst)) decl error last ∧
        (run doc).log = items.flatMap Item.reported ++ (last ++ [.aborted error]) := by
  constructor
  · intro out
    constructor
    · intro has
      obtain ⟨items, all, _, joined⟩ := ofDocument_eq_ok_iff_putOutAll.1 has
      obtain ⟨puts, log⟩ := log_of_putOutAll (List.append_nil _).symm all
      rw [runFrom, List.append_nil] at log
      exact ⟨items, puts, log, joined⟩
    · intro told
      obtain ⟨items, puts, _, joined⟩ := told
      exact (ofDocument_eq_ok_iff doc out).2 ⟨items, puts, joined⟩
  · intro error
    constructor
    · intro has
      obtain ⟨position, fails⟩ := ofDocument_eq_error_iff.1 has
      obtain ⟨decl, items, there, before, first⟩ := failsAt_iff.1 fails
      obtain ⟨inside, here⟩ := List.getElem?_eq_some_iff.1 there
      have split : declarations doc = (declarations doc).take position ++
          decl :: (declarations doc).drop (position + 1) := by
        rw [← here, ← List.drop_eq_getElem_cons inside, List.take_append_drop]
      obtain ⟨puts, log⟩ := log_of_putOutAll split before
      obtain ⟨last, unwritten, rest⟩ :=
        log_runFrom_of_failure ((declarations doc).drop (position + 1)) first
      rw [rest] at log
      exact ⟨position, decl, items, last, fails, there, puts, unwritten, log⟩
    · intro told
      obtain ⟨position, _, _, _, fails, _⟩ := told
      exact ofDocument_eq_error_iff.2 ⟨position, fails⟩

example :
    (run ⟨[⟨some "n", some (.number (some "2"))⟩],
      [⟨some "d", [⟨some "k", some (.expression (some "n n *"))⟩,
        ⟨some "_", some (.string none)⟩]⟩]⟩).log =
      [.resolved ⟨.constant, "n", .integer 2⟩, .emitted "n is 2;",
        .resolved ⟨.dictionary, "d", .dictionary ⟨[("k", .integer 4), ("_", .text "")]⟩⟩,
        .aborted (.rendering (.invalidKey "_"))] := by
  cbv

end ConfigDecl.Configuration

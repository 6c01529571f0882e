import ConfigDecl.Proofs.Configuration.Refinement

/-! # The points of a run

A run stands before each of its declarations with a table of constants and with
what has been declared so far.  At every such point the table holds the constants
in the scope of the next declaration, and what the run has reported is what has
been declared; the rest of the run is one with the table from there on. -/

set_option autoImplicit false

namespace ConfigDecl.Configuration

/-- The run comes to a point with these constants visible, these declared and
these declarations still to come. -/
inductive Reaches (doc : Document) : Constants → List Resolved → List Declaration → Prop where
  | start : Reaches doc ∅ [] (declarations doc)
  | step {table : Constants} {declared : List Resolved} {decl : Declaration}
      {rest : List Declaration} {item : Item}
      (before : Reaches doc table declared (decl :: rest)) (puts : decl.putOut table = .ok item) :
      Reaches doc (item.1.define table) (declared ++ [item.1]) rest

variable {doc : Document} {table : Constants} {declared : List Resolved}
  {decl : Declaration} {rest : List Declaration} {item : Item}

/-! ## What has been reported -/

def Resolved.reported (declared : Resolved) : List Progress :=
  [.resolved declared, .emitted (declared.line declared.value.literal)]

theorem log_of_reaches (reaches : Reaches doc table declared rest) :
    (run doc).log = declared.flatMap Resolved.reported ++ (runFrom table rest).log := by
  induction reaches with
  | start => rfl
  | @step table declared decl rest item _ puts ih =>
      obtain ⟨_, _, line⟩ := putOut_eq_ok_iff.1 puts
      rw [ih, runFrom_cons_of_putOut rest puts]
      simp [Resolved.reported, line]

/-! ## Where the run stands -/

/-- Among the constants, those before being visible, or among the dictionaries,
all constants being visible. -/
def Placed (doc : Document) (table : Constants) (rest : List Declaration) : Prop :=
  (∃ before later, doc.constants = before ++ later ∧ Visible table before ∧
    rest = constantsFrom before.length later ++ dictionariesFrom 0 doc.dictionaries) ∨
  ∃ start later, Visible table doc.constants ∧ rest = dictionariesFrom start later

theorem placed_cons (placed : Placed doc table (decl :: rest)) :
    (∃ before constant later, doc.constants = before ++ constant :: later ∧
      Visible table before ∧ decl = .constant before.length constant ∧
      rest = constantsFrom (before.length + 1) later ++ dictionariesFrom 0 doc.dictionaries) ∨
    ∃ start dictionary later, Visible table doc.constants ∧
      decl = .dictionary start dictionary ∧ rest = dictionariesFrom (start + 1) later := by
  have among : ∀ start later, Visible table doc.constants →
      decl :: rest = dictionariesFrom start later →
      ∃ start dictionary later, Visible table doc.constants ∧
        decl = .dictionary start dictionary ∧ rest = dictionariesFrom (start + 1) later := by
    intro start later visible split
    cases later with
    | nil => cases split
    | cons dictionary later =>
        rw [dictionariesFrom_cons] at split
        cases split
        exact ⟨start, dictionary, later, visible, rfl, rfl⟩
  obtain ⟨before, later, whole, visible, split⟩ | ⟨start, later, visible, split⟩ := placed
  · cases later with
    | nil =>
        rw [List.append_nil] at whole
        rw [← whole] at visible
        exact .inr (among 0 doc.dictionaries visible split)
    | cons constant later =>
        rw [constantsFrom_cons, List.cons_append] at split
        cases split
        exact .inl ⟨before, constant, later, whole, visible, rfl, rfl⟩
  · exact .inr (among start later visible split)

theorem placed_step (placed : Placed doc table (decl :: rest))
    (puts : decl.putOut table = .ok item) :
    Placed doc (item.1.define table) rest := by
  obtain ⟨before, constant, later, whole, visible, rfl, rfl⟩ |
    ⟨start, dictionary, later, visible, rfl, rfl⟩ := placed_cons placed
  · have declares := ((putOut_eq_ok_iff_declares visible).1 puts).1
    refine .inl ⟨before ++ [constant], later, ?_, visible_constant visible declares, ?_⟩
    · rw [whole, List.append_assoc, List.singleton_append]
    · rw [List.length_append, List.length_singleton]
  · have declares := ((putOut_eq_ok_iff_declares visible).1 puts).1
    rw [define_dictionary declares]
    exact .inr ⟨start + 1, later, visible, rfl⟩

theorem placed_of_reaches (reaches : Reaches doc table declared rest) : Placed doc table rest := by
  induction reaches with
  | start => exact .inl ⟨[], doc.constants, rfl, visible_nil, declarations_eq doc⟩
  | step _ puts ih => exact placed_step ih puts

theorem visible_of_reaches (reaches : Reaches doc table declared (decl :: rest)) :
    Visible table (decl.scope doc) := by
  obtain ⟨before, constant, later, whole, visible, rfl, _⟩ |
    ⟨start, dictionary, later, visible, rfl, _⟩ := placed_cons (placed_of_reaches reaches)
  · have scope : (Declaration.constant before.length constant).scope doc = before := by
      simp [Declaration.scope, whole]
    rw [scope]
    exact visible
  · exact visible

end ConfigDecl.Configuration

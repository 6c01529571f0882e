import ConfigDecl.Proofs.Configuration.Reached
import ConfigDecl.Proofs.Expr.Identifiers
import Mathlib

/-! # References to constants

A constant is defined after its name has been examined and its literal written.
So at every point of a run the names in the table are identifiers, which as
words are neither literals nor operators, and each can be referred to: it stands
for what the last constant of that name is. -/

set_option autoImplicit false

namespace ConfigDecl.Configuration

/-- The value of the last constant of that name. -/
def latest (declared : List Resolved) (name : String) : Option Value :=
  (declared.reverse.find? fun other => other.kind = .constant ∧ other.name = name).map
    Resolved.value

theorem latest_concat (declared : List Resolved) (last : Resolved) (name : String) :
    latest (declared ++ [last]) name =
      if last.kind = .constant ∧ last.name = name then some last.value
      else latest declared name := by
  rw [latest, List.reverse_append, List.reverse_singleton, List.singleton_append, List.find?_cons]
  by_cases named : last.kind = .constant ∧ last.name = name
  · simp [named]
  · simp [named, latest]

theorem mem_of_latest {declared : List Resolved} {name : String} {value : Value}
    (found : latest declared name = some value) : ⟨.constant, name, value⟩ ∈ declared := by
  obtain ⟨constant, first, rfl⟩ := Option.map_eq_some_iff.1 found
  have matching := List.find?_some first
  obtain ⟨kind, rfl⟩ := of_decide_eq_true matching
  rw [← kind]
  exact List.mem_reverse.1 (List.mem_of_find?_eq_some first)

variable {doc : Document} {table : Constants} {declared : List Resolved}
  {rest : List Declaration}

/-! ## One step -/

theorem lookup_define (sound : table.Sound) (declared : Resolved) (name : String) :
    (declared.define table).lookup name =
      if declared.kind = .constant ∧ declared.name = name then some declared.value
      else table.lookup name := by
  cases kind : declared.kind with
  | constant =>
      have defined : declared.define table = (table.define declared.name declared.value).1 := by
        rw [Resolved.define, kind]
      rw [defined, Constants.lookup_define sound]
      simp [eq_comm]
  | dictionary =>
      have unchanged : declared.define table = table := by rw [Resolved.define, kind]
      simp [unchanged]

theorem sound_define (sound : table.Sound) (declared : Resolved) :
    (declared.define table).Sound := by
  rw [Resolved.define]
  split
  · exact Constants.sound_define sound declared.name declared.value
  · exact sound

/-- The table has the last constant of each name and no others; the names are
identifiers and the values have literals. -/
structure Referable (table : Constants) (declared : List Resolved) : Prop where
  sound : table.Sound
  lookup_eq : ∀ name, table.lookup name = latest declared name
  named : ∀ constant ∈ declared, isIdent constant.name = true
  keys : ∀ constant ∈ declared, constant.value.KeysAreIdents

theorem referable_nil : Referable ∅ [] where
  sound := Constants.sound_empty
  lookup_eq name := Constants.lookup_empty name
  named _ member := nomatch member
  keys _ member := nomatch member

theorem referable_concat (referable : Referable table declared) {last : Resolved}
    (named : isIdent last.name = true) (keys : last.value.KeysAreIdents) :
    Referable (last.define table) (declared ++ [last]) where
  sound := sound_define referable.sound last
  lookup_eq name := by
    rw [lookup_define referable.sound, latest_concat, referable.lookup_eq]
  named constant member := by
    rcases List.mem_append.1 member with before | only
    · exact referable.named constant before
    · rw [List.mem_singleton.1 only]
      exact named
  keys constant member := by
    rcases List.mem_append.1 member with before | only
    · exact referable.keys constant before
    · rw [List.mem_singleton.1 only]
      exact keys

/-! ## The whole run -/

theorem referable_of_reaches (reaches : Reaches doc table declared rest) :
    Referable table declared := by
  induction reaches with
  | start => exact referable_nil
  | step before puts ih =>
      have visible := visible_of_reaches before
      obtain ⟨declares, _⟩ := (putOut_eq_ok_iff_declares visible).1 puts
      exact referable_concat ih declares.named declares.keys

/-- At every point of a run the table has just the last constant of each name
declared so far, its names are identifiers, its values have literals, and each
name is an expression of one word that is no literal and no operator.  The
integers can be referred to and the other constants cannot, and no constant
makes a difference to a literal or an operator. -/
theorem reached_constants_are_referable (reaches : Reaches doc table declared rest) :
    (run doc).log = declared.flatMap Resolved.reported ++ (runFrom table rest).log ∧
    (∀ name value, ((name, value) ∈ table.defs ↔ latest declared name = some value) ∧
      table.lookup name = latest declared name) ∧
    (∀ name value, (name, value) ∈ table.defs →
      isIdent name = true ∧ (∃ literal, value.render = .ok literal) ∧
        Text.wordsOf name = [name] ∧ Integer.literal? name.toList = none ∧
        Expr.Operator.ofWord? name = none) ∧
    (∀ name n, latest declared name = some (.integer n) →
      Expr.eval table name = .ok n ∧
        ∀ stack, Expr.evalWord table stack name = .ok (n :: stack)) ∧
    (∀ name value, latest declared name = some value → value.integer? = none →
      Expr.eval table name = .error (.unknownToken name)) ∧
    ∀ word, Integer.literal? word.toList ≠ none ∨ Expr.Operator.ofWord? word ≠ none →
      (∀ value, (word, value) ∉ table.defs) ∧
        ∀ stack, Expr.evalWord table stack word = Expr.evalWord ∅ stack word := by
  have referable := referable_of_reaches reaches
  have defined : ∀ name value,
      (name, value) ∈ table.defs ↔ latest declared name = some value := by
    intro name value
    rw [← Constants.lookup_eq_some_iff referable.sound, referable.lookup_eq]
  have named : ∀ name value, latest declared name = some value → isIdent name = true := by
    intro name value found
    exact referable.named _ (mem_of_latest found)
  have integer : ∀ name value, latest declared name = some value →
      table.integer? name = value.integer? := by
    intro name value found
    rw [Constants.integer?, referable.lookup_eq, found, Option.bind_some]
  refine ⟨log_of_reaches reaches, fun name value => ⟨defined name value, referable.lookup_eq name⟩,
    ?_, ?_, ?_, ?_⟩
  · intro name value member
    have found := (defined name value).1 member
    have ident := named name value found
    have keys := referable.keys _ (mem_of_latest found)
    exact ⟨ident, ⟨_, Value.render_eq_ok_iff.2 ⟨keys, rfl⟩⟩,
      Expr.wordsOf_of_solid (Expr.solid_of_isIdent ident), Expr.literal?_of_isIdent ident,
      Expr.ofWord?_of_isIdent ident⟩
  · intro name n found
    have ident := named name _ found
    refine ⟨?_, ?_⟩
    · rw [Expr.eval_of_isIdent ident, integer name _ found]
      rfl
    · intro stack
      rw [Expr.evalWord_of_isIdent ident, integer name _ found]
      rfl
  · intro name value found other
    rw [Expr.eval_of_isIdent (named name value found), integer name value found, other]
  · intro word token
    refine ⟨?_, Expr.evalWord_eq_of_token token table ∅⟩
    intro value member
    have ident := named word value ((defined word value).1 member)
    rcases token with isLiteral | isOperator
    · exact isLiteral (Expr.literal?_of_isIdent ident)
    · exact isOperator (Expr.ofWord?_of_isIdent ident)

/-- One name is defined again with what it was before, and one is an operator up
to its brackets. -/
def redefining : Document where
  constants :=
    [⟨some "n", some (.number (some " +2 "))⟩, ⟨some "abs", some (.string (some "-"))⟩,
      ⟨some "n", some (.expression (some "n n * abs()"))⟩]
  dictionaries := [⟨some "d", []⟩]

theorem reached_redefining :
    ∃ table, Reaches redefining table
        [⟨.constant, "n", .integer 2⟩, ⟨.constant, "abs", .text "-"⟩, ⟨.constant, "n", .integer 4⟩]
        [.dictionary 0 ⟨some "d", []⟩] ∧
      Expr.eval table "n" = .ok 4 ∧ Expr.eval table "abs" = .error (.unknownToken "abs") := by
  have first : (Declaration.constant 0 ⟨some "n", some (.number (some " +2 "))⟩).putOut ∅ =
      .ok (⟨.constant, "n", .integer 2⟩, "n is 2;") := rfl
  have second : (Declaration.constant 1 ⟨some "abs", some (.string (some "-"))⟩).putOut
      ((⟨.constant, "n", .integer 2⟩ : Resolved).define ∅) =
      .ok (⟨.constant, "abs", .text "-"⟩, "abs is @\x22-\x22;") := rfl
  have third : (Declaration.constant 2 ⟨some "n", some (.expression (some "n n * abs()"))⟩).putOut
      ((⟨.constant, "abs", .text "-"⟩ : Resolved).define
        ((⟨.constant, "n", .integer 2⟩ : Resolved).define ∅)) =
      .ok (⟨.constant, "n", .integer 4⟩, "n is 4;") := by
    cbv
  have reaches : Reaches redefining _ _ _ := .step (.step (.step .start first) second) third
  obtain ⟨_, _, _, integers, others, _⟩ := reached_constants_are_referable reaches
  exact ⟨_, reaches, (integers "n" 4 rfl).1, others "abs" (.text "-") rfl rfl⟩

end ConfigDecl.Configuration

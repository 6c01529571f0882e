import ConfigDecl.Configuration.Resolve
import ConfigDecl.Proofs.Attempt
import ConfigDecl.Proofs.Constants.Lookup
import ConfigDecl.Proofs.Dictionary.Occurrences
import ConfigDecl.Proofs.Expr.Evaluation

/-! # What a document denotes

A meaning for written values that speaks of the document alone.  A name stands
for the integer that the last constant of that name before it denotes, if that
one denotes an integer; an expression denotes the value of the tree whose
postfix notation it is, every operation being exact; a dictionary denotes the
occurrences of its entries, all of which have to denote, collected by key. -/

set_option autoImplicit false

namespace ConfigDecl.Configuration

/-- The value of a tree whose names stand for integers as `refers` says. -/
inductive Computes (refers : String → Int64 → Prop) : Expr.Tree → Int64 → Prop where
  | literal {leaf : Integer.Literal} {n : Int64} (exact : n.toInt = leaf.exact) :
      Computes refers (.literal leaf) n
  | name {leaf : Expr.Name} {n : Int64} (known : refers leaf.word n) :
      Computes refers (.name leaf) n
  | binary {op : Expr.BinaryOperator} {left right : Expr.Tree} {a b n : Int64}
      (ofLeft : Computes refers left a) (ofRight : Computes refers right b)
      (exact : n.toInt = op.exact a.toInt b.toInt) : Computes refers (.binary op left right) n
  | abs {operand : Expr.Tree} {a n : Int64} (ofOperand : Computes refers operand a)
      (exact : n.toInt = (a.toInt.natAbs : Int)) : Computes refers (.abs operand) n

mutual

inductive Denotes (refers : String → Int64 → Prop) : Node → Value → Prop where
  | number {text : String} {n : Int64}
      (read : Integer.numeral? (Text.trim text.toList) = some n.toInt) :
      Denotes refers (.number (some text)) (.integer n)
  | string {text : Option String} : Denotes refers (.string text) (.text (text.getD ""))
  | dictionary {entries : List Entry} {pairs : List (String × Value)} {dict : Dictionary Value}
      (each : EntriesDenote refers entries pairs) (collects : dict.Collects pairs) :
      Denotes refers (.dictionary entries) (.dictionary dict)
  | expression {text : Option String} {tree : Expr.Tree} {n : Int64}
      (words : Text.wordsOf (text.getD "") = tree.words) (computes : Computes refers tree n) :
      Denotes refers (.expression text) (.integer n)

inductive EntriesDenote (refers : String → Int64 → Prop) :
    List Entry → List (String × Value) → Prop where
  | nil : EntriesDenote refers [] []
  | cons {key : String} {node : Node} {value : Value} {rest : List Entry}
      {pairs : List (String × Value)} (first : Denotes refers node value)
      (later : EntriesDenote refers rest pairs) :
      EntriesDenote refers (⟨some key, some node⟩ :: rest) ((key, value) :: pairs)

end

/-- After the constants `before`, the last of that name denotes the integer. -/
def Refers (before : List (Binding Node)) (name : String) (n : Int64) : Prop :=
  ∃ earlier node later, ∃ _ : before = earlier ++ ⟨some name, some node⟩ :: later,
    (∀ decl ∈ later, decl.name ≠ some name) ∧ Denotes (Refers earlier) node (.integer n)
termination_by before.length
decreasing_by
  subst before
  simp only [List.length_append, List.length_cons]
  omega

theorem refers_iff (before : List (Binding Node)) (name : String) (n : Int64) :
    Refers before name n ↔
      ∃ earlier node later, before = earlier ++ ⟨some name, some node⟩ :: later ∧
        (∀ decl ∈ later, decl.name ≠ some name) ∧
        Denotes (Refers earlier) node (.integer n) := by
  rw [Refers]
  simp only [exists_prop]

/-- One more constant decides on its own name and on no other. -/
theorem refers_snoc (before : List (Binding Node)) (name other : String) (node : Node)
    (n : Int64) :
    Refers (before ++ [⟨some name, some node⟩]) other n ↔
      if other = name then Denotes (Refers before) node (.integer n)
      else Refers before other n := by
  rw [refers_iff]
  split
  · next same =>
      subst same
      constructor
      · rintro ⟨earlier, found, later, split, others, denotes⟩
        rcases List.eq_nil_or_concat later with rfl | ⟨init, last, rfl⟩
        · obtain ⟨rfl, same⟩ := List.append_inj' split rfl
          cases same
          exact denotes
        · rw [List.concat_eq_append, ← List.cons_append, ← List.append_assoc] at split
          obtain ⟨_, same⟩ := List.append_inj' split rfl
          cases same
          exact absurd rfl (others ⟨some other, some node⟩ (by simp))
      · intro denotes
        exact ⟨before, node, [], rfl, by simp, denotes⟩
  · next apart =>
      rw [refers_iff]
      constructor
      · rintro ⟨earlier, found, later, split, others, denotes⟩
        rcases List.eq_nil_or_concat later with rfl | ⟨init, last, rfl⟩
        · obtain ⟨_, same⟩ := List.append_inj' split rfl
          cases same
          exact absurd rfl apart
        · rw [List.concat_eq_append, ← List.cons_append, ← List.append_assoc] at split
          obtain ⟨rfl, _⟩ := List.append_inj' split rfl
          exact ⟨earlier, found, init, rfl, fun decl member => others decl (by simp [member]),
            denotes⟩
      · rintro ⟨earlier, found, later, rfl, others, denotes⟩
        refine ⟨earlier, found, later ++ [⟨some name, some node⟩], by simp, ?_, denotes⟩
        intro decl member
        rcases List.mem_append.mp member with inside | last
        · exact others decl inside
        · cases List.mem_singleton.mp last
          intro same
          exact apart (Option.some.inj same).symm

theorem not_refers_nil (name : String) (n : Int64) : ¬ Refers [] name n := by
  rw [refers_iff]
  rintro ⟨earlier, node, later, split, _⟩
  simp at split

/-! ## Expressions -/

def Agree (refers : String → Int64 → Prop) (scope : Expr.Scope) : Prop :=
  ∀ name n, refers name n ↔ scope name = some n

theorem value_of_computes {refers : String → Int64 → Prop} {scope : Expr.Scope}
    (agree : Agree refers scope) {tree : Expr.Tree} {n : Int64} (computes : Computes refers tree n) :
    tree.InRangeThroughout scope ∧ tree.value scope = some n.toInt := by
  induction computes with
  | @literal leaf n exact =>
      have value : (Expr.Tree.literal leaf).value scope = some n.toInt := congrArg some exact.symm
      refine ⟨?_, value⟩
      intro sub member
      cases List.mem_singleton.mp member
      exact ⟨_, value, Integer.inRange_toInt n⟩
  | @name leaf n known =>
      have value : (Expr.Tree.name leaf).value scope = some n.toInt := by
        simp [Expr.Tree.value, (agree leaf.word n).1 known]
      refine ⟨?_, value⟩
      intro sub member
      cases List.mem_singleton.mp member
      exact ⟨_, value, Integer.inRange_toInt n⟩
  | @binary op left right a b n _ _ exact leftIH rightIH =>
      obtain ⟨leftRange, leftValue⟩ := leftIH
      obtain ⟨rightRange, rightValue⟩ := rightIH
      have value := Expr.Tree.value_binary_of_values op leftValue rightValue
      rw [← exact] at value
      exact ⟨Expr.Tree.inRangeThroughout_binary.2
        ⟨leftRange, rightRange, _, value, Integer.inRange_toInt n⟩, value⟩
  | @abs operand a n _ exact ih =>
      obtain ⟨operandRange, operandValue⟩ := ih
      have value := Expr.Tree.value_abs_of_value operandValue
      rw [← exact] at value
      exact ⟨Expr.Tree.inRangeThroughout_abs.2 ⟨operandRange, _, value, Integer.inRange_toInt n⟩,
        value⟩

theorem word_of_inRangeThroughout {scope : Expr.Scope} {tree : Expr.Tree}
    (inRange : tree.InRangeThroughout scope) : ∃ n : Int64, tree.value scope = some n.toInt := by
  obtain ⟨n, value, within⟩ := inRange.value_inRange
  refine ⟨Int64.ofInt n, ?_⟩
  rw [value, Integer.toInt_ofInt within]

theorem computes_of_value {refers : String → Int64 → Prop} {scope : Expr.Scope}
    (agree : Agree refers scope) {tree : Expr.Tree} {n : Int64}
    (inRange : tree.InRangeThroughout scope) (value : tree.value scope = some n.toInt) :
    Computes refers tree n := by
  induction tree generalizing n with
  | literal leaf => exact .literal (Option.some.inj value).symm
  | name leaf =>
      obtain ⟨w, found, same⟩ := Option.map_eq_some_iff.mp value
      cases Int64.toInt.inj same
      exact .name ((agree leaf.word _).2 found)
  | binary op left right leftIH rightIH =>
      obtain ⟨leftRange, rightRange, _⟩ := Expr.Tree.inRangeThroughout_binary.1 inRange
      obtain ⟨a, leftValue⟩ := word_of_inRangeThroughout leftRange
      obtain ⟨b, rightValue⟩ := word_of_inRangeThroughout rightRange
      rw [Expr.Tree.value_binary_of_values op leftValue rightValue] at value
      exact .binary (leftIH leftRange leftValue) (rightIH rightRange rightValue)
        (Option.some.inj value).symm
  | abs operand ih =>
      obtain ⟨operandRange, _⟩ := Expr.Tree.inRangeThroughout_abs.1 inRange
      obtain ⟨a, operandValue⟩ := word_of_inRangeThroughout operandRange
      rw [Expr.Tree.value_abs_of_value operandValue] at value
      exact .abs (ih operandRange operandValue) (Option.some.inj value).symm

theorem eval_eq_ok_iff {refers : String → Int64 → Prop} {table : Constants}
    (agree : Agree refers table.integer?) {text : String} {n : Int64} :
    Expr.eval table text = .ok n ↔
      ∃ tree : Expr.Tree, Text.wordsOf text = tree.words ∧ Computes refers tree n := by
  constructor
  · intro evaluated
    obtain ⟨tree, words, ⟨clear, value⟩⟩ := Expr.exists_tree_of_eval evaluated
    exact ⟨tree, words, computes_of_value agree (Expr.Tree.fault_eq_none_iff.1 clear) value⟩
  · rintro ⟨tree, words, computes⟩
    obtain ⟨inRange, value⟩ := value_of_computes agree computes
    have comes := Expr.eval_of_words table words
    cases evaluated : Expr.eval table text with
    | ok m =>
        rw [evaluated] at comes
        obtain ⟨_, value'⟩ := comes
        rw [value] at value'
        rw [Int64.toInt.inj (Option.some.inj value')]
    | error error =>
        rw [evaluated] at comes
        cases comes with
        | fault first =>
            rw [Expr.Tree.fault_eq_none_iff.2 inRange] at first
            cases first

end ConfigDecl.Configuration

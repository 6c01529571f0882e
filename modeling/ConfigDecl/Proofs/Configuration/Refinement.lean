import ConfigDecl.Proofs.Configuration.Resolution
import ConfigDecl.Proofs.Configuration.Steps

/-! # A run refines the denotation

Every declaration has a scope: the constants before it, and for a dictionary all
constants.  It declares something when it is well-formed in that scope, and a
run puts out the lines of what the declarations declare, all of them or none. -/

set_option autoImplicit false

namespace ConfigDecl.Configuration

/-- The constants that expressions in the declaration may refer to. -/
def Declaration.scope (doc : Document) : Declaration → List (Binding Node)
  | .constant position _ => doc.constants.take position
  | .dictionary _ _ => doc.constants

/-- Well-formed after the constants `before`: the name is an identifier, the value
is there and denotes, and the keys in what it denotes are identifiers. -/
inductive Declares (before : List (Binding Node)) : Declaration → Resolved → Prop where
  | constant {position : Nat} {name : String} {node : Node} {value : Value}
      (named : isIdent name = true) (denotes : Denotes (Refers before) node value)
      (keys : value.KeysAreIdents) :
      Declares before (.constant position ⟨some name, some node⟩) ⟨.constant, name, value⟩
  | dictionary {position : Nat} {name : String} {entries : List Entry} {value : Value}
      (named : isIdent name = true) (denotes : Denotes (Refers before) (.dictionary entries) value)
      (keys : value.KeysAreIdents) :
      Declares before (.dictionary position ⟨some name, entries⟩) ⟨.dictionary, name, value⟩

theorem Declares.named {before : List (Binding Node)} {decl : Declaration} {declared : Resolved}
    (declares : Declares before decl declared) : isIdent declared.name = true := by
  cases declares with
  | constant named denotes keys => exact named
  | dictionary named denotes keys => exact named

theorem Declares.keys {before : List (Binding Node)} {decl : Declaration} {declared : Resolved}
    (declares : Declares before decl declared) : declared.value.KeysAreIdents := by
  cases declares with
  | constant named denotes keys => exact keys
  | dictionary named denotes keys => exact keys

inductive LineOf : Resolved → String → Prop where
  | constant {name literal : String} {value : Value} (rendered : value.render = .ok literal) :
      LineOf ⟨.constant, name, value⟩ (name ++ " is " ++ literal ++ ";")
  | dictionary {name literal : String} {value : Value} (rendered : value.render = .ok literal) :
      LineOf ⟨.dictionary, name, value⟩ (name ++ " -> " ++ literal)

theorem lineOf_iff {declared : Resolved} {line : String} :
    LineOf declared line ↔
      declared.value.KeysAreIdents ∧ line = declared.line declared.value.literal := by
  obtain ⟨kind, name, value⟩ := declared
  cases kind with
  | constant =>
      constructor
      · rintro ⟨rendered⟩
        obtain ⟨idents, rfl⟩ := Value.render_eq_ok_iff.1 rendered
        exact ⟨idents, rfl⟩
      · rintro ⟨idents, rfl⟩
        exact .constant (Value.render_eq_ok_iff.2 ⟨idents, rfl⟩)
  | dictionary =>
      constructor
      · intro lineOf
        cases lineOf with
        | dictionary rendered =>
            obtain ⟨idents, rfl⟩ := Value.render_eq_ok_iff.1 rendered
            exact ⟨idents, rfl⟩
      · rintro ⟨idents, rfl⟩
        exact .dictionary (Value.render_eq_ok_iff.2 ⟨idents, rfl⟩)

theorem checkName_eq_ok_iff {kind : NameKind} {name : String} {value : Value}
    {declared : Resolved} :
    checkName kind name value = .ok declared ↔
      isIdent name = true ∧ declared = ⟨kind, name, value⟩ := by
  rw [checkName]
  split
  · next named => simp [named, eq_comm]
  · next unnamed => simp [unnamed]

variable {table : Constants} {before : List (Binding Node)}

theorem declares_iff_resolve (visible : Visible table before) {decl : Declaration}
    {declared : Resolved} :
    Declares before decl declared ↔
      decl.resolve table = .ok declared ∧ declared.value.KeysAreIdents := by
  constructor
  · intro declares
    cases declares with
    | @constant _ name node value named denotes keys =>
        refine ⟨?_, keys⟩
        rw [Declaration.resolve, (resolve_eq_ok_iff visible.agree node name value).2 denotes]
        exact checkName_eq_ok_iff.2 ⟨named, rfl⟩
    | @dictionary _ name entries value named denotes keys =>
        refine ⟨?_, keys⟩
        have resolved := (resolve_eq_ok_iff visible.agree (.dictionary entries) name value).2 denotes
        rw [resolve, Attempt.do_eq_bind, Attempt.bind_eq_ok_iff] at resolved
        obtain ⟨dict, collected, same⟩ := resolved
        cases same
        rw [Declaration.resolve, collected]
        exact checkName_eq_ok_iff.2 ⟨named, rfl⟩
  · rintro ⟨resolved, keys⟩
    match decl with
    | .constant _ ⟨none, _⟩ => cases resolved
    | .constant _ ⟨some _, none⟩ => cases resolved
    | .dictionary _ ⟨none, _⟩ => cases resolved
    | .constant _ ⟨some name, some node⟩ =>
        rw [Declaration.resolve, Attempt.do_eq_bind, Attempt.bind_eq_ok_iff] at resolved
        obtain ⟨value, ofNode, checked⟩ := resolved
        obtain ⟨named, rfl⟩ := checkName_eq_ok_iff.1 checked
        exact .constant named ((resolve_eq_ok_iff visible.agree node name value).1 ofNode) keys
    | .dictionary _ ⟨some name, entries⟩ =>
        rw [Declaration.resolve, Attempt.do_eq_bind, Attempt.bind_eq_ok_iff] at resolved
        obtain ⟨dict, collected, checked⟩ := resolved
        obtain ⟨named, rfl⟩ := checkName_eq_ok_iff.1 checked
        refine .dictionary named ((resolve_eq_ok_iff visible.agree _ name _).1 ?_) keys
        rw [resolve, collected]
        rfl

theorem putOut_eq_ok_iff_declares (visible : Visible table before) {decl : Declaration}
    {item : Item} :
    decl.putOut table = .ok item ↔ Declares before decl item.1 ∧ LineOf item.1 item.2 := by
  rw [putOut_eq_ok_iff, declares_iff_resolve visible, lineOf_iff]
  constructor
  · rintro ⟨resolved, keys, line⟩
    exact ⟨⟨resolved, keys⟩, keys, line⟩
  · rintro ⟨⟨resolved, keys⟩, _, line⟩
    exact ⟨resolved, keys, line⟩

theorem define_dictionary {position : Nat} {decl : DictionaryDecl} {declared : Resolved}
    (declares : Declares before (.dictionary position decl) declared) :
    declared.define table = table := by
  cases declares
  rfl

theorem visible_constant (visible : Visible table before) {position : Nat}
    {decl : Binding Node} {declared : Resolved}
    (declares : Declares before (.constant position decl) declared) :
    Visible (declared.define table) (before ++ [decl]) := by
  cases declares with
  | constant named denotes keys => exact visible_define visible denotes

/-! ## Whole documents -/

def constantsFrom (start : Nat) (decls : List (Binding Node)) : List Declaration :=
  decls.mapIdx fun position decl => .constant (start + position) decl

def dictionariesFrom (start : Nat) (decls : List DictionaryDecl) : List Declaration :=
  decls.mapIdx fun position decl => .dictionary (start + position) decl

theorem declarations_eq (doc : Document) :
    declarations doc = constantsFrom 0 doc.constants ++ dictionariesFrom 0 doc.dictionaries := by
  simp [declarations, constantsFrom, dictionariesFrom]

theorem constantsFrom_cons (start : Nat) (decl : Binding Node) (rest : List (Binding Node)) :
    constantsFrom start (decl :: rest) =
      .constant start decl :: constantsFrom (start + 1) rest := by
  simp [constantsFrom, List.mapIdx_cons, Nat.add_assoc, Nat.add_comm 1]

theorem dictionariesFrom_cons (start : Nat) (decl : DictionaryDecl)
    (rest : List DictionaryDecl) :
    dictionariesFrom start (decl :: rest) =
      .dictionary start decl :: dictionariesFrom (start + 1) rest := by
  simp [dictionariesFrom, List.mapIdx_cons, Nat.add_assoc, Nat.add_comm 1]

/-- The declaration declares the item in its own scope. -/
def PutsOut (doc : Document) (decl : Declaration) (item : Item) : Prop :=
  Declares (decl.scope doc) decl item.1 ∧ LineOf item.1 item.2

theorem putOutAll_dictionaries_iff {doc : Document} (visible : Visible table doc.constants)
    (start : Nat) (decls : List DictionaryDecl) (items : List Item) :
    putOutAll table (dictionariesFrom start decls) = .ok items ↔
      List.Forall₂ (PutsOut doc) (dictionariesFrom start decls) items := by
  induction decls generalizing start items with
  | nil => cases items <;> simp [dictionariesFrom, putOutAll]
  | cons decl rest ih =>
      rw [dictionariesFrom_cons, putOutAll_cons_eq_ok_iff, List.forall₂_cons_left_iff]
      constructor
      · rintro ⟨item, later, rfl, first, restItems⟩
        have puts := (putOut_eq_ok_iff_declares visible).1 first
        rw [define_dictionary puts.1] at restItems
        exact ⟨item, later, puts, (ih (start + 1) later).1 restItems, rfl⟩
      · rintro ⟨item, later, puts, restItems, rfl⟩
        refine ⟨item, later, rfl, (putOut_eq_ok_iff_declares visible).2 puts, ?_⟩
        rw [define_dictionary puts.1]
        exact (ih (start + 1) later).2 restItems

/-- The constants still to come are put out with those before them visible. -/
theorem putOutAll_constants_iff {doc : Document} {before rest : List (Binding Node)}
    (whole : doc.constants = before ++ rest) (visible : Visible table before)
    (items : List Item) :
    putOutAll table
        (constantsFrom before.length rest ++ dictionariesFrom 0 doc.dictionaries) = .ok items ↔
      List.Forall₂ (PutsOut doc)
        (constantsFrom before.length rest ++ dictionariesFrom 0 doc.dictionaries) items := by
  induction rest generalizing before table items with
  | nil =>
      rw [List.append_nil] at whole
      rw [← whole] at visible
      exact putOutAll_dictionaries_iff visible 0 doc.dictionaries items
  | cons decl rest ih =>
      have scope : (Declaration.constant before.length decl).scope doc = before := by
        simp [Declaration.scope, whole]
      have later : doc.constants = (before ++ [decl]) ++ rest := by simp [whole]
      have length : (before ++ [decl]).length = before.length + 1 := by simp
      rw [constantsFrom_cons, List.cons_append, putOutAll_cons_eq_ok_iff,
        List.forall₂_cons_left_iff, ← length]
      constructor
      · rintro ⟨item, laterItems, rfl, first, restItems⟩
        have puts := (putOut_eq_ok_iff_declares visible).1 first
        have visibleAfter := visible_constant visible puts.1
        refine ⟨item, laterItems, ?_, (ih later visibleAfter laterItems).1 restItems, rfl⟩
        rw [PutsOut, scope]
        exact puts
      · rintro ⟨item, laterItems, puts, restItems, rfl⟩
        rw [PutsOut, scope] at puts
        have visibleAfter := visible_constant visible puts.1
        exact ⟨item, laterItems, rfl, (putOut_eq_ok_iff_declares visible).2 puts,
          (ih later visibleAfter laterItems).2 restItems⟩

theorem putOutAll_declarations_iff (doc : Document) (items : List Item) :
    putOutAll ∅ (declarations doc) = .ok items ↔
      List.Forall₂ (PutsOut doc) (declarations doc) items := by
  rw [declarations_eq]
  have whole : doc.constants = [] ++ doc.constants := rfl
  exact putOutAll_constants_iff whole visible_nil items

theorem ofDocument_eq_ok_iff (doc : Document) (out : String) :
    ofDocument doc = .ok out ↔
      ∃ items, List.Forall₂ (PutsOut doc) (declarations doc) items ∧
        out = joinLines (items.map Prod.snd) := by
  rw [ofDocument_eq, Attempt.map_eq_ok_iff]
  constructor
  · rintro ⟨items, all, rfl⟩
    exact ⟨items, (putOutAll_declarations_iff doc items).1 all, rfl⟩
  · rintro ⟨items, puts, rfl⟩
    exact ⟨items, (putOutAll_declarations_iff doc items).2 puts, rfl⟩

theorem exists_forall₂_iff {α β : Type} {relates : α → β → Prop} {xs : List α} :
    (∃ ys, List.Forall₂ relates xs ys) ↔ ∀ x ∈ xs, ∃ y, relates x y := by
  induction xs with
  | nil => simp
  | cons x xs ih =>
      simp only [List.forall₂_cons_left_iff, List.mem_cons, forall_eq_or_imp, ← ih]
      constructor
      · rintro ⟨_, y, ys, first, later, rfl⟩
        exact ⟨⟨y, first⟩, ys, later⟩
      · rintro ⟨⟨y, first⟩, ys, later⟩
        exact ⟨y :: ys, y, ys, first, later, rfl⟩

theorem exists_putsOut_iff {doc : Document} {decl : Declaration} :
    (∃ item, PutsOut doc decl item) ↔ ∃ declared, Declares (decl.scope doc) decl declared := by
  constructor
  · rintro ⟨item, declares, _⟩
    exact ⟨item.1, declares⟩
  · rintro ⟨declared, declares⟩
    have lineOf := lineOf_iff.2 ⟨declares.keys, rfl⟩
    exact ⟨⟨declared, declared.line declared.value.literal⟩, declares, lineOf⟩

theorem exists_items_of_lines {doc : Document} {decls : List Declaration} {lines : List String}
    (each : List.Forall₂ (fun decl line => ∃ declared, Declares (decl.scope doc) decl declared ∧
      LineOf declared line) decls lines) :
    ∃ items, List.Forall₂ (PutsOut doc) decls items ∧ items.map Prod.snd = lines := by
  induction each with
  | nil => exact ⟨[], .nil, rfl⟩
  | @cons decl line decls lines first _ ih =>
      obtain ⟨declared, declares, lineOf⟩ := first
      obtain ⟨items, puts, rfl⟩ := ih
      exact ⟨(declared, line) :: items, .cons ⟨declares, lineOf⟩ puts, rfl⟩

/-- A document has a configuration exactly when each of its declarations is
well-formed in its scope, and it is then one line for each, in order. -/
theorem ofDocument_refines_denotation (doc : Document) :
    ((∃ out, ofDocument doc = .ok out) ↔
      ∀ decl ∈ declarations doc, ∃ declared, Declares (decl.scope doc) decl declared) ∧
    ∀ out, ofDocument doc = .ok out ↔
      ∃ lines, List.Forall₂
          (fun decl line => ∃ declared, Declares (decl.scope doc) decl declared ∧
            LineOf declared line)
          (declarations doc) lines ∧
        out = "\n".intercalate lines := by
  refine ⟨?_, ?_⟩
  · simp only [← exists_putsOut_iff, ← exists_forall₂_iff, ofDocument_eq_ok_iff]
    constructor
    · rintro ⟨_, items, puts, _⟩
      exact ⟨items, puts⟩
    · rintro ⟨items, puts⟩
      exact ⟨_, items, puts, rfl⟩
  · intro out
    rw [ofDocument_eq_ok_iff]
    constructor
    · rintro ⟨items, puts, rfl⟩
      refine ⟨items.map Prod.snd, ?_, rfl⟩
      refine List.forall₂_map_right_iff.2 (puts.imp ?_)
      rintro decl item ⟨declares, lineOf⟩
      exact ⟨item.1, declares, lineOf⟩
    · rintro ⟨lines, each, rfl⟩
      obtain ⟨items, puts, rfl⟩ := exists_items_of_lines each
      exact ⟨items, puts, rfl⟩

end ConfigDecl.Configuration

import ConfigDecl.Proofs.Configuration.Agreement
import ConfigDecl.Proofs.Configuration.FirstFailure
import ConfigDecl.Proofs.Text.Replacement
import Mathlib.Logic.Equiv.Basic

/-! # Constants by other names

How the constants are called makes no difference.  With the identifiers permuted,
in the names of constants and in the words of expressions, every declaration has
the value it had, or fails as it did: the tables of the two runs hold the same
integers under corresponding names, and no word becomes an identifier or stops
being one. -/

set_option autoImplicit false

namespace ConfigDecl

abbrev Ident := { name : String // isIdent name = true }

/-! ## Renaming -/

/-- The word, or what the identifier that it is goes over to. -/
def renameWord (names : Equiv.Perm Ident) (word : String) : String :=
  if named : isIdent word = true then (names ⟨word, named⟩).1 else word

section

variable {names : Equiv.Perm Ident} {word : String}

theorem renameWord_of_isIdent (named : isIdent word = true) :
    renameWord names word = (names ⟨word, named⟩).1 := dif_pos named

theorem renameWord_of_not_isIdent (unnamed : ¬ isIdent word = true) :
    renameWord names word = word := dif_neg unnamed

theorem isIdent_renameWord (names : Equiv.Perm Ident) (word : String) :
    isIdent (renameWord names word) = isIdent word := by
  by_cases named : isIdent word = true
  · rw [renameWord_of_isIdent named, (names _).2, named]
  · rw [renameWord_of_not_isIdent named]

theorem renameWord_injective (names : Equiv.Perm Ident) :
    Function.Injective (renameWord names) := by
  intro word other same
  have both := congrArg isIdent same
  rw [isIdent_renameWord, isIdent_renameWord] at both
  by_cases named : isIdent word = true
  · have named' : isIdent other = true := both.symm.trans named
    rw [renameWord_of_isIdent named, renameWord_of_isIdent named'] at same
    exact congrArg Subtype.val (names.injective (Subtype.ext same))
  · have unnamed' : ¬ isIdent other = true := fun named' => named (both.trans named')
    rw [renameWord_of_not_isIdent named, renameWord_of_not_isIdent unnamed'] at same
    exact same

theorem solid_renameWord (word : String) (solid : Text.Solid word.toList) :
    Text.Solid (renameWord names word).toList := by
  by_cases named : isIdent word = true
  · apply Expr.solid_of_isIdent
    rw [isIdent_renameWord, named]
  · rw [renameWord_of_not_isIdent named]
    exact solid

end

mutual

def renameNode (names : Equiv.Perm Ident) : Node → Node
  | .number text => .number text
  | .string text => .string text
  | .dictionary entries => .dictionary (renameEntries names entries)
  | .expression text => .expression (text.map (Text.replaceWordsOf (renameWord names)))
  | .unsupported kind => .unsupported kind

/-- The keys stay as they are. -/
def renameEntries (names : Equiv.Perm Ident) : List Entry → List Entry
  | [] => []
  | ⟨key, none⟩ :: rest => ⟨key, none⟩ :: renameEntries names rest
  | ⟨key, some node⟩ :: rest =>
      ⟨key, some (renameNode names node)⟩ :: renameEntries names rest

end

def renameConstant (names : Equiv.Perm Ident) (decl : Binding Node) : Binding Node :=
  ⟨decl.name.map (renameWord names), decl.value.map (renameNode names)⟩

def renameDictionary (names : Equiv.Perm Ident) (decl : DictionaryDecl) : DictionaryDecl :=
  ⟨decl.name, renameEntries names decl.entries⟩

/-- The document with its constants renamed, and with every reference to them. -/
def Document.renamed (names : Equiv.Perm Ident) (doc : Document) : Document where
  constants := doc.constants.map (renameConstant names)
  dictionaries := doc.dictionaries.map (renameDictionary names)

variable {names : Equiv.Perm Ident} {table other : Constants}

namespace Configuration

def Declaration.renamed (names : Equiv.Perm Ident) : Declaration → Declaration
  | .constant position decl => .constant position (renameConstant names decl)
  | .dictionary position decl => .dictionary position (renameDictionary names decl)

def Resolved.renamed (names : Equiv.Perm Ident) (declared : Resolved) : Resolved :=
  match declared.kind with
  | .constant => { declared with name := renameWord names declared.name }
  | .dictionary => declared

theorem mapIdx_map {α β : Type} {place : Nat → α → β} {f : α → α} {g : β → β}
    (each : ∀ position x, place position (f x) = g (place position x)) (xs : List α) :
    (xs.map f).mapIdx place = (xs.mapIdx place).map g := by
  apply List.ext_getElem?
  intro position
  rw [List.getElem?_mapIdx, List.getElem?_map, List.getElem?_map, List.getElem?_mapIdx,
    Option.map_map, Option.map_map]
  exact congrArg (Option.map · _) (funext (each position))

theorem declarations_renamed (doc : Document) :
    declarations (doc.renamed names) =
      (declarations doc).map (Declaration.renamed names) := by
  rw [declarations, declarations, List.map_append]
  refine congrArg₂ (· ++ ·) ?_ ?_
  · refine mapIdx_map ?_ doc.constants
    exact fun _ _ => rfl
  · refine mapIdx_map ?_ doc.dictionaries
    exact fun _ _ => rfl

/-! ## Tables -/

/-- Words and what they go over to stand for the same integers. -/
structure Renames (names : Equiv.Perm Ident) (table other : Constants) : Prop where
  sound : table.Sound
  sound' : other.Sound
  integer? : ∀ word, other.integer? (renameWord names word) = table.integer? word

theorem renames_empty : Renames names ∅ ∅ where
  sound := Constants.sound_empty
  sound' := Constants.sound_empty
  integer? word := by
    rw [Constants.integer?, Constants.integer?, Constants.lookup_empty, Constants.lookup_empty]

theorem renames_define (renames : Renames names table other) (declared : Resolved) :
    Renames names (declared.define table) ((declared.renamed names).define other) where
  sound := sound_define renames.sound declared
  sound' := sound_define renames.sound' _
  integer? word := by
    obtain ⟨kind, name, value⟩ := declared
    rw [integer?_define renames.sound, integer?_define renames.sound', renames.integer?]
    cases kind with
    | constant => simp only [Resolved.renamed, (renameWord_injective names).eq_iff]
    | dictionary => rfl

/-! ## Expressions -/

open Attempt (Matches)

def expressionCategory (error : Expr.EvalError) : Category := (Error.expression error).category

theorem evalWord_renamed (renames : Renames names table other) (stack : Expr.Stack)
    (word : String) :
    Matches expressionCategory Eq (Expr.evalWord table stack word)
      (Expr.evalWord other stack (renameWord names word)) := by
  have same := renames.integer? word
  by_cases named : isIdent word = true
  · have named' : isIdent (renameWord names word) = true := by rw [isIdent_renameWord, named]
    rw [Expr.evalWord_of_isIdent named, Expr.evalWord_of_isIdent named', same]
    cases table.integer? word with
    | some n => exact .ok rfl
    | none => exact .error rfl
  · -- Literals and operators are among these, which stay as they are.
    rw [renameWord_of_not_isIdent named] at same ⊢
    rw [Expr.evalWord_congr same]
    exact .refl _

theorem evalWords_renamed (renames : Renames names table other) (stack : Expr.Stack)
    (words : List String) :
    Matches expressionCategory Eq (Expr.evalWords table stack words)
      (Expr.evalWords other stack (words.map (renameWord names))) := by
  induction words generalizing stack with
  | nil => exact .ok rfl
  | cons word rest ih =>
      rw [List.map_cons, Expr.evalWords_cons, Expr.evalWords_cons]
      refine (evalWord_renamed renames stack word).bind ?_
      rintro next _ rfl
      exact ih next

theorem wordsOf_renamed (text : Option String) :
    Text.wordsOf ((text.map (Text.replaceWordsOf (renameWord names))).getD "") =
      (Text.wordsOf (text.getD "")).map (renameWord names) := by
  cases text with
  | none => simp [Text.wordsOf]
  | some text => exact Text.wordsOf_replaceWordsOf solid_renameWord text

theorem resolveExpression_renamed (renames : Renames names table other)
    (text : Option String) :
    Matches Error.category Eq (resolveExpression table (text.getD ""))
      (resolveExpression other
        ((text.map (Text.replaceWordsOf (renameWord names))).getD "")) := by
  have evaluated : Matches expressionCategory Eq (Expr.eval table (text.getD ""))
      (Expr.eval other ((text.map (Text.replaceWordsOf (renameWord names))).getD "")) := by
    rw [Expr.eval_eq_bind, Expr.eval_eq_bind, wordsOf_renamed]
    refine (evalWords_renamed renames [] _).bind ?_
    rintro stack _ rfl
    exact .refl _
  rw [resolveExpression, resolveExpression]
  generalize Expr.eval table (text.getD "") = value at evaluated
  generalize Expr.eval other _ = value' at evaluated
  cases evaluated with
  | ok same => exact .ok (congrArg Value.integer same)
  | error same => exact .error same

/-! ## Nodes -/

mutual

/-- The path is only for messages. -/
theorem resolve_renamed (renames : Renames names table other) :
    ∀ (node : Node) (path path' : String),
      Matches Error.category Eq (resolve table path node)
        (resolve other path' (renameNode names node))
  | .number (some _), _, _ => .refl _
  | .number none, _, _ => .error rfl
  | .string _, _, _ => .ok rfl
  | .unsupported _, _, _ => .error rfl
  | .expression text, _, _ => by
      rw [renameNode, resolve, resolve]
      exact resolveExpression_renamed renames text
  | .dictionary entries, path, path' => by
      rw [renameNode, resolve, resolve]
      exact (resolveEntries_renamed renames entries path path' ∅).map fun _ _ same =>
        congrArg Value.dictionary same

theorem resolveEntries_renamed (renames : Renames names table other) :
    ∀ (entries : List Entry) (path path' : String) (dict : Dictionary Value),
      Matches Error.category Eq (resolveEntries table path dict entries)
        (resolveEntries other path' dict (renameEntries names entries))
  | [], _, _, _ => .ok rfl
  | ⟨none, none⟩ :: _, _, _, _ => .error rfl
  | ⟨none, some _⟩ :: _, _, _, _ => .error rfl
  | ⟨some _, none⟩ :: _, _, _, _ => .error rfl
  | ⟨some key, some node⟩ :: rest, path, path', dict => by
      rw [renameEntries, resolveEntries, resolveEntries]
      refine (resolve_renamed renames node (entryPath path key) (entryPath path' key)).bind ?_
      rintro value _ rfl
      exact resolveEntries_renamed renames rest path path' (dict.insert key value)

end

/-! ## Declarations -/

theorem checkName_renamed (value : Value) (name : String) :
    Matches Error.category (fun declared declared' => declared' = declared.renamed names)
      (checkName .constant name value) (checkName .constant (renameWord names name) value) := by
  rw [checkName, checkName, isIdent_renameWord]
  by_cases named : isIdent name = true
  · rw [if_pos named, if_pos named]
    exact .ok rfl
  · rw [if_neg named, if_neg named]
    exact .error rfl

theorem declaration_resolve_renamed (renames : Renames names table other) (decl : Declaration) :
    Matches Error.category (fun declared declared' => declared' = declared.renamed names)
      (decl.resolve table) ((decl.renamed names).resolve other) := by
  match decl with
  | .constant _ ⟨none, _⟩ => exact .error rfl
  | .constant _ ⟨some _, none⟩ => exact .error rfl
  | .dictionary _ ⟨none, _⟩ => exact .error rfl
  | .constant _ ⟨some name, some node⟩ =>
      refine (resolve_renamed renames node name (renameWord names name)).bind ?_
      rintro value _ rfl
      exact checkName_renamed value name
  | .dictionary _ ⟨some name, entries⟩ =>
      refine (resolveEntries_renamed renames entries name name ∅).bind ?_
      rintro dict _ rfl
      rw [checkName]
      split
      · exact .ok rfl
      · exact .error rfl

/-- The items of a declaration and of the renamed one: the literals are the same. -/
structure ItemRenamed (names : Equiv.Perm Ident) (item item' : Item) : Prop where
  declared : item'.1 = item.1.renamed names
  lines : ∃ literal, item.1.value.render = .ok literal ∧ item.2 = item.1.line literal ∧
    item'.2 = item'.1.line literal

theorem value_renamed (declared : Resolved) : (declared.renamed names).value = declared.value := by
  rw [Resolved.renamed]
  split <;> rfl

theorem write_renamed (declared : Resolved) :
    Matches Error.category (ItemRenamed names) declared.write (declared.renamed names).write := by
  rw [Resolved.write, Resolved.write, value_renamed]
  cases rendered : declared.value.render with
  | ok literal => exact .ok ⟨rfl, literal, rendered, rfl, rfl⟩
  | error failure => exact .error rfl

theorem putOut_renamed (renames : Renames names table other) (decl : Declaration) :
    Matches Error.category (ItemRenamed names) (decl.putOut table)
      ((decl.renamed names).putOut other) := by
  refine (declaration_resolve_renamed renames decl).bind ?_
  rintro declared _ rfl
  exact write_renamed declared

/-! ## Runs -/

theorem putOutAll_renamed (renames : Renames names table other) (decls : List Declaration) :
    Matches Error.category (List.Forall₂ (ItemRenamed names)) (putOutAll table decls)
      (putOutAll other (decls.map (Declaration.renamed names))) := by
  induction decls generalizing table other with
  | nil => exact .ok .nil
  | cons decl rest ih =>
      rw [List.map_cons, putOutAll, putOutAll]
      refine (putOut_renamed renames decl).bind fun item item' first => ?_
      rw [first.declared]
      exact (ih (renames_define renames item.1)).map fun _ _ => .cons first

theorem renames_tableBehind {items items' : List Item} (renames : Renames names table other)
    (each : List.Forall₂ (ItemRenamed names) items items') :
    Renames names (tableBehind table items) (tableBehind other items') := by
  induction each generalizing table other with
  | nil => exact renames
  | @cons item item' items items' first _ ih =>
      rw [tableBehind_cons, tableBehind_cons, first.declared]
      exact ih (renames_define renames item.1)

/-- What the two runs report as declared corresponds, up to where they end. -/
theorem declared_renamed (renames : Renames names table other) (decls : List Declaration) :
    (runFrom other (decls.map (Declaration.renamed names))).declared =
      (runFrom table decls).declared.map (Resolved.renamed names) := by
  induction decls generalizing table other with
  | nil => rfl
  | cons decl rest ih =>
      have resolved := declaration_resolve_renamed renames decl
      rw [List.map_cons, runFrom, runFrom]
      generalize decl.resolve table = here at resolved
      generalize (decl.renamed names).resolve other = there at resolved
      cases resolved with
      | error same => rfl
      | @ok declared declared' same =>
          subst same
          have later := ih (renames_define renames declared)
          dsimp only
          rw [value_renamed]
          cases declared.value.render with
          | error failure => rfl
          | ok literal => exact congrArg (declared.renamed names :: ·) later

/-! ## Whole documents -/

theorem getElem?_declarations_renamed (doc : Document) (position : Nat) :
    (declarations (doc.renamed names))[position]? =
      ((declarations doc)[position]?).map (Declaration.renamed names) := by
  rw [declarations_renamed, List.getElem?_map]

theorem putOutAll_take_renamed (names : Equiv.Perm Ident) (doc : Document) (position : Nat) :
    Matches Error.category (List.Forall₂ (ItemRenamed names))
      (putOutAll ∅ ((declarations doc).take position))
      (putOutAll ∅ ((declarations (doc.renamed names)).take position)) := by
  rw [declarations_renamed, ← List.map_take]
  exact putOutAll_renamed renames_empty _

theorem putOut_behind_renamed {items items' : List Item}
    (each : List.Forall₂ (ItemRenamed names) items items') (decl : Declaration) :
    Matches Error.category (ItemRenamed names) (decl.putOut (tableBehind ∅ items))
      ((decl.renamed names).putOut (tableBehind ∅ items')) :=
  putOut_renamed (renames_tableBehind renames_empty each) decl

theorem failsAt_renamed (names : Equiv.Perm Ident) (doc : Document) (position : Nat)
    (category : Category) :
    (∃ error, FailsAt doc position error ∧ error.category = category) ↔
      ∃ error, FailsAt (doc.renamed names) position error ∧ error.category = category := by
  have beforeBoth := putOutAll_take_renamed names doc position
  simp only [failsAt_iff]
  constructor
  · rintro ⟨error, ⟨decl, items, there, before, fails⟩, rfl⟩
    rw [before] at beforeBoth
    obtain ⟨items', before', each⟩ := beforeBoth.of_ok
    have failsBoth := putOut_behind_renamed each decl
    rw [tableBehind, fails] at failsBoth
    obtain ⟨error', fails', same⟩ := failsBoth.of_error
    refine ⟨error', ⟨decl.renamed names, items', ?_, before', fails'⟩, same⟩
    rw [getElem?_declarations_renamed, there, Option.map_some]
  · rintro ⟨error', ⟨decl', items', there, before', fails'⟩, rfl⟩
    rw [getElem?_declarations_renamed] at there
    obtain ⟨decl, here, rfl⟩ := Option.map_eq_some_iff.1 there
    rw [before'] at beforeBoth
    obtain ⟨items, before, each⟩ := beforeBoth.of_ok_right
    have failsBoth := putOut_behind_renamed each decl
    rw [tableBehind, tableBehind, fails'] at failsBoth
    obtain ⟨error, fails, same⟩ := failsBoth.of_error_right
    exact ⟨error, ⟨decl, items, here, before, fails⟩, same.symm⟩

theorem putOutAll_declarations_renamed (names : Equiv.Perm Ident) (doc : Document) :
    Matches Error.category (List.Forall₂ (ItemRenamed names)) (putOutAll ∅ (declarations doc))
      (putOutAll ∅ (declarations (doc.renamed names))) := by
  rw [declarations_renamed]
  exact putOutAll_renamed renames_empty _

theorem exists_ofDocument_renamed (names : Equiv.Perm Ident) (doc : Document) :
    (∃ out, ofDocument (doc.renamed names) = .ok out) ↔ ∃ out, ofDocument doc = .ok out := by
  have both := putOutAll_declarations_renamed names doc
  simp only [ofDocument_eq, Attempt.map_eq_ok_iff]
  constructor
  · rintro ⟨_, items', all', _⟩
    rw [all'] at both
    obtain ⟨items, all, _⟩ := both.of_ok_right
    exact ⟨_, items, all, rfl⟩
  · rintro ⟨_, items, all, _⟩
    rw [all] at both
    obtain ⟨items', all', _⟩ := both.of_ok
    exact ⟨_, items', all', rfl⟩

theorem exists_literals {items items' : List Item}
    (each : List.Forall₂ (ItemRenamed names) items items') :
    ∃ literals,
      List.Forall₂ (fun declared literal => declared.value.render = .ok literal)
        (items.map Prod.fst) literals ∧
      items.map Prod.snd = List.zipWith Resolved.line (items.map Prod.fst) literals ∧
      items'.map Prod.snd =
        List.zipWith Resolved.line ((items.map Prod.fst).map (Resolved.renamed names)) literals := by
  induction each with
  | nil => exact ⟨[], .nil, rfl, rfl⟩
  | @cons item item' items items' first _ ih =>
      obtain ⟨literal, rendered, line, line'⟩ := first.lines
      obtain ⟨literals, written, lines, lines'⟩ := ih
      refine ⟨literal :: literals, .cons rendered written, ?_, ?_⟩
      · rw [List.map_cons, List.map_cons, List.zipWith_cons_cons, line, lines]
      · rw [List.map_cons, List.map_cons, List.map_cons, List.zipWith_cons_cons, line', lines',
          first.declared]

theorem lines_renamed (names : Equiv.Perm Ident) {doc : Document} {lines : List String}
    (has : HasLines doc lines) :
    ∃ literals,
      List.Forall₂ (fun declared literal => declared.value.render = .ok literal)
        (run doc).declared literals ∧
      lines = List.zipWith Resolved.line (run doc).declared literals ∧
      HasLines (doc.renamed names)
        (List.zipWith Resolved.line ((run doc).declared.map (Resolved.renamed names)) literals) := by
  obtain ⟨items, all, rfl⟩ := hasLines_iff_putOutAll.1 has
  have both := putOutAll_declarations_renamed names doc
  rw [all] at both
  obtain ⟨items', all', each⟩ := both.of_ok
  obtain ⟨literals, written, split, split'⟩ := exists_literals each
  rw [run, declared_runFrom all]
  exact ⟨literals, written, split, hasLines_iff_putOutAll.2 ⟨items', all', split'⟩⟩

/-- Renaming the constants of a document renames them in its configuration and
changes nothing else: every declaration has the value and the literal that it had.
If the one document fails, both fail at the same declaration, with an error of
the same category. -/
theorem run_renamed (doc : Document) (names : Equiv.Perm Ident) :
    ((∃ out, ofDocument (doc.renamed names) = .ok out) ↔ ∃ out, ofDocument doc = .ok out) ∧
    (run (doc.renamed names)).declared = (run doc).declared.map (Resolved.renamed names) ∧
    (∀ lines, HasLines doc lines → ∃ literals,
      List.Forall₂ (fun declared literal => declared.value.render = .ok literal)
        (run doc).declared literals ∧
      lines = List.zipWith Resolved.line (run doc).declared literals ∧
      HasLines (doc.renamed names)
        (List.zipWith Resolved.line ((run doc).declared.map (Resolved.renamed names)) literals)) ∧
    ∀ position category,
      (∃ error, FailsAt doc position error ∧ ofDocument doc = .error error ∧
          error.category = category) ↔
        ∃ error, FailsAt (doc.renamed names) position error ∧
          ofDocument (doc.renamed names) = .error error ∧ error.category = category := by
  refine ⟨exists_ofDocument_renamed names doc, ?_, ?_, ?_⟩
  · rw [run, run, declarations_renamed]
    exact declared_renamed renames_empty _
  · intro lines has
    exact lines_renamed names has
  · intro position category
    have both := failsAt_renamed names doc position category
    constructor
    · rintro ⟨error, fails, _, same⟩
      obtain ⟨error', fails', same'⟩ := both.1 ⟨error, fails, same⟩
      exact ⟨error', fails', ofDocument_eq_error_iff.2 ⟨position, fails'⟩, same'⟩
    · rintro ⟨error', fails', _, same'⟩
      obtain ⟨error, fails, same⟩ := both.2 ⟨error', fails', same'⟩
      exact ⟨error, fails, ofDocument_eq_error_iff.2 ⟨position, fails⟩, same⟩

/-- The name `x` and one that is nearly an operator go over to each other. -/
def exchange : Equiv.Perm Ident := Equiv.swap ⟨"x", rfl⟩ ⟨"abs", rfl⟩

/-- A key and a dictionary are called like the constants. -/
def namesakes : Document where
  constants :=
    [⟨some "x", some (.number (some " 2"))⟩,
      ⟨some "abs", some (.expression (some " x \t x * abs()"))⟩]
  dictionaries := [⟨some "x", [⟨some "abs", some (.expression (some "abs x -"))⟩]⟩]

/-- The key and the dictionary are called as before. -/
def namesakesExchanged : Document where
  constants :=
    [⟨some "abs", some (.number (some " 2"))⟩,
      ⟨some "x", some (.expression (some " abs \t abs * abs()"))⟩]
  dictionaries := [⟨some "x", [⟨some "abs", some (.expression (some "x abs -"))⟩]⟩]

theorem lines_namesakes :
    namesakes.renamed exchange = namesakesExchanged ∧
      HasLines namesakesExchanged ["abs is 2;", "x is 4;", "x -> \x7b\nabs -> 2.\n\x7d"] := by
  have exchanged : namesakes.renamed exchange = namesakesExchanged := by cbv
  have has : HasLines namesakes ["x is 2;", "abs is 4;", "x -> \x7b\nabs -> 2.\n\x7d"] :=
    .of_put (by cbv)
  have declared : (run namesakes).declared =
      [⟨.constant, "x", .integer 2⟩, ⟨.constant, "abs", .integer 4⟩,
        ⟨.dictionary, "x", .dictionary ⟨[("abs", .integer 2)]⟩⟩] := by
    cbv
  obtain ⟨literals, written, _, renamed⟩ := (run_renamed namesakes exchange).2.2.1 _ has
  rw [exchanged, declared] at renamed
  rw [declared] at written
  have two : (Value.integer 2).render = .ok "2" := by cbv
  have four : (Value.integer 4).render = .ok "4" := by cbv
  have entry : (Value.dictionary ⟨[("abs", .integer 2)]⟩).render =
      .ok "\x7b\nabs -> 2.\n\x7d" := by
    cbv
  cases written with
  | cons first written =>
      cases written with
      | cons second written =>
          cases written with
          | cons third written =>
              cases written
              cases two.symm.trans first
              cases four.symm.trans second
              cases entry.symm.trans third
              exact ⟨exchanged, renamed⟩

end Configuration

end ConfigDecl

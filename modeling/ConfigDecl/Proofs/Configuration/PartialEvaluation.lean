import ConfigDecl.Proofs.Configuration.Literals
import ConfigDecl.Proofs.Configuration.Reached
import ConfigDecl.Proofs.Expr.Identifiers
import Mathlib

/-! # Partial evaluation

Words that refer to constants may be replaced by the integers they refer to, and
nodes by the literals of the values they denote, in any number of places at any
depth.  What a node resolves to stays the same, with the same constants visible;
so the two runs keep in step, and the configuration is the same. -/

set_option autoImplicit false

namespace ConfigDecl.Configuration

/-! ## What may be replaced -/

/-- A word that is kept, or a name in whose place stands the integer. -/
inductive WordReduces (refers : String → Int64 → Prop) : String → String → Prop where
  | kept (word : String) : WordReduces refers word word
  | reference {leaf : Expr.Name} {n : Int64} (known : refers leaf.word n) :
      WordReduces refers leaf.word (Integer.decimal n)

mutual

/-- A node that is kept, in whose place stands the literal of its value, or that
has been reduced inside: an expression in its words, whatever the blanks between
them, and a dictionary in its entries. -/
inductive Reduces (refers : String → Int64 → Prop) : Node → Node → Prop where
  | kept (node : Node) : Reduces refers node node
  | evaluated {node : Node} {value : Value} (denotes : Denotes refers node value) :
      Reduces refers node (.ofValue value)
  | references {text text' : Option String}
      (words : List.Forall₂ (WordReduces refers) (Text.wordsOf (text.getD ""))
        (Text.wordsOf (text'.getD ""))) :
      Reduces refers (.expression text) (.expression text')
  | entries {entries entries' : List Entry} (each : EntriesReduce refers entries entries') :
      Reduces refers (.dictionary entries) (.dictionary entries')

inductive EntriesReduce (refers : String → Int64 → Prop) : List Entry → List Entry → Prop where
  | nil : EntriesReduce refers [] []
  | valued {name : Option String} {node node' : Node} {rest rest' : List Entry}
      (first : Reduces refers node node') (later : EntriesReduce refers rest rest') :
      EntriesReduce refers (⟨name, some node⟩ :: rest) (⟨name, some node'⟩ :: rest')
  | valueless {name : Option String} {rest rest' : List Entry}
      (later : EntriesReduce refers rest rest') :
      EntriesReduce refers (⟨name, none⟩ :: rest) (⟨name, none⟩ :: rest')

end

inductive Declaration.Reduces (refers : String → Int64 → Prop) :
    Declaration → Declaration → Prop where
  | constant {position : Nat} {name : Option String} {node node' : Node}
      (ofNode : Configuration.Reduces refers node node') :
      Declaration.Reduces refers (.constant position ⟨name, some node⟩)
        (.constant position ⟨name, some node'⟩)
  | valueless {position : Nat} {name : Option String} :
      Declaration.Reduces refers (.constant position ⟨name, none⟩)
        (.constant position ⟨name, none⟩)
  | dictionary {position : Nat} {name : Option String} {entries entries' : List Entry}
      (whole : Configuration.Reduces refers (.dictionary entries) (.dictionary entries')) :
      Declaration.Reduces refers (.dictionary position ⟨name, entries⟩)
        (.dictionary position ⟨name, entries'⟩)

/-- Each declaration of the one document reduces in its scope to that of the other. -/
def DocumentReduces (doc doc' : Document) : Prop :=
  List.Forall₂ (fun decl decl' => decl.Reduces (Refers (decl.scope doc)) decl')
    (declarations doc) (declarations doc')

variable {refers : String → Int64 → Prop} {table : Constants}

/-! At a point of a run, words and nodes may be replaced by what is computed there. -/

theorem wordReduces_of_reaches {doc : Document} {declared : List Resolved} {decl : Declaration}
    {rest : List Declaration} (reaches : Reaches doc table declared (decl :: rest))
    {word : String} (named : isIdent word = true) {n : Int64}
    (found : table.integer? word = some n) :
    WordReduces (Refers (decl.scope doc)) word (Integer.decimal n) :=
  have known := ((visible_of_reaches reaches).agree word n).2 found
  @WordReduces.reference _ (Expr.Name.ofIdent named) n known

theorem reduces_of_reaches {doc : Document} {declared : List Resolved} {decl : Declaration}
    {rest : List Declaration} (reaches : Reaches doc table declared (decl :: rest))
    {path : String} {node : Node} {value : Value} (resolved : resolve table path node = .ok value) :
    Reduces (Refers (decl.scope doc)) node (.ofValue value) :=
  .evaluated ((resolve_eq_ok_iff (visible_of_reaches reaches).agree node path value).1 resolved)

/-! ## Expressions -/

theorem evalWord_of_reduces (agree : Agree refers table.integer?) {word word' : String}
    (reduces : WordReduces refers word word') (stack : Expr.Stack) :
    Expr.evalWord table stack word' = Expr.evalWord table stack word := by
  cases reduces with
  | kept => rfl
  | @reference leaf n known =>
      rw [Expr.evalWord_decimal, Expr.evalWord_name, (agree leaf.word n).1 known]

theorem evalWords_of_reduces (agree : Agree refers table.integer?) {words words' : List String}
    (reduces : List.Forall₂ (WordReduces refers) words words') (stack : Expr.Stack) :
    Expr.evalWords table stack words' = Expr.evalWords table stack words := by
  induction reduces generalizing stack with
  | nil => rfl
  | @cons word word' rest rest' first _ ih =>
      rw [Expr.evalWords_cons, Expr.evalWords_cons, evalWord_of_reduces agree first]
      exact congrArg _ (funext ih)

/-! ## Nodes -/

mutual

theorem resolve_of_reduces (agree : Agree refers table.integer?) : ∀ {node node' : Node},
    Reduces refers node node' → ∀ {path : String} {value : Value},
      resolve table path node = .ok value → resolve table path node' = .ok value
  | _, _, .kept node, path, value, resolved => resolved
  | node, _, .evaluated denotes, path, value, resolved => by
      have denoted := (resolve_eq_ok_iff agree node path value).1 resolved
      rw [denotes_unique agree denotes denoted]
      exact resolve_ofValue value path (keysDistinct_of_resolve resolved)
  | .expression text, .expression text', .references words, path, value, resolved => by
      have same : Expr.eval table (text'.getD "") = Expr.eval table (text.getD "") := by
        rw [Expr.eval_eq_bind, Expr.eval_eq_bind, evalWords_of_reduces agree words]
      rw [resolve, resolveExpression] at resolved
      rw [resolve, resolveExpression, same]
      exact resolved
  | .dictionary entries, .dictionary entries', .entries each, path, value, resolved => by
      rw [resolve, Attempt.do_eq_bind, Attempt.bind_eq_ok_iff] at resolved
      obtain ⟨dict, collected, same⟩ := resolved
      rw [resolve, resolveEntries_of_reduce agree each collected]
      exact same

theorem resolveEntries_of_reduce (agree : Agree refers table.integer?) :
    ∀ {entries entries' : List Entry}, EntriesReduce refers entries entries' →
      ∀ {path : String} {dict result : Dictionary Value},
        resolveEntries table path dict entries = .ok result →
          resolveEntries table path dict entries' = .ok result
  | _, _, .nil, path, dict, result, resolved => resolved
  | ⟨none, _⟩ :: _, _, .valued first later, path, dict, result, resolved => by
      rw [resolveEntries] at resolved
      cases resolved
  | ⟨some key, some node⟩ :: rest, _, .valued first later, path, dict, result, resolved => by
      rw [resolveEntries, Attempt.do_eq_bind, Attempt.bind_eq_ok_iff] at resolved
      obtain ⟨value, ofNode, others⟩ := resolved
      rw [resolveEntries, resolve_of_reduces agree first ofNode, Attempt.do_eq_bind,
        Attempt.bind_ok]
      exact resolveEntries_of_reduce agree later others
  | ⟨none, _⟩ :: _, _, .valueless later, path, dict, result, resolved => by
      rw [resolveEntries] at resolved
      cases resolved
  | ⟨some key, none⟩ :: _, _, .valueless later, path, dict, result, resolved => by
      rw [resolveEntries] at resolved
      cases resolved

end

/-! ## Declarations -/

theorem resolve_dictionary_eq_ok_iff {path : String} {entries : List Entry}
    {dict : Dictionary Value} :
    resolve table path (.dictionary entries) = .ok (.dictionary dict) ↔
      resolveEntries table path ∅ entries = .ok dict := by
  rw [resolve, Attempt.do_eq_bind, Attempt.bind_eq_ok_iff]
  constructor
  · intro resolved
    obtain ⟨_, collected, same⟩ := resolved
    cases same
    exact collected
  · intro collected
    exact ⟨dict, collected, rfl⟩

theorem declaration_resolve_of_reduces (agree : Agree refers table.integer?)
    {decl decl' : Declaration} (reduces : decl.Reduces refers decl') {declared : Resolved}
    (resolved : decl.resolve table = .ok declared) : decl'.resolve table = .ok declared := by
  cases reduces with
  | @constant position name node node' ofNode =>
      cases name with
      | none => cases resolved
      | some name =>
          rw [Declaration.resolve, Attempt.do_eq_bind, Attempt.bind_eq_ok_iff] at resolved
          obtain ⟨value, first, checked⟩ := resolved
          rw [Declaration.resolve, resolve_of_reduces agree ofNode first]
          exact checked
  | valueless => exact resolved
  | @dictionary position name entries entries' whole =>
      cases name with
      | none => cases resolved
      | some name =>
          rw [Declaration.resolve, Attempt.do_eq_bind, Attempt.bind_eq_ok_iff] at resolved
          obtain ⟨dict, collected, checked⟩ := resolved
          have before : resolve table name (.dictionary entries) = .ok (.dictionary dict) :=
            resolve_dictionary_eq_ok_iff.2 collected
          have after := resolve_dictionary_eq_ok_iff.1 (resolve_of_reduces agree whole before)
          rw [Declaration.resolve, after]
          exact checked

theorem putOut_of_reduces (agree : Agree refers table.integer?) {decl decl' : Declaration}
    (reduces : decl.Reduces refers decl') {item : Item} (puts : decl.putOut table = .ok item) :
    decl'.putOut table = .ok item := by
  obtain ⟨resolved, idents, line⟩ := putOut_eq_ok_iff.1 puts
  exact putOut_eq_ok_iff.2 ⟨declaration_resolve_of_reduces agree reduces resolved, idents, line⟩

/-! ## Whole documents -/

theorem putOutAll_of_reduces {doc : Document} {decls decls' : List Declaration}
    (each : List.Forall₂ (fun decl decl' => decl.Reduces (Refers (decl.scope doc)) decl')
      decls decls')
    {declared : List Resolved} (reaches : Reaches doc table declared decls) {items : List Item}
    (all : putOutAll table decls = .ok items) : putOutAll table decls' = .ok items := by
  -- Both runs have the table of the point reached: the items so far are the same.
  induction each generalizing table declared items with
  | nil => exact all
  | @cons decl decl' rest rest' first _ ih =>
      obtain ⟨item, later, rfl, puts, others⟩ := putOutAll_cons_eq_ok_iff.1 all
      have visible := visible_of_reaches reaches
      refine putOutAll_cons_eq_ok_iff.2 ⟨item, later, rfl, ?_, ?_⟩
      · exact putOut_of_reduces visible.agree first puts
      · exact ih (.step reaches puts) others

/-- A document that has been evaluated in part has the configuration that it had
before. -/
theorem ofDocument_of_reduces {doc doc' : Document} {out : String}
    (made : ofDocument doc = .ok out) (reduces : DocumentReduces doc doc') :
    ofDocument doc' = .ok out := by
  rw [ofDocument_eq, Attempt.map_eq_ok_iff] at made
  obtain ⟨items, all, rfl⟩ := made
  rw [ofDocument_eq, putOutAll_of_reduces reduces .start all]
  rfl

/-- A name that refers to two integers, one after the other, and a key that comes
twice. -/
def staged : Document where
  constants :=
    [⟨some "a", some (.number (some " +007"))⟩, ⟨some "a", some (.expression (some "a a  *"))⟩]
  dictionaries :=
    [⟨some "e",
      [⟨some "x", some (.dictionary [⟨some "y", some (.expression (some "a 1 -"))⟩])⟩,
        ⟨some "z", some (.dictionary
          [⟨some "k", some (.string none)⟩, ⟨some "k", some (.expression (some "a abs()"))⟩])⟩]⟩]

/-- A node, one of two words, a word at some depth, and a dictionary. -/
def stagedInPart : Document where
  constants :=
    [⟨some "a", some (.number (some "7"))⟩, ⟨some "a", some (.expression (some "7 a *"))⟩]
  dictionaries :=
    [⟨some "e",
      [⟨some "x", some (.dictionary [⟨some "y", some (.expression (some "49 1 -"))⟩])⟩,
        ⟨some "z", some (.dictionary [⟨some "k", some (.number (some "49"))⟩])⟩]⟩]

theorem documentReduces_stagedInPart : DocumentReduces staged stagedInPart := by
  have putsFirst : (declarations staged)[0].putOut ∅ =
      .ok (⟨.constant, "a", .integer 7⟩, "a is 7;") := by
    cbv
  have putsSecond : (declarations staged)[1].putOut
      (Resolved.define ∅ ⟨.constant, "a", .integer 7⟩) =
      .ok (⟨.constant, "a", .integer 49⟩, "a is 49;") := by
    cbv
  have atFirst : Reaches staged ∅ [] (declarations staged) := .start
  have atSecond := Reaches.step atFirst putsFirst
  have atDictionary := Reaches.step atSecond putsSecond
  refine .cons (.constant ?_) (.cons (.constant ?_) (.cons (.dictionary ?_) .nil))
  · have resolved : resolve ∅ "a" (.number (some " +007")) = .ok (.integer 7) := by cbv
    exact reduces_of_reaches atFirst resolved
  · have before : Text.wordsOf "a a  *" = ["a", "a", "*"] := by cbv
    have after : Text.wordsOf "7 a *" = ["7", "a", "*"] := by cbv
    have found : Constants.integer? (Resolved.define ∅ ⟨.constant, "a", .integer 7⟩) "a" =
        some 7 := by
      cbv
    have first := wordReduces_of_reaches atSecond rfl found
    refine .references ?_
    rw [Option.getD_some, Option.getD_some, before, after]
    exact .cons first (.cons (.kept "a") (.cons (.kept "*") .nil))
  · have before : Text.wordsOf "a 1 -" = ["a", "1", "-"] := by cbv
    have after : Text.wordsOf "49 1 -" = ["49", "1", "-"] := by cbv
    have found : Constants.integer? (Resolved.define
        (Resolved.define ∅ ⟨.constant, "a", .integer 7⟩) ⟨.constant, "a", .integer 49⟩) "a" =
        some 49 := by
      cbv
    have first := wordReduces_of_reaches atDictionary rfl found
    have resolved : resolve (Resolved.define
        (Resolved.define ∅ ⟨.constant, "a", .integer 7⟩) ⟨.constant, "a", .integer 49⟩) "e.z"
          (.dictionary [⟨some "k", some (.string none)⟩,
            ⟨some "k", some (.expression (some "a abs()"))⟩]) =
        .ok (.dictionary ⟨[("k", .integer 49)]⟩) := by
      cbv
    refine .entries (.valued (.entries (.valued (.references ?_) .nil))
      (.valued (reduces_of_reaches atDictionary resolved) .nil))
    rw [Option.getD_some, Option.getD_some, before, after]
    exact .cons first (.cons (.kept "1") (.cons (.kept "-") .nil))

theorem ofDocument_stagedInPart :
    DocumentReduces staged stagedInPart ∧
      ofDocument stagedInPart =
        .ok ("a is 7;\na is 49;\ne -> \x7b\nx -> \x7b\ny -> 48.\n\x7d.\n" ++
          "z -> \x7b\nk -> 49.\n\x7d.\n\x7d") := by
  have made : ofDocument staged =
      .ok ("a is 7;\na is 49;\ne -> \x7b\nx -> \x7b\ny -> 48.\n\x7d.\n" ++
        "z -> \x7b\nk -> 49.\n\x7d.\n\x7d") := by
    cbv
  exact ⟨documentReduces_stagedInPart, ofDocument_of_reduces made documentReduces_stagedInPart⟩

end ConfigDecl.Configuration

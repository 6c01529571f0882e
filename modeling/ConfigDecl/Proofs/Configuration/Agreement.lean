import ConfigDecl.Proofs.Configuration.Parts

/-! # Tables that agree

What a declaration puts out depends on the table only by the integers that the
words of its expressions stand for.  Where two tables agree on these, the item is
the same; behind it the tables agree on its name as well.  So they agree on more
and more words as constants are put out, and what was different stays unseen as
long as no expression has such a word in it. -/

set_option autoImplicit false

namespace ConfigDecl

/-! ## Words of expressions -/

namespace Node

mutual

/-- The words of the expressions at every depth. -/
def tokens : Node → List String
  | .number _ => []
  | .string _ => []
  | .dictionary entries => tokensAmong entries
  | .expression text => Text.wordsOf (text.getD "")
  | .unsupported _ => []

def tokensAmong : List (Binding Node) → List String
  | [] => []
  | ⟨_, none⟩ :: rest => tokensAmong rest
  | ⟨_, some node⟩ :: rest => tokens node ++ tokensAmong rest

end

end Node

def Binding.tokens (decl : Binding Node) : List String := (decl.value.map Node.tokens).getD []

def DictionaryDecl.tokens (decl : DictionaryDecl) : List String := Node.tokensAmong decl.entries

namespace Expr

variable {table other : Constants}

theorem evalWord_congr {word : String} (same : table.integer? word = other.integer? word)
    (stack : Stack) : evalWord table stack word = evalWord other stack word := by
  rw [evalWord, evalWord, same]

theorem evalWords_congr {words : List String}
    (same : ∀ word ∈ words, table.integer? word = other.integer? word) (stack : Stack) :
    evalWords table stack words = evalWords other stack words := by
  induction words generalizing stack with
  | nil => rfl
  | cons word rest ih =>
      have first := evalWord_congr (same word List.mem_cons_self) stack
      have later := ih fun other member => same other (List.mem_cons_of_mem word member)
      rw [evalWords_cons, evalWords_cons, first]
      exact congrArg _ (funext later)

end Expr

namespace Configuration

variable {table other : Constants}

mutual

theorem resolve_congr : ∀ (node : Node) (path : String),
    (∀ word ∈ node.tokens, table.integer? word = other.integer? word) →
      resolve table path node = resolve other path node
  | .number (some _), _, _ => rfl
  | .number none, _, _ => rfl
  | .string _, _, _ => rfl
  | .unsupported _, _, _ => rfl
  | .expression text, path, same => by
      rw [Node.tokens] at same
      rw [resolve, resolve, resolveExpression, resolveExpression, Expr.eval_eq_bind,
        Expr.eval_eq_bind, Expr.evalWords_congr same]
  | .dictionary entries, path, same => by
      rw [resolve, resolve, resolveEntries_congr entries path ∅ same]

theorem resolveEntries_congr : ∀ (entries : List Entry) (path : String) (dict : Dictionary Value),
    (∀ word ∈ Node.tokensAmong entries, table.integer? word = other.integer? word) →
      resolveEntries table path dict entries = resolveEntries other path dict entries
  | [], _, _, _ => rfl
  | ⟨none, _⟩ :: _, _, _, _ => rfl
  | ⟨some _, none⟩ :: _, _, _, _ => rfl
  | ⟨some key, some node⟩ :: rest, path, dict, same => by
      have first := resolve_congr node (entryPath path key) fun word member =>
        same word (List.mem_append_left _ member)
      have later := fun value => resolveEntries_congr rest path (dict.insert key value)
        fun word member => same word (List.mem_append_right _ member)
      rw [resolveEntries, resolveEntries, first]
      exact congrArg _ (funext later)

end

theorem putsConstant_congr {decl : Binding Node} {item : Item}
    (same : ∀ word ∈ decl.tokens, table.integer? word = other.integer? word)
    (puts : PutsConstant table decl item) : PutsConstant other decl item := by
  cases puts with
  | @intro name node value named resolves keys =>
      rw [resolve_congr node name same] at resolves
      exact .intro named resolves keys

theorem putsDictionary_congr {decl : DictionaryDecl} {item : Item}
    (same : ∀ word ∈ decl.tokens, table.integer? word = other.integer? word)
    (puts : PutsDictionary table decl item) : PutsDictionary other decl item := by
  cases puts with
  | @intro name entries dict named resolves keys =>
      rw [resolveEntries_congr entries name ∅ same] at resolves
      exact .intro named resolves keys

theorem putsDictionaries_congr {decls : List DictionaryDecl} {items : List Item}
    (same : ∀ decl ∈ decls, ∀ word ∈ decl.tokens, table.integer? word = other.integer? word)
    (puts : List.Forall₂ (PutsDictionary table) decls items) :
    List.Forall₂ (PutsDictionary other) decls items := by
  induction puts with
  | nil => exact .nil
  | cons first _ ih =>
      refine .cons (putsDictionary_congr (same _ List.mem_cons_self) first) ?_
      exact ih fun decl member => same decl (List.mem_cons_of_mem _ member)

/-! ## Agreement -/

/-- The words that are known stand for the same integers, if for any. -/
structure Alike (known : String → Prop) (table other : Constants) : Prop where
  sound : table.Sound
  sound' : other.Sound
  integer? : ∀ word, known word → table.integer? word = other.integer? word

variable {known : String → Prop}

theorem integer?_define (sound : table.Sound) (declared : Resolved) (word : String) :
    (declared.define table).integer? word =
      if declared.kind = .constant ∧ declared.name = word then declared.value.integer?
      else table.integer? word := by
  rw [Constants.integer?, Constants.integer?, lookup_define sound]
  split <;> rfl

theorem Alike.mono {fewer : String → Prop} (alike : Alike known table other)
    (among : ∀ word, fewer word → known word) : Alike fewer table other :=
  ⟨alike.sound, alike.sound', fun word few => alike.integer? word (among word few)⟩

theorem Alike.symm (alike : Alike known table other) : Alike known other table :=
  ⟨alike.sound', alike.sound, fun word among => (alike.integer? word among).symm⟩

/-- A constant is known from its definition on, whatever it was before. -/
theorem Alike.define (alike : Alike known table other) (declared : Resolved) :
    Alike (fun word => known word ∨ declared.kind = .constant ∧ declared.name = word)
      (declared.define table) (declared.define other) where
  sound := sound_define alike.sound declared
  sound' := sound_define alike.sound' declared
  integer? word among := by
    rw [integer?_define alike.sound, integer?_define alike.sound']
    by_cases named : declared.kind = .constant ∧ declared.name = word
    · rw [if_pos named, if_pos named]
    · rw [if_neg named, if_neg named]
      exact alike.integer? word (among.resolve_right named)

/-- The words that are known behind the constants. -/
def KnownBehind (known : String → Prop) (decls : List (Binding Node)) (word : String) : Prop :=
  known word ∨ ∃ decl ∈ decls, decl.name = some word

/-- Each of the constants has only words in it that are known by then. -/
def ReadsKnown (known : String → Prop) (decls : List (Binding Node)) : Prop :=
  ∀ before decl after, decls = before ++ decl :: after →
    ∀ word ∈ decl.tokens, KnownBehind known before word

theorem knownBehind_cons {decl : Binding Node} {rest : List (Binding Node)} {word : String} :
    KnownBehind known (decl :: rest) word ↔
      KnownBehind (fun word => known word ∨ decl.name = some word) rest word := by
  simp only [KnownBehind, List.mem_cons, exists_eq_or_imp, or_assoc]

theorem readsKnown_cons {decl : Binding Node} {rest : List (Binding Node)}
    (reads : ReadsKnown known (decl :: rest)) :
    (∀ word ∈ decl.tokens, known word) ∧
      ReadsKnown (fun word => known word ∨ decl.name = some word) rest := by
  constructor
  · intro word member
    have there := reads [] decl rest rfl word member
    simpa [KnownBehind] using there
  · rintro before later after rfl word member
    exact knownBehind_cons.1 (reads (decl :: before) later after rfl word member)

theorem name_of_putsConstant {decl : Binding Node} {item : Item}
    (puts : PutsConstant table decl item) :
    item.1.kind = .constant ∧ decl.name = some item.1.name := by
  cases puts
  exact ⟨rfl, rfl⟩

/-- The constants have the same items with the other table, and the tables then
agree on their names as well. -/
theorem putsConstants_of_alike {decls : List (Binding Node)} {items : List Item}
    (puts : PutsConstants table decls items) (alike : Alike known table other)
    (reads : ReadsKnown known decls) :
    PutsConstants other decls items ∧
      Alike (KnownBehind known decls) (tableBehind table items) (tableBehind other items) := by
  -- On the constants put out: each adds its name to the words that are known.
  induction puts generalizing known other with
  | nil => exact ⟨.nil, alike.mono fun word among => by simpa [KnownBehind] using among⟩
  | @cons table decl rest item items first later ih =>
      obtain ⟨here, there⟩ := readsKnown_cons reads
      obtain ⟨kind, name⟩ := name_of_putsConstant first
      have alikeBehind : Alike (fun word => known word ∨ decl.name = some word)
          (item.1.define table) (item.1.define other) := by
        refine (alike.define item.1).mono fun word among => among.imp_right fun named => ?_
        exact ⟨kind, Option.some.inj (name.symm.trans named)⟩
      obtain ⟨puts, alikeLast⟩ := ih alikeBehind there
      refine ⟨.cons ?_ puts, alikeLast.mono fun word among => knownBehind_cons.1 among⟩
      exact putsConstant_congr (fun word member => alike.integer? word (here word member)) first

/-- What is still to come is put out alike with the other table. -/
theorem puts_of_alike {later : List (Binding Node)} {dictionaries : List DictionaryDecl}
    {items dictionaryItems : List Item} (alike : Alike known table other)
    (reads : ReadsKnown known later)
    (dictionariesRead : ∀ decl ∈ dictionaries, ∀ word ∈ decl.tokens, KnownBehind known later word)
    (puts : PutsConstants table later items)
    (putsDictionaries : List.Forall₂ (PutsDictionary (tableBehind table items)) dictionaries
      dictionaryItems) :
    PutsConstants other later items ∧
      List.Forall₂ (PutsDictionary (tableBehind other items)) dictionaries dictionaryItems := by
  obtain ⟨puts', alikeBehind⟩ := putsConstants_of_alike puts alike reads
  refine ⟨puts', putsDictionaries_congr ?_ putsDictionaries⟩
  intro decl member word among
  exact alikeBehind.integer? word (dictionariesRead decl member word among)

end Configuration

end ConfigDecl

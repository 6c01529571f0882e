import ConfigDecl.Proofs.Markup.Contents
import Mathlib.Data.List.Basic

/-! # Documents as elements

Every part of a document is written as an element: a declaration or an entry with
its name as an attribute and its value as a child, a value with its kind as an
attribute and with its text, or its entries as children.  What is missing is left
out.  The document that these elements declare is the one that was written, however
the constants and the dictionaries are mingled; only an unsupported kind that goes
by the name of a supported one cannot be written, and no elements declare that. -/

set_option autoImplicit false

namespace ConfigDecl

namespace Node

mutual

/-- The names of the unsupported kinds of values in the node. -/
def strangeKinds : Node → List String
  | .number _ => []
  | .string _ => []
  | .dictionary entries => strangeKindsAmong entries
  | .expression _ => []
  | .unsupported kind => kind.toList

def strangeKindsAmong : List (Binding Node) → List String
  | [] => []
  | ⟨_, none⟩ :: rest => strangeKindsAmong rest
  | ⟨_, some node⟩ :: rest => strangeKinds node ++ strangeKindsAmong rest

end

def strangeKindsOf (value : Option Node) : List String := (value.map strangeKinds).getD []

def strangeKindsIn : Binding Node ⊕ DictionaryDecl → List String
  | .inl decl => strangeKindsOf decl.value
  | .inr decl => strangeKindsAmong decl.entries

theorem strangeKindsAmong_eq_flatMap (decls : List (Binding Node)) :
    strangeKindsAmong decls = decls.flatMap fun decl => strangeKindsOf decl.value := by
  induction decls with
  | nil => rfl
  | cons decl rest ih =>
      obtain ⟨name, value⟩ := decl
      cases value with
      | none => simp [strangeKindsAmong, strangeKindsOf, ih]
      | some node => simp [strangeKindsAmong, strangeKindsOf, ih]

end Node

namespace Document

def strangeKinds (doc : Document) : List String :=
  Node.strangeKindsAmong doc.constants ++
    doc.dictionaries.flatMap fun decl => Node.strangeKindsAmong decl.entries

/-- No unsupported kind goes by the name of a supported one. -/
def Representable (doc : Document) : Prop := ∀ kind ∈ doc.strangeKinds, kind ∉ Node.kinds

instance (doc : Document) : Decidable doc.Representable :=
  inferInstanceAs (Decidable (∀ kind ∈ doc.strangeKinds, kind ∉ Node.kinds))

end Document

namespace Markup

namespace Element

/-! ## Writing -/

def nameAttribute (name : Option String) : List (String × String) :=
  (name.map fun name => ("name", name)).toList

def kindAttribute (kind : Option String) : List (String × String) :=
  (kind.map fun kind => ("type", kind)).toList

mutual

def ofNode : Node → Element
  | .number text => ⟨"value", kindAttribute (some "number"), text, []⟩
  | .string text => ⟨"value", kindAttribute (some "string"), text, []⟩
  | .dictionary entries => ⟨"value", kindAttribute (some "dictionary"), none, ofEntries entries⟩
  | .expression text => ⟨"value", kindAttribute (some "expression"), text, []⟩
  | .unsupported kind => ⟨"value", kindAttribute kind, none, []⟩

def ofEntries : List Entry → List Element
  | [] => []
  | ⟨name, value⟩ :: rest => ⟨"entry", nameAttribute name, none, ofValue value⟩ :: ofEntries rest

def ofValue : Option Node → List Element
  | none => []
  | some node => [ofNode node]

end

def ofConstant (decl : Binding Node) : Element :=
  ⟨"constant", nameAttribute decl.name, none, ofValue decl.value⟩

def ofDictionary (decl : DictionaryDecl) : Element :=
  ⟨"dictionary", nameAttribute decl.name, none, ofEntries decl.entries⟩

def ofDeclaration : Binding Node ⊕ DictionaryDecl → Element
  | .inl decl => ofConstant decl
  | .inr decl => ofDictionary decl

/-! ## Reading what is written -/

theorem attribute?_nameAttribute (word : String) (name text : Option String)
    (children : List Element) :
    attribute? ⟨word, nameAttribute name, text, children⟩ "name" = name := by
  cases name <;> rfl

theorem attribute?_kindAttribute (word : String) (kind text : Option String)
    (children : List Element) :
    attribute? ⟨word, kindAttribute kind, text, children⟩ "type" = kind := by
  cases kind <;> rfl

/-- What is found of a value that has only entries inside. -/
theorem contents_value {kind text : Option String} {children : List Element}
    {entries : List Entry} (inside : contents children = ⟨none, entries, [], []⟩) :
    contents [⟨"value", kindAttribute kind, text, children⟩] =
      ⟨some (Node.ofKind kind text entries), [], [], []⟩ := by
  rw [contents_single, node_eq_ofKind, attribute?_kindAttribute, inside]
  rfl

theorem contents_entry {name text : Option String} {children : List Element}
    {value : Option Node} (inside : contents children = ⟨value, [], [], []⟩) :
    contents [⟨"entry", nameAttribute name, text, children⟩] = ⟨none, [⟨name, value⟩], [], []⟩ := by
  rw [contents_single, entry_eq, attribute?_nameAttribute, inside]
  rfl

theorem ofKind_strange {kind : Option String} (strange : ∀ word ∈ kind, word ∉ Node.kinds)
    (text : Option String) (entries : List Entry) :
    Node.ofKind kind text entries = .unsupported kind := by
  cases kind with
  | none => rfl
  | some word =>
      have unknown := strange word rfl
      simp only [Node.kinds, List.mem_cons, List.not_mem_nil, or_false, not_or] at unknown
      obtain ⟨notNumber, notString, notDictionary, notExpression⟩ := unknown
      unfold Node.ofKind
      split <;> simp_all

mutual

theorem contents_ofNode : ∀ node : Node, (∀ kind ∈ node.strangeKinds, kind ∉ Node.kinds) →
    contents [ofNode node] = ⟨some node, [], [], []⟩
  | .number _, _ => contents_value rfl
  | .string _, _ => contents_value rfl
  | .dictionary entries, supported => contents_value (contents_ofEntries entries supported)
  | .expression _, _ => contents_value rfl
  | .unsupported kind, supported => by
      have strange : ∀ word ∈ kind, word ∉ Node.kinds := by
        intro word member
        exact supported word (Option.mem_toList.2 member)
      rw [ofNode, contents_value rfl, ofKind_strange strange]

theorem contents_ofEntries : ∀ entries : List Entry,
    (∀ kind ∈ Node.strangeKindsAmong entries, kind ∉ Node.kinds) →
      contents (ofEntries entries) = ⟨none, entries, [], []⟩
  | [], _ => rfl
  | ⟨name, none⟩ :: rest, supported => by
      rw [ofEntries, contents_cons, contents_entry rfl, contents_ofEntries rest supported]
      rfl
  | ⟨name, some node⟩ :: rest, supported => by
      have own : ∀ kind ∈ node.strangeKinds, kind ∉ Node.kinds := fun kind member =>
        supported kind (List.mem_append_left _ member)
      have others : ∀ kind ∈ Node.strangeKindsAmong rest, kind ∉ Node.kinds := fun kind member =>
        supported kind (List.mem_append_right _ member)
      have inside : contents (ofValue (some node)) = ⟨some node, [], [], []⟩ :=
        contents_ofNode node own
      rw [ofEntries, contents_cons, contents_entry inside, contents_ofEntries rest others]
      rfl

end

theorem contents_ofValue {value : Option Node}
    (supported : ∀ kind ∈ Node.strangeKindsOf value, kind ∉ Node.kinds) :
    contents (ofValue value) = ⟨value, [], [], []⟩ := by
  cases value with
  | none => rfl
  | some node => exact contents_ofNode node supported

/-- No entry and no value is taken for a declaration. -/
theorem namedAmong_of_undeclared {children : List Element} {value : Option Node}
    {entries : List Entry} (inside : contents children = ⟨value, entries, [], []⟩) :
    namedAmong "constant" children = [] ∧ namedAmong "dictionary" children = [] := by
  have constants := congrArg Contents.constants inside
  have dictionaries := congrArg Contents.dictionaries inside
  exact ⟨List.map_eq_nil_iff.1 constants, List.map_eq_nil_iff.1 dictionaries⟩

/-! ## Whole documents -/

theorem contents_ofDeclaration {decl : Binding Node ⊕ DictionaryDecl}
    (supported : ∀ kind ∈ Node.strangeKindsIn decl, kind ∉ Node.kinds) :
    contents [ofDeclaration decl] = ⟨none, [], decl.getLeft?.toList, decl.getRight?.toList⟩ := by
  cases decl with
  | inl decl =>
      have inside := contents_ofValue supported
      rw [contents_single, ofDeclaration, constant_eq]
      simp only [ofConstant, attribute?_nameAttribute, inside]
      rfl
  | inr decl =>
      have inside := contents_ofEntries decl.entries supported
      rw [contents_single, ofDeclaration, dictionary_eq]
      simp only [ofDictionary, attribute?_nameAttribute, inside]
      rfl

theorem namedAmong_ofDeclaration {decl : Binding Node ⊕ DictionaryDecl}
    (supported : ∀ kind ∈ Node.strangeKindsIn decl, kind ∉ Node.kinds) :
    namedAmong "constant" [ofDeclaration decl] = decl.getLeft?.toList.map ofConstant ∧
      namedAmong "dictionary" [ofDeclaration decl] = decl.getRight?.toList.map ofDictionary := by
  cases decl with
  | inl decl =>
      obtain ⟨constants, dictionaries⟩ := namedAmong_of_undeclared (contents_ofValue supported)
      simp [ofDeclaration, ofConstant, namedAmong, descendantsNamed, constants, dictionaries]
  | inr decl =>
      obtain ⟨constants, dictionaries⟩ :=
        namedAmong_of_undeclared (contents_ofEntries decl.entries supported)
      simp [ofDeclaration, ofDictionary, namedAmong, descendantsNamed, constants, dictionaries]

/-- The declarations found below the root are those that were written. -/
theorem found_ofDeclarations {decls : List (Binding Node ⊕ DictionaryDecl)}
    (supported : ∀ decl ∈ decls, ∀ kind ∈ Node.strangeKindsIn decl, kind ∉ Node.kinds) :
    contents (decls.map ofDeclaration) =
        ⟨none, [], decls.filterMap Sum.getLeft?, decls.filterMap Sum.getRight?⟩ ∧
      namedAmong "constant" (decls.map ofDeclaration) =
        (decls.filterMap Sum.getLeft?).map ofConstant ∧
      namedAmong "dictionary" (decls.map ofDeclaration) =
        (decls.filterMap Sum.getRight?).map ofDictionary := by
  induction decls with
  | nil => exact ⟨rfl, rfl, rfl⟩
  | cons decl rest ih =>
      have own := supported decl List.mem_cons_self
      obtain ⟨found, constants, dictionaries⟩ :=
        ih fun other member => supported other (List.mem_cons_of_mem decl member)
      obtain ⟨ownConstants, ownDictionaries⟩ := namedAmong_ofDeclaration own
      have front : (decl :: rest).map ofDeclaration =
          [ofDeclaration decl] ++ rest.map ofDeclaration := rfl
      rw [front, contents_append, namedAmong_append, namedAmong_append, contents_ofDeclaration own,
        found, ownConstants, constants, ownDictionaries, dictionaries]
      cases decl <;> exact ⟨rfl, rfl, rfl⟩

/-- The declarations are those of the document, in order within each kind. -/
structure Arranges (doc : Document) (decls : List (Binding Node ⊕ DictionaryDecl)) : Prop where
  constants : decls.filterMap Sum.getLeft? = doc.constants
  dictionaries : decls.filterMap Sum.getRight? = doc.dictionaries

theorem supported_of_arranges {doc : Document} (representable : doc.Representable)
    {decls : List (Binding Node ⊕ DictionaryDecl)} (arranges : Arranges doc decls) :
    ∀ decl ∈ decls, ∀ kind ∈ Node.strangeKindsIn decl, kind ∉ Node.kinds := by
  intro decl member kind strange
  apply representable
  rw [Document.strangeKinds, List.mem_append, Node.strangeKindsAmong_eq_flatMap,
    ← arranges.constants, ← arranges.dictionaries]
  cases decl with
  | inl decl =>
      have inside : decl ∈ decls.filterMap Sum.getLeft? :=
        List.mem_filterMap.2 ⟨.inl decl, member, rfl⟩
      exact .inl (List.mem_flatMap.2 ⟨decl, inside, strange⟩)
  | inr decl =>
      have inside : decl ∈ decls.filterMap Sum.getRight? :=
        List.mem_filterMap.2 ⟨.inr decl, member, rfl⟩
      exact .inr (List.mem_flatMap.2 ⟨decl, inside, strange⟩)

/-- The elements of a document declare it below any root, the constants before the
dictionaries or mingled with them; and no more elements than these are found that
declare something. -/
theorem document_ofDeclarations {doc : Document} (representable : doc.Representable) :
    Arranges doc (doc.constants.map .inl ++ doc.dictionaries.map .inr) ∧
      ∀ decls, Arranges doc decls →
        ∀ (name : String) (attributes : List (String × String)) (text : Option String),
          descendantsNamed "constant" ⟨name, attributes, text, decls.map ofDeclaration⟩ =
              doc.constants.map ofConstant ∧
            descendantsNamed "dictionary" ⟨name, attributes, text, decls.map ofDeclaration⟩ =
              doc.dictionaries.map ofDictionary ∧
            document ⟨name, attributes, text, decls.map ofDeclaration⟩ = doc := by
  constructor
  · constructor <;> simp [List.filterMap_map, Function.comp_def]
  · intro decls arranges name attributes text
    obtain ⟨found, constants, dictionaries⟩ :=
      found_ofDeclarations (supported_of_arranges representable arranges)
    rw [arranges.constants] at constants
    rw [arranges.dictionaries] at dictionaries
    refine ⟨constants, dictionaries, ?_⟩
    rw [document_eq_declared, found, arranges.constants, arranges.dictionaries]
    rfl

/-- A dictionary in a dictionary with a name twice, texts of no characters and
none at all, and names, values and kinds left out; a dictionary comes first. -/
def sparse : Document where
  constants := [⟨some "n", some (.number (some ""))⟩, ⟨none, some (.unsupported (some "float"))⟩,
    ⟨some "n", none⟩]
  dictionaries := [⟨none, [⟨some "k", some (.dictionary [⟨some "k", some (.string none)⟩,
    ⟨none, none⟩, ⟨some "k", some (.unsupported none)⟩])⟩]⟩, ⟨some "", []⟩]

theorem document_sparse :
    sparse.Representable ∧
      document ⟨"dictionary", [], some " ",
        [ofDictionary ⟨none, [⟨some "k", some (.dictionary [⟨some "k", some (.string none)⟩,
            ⟨none, none⟩, ⟨some "k", some (.unsupported none)⟩])⟩]⟩,
          ofConstant ⟨some "n", some (.number (some ""))⟩,
          ofConstant ⟨none, some (.unsupported (some "float"))⟩, ofDictionary ⟨some "", []⟩,
          ofConstant ⟨some "n", none⟩]⟩ = sparse := by
  have representable : sparse.Representable := by decide
  have mingled : Arranges sparse
      [.inr ⟨none, [⟨some "k", some (.dictionary [⟨some "k", some (.string none)⟩,
          ⟨none, none⟩, ⟨some "k", some (.unsupported none)⟩])⟩]⟩,
        .inl ⟨some "n", some (.number (some ""))⟩,
        .inl ⟨none, some (.unsupported (some "float"))⟩, .inr ⟨some "", []⟩,
        .inl ⟨some "n", none⟩] := ⟨rfl, rfl⟩
  exact ⟨representable,
    ((document_ofDeclarations representable).2 _ mingled "dictionary" [] (some " ")).2.2⟩

/-! ## What no elements declare -/

theorem supported_ofKind {entries : List Entry}
    (inside : ∀ kind ∈ Node.strangeKindsAmong entries, kind ∉ Node.kinds)
    (kind text : Option String) :
    ∀ word ∈ (Node.ofKind kind text entries).strangeKinds, word ∉ Node.kinds := by
  by_cases strange : ∀ word ∈ kind, word ∉ Node.kinds
  · rw [ofKind_strange strange]
    intro word member
    exact strange word (Option.mem_toList.1 member)
  · push Not at strange
    obtain ⟨word, rfl, known⟩ := strange
    simp only [Node.kinds, List.mem_cons, List.not_mem_nil, or_false] at known
    obtain rfl | rfl | rfl | rfl := known
    · intro word none
      cases none
    · intro word none
      cases none
    · exact inside
    · intro word none
      cases none

mutual

theorem supported_node : ∀ element : Element,
    ∀ kind ∈ (node element).strangeKinds, kind ∉ Node.kinds
  | ⟨_, _, text, children⟩ => supported_ofKind (supported_entriesAmong children) _ text

theorem supported_entriesAmong : ∀ children : List Element,
    ∀ kind ∈ Node.strangeKindsAmong (entriesAmong children), kind ∉ Node.kinds
  | [] => fun _ none => nomatch none
  | ⟨name, attributes, text, children⟩ :: rest => by
      rw [entriesAmong]
      split
      · intro kind strange
        rw [Node.strangeKindsAmong_eq_flatMap, List.flatMap_cons, List.mem_append,
          ← Node.strangeKindsAmong_eq_flatMap] at strange
        rcases strange with own | later
        · exact supported_valueAmong children kind own
        · exact supported_entriesAmong rest kind later
      · exact supported_entriesAmong rest

theorem supported_valueAmong : ∀ children : List Element,
    ∀ kind ∈ Node.strangeKindsOf (valueAmong children), kind ∉ Node.kinds
  | [] => fun _ none => nomatch none
  | child :: rest => by
      rw [valueAmong]
      split
      · exact supported_node child
      · exact supported_valueAmong rest

end

/-- Whatever the elements are, the document that they declare is one that can be
written as elements. -/
theorem representable_document (root : Element) : root.document.Representable := by
  intro kind strange
  rw [Document.strangeKinds, List.mem_append, Node.strangeKindsAmong_eq_flatMap,
    List.mem_flatMap, List.mem_flatMap] at strange
  rcases strange with ⟨decl, member, inside⟩ | ⟨decl, member, inside⟩
  · obtain ⟨element, _, rfl⟩ := List.mem_map.1 member
    exact supported_valueAmong element.children kind inside
  · obtain ⟨element, _, rfl⟩ := List.mem_map.1 member
    exact supported_entriesAmong element.children kind inside

end Element

end Markup

end ConfigDecl

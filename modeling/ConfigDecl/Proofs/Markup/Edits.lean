import ConfigDecl.Configuration.Run
import ConfigDecl.Proofs.Markup.Contents
import ConfigDecl.Proofs.Markup.Pile
import Mathlib.Logic.Relation

/-! # What a document does not depend on

A tree of elements may be edited wherever a document does not look: texts that
are not those of values, attributes of other keys, subtrees in which no element
has a name that means something.  Around the children of an element that means
nothing itself, and of the root, other elements may be put, and declarations of
one kind may change places with those of the other.  The document stays as it is. -/

set_option autoImplicit false

namespace ConfigDecl.Markup

namespace Element

def vocabulary : List String := ["constant", "dictionary", "entry", "value"]

def declarers : List String := ["constant", "dictionary"]

def isRead (pair : String × String) : Bool := pair.1 == "name" || pair.1 == "type"

def Lacks (word : String) (tree : Element) : Prop := ∀ named ∈ tree.preorder, named.1 ≠ word

instance (word : String) (tree : Element) : Decidable (tree.Lacks word) :=
  inferInstanceAs (Decidable (∀ named ∈ tree.preorder, named.1 ≠ word))

/-- One edit in an element, which is the root if `top` is true. -/
inductive Edited : Bool → Element → Element → Prop where
  | text {top : Bool} {name : String} {attributes : List (String × String)}
      {text text' : Option String} {children : List Element} (unread : name ≠ "value") :
      Edited top ⟨name, attributes, text, children⟩ ⟨name, attributes, text', children⟩
  | attributes {top : Bool} {name : String} {attributes attributes' : List (String × String)}
      {text : Option String} {children : List Element}
      (same : attributes'.filter isRead = attributes.filter isRead) :
      Edited top ⟨name, attributes, text, children⟩ ⟨name, attributes', text, children⟩
  | insertion {top : Bool} {name : String} {attributes : List (String × String)}
      {text : Option String} {before after : List Element} {tree : Element}
      (silent : ∀ word ∈ vocabulary, tree.Lacks word) :
      Edited top ⟨name, attributes, text, before ++ after⟩
        ⟨name, attributes, text, before ++ tree :: after⟩
  | wrapping {top : Bool} {name : String} {attributes : List (String × String)}
      {text : Option String} {before run after : List Element} {wrapper : String}
      {attributes' : List (String × String)} {text' : Option String}
      (loose : top = true ∨ name ∉ vocabulary) (undeclared : wrapper ∉ declarers) :
      Edited top ⟨name, attributes, text, before ++ run ++ after⟩
        ⟨name, attributes, text, before ++ ⟨wrapper, attributes', text', run⟩ :: after⟩
  | exchange {top : Bool} {name : String} {attributes : List (String × String)}
      {text : Option String} {before after : List Element} {first second : Element}
      (loose : top = true ∨ name ∉ vocabulary) (noConstant : first.Lacks "constant")
      (noDictionary : second.Lacks "dictionary") :
      Edited top ⟨name, attributes, text, before ++ first :: second :: after⟩
        ⟨name, attributes, text, before ++ second :: first :: after⟩
  | inside {top : Bool} {name : String} {attributes : List (String × String)}
      {text : Option String} {before after : List Element} {child child' : Element}
      (edited : Edited false child child') :
      Edited top ⟨name, attributes, text, before ++ child :: after⟩
        ⟨name, attributes, text, before ++ child' :: after⟩

/-! ## Names that are lacking -/

theorem name_ne_of_lacks {word : String} {tree : Element} (lacks : tree.Lacks word) :
    tree.name ≠ word := by
  obtain ⟨name, attributes, text, children⟩ := tree
  exact lacks (name, attributes) List.mem_cons_self

mutual

theorem descendantsNamed_of_lacks {word : String} :
    ∀ tree : Element, tree.Lacks word → descendantsNamed word tree = []
  | ⟨_, _, _, children⟩, lacks =>
      namedAmong_of_lacking children fun named member => lacks named (List.mem_cons_of_mem _ member)

theorem namedAmong_of_lacking {word : String} : ∀ children : List Element,
    (∀ named ∈ preorderAll children, named.1 ≠ word) → namedAmong word children = []
  | [], _ => rfl
  | child :: rest, lacking => by
      have own : child.Lacks word := fun named member =>
        lacking named (List.mem_append_left _ member)
      have others : ∀ named ∈ preorderAll rest, named.1 ≠ word := fun named member =>
        lacking named (List.mem_append_right _ member)
      rw [namedAmong, if_neg (name_ne_of_lacks own), descendantsNamed_of_lacks child own,
        namedAmong_of_lacking rest others]
      rfl

end

theorem namedAmong_single_of_lacks {word : String} {tree : Element} (lacks : tree.Lacks word) :
    namedAmong word [tree] = [] := by
  rw [namedAmong, if_neg (name_ne_of_lacks lacks), descendantsNamed_of_lacks tree lacks]
  rfl

theorem constants_of_lacks {tree : Element} (lacks : tree.Lacks "constant") :
    (contents [tree]).constants = [] :=
  congrArg (List.map constant) (namedAmong_single_of_lacks lacks)

theorem dictionaries_of_lacks {tree : Element} (lacks : tree.Lacks "dictionary") :
    (contents [tree]).dictionaries = [] :=
  congrArg (List.map dictionary) (namedAmong_single_of_lacks lacks)

theorem contents_of_silent {tree : Element} (silent : ∀ word ∈ vocabulary, tree.Lacks word) :
    contents [tree] = ⟨none, [], [], []⟩ := by
  apply Contents.ext
  · rw [contents_single, if_neg (name_ne_of_lacks (silent "value" (by decide)))]
  · rw [contents_single, if_neg (name_ne_of_lacks (silent "entry" (by decide)))]
  · exact constants_of_lacks (silent "constant" (by decide))
  · exact dictionaries_of_lacks (silent "dictionary" (by decide))

/-! ## What an edit keeps -/

theorem attribute?_eq_of_filter {key : String} (read : key = "name" ∨ key = "type")
    {element element' : Element}
    (same : element'.attributes.filter isRead = element.attributes.filter isRead) :
    element'.attribute? key = element.attribute? key := by
  have kept : ∀ pair : String × String, (isRead pair ∧ pair.1 == key) ↔ pair.1 == key := by
    intro pair
    constructor
    · exact And.right
    · intro found
      have named : pair.1 = key := eq_of_beq found
      refine ⟨?_, found⟩
      rw [isRead, named, Bool.or_eq_true, beq_iff_eq, beq_iff_eq]
      exact read
  have found : ∀ attributes : List (String × String),
      (attributes.find? fun pair => pair.1 == key) =
        (attributes.filter isRead).find? fun pair => pair.1 == key := by
    intro attributes
    rw [List.find?_filter]
    simp only [kept, Bool.decide_eq_true]
  rw [attribute?, attribute?, found element'.attributes, found element.attributes, same]

/-- The elements are alike to whatever finds them: what is read of the tag and of
the text is the same, and so is what is found among the children, as far as it is
looked for. -/
structure Alike (element element' : Element) : Prop where
  name : element'.name = element.name
  keys : element'.attributes.filter isRead = element.attributes.filter isRead
  text : element.name = "value" → element'.text = element.text
  found : element.name ∈ vocabulary → contents element'.children = contents element.children
  declared : (contents element'.children).declared = (contents element.children).declared

theorem contents_of_alike {element element' : Element} (alike : Alike element element') :
    contents [element'] = contents [element] := by
  have title : element'.attribute? "name" = element.attribute? "name" :=
    attribute?_eq_of_filter (.inl rfl) alike.keys
  have kind : element'.attribute? "type" = element.attribute? "type" :=
    attribute?_eq_of_filter (.inr rfl) alike.keys
  have looked : ∀ word ∈ vocabulary, element.name = word →
      contents element'.children = contents element.children := by
    intro word means named
    rw [← named] at means
    exact alike.found means
  have goesBy : ∀ word, (element'.name = word) = (element.name = word) := by
    intro word
    rw [alike.name]
  rw [contents_single, contents_single]
  apply Contents.ext
  · refine ite_congr (goesBy "value") (fun named => ?_) (fun _ => rfl)
    rw [node_eq_ofKind, node_eq_ofKind, kind, alike.text named, looked "value" (by decide) named]
  · refine ite_congr (goesBy "entry") (fun named => ?_) (fun _ => rfl)
    rw [entry_eq, entry_eq, title, looked "entry" (by decide) named]
  · refine congrArg₂ (· ++ ·) (ite_congr (goesBy "constant") (fun named => ?_) (fun _ => rfl))
      (congrArg Document.constants alike.declared)
    rw [constant_eq, constant_eq, title, looked "constant" (by decide) named]
  · refine congrArg₂ (· ++ ·) (ite_congr (goesBy "dictionary") (fun named => ?_) (fun _ => rfl))
      (congrArg Document.dictionaries alike.declared)
    rw [dictionary_eq, dictionary_eq, title, looked "dictionary" (by decide) named]

theorem contents_around {child child' : Element} (same : contents [child'] = contents [child])
    (before after : List Element) :
    contents (before ++ child' :: after) = contents (before ++ child :: after) := by
  rw [contents_append, contents_append, contents_cons child', contents_cons child, same]

theorem declared_around {found found' : Contents} (same : found'.declared = found.declared)
    (before after : Contents) :
    (before ++ found' ++ after).declared = (before ++ found ++ after).declared := by
  obtain ⟨constants, dictionaries⟩ := Document.mk.inj same
  simp only [Contents.declared, Contents.constants_append, Contents.dictionaries_append, constants,
    dictionaries]

/-- An element that declares nothing itself may stand around its children or not. -/
theorem declared_of_undeclared {wrapper : Element} (undeclared : wrapper.name ∉ declarers) :
    (contents [wrapper]).declared = (contents wrapper.children).declared := by
  have notConstant : wrapper.name ≠ "constant" := by
    rintro named
    exact undeclared (by simp [declarers, named])
  have notDictionary : wrapper.name ≠ "dictionary" := by
    rintro named
    exact undeclared (by simp [declarers, named])
  rw [contents_single, Contents.declared, if_neg notConstant, if_neg notDictionary]
  rfl

theorem declared_exchange {first second : Element} (noConstant : first.Lacks "constant")
    (noDictionary : second.Lacks "dictionary") :
    (contents [second] ++ contents [first]).declared =
      (contents [first] ++ contents [second]).declared := by
  simp only [Contents.declared, Contents.constants_append, Contents.dictionaries_append,
    constants_of_lacks noConstant, dictionaries_of_lacks noDictionary, List.append_nil,
    List.nil_append]

theorem contents_of_loose {top : Bool} {name : String} {attributes : List (String × String)}
    {text : Option String} {children children' : List Element}
    (loose : top = true ∨ name ∉ vocabulary)
    (declared : (contents children').declared = (contents children).declared)
    (inner : top = false) :
    contents [⟨name, attributes, text, children'⟩] =
      contents [⟨name, attributes, text, children⟩] := by
  refine contents_of_alike ⟨rfl, rfl, fun _ => rfl, ?_, declared⟩
  intro means
  rcases loose with root | meaningless
  · rw [inner] at root
    cases root
  · exact absurd means meaningless

/-- Every edit leaves the declarations below an element as they are, and one that
is not of the root also leaves what is found of the element itself. -/
theorem found_of_edited {top : Bool} {element element' : Element}
    (edited : Edited top element element') :
    (contents element'.children).declared = (contents element.children).declared ∧
      (top = false → contents [element'] = contents [element]) := by
  induction edited with
  | text unread =>
      refine ⟨rfl, fun _ => contents_of_alike ⟨rfl, rfl, ?_, fun _ => rfl, rfl⟩⟩
      intro named
      exact absurd named unread
  | attributes same =>
      exact ⟨rfl, fun _ => contents_of_alike ⟨rfl, same, fun _ => rfl, fun _ => rfl, rfl⟩⟩
  | @insertion _ _ _ _ before after tree silent =>
      have nothing : contents (before ++ tree :: after) = contents (before ++ after) := by
        rw [contents_append, contents_append, contents_cons, contents_of_silent silent]
        rfl
      have declared := congrArg Contents.declared nothing
      exact ⟨declared,
        fun _ => contents_of_alike ⟨rfl, rfl, fun _ => rfl, fun _ => nothing, declared⟩⟩
  | @wrapping _ _ _ _ before run after wrapper attributes' text' loose undeclared =>
      have own : (contents [⟨wrapper, attributes', text', run⟩]).declared =
          (contents run).declared := declared_of_undeclared undeclared
      have declared := declared_around own (contents before) (contents after)
      simp only [← contents_append, List.append_assoc, List.singleton_append] at declared
      rw [← List.append_assoc] at declared
      exact ⟨declared, contents_of_loose loose declared⟩
  | @exchange _ _ _ _ before after first second loose noConstant noDictionary =>
      have own := declared_exchange noConstant noDictionary
      have declared := declared_around own (contents before) (contents after)
      simp only [← contents_append, List.append_assoc, List.singleton_append] at declared
      exact ⟨declared, contents_of_loose loose declared⟩
  | @inside _ _ _ _ before after child child' edited ih =>
      have same := contents_around (ih.2 rfl) before after
      have declared := congrArg Contents.declared same
      exact ⟨declared, fun _ => contents_of_alike ⟨rfl, rfl, fun _ => rfl, fun _ => same, declared⟩⟩

/-- Edits of the root, and what they are edits of, are one document, and so is
what becomes of it. -/
theorem document_of_edits {root root' : Element}
    (edits : Relation.EqvGen (Edited true) root root') :
    root'.document = root.document ∧
      Configuration.run root'.document = Configuration.run root.document := by
  have same : root'.document = root.document := by
    induction edits with
    | rel root root' edited =>
        rw [document_eq_declared, document_eq_declared]
        exact (found_of_edited edited).1
    | refl root => rfl
    | symm root root' _ ih => exact ih.symm
    | trans root middle root' _ _ first second => exact second.trans first
  exact ⟨same, congrArg Configuration.run same⟩

def limitTree : Element :=
  ⟨"constant", [("name", "n")], none, [⟨"value", [("type", "number")], some "5", []⟩]⟩

def hostTree (remarks : List Element) : Element :=
  ⟨"dictionary", [("name", "d")], none,
    [⟨"entry", [("name", "host")], none, remarks ++ [⟨"value", [("type", "string")], some "a", []⟩]⟩]⟩

def remark : Element := ⟨"remark", [("name", "port")], some "was b", []⟩

/-- A remark with a name of its own, a dictionary inside a stray value, and the
constant behind it. -/
theorem document_strayHost :
    Relation.EqvGen (Edited true) ⟨"config", [], none, [limitTree, hostTree []]⟩
        ⟨"config", [("version", "2")], some "\n",
          [⟨"value", [], none, [hostTree [remark]]⟩, limitTree]⟩ ∧
      document ⟨"config", [("version", "2")], some "\n",
          [⟨"value", [], none, [hostTree [remark]]⟩, limitTree]⟩ =
        ⟨[⟨some "n", some (.number (some "5"))⟩],
          [⟨some "d", [⟨some "host", some (.string (some "a"))⟩]⟩]⟩ := by
  have versioned : Edited true ⟨"config", [], none, [limitTree, hostTree []]⟩
      ⟨"config", [("version", "2")], none, [limitTree, hostTree []]⟩ := .attributes (by decide)
  have spaced : Edited true ⟨"config", [("version", "2")], none, [limitTree, hostTree []]⟩
      ⟨"config", [("version", "2")], some "\n", [limitTree, hostTree []]⟩ := .text (by decide)
  have remarked : Edited true ⟨"config", [("version", "2")], some "\n", [limitTree, hostTree []]⟩
      ⟨"config", [("version", "2")], some "\n", [limitTree, hostTree [remark]]⟩ :=
    @Edited.inside true _ _ _ [limitTree] [] _ _
      (@Edited.inside false _ _ _ [] [] _ _
        (@Edited.insertion false _ _ _ [] [_] remark (by decide)))
  have exchanged : Edited true
      ⟨"config", [("version", "2")], some "\n", [hostTree [remark], limitTree]⟩
      ⟨"config", [("version", "2")], some "\n", [limitTree, hostTree [remark]]⟩ :=
    @Edited.exchange true _ _ _ [] [] _ _ (.inl rfl) (by decide) (by decide)
  have wrapped : Edited true
      ⟨"config", [("version", "2")], some "\n", [hostTree [remark], limitTree]⟩
      ⟨"config", [("version", "2")], some "\n",
        [⟨"value", [], none, [hostTree [remark]]⟩, limitTree]⟩ :=
    @Edited.wrapping true _ _ _ [] [_] [limitTree] _ _ _ (.inl rfl) (by decide)
  have edits := ((((Relation.EqvGen.rel _ _ versioned).trans _ _ _ (.rel _ _ spaced)).trans _ _ _
    (.rel _ _ remarked)).trans _ _ _ (.symm _ _ (.rel _ _ exchanged))).trans _ _ _
    (.rel _ _ wrapped)
  exact ⟨edits, (document_of_edits edits).1.trans (by decide)⟩

end Element

end ConfigDecl.Markup

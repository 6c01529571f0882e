import ConfigDecl.Markup.Lowering

/-! # Contents

A document looks at the children of an element in two ways: a value and entries
are looked for among the children themselves, declarations among the children
and everything below them.  What is found among children in a row is what is
found in each of them, put together in order; and what an element means depends
on its own tag and text and on what is found among its children, on nothing else. -/

set_option autoImplicit false

namespace ConfigDecl.Markup

/-- What is found among the children of an element. -/
@[ext] structure Contents where
  value : Option Node
  entries : List Entry
  constants : List (Binding Node)
  dictionaries : List DictionaryDecl

namespace Contents

instance : Append Contents where
  append first later :=
    ⟨first.value.or later.value, first.entries ++ later.entries,
      first.constants ++ later.constants, first.dictionaries ++ later.dictionaries⟩

@[simp] theorem value_append (first later : Contents) :
    (first ++ later).value = first.value.or later.value := rfl

@[simp] theorem entries_append (first later : Contents) :
    (first ++ later).entries = first.entries ++ later.entries := rfl

@[simp] theorem constants_append (first later : Contents) :
    (first ++ later).constants = first.constants ++ later.constants := rfl

@[simp] theorem dictionaries_append (first later : Contents) :
    (first ++ later).dictionaries = first.dictionaries ++ later.dictionaries := rfl

/-- The declarations, without what is found among the children themselves only. -/
def declared (contents : Contents) : Document := ⟨contents.constants, contents.dictionaries⟩

end Contents

namespace Element

def contents (children : List Element) : Contents :=
  ⟨valueAmong children, entriesAmong children, (namedAmong "constant" children).map constant,
    (namedAmong "dictionary" children).map dictionary⟩

theorem namedAmong_append (name : String) (first later : List Element) :
    namedAmong name (first ++ later) = namedAmong name first ++ namedAmong name later := by
  induction first with
  | nil => rfl
  | cons child rest ih => simp [namedAmong, ih]

@[simp] theorem contents_append (first later : List Element) :
    contents (first ++ later) = contents first ++ contents later := by
  apply Contents.ext
  · simp [contents, valueAmong_eq, List.find?_append, Option.map_or]
  · simp [contents, entriesAmong_eq]
  · simp [contents, namedAmong_append]
  · simp [contents, namedAmong_append]

theorem contents_cons (child : Element) (rest : List Element) :
    contents (child :: rest) = contents [child] ++ contents rest :=
  contents_append [child] rest

theorem contents_single (child : Element) :
    contents [child] =
      ⟨if child.name = "value" then some child.node else none,
        if child.name = "entry" then [child.entry] else [],
        (if child.name = "constant" then [child.constant] else []) ++
          (contents child.children).constants,
        (if child.name = "dictionary" then [child.dictionary] else []) ++
          (contents child.children).dictionaries⟩ := by
  obtain ⟨name, attributes, text, children⟩ := child
  apply Contents.ext
  · simp only [contents, valueAmong]
  · simp only [contents, entriesAmong, entry]
  · simp only [contents, namedAmong, descendantsNamed, List.append_nil, List.map_append]
    split <;> rfl
  · simp only [contents, namedAmong, descendantsNamed, List.append_nil, List.map_append]
    split <;> rfl

theorem node_eq_ofKind (element : Element) :
    element.node =
      Node.ofKind (element.attribute? "type") element.text (contents element.children).entries := by
  obtain ⟨name, attributes, text, children⟩ := element
  rw [node]
  rfl

theorem entry_eq (element : Element) :
    element.entry = ⟨element.attribute? "name", (contents element.children).value⟩ := rfl

theorem constant_eq (element : Element) :
    element.constant = ⟨element.attribute? "name", (contents element.children).value⟩ := rfl

theorem dictionary_eq (element : Element) :
    element.dictionary = ⟨element.attribute? "name", (contents element.children).entries⟩ := rfl

/-- A document is what is declared among the children of its root. -/
theorem document_eq_declared (root : Element) :
    root.document = (contents root.children).declared := by
  obtain ⟨name, attributes, text, children⟩ := root
  rw [document, descendantsNamed, descendantsNamed]
  rfl

end Element

end ConfigDecl.Markup

import ConfigDecl.Document
import ConfigDecl.Markup.Assembly

/-! # Documents from elements

Every element named `constant` or `dictionary` below the root is a declaration,
however deep it lies, in document order.  The value of a declaration or of an
entry is its first child named `value`, the entries of a dictionary are its
children named `entry`, and the attribute `type` of a value says of what kind it
is.  Whatever is missing stays missing. -/

set_option autoImplicit false

namespace ConfigDecl.Markup

namespace Element

mutual

/-- The value written as this element. -/
def node : Element → Node
  | ⟨name, attributes, text, children⟩ =>
      Node.ofKind (attribute? ⟨name, attributes, text, children⟩ "type") text
        (entriesAmong children)

def entriesAmong : List Element → List Entry
  | [] => []
  | ⟨name, attributes, text, children⟩ :: rest =>
      if name = "entry" then
        ⟨attribute? ⟨name, attributes, text, children⟩ "name", valueAmong children⟩ ::
          entriesAmong rest
      else entriesAmong rest

def valueAmong : List Element → Option Node
  | [] => none
  | child :: rest => if child.name = "value" then some (node child) else valueAmong rest

end

theorem valueAmong_eq (children : List Element) :
    valueAmong children = (children.find? fun child => child.name == "value").map node := by
  induction children with
  | nil => rfl
  | cons child rest ih =>
      by_cases named : child.name = "value"
      · simp [valueAmong, named]
      · simp [valueAmong, named, ih]

def entry (element : Element) : Entry :=
  ⟨element.attribute? "name", valueAmong element.children⟩

theorem entriesAmong_eq (children : List Element) :
    entriesAmong children =
      (children.filter fun child => child.name == "entry").map entry := by
  induction children with
  | nil => rfl
  | cons child rest ih =>
      obtain ⟨name, attributes, text, grandchildren⟩ := child
      by_cases named : name = "entry"
      · simp [entriesAmong, entry, named, ih]
      · simp [entriesAmong, named, ih]

theorem node_eq (element : Element) :
    node element =
      Node.ofKind (element.attribute? "type") element.text
        ((element.childrenNamed "entry").map entry) := by
  obtain ⟨name, attributes, text, children⟩ := element
  simp [node, entriesAmong_eq, childrenNamed]

def constant (element : Element) : Binding Node :=
  ⟨element.attribute? "name", valueAmong element.children⟩

def dictionary (element : Element) : DictionaryDecl :=
  ⟨element.attribute? "name", entriesAmong element.children⟩

/-- The document that the elements below the root declare. -/
def document (root : Element) : Document :=
  ⟨(root.descendantsNamed "constant").map constant,
    (root.descendantsNamed "dictionary").map dictionary⟩

end Element

def readDocument (delivery : Delivery) (source : Bytes) : Except ReadError Document :=
  Element.document <$> Element.read delivery source

end ConfigDecl.Markup

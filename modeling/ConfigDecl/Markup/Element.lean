/-! # Elements

An element has a name, attributes in the order of its tag, the text before its
first child if there is any, and child elements in order. -/

set_option autoImplicit false

namespace ConfigDecl.Markup

structure Element where
  name : String
  attributes : List (String × String)
  text : Option String
  children : List Element
  deriving Repr

namespace Element

instance : Inhabited Element := ⟨⟨"", [], none, []⟩⟩

def attribute? (element : Element) (name : String) : Option String :=
  (element.attributes.find? fun pair => pair.1 == name).map Prod.snd

def child? (element : Element) (name : String) : Option Element :=
  element.children.find? fun child => child.name == name

def childrenNamed (element : Element) (name : String) : List Element :=
  element.children.filter fun child => child.name == name

mutual

/-- The elements of that name below the element, in document order: an element
comes before those inside it, which are searched too. -/
def descendantsNamed (name : String) : Element → List Element
  | ⟨_, _, _, children⟩ => namedAmong name children

def namedAmong (name : String) : List Element → List Element
  | [] => []
  | child :: rest =>
      (if child.name = name then [child] else []) ++ descendantsNamed name child ++
        namedAmong name rest

end

mutual

def decEq : (a b : Element) → Decidable (a = b)
  | ⟨name, attributes, text, children⟩, ⟨name', attributes', text', children'⟩ =>
      match childrenDecEq children children' with
      | isTrue same =>
          decidable_of_iff (name = name' ∧ attributes = attributes' ∧ text = text')
            (by simp [same])
      | isFalse differ => isFalse (by simp [differ])

def childrenDecEq : (as bs : List Element) → Decidable (as = bs)
  | [], [] => isTrue rfl
  | [], _ :: _ => isFalse (by simp)
  | _ :: _, [] => isFalse (by simp)
  | a :: as, b :: bs =>
      match decEq a b with
      | isTrue sameHead =>
          match childrenDecEq as bs with
          | isTrue same => isTrue (by rw [sameHead, same])
          | isFalse differ => isFalse (by simp [differ])
      | isFalse differ => isFalse (by simp [differ])

end

instance : DecidableEq Element := decEq

end Element

end ConfigDecl.Markup

import ConfigDecl.Markup.Element

/-! # Elements in document order

Where an element stands below another is told by the positions on the way down to
it, and document order is the lexicographic order of these paths: an element comes
before those inside it, and what is inside an element before its later siblings.
The elements of a name are found in that order, each where it stands and once. -/

set_option autoImplicit false

namespace ConfigDecl.Markup.Element

/-- The element to which a path leads, by the position among the children at each
step. -/
def at? (element : Element) : List Nat → Option Element
  | [] => some element
  | position :: path => element.children[position]?.bind fun child => child.at? path

/-- What stands below the child at a position, seen from its parent. -/
def beneath (position : Nat) (placed : List Nat × Element) : List Nat × Element :=
  (position :: placed.1, placed.2)

theorem snd_comp_beneath (position : Nat) : Prod.snd ∘ beneath position = Prod.snd := rfl

theorem lt_beneath (position : Nat) {first later : List Nat × Element}
    (before : first.1 < later.1) : (beneath position first).1 < (beneath position later).1 :=
  List.cons_lt_cons_iff.2 (.inr ⟨rfl, before⟩)

mutual

/-- The element and everything inside it in pre-order, each with its path. -/
def listing : Element → List (List Nat × Element)
  | ⟨name, attributes, text, children⟩ =>
      ([], ⟨name, attributes, text, children⟩) :: listingFrom 0 children

def listingFrom (position : Nat) : List Element → List (List Nat × Element)
  | [] => []
  | child :: rest => (listing child).map (beneath position) ++ listingFrom (position + 1) rest

end

theorem listing_eq (element : Element) :
    element.listing = ([], element) :: listingFrom 0 element.children := by
  obtain ⟨name, attributes, text, children⟩ := element
  rw [listing]

theorem tail_listing (element : Element) :
    element.listing.tail = listingFrom 0 element.children := by
  rw [listing_eq, List.tail_cons]

/-! ## The paths of a listing -/

theorem mem_listingFrom_iff (start : Nat) (children : List Element)
    (placed : List Nat × Element) :
    placed ∈ listingFrom start children ↔ ∃ position child, children[position]? = some child ∧
      ∃ inner ∈ child.listing, placed = beneath (start + position) inner := by
  induction children generalizing start with
  | nil => simp [listingFrom]
  | cons first rest ih =>
      rw [listingFrom, List.mem_append, List.mem_map, ih]
      constructor
      · rintro (⟨inner, member, rfl⟩ | ⟨position, child, found, inner, member, rfl⟩)
        · exact ⟨0, first, rfl, inner, member, rfl⟩
        · refine ⟨position + 1, child, found, inner, member, ?_⟩
          rw [Nat.add_right_comm, Nat.add_assoc]
      · rintro ⟨position, child, found, inner, member, rfl⟩
        cases position with
        | zero =>
            cases found
            exact .inl ⟨inner, member, rfl⟩
        | succ position =>
            refine .inr ⟨position, child, found, inner, member, ?_⟩
            rw [Nat.add_right_comm, Nat.add_assoc]

/-- A listing has every element that is there, under its path. -/
theorem mem_listing_iff (root : Element) (path : List Nat) (element : Element) :
    (path, element) ∈ root.listing ↔ root.at? path = some element := by
  induction path generalizing root with
  | nil =>
      rw [listing_eq, List.mem_cons, mem_listingFrom_iff, at?, Option.some.injEq]
      constructor
      · rintro (here | ⟨position, child, _, inner, _, later⟩)
        · cases here
          rfl
        · cases later
      · rintro rfl
        exact .inl rfl
  | cons position path ih =>
      rw [listing_eq, List.mem_cons, mem_listingFrom_iff, at?, Option.bind_eq_some_iff]
      constructor
      · rintro (here | ⟨position', child, found, ⟨inner, element'⟩, member, later⟩)
        · cases here
        · cases later
          rw [Nat.zero_add]
          exact ⟨child, found, (ih child).1 member⟩
      · rintro ⟨child, found, leads⟩
        refine .inr ⟨position, child, found, (path, element), (ih child).2 leads, ?_⟩
        rw [Nat.zero_add]
        rfl

mutual

/-- In a listing the paths increase, so each is there once. -/
theorem pairwise_listing : ∀ element : Element,
    element.listing.Pairwise fun first later => first.1 < later.1
  | ⟨name, attributes, text, children⟩ => by
      rw [listing, List.pairwise_cons]
      refine ⟨?_, pairwise_listingFrom 0 children⟩
      intro placed member
      obtain ⟨position, child, _, inner, _, rfl⟩ := (mem_listingFrom_iff 0 children placed).1 member
      exact List.nil_lt_cons _ _

theorem pairwise_listingFrom : ∀ (position : Nat) (children : List Element),
    (listingFrom position children).Pairwise fun first later => first.1 < later.1
  | _, [] => by
      rw [listingFrom]
      exact List.Pairwise.nil
  | position, child :: rest => by
      rw [listingFrom, List.pairwise_append]
      refine ⟨?_, pairwise_listingFrom (position + 1) rest, ?_⟩
      · exact (pairwise_listing child).map _ fun _ _ => lt_beneath position
      · intro first inFirst later inLater
        obtain ⟨inner, _, rfl⟩ := List.mem_map.1 inFirst
        obtain ⟨more, _, _, other, _, rfl⟩ :=
          (mem_listingFrom_iff (position + 1) rest later).1 inLater
        exact List.cons_lt_cons_iff.2 (.inl (by omega))

end

/-! ## Without the paths -/

/-- The elements of children in a row and of everything inside them, in pre-order. -/
def elementsAmong (children : List Element) : List Element :=
  (listingFrom 0 children).map Prod.snd

theorem map_snd_listingFrom (position : Nat) (children : List Element) :
    (listingFrom position children).map Prod.snd = elementsAmong children := by
  rw [elementsAmong]
  generalize 0 = other
  induction children generalizing position other with
  | nil => rfl
  | cons child rest ih =>
      rw [listingFrom, listingFrom, List.map_append, List.map_append, List.map_map, List.map_map,
        snd_comp_beneath, snd_comp_beneath, ih (position + 1) (other + 1)]

theorem elementsAmong_nil : elementsAmong [] = [] := by
  rw [elementsAmong, listingFrom, List.map_nil]

theorem elementsAmong_cons (child : Element) (rest : List Element) :
    elementsAmong (child :: rest) =
      child :: elementsAmong child.children ++ elementsAmong rest := by
  rw [elementsAmong, listingFrom, List.map_append, List.map_map, snd_comp_beneath,
    map_snd_listingFrom, listing_eq, List.map_cons, map_snd_listingFrom]

mutual

theorem descendantsNamed_eq (name : String) : ∀ element : Element,
    element.descendantsNamed name =
      (elementsAmong element.children).filter fun other => other.name = name
  | ⟨_, _, _, children⟩ => by
      rw [descendantsNamed]
      exact namedAmong_eq name children

theorem namedAmong_eq (name : String) : ∀ children : List Element,
    namedAmong name children =
      (elementsAmong children).filter fun other => other.name = name
  | [] => by rw [namedAmong, elementsAmong_nil, List.filter_nil]
  | child :: rest => by
      rw [namedAmong, descendantsNamed_eq name child, namedAmong_eq name rest, elementsAmong_cons,
        List.filter_append, List.filter_cons]
      by_cases named : child.name = name <;> simp [named]

end

end ConfigDecl.Markup.Element

import ConfigDecl.Proofs.Configuration.Agreement
import Mathlib.Data.List.OfFn
import Mathlib.Logic.Equiv.Basic

/-! # Declarations that may change places

Two constants side by side may change places if neither reads the other: behind
both of them the same integers are known, although the tables are not the same.
Dictionaries define nothing, so they may come in any order. -/

set_option autoImplicit false

namespace ConfigDecl.Configuration

variable {table : Constants}

/-! ## Two constants -/

/-- Definitions of two names leave the same integers in either order. -/
theorem alike_define_define (sound : table.Sound) {x y : Resolved} (apart : x.name ≠ y.name) :
    Alike (fun _ => True) (y.define (x.define table)) (x.define (y.define table)) where
  sound := sound_define (sound_define sound x) y
  sound' := sound_define (sound_define sound y) x
  integer? word _ := by
    rw [integer?_define (sound_define sound x), integer?_define sound,
      integer?_define (sound_define sound y), integer?_define sound]
    by_cases ofX : x.kind = .constant ∧ x.name = word
    · have notY : ¬ (y.kind = .constant ∧ y.name = word) := fun ofY =>
        apart (ofX.2.trans ofY.2.symm)
      rw [if_neg notY, if_pos ofX, if_pos ofX]
    · rw [if_neg ofX, if_neg ofX]

theorem putsConstant_define_iff (sound : table.Sound) {decl : Binding Node} {x : Resolved}
    (unread : x.name ∉ decl.tokens) {item : Item} :
    PutsConstant (x.define table) decl item ↔ PutsConstant table decl item := by
  have same : ∀ word ∈ decl.tokens, (x.define table).integer? word = table.integer? word := by
    intro word member
    have other : ¬ (x.kind = .constant ∧ x.name = word) := by
      rintro ⟨_, rfl⟩
      exact unread member
    rw [integer?_define sound, if_neg other]
  exact ⟨putsConstant_congr same, putsConstant_congr fun word member => (same word member).symm⟩

theorem hasLines_exchange {before after : List (Binding Node)} {a b : Binding Node}
    {name name' : String} {dictionaries : List DictionaryDecl} {lines : List String}
    (named : a.name = some name) (named' : b.name = some name') (apart : name ≠ name')
    (unread : name ∉ b.tokens) (unread' : name' ∉ a.tokens)
    (has : HasLines ⟨before ++ a :: b :: after, dictionaries⟩ lines) :
    ∃ first x y rest, lines = first ++ x :: y :: rest ∧ first.length = before.length ∧
      HasLines ⟨before ++ b :: a :: after, dictionaries⟩ (first ++ y :: x :: rest) := by
  obtain ⟨firstItems, laterItems, dictionaryItems, rfl, putsFirst, putsLater, putsDictionaries⟩ :=
    hasLines_append_iff.1 has
  have sound := sound_tableBehind Constants.sound_empty firstItems
  cases putsLater with
  | @cons _ _ _ x _ putsA putsLater =>
      cases putsLater with
      | @cons _ _ _ y restItems putsB putsRest =>
          obtain rfl : x.1.name = name :=
            Option.some.inj ((name_of_putsConstant putsA).2.symm.trans named)
          obtain rfl : y.1.name = name' :=
            Option.some.inj ((name_of_putsConstant putsB).2.symm.trans named')
          -- Neither constant sees whether the other one is there yet.
          have putsB' := (putsConstant_define_iff sound unread).1 putsB
          have putsA' := (putsConstant_define_iff sound unread').2 putsA
          obtain ⟨putsRest', putsDictionaries'⟩ := puts_of_alike (alike_define_define sound apart)
            (fun _ _ _ _ _ _ => .inl trivial) (fun _ _ _ _ => .inl trivial) putsRest
            putsDictionaries
          refine ⟨firstItems.map Prod.snd, x.2, y.2,
            restItems.map Prod.snd ++ dictionaryItems.map Prod.snd, rfl, ?_, ?_⟩
          · rw [List.length_map, putsConstants_length putsFirst]
          · exact hasLines_append_iff.2 ⟨firstItems, y :: x :: restItems, dictionaryItems, rfl,
              putsFirst, .cons putsB' (.cons putsA' putsRest'), putsDictionaries'⟩

/-! ## All dictionaries -/

theorem forall₂_ofFn_iff {α β : Type} {relates : α → β → Prop} {n : Nat} {f : Fin n → α}
    {ys : List β} :
    List.Forall₂ relates (List.ofFn f) ys ↔ ∃ g, ys = List.ofFn g ∧ ∀ i, relates (f i) (g i) := by
  constructor
  · intro each
    have length := each.length_eq
    rw [List.length_ofFn] at length
    subst length
    refine ⟨ys.get, (List.ofFn_get ys).symm, fun i => ?_⟩
    have there := each.get (i := i) (by simp) i.2
    simpa using there
  · rintro ⟨g, rfl, each⟩
    rw [List.forall₂_iff_get]
    refine ⟨by simp, fun i inside _ => ?_⟩
    simpa using each ⟨i, by simpa using inside⟩

theorem hasLines_permuted {constants : List (Binding Node)} {n : Nat}
    {dictionaries : Fin n → DictionaryDecl} (order : Equiv.Perm (Fin n)) {lines : List String}
    (has : HasLines ⟨constants, List.ofFn dictionaries⟩ lines) :
    ∃ (constantLines : List String) (dictionaryLines : Fin n → String),
      lines = constantLines ++ List.ofFn dictionaryLines ∧
      constantLines.length = constants.length ∧
      HasLines ⟨constants, List.ofFn (dictionaries ∘ order)⟩
        (constantLines ++ List.ofFn (dictionaryLines ∘ order)) := by
  obtain ⟨items, dictionaryItems, rfl, puts, putsDictionaries⟩ := hasLines_iff.1 has
  obtain ⟨item, rfl, each⟩ := forall₂_ofFn_iff.1 putsDictionaries
  refine ⟨items.map Prod.snd, Prod.snd ∘ item, ?_, ?_, ?_⟩
  · rw [List.map_ofFn]
  · rw [List.length_map, putsConstants_length puts]
  · refine hasLines_iff.2 ⟨items, List.ofFn (item ∘ order), ?_, puts, ?_⟩
    · rw [List.map_ofFn]
      rfl
    · exact forall₂_ofFn_iff.2 ⟨item ∘ order, rfl, fun i => each (order i)⟩

/-- Two constants side by side that do not read each other change places with
their lines, and so do the dictionaries, in any order; everything else is put out
as before. -/
theorem lines_reordered :
    (∀ before a b after dictionaries lines name name',
      a.name = some name → b.name = some name' → name ≠ name' →
      name ∉ b.tokens → name' ∉ a.tokens →
      HasLines ⟨before ++ a :: b :: after, dictionaries⟩ lines →
      ∃ first x y rest, lines = first ++ x :: y :: rest ∧ first.length = before.length ∧
        HasLines ⟨before ++ b :: a :: after, dictionaries⟩ (first ++ y :: x :: rest)) ∧
    ∀ constants n (dictionaries : Fin n → DictionaryDecl) (order : Equiv.Perm (Fin n)) lines,
      HasLines ⟨constants, List.ofFn dictionaries⟩ lines →
      ∃ (constantLines : List String) (dictionaryLines : Fin n → String),
        lines = constantLines ++ List.ofFn dictionaryLines ∧
        constantLines.length = constants.length ∧
        HasLines ⟨constants, List.ofFn (dictionaries ∘ order)⟩
          (constantLines ++ List.ofFn (dictionaryLines ∘ order)) := by
  constructor
  · intro before a b after dictionaries lines name name' named named' apart unread unread' has
    exact hasLines_exchange named named' apart unread unread' has
  · intro constants n dictionaries order lines has
    exact hasLines_permuted order has

def shared : Binding Node := ⟨some "p", some (.number (some "1"))⟩

def doubling : Binding Node := ⟨some "x", some (.expression (some "p 1 +"))⟩

def copying : Binding Node := ⟨some "y", some (.expression (some "p"))⟩

/-- This one reads both, and is called like one of them. -/
def summing : Binding Node := ⟨some "x", some (.expression (some "x y +"))⟩

def readers : Fin 2 → DictionaryDecl
  | 0 => ⟨some "d", [⟨some "k", some (.expression (some "x"))⟩]⟩
  | 1 => ⟨some "e", [⟨some "k", some (.expression (some "y"))⟩]⟩

theorem lines_of_readers :
    HasLines ⟨[shared, copying, doubling, summing], List.ofFn readers⟩
        ["p is 1;", "y is 1;", "x is 2;", "x is 3;", "d -> \x7b\nk -> 3.\n\x7d",
          "e -> \x7b\nk -> 1.\n\x7d"] ∧
      HasLines ⟨[shared, doubling, copying, summing],
          List.ofFn (readers ∘ Equiv.swap 0 1)⟩
        ["p is 1;", "x is 2;", "y is 1;", "x is 3;", "e -> \x7b\nk -> 1.\n\x7d",
          "d -> \x7b\nk -> 3.\n\x7d"] := by
  have has : HasLines ⟨[shared, doubling, copying, summing], List.ofFn readers⟩
      ["p is 1;", "x is 2;", "y is 1;", "x is 3;", "d -> \x7b\nk -> 3.\n\x7d",
        "e -> \x7b\nk -> 1.\n\x7d"] :=
    .of_put (by cbv)
  have tokens : doubling.tokens = ["p", "1", "+"] := by cbv
  have tokens' : copying.tokens = ["p"] := by cbv
  constructor
  · obtain ⟨lines, x, y, rest, split, length, exchanged⟩ :=
      lines_reordered.1 [shared] doubling copying [summing] _ _ "x" "y" rfl rfl
        (by decide) (by rw [tokens']; decide) (by rw [tokens]; decide) has
    obtain ⟨only, rfl⟩ := List.length_eq_one_iff.1 length
    cases split
    exact exchanged
  · obtain ⟨constantLines, dictionaryLines, split, length, permuted⟩ :=
      lines_reordered.2 _ 2 readers (Equiv.swap 0 1) _ has
    have parted : ["p is 1;", "x is 2;", "y is 1;", "x is 3;"] ++
        ["d -> \x7b\nk -> 3.\n\x7d", "e -> \x7b\nk -> 1.\n\x7d"] =
        constantLines ++ [dictionaryLines 0, dictionaryLines 1] := split
    obtain ⟨rfl, ofDictionaries⟩ := List.append_inj parted length.symm
    obtain ⟨ofD, ofE⟩ := List.cons.inj ofDictionaries
    have ordered : List.ofFn (dictionaryLines ∘ Equiv.swap 0 1) =
        [dictionaryLines 1, dictionaryLines 0] := rfl
    rw [ordered, ← ofD, ← (List.cons.inj ofE).1] at permuted
    exact permuted

end ConfigDecl.Configuration

import ConfigDecl.Proofs.Output.Keys
import Mathlib

/-! # What has been written

The written form of a value is a sequence of pieces: its keys, in pre-order, and
the texts between them.  Rendering puts the pieces at the end of a buffer, one after
another, up to the first key that is not an identifier.  So what it writes, be it the
whole or a part, is known from the value alone, and it is what the value would begin
with if its keys were mended.  Values that are rendered onto the same buffer stand there
one behind another. -/

set_option autoImplicit false

namespace ConfigDecl

namespace Output

inductive Piece where
  | key (name : String)
  | other (text : String)
  deriving DecidableEq, Repr

namespace Piece

def text : Piece → String
  | .key name => name
  | .other text => text

def key? : Piece → Option String
  | .key name => some name
  | .other _ => none

/-- Only a key is examined before it is written. -/
def admitted : Piece → Bool
  | .key name => isIdent name
  | .other _ => true

end Piece

theorem mem_filterMap_key? {pieces : List Piece} {name : String} :
    name ∈ pieces.filterMap Piece.key? ↔ Piece.key name ∈ pieces := by
  rw [List.mem_filterMap]
  constructor
  · intro found
    obtain ⟨piece, inside, same⟩ := found
    cases piece with
    | key other =>
        cases same
        exact inside
    | other text => cases same
  · intro inside
    exact ⟨.key name, inside, rfl⟩

def joined (pieces : List Piece) : String := String.join (pieces.map Piece.text)

@[simp] theorem joined_nil : joined [] = "" := rfl

@[simp] theorem joined_cons (piece : Piece) (pieces : List Piece) :
    joined (piece :: pieces) = piece.text ++ joined pieces := by
  simp [joined, String.join_cons]

@[simp] theorem joined_append (xs ys : List Piece) : joined (xs ++ ys) = joined xs ++ joined ys := by
  simp [joined, String.join_append]

/-- Put the pieces at the end of `buffer`, up to the first that is not admitted. -/
def putOnto (buffer : String) : List Piece → Rendering
  | [] => ⟨buffer, none⟩
  | piece :: rest =>
      if piece.admitted then putOnto (buffer ++ piece.text) rest
      else ⟨buffer, some (.invalidKey piece.text)⟩

theorem putOnto_other (buffer text : String) (rest : List Piece) :
    putOnto buffer (.other text :: rest) = putOnto (buffer ++ text) rest := rfl

theorem putOnto_key_of_ident {name : String} (ident : isIdent name = true) (buffer : String)
    (rest : List Piece) : putOnto buffer (.key name :: rest) = putOnto (buffer ++ name) rest :=
  if_pos ident

theorem putOnto_key_of_bad {name : String} (bad : isIdent name = false) (buffer : String)
    (rest : List Piece) :
    putOnto buffer (.key name :: rest) = ⟨buffer, some (.invalidKey name)⟩ :=
  if_neg (by simp [Piece.admitted, bad])

theorem putOnto_of_admitted {pieces : List Piece} (all : ∀ piece ∈ pieces, piece.admitted = true)
    (buffer : String) (rest : List Piece) :
    putOnto buffer (pieces ++ rest) = putOnto (buffer ++ joined pieces) rest := by
  induction pieces generalizing buffer with
  | nil => rw [List.nil_append, joined_nil, String.append_empty]
  | cons piece pieces ih =>
      have first := all piece List.mem_cons_self
      have later := ih fun other member => all other (List.mem_cons_of_mem piece member)
      rw [List.cons_append, putOnto, if_pos first, later, joined_cons, String.append_assoc]

theorem putOnto_append (xs ys : List Piece) (buffer : String) :
    putOnto buffer (xs ++ ys) =
      match putOnto buffer xs with
      | ⟨buffer, none⟩ => putOnto buffer ys
      | ⟨buffer, some failure⟩ => ⟨buffer, some failure⟩ := by
  induction xs generalizing buffer with
  | nil => rfl
  | cons piece xs ih =>
      rw [List.cons_append, putOnto, putOnto]
      split
      · exact ih (buffer ++ piece.text)
      · rfl

end Output

namespace Value

open Output

/-! ## The pieces of a value -/

mutual

def pieces : Value → List Piece
  | .integer n => [.other (Integer.decimal n)]
  | .text content => [.other (textOpen ++ content ++ textClose)]
  | .dictionary ⟨entries⟩ =>
      .other (dictionaryOpen ++ "\n") :: (entriesPieces entries ++ [.other dictionaryClose])

def entriesPieces : List (String × Value) → List Piece
  | [] => []
  | (key, value) :: rest =>
      .key key :: .other dictionaryArrow ::
        (pieces value ++ .other (entryEnd ++ "\n") :: entriesPieces rest)

end

mutual

theorem joined_pieces : ∀ value : Value, joined value.pieces = value.literal
  | .integer n => by simp [pieces, literal, Piece.text]
  | .text content => by simp [pieces, literal, Piece.text]
  | .dictionary ⟨entries⟩ => by
      simp [pieces, literal, Piece.text, joined_entriesPieces entries, String.append_assoc]

theorem joined_entriesPieces : ∀ entries : List (String × Value),
    joined (entriesPieces entries) = entriesLiteral entries
  | [] => rfl
  | (key, value) :: rest => by
      simp [entriesPieces, entriesLiteral, Piece.text, joined_pieces value,
        joined_entriesPieces rest, String.append_assoc]

end

mutual

/-- The keys among the pieces are those at every depth, in pre-order. -/
theorem filterMap_key?_pieces : ∀ value : Value, value.pieces.filterMap Piece.key? = value.deepKeys
  | .integer n => rfl
  | .text content => rfl
  | .dictionary ⟨entries⟩ => by
      simp [pieces, deepKeys, List.filterMap_cons, Piece.key?, filterMap_key?_entriesPieces entries]

theorem filterMap_key?_entriesPieces : ∀ entries : List (String × Value),
    (entriesPieces entries).filterMap Piece.key? = entriesKeys entries
  | [] => rfl
  | (key, value) :: rest => by
      simp [entriesPieces, entriesKeys, List.filterMap_cons, Piece.key?, filterMap_key?_pieces value,
        filterMap_key?_entriesPieces rest]

end

mutual

/-- To render a value is to put out its pieces. -/
theorem renderOnto_eq_putOnto (buffer : String) : ∀ value : Value,
    value.renderOnto buffer = putOnto buffer value.pieces
  | .integer n => rfl
  | .text content => by
      rw [renderOnto, pieces, putOnto_other, putOnto]
      simp only [String.append_assoc]
  | .dictionary ⟨entries⟩ => by
      rw [renderOnto, renderEntriesOnto_eq_putOnto, pieces, putOnto_other, putOnto_append,
        String.append_assoc]
      rfl

theorem renderEntriesOnto_eq_putOnto (buffer : String) : ∀ entries : List (String × Value),
    renderEntriesOnto buffer entries = putOnto buffer (entriesPieces entries)
  | [] => rfl
  | (key, value) :: rest => by
      rw [renderEntriesOnto, entriesPieces]
      by_cases ident : isIdent key = true
      · rw [if_pos ident, putOnto_key_of_ident ident, putOnto_other, putOnto_append,
          renderOnto_eq_putOnto]
        -- Both sides come to the rest only if the pieces of the value are all admitted.
        rcases putOnto (buffer ++ key ++ dictionaryArrow) (pieces value) with ⟨reached, _ | failure⟩
        · show renderEntriesOnto (reached ++ entryEnd ++ "\n") rest = _
          rw [renderEntriesOnto_eq_putOnto, String.append_assoc]
          rfl
        · rfl
      · rw [if_neg ident, putOnto_key_of_bad (Bool.eq_false_iff.2 ident)]

end

/-! ## How far a value is written -/

/-- All pieces are admitted exactly if all keys are identifiers. -/
theorem keysAreIdents_iff_admitted {value : Value} :
    value.KeysAreIdents ↔ ∀ piece ∈ value.pieces, piece.admitted = true := by
  rw [KeysAreIdents, ← filterMap_key?_pieces]
  constructor
  · intro idents piece member
    cases piece with
    | key name => exact idents name (mem_filterMap_key?.2 member)
    | other text => rfl
  · intro admitted name member
    exact admitted (.key name) (mem_filterMap_key?.1 member)

/-- The value is written up to a key, the first that is not an identifier. -/
structure WrittenUpTo (value : Value) (done : List Piece) (key : String)
    (left : List Piece) : Prop where
  split : value.pieces = done ++ .key key :: left
  admitted : ∀ piece ∈ done, piece.admitted = true
  bad : isIdent key = false

theorem exists_writtenUpTo {value : Value} (bad : ¬ value.KeysAreIdents) :
    ∃ done key left, value.WrittenUpTo done key left := by
  cases found : value.pieces.find? (fun piece => !piece.admitted) with
  | none =>
      refine absurd (keysAreIdents_iff_admitted.2 ?_) bad
      intro piece member
      simpa using List.find?_eq_none.1 found piece member
  | some piece =>
      obtain ⟨unfit, done, left, split, before⟩ := List.find?_eq_some_iff_append.1 found
      have admitted : ∀ piece ∈ done, piece.admitted = true := by
        intro piece member
        simpa using before piece member
      cases piece with
      | key name => exact ⟨done, name, left, split, admitted, by simpa [Piece.admitted] using unfit⟩
      | other text => cases unfit

variable {value : Value} {done left : List Piece} {key : String}

theorem WrittenUpTo.renderOnto_eq (upTo : value.WrittenUpTo done key left) (buffer : String) :
    value.renderOnto buffer = ⟨buffer ++ joined done, some (.invalidKey key)⟩ := by
  rw [renderOnto_eq_putOnto, upTo.split, putOnto_of_admitted upTo.admitted,
    putOnto_key_of_bad upTo.bad]

theorem WrittenUpTo.render_eq (upTo : value.WrittenUpTo done key left) :
    value.render = .error (.invalidKey key) := by
  rw [render, upTo.renderOnto_eq]
  rfl

/-- The key is the first in pre-order that is not an identifier. -/
theorem WrittenUpTo.find?_deepKeys (upTo : value.WrittenUpTo done key left) :
    value.deepKeys.find? (fun name => !isIdent name) = some key := by
  have idents : (done.filterMap Piece.key?).find? (fun name => !isIdent name) = none := by
    rw [List.find?_eq_none]
    intro name member
    have ident : isIdent name = true := upTo.admitted (.key name) (mem_filterMap_key?.1 member)
    simp [ident]
  rw [← filterMap_key?_pieces, upTo.split, List.filterMap_append, List.find?_append, idents,
    Option.none_or]
  simp [Piece.key?, upTo.bad]

/-! ## The value with its keys mended -/

end Value

/-- A key that may stand in place of another: an identifier, and the same one if the
other is an identifier already. -/
def KeyMended (key mended : String) : Prop :=
  isIdent mended = true ∧ (isIdent key = true → mended = key)

namespace Value

mutual

/-- The value with its invalid keys, at every depth, replaced by identifiers. -/
inductive Mended : Value → Value → Prop where
  | integer (n : Int64) : Mended (.integer n) (.integer n)
  | text (content : String) : Mended (.text content) (.text content)
  | dictionary {entries entries' : List (String × Value)}
      (each : EntriesMended entries entries') :
      Mended (.dictionary ⟨entries⟩) (.dictionary ⟨entries'⟩)

inductive EntriesMended : List (String × Value) → List (String × Value) → Prop where
  | nil : EntriesMended [] []
  | cons {key key' : String} {value value' : Value} {rest rest' : List (String × Value)}
      (named : KeyMended key key') (inside : Mended value value')
      (later : EntriesMended rest rest') :
      EntriesMended ((key, value) :: rest) ((key', value') :: rest')

end

end Value

namespace Output

inductive Piece.Mended : Piece → Piece → Prop where
  | key {name name' : String} (named : KeyMended name name') : Piece.Mended (.key name) (.key name')
  | other (text : String) : Piece.Mended (.other text) (.other text)

theorem Piece.Mended.admitted {piece piece' : Piece} (mended : Piece.Mended piece piece') :
    piece'.admitted = true := by
  cases mended with
  | key named => exact named.1
  | other text => rfl

theorem Piece.Mended.eq_of_admitted {piece piece' : Piece} (mended : Piece.Mended piece piece')
    (admitted : piece.admitted = true) : piece' = piece := by
  cases mended with
  | key named => rw [named.2 admitted]
  | other text => rfl

theorem admitted_of_mended {pieces pieces' : List Piece}
    (mended : List.Forall₂ Piece.Mended pieces pieces') :
    ∀ piece ∈ pieces', piece.admitted = true := by
  induction mended with
  | nil => exact fun _ member => nomatch member
  | cons first _ ih =>
      intro piece member
      rcases List.mem_cons.1 member with rfl | later
      · exact first.admitted
      · exact ih piece later

theorem exists_split_of_mended {done left pieces' : List Piece} {key : String}
    (admitted : ∀ piece ∈ done, piece.admitted = true)
    (mended : List.Forall₂ Piece.Mended (done ++ .key key :: left) pieces') :
    ∃ key' left', isIdent key' = true ∧ pieces' = done ++ .key key' :: left' := by
  induction done generalizing pieces' with
  | nil =>
      obtain ⟨piece, left', first, _, rfl⟩ := List.forall₂_cons_left_iff.1 mended
      cases first with
      | key named => exact ⟨_, left', named.1, rfl⟩
  | cons piece done ih =>
      obtain ⟨piece', rest', first, later, rfl⟩ := List.forall₂_cons_left_iff.1 mended
      obtain ⟨key', left', ident, rfl⟩ :=
        ih (fun other member => admitted other (List.mem_cons_of_mem piece member)) later
      rw [first.eq_of_admitted (admitted piece List.mem_cons_self)]
      exact ⟨key', left', ident, rfl⟩

end Output

namespace Value

open Output

mutual

theorem pieces_of_mended : ∀ {value value' : Value}, Mended value value' →
    List.Forall₂ Piece.Mended value.pieces value'.pieces
  | _, _, .integer n => .cons (.other _) .nil
  | _, _, .text content => .cons (.other _) .nil
  | _, _, .dictionary each =>
      .cons (.other _)
        (List.rel_append (entriesPieces_of_mended each) (.cons (.other _) .nil))

theorem entriesPieces_of_mended : ∀ {entries entries' : List (String × Value)},
    EntriesMended entries entries' →
      List.Forall₂ Piece.Mended (entriesPieces entries) (entriesPieces entries')
  | _, _, .nil => .nil
  | _, _, .cons named inside later =>
      .cons (.key named) (.cons (.other _)
        (List.rel_append (pieces_of_mended inside)
          (.cons (.other _) (entriesPieces_of_mended later))))

end

variable {value : Value} {done left : List Piece} {key : String}

/-- Whatever identifiers mend the keys, what has been written is how the value then
begins, and the next piece is the key that was the first to be mended. -/
theorem WrittenUpTo.exists_split_of_mended (upTo : value.WrittenUpTo done key left)
    {value' : Value} (mended : value.Mended value') :
    ∃ key' left', isIdent key' = true ∧ value'.pieces = done ++ .key key' :: left' ∧
      value'.render = .ok (joined done ++ key' ++ joined left') := by
  have each := pieces_of_mended mended
  have idents := keysAreIdents_iff_admitted.2 (admitted_of_mended each)
  rw [upTo.split] at each
  obtain ⟨key', left', ident, split⟩ := Output.exists_split_of_mended upTo.admitted each
  refine ⟨key', left', ident, split, render_eq_ok_iff.2 ⟨idents, ?_⟩⟩
  rw [← joined_pieces, split, joined_append, joined_cons, String.append_assoc]
  rfl

/-! ## One buffer -/

/-- What rendering writes of a value, the whole or a part. -/
def written (value : Value) : String := (value.renderOnto "").buffer

theorem renderOnto_eq_append (buffer : String) (value : Value) :
    value.renderOnto buffer = ⟨buffer ++ value.written, (value.renderOnto "").failure⟩ := by
  rw [written]
  by_cases idents : value.KeysAreIdents
  · simp [renderOnto_of_idents _ value idents]
  · obtain ⟨done, key, left, upTo⟩ := exists_writtenUpTo idents
    simp [upTo.renderOnto_eq]

theorem written_of_render {text : String} (rendered : value.render = .ok text) :
    value.written = text := by
  obtain ⟨idents, rfl⟩ := render_eq_ok_iff.1 rendered
  rw [written, renderOnto_of_idents "" value idents, String.empty_append]

theorem WrittenUpTo.written_eq (upTo : value.WrittenUpTo done key left) :
    value.written = joined done := by
  rw [written, upTo.renderOnto_eq, String.empty_append]

theorem renderAllOnto_eq_mapIdx (buffer : String) (values : List Value) :
    renderAllOnto buffer values = values.mapIdx fun position value =>
      ⟨buffer ++ String.join ((values.take (position + 1)).map written),
        (value.renderOnto "").failure⟩ := by
  induction values generalizing buffer with
  | nil => rfl
  | cons value rest ih =>
      rw [renderAllOnto, ih, renderOnto_eq_append buffer value, List.mapIdx_cons]
      simp [String.join_cons, String.append_assoc]

/-- Rendering appends to the buffer a text that is known from the value alone.  It
succeeds exactly if all keys are identifiers, and the text is then the whole.
Otherwise the first key that is not an identifier is to blame, and the text is
what stands before this key in the written form, and in that of every value with
mended keys.  Values that are rendered onto one buffer stand there one behind
another, complete or not. -/
theorem renderOnto_appends_written :
    (∀ (value : Value) (buffer : String),
      value.renderOnto buffer = ⟨buffer ++ value.written, (value.renderOnto "").failure⟩ ∧
      ((value.renderOnto buffer).failure = none ↔ value.KeysAreIdents) ∧
      (value.KeysAreIdents → value.render = .ok value.written) ∧
      (¬ value.KeysAreIdents →
        ∃ done key left, value.pieces = done ++ .key key :: left ∧
          value.literal = value.written ++ key ++ joined left ∧
          value.written = joined done ∧
          value.deepKeys.find? (fun name => !isIdent name) = some key ∧
          value.render = .error (.invalidKey key) ∧
          (value.renderOnto buffer).failure = some (.invalidKey key) ∧
          ∀ value', value.Mended value' →
            ∃ key' left', isIdent key' = true ∧ value'.pieces = done ++ .key key' :: left' ∧
              value'.render = .ok (value.written ++ key' ++ joined left'))) ∧
    ∀ (buffer : String) (values : List Value),
      renderAllOnto buffer values = values.mapIdx fun position value =>
        ⟨buffer ++ String.join ((values.take (position + 1)).map written),
          (value.renderOnto "").failure⟩ := by
  refine ⟨?_, renderAllOnto_eq_mapIdx⟩
  intro value buffer
  refine ⟨renderOnto_eq_append buffer value, ?_, ?_, ?_⟩
  · rw [failure_renderOnto, firstBadKey_eq_none_iff]
    rfl
  · intro idents
    have rendered := render_eq_ok_iff.2 ⟨idents, rfl⟩
    rw [written_of_render rendered]
    exact rendered
  · intro bad
    obtain ⟨done, key, left, upTo⟩ := exists_writtenUpTo bad
    refine ⟨done, key, left, upTo.split, ?_, upTo.written_eq, upTo.find?_deepKeys, upTo.render_eq,
      ?_, ?_⟩
    · rw [← joined_pieces, upTo.split, upTo.written_eq, joined_append, joined_cons,
        String.append_assoc]
      rfl
    · rw [upTo.renderOnto_eq]
    · intro value' mended
      rw [upTo.written_eq]
      exact upTo.exists_split_of_mended mended

def unfit : Value :=
  .dictionary ⟨[("a", .dictionary ⟨[("b", .integer 1), ("c d", .text "x")]⟩), ("2e", .integer 3)]⟩

def unfitMended : Value :=
  .dictionary ⟨[("a", .dictionary ⟨[("b", .integer 1), ("cd", .text "x")]⟩), ("e2", .integer 3)]⟩

theorem renderOnto_unfit :
    unfit.Mended unfitMended ∧
      unfit.renderOnto "> " = ⟨"> \x7b\na -> \x7b\nb -> 1.\n", some (.invalidKey "c d")⟩ ∧
      ∃ rest, unfitMended.render = .ok ("\x7b\na -> \x7b\nb -> 1.\n" ++ rest) := by
  have kept : ∀ {key : String}, isIdent key = true → KeyMended key key := fun ident =>
    ⟨ident, fun _ => rfl⟩
  have inner : EntriesMended [("b", .integer 1), ("c d", .text "x")]
      [("b", .integer 1), ("cd", .text "x")] :=
    .cons (kept (by decide)) (.integer 1)
      (.cons ⟨by decide, fun ident => absurd ident (by decide)⟩ (.text "x") .nil)
  have mended : unfit.Mended unfitMended :=
    .dictionary (.cons (kept (by decide)) (.dictionary inner)
      (.cons ⟨by decide, fun ident => absurd ident (by decide)⟩ (.integer 3) .nil))
  have bad : ¬ unfit.KeysAreIdents := by
    intro idents
    exact absurd (idents "2e" (by decide)) (by decide)
  have written : unfit.written = "\x7b\na -> \x7b\nb -> 1.\n" := by cbv
  obtain ⟨appends, _, _, stops⟩ := renderOnto_appends_written.1 unfit "> "
  obtain ⟨done, key, left, _, _, _, _, _, _, begins⟩ := stops bad
  obtain ⟨key', left', _, _, rendered⟩ := begins unfitMended mended
  refine ⟨mended, ?_, key' ++ Output.joined left', ?_⟩
  · rw [appends, written]
    cbv
  · rw [rendered, written, String.append_assoc]

end Value

end ConfigDecl

import ConfigDecl.Proofs.Text.Reach
import ConfigDecl.Text.Blank

/-! # Words between blanks

A text is *spaced* into tokens when it is the tokens in order with at least one
blank between any two of them and any number of blanks around them.  The words
of a text are exactly the blank-free tokens it is spaced into, so the amount and
the kind of the blanks never matter. -/

set_option autoImplicit false

namespace ConfigDecl.Text

/-- Not empty, and free of blanks. -/
def Solid (token : List Char) : Prop := token ≠ [] ∧ ∀ c ∈ token, isBlank c = false

theorem solid_iff {token : List Char} :
    Solid token ↔ (!token.isEmpty && token.all fun c => !isBlank c) = true := by
  simp [Solid]

instance (token : List Char) : Decidable (Solid token) :=
  decidable_of_iff _ solid_iff.symm

theorem dropWhile_of_solid {token : List Char} (solid : Solid token) :
    token.dropWhile isBlank = token := by
  cases token with
  | nil => rfl
  | cons c rest => exact List.dropWhile_cons_of_neg (by simp [solid.2 c])

theorem trim_of_solid {token : List Char} (solid : Solid token) : trim token = token := by
  have backwards : Solid token.reverse :=
    ⟨by simpa using solid.1, fun c member => solid.2 c (List.mem_reverse.1 member)⟩
  rw [trim, dropWhile_of_solid solid, dropWhile_of_solid backwards, List.reverse_reverse]

/-- Nothing, or a blank and whatever follows. -/
def StartsBlank (chars : List Char) : Prop := ∀ c ∈ chars.head?, isBlank c = true

theorem startsBlank_iff {chars : List Char} :
    StartsBlank chars ↔ Stops (fun c => !isBlank c) chars := by
  simp [StartsBlank, Stops]

inductive Spaced : List String → List Char → Prop where
  | blanks {gap : List Char} (blank : ∀ c ∈ gap, isBlank c = true) : Spaced [] gap
  | token {gap rest : List Char} {first : String} {later : List String}
      (blank : ∀ c ∈ gap, isBlank c = true) (apart : StartsBlank rest)
      (spaced : Spaced later rest) : Spaced (first :: later) (gap ++ first.toList ++ rest)

theorem words_blanks_append {gap : List Char} (blank : ∀ c ∈ gap, isBlank c = true)
    (rest : List Char) : words (gap ++ rest) = words rest := by
  induction gap with
  | nil => rfl
  | cons c gap ih =>
      have here : isBlank c = true := blank c (by simp)
      rw [List.cons_append, words_cons_of_blank here]
      exact ih fun d member => blank d (by simp [member])

theorem words_solid_append {token rest : List Char} (solid : Solid token)
    (apart : StartsBlank rest) : words (token ++ rest) = token :: words rest := by
  obtain ⟨nonempty, blankFree⟩ := solid
  cases token with
  | nil => exact absurd rfl nonempty
  | cons c token =>
      have tailFree : ∀ d ∈ token, (!isBlank d) = true := by
        intro d member
        simp [blankFree d (by simp [member])]
      have stops := startsBlank_iff.1 apart
      rw [List.cons_append, words_cons_of_not_blank (blankFree c (by simp)),
        takeWhile_append_of_stops tailFree stops, dropWhile_append_of_stops tailFree stops]

theorem words_of_spaced {tokens : List String} {chars : List Char}
    (solid : ∀ token ∈ tokens, Solid token.toList) (spaced : Spaced tokens chars) :
    words chars = tokens.map String.toList := by
  induction spaced with
  | blanks blank =>
      have dropped := words_blanks_append blank []
      simpa using dropped
  | @token gap rest first later blank apart _ ih =>
      have laterSolid : ∀ token ∈ later, Solid token.toList := fun token member =>
        solid token (by simp [member])
      rw [List.append_assoc, words_blanks_append blank,
        words_solid_append (solid first (by simp)) apart, ih laterSolid, List.map_cons]

theorem solid_of_mem_words {chars token : List Char} (member : token ∈ words chars) :
    Solid token := by
  induction chars using words.induct with
  | case1 => simp at member
  | case2 c rest blank ih =>
      rw [words_cons_of_blank blank] at member
      exact ih member
  | case3 c rest solid ih =>
      have clear : isBlank c = false := by simpa using solid
      rw [words_cons_of_not_blank clear] at member
      rcases List.mem_cons.mp member with rfl | later
      · refine ⟨by simp, ?_⟩
        intro d inside
        rcases List.mem_cons.mp inside with rfl | taken
        · exact clear
        · simpa using List.mem_takeWhile_imp taken
      · exact ih later

theorem solid_of_mem_wordsOf {text token : String} (member : token ∈ wordsOf text) :
    Solid token.toList := by
  obtain ⟨chars, inside, rfl⟩ := List.mem_map.mp member
  simpa using solid_of_mem_words inside

theorem spaced_words (chars : List Char) :
    Spaced ((words chars).map String.ofList) chars := by
  induction chars using words.induct with
  | case1 =>
      rw [words_nil, List.map_nil]
      refine Spaced.blanks ?_
      intro d inside
      cases inside
  | case2 c rest blank ih =>
      rw [words_cons_of_blank blank]
      -- The blank joins the gap before the first token, if there is a token.
      generalize (words rest).map String.ofList = tokens at ih
      cases ih with
      | blanks allBlank =>
          refine Spaced.blanks ?_
          intro d inside
          rcases List.mem_cons.mp inside with rfl | later
          · exact blank
          · exact allBlank d later
      | @token gap rest first later allBlank apart spaced =>
          have blanks : ∀ d ∈ c :: gap, isBlank d = true := by
            intro d inside
            rcases List.mem_cons.mp inside with rfl | later
            · exact blank
            · exact allBlank d later
          exact Spaced.token blanks apart spaced
  | case3 c rest solid ih =>
      have clear : isBlank c = false := by simpa using solid
      have apart : StartsBlank (rest.dropWhile fun d => !isBlank d) :=
        startsBlank_iff.2 (stops_dropWhile _ rest)
      have spaced : Spaced (String.ofList (c :: rest.takeWhile fun d => !isBlank d) ::
            (words (rest.dropWhile fun d => !isBlank d)).map String.ofList)
          ([] ++ (String.ofList (c :: rest.takeWhile fun d => !isBlank d)).toList ++
            rest.dropWhile fun d => !isBlank d) := Spaced.token (by simp) apart ih
      rw [words_cons_of_not_blank clear, List.map_cons]
      simpa using spaced

/-- The words of a text are the blank-free tokens that it is spaced into. -/
theorem wordsOf_eq_iff_spaced {tokens : List String} {text : String}
    (solid : ∀ token ∈ tokens, Solid token.toList) :
    wordsOf text = tokens ↔ Spaced tokens text.toList := by
  constructor
  · rintro rfl
    exact spaced_words text.toList
  · intro spaced
    rw [wordsOf, words_of_spaced solid spaced, List.map_map]
    simp [Function.comp_def]

/-! ## One token -/

/-- The token with nothing but blanks around it. -/
def Padded (token chars : List Char) : Prop :=
  ∃ before after, chars = before ++ token ++ after ∧
    (∀ c ∈ before, isBlank c = true) ∧ ∀ c ∈ after, isBlank c = true

theorem Solid.reverse {token : List Char} (solid : Solid token) : Solid token.reverse :=
  ⟨by simpa using solid.1, fun c member => solid.2 c (List.mem_reverse.1 member)⟩

theorem stops_solid_append {token : List Char} (solid : Solid token) (rest : List Char) :
    Stops isBlank (token ++ rest) := by
  intro c first
  obtain ⟨nonempty, blankFree⟩ := solid
  cases token with
  | nil => exact absurd rfl nonempty
  | cons d token =>
      cases Option.mem_some.mp first
      exact blankFree _ List.mem_cons_self

theorem trim_of_padded {token chars : List Char} (solid : Solid token)
    (padded : Padded token chars) : trim chars = token := by
  obtain ⟨before, after, rfl, blankBefore, blankAfter⟩ := padded
  have blankReversed : ∀ c ∈ after.reverse, isBlank c = true := fun c member =>
    blankAfter c (List.mem_reverse.1 member)
  have stops : Stops isBlank token.reverse := by
    simpa using stops_solid_append solid.reverse []
  rw [trim, List.append_assoc, dropWhile_append_of_stops blankBefore (stops_solid_append solid after),
    List.reverse_append, dropWhile_append_of_stops blankReversed stops, List.reverse_reverse]

/-- Trimming takes blanks away, at both ends. -/
theorem padded_trim (chars : List Char) : Padded (trim chars) chars := by
  refine ⟨chars.takeWhile isBlank, ((chars.dropWhile isBlank).reverse.takeWhile isBlank).reverse,
    ?_, ?_, ?_⟩
  · rw [trim, List.append_assoc, ← List.reverse_append, List.takeWhile_append_dropWhile,
      List.reverse_reverse, List.takeWhile_append_dropWhile]
  · intro c member
    exact List.mem_takeWhile_imp member
  · intro c member
    exact List.mem_takeWhile_imp (List.mem_reverse.1 member)

/-- A text with one word is this word between blanks. -/
theorem wordsOf_of_padded {word text : String} (solid : Solid word.toList)
    (padded : Padded word.toList text.toList) : wordsOf text = [word] := by
  obtain ⟨before, after, split, blankBefore, blankAfter⟩ := padded
  have single : ∀ token ∈ [word], Solid token.toList := by
    intro token member
    rw [List.mem_singleton.1 member]
    exact solid
  rw [wordsOf_eq_iff_spaced single, split]
  refine Spaced.token blankBefore ?_ (Spaced.blanks blankAfter)
  intro c first
  exact blankAfter c (List.mem_of_mem_head? first)

end ConfigDecl.Text

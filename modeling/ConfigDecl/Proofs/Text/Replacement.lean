import ConfigDecl.Proofs.Text.Spaced

/-! # Words put in place of words

Every word of a text may be replaced where it stands, the blanks around it being
kept.  As long as words are put in place of words, those are then the words of
the text. -/

set_option autoImplicit false

namespace ConfigDecl.Text

/-- The text with each word changed, and with its blanks as they are. -/
def replaceWords (change : List Char → List Char) : List Char → List Char
  | [] => []
  | c :: rest =>
      if isBlank c then c :: replaceWords change rest
      else
        change (c :: rest.takeWhile fun d => !isBlank d) ++
          replaceWords change (rest.dropWhile fun d => !isBlank d)
termination_by chars => chars.length
decreasing_by
  · simp
  · exact Nat.lt_succ_of_le (length_dropWhile_le _ rest)

variable {change : List Char → List Char}

@[simp] theorem replaceWords_nil : replaceWords change [] = [] := by simp [replaceWords]

theorem replaceWords_cons_of_blank {c : Char} (blank : isBlank c = true) (rest : List Char) :
    replaceWords change (c :: rest) = c :: replaceWords change rest := by
  rw [replaceWords, if_pos blank]

theorem replaceWords_cons_of_not_blank {c : Char} (solid : isBlank c = false)
    (rest : List Char) :
    replaceWords change (c :: rest) =
      change (c :: rest.takeWhile fun d => !isBlank d) ++
        replaceWords change (rest.dropWhile fun d => !isBlank d) := by
  rw [replaceWords, if_neg (by simp [solid])]

theorem startsBlank_replaceWords {chars : List Char} (apart : StartsBlank chars) :
    StartsBlank (replaceWords change chars) := by
  cases chars with
  | nil =>
      rw [replaceWords_nil]
      exact apart
  | cons c rest =>
      have blank : isBlank c = true := apart c rfl
      rw [replaceWords_cons_of_blank blank]
      intro d first
      cases Option.mem_some.1 first
      exact blank

theorem words_replaceWords (keeps : ∀ token, Solid token → Solid (change token))
    (chars : List Char) : words (replaceWords change chars) = (words chars).map change := by
  induction chars using words.induct with
  | case1 => rw [replaceWords_nil, words_nil, List.map_nil]
  | case2 c rest blank ih =>
      rw [replaceWords_cons_of_blank blank, words_cons_of_blank blank, words_cons_of_blank blank, ih]
  | case3 c rest solid ih =>
      have clear : isBlank c = false := by simpa using solid
      have token : Solid (c :: rest.takeWhile fun d => !isBlank d) := by
        refine @solid_of_mem_words (c :: rest) _ ?_
        rw [words_cons_of_not_blank clear]
        exact List.mem_cons_self
      have apart : StartsBlank (rest.dropWhile fun d => !isBlank d) :=
        startsBlank_iff.2 (stops_dropWhile _ rest)
      rw [replaceWords_cons_of_not_blank clear, words_cons_of_not_blank clear,
        words_solid_append (keeps _ token) (startsBlank_replaceWords apart), ih, List.map_cons]

def replaceWordsOf (change : String → String) (text : String) : String :=
  String.ofList (replaceWords (fun token => (change (String.ofList token)).toList) text.toList)

theorem wordsOf_replaceWordsOf {change : String → String}
    (keeps : ∀ word : String, Solid word.toList → Solid (change word).toList) (text : String) :
    wordsOf (replaceWordsOf change text) = (wordsOf text).map change := by
  have keepsChars : ∀ token, Solid token → Solid (change (String.ofList token)).toList := by
    intro token solid
    apply keeps
    rw [String.toList_ofList]
    exact solid
  rw [wordsOf, wordsOf, replaceWordsOf, String.toList_ofList, words_replaceWords keepsChars,
    List.map_map, List.map_map]
  apply List.map_congr_left
  intro token _
  exact String.ofList_toList

end ConfigDecl.Text

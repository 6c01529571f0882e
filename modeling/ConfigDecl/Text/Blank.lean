/-! # Blanks, words and trimming

A blank is a character with the Unicode property `White_Space`.  Words are the
maximal blank-free runs of a text; trimming drops the blanks at both ends. -/

set_option autoImplicit false

namespace ConfigDecl.Text

/-- The ranges of the property `White_Space`, both ends included. -/
def blankRanges : List (Nat × Nat) :=
  [(0x09, 0x0D), (0x20, 0x20), (0x85, 0x85), (0xA0, 0xA0), (0x1680, 0x1680),
    (0x2000, 0x200A), (0x2028, 0x2029), (0x202F, 0x202F), (0x205F, 0x205F),
    (0x3000, 0x3000)]

def isBlank (c : Char) : Bool :=
  blankRanges.any fun range => range.1 ≤ c.toNat && c.toNat ≤ range.2

def trim (chars : List Char) : List Char :=
  ((chars.dropWhile isBlank).reverse.dropWhile isBlank).reverse

theorem length_dropWhile_le {α : Type} (p : α → Bool) (xs : List α) :
    (xs.dropWhile p).length ≤ xs.length :=
  (List.dropWhile_sublist p).length_le

def words : List Char → List (List Char)
  | [] => []
  | c :: rest =>
      if isBlank c then words rest
      else
        (c :: rest.takeWhile fun d => !isBlank d) ::
          words (rest.dropWhile fun d => !isBlank d)
termination_by chars => chars.length
decreasing_by
  · simp
  · exact Nat.lt_succ_of_le (length_dropWhile_le _ rest)

def wordsOf (text : String) : List String :=
  (words text.toList).map String.ofList

@[simp] theorem words_nil : words [] = [] := by simp [words]

theorem words_cons_of_blank {c : Char} (blank : isBlank c = true) (rest : List Char) :
    words (c :: rest) = words rest := by
  rw [words, if_pos blank]

theorem words_cons_of_not_blank {c : Char} (solid : isBlank c = false)
    (rest : List Char) :
    words (c :: rest) =
      (c :: rest.takeWhile fun d => !isBlank d) ::
        words (rest.dropWhile fun d => !isBlank d) := by
  rw [words, if_neg (by simp [solid])]

end ConfigDecl.Text

import ConfigDecl.Proofs.Configuration.References
import ConfigDecl.Proofs.Expr.Refusal

/-! # Numbers and expressions of one literal

Digits are read in two places: as the text of a number, with a sign of either kind,
and as a word of an expression, with a minus at most.  Where both read the text they
read the same value, and where it is out of range both refuse it, each with an error of
its own.  A plus before the digits makes a number and never an expression, since no
constant can be named like that. -/

set_option autoImplicit false

namespace ConfigDecl

theorem Integer.Numeral.solid (numeral : Integer.Numeral) : Text.Solid numeral.chars := by
  obtain ⟨sign, digits, nonempty, allDigits⟩ := numeral
  have digitsSolid : ∀ c ∈ digits, Text.isBlank c = false := fun c member =>
    Expr.digit_not_blank (allDigits c member)
  refine ⟨by simp [Integer.Numeral.chars, nonempty], ?_⟩
  intro c member
  rcases List.mem_append.1 member with signed | digit
  · cases sign with
    | absent => cases signed
    | plus => rw [List.mem_singleton.1 signed]; decide
    | minus => rw [List.mem_singleton.1 signed]; decide
  · exact digitsSolid c digit

namespace Configuration

variable {table : Constants} {path text : String}

/-! ## Numbers -/

theorem resolve_number_of_padded (table : Constants) (path : String) {numeral : Integer.Numeral}
    (padded : Text.Padded numeral.chars text.toList) :
    resolve table path (.number (some text)) =
      match Integer.narrow? numeral.exact with
      | some n => .ok (.integer n)
      | none => .error (.invalidNumber text) := by
  have read : (Integer.numeral? (Text.trim text.toList)).bind Integer.narrow? =
      Integer.narrow? numeral.exact := by
    rw [Text.trim_of_padded numeral.solid padded, numeral.numeral?_chars, Option.bind_some]
  rw [resolve, resolveNumber]
  cases narrowed : Integer.narrow? numeral.exact with
  | none => rw [read, narrowed]
  | some n => rw [read, narrowed]

theorem resolve_number_of_strange (table : Constants) (path : String)
    (strange : ∀ numeral : Integer.Numeral, ¬ Text.Padded numeral.chars text.toList) :
    resolve table path (.number (some text)) = .error (.invalidNumber text) := by
  rw [resolve, resolveNumber]
  cases read : Integer.numeral? (Text.trim text.toList) with
  | none => rfl
  | some n =>
      obtain ⟨numeral, chars, _⟩ := Integer.numeral?_eq_some_iff.1 read
      have padded := Text.padded_trim text.toList
      rw [← chars] at padded
      exact absurd padded (strange numeral)

theorem resolve_number_eq_ok_iff (table : Constants) (path : String) {n : Int64} :
    resolve table path (.number (some text)) = .ok (.integer n) ↔
      ∃ numeral : Integer.Numeral, Text.Padded numeral.chars text.toList ∧
        numeral.exact = n.toInt := by
  constructor
  · intro resolved
    by_cases written : ∃ numeral : Integer.Numeral, Text.Padded numeral.chars text.toList
    · obtain ⟨numeral, padded⟩ := written
      rw [resolve_number_of_padded table path padded] at resolved
      cases narrowed : Integer.narrow? numeral.exact with
      | none =>
          rw [narrowed] at resolved
          cases resolved
      | some w =>
          rw [narrowed] at resolved
          cases resolved
          exact ⟨numeral, padded, (Integer.narrow?_eq_some_iff.1 narrowed).2.symm⟩
    · rw [resolve_number_of_strange table path (not_exists.1 written)] at resolved
      cases resolved
  · intro read
    obtain ⟨numeral, padded, exact⟩ := read
    rw [resolve_number_of_padded table path padded, exact, Integer.narrow?_toInt]

theorem resolve_number_eq_error_iff (table : Constants) (path : String) {error : Error} :
    resolve table path (.number (some text)) = .error error ↔
      error = .invalidNumber text ∧
        ∀ numeral : Integer.Numeral, Text.Padded numeral.chars text.toList →
          ¬ Integer.InRange numeral.exact := by
  by_cases written : ∃ numeral : Integer.Numeral, Text.Padded numeral.chars text.toList ∧
      Integer.InRange numeral.exact
  · obtain ⟨numeral, padded, inRange⟩ := written
    have resolved := (resolve_number_eq_ok_iff table path).2
      ⟨numeral, padded, (Integer.toInt_ofInt inRange).symm⟩
    constructor
    · intro failed
      rw [resolved] at failed
      cases failed
    · intro outOfRange
      exact absurd inRange (outOfRange.2 numeral padded)
  · have outOfRange : ∀ numeral : Integer.Numeral, Text.Padded numeral.chars text.toList →
        ¬ Integer.InRange numeral.exact := fun numeral padded inRange =>
      written ⟨numeral, padded, inRange⟩
    have failed : resolve table path (.number (some text)) = .error (.invalidNumber text) := by
      by_cases padded : ∃ numeral : Integer.Numeral, Text.Padded numeral.chars text.toList
      · obtain ⟨numeral, padded⟩ := padded
        rw [resolve_number_of_padded table path padded,
          Integer.narrow?_eq_none_iff.2 (outOfRange numeral padded)]
      · exact resolve_number_of_strange table path (not_exists.1 padded)
    rw [failed, Except.error.injEq, eq_comm]
    exact (and_iff_left outOfRange).symm

/-! ## Expressions of one word -/

theorem resolve_expression_of_padded (table : Constants) (path : String) {word : String}
    (solid : Text.Solid word.toList) (padded : Text.Padded word.toList text.toList) :
    resolve table path (.expression (some text)) =
      match (Expr.evalWord table [] word).bind Expr.result with
      | .ok n => .ok (.integer n)
      | .error error => .error (.expression error) := by
  have evaluated : Expr.eval table text = (Expr.evalWord table [] word).bind Expr.result := by
    rw [Expr.eval_eq_bind, Text.wordsOf_of_padded solid padded, Expr.evalWords_singleton]
  rw [resolve, Option.getD_some, resolveExpression]
  cases comes : (Expr.evalWord table [] word).bind Expr.result with
  | ok n => rw [evaluated, comes]
  | error error => rw [evaluated, comes]

theorem resolve_expression_of_literal (table : Constants) (path : String)
    {leaf : Integer.Literal} (padded : Text.Padded leaf.chars text.toList) :
    resolve table path (.expression (some text)) =
      match Integer.narrow? leaf.exact with
      | some n => .ok (.integer n)
      | none => .error (.expression (.overflow leaf.word)) := by
  have paddedWord : Text.Padded leaf.word.toList text.toList := by
    rw [leaf.toList_word]
    exact padded
  rw [resolve_expression_of_padded table path (Expr.Token.literal leaf).solid paddedWord,
    Expr.Token.word, Expr.evalWord_literal, Expr.push]
  cases Integer.narrow? leaf.exact <;> rfl

/-- Where both read a literal they read the same, and what is out of range for the one
is out of range for the other. -/
theorem resolve_literal (table : Constants) (path : String) {leaf : Integer.Literal}
    (padded : Text.Padded leaf.chars text.toList) :
    (∀ n : Int64, resolve table path (.number (some text)) = .ok (.integer n) →
      resolve table path (.expression (some text)) = .ok (.integer n)) ∧
    ∀ error, resolve table path (.number (some text)) = .error error →
      resolve table path (.expression (some text)) =
        .error (.expression (.overflow leaf.word)) := by
  have paddedNumeral : Text.Padded (Integer.Numeral.ofLiteral leaf).chars text.toList := by
    rw [Integer.Numeral.chars_ofLiteral]
    exact padded
  rw [resolve_number_of_padded table path paddedNumeral, Integer.Numeral.exact_ofLiteral,
    resolve_expression_of_literal table path padded]
  cases Integer.narrow? leaf.exact with
  | none => simp
  | some w => simp

/-! ## A plus -/

theorem chars_of_plus {numeral : Integer.Numeral} (plus : numeral.sign = .plus) :
    numeral.chars = '+' :: numeral.digits := by
  rw [Integer.Numeral.chars, plus]
  rfl

theorem literal?_of_plus {numeral : Integer.Numeral} (plus : numeral.sign = .plus) :
    Integer.literal? numeral.chars = none := by
  rw [chars_of_plus plus]
  simp [Integer.literal?, Integer.isDigits]

theorem ofWord?_of_plus {numeral : Integer.Numeral} (plus : numeral.sign = .plus) :
    Expr.Operator.ofWord? (String.ofList numeral.chars) = none := by
  cases found : Expr.Operator.ofWord? (String.ofList numeral.chars) with
  | none => rfl
  | some op =>
      have chars : op.word.toList = '+' :: numeral.digits := by
        rw [← Expr.Operator.ofWord?_eq_some_iff.1 found, String.toList_ofList, chars_of_plus plus]
      cases op with
      | add =>
          have digits : numeral.digits = [] := by simpa [Expr.Operator.word] using chars.symm
          exact absurd digits numeral.nonempty
      | sub => simp [Expr.Operator.word] at chars
      | mul => simp [Expr.Operator.word] at chars
      | abs => simp [Expr.Operator.word] at chars

/-- No constant that a run defines begins with a plus. -/
theorem integer?_of_plus {doc : Document} {declared : List Resolved} {rest : List Declaration}
    (reaches : Reaches doc table declared rest) {word : String} {digits : List Char}
    (plus : word.toList = '+' :: digits) : table.integer? word = none := by
  have referable := referable_of_reaches reaches
  rw [Constants.integer?, referable.lookup_eq]
  cases found : latest declared word with
  | none => rfl
  | some value =>
      -- What has been defined is named by an identifier, and those begin with a letter.
      have named := referable.named _ (mem_of_latest found)
      obtain ⟨first, more, chars, letter⟩ := Expr.exists_letter_of_isIdent named
      rw [plus] at chars
      cases chars
      cases letter

/-- As an expression, a numeral with a plus is a name that nothing has. -/
theorem resolve_expression_of_plus {doc : Document} {declared : List Resolved}
    {rest : List Declaration} (reaches : Reaches doc table declared rest) (path : String)
    {numeral : Integer.Numeral} (plus : numeral.sign = .plus)
    (padded : Text.Padded numeral.chars text.toList) :
    resolve table path (.expression (some text)) =
      .error (.expression (.unknownToken (String.ofList numeral.chars))) := by
  have chars : (String.ofList numeral.chars).toList = numeral.chars := String.toList_ofList
  have solid : Text.Solid (String.ofList numeral.chars).toList := by
    rw [chars]
    exact numeral.solid
  have unread : Integer.literal? (String.ofList numeral.chars).toList = none := by
    rw [chars]
    exact literal?_of_plus plus
  have unknown : table.integer? (String.ofList numeral.chars) = none :=
    integer?_of_plus reaches (chars.trans (chars_of_plus plus))
  have refused := Expr.evalWord_name table []
    (Expr.Name.ofWord _ solid unread (ofWord?_of_plus plus))
  rw [Expr.Name.ofWord, unknown] at refused
  rw [← chars] at padded
  rw [resolve_expression_of_padded table path solid padded, refused]
  rfl

/-- A number is an optional sign and digits between blanks, in range, and anything
else is refused.  A text that is a literal of expressions resolves to the same integer
as an expression, or to an overflow where the number is refused.  Digits behind a plus
make a number, but in no table that a run comes to an expression. -/
theorem resolve_numerals (table : Constants) (path text : String) :
    (∀ n : Int64, resolve table path (.number (some text)) = .ok (.integer n) ↔
      ∃ numeral : Integer.Numeral, Text.Padded numeral.chars text.toList ∧
        numeral.exact = n.toInt) ∧
    (resolve table path (.number (some text)) = .error (.invalidNumber text) ↔
      ∀ numeral : Integer.Numeral, Text.Padded numeral.chars text.toList →
        ¬ Integer.InRange numeral.exact) ∧
    (∀ leaf : Integer.Literal, Text.Padded leaf.chars text.toList →
      (∀ n : Int64, resolve table path (.number (some text)) = .ok (.integer n) →
        resolve table path (.expression (some text)) = .ok (.integer n)) ∧
      ∀ error, resolve table path (.number (some text)) = .error error →
        resolve table path (.expression (some text)) =
          .error (.expression (.overflow leaf.word))) ∧
    ∀ numeral : Integer.Numeral, numeral.sign = .plus →
      Text.Padded numeral.chars text.toList →
        (∀ n : Int64, numeral.exact = n.toInt →
          resolve table path (.number (some text)) = .ok (.integer n)) ∧
        ∀ (doc : Document) (declared : List Resolved) (rest : List Declaration),
          Reaches doc table declared rest →
            resolve table path (.expression (some text)) =
              .error (.expression (.unknownToken (String.ofList numeral.chars))) := by
  refine ⟨fun n => resolve_number_eq_ok_iff table path, ?_,
    fun leaf padded => resolve_literal table path padded, ?_⟩
  · rw [resolve_number_eq_error_iff]
    exact and_iff_right rfl
  · intro numeral plus padded
    refine ⟨?_, ?_⟩
    · intro n exact
      exact (resolve_number_eq_ok_iff table path).2 ⟨numeral, padded, exact⟩
    · intro doc declared rest reaches
      exact resolve_expression_of_plus reaches path plus padded

def positiveSeven : Integer.Numeral :=
  ⟨.plus, ['0', '7'], by decide, List.all_eq_true.1 (by decide)⟩

def excess : Integer.Literal :=
  ⟨false, "9223372036854775808".toList, by decide, List.all_eq_true.1 (by decide)⟩

theorem resolve_positive_seven :
    resolve ∅ "n" (.number (some "\t+07\u3000")) = .ok (.integer 7) ∧
      resolve ∅ "n" (.expression (some "\t+07\u3000")) =
        .error (.expression (.unknownToken "+07")) ∧
      resolve ∅ "n" (.expression (some " 9223372036854775808 ")) =
        .error (.expression (.overflow "9223372036854775808")) := by
  have plusPadded : Text.Padded positiveSeven.chars "\t+07\u3000".toList :=
    ⟨['\t'], ['\u3000'], by decide, List.all_eq_true.1 (by decide), List.all_eq_true.1 (by decide)⟩
  have excessPadded : Text.Padded excess.chars " 9223372036854775808 ".toList :=
    ⟨[' '], [' '], by decide, List.all_eq_true.1 (by decide), List.all_eq_true.1 (by decide)⟩
  have tooLarge : resolve ∅ "n" (.number (some " 9223372036854775808 ")) =
      .error (.invalidNumber " 9223372036854775808 ") := by cbv
  obtain ⟨_, _, _, plus⟩ := resolve_numerals ∅ "n" "\t+07\u3000"
  obtain ⟨number, expression⟩ := plus positiveSeven rfl plusPadded
  obtain ⟨_, _, literal, _⟩ := resolve_numerals ∅ "n" " 9223372036854775808 "
  obtain ⟨_, refused⟩ := literal excess excessPadded
  exact ⟨number 7 (by decide), expression ⟨[], []⟩ [] [] .start, refused _ tooLarge⟩

end Configuration

end ConfigDecl

import ConfigDecl.CommandLine.Arguments
import ConfigDecl.Proofs.Attempt

/-! # What arguments ask for

The arguments before the first `--` are options or operands, and those after it
are operands.  An option argument writes one long option or a run of short ones;
what is asked for depends on the options in their order and on the operands in
theirs, and not on how the two are mixed. -/

set_option autoImplicit false

namespace ConfigDecl.CommandLine

/-! ## Options and operands -/

/-- An option as it is written: its name, and the argument that is given with it. -/
structure WrittenOption where
  name : String
  argument : Option String
  deriving DecidableEq

namespace WrittenOption

/-- The option `--name` or `--name=argument`; `text` follows the dashes. -/
def long (text : List Char) : WrittenOption where
  name := String.ofList (text.takeWhile (· != '='))
  argument := if '=' ∈ text then some (String.ofList (text.dropWhile (· != '=')).tail) else none

def short (letter : Char) : WrittenOption := ⟨String.singleton letter, none⟩

def IsHelp (option : WrittenOption) : Prop := option.name = "h" ∨ option.name = "help"

instance (option : WrittenOption) : Decidable option.IsHelp :=
  inferInstanceAs (Decidable (_ ∨ _))

/-- What is wrong with an option.  Only help is known, and it takes no argument. -/
def fault? (option : WrittenOption) : Option UsageError :=
  if option.IsHelp then option.argument.map fun _ => .unexpectedArgument option.name
  else some (.unrecognized option.name)

end WrittenOption

def isOption (argument : String) : Bool :=
  argument.toList.head? = some '-' && 1 < argument.toList.length

def optionsIn (argument : String) : List WrittenOption :=
  match argument.toList with
  | '-' :: '-' :: text => [.long text]
  | '-' :: letters => letters.map .short
  | _ => []

def beforeEnd (arguments : List String) : List String := arguments.takeWhile (· != "--")

def behindEnd (arguments : List String) : List String :=
  (arguments.dropWhile (· != "--")).tail

def optionsOf (arguments : List String) : List WrittenOption :=
  (beforeEnd arguments).flatMap optionsIn

def operandsOf (arguments : List String) : List String :=
  (beforeEnd arguments).filter (fun argument => !isOption argument) ++ behindEnd arguments

theorem optionsOf_append {front : List String} (goesOn : "--" ∉ front) (back : List String) :
    optionsOf (front ++ back) = front.flatMap optionsIn ++ optionsOf back := by
  have all : ∀ argument ∈ front, (argument != "--") = true := fun argument member =>
    bne_iff_ne.2 fun same => goesOn (same ▸ member)
  rw [optionsOf, beforeEnd, List.takeWhile_append_of_pos all, List.flatMap_append]
  rfl

theorem operandsOf_append {front : List String} (goesOn : "--" ∉ front) (back : List String) :
    operandsOf (front ++ back) =
      front.filter (fun argument => !isOption argument) ++ operandsOf back := by
  have all : ∀ argument ∈ front, (argument != "--") = true := fun argument member =>
    bne_iff_ne.2 fun same => goesOn (same ▸ member)
  rw [operandsOf, beforeEnd, behindEnd, List.takeWhile_append_of_pos all,
    List.dropWhile_append_of_pos all, List.filter_append, List.append_assoc]
  rfl

/-- The first error of the options: the first that is wrong, or else that there
is more than one. -/
def optionError? (options : List WrittenOption) : Option UsageError :=
  (options.findSome? WrittenOption.fault?).or
    (if 1 < options.length then some (.repeated "help") else none)

inductive Miscounted : List String → UsageError → Prop where
  | none : Miscounted [] (.missing "INPUT")
  | one (source : String) : Miscounted [source] (.missing "OUTPUT")
  | more (source destination extra : String) (rest : List String) :
      Miscounted (source :: destination :: extra :: rest) (.unrecognized extra)

/-! ## Counting help -/

/-- The requests for help among options, if none of these is wrong. -/
def counted (options : List WrittenOption) : Except UsageError Nat :=
  match options.findSome? WrittenOption.fault? with
  | some error => .error error
  | none => .ok options.length

theorem counted_nil : counted [] = .ok 0 := rfl

theorem counted_cons (option : WrittenOption) (rest : List WrittenOption) :
    counted (option :: rest) =
      match option.fault? with
      | some error => .error error
      | none => (counted rest).map (· + 1) := by
  rw [counted, counted, List.findSome?_cons]
  cases option.fault? with
  | some error => rfl
  | none => cases rest.findSome? WrittenOption.fault? <;> rfl

theorem counted_append (first later : List WrittenOption) :
    counted (first ++ later) =
      (counted first).bind fun helps => (counted later).map (helps + ·) := by
  induction first with
  | nil => cases found : counted later <;> simp [counted_nil, found, Except.map, Except.bind]
  | cons option rest ih =>
      rw [List.cons_append, counted_cons, counted_cons, ih]
      cases option.fault? with
      | some error => rfl
      | none =>
          cases counted rest with
          | error error => rfl
          | ok helps =>
              cases counted later with
              | error error => rfl
              | ok more => simp [Except.map, Except.bind, Nat.add_right_comm]

/-- An option for help counts wherever it stands. -/
theorem counted_insert {option : WrittenOption} (fine : option.fault? = none)
    (first later : List WrittenOption) :
    counted (first ++ option :: later) = (counted (first ++ later)).map (· + 1) := by
  rw [counted_append, counted_append, counted_cons, fine]
  cases counted first with
  | error error => rfl
  | ok helps => cases counted later <;> rfl

/-! ## Scanning -/

theorem isHelp_short_iff (c : Char) : (WrittenOption.short c).IsHelp ↔ c = helpLetter := by
  constructor
  · intro help
    rcases help with letter | word
    · have same : [c] = ['h'] := by
        simpa [WrittenOption.short] using congrArg String.toList letter
      exact List.head_eq_of_cons_eq same
    · have same : [c] = ['h', 'e', 'l', 'p'] := by
        simpa [WrittenOption.short] using congrArg String.toList word
      cases same
  · rintro rfl
    exact .inl rfl

theorem scanShort_eq (letters : List Char) :
    scanShort letters = counted (letters.map .short) := by
  induction letters with
  | nil => rfl
  | cons c rest ih =>
      rw [scanShort, List.map_cons, counted_cons, WrittenOption.fault?, ih]
      by_cases letter : c = helpLetter
      · rw [if_pos letter, if_pos ((isHelp_short_iff c).2 letter)]
        rfl
      · rw [if_neg letter, if_neg fun help => letter ((isHelp_short_iff c).1 help)]
        rfl

theorem isLongHelp_iff (text : List Char) :
    isLongHelp (String.ofList (text.takeWhile fun c => c != '=')) = true ↔
      (WrittenOption.long text).IsHelp := by
  rw [isLongHelp, Bool.or_eq_true, beq_iff_eq, beq_iff_eq]
  exact or_comm

theorem scanLong_eq (text : List Char) : scanLong text = counted [.long text] := by
  rw [scanLong, counted_cons, WrittenOption.fault?, counted_nil]
  by_cases help : (WrittenOption.long text).IsHelp
  · rw [if_pos ((isLongHelp_iff text).2 help), if_pos help]
    by_cases given : '=' ∈ text
    · simp [given, WrittenOption.long]
    · simp [given, WrittenOption.long, Except.map]
  · rw [if_neg fun long => help ((isLongHelp_iff text).1 long), if_neg help]
    rfl

theorem scanOption?_eq (argument : String) :
    scanOption? argument =
      if isOption argument then some (counted (optionsIn argument)) else none := by
  rw [scanOption?, isOption, optionsIn]
  match argument.toList with
  | [] => rfl
  | [c] => by_cases dash : c = '-' <;> simp [dash]
  | c :: c' :: rest =>
      by_cases dash : c = '-'
      · subst dash
        by_cases long : c' = '-'
        · subst long
          simp [scanLong_eq]
        · simp [long, scanShort_eq]
      · simp [dash]

theorem optionsIn_of_operand {argument : String} (operand : isOption argument = false) :
    optionsIn argument = [] := by
  rw [isOption] at operand
  rw [optionsIn]
  split
  · next text split => simp [split] at operand
  · next letters notLong split =>
      cases letters with
      | nil => rfl
      | cons c rest => simp [split] at operand
  · rfl

theorem scan_eq (arguments : List String) :
    scan arguments = (counted (optionsOf arguments)).map fun helps =>
      ⟨helps, operandsOf arguments⟩ := by
  induction arguments with
  | nil => rfl
  | cons argument rest ih =>
      rw [scan]
      by_cases ends : argument = "--"
      · subst ends
        rfl
      · have goesOn : "--" ∉ [argument] := fun member => ends (List.mem_singleton.1 member).symm
        have options := optionsOf_append goesOn rest
        have operands := operandsOf_append goesOn rest
        rw [List.flatMap_singleton] at options
        rw [List.filter_cons, List.filter_nil] at operands
        rw [if_neg ends, scanOption?_eq, ← List.singleton_append, options, operands, ih]
        cases option : isOption argument with
        | false =>
            rw [optionsIn_of_operand option, List.nil_append]
            cases counted (optionsOf rest) <;> rfl
        | true =>
            rw [counted_append]
            cases counted (optionsIn argument) with
            | error error => rfl
            | ok helps => cases counted (optionsOf rest) <;> rfl

theorem ofArguments_eq (arguments : List String) :
    Invocation.ofArguments arguments =
      (counted (optionsOf arguments)).bind fun helps =>
        Scanned.invocation ⟨helps, operandsOf arguments⟩ := by
  rw [Invocation.ofArguments, scan_eq]
  cases counted (optionsOf arguments) <;> rfl

/-! ## The three kinds of options -/

theorem fault?_eq_none_iff (option : WrittenOption) :
    option.fault? = none ↔ option.IsHelp ∧ option.argument = none := by
  rw [WrittenOption.fault?]
  split
  · next help => simp [help]
  · next other => simp [other]

theorem options_cases (options : List WrittenOption) :
    options = [] ∨ (∃ help, options = [help] ∧ help.IsHelp ∧ help.argument = none) ∨
      ∃ error, optionError? options = some error := by
  cases wrong : options.findSome? WrittenOption.fault? with
  | some error => exact .inr (.inr ⟨error, by rw [optionError?, wrong]; rfl⟩)
  | none =>
      match options with
      | [] => exact .inl rfl
      | [help] =>
          have fine : help.fault? = none := List.findSome?_eq_none_iff.1 wrong help (by simp)
          exact .inr (.inl ⟨help, rfl, (fault?_eq_none_iff help).1 fine⟩)
      | first :: second :: rest =>
          exact .inr (.inr ⟨.repeated "help", by rw [optionError?, wrong]; simp⟩)

section

variable {arguments : List String}

theorem ofArguments_of_no_option (none : optionsOf arguments = []) :
    Invocation.ofArguments arguments = Scanned.invocation ⟨0, operandsOf arguments⟩ := by
  rw [ofArguments_eq, none]
  rfl

theorem ofArguments_of_help {help : WrittenOption} (one : optionsOf arguments = [help])
    (asks : help.IsHelp) (bare : help.argument = none) :
    Invocation.ofArguments arguments = .ok .usage := by
  rw [ofArguments_eq, one, counted_cons, (fault?_eq_none_iff help).2 ⟨asks, bare⟩]
  rfl

theorem ofArguments_of_optionError {error : UsageError}
    (wrong : optionError? (optionsOf arguments) = some error) :
    Invocation.ofArguments arguments = .error error := by
  rw [ofArguments_eq, counted]
  rw [optionError?] at wrong
  cases found : (optionsOf arguments).findSome? WrittenOption.fault? with
  | some first =>
      rw [found] at wrong
      exact congrArg Except.error (Option.some.inj wrong)
  | none =>
      rw [found, Option.none_or] at wrong
      split at wrong
      · next many =>
          cases wrong
          obtain ⟨more, length⟩ := Nat.exists_eq_add_of_le' many
          simp only [length, Attempt.bind_ok]
          rfl
      · cases wrong

end

/-! ## What comes of them -/

theorem invocation_eq_convert_iff {operands : List String} {source destination : String} :
    Scanned.invocation ⟨0, operands⟩ = .ok (.convert source destination) ↔
      operands = [source, destination] := by
  match operands with
  | [] | [_] | _ :: _ :: _ :: _ => simp [Scanned.invocation]
  | [_, _] => simp [Scanned.invocation]

theorem invocation_eq_error_iff {operands : List String} {error : UsageError} :
    Scanned.invocation ⟨0, operands⟩ = .error error ↔ Miscounted operands error := by
  constructor
  · intro refused
    match operands with
    | [] =>
        cases refused
        exact .none
    | [source] =>
        cases refused
        exact .one source
    | [_, _] => cases refused
    | source :: destination :: extra :: rest =>
        cases refused
        exact .more source destination extra rest
  · intro miscounted
    cases miscounted <;> rfl

theorem invocation_ne_usage (operands : List String) :
    Scanned.invocation ⟨0, operands⟩ ≠ .ok .usage := by
  match operands with
  | [] | [_] | [_, _] | _ :: _ :: _ :: _ => simp [Scanned.invocation]

theorem ofArguments_cases (arguments : List String) :
    (optionsOf arguments = [] ∧
      Invocation.ofArguments arguments = Scanned.invocation ⟨0, operandsOf arguments⟩) ∨
    ((∃ help, optionsOf arguments = [help] ∧ help.IsHelp ∧ help.argument = none) ∧
      Invocation.ofArguments arguments = .ok .usage) ∨
    ∃ error, optionError? (optionsOf arguments) = some error ∧
      Invocation.ofArguments arguments = .error error := by
  rcases options_cases (optionsOf arguments) with none | helped | wrong
  · exact .inl ⟨none, ofArguments_of_no_option none⟩
  · obtain ⟨help, one, asks, bare⟩ := helped
    exact .inr (.inl ⟨⟨help, one, asks, bare⟩, ofArguments_of_help one asks bare⟩)
  · obtain ⟨error, wrong⟩ := wrong
    exact .inr (.inr ⟨error, wrong, ofArguments_of_optionError wrong⟩)

section

variable {arguments : List String}

theorem ofArguments_eq_convert_iff {source destination : String} :
    Invocation.ofArguments arguments = .ok (.convert source destination) ↔
      optionsOf arguments = [] ∧ operandsOf arguments = [source, destination] := by
  constructor
  · intro asked
    rcases ofArguments_cases arguments with ⟨none, result⟩ | ⟨_, result⟩ | ⟨_, _, result⟩
    · rw [result] at asked
      exact ⟨none, invocation_eq_convert_iff.1 asked⟩
    · rw [result] at asked
      cases asked
    · rw [result] at asked
      cases asked
  · intro both
    rw [ofArguments_of_no_option both.1]
    exact invocation_eq_convert_iff.2 both.2

theorem ofArguments_eq_usage_iff :
    Invocation.ofArguments arguments = .ok .usage ↔
      ∃ help, optionsOf arguments = [help] ∧ help.IsHelp ∧ help.argument = none := by
  constructor
  · intro asked
    rcases ofArguments_cases arguments with ⟨_, result⟩ | ⟨helped, _⟩ | ⟨_, _, result⟩
    · rw [result] at asked
      exact absurd asked (invocation_ne_usage _)
    · exact helped
    · rw [result] at asked
      cases asked
  · intro helped
    obtain ⟨help, one, asks, bare⟩ := helped
    exact ofArguments_of_help one asks bare

theorem ofArguments_eq_error_iff {error : UsageError} :
    Invocation.ofArguments arguments = .error error ↔
      optionError? (optionsOf arguments) = some error ∨
        optionsOf arguments = [] ∧ Miscounted (operandsOf arguments) error := by
  constructor
  · intro refused
    rcases ofArguments_cases arguments with ⟨none, result⟩ | ⟨_, result⟩ | ⟨first, wrong, result⟩
    · rw [result] at refused
      exact .inr ⟨none, invocation_eq_error_iff.1 refused⟩
    · rw [result] at refused
      cases refused
    · rw [result] at refused
      cases refused
      exact .inl wrong
  · intro why
    rcases why with wrong | ⟨none, miscounted⟩
    · exact ofArguments_of_optionError wrong
    · rw [ofArguments_of_no_option none]
      exact invocation_eq_error_iff.2 miscounted

end

/-! ## Help anywhere -/

/-- An argument that asks for help, before the options end. -/
theorem ofArguments_insert_help {help : String} (asks : help = "-h" ∨ help = "--help")
    {front : List String} (goesOn : "--" ∉ front) (back : List String) :
    Invocation.ofArguments (front ++ help :: back) =
      (counted (optionsOf (front ++ back))).bind fun helps =>
        Scanned.invocation ⟨helps + 1, operandsOf (front ++ back)⟩ := by
  obtain ⟨option, writes, fine⟩ : ∃ option, optionsIn help = [option] ∧ option.fault? = none := by
    rcases asks with rfl | rfl
    · exact ⟨_, rfl, rfl⟩
    · exact ⟨_, rfl, rfl⟩
  have dashed : isOption help = true := by rcases asks with rfl | rfl <;> rfl
  have single : "--" ∉ [help] := by rcases asks with rfl | rfl <;> decide
  have options : optionsOf (help :: back) = option :: optionsOf back := by
    rw [← List.singleton_append, optionsOf_append single, List.flatMap_singleton, writes]
    rfl
  have operands : operandsOf (help :: back) = operandsOf back := by
    rw [← List.singleton_append, operandsOf_append single, List.filter_cons, dashed]
    rfl
  rw [ofArguments_eq, optionsOf_append goesOn, operandsOf_append goesOn, options, operands,
    counted_insert fine, ← optionsOf_append goesOn, ← operandsOf_append goesOn]
  cases counted (optionsOf (front ++ back)) <;> rfl

/-- A conversion is asked for by two operands and no option, the usage by one option
for help and no other, and anything else is refused, with the first error of the
options or else with what is wrong with the operands.  After `--` anything is an
operand, and before it help may stand anywhere. -/
theorem ofArguments_classifies (arguments : List String) :
    (∀ source destination,
      Invocation.ofArguments arguments = .ok (.convert source destination) ↔
        optionsOf arguments = [] ∧ operandsOf arguments = [source, destination]) ∧
    (Invocation.ofArguments arguments = .ok .usage ↔
      ∃ help, optionsOf arguments = [help] ∧ help.IsHelp ∧ help.argument = none) ∧
    (∀ error, Invocation.ofArguments arguments = .error error ↔
      optionError? (optionsOf arguments) = some error ∨
        optionsOf arguments = [] ∧ Miscounted (operandsOf arguments) error) ∧
    (∀ source destination,
      Invocation.ofArguments ["--", source, destination] = .ok (.convert source destination)) ∧
    ∀ help front back front' back', (help = "-h" ∨ help = "--help") → "--" ∉ front →
      "--" ∉ front' → front ++ back = front' ++ back' →
        Invocation.ofArguments (front ++ help :: back) =
          Invocation.ofArguments (front' ++ help :: back') := by
  refine ⟨?_, ofArguments_eq_usage_iff, ?_, ?_, ?_⟩
  · intro source destination
    exact ofArguments_eq_convert_iff
  · intro error
    exact ofArguments_eq_error_iff
  · intro source destination
    rfl
  · intro help front back front' back' asks goesOn goesOn' same
    rw [ofArguments_insert_help asks goesOn, ofArguments_insert_help asks goesOn', same]

/-- A lone dash is an operand, and help asked for in front or behind is the same. -/
theorem ofArguments_mixed :
    optionsOf ["-", "-h", "a", "--", "--help=x"] = [⟨"h", none⟩] ∧
      operandsOf ["-", "-h", "a", "--", "--help=x"] = ["-", "a", "--help=x"] ∧
      Invocation.ofArguments ["-", "-h", "a", "--", "--help=x"] = .ok .usage ∧
      Invocation.ofArguments ["-h", "-", "a", "--", "--help=x"] = .ok .usage := by
  have options : optionsOf ["-", "-h", "a", "--", "--help=x"] = [⟨"h", none⟩] := by decide
  have asked : Invocation.ofArguments ["-", "-h", "a", "--", "--help=x"] = .ok .usage :=
    (ofArguments_classifies _).2.1.2 ⟨_, options, .inl rfl, rfl⟩
  refine ⟨options, by decide, asked, ?_⟩
  have moved := (ofArguments_classifies []).2.2.2.2 "-h" [] ["-", "a", "--", "--help=x"] ["-"]
    ["a", "--", "--help=x"] (.inl rfl) (by decide) (by decide) rfl
  exact moved.trans asked

end ConfigDecl.CommandLine

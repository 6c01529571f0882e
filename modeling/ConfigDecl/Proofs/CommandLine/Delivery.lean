import ConfigDecl.Proofs.CommandLine.Stages
import ConfigDecl.Proofs.Markup.Delivery
import ConfigDecl.Proofs.Markup.Scanning

/-! # Files in blocks

A run on a file that comes in blocks ends as if the file came whole, as long as
the block boundaries inside its document types are even.  At a boundary between
the angle brackets of a nested declaration the document type ends too early, and
what is left of it is then read as markup. -/

set_option autoImplicit false

namespace ConfigDecl.CommandLine

open Markup

/-! ## Runs -/

def convertDelivered (delivery : Delivery) (source : Bytes) : Except Failure String :=
  match readDocument delivery source with
  | .error error => .error (.reading error)
  | .ok doc =>
      match Configuration.ofDocument doc with
      | .error error => .error (.configuration error)
      | .ok text => .ok text

def FileSystem.conclude (system : FileSystem) (source destination : String) :
    Except Failure String → Outcome × FileSystem
  | .error failure => (.ofFailure source failure, system)
  | .ok text =>
      match system.destination destination with
      | .error error => (.ofFailure source (.output destination error), system)
      | .ok _ => (.wrote destination, (system.store destination (Text.Utf8.encode text)).1)

theorem run_of_content {arguments : List String} {system : FileSystem}
    {source destination : String} {bytes : Bytes}
    (asked : Invocation.ofArguments arguments = .ok (.convert source destination))
    (fetched : system.fetch source = .content bytes) :
    (run FileSystem.files arguments).run system =
      system.conclude source destination (convertDelivered (.blocks blockSize) bytes) := by
  have fetches : convertFetched source (system.fetch source) =
      convertDelivered (.blocks blockSize) bytes := by
    rw [fetched]
    rfl
  rw [run, asked]
  cases converted : convertDelivered (.blocks blockSize) bytes with
  | error failure =>
      simp only [StateT.run_bind, convertFile_of_error (fetches.trans converted)]
      rfl
  | ok text =>
      rw [FileSystem.conclude]
      cases found : system.destination destination with
      | error error =>
          simp only [StateT.run_bind, convertFile_of_refused (fetches.trans converted) found]
          rfl
      | ok place =>
          simp only [StateT.run_bind, convertFile_of_found (fetches.trans converted) found]
          rfl

/-- In every document type that the reading comes to, block boundaries make no
difference. -/
def EvenDoctypes (size : Nat) (source : Bytes) : Prop :=
  ∀ position bytes, HasDoctype source position bytes → EvenDoctype size position bytes

theorem readDocument_blocks {size : Nat} {source : Bytes} (even : EvenDoctypes size source) :
    readDocument (.blocks size) source = readDocument .whole source := by
  rw [readDocument, readDocument, read_blocks even]

theorem convertDelivered_blocks {size : Nat} {source : Bytes} (even : EvenDoctypes size source) :
    convertDelivered (.blocks size) source = convertDelivered .whole source := by
  rw [convertDelivered, convertDelivered, readDocument_blocks even]

/-- Blocks make a difference only in document types: where their boundaries are
even, the same document or error is read and the run ends as it would on a file
that comes whole, and a document type ends elsewhere only if one is uneven, and
then earlier. -/
theorem run_in_even_blocks (size : Nat) (bytes : Bytes) :
    (EvenDoctypes size bytes →
      readDocument (.blocks size) bytes = readDocument .whole bytes) ∧
    (EvenDoctypes blockSize bytes → ∀ arguments system source destination,
      Invocation.ofArguments arguments = .ok (.convert source destination) →
      system.fetch source = .content bytes →
      (run FileSystem.files arguments).run system =
        system.conclude source destination (convertDelivered .whole bytes)) ∧
    ∀ position content after, doctypeEnd .whole position bytes = some (content, after) →
      (EvenAtBlocks size position content →
        doctypeEnd (.blocks size) position bytes = some (content, after)) ∧
      (¬ EvenAtBlocks size position content →
        ∃ content' after', doctypeEnd (.blocks size) position bytes = some (content', after') ∧
          content'.length < content.length) := by
  refine ⟨readDocument_blocks, ?_, ?_⟩
  · intro even arguments system source destination asked fetched
    rw [run_of_content asked fetched, convertDelivered_blocks even]
  · intro position content after ends
    constructor
    · intro even
      exact (evenDoctype_iff.1 (.closed ends even)).trans ends
    · intro uneven
      exact exists_shorter_of_uneven (doctypeEnd_eq_some_iff.1 ends) uneven

/-! ## A declaration at a boundary -/

/-- Spaces, then the bytes after a `<!`. -/
def padded (spaces : Nat) (bytes : Bytes) : Bytes :=
  List.replicate (spaces + 1) space ++ Byte.less :: Byte.bang :: bytes

def behindPadding (delivery : Delivery) (spaces : Nat) (bytes : Bytes) : Scanner where
  rest := Byte.bang :: bytes
  markLength := 0
  offset := spaces + 2
  inTag := true
  opened := []
  delivery := delivery

theorem ofSource_padded (delivery : Delivery) (spaces : Nat) (bytes : Bytes) :
    Scanner.ofSource delivery (padded spaces bytes) =
      ⟨padded spaces bytes, 0, 0, false, [], delivery⟩ := rfl

theorem step_padded (delivery : Delivery) (spaces : Nat) (bytes : Bytes) :
    (Scanner.ofSource delivery (padded spaces bytes)).step =
      .event (.text (List.replicate (spaces + 1) space)) (behindPadding delivery spaces bytes) := by
  have free : Byte.less ∉ List.replicate (spaces + 1) space := by
    intro among
    exact absurd (List.eq_of_mem_replicate among) (by decide)
  have filled : List.replicate (spaces + 1) space ≠ [] := List.cons_ne_nil _ _
  rw [ofSource_padded, Scanner.step_text rfl filled free rfl, List.length_replicate, Nat.zero_add]
  rfl

theorem read_padded (delivery : Delivery) (spaces : Nat) (bytes : Bytes) :
    Element.read delivery (padded spaces bytes) =
      assemble [] (behindPadding delivery spaces bytes).stream := by
  rw [Element.read, Stream.ofSource, Scanner.stream_eq, step_padded]
  rfl

/-- A document type with two declarations inside it, and a root. -/
def twoDeclarations : Bytes :=
  Byte.ofAscii "DOCTYPE a [<!ELEMENT a ANY><!ELEMENT b ANY>]><a/>"

def behindDoctype (spaces : Nat) : Scanner where
  rest := Byte.ofAscii "<a/>"
  markLength := 0
  offset := spaces + 48
  inTag := false
  opened := []
  delivery := .whole

theorem doctypeEnd_twoDeclarations (position : Nat) :
    doctypeEnd .whole position twoDeclarations =
      some (Byte.ofAscii "!DOCTYPE a [<!ELEMENT a ANY><!ELEMENT b ANY>]", Byte.ofAscii "<a/>") := by
  rfl

theorem step_twoDeclarations (spaces : Nat) :
    (behindPadding .whole spaces twoDeclarations).step =
      .event .skipped (behindDoctype spaces) := by
  rfl

theorem step_root (spaces : Nat) :
    (behindDoctype spaces).step =
      .event (.empty ⟨Byte.ofAscii "a", []⟩) ⟨[], 0, spaces + 52, false, [], .whole⟩ := by
  rfl

theorem comes_twoDeclarations {spaces : Nat} {pile : List OpenElement} {scanner : Scanner}
    (comes : Comes (padded spaces twoDeclarations) pile scanner) :
    pile = [] ∧ (scanner = Scanner.ofSource .whole (padded spaces twoDeclarations) ∨
      scanner = behindPadding .whole spaces twoDeclarations ∨ scanner = behindDoctype spaces) := by
  induction comes with
  | start => exact ⟨rfl, .inl rfl⟩
  | step comes read advances ih =>
      obtain ⟨rfl, rfl | rfl | rfl⟩ := ih
      · rw [step_padded] at read
        cases read
        cases advances
        exact ⟨rfl, .inr (.inl rfl)⟩
      · rw [step_twoDeclarations] at read
        cases read
        cases advances <;> exact ⟨rfl, .inr (.inr rfl)⟩
      · rw [step_root] at read
        cases read
        -- This one completes the root.
        cases opened?_of_advances advances

theorem hasDoctype_twoDeclarations {spaces position : Nat} {bytes : Bytes}
    (has : HasDoctype (padded spaces twoDeclarations) position bytes) :
    position = spaces + 2 ∧ bytes = twoDeclarations := by
  obtain ⟨pile, scanner, comes, meets⟩ := has
  obtain ⟨-, rfl | rfl | rfl⟩ := comes_twoDeclarations comes
  · cases meets with
    | inTag inside front kind => cases inside
    | inText outside front meets => exact absurd (List.cons.inj front).1 (by decide)
  · cases meets with
    | inTag inside front kind =>
        refine ⟨Nat.zero_add _, ?_⟩
        exact (List.cons.inj front).2.symm
    | inText outside front meets => cases outside
  · cases meets with
    | inTag inside front kind => cases inside
    | inText outside front meets =>
        cases meets with
        | inTag inside front' kind =>
            have root := (List.cons.inj front).2
            dsimp only at front'
            rw [← root] at front'
            exact absurd (List.cons.inj front').1 (by decide)
        | inText outside front meets => cases outside

theorem convertDelivered_twoDeclarations (spaces : Nat) :
    convertDelivered .whole (padded spaces twoDeclarations) = .ok "" := by
  have root : Element.read .whole (padded spaces twoDeclarations) = .ok ⟨"a", [], none, []⟩ := by
    have decoded : Tag.decode ⟨Byte.ofAscii "a", []⟩ = .ok ("a", []) := by cbv
    rw [read_padded, Scanner.stream_eq, step_twoDeclarations]
    dsimp only [assemble]
    rw [Scanner.stream_eq, step_root]
    exact assemble_of_advances (.empty decoded) _ _
  rw [convertDelivered, readDocument, root]
  rfl

theorem conclude_sample (content : Bytes) :
    (sample content).conclude "f" "f" (.ok "") = (.wrote "f", sample []) := rfl

/-- A block begins between the two declarations. -/
def between : Bytes := padded 8162 twoDeclarations

/-- A block begins with the `>` of the first declaration. -/
def torn : Bytes := padded 8163 twoDeclarations

theorem evenDoctypes_between : EvenDoctypes blockSize between := by
  intro position bytes has
  obtain ⟨rfl, rfl⟩ := hasDoctype_twoDeclarations has
  refine .closed (doctypeEnd_twoDeclarations _) ?_
  intro k inside boundary
  have bound : k ≤ 45 := inside
  have place : k = 28 := by
    rw [blockSize] at boundary
    omega
  rw [place]
  rfl

theorem not_even_torn :
    ¬ EvenAtBlocks blockSize 8165
      (Byte.ofAscii "!DOCTYPE a [<!ELEMENT a ANY><!ELEMENT b ANY>]") := by
  intro even
  exact absurd (even 27 (by decide) (by decide)) (by decide)

/-- A boundary between two declarations goes unnoticed; one inside a declaration
cuts the document type short. -/
theorem run_between :
    EvenDoctypes blockSize between ∧
      readDocument (.blocks blockSize) between = readDocument .whole between ∧
      (run FileSystem.files ["f", "f"]).run (sample between) = (.wrote "f", sample []) ∧
      ∃ content after, doctypeEnd (.blocks blockSize) 8165 twoDeclarations = some (content, after) ∧
        content.length < 45 := by
  refine ⟨evenDoctypes_between, ?_, ?_, ?_⟩
  · exact (run_in_even_blocks blockSize between).1 evenDoctypes_between
  · rw [(run_in_even_blocks blockSize between).2.1 evenDoctypes_between ["f", "f"]
      (sample between) "f" "f" rfl rfl, between, convertDelivered_twoDeclarations, conclude_sample]
  · exact ((run_in_even_blocks blockSize twoDeclarations).2.2 8165 _ _
      (doctypeEnd_twoDeclarations 8165)).2 not_even_torn

def behindTorn : Scanner where
  rest := Byte.ofAscii "<!ELEMENT b ANY>]><a/>"
  markLength := 0
  offset := 8193
  inTag := false
  opened := []
  delivery := .blocks blockSize

theorem read_torn :
    Element.read (.blocks blockSize) torn =
      .error (.malformed (.unknownDeclaration 'E'.toUInt8) 8194) := by
  have cut : (behindPadding (.blocks blockSize) 8163 twoDeclarations).step =
      .event .skipped behindTorn := by rfl
  have stuck : behindTorn.step = .fault (.unknownDeclaration 'E'.toUInt8) 8194 := by rfl
  rw [torn, read_padded, Scanner.stream_eq, cut]
  dsimp only [assemble]
  rw [Scanner.stream_eq, stuck]
  rfl

/-- A run on the torn file does not end as it would if the file came whole: what
is left of the document type is read as markup. -/
theorem run_torn :
    (run FileSystem.files ["f", "f"]).run (sample torn) =
      (.ofFailure "f" (.reading (.malformed (.unknownDeclaration 'E'.toUInt8) 8194)), sample torn) ∧
    (sample torn).conclude "f" "f" (convertDelivered .whole torn) = (.wrote "f", sample []) := by
  constructor
  · rw [run_of_content rfl rfl, convertDelivered, readDocument, read_torn]
    rfl
  · rw [torn, convertDelivered_twoDeclarations, conclude_sample]

end ConfigDecl.CommandLine

import ConfigDecl.CommandLine.Program
import ConfigDecl.Proofs.CommandLine.Storing
import Mathlib

/-! # All or nothing

A run goes through four stages, each of which can fail for itself: what the
destination is does not depend on whether the document translates.  The first
stage that fails gives the exit code, and then no file has changed.  When none
fails the run gives the usage and changes nothing, or one file has changed and
holds the configuration text. -/

set_option autoImplicit false

namespace ConfigDecl.CommandLine

open Markup (readDocument)

inductive Stage where
  | arguments
  | opening
  | translating
  | writing
  deriving DecidableEq, Repr

namespace Stage

def position : Stage → Nat
  | .arguments => 0
  | .opening => 1
  | .translating => 2
  | .writing => 3

def exitCode : Stage → ExitCode
  | .arguments => .usage
  | .opening => .noInput
  | .translating => .badData
  | .writing => .cannotCreate

theorem position_injective {stage other : Stage} (same : stage.position = other.position) :
    stage = other := by
  cases stage <;> cases other <;> first | rfl | cases same

theorem number_injective {stage other : Stage}
    (same : stage.exitCode.number = other.exitCode.number) : stage = other := by
  cases stage <;> cases other <;> first | rfl | cases same

theorem number_ne_zero (stage : Stage) : stage.exitCode.number ≠ 0 := by
  cases stage <;> decide

end Stage

/-- The stage fails on the file system as it is. -/
inductive Fails (arguments : List String) (system : FileSystem) : Stage → Prop where
  | arguments {error : UsageError}
      (refused : Invocation.ofArguments arguments = .error error) :
      Fails arguments system .arguments
  | opening {source destination : String} {error : SystemError}
      (asked : Invocation.ofArguments arguments = .ok (.convert source destination))
      (absent : system.fetch source = .absent error) : Fails arguments system .opening
  | unreadable {source destination : String} {error : SystemError}
      (asked : Invocation.ofArguments arguments = .ok (.convert source destination))
      (fetched : system.fetch source = .unreadable error) : Fails arguments system .translating
  | malformed {source destination : String} {bytes : Bytes} {error : Markup.ReadError}
      (asked : Invocation.ofArguments arguments = .ok (.convert source destination))
      (fetched : system.fetch source = .content bytes)
      (refused : readDocument (.blocks blockSize) bytes = .error error) :
      Fails arguments system .translating
  | faulty {source destination : String} {bytes : Bytes} {doc : Document}
      {error : Configuration.Error}
      (asked : Invocation.ofArguments arguments = .ok (.convert source destination))
      (fetched : system.fetch source = .content bytes)
      (reads : readDocument (.blocks blockSize) bytes = .ok doc)
      (refused : Configuration.ofDocument doc = .error error) :
      Fails arguments system .translating
  | writing {source destination : String} {error : SystemError}
      (asked : Invocation.ofArguments arguments = .ok (.convert source destination))
      (refused : system.destination destination = .error error) : Fails arguments system .writing

structure FirstFails (arguments : List String) (system : FileSystem) (stage : Stage) : Prop where
  fails : Fails arguments system stage
  first : ∀ earlier : Stage, earlier.position < stage.position → ¬ Fails arguments system earlier

theorem FirstFails.unique {arguments : List String} {system : FileSystem} {stage other : Stage}
    (fails : FirstFails arguments system stage) (otherFails : FirstFails arguments system other) :
    stage = other := by
  apply Stage.position_injective
  rcases Nat.lt_trichotomy stage.position other.position with before | same | after
  · exact absurd fails.fails (otherFails.first stage before)
  · exact same
  · exact absurd otherFails.fails (fails.first other after)

/-- The one file system is the other but for the file at the path, which has the
content. -/
structure Replaces (system after : FileSystem) (path : String) (content : Bytes) : Prop where
  fetched : after.fetch path = .content content
  working : after.working = system.working
  only : ∃ place, system.destination path = .ok place ∧ ∀ names,
    after.root.at? names =
      if names = place then some (.file content) else system.root.at? names

theorem replaces_store {system : FileSystem} {path : String} {place : List String}
    (found : system.destination path = .ok place) (content : Bytes) :
    Replaces system (system.store path content).1 path content :=
  ⟨FileSystem.fetch_store found content, FileSystem.working_store system path content,
    place, found, FileSystem.at?_store found content⟩

/-! ## How a run ends -/

inductive Ends (arguments : List String) (system : FileSystem) : Outcome → FileSystem → Prop where
  | misused {error : UsageError} (refused : Invocation.ofArguments arguments = .error error) :
      Ends arguments system (.ofUsageError error) system
  | helped (asked : Invocation.ofArguments arguments = .ok .usage) :
      Ends arguments system .helped system
  | unconverted {source destination : String} {failure : Failure}
      (asked : Invocation.ofArguments arguments = .ok (.convert source destination))
      (fails : convertFetched source (system.fetch source) = .error failure) :
      Ends arguments system (.ofFailure source failure) system
  | unwritten {source destination text : String} {error : SystemError}
      (asked : Invocation.ofArguments arguments = .ok (.convert source destination))
      (converts : convertFetched source (system.fetch source) = .ok text)
      (refused : system.destination destination = .error error) :
      Ends arguments system (.ofFailure source (.output destination error)) system
  | written {source destination text : String} {place : List String}
      (asked : Invocation.ofArguments arguments = .ok (.convert source destination))
      (converts : convertFetched source (system.fetch source) = .ok text)
      (found : system.destination destination = .ok place) :
      Ends arguments system (.wrote destination)
        (system.store destination (Text.Utf8.encode text)).1

section

variable {system : FileSystem} {source destination : String}

theorem run_fetch (system : FileSystem) (path : String) :
    (FileSystem.files.fetch path).run system = pure (system.fetch path, system) := rfl

theorem run_store (system : FileSystem) (path : String) (content : Bytes) :
    (FileSystem.files.store path content).run system =
      pure ((system.store path content).2, (system.store path content).1) := rfl

theorem convertFile_of_error {failure : Failure}
    (fails : convertFetched source (system.fetch source) = .error failure) :
    (convertFile FileSystem.files source destination).run system = (.error failure, system) := by
  rw [convertFile, StateT.run_bind, run_fetch, pure_bind, fails]
  rfl

theorem convertFile_of_refused {text : String} {error : SystemError}
    (converts : convertFetched source (system.fetch source) = .ok text)
    (refused : system.destination destination = .error error) :
    (convertFile FileSystem.files source destination).run system =
      (.error (.output destination error), system) := by
  simp only [convertFile, StateT.run_bind, run_fetch, pure_bind, converts, run_store,
    FileSystem.store_of_refused refused]
  rfl

theorem convertFile_of_found {text : String} {place : List String}
    (converts : convertFetched source (system.fetch source) = .ok text)
    (found : system.destination destination = .ok place) :
    (convertFile FileSystem.files source destination).run system =
      (.ok (), (system.store destination (Text.Utf8.encode text)).1) := by
  simp only [convertFile, StateT.run_bind, run_fetch, pure_bind, converts, run_store,
    FileSystem.snd_store found]
  rfl

end

theorem ends_run (arguments : List String) (system : FileSystem) :
    Ends arguments system ((run FileSystem.files arguments).run system).1
      ((run FileSystem.files arguments).run system).2 := by
  rw [run]
  cases asked : Invocation.ofArguments arguments with
  | error error => exact .misused asked
  | ok invocation =>
      cases invocation with
      | usage => exact .helped asked
      | convert source destination =>
          cases converted : convertFetched source (system.fetch source) with
          | error failure =>
              simp only [StateT.run_bind, convertFile_of_error converted]
              exact .unconverted asked converted
          | ok text =>
              cases found : system.destination destination with
              | error error =>
                  simp only [StateT.run_bind, convertFile_of_refused converted found]
                  exact .unwritten asked converted found
              | ok place =>
                  simp only [StateT.run_bind, convertFile_of_found converted found]
                  exact .written asked converted found

/-! ## What failed -/

theorem convertFetched_eq_ok_iff {path text : String} {fetched : Fetched} :
    convertFetched path fetched = .ok text ↔ ∃ bytes doc, fetched = .content bytes ∧
      readDocument (.blocks blockSize) bytes = .ok doc ∧ Configuration.ofDocument doc = .ok text := by
  constructor
  · intro converts
    cases fetched with
    | absent error => cases converts
    | unreadable error => cases converts
    | content bytes =>
        rw [convertFetched, convert] at converts
        cases reads : readDocument (.blocks blockSize) bytes with
        | error error =>
            rw [reads] at converts
            cases converts
        | ok doc =>
            cases has : Configuration.ofDocument doc with
            | error error =>
                simp only [reads, has] at converts
                cases converts
            | ok out =>
                simp only [reads, has] at converts
                cases converts
                exact ⟨bytes, doc, rfl, reads, has⟩
  · intro parts
    obtain ⟨bytes, doc, rfl, reads, has⟩ := parts
    simp only [convertFetched, convert, reads, has]

section

variable {arguments : List String} {system : FileSystem} {source destination : String}

theorem operands_unique {source' destination' : String}
    (asked : Invocation.ofArguments arguments = .ok (.convert source destination))
    (asked' : Invocation.ofArguments arguments = .ok (.convert source' destination')) :
    source = source' ∧ destination = destination' := by
  rw [asked] at asked'
  cases asked'
  exact ⟨rfl, rfl⟩

theorem not_fails_arguments {invocation : Invocation}
    (asked : Invocation.ofArguments arguments = .ok invocation) :
    ¬ Fails arguments system .arguments := by
  intro fails
  cases fails with
  | arguments refused =>
      rw [asked] at refused
      cases refused

theorem not_fails_opening
    (asked : Invocation.ofArguments arguments = .ok (.convert source destination))
    (there : ∀ error, system.fetch source ≠ .absent error) :
    ¬ Fails arguments system .opening := by
  intro fails
  cases fails with
  | opening asked' absent =>
      obtain ⟨rfl, rfl⟩ := operands_unique asked asked'
      exact there _ absent

theorem not_fails_translating {text : String}
    (asked : Invocation.ofArguments arguments = .ok (.convert source destination))
    (converts : convertFetched source (system.fetch source) = .ok text) :
    ¬ Fails arguments system .translating := by
  obtain ⟨bytes, doc, fetched, reads, has⟩ := convertFetched_eq_ok_iff.1 converts
  intro fails
  cases fails with
  | unreadable asked' fetched' =>
      obtain ⟨rfl, rfl⟩ := operands_unique asked asked'
      rw [fetched] at fetched'
      cases fetched'
  | malformed asked' fetched' refused =>
      obtain ⟨rfl, rfl⟩ := operands_unique asked asked'
      rw [fetched] at fetched'
      cases fetched'
      rw [reads] at refused
      cases refused
  | faulty asked' fetched' reads' refused =>
      obtain ⟨rfl, rfl⟩ := operands_unique asked asked'
      rw [fetched] at fetched'
      cases fetched'
      rw [reads] at reads'
      cases reads'
      rw [has] at refused
      cases refused

/-- With a text nothing before the writing fails. -/
theorem not_fails_of_converts {text : String}
    (asked : Invocation.ofArguments arguments = .ok (.convert source destination))
    (converts : convertFetched source (system.fetch source) = .ok text) {stage : Stage}
    (notWriting : stage ≠ .writing) : ¬ Fails arguments system stage := by
  cases stage with
  | arguments => exact not_fails_arguments asked
  | opening =>
      obtain ⟨bytes, doc, fetched, reads, has⟩ := convertFetched_eq_ok_iff.1 converts
      apply not_fails_opening asked
      intro error absent
      rw [fetched] at absent
      cases absent
  | translating => exact not_fails_translating asked converts
  | writing => exact absurd rfl notWriting

theorem not_fails_writing {place : List String}
    (asked : Invocation.ofArguments arguments = .ok (.convert source destination))
    (found : system.destination destination = .ok place) :
    ¬ Fails arguments system .writing := by
  intro fails
  cases fails with
  | writing asked' refused =>
      obtain ⟨rfl, rfl⟩ := operands_unique asked asked'
      rw [found] at refused
      cases refused

theorem not_fails_of_helped (asked : Invocation.ofArguments arguments = .ok .usage)
    {stage : Stage} : ¬ Fails arguments system stage := by
  intro fails
  cases fails with
  | arguments refused => exact absurd (asked.symm.trans refused) (by simp)
  | opening asked' | unreadable asked' | malformed asked' | faulty asked' | writing asked' =>
      exact absurd (asked.symm.trans asked') (by simp)

theorem firstFails_opening {error : SystemError}
    (asked : Invocation.ofArguments arguments = .ok (.convert source destination))
    (absent : system.fetch source = .absent error) : FirstFails arguments system .opening := by
  refine ⟨.opening asked absent, ?_⟩
  intro earlier before
  cases earlier with
  | arguments => exact not_fails_arguments asked
  | opening | translating | writing => simp [Stage.position] at before

theorem firstFails_translating (fails : Fails arguments system .translating)
    (asked : Invocation.ofArguments arguments = .ok (.convert source destination))
    (there : ∀ error, system.fetch source ≠ .absent error) :
    FirstFails arguments system .translating := by
  refine ⟨fails, ?_⟩
  intro earlier before
  cases earlier with
  | arguments => exact not_fails_arguments asked
  | opening => exact not_fails_opening asked there
  | translating | writing => simp [Stage.position] at before

/-- Without a text it is the opening or the translating that fails first. -/
theorem exists_firstFails_of_unconverted {failure : Failure}
    (asked : Invocation.ofArguments arguments = .ok (.convert source destination))
    (fails : convertFetched source (system.fetch source) = .error failure) :
    ∃ stage, FirstFails arguments system stage ∧ failure.exitCode = stage.exitCode := by
  cases fetched : system.fetch source with
  | absent error =>
      rw [fetched] at fails
      cases fails
      exact ⟨.opening, firstFails_opening asked fetched, rfl⟩
  | unreadable error =>
      rw [fetched] at fails
      cases fails
      refine ⟨.translating, firstFails_translating (.unreadable asked fetched) asked ?_, rfl⟩
      simp [fetched]
  | content bytes =>
      have there : ∀ error, system.fetch source ≠ .absent error := by simp [fetched]
      rw [fetched, convertFetched, convert] at fails
      cases reads : readDocument (.blocks blockSize) bytes with
      | error error =>
          rw [reads] at fails
          cases fails
          exact ⟨.translating,
            firstFails_translating (.malformed asked fetched reads) asked there, rfl⟩
      | ok doc =>
          cases has : Configuration.ofDocument doc with
          | error error =>
              simp only [reads, has] at fails
              cases fails
              exact ⟨.translating,
                firstFails_translating (.faulty asked fetched reads has) asked there, rfl⟩
          | ok text =>
              simp only [reads, has] at fails
              cases fails

end

/-! ## Every run -/

/-- The run has stored the configuration text of its document, and nothing
else. -/
def Converted (arguments : List String) (system after : FileSystem) : Prop :=
  ∃ source destination bytes doc text,
    Invocation.ofArguments arguments = .ok (.convert source destination) ∧
    system.fetch source = .content bytes ∧
    readDocument (.blocks blockSize) bytes = .ok doc ∧
    Configuration.ofDocument doc = .ok text ∧
    Replaces system after destination (Text.Utf8.encode text)

theorem head?_usage : (usage ++ "\n").toList.head? = some 'U' := rfl

theorem head?_wrote (destination : String) :
    (Outcome.wrote destination).stdout.toList.head? = some 't' := by
  show ("translation complete: wrote `" ++ destination ++ "`\n").toList.head? = some 't'
  rw [String.toList_append, String.toList_append, List.append_assoc]
  rfl

theorem wrote_ne_usage (destination : String) :
    (Outcome.wrote destination).stdout ≠ usage ++ "\n" := by
  intro same
  have first := head?_wrote destination
  rw [same, head?_usage] at first
  cases first

/-- A run fails with its first stage that does and has changed nothing, or no
stage fails. -/
theorem firstFails_or_succeeds {arguments : List String} {system after : FileSystem}
    {outcome : Outcome} (ends : Ends arguments system outcome after) :
    (∃ stage, FirstFails arguments system stage ∧ outcome.exitCode = stage.exitCode ∧
      after = system) ∨
    ((∀ stage, ¬ Fails arguments system stage) ∧ outcome.exitCode = .success ∧
      (outcome.stdout = usage ++ "\n" ∧ after = system ∨
        outcome.stdout ≠ usage ++ "\n" ∧ Converted arguments system after)) := by
  cases ends with
  | misused refused =>
      refine .inl ⟨.arguments, ⟨.arguments refused, ?_⟩, rfl, rfl⟩
      intro earlier before
      exact absurd before (Nat.not_lt_zero _)
  | helped asked =>
      refine .inr ⟨?_, rfl, .inl ⟨rfl, rfl⟩⟩
      intro stage
      exact not_fails_of_helped asked
  | unconverted asked fails =>
      obtain ⟨stage, first, code⟩ := exists_firstFails_of_unconverted asked fails
      exact .inl ⟨stage, first, code, rfl⟩
  | unwritten asked converts refused =>
      refine .inl ⟨.writing, ⟨.writing asked refused, ?_⟩, rfl, rfl⟩
      intro earlier before
      apply not_fails_of_converts asked converts
      intro same
      rw [same] at before
      exact absurd before (Nat.lt_irrefl _)
  | written asked converts found =>
      refine .inr ⟨?_, rfl, .inr ⟨wrote_ne_usage _, ?_⟩⟩
      · intro stage fails
        by_cases writing : stage = .writing
        · subst writing
          exact not_fails_writing asked found fails
        · exact not_fails_of_converts asked converts writing fails
      · obtain ⟨bytes, doc, fetched, reads, has⟩ := convertFetched_eq_ok_iff.1 converts
        exact ⟨_, _, bytes, doc, _, asked, fetched, reads, has, replaces_store found _⟩

/-- A run that fails or gives the usage changes nothing, and any other stores
the configuration text and changes nothing else; the code is that of the first
stage that fails. -/
theorem run_all_or_nothing (arguments : List String) (system after : FileSystem)
    (outcome : Outcome) (ran : (run FileSystem.files arguments).run system = (outcome, after)) :
    (outcome.exitCode.number ≠ 0 ∨ outcome.stdout = usage ++ "\n" → after = system) ∧
    (outcome.exitCode.number = 0 → outcome.stdout ≠ usage ++ "\n" →
      Converted arguments system after) ∧
    (∀ stage : Stage,
      outcome.exitCode.number = stage.exitCode.number ↔ FirstFails arguments system stage) ∧
    (outcome.exitCode.number = 0 ↔ ∀ stage, ¬ Fails arguments system stage) := by
  have ends := ends_run arguments system
  rw [ran] at ends
  rcases firstFails_or_succeeds ends with failed | succeeded
  · obtain ⟨stage, first, code, rfl⟩ := failed
    rw [code]
    refine ⟨fun _ => rfl, ?_, ?_, ?_⟩
    · intro zero
      exact absurd zero stage.number_ne_zero
    · intro other
      constructor
      · intro same
        rw [← Stage.number_injective same]
        exact first
      · intro otherFirst
        rw [first.unique otherFirst]
    · constructor
      · intro zero
        exact absurd zero stage.number_ne_zero
      · intro none
        exact absurd first.fails (none stage)
  · obtain ⟨none, code, which⟩ := succeeded
    rw [code]
    refine ⟨?_, ?_, ?_, ?_⟩
    · intro failsOrUsage
      rcases which with helped | converted
      · exact helped.2
      · rcases failsOrUsage with fails | isUsage
        · exact absurd rfl fails
        · exact absurd isUsage converted.1
    · intro _ notUsage
      rcases which with helped | converted
      · exact absurd helped.1 notUsage
      · exact converted.2
    · intro stage
      constructor
      · intro same
        exact absurd same.symm stage.number_ne_zero
      · intro first
        exact absurd first.fails (none stage)
    · exact ⟨fun _ => none, fun _ => rfl⟩

/-- A file and an empty folder. -/
def sample (content : Bytes) : FileSystem where
  root := .folder ⟨[("f", .file content), ("d", .folder ∅)]⟩
  working := []

def declaring : Bytes :=
  Markup.Byte.ofAscii
    "<config><constant name='a'><value type='number'>1</value></constant></config>"

def nameless : Bytes := Markup.Byte.ofAscii "<config><constant/></config>"

/-- A document is converted in place; one that has no configuration is bad data
also where nothing could be written. -/
theorem run_sample :
    Converted ["f", "f"] (sample declaring) (sample (Markup.Byte.ofAscii "a is 1;")) ∧
      FirstFails ["f", "d"] (sample nameless) .translating ∧
      Fails ["f", "d"] (sample nameless) .writing := by
  have inPlace : (run FileSystem.files ["f", "f"]).run (sample declaring) =
      (.wrote "f", sample (Markup.Byte.ofAscii "a is 1;")) := by cbv
  have asked : Invocation.ofArguments ["f", "d"] = .ok (.convert "f" "d") := rfl
  have fails : convertFetched "f" ((sample nameless).fetch "f") =
      .error (.configuration (.missing (.constantName 0))) := by cbv
  have refused : (run FileSystem.files ["f", "d"]).run (sample nameless) =
      (.ofFailure "f" (.configuration (.missing (.constantName 0))), sample nameless) := by
    rw [run, asked]
    simp only [StateT.run_bind, convertFile_of_error fails]
    rfl
  refine ⟨?_, ?_, ?_⟩
  · apply (run_all_or_nothing _ _ _ _ inPlace).2.1
    · rfl
    · exact wrote_ne_usage "f"
  · apply ((run_all_or_nothing _ _ _ _ refused).2.2.1 .translating).1
    rfl
  · have folder : (sample nameless).destination "d" = .error .isADirectory := rfl
    exact .writing asked folder

end ConfigDecl.CommandLine

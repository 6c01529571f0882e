import ConfigDecl.CommandLine.Arguments
import ConfigDecl.CommandLine.Files
import ConfigDecl.Configuration.Run
import ConfigDecl.Markup.Lowering

/-! # The program

The program reads the document that a source declares and stores its
configuration text at the destination, which is touched only once there is
something to store.  It says on standard output what it did, or on standard
error what went wrong, and ends with the code of the stage that failed. -/

set_option autoImplicit false

namespace ConfigDecl.CommandLine

open Markup (ReadError)

inductive ExitCode where
  | success
  | usage
  | badData
  | noInput
  | cannotCreate
  deriving DecidableEq, Repr

def ExitCode.number : ExitCode → Nat
  | .success => 0
  | .usage => 64
  | .badData => 65
  | .noInput => 66
  | .cannotCreate => 73

inductive Failure where
  | input (path : String) (error : SystemError)
  | reading (error : ReadError)
  | configuration (error : Configuration.Error)
  | output (path : String) (error : SystemError)
  deriving Repr

namespace Failure

def exitCode : Failure → ExitCode
  | .input _ _ => .noInput
  | .reading _ => .badData
  | .configuration _ => .badData
  | .output _ _ => .cannotCreate

def message : Failure → String
  | .input path error => s!"{path}: {error.message}"
  | .reading error => error.message
  | .configuration error => error.message
  | .output path error => s!"{path}: {error.message}"

def remarks : Failure → List Remark
  | .input _ _ => []
  | .reading error => error.remarks
  | .configuration error => error.remarks
  | .output _ _ => [.note "no output was written"]

def causes : Failure → List String
  | .input _ error => [error.message]
  | .reading error => error.message :: error.causes
  | .configuration error => error.message :: error.causes
  | .output _ error => [error.message]

instance : Reportable Failure := ⟨message, remarks, causes⟩

end Failure

/-- Files come in blocks of so many bytes. -/
def blockSize : Nat := 8192

def convert (source : Bytes) : Except Failure String :=
  match Markup.readDocument (.blocks blockSize) source with
  | .error error => .error (.reading error)
  | .ok doc =>
      match Configuration.ofDocument doc with
      | .error error => .error (.configuration error)
      | .ok text => .ok text

def convertFetched (path : String) : Fetched → Except Failure String
  | .absent error => .error (.input path error)
  | .unreadable error => .error (.reading (.malformed (.unreadable error.message) 0))
  | .content bytes => convert bytes

structure Outcome where
  exitCode : ExitCode
  stdout : String
  stderr : String
  deriving DecidableEq, Repr

def usage : String :=
  "Usage: cfgtrans [OPTIONS] INPUT OUTPUT\n\n" ++
    "Options:\n    -h, --help          print this help menu\n"

namespace Outcome

def ofUsageError (error : UsageError) : Outcome :=
  ⟨.usage, usage ++ "\n", error.message ++ "\n"⟩

def helped : Outcome := ⟨.success, usage ++ "\n", ""⟩

def wrote (destination : String) : Outcome :=
  ⟨.success, s!"translation complete: wrote `{destination}`\n", ""⟩

def ofFailure (source : String) (failure : Failure) : Outcome :=
  ⟨failure.exitCode, "", s!"{report failure}\nfatal: failed to translate `{source}`\n"⟩

end Outcome

section

variable {m : Type → Type} [Monad m]

def convertFile (files : Files m) (source destination : String) : m (Except Failure Unit) := do
  let fetched ← files.fetch source
  match convertFetched source fetched with
  | .error failure => return .error failure
  | .ok text =>
      match ← files.store destination (Text.Utf8.encode text) with
      | some error => return .error (.output destination error)
      | none => return .ok ()

def run (files : Files m) (arguments : List String) : m Outcome :=
  match Invocation.ofArguments arguments with
  | .error error => return Outcome.ofUsageError error
  | .ok .usage => return Outcome.helped
  | .ok (.convert source destination) => do
      match ← convertFile files source destination with
      | .error failure => return Outcome.ofFailure source failure
      | .ok () => return Outcome.wrote destination

end

end ConfigDecl.CommandLine

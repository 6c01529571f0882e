import ConfigDecl.CommandLine.Program

/-! # The command

The program on the files of the operating system. -/

set_option autoImplicit false

namespace ConfigDecl.CommandLine

namespace SystemError

def ofError : IO.Error → SystemError
  | .alreadyExists _ number text => ⟨text, number.toNat⟩
  | .otherError number text => ⟨text, number.toNat⟩
  | .resourceBusy number text => ⟨text, number.toNat⟩
  | .resourceVanished number text => ⟨text, number.toNat⟩
  | .unsupportedOperation number text => ⟨text, number.toNat⟩
  | .hardwareFault number text => ⟨text, number.toNat⟩
  | .unsatisfiedConstraints number text => ⟨text, number.toNat⟩
  | .illegalOperation number text => ⟨text, number.toNat⟩
  | .protocolError number text => ⟨text, number.toNat⟩
  | .timeExpired number text => ⟨text, number.toNat⟩
  | .interrupted _ number text => ⟨text, number.toNat⟩
  | .noFileOrDirectory _ number text => ⟨text, number.toNat⟩
  | .invalidArgument _ number text => ⟨text, number.toNat⟩
  | .permissionDenied _ number text => ⟨text, number.toNat⟩
  | .resourceExhausted _ number text => ⟨text, number.toNat⟩
  | .inappropriateType _ number text => ⟨text, number.toNat⟩
  | .noSuchThing _ number text => ⟨text, number.toNat⟩
  | .unexpectedEof => ⟨"unexpected end of file", 0⟩
  | .userError text => ⟨text, 0⟩

end SystemError

def fetchFile (path : String) : IO Fetched := do
  match ← (IO.FS.Handle.mk path .read).toBaseIO with
  | .error error => return .absent (.ofError error)
  | .ok handle =>
      match ← handle.readBinToEnd.toBaseIO with
      | .error error => return .unreadable (.ofError error)
      | .ok content => return .content content.toList

def storeFile (path : String) (content : Bytes) : IO (Option SystemError) := do
  match ← (IO.FS.writeBinFile path ⟨content.toArray⟩).toBaseIO with
  | .error error => return some (.ofError error)
  | .ok () => return none

def systemFiles : Files IO := ⟨fetchFile, storeFile⟩

end ConfigDecl.CommandLine

open ConfigDecl.CommandLine in
def main (arguments : List String) : IO UInt32 := do
  let outcome ← run systemFiles arguments
  (← IO.getStdout).putStr outcome.stdout
  (← IO.getStderr).putStr outcome.stderr
  return UInt32.ofNat outcome.exitCode.number

import ConfigDecl.Text.Utf8

/-! # Files

What the program needs of files: to fetch the bytes of one and to store bytes in
another, by path.  A file that can be opened may still turn out unreadable. -/

set_option autoImplicit false

namespace ConfigDecl.CommandLine

structure SystemError where
  text : String
  number : Nat
  deriving DecidableEq, Repr

namespace SystemError

def message (error : SystemError) : String := s!"{error.text} (os error {error.number})"

def noSuchFile : SystemError := ⟨"No such file or directory", 2⟩

def notADirectory : SystemError := ⟨"Not a directory", 20⟩

def isADirectory : SystemError := ⟨"Is a directory", 21⟩

end SystemError

inductive Fetched where
  | absent (error : SystemError)
  /-- The file was opened, and reading failed at its first byte. -/
  | unreadable (error : SystemError)
  | content (bytes : Bytes)
  deriving DecidableEq, Repr

/-- Access to files by path.  Storing gives the error if there is one, and then
leaves everything as it was. -/
structure Files (m : Type → Type) where
  fetch : String → m Fetched
  store : String → Bytes → m (Option SystemError)

end ConfigDecl.CommandLine

/-! # Reports of errors

What went wrong is one message, and beneath it come remarks: notes on the
circumstances and help on what to do about it.  A report is plain text, the
message on its first line and each remark on an indented line of its own. -/

set_option autoImplicit false

namespace ConfigDecl

/-- How severe a line of a report is; a lower rank is more severe. -/
inductive Level where
  | error
  | note
  | help
  deriving DecidableEq, Repr

def Level.rank : Level → Nat
  | .error => 1
  | .note => 2
  | .help => 3

instance : Ord Level := ⟨fun a b => compare a.rank b.rank⟩

def Level.label : Level → String
  | .error => "error"
  | .note => "note"
  | .help => "help"

structure Remark where
  level : Level
  text : String
  deriving DecidableEq, Repr

namespace Remark

def note (text : String) : Remark := ⟨.note, text⟩

def help (text : String) : Remark := ⟨.help, text⟩

def line (remark : Remark) : String := s!"{remark.level.label}: {remark.text}"

end Remark

/-- What can be reported: a message, the remarks on it, and the messages of the
causes behind it, nearest first. -/
class Reportable (ε : Type) where
  message : ε → String
  remarks : ε → List Remark
  causes : ε → List String

def reportText (message : String) (remarks : List Remark) : String :=
  remarks.foldl (fun text remark => s!"{text}\n  {remark.line}")
    s!"{Level.error.label}: {message}"

def report {ε : Type} [Reportable ε] (error : ε) : String :=
  reportText (Reportable.message error) (Reportable.remarks error)

end ConfigDecl

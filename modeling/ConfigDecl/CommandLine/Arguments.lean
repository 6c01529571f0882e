/-! # Arguments

What the arguments of a command ask for.  An argument that begins with `-` and
goes on is an option; after `--` there are no more options.  `--name` is a long
option, up to an `=` after which an argument of the option would stand; in any
other option each character is a short one.  The only option is `h` or `help`,
without argument, and it may stand anywhere.  The first fault counts. -/

set_option autoImplicit false

namespace ConfigDecl.CommandLine

inductive UsageError where
  | unrecognized (option : String)
  | unexpectedArgument (option : String)
  | repeated (option : String)
  | missing (operand : String)
  deriving DecidableEq, Repr

def UsageError.message : UsageError → String
  | .unrecognized option => s!"Unrecognized option: '{option}'"
  | .unexpectedArgument option => s!"Option '{option}' does not take an argument"
  | .repeated option => s!"Option '{option}' given more than once"
  | .missing operand => s!"Required option '{operand}' missing"

inductive Invocation where
  | convert (source destination : String)
  | usage
  deriving DecidableEq, Repr

/-- How often help was asked for, and the arguments that are no options. -/
structure Scanned where
  helps : Nat
  operands : List String
  deriving DecidableEq, Repr

def helpName : String := "help"

def helpLetter : Char := 'h'

def isLongHelp (name : String) : Bool := name == helpName || name == String.singleton helpLetter

/-- The requests for help in a long option; `text` follows the dashes. -/
def scanLong (text : List Char) : Except UsageError Nat :=
  let name := String.ofList (text.takeWhile fun c => c != '=')
  if isLongHelp name then
    if text.contains '=' then .error (.unexpectedArgument name) else .ok 1
  else .error (.unrecognized name)

def scanShort : List Char → Except UsageError Nat
  | [] => .ok 0
  | c :: rest =>
      if c = helpLetter then (· + 1) <$> scanShort rest
      else .error (.unrecognized (String.singleton c))

/-- The requests for help in an argument, if it is an option. -/
def scanOption? (argument : String) : Option (Except UsageError Nat) :=
  match argument.toList with
  | '-' :: '-' :: text => some (scanLong text)
  | '-' :: c :: rest => some (scanShort (c :: rest))
  | _ => none

def scan : List String → Except UsageError Scanned
  | [] => .ok ⟨0, []⟩
  | argument :: rest =>
      if argument = "--" then .ok ⟨0, rest⟩
      else
        match scanOption? argument with
        | none => do
            let scanned ← scan rest
            return { scanned with operands := argument :: scanned.operands }
        | some option => do
            let helps ← option
            let scanned ← scan rest
            return { scanned with helps := helps + scanned.helps }

def Scanned.invocation (scanned : Scanned) : Except UsageError Invocation :=
  match scanned.helps with
  | 0 =>
      match scanned.operands with
      | [] => .error (.missing "INPUT")
      | [_] => .error (.missing "OUTPUT")
      | [source, destination] => .ok (.convert source destination)
      | _ :: _ :: extra :: _ => .error (.unrecognized extra)
  | 1 => .ok .usage
  | _ => .error (.repeated helpName)

def Invocation.ofArguments (arguments : List String) : Except UsageError Invocation := do
  let scanned ← scan arguments
  scanned.invocation

end ConfigDecl.CommandLine

import ConfigDecl.Ident
import ConfigDecl.Integer
import ConfigDecl.Output.Delimiters
import ConfigDecl.Report
import ConfigDecl.Value

/-! # Literals

The written form of a value.  An integer is its decimal digits and a text stands
verbatim between its delimiters.  A dictionary has one line per entry between
its braces; each key must be an identifier, at every depth, and is examined
right before its entry is written. -/

set_option autoImplicit false

namespace ConfigDecl

inductive RenderError where
  | invalidKey (key : String)
  deriving DecidableEq, Repr

namespace RenderError

def message : RenderError → String
  | .invalidKey key => s!"invalid key `{key}`"

def remarks : RenderError → List Remark
  | .invalidKey _ =>
      [.help "keys must begin with a letter and contain only letters and digits"]

instance : Reportable RenderError := ⟨message, remarks, fun _ => []⟩

end RenderError

/-- What a buffer holds once writing onto it has ended, and why it ended early if
it did: the text written up to the failure stays. -/
structure Rendering where
  buffer : String
  failure : Option RenderError
  deriving DecidableEq, Repr

namespace Rendering

def toExcept (rendering : Rendering) : Except RenderError String :=
  match rendering.failure with
  | none => .ok rendering.buffer
  | some failure => .error failure

end Rendering

namespace Value

open Output

mutual

def renderOnto (buffer : String) : Value → Rendering
  | .integer n => ⟨buffer ++ Integer.decimal n, none⟩
  | .text content => ⟨buffer ++ textOpen ++ content ++ textClose, none⟩
  | .dictionary ⟨entries⟩ =>
      match renderEntriesOnto (buffer ++ dictionaryOpen ++ "\n") entries with
      | ⟨buffer, none⟩ => ⟨buffer ++ dictionaryClose, none⟩
      | ⟨buffer, some failure⟩ => ⟨buffer, some failure⟩

def renderEntriesOnto (buffer : String) : List (String × Value) → Rendering
  | [] => ⟨buffer, none⟩
  | (key, value) :: rest =>
      if isIdent key then
        match renderOnto (buffer ++ key ++ dictionaryArrow) value with
        | ⟨buffer, none⟩ => renderEntriesOnto (buffer ++ entryEnd ++ "\n") rest
        | ⟨buffer, some failure⟩ => ⟨buffer, some failure⟩
      else ⟨buffer, some (.invalidKey key)⟩

end

def render (value : Value) : Except RenderError String :=
  (value.renderOnto "").toExcept

/-- Write the values one after another onto the same buffer, whatever becomes of
each: the renderings in order. -/
def renderAllOnto (buffer : String) : List Value → List Rendering
  | [] => []
  | value :: rest =>
      let rendering := value.renderOnto buffer
      rendering :: renderAllOnto rendering.buffer rest

end Value

end ConfigDecl

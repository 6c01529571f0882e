import ConfigDecl.Markup.Attribute
import ConfigDecl.Markup.Element
import ConfigDecl.Markup.ReadError

/-! # Elements from events

The events of a source are put together to its root element.  The elements that
are open wait in a pile, the innermost on top; one that is closed goes to the
end of the children of the element below it, and the one with none below is the
root.  What follows the root is not looked at, and neither is text outside it. -/

set_option autoImplicit false

namespace ConfigDecl.Markup

structure OpenElement where
  name : String
  attributes : List (String × String)
  text : Option String
  /-- The children so far, the latest first. -/
  latestFirst : List Element
  deriving DecidableEq, Repr

namespace OpenElement

def ofTag (tag : Tag) : Except Fault OpenElement := do
  let (name, attributes) ← tag.decode
  return ⟨name, attributes, none, []⟩

def closed (element : OpenElement) : Element :=
  ⟨element.name, element.attributes, element.text, element.latestFirst.reverse⟩

def addText (element : OpenElement) (text : String) : OpenElement :=
  -- Text counts only before the first child.
  if element.latestFirst.isEmpty then
    { element with text := some (element.text.getD "" ++ text) }
  else element

def addChild (element : OpenElement) (child : Element) : OpenElement :=
  { element with latestFirst := child :: element.latestFirst }

end OpenElement

def foundAt {α : Type} (offset : Nat) : Except Fault α → Except ReadError α
  | .ok a => .ok a
  | .error fault => .error (.malformed fault offset)

/-- The root element, the elements of the pile being open.  The `<` that ends a
text has been consumed but is not counted for a fault in it. -/
def assemble (pile : List OpenElement) : Stream → Except ReadError Element
  | .done offset =>
      match pile with
      | [] => .error .missingRoot
      | innermost :: _ => .error (.malformed (.unfinished (.element innermost.name)) offset)
  | .faulty fault offset => .error (.malformed fault offset)
  | .next event offset rest =>
      match event, pile with
      | .start tag, pile => do
          let element ← foundAt offset (OpenElement.ofTag tag)
          assemble (element :: pile) rest
      | .empty tag, [] => do
          let element ← foundAt offset (OpenElement.ofTag tag)
          return element.closed
      | .empty tag, parent :: outer => do
          let element ← foundAt offset (OpenElement.ofTag tag)
          assemble (parent.addChild element.closed :: outer) rest
      | .close, [] => assemble [] rest
      | .close, [root] => .ok root.closed
      | .close, element :: parent :: outer =>
          assemble (parent.addChild element.closed :: outer) rest
      | .text _, [] => assemble [] rest
      | .text raw, element :: outer => do
          let text ← foundAt (offset - 1) (decodeText raw)
          assemble (element.addText text :: outer) rest
      | .cdata _, [] => assemble [] rest
      | .cdata raw, element :: outer => do
          let text ← foundAt offset (decodeBytes raw)
          assemble (element.addText text :: outer) rest
      | .skipped, pile => assemble pile rest

namespace Element

def read (delivery : Delivery) (source : Bytes) : Except ReadError Element :=
  assemble [] (Stream.ofSource delivery source)

end Element

end ConfigDecl.Markup

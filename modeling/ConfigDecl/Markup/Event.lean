import ConfigDecl.Markup.Fault

/-! # Events

What a source consists of when it is read from left to right: tags, texts, and
what is passed over, which is comments, processing instructions, declarations and
document types.  Bytes are kept as they are; nothing is decoded yet.  A stream is
the events of a source in order, each with the number of bytes consumed once it is
read, and ends where the source ends or where a fault was found. -/

set_option autoImplicit false

namespace ConfigDecl.Markup

/-- What stands between the `<` of a tag and its end: the name, and what follows
the name. -/
structure Tag where
  name : Bytes
  attributes : Bytes
  deriving DecidableEq, Repr

inductive Event where
  | start (tag : Tag)
  | empty (tag : Tag)
  | close
  | text (raw : Bytes)
  | cdata (raw : Bytes)
  | skipped
  deriving DecidableEq, Repr

inductive Stream where
  | next (event : Event) (offset : Nat) (rest : Stream)
  | done (offset : Nat)
  | faulty (fault : Fault) (offset : Nat)
  deriving DecidableEq, Repr

namespace Stream

def events : Stream → List Event
  | .next event _ rest => event :: rest.events
  | .done _ => []
  | .faulty _ _ => []

end Stream

end ConfigDecl.Markup

import ConfigDecl.Value
import Std.Data.TreeMap

/-! # Tables of constants

A table holds the constants defined so far, each name once, in the order in
which the names were first defined, with an index from names to positions.
Defining a name again overwrites its value in place.  Names are not examined. -/

set_option autoImplicit false

namespace ConfigDecl

structure Constants where
  defs : Array (String × Value) := #[]
  index : Std.TreeMap String Nat := ∅

namespace Constants

def empty : Constants := {}

instance : EmptyCollection Constants := ⟨empty⟩

instance : Inhabited Constants := ⟨empty⟩

/-- Two tables are equal when they hold equal definitions in the same order under
the same index. -/
instance : BEq Constants := ⟨fun a b => a.defs == b.defs && a.index == b.index⟩

def lookup (table : Constants) (name : String) : Option Value := do
  let position ← table.index[name]?
  let entry ← table.defs[position]?
  return entry.2

/-- The table after the definition, and the value that the name had before. -/
def define (table : Constants) (name : String) (value : Value) :
    Constants × Option Value :=
  match table.index[name]? with
  | some position =>
      ({ table with defs := table.defs.modify position fun entry => (entry.1, value) },
        table.defs[position]?.map Prod.snd)
  | none =>
      ({ defs := table.defs.push (name, value)
         index := table.index.insert name table.defs.size },
        none)

def integer? (table : Constants) (name : String) : Option Int64 :=
  (table.lookup name).bind Value.integer?

end Constants

end ConfigDecl

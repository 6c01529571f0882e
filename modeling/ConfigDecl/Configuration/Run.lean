import ConfigDecl.Configuration.Resolve

/-! # The configuration of a document

Declarations are put out in order, the constants before the dictionaries.
Each is resolved with the constants defined before it, its name is examined, its
value is written as a literal, and its line is put out; a constant is then
visible to all that follow.  The first error ends the run without any output.
The progress of a run is kept beside its result. -/

set_option autoImplicit false

namespace ConfigDecl.Configuration

/-- A declaration with its position among those of its kind. -/
inductive Declaration where
  | constant (position : Nat) (decl : Binding Node)
  | dictionary (position : Nat) (decl : DictionaryDecl)
  deriving DecidableEq, Repr

/-- The constants in order, then the dictionaries in order. -/
def declarations (doc : Document) : List Declaration :=
  (doc.constants.mapIdx fun position decl => .constant position decl) ++
    doc.dictionaries.mapIdx fun position decl => .dictionary position decl

structure Resolved where
  kind : NameKind
  name : String
  value : Value
  deriving DecidableEq, Repr

def checkName (kind : NameKind) (name : String) (value : Value) : Except Error Resolved :=
  if isIdent name then .ok ⟨kind, name, value⟩ else .error (.invalidName kind name)

namespace Declaration

def resolve (table : Constants) : Declaration → Except Error Resolved
  | .constant position ⟨none, _⟩ => .error (.missing (.constantName position))
  | .constant _ ⟨some name, none⟩ => .error (.missing (.constantValue name))
  | .constant _ ⟨some name, some node⟩ => do
      let value ← Configuration.resolve table name node
      checkName .constant name value
  | .dictionary position ⟨none, _⟩ => .error (.missing (.dictionaryName position))
  | .dictionary _ ⟨some name, entries⟩ => do
      let dict ← resolveEntries table name ∅ entries
      checkName .dictionary name (.dictionary dict)

end Declaration

namespace Resolved

def line (resolved : Resolved) (literal : String) : String :=
  match resolved.kind with
  | .constant => resolved.name ++ Output.constantAssign ++ literal ++ Output.constantEnd
  | .dictionary => resolved.name ++ Output.dictionaryArrow ++ literal

def define (table : Constants) (resolved : Resolved) : Constants :=
  match resolved.kind with
  | .constant => (table.define resolved.name resolved.value).1
  | .dictionary => table

end Resolved

inductive Progress where
  | resolved (declared : Resolved)
  | emitted (line : String)
  | aborted (error : Error)
  deriving DecidableEq, Repr

structure Run where
  lines : Except Error (List String)
  log : List Progress

/-- Put out the declarations with the constants of `table` visible. -/
def runFrom (table : Constants) : List Declaration → Run
  | [] => ⟨.ok [], []⟩
  | decl :: rest =>
      match decl.resolve table with
      | .error error => ⟨.error error, [.aborted error]⟩
      | .ok declared =>
          match declared.value.render with
          | .error error =>
              ⟨.error (.rendering error), [.resolved declared, .aborted (.rendering error)]⟩
          | .ok literal =>
              let line := declared.line literal
              let later := runFrom (declared.define table) rest
              ⟨later.lines.map (line :: ·), .resolved declared :: .emitted line :: later.log⟩

def run (doc : Document) : Run := runFrom ∅ (declarations doc)

def joinLines (lines : List String) : String := "\n".intercalate lines

def Run.output (run : Run) : Except Error String := run.lines.map joinLines

/-- The configuration text of a document. -/
def ofDocument (doc : Document) : Except Error String := (run doc).output

end ConfigDecl.Configuration

import ConfigDecl.CommandLine.Files
import ConfigDecl.Dictionary

/-! # A file system

A tree of folders and files with a working folder.  A path is walked component
by component from the root, if it begins with a slash, or from the working
folder; every component but the last must lead to a folder, and so must the last
if a slash follows it.  A file is created where its folder exists. -/

set_option autoImplicit false

namespace ConfigDecl.CommandLine

inductive FileNode where
  | file (content : Bytes)
  | folder (entries : Dictionary FileNode)
  deriving Repr

instance : Inhabited FileNode := ⟨.folder ∅⟩

namespace FileNode

def child? (node : FileNode) (name : String) : Option FileNode :=
  match node with
  | .file _ => none
  | .folder entries => entries.get? name

def find? (node : FileNode) : List String → Option FileNode
  | [] => some node
  | name :: rest => (node.child? name).bind fun child => child.find? rest

/-- The tree with `placed` where the names lead; the folder for it must be there. -/
def put (node placed : FileNode) : List String → FileNode
  | [] => placed
  | name :: rest =>
      match node with
      | .file _ => node
      | .folder entries =>
          match rest with
          | [] => .folder (entries.insert name placed)
          | _ :: _ =>
              match entries.get? name with
              | some child => .folder (entries.insert name (child.put placed rest))
              | none => node

end FileNode

/-! ## Paths -/

/-- The pieces between slashes, empty ones among them. -/
def splitSlashes : List Char → List (List Char)
  | [] => [[]]
  | c :: rest =>
      if c = '/' then [] :: splitSlashes rest
      else
        match splitSlashes rest with
        | [] => [[c]]
        | piece :: pieces => (c :: piece) :: pieces

structure Path where
  fromRoot : Bool
  components : List String
  endsInSlash : Bool
  deriving DecidableEq, Repr

/-- The path written so; the empty text is none. -/
def Path.ofString? (text : String) : Option Path :=
  match text.toList with
  | [] => none
  | c :: rest =>
      some
        { fromRoot := c == '/'
          components :=
            ((splitSlashes (c :: rest)).filter fun piece => !piece.isEmpty).map String.ofList
          endsInSlash := (c :: rest).getLast? == some '/' }

structure FileSystem where
  root : FileNode
  /-- The names that lead to the working folder. -/
  working : List String
  deriving Repr

namespace FileSystem

def current : String := "."

def parent : String := ".."

/-- The names that a path leads to, `here` being where it has led so far. -/
def walk (root : FileNode) (here : List String) : List String → Except SystemError (List String)
  | [] => .ok here
  | component :: rest =>
      match root.find? here with
      | none => .error .noSuchFile
      | some (.file _) => .error .notADirectory
      | some (.folder entries) =>
          if component = current then walk root here rest
          else if component = parent then walk root here.dropLast rest
          else
            match entries.get? component with
            | none => .error .noSuchFile
            | some _ => walk root (here ++ [component]) rest

def start (system : FileSystem) (path : Path) : List String :=
  if path.fromRoot then [] else system.working

def fetch (system : FileSystem) (text : String) : Fetched :=
  match Path.ofString? text with
  | none => .absent .noSuchFile
  | some path =>
      match walk system.root (system.start path) path.components with
      | .error error => .absent error
      | .ok place =>
          match system.root.find? place with
          | none => .absent .noSuchFile
          | some (.folder _) => .unreadable .isADirectory
          | some (.file content) =>
              if path.endsInSlash then .absent .notADirectory else .content content

def destination (system : FileSystem) (text : String) : Except SystemError (List String) :=
  match Path.ofString? text with
  | none => .error .noSuchFile
  | some path =>
      match path.components.getLast? with
      | none => .error .isADirectory
      | some name => do
          let folder ← walk system.root (system.start path) path.components.dropLast
          match system.root.find? folder with
          | none => .error .noSuchFile
          | some (.file _) => .error .notADirectory
          | some (.folder entries) =>
              if path.endsInSlash ∨ name = current ∨ name = parent then .error .isADirectory
              else
                match entries.get? name with
                | some (.folder _) => .error .isADirectory
                | some (.file _) => .ok (folder ++ [name])
                | none => .ok (folder ++ [name])

def store (system : FileSystem) (text : String) (content : Bytes) :
    FileSystem × Option SystemError :=
  match system.destination text with
  | .error error => (system, some error)
  | .ok place => ({ system with root := system.root.put (.file content) place }, none)

def files : Files (StateM FileSystem) where
  fetch text := do return (← get).fetch text
  store text content := modifyGet fun system =>
    let (system, error) := system.store text content
    (error, system)

end FileSystem

/-! ## Listings -/

namespace FileNode

mutual

/-- Everything below a folder, each folder before what it holds; a folder's path
ends in a slash and it has no content. -/
def listing (path : String) : FileNode → List (String × Option Bytes)
  | .file content => [(path, some content)]
  | .folder ⟨entries⟩ => (path ++ "/", none) :: listingsBelow (path ++ "/") entries

def listingsBelow (path : String) : List (String × FileNode) → List (String × Option Bytes)
  | [] => []
  | (name, node) :: rest => listing (path ++ name) node ++ listingsBelow path rest

end

mutual

def sorted : FileNode → FileNode
  | .file content => .file content
  | .folder ⟨entries⟩ =>
      .folder ⟨(sortedEntries entries).mergeSort fun a b => decide (a.1 ≤ b.1)⟩

def sortedEntries : List (String × FileNode) → List (String × FileNode)
  | [] => []
  | (name, node) :: rest => (name, sorted node) :: sortedEntries rest

end

/-- What a folder holds, names in order at every level. -/
def contents (node : FileNode) : List (String × Option Bytes) :=
  match node.sorted with
  | .file _ => []
  | .folder entries => listingsBelow "" entries.entries

end FileNode

end ConfigDecl.CommandLine

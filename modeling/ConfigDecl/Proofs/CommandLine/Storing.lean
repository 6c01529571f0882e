import ConfigDecl.CommandLine.FileSystem
import ConfigDecl.Proofs.Attempt

/-! # Storing a file

What stands at a place of a file system is a folder or a file with its content.
Storing at a path changes what stands at the one place that the path leads to and
at no other; a path that led anywhere before leads there afterwards, and from the
path itself the content is fetched. -/

set_option autoImplicit false

namespace ConfigDecl.CommandLine

inductive Standing where
  | file (content : Bytes)
  | folder
  deriving DecidableEq, Repr

namespace FileNode

def standing : FileNode → Standing
  | .file content => .file content
  | .folder _ => .folder

/-- What stands where the names lead. -/
def at? (node : FileNode) (names : List String) : Option Standing :=
  (node.find? names).map standing

theorem at?_nil (node : FileNode) : node.at? [] = some node.standing := rfl

theorem at?_cons (node : FileNode) (name : String) (rest : List String) :
    node.at? (name :: rest) = (node.child? name).bind fun child => child.at? rest := by
  rw [at?, find?]
  cases node.child? name <;> rfl

theorem at?_cons_of_get? {entries : Dictionary FileNode} {name : String} {child : FileNode}
    (found : entries.get? name = some child) (rest : List String) :
    (FileNode.folder entries).at? (name :: rest) = child.at? rest := by
  rw [at?_cons, child?, found, Option.bind_some]

theorem at?_below_file (content : Bytes) (name : String) (rest : List String) :
    (FileNode.file content).at? (name :: rest) = none := by
  rw [at?_cons, child?, Option.bind_none]

theorem at?_append_singleton (node : FileNode) (names : List String) (name : String) :
    node.at? (names ++ [name]) = ((node.find? names).bind fun below => below.child? name).map
      standing := by
  induction names generalizing node with
  | nil =>
      rw [List.nil_append, at?_cons, find?, Option.bind_some]
      cases node.child? name <;> rfl
  | cons first rest ih =>
      rw [List.cons_append, at?_cons, find?]
      cases node.child? first with
      | none => rfl
      | some child => exact ih child

theorem exists_folder_of_at? {node : FileNode} {names : List String}
    (stands : node.at? names = some .folder) :
    ∃ entries, node.find? names = some (.folder entries) := by
  obtain ⟨found, there, same⟩ := Option.map_eq_some_iff.1 stands
  cases found with
  | file content => cases same
  | folder entries => exact ⟨entries, there⟩

theorem find?_of_at?_file {node : FileNode} {names : List String} {content : Bytes}
    (stands : node.at? names = some (.file content)) :
    node.find? names = some (.file content) := by
  obtain ⟨found, there, same⟩ := Option.map_eq_some_iff.1 stands
  cases found with
  | file content =>
      cases same
      exact there
  | folder entries => cases same

/-! ## One place changes -/

theorem at?_insert_file {entries : Dictionary FileNode} {name : String} (content : Bytes)
    (free : ∀ inner, entries.get? name ≠ some (.folder inner)) (names : List String) :
    (FileNode.folder (entries.insert name (.file content))).at? names =
      if names = [name] then some (.file content) else (FileNode.folder entries).at? names := by
  cases names with
  | nil => rfl
  | cons first rest =>
      rw [at?_cons, at?_cons, child?, child?, Dictionary.get?_insert]
      by_cases here : first = name
      · subst here
        rw [if_pos rfl, Option.bind_some]
        cases rest with
        | nil => rw [if_pos rfl, at?_nil, standing]
        | cons next rest =>
            rw [at?_below_file, if_neg (by simp)]
            cases old : entries.get? first with
            | none => rfl
            | some child =>
                cases child with
                | file content => rw [Option.bind_some, at?_below_file]
                | folder inner => exact absurd old (free inner)
      · have apart : first :: rest ≠ [name] := by
          intro same
          exact here (List.cons.inj same).1
        rw [if_neg here, if_neg apart]

theorem at?_put_file {node : FileNode} {folder : List String} {name : String}
    {entries : Dictionary FileNode} (content : Bytes)
    (there : node.find? folder = some (.folder entries))
    (free : ∀ inner, entries.get? name ≠ some (.folder inner)) (names : List String) :
    (node.put (.file content) (folder ++ [name])).at? names =
      if names = folder ++ [name] then some (.file content) else node.at? names := by
  induction folder generalizing node names with
  | nil =>
      cases there
      exact at?_insert_file content free names
  | cons first folder ih =>
      cases node with
      | file old => cases there
      | folder top =>
          obtain ⟨child, found, below⟩ := Option.bind_eq_some_iff.1 there
          have entered : top.get? first = some child := found
          obtain ⟨next, rest, split⟩ : ∃ next rest, folder ++ [name] = next :: rest := by
            cases folder with
            | nil => exact ⟨name, [], rfl⟩
            | cons next rest => exact ⟨next, rest ++ [name], rfl⟩
          have placed : (FileNode.folder top).put (.file content) (first :: folder ++ [name]) =
              .folder (top.insert first (child.put (.file content) (folder ++ [name]))) := by
            rw [List.cons_append, split]
            simp only [put, entered]
          rw [placed]
          cases names with
          | nil => rfl
          | cons other names =>
              by_cases here : other = first
              · subst here
                rw [at?_cons_of_get? entered, at?_cons, child?, Dictionary.get?_insert,
                  if_pos rfl, Option.bind_some, ih below]
                simp
              · have apart : other :: names ≠ first :: folder ++ [name] := by
                  intro same
                  exact here (List.cons.inj same).1
                rw [if_neg apart, at?_cons, at?_cons, child?, child?, Dictionary.get?_insert,
                  if_neg here]

end FileNode

namespace FileSystem

/-! ## Paths lead where they led -/

theorem walk_append (root : FileNode) (here : List String) (xs ys : List String) :
    walk root here (xs ++ ys) = (walk root here xs).bind fun place => walk root place ys := by
  induction xs generalizing here with
  | nil => rfl
  | cons component rest ih =>
      rw [List.cons_append, walk, walk]
      cases root.find? here with
      | none => rfl
      | some found =>
          cases found with
          | file content => rfl
          | folder entries =>
              by_cases isCurrent : component = current
              · simp only [if_pos isCurrent, ih]
              by_cases isParent : component = parent
              · simp only [if_neg isCurrent, if_pos isParent, ih]
              simp only [if_neg isCurrent, if_neg isParent]
              cases entries.get? component with
              | none => rfl
              | some child => exact ih (here ++ [component])

/-- Everything that stands in the one tree stands in the other, and folders are
folders there. -/
structure Grows (root after : FileNode) : Prop where
  folders : ∀ names, root.at? names = some .folder → after.at? names = some .folder
  stands : ∀ names, (root.at? names).isSome → (after.at? names).isSome

/-- One step of a walk into a folder. -/
theorem walk_cons_of_stands {root : FileNode} {here : List String} {component : String}
    (folder : root.at? here = some .folder) (notCurrent : component ≠ current)
    (notParent : component ≠ parent) (stands : (root.at? (here ++ [component])).isSome)
    (rest : List String) :
    walk root here (component :: rest) = walk root (here ++ [component]) rest := by
  obtain ⟨entries, there⟩ := FileNode.exists_folder_of_at? folder
  rw [FileNode.at?_append_singleton, there, Option.bind_some, FileNode.child?] at stands
  rw [walk, there]
  simp only [if_neg notCurrent, if_neg notParent]
  cases found : entries.get? component with
  | none =>
      rw [found] at stands
      cases stands
  | some child => rfl

theorem walk_of_grows {root after : FileNode} (grows : Grows root after)
    {components here place : List String} (leads : walk root here components = .ok place) :
    walk after here components = .ok place := by
  induction components generalizing here with
  | nil => exact leads
  | cons component rest ih =>
      rw [walk] at leads
      cases there : root.find? here with
      | none =>
          rw [there] at leads
          cases leads
      | some found =>
          cases found with
          | file content =>
              rw [there] at leads
              cases leads
          | folder entries =>
              rw [there] at leads
              have folder : root.at? here = some .folder := by
                rw [FileNode.at?, there]
                rfl
              have kept := grows.folders here folder
              by_cases isCurrent : component = current
              · simp only [if_pos isCurrent] at leads
                obtain ⟨entries', there'⟩ := FileNode.exists_folder_of_at? kept
                rw [walk, there']
                simp only [if_pos isCurrent]
                exact ih leads
              by_cases isParent : component = parent
              · simp only [if_neg isCurrent, if_pos isParent] at leads
                obtain ⟨entries', there'⟩ := FileNode.exists_folder_of_at? kept
                rw [walk, there']
                simp only [if_neg isCurrent, if_pos isParent]
                exact ih leads
              simp only [if_neg isCurrent, if_neg isParent] at leads
              cases found : entries.get? component with
              | none =>
                  rw [found] at leads
                  cases leads
              | some child =>
                  rw [found] at leads
                  have stands : (root.at? (here ++ [component])).isSome := by
                    rw [FileNode.at?_append_singleton, there, Option.bind_some, FileNode.child?,
                      found]
                    rfl
                  rw [walk_cons_of_stands kept isCurrent isParent (grows.stands _ stands)]
                  exact ih leads

/-! ## Storing -/

/-- Where a file may be stored: under a name of its own in a folder that is
there, and in the place of a file if of anything. -/
structure Leads (system : FileSystem) (path : Path) (folder : List String) (name : String) :
    Prop where
  components : path.components = path.components.dropLast ++ [name]
  walks : walk system.root (system.start path) path.components.dropLast = .ok folder
  notCurrent : name ≠ current
  notParent : name ≠ parent
  noSlash : path.endsInSlash = false
  there : ∃ entries, system.root.find? folder = some (.folder entries) ∧
    ∀ inner, entries.get? name ≠ some (.folder inner)

theorem leads_of_destination {system : FileSystem} {text : String} {place : List String}
    (found : system.destination text = .ok place) :
    ∃ path folder name, Path.ofString? text = some path ∧ Leads system path folder name ∧
      place = folder ++ [name] := by
  rw [destination] at found
  cases parsed : Path.ofString? text with
  | none =>
      rw [parsed] at found
      cases found
  | some path =>
      simp only [parsed] at found
      cases last : path.components.getLast? with
      | none =>
          rw [last] at found
          cases found
      | some name =>
          simp only [last, Attempt.do_eq_bind, Attempt.bind_eq_ok_iff] at found
          obtain ⟨folder, walks, found⟩ := found
          cases there : system.root.find? folder with
          | none =>
              rw [there] at found
              cases found
          | some node =>
              cases node with
              | file content =>
                  rw [there] at found
                  cases found
              | folder entries =>
                  simp only [there] at found
                  split at found
                  · cases found
                  · next proper =>
                      rw [not_or, not_or] at proper
                      obtain ⟨noSlash, notCurrent, notParent⟩ := proper
                      have components : path.components = path.components.dropLast ++ [name] := by
                        obtain ⟨init, same⟩ := List.getLast?_eq_some_iff.1 last
                        rw [same, List.dropLast_concat]
                      have noFolder : ∀ inner, entries.get? name ≠ some (.folder inner) := by
                        intro inner same
                        rw [same] at found
                        cases found
                      refine ⟨path, folder, name, rfl, ⟨components, walks, notCurrent, notParent,
                        Bool.eq_false_iff.2 noSlash, entries, there, noFolder⟩, ?_⟩
                      cases held : entries.get? name with
                      | none =>
                          rw [held] at found
                          cases found
                          rfl
                      | some child =>
                          cases child with
                          | folder inner => exact absurd held (noFolder inner)
                          | file content =>
                              rw [held] at found
                              cases found
                              rfl

theorem at?_store {system : FileSystem} {text : String} {place : List String}
    (found : system.destination text = .ok place) (content : Bytes) (names : List String) :
    (system.store text content).1.root.at? names =
      if names = place then some (.file content) else system.root.at? names := by
  obtain ⟨path, folder, name, _, leads, rfl⟩ := leads_of_destination found
  obtain ⟨entries, there, free⟩ := leads.there
  rw [store, found]
  exact FileNode.at?_put_file content there free names

theorem no_folder_at_destination {system : FileSystem} {text : String} {place : List String}
    (found : system.destination text = .ok place) : system.root.at? place ≠ some .folder := by
  obtain ⟨path, folder, name, _, leads, rfl⟩ := leads_of_destination found
  obtain ⟨entries, there, free⟩ := leads.there
  intro stands
  rw [FileNode.at?_append_singleton, there, Option.bind_some, FileNode.child?] at stands
  obtain ⟨child, held, same⟩ := Option.map_eq_some_iff.1 stands
  cases child with
  | file content => cases same
  | folder inner => exact free inner held

theorem grows_store {system : FileSystem} {text : String} {place : List String}
    (found : system.destination text = .ok place) (content : Bytes) :
    Grows system.root (system.store text content).1.root := by
  constructor
  · intro names folder
    have elsewhere : names ≠ place := by
      intro same
      rw [same] at folder
      exact no_folder_at_destination found folder
    rw [at?_store found, if_neg elsewhere]
    exact folder
  · intro names stands
    rw [at?_store found]
    split
    · rfl
    · exact stands

theorem working_store (system : FileSystem) (text : String) (content : Bytes) :
    (system.store text content).1.working = system.working := by
  rw [store]
  split <;> rfl

/-- What has been stored at a path is fetched from it. -/
theorem fetch_store {system : FileSystem} {text : String} {place : List String}
    (found : system.destination text = .ok place) (content : Bytes) :
    (system.store text content).1.fetch text = .content content := by
  have stands := at?_store found content place
  rw [if_pos rfl] at stands
  have grows := grows_store found content
  obtain ⟨path, folder, name, parsed, leads, rfl⟩ := leads_of_destination found
  have start : (system.store text content).1.start path = system.start path := by
    rw [FileSystem.start, FileSystem.start, working_store]
  have inFolder : (system.store text content).1.root.at? folder = some .folder := by
    obtain ⟨entries, there, _⟩ := leads.there
    apply grows.folders
    rw [FileNode.at?, there]
    rfl
  have walks : walk (system.store text content).1.root
      ((system.store text content).1.start path) path.components = .ok (folder ++ [name]) := by
    have last := walk_cons_of_stands inFolder leads.notCurrent leads.notParent
      (by rw [stands]; rfl) []
    rw [leads.components, walk_append, start, walk_of_grows grows leads.walks, Attempt.bind_ok,
      last, walk]
  rw [fetch, parsed]
  simp only [walks, FileNode.find?_of_at?_file stands, leads.noSlash]
  rfl

theorem store_of_refused {system : FileSystem} {text : String} {error : SystemError}
    (refused : system.destination text = .error error) (content : Bytes) :
    system.store text content = (system, some error) := by
  rw [store, refused]

theorem snd_store {system : FileSystem} {text : String} {place : List String}
    (found : system.destination text = .ok place) (content : Bytes) :
    (system.store text content).2 = none := by
  rw [store, found]

end FileSystem

end ConfigDecl.CommandLine

import Provenance.Command.Machine

/-!
# A machine in memory

A machine whose files, folders and variables are a value. It follows paths as an operating system does: each
part is looked for in the folder that the parts before it lead to, a point stands for the folder itself and two
points for the folder around it.
-/

namespace Provenance

/-- The names that lead to a file or folder, from the outermost folder on. -/
abbrev Place := List String

/-- Files and folders in memory. The outermost folder is always there. -/
structure FileTree where
  folders : List Place
  files : List (Place × String)
  /-- The folder that paths start from unless they start with a slash. -/
  home : Place

namespace FileTree

/-- The tree without a file in which paths start from a folder below the outermost one. -/
def empty (home : String) : FileTree := ⟨[[home]], [], [home]⟩

/-- Whether there is a folder at a place. -/
def hasFolder (t : FileTree) (place : Place) : Bool := place.isEmpty || t.folders.contains place

/-- Whether there is a file at a place. -/
def hasFile (t : FileTree) (place : Place) : Bool := (t.files.lookup place).isSome

/-- The place that one more part of a path leads to. What stands there need not exist. -/
def next (place : Place) (part : String) : Place :=
  if part = "" ∨ part = "." then place
  else if part = ".." then place.dropLast
  else place ++ [part]

/-- The place that the parts of a path lead to from a folder. All but the last lead to folders. -/
def follow (t : FileTree) (place : Place) : List String → Except FileError Place
  | [] => .ok place
  | part :: rest =>
    if t.hasFolder place then t.follow (next place part) rest
    else if t.hasFile place then .error .notFolder
    else .error .missing

/-- The parts of a path. -/
def parts (path : String) : List String := path.splitOn "/"

/-- The place that a path starts from. -/
def origin (t : FileTree) (path : String) : Place :=
  if path.toList.head? = some '/' then [] else t.home

/-- The text of the file at a path. -/
def read (t : FileTree) (path : String) : Except FileError String := do
  let place ← t.follow (t.origin path) (parts path)
  match t.files.lookup place with
  | some text => .ok text
  | none => .error (if t.hasFolder place then .isFolder else .missing)

/-- The tree with a text in the file at a path. -/
def write (t : FileTree) (path text : String) : Except FileError FileTree := do
  let place ← t.follow (t.origin path) (parts path)
  if t.hasFolder place then .error .isFolder
  else .ok { t with files := (place, text) :: t.files.filter fun file => file.1 ≠ place }

/-- The tree with the folders that the parts of a path lead through from a folder. -/
def makeFolders (t : FileTree) (place : Place) : List String → Except FileError FileTree
  | [] => .ok t
  | part :: rest =>
    let place := next place part
    if t.hasFile place then .error (if rest.all String.isEmpty then .present else .notFolder)
    else if t.hasFolder place then t.makeFolders place rest
    else { t with folders := place :: t.folders }.makeFolders place rest

/-- The tree with a file and the folders around it. -/
def put (t : FileTree) (path text : String) : FileTree :=
  match t.makeFolders (t.origin path) (parts path).dropLast with
  | .ok made => (made.write path text).toOption.getD t
  | .error _ => t

/-- The names of the files in the folder at a path. -/
def filesIn (t : FileTree) (path : String) : List String :=
  match t.follow (t.origin path) (parts path) with
  | .ok place => (t.files.map Prod.fst).filterMap fun file =>
      if file.dropLast = place then file.getLast? else none
  | .error _ => []

end FileTree

/-- A machine in memory, with its variables. -/
structure Memory where
  tree : FileTree
  vars : List (String × String)

namespace Memory

/-- The machine that works on a tree of files, at a given time, giving identities from a given number on. -/
def machine (now : Timestamp) (firstId : Nat) : Machine (StateM Memory) where
  environment name := do pure ((← get).vars.lookup name)
  variableFolders := pure [""]
  readText path := do pure ((← get).tree.read path)
  writeText path text := do
    let s ← get
    match s.tree.write path text with
    | .ok tree => do
      set { s with tree }
      pure (.ok ())
    | .error e => pure (.error e)
  makeFolder path := do
    let s ← get
    match s.tree.makeFolders (s.tree.origin path) (FileTree.parts path) with
    | .ok tree => do
      set { s with tree }
      pure (.ok ())
    | .error e => pure (.error e)
  now := pure now
  firstId := pure firstId

end Memory

end Provenance

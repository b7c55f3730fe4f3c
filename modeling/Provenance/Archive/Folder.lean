import Provenance.Archive.Basic

/-!
# Archives in a folder

A folder is an archive too: each trail has a file of its own, named for its identity, that holds the text of
its snapshot. A folder may hold other files. Those that hold no snapshot do not appear in its listing, but a
trail whose own file holds none can be neither loaded nor saved. Main statements: `read?_write_self`,
`read?_write_of_ne`, `read?_remove_self`, `read?_remove_of_ne`.
-/

namespace Provenance

/-- Files by their names, each with its text. -/
structure Folder where
  files : List (String × String)
  nodup : (files.map Prod.fst).Nodup

namespace Folder

/-- The folder in which there is no file. -/
def empty : Folder := ⟨[], by simp⟩

/-- The text of the file with a name. -/
def read? (f : Folder) (name : String) : Option String := f.files.lookup name

/-- The folder without the file with a name. -/
def remove (f : Folder) (name : String) : Folder where
  files := f.files.filter fun file => file.1 ≠ name
  nodup := f.nodup.sublist (List.filter_sublist.map _)

/-- The folder with a text in a file. -/
def write (f : Folder) (name text : String) : Folder where
  files := (name, text) :: (f.remove name).files
  nodup := by
    rw [List.map_cons, List.nodup_cons]
    refine ⟨?_, (f.remove name).nodup⟩
    simp [remove]

/-- The names of the files in order. -/
def names (f : Folder) : List String := (f.files.map Prod.fst).mergeSort fun a b => decide (a ≤ b)

theorem read?_remove_self (f : Folder) (name : String) : (f.remove name).read? name = none := by
  simp only [read?, remove, List.lookup_eq_none_iff, List.mem_filter]
  intro file h
  have hne : file.1 ≠ name := by simpa using h.2
  simpa using hne.symm

theorem lookup_filter_of_ne {name other : String} (h : other ≠ name) (files : List (String × String)) :
    (files.filter fun file => file.1 ≠ name).lookup other = files.lookup other := by
  induction files with
  | nil => rfl
  | cons file rest ih =>
    obtain ⟨key, text⟩ := file
    by_cases hk : key = name
    · have hne : (other == key) = false := by simp [hk, h]
      rw [List.lookup_cons, hne, ← ih]
      simp [hk]
    · simp only [List.filter_cons, decide_not, hk, decide_false, Bool.not_false, if_true,
        List.lookup_cons]
      rw [← ih]
      simp

theorem read?_remove_of_ne (f : Folder) {name other : String} (h : other ≠ name) :
    (f.remove name).read? other = f.read? other := lookup_filter_of_ne h f.files

theorem read?_write_self (f : Folder) (name text : String) :
    (f.write name text).read? name = some text := by
  simp [read?, write]

theorem read?_write_of_ne (f : Folder) {name other : String} (text : String) (h : other ≠ name) :
    (f.write name text).read? other = f.read? other := by
  rw [← f.read?_remove_of_ne h]
  simp [read?, write, List.lookup_cons, beq_false_of_ne h]

/-! ## Trails in files -/

/-- The file of a trail. -/
def fileOf (trail : Id) : String := trail.text ++ ".json"

/-- The file that a snapshot is written to before it takes the place of the file of its trail. -/
def draftOf (trail : Id) : String := fileOf trail ++ ".tmp"

/-- The characters after the last point of a name that does not start with it. -/
def extension? (name : String) : Option (List Char) :=
  let reversed := name.toList.reverse
  let suffix := reversed.takeWhile (· ≠ '.')
  match reversed.drop suffix.length with
  | _ :: _ :: _ => some suffix.reverse
  | _ => none

/-- Whether the name of a file says that it holds a JSON document. -/
def isJsonFile (name : String) : Bool := extension? name = some "json".toList

/-- The snapshot of a trail. -/
def load (f : Folder) (trail : Id) : Except ArchiveError (Option Snapshot) :=
  match f.read? (fileOf trail) with
  | none => .ok none
  | some text =>
    match Snapshot.ofText? text with
    | some s => .ok (some s)
    | none => .error (.unparsable (fileOf trail))

/-- The folder with a snapshot in the file of its trail. -/
def insert (f : Folder) (s : Snapshot) : Folder :=
  (f.remove (draftOf s.trail.id)).write (fileOf s.trail.id) s.text

/-- The folder after a snapshot was saved. -/
def save (f : Folder) (s : Snapshot) : Except ArchiveError Folder := do
  match ← f.load s.trail.id with
  | some present => if present.isFinal then .error (.completed s.trail.id) else .ok (f.insert s)
  | none => .ok (f.insert s)

/-- The trails of a folder, oldest first. -/
def list (f : Folder) (status : Option Trail.Status) : List Trail :=
  let texts := (f.files.filter fun file => isJsonFile file.1).map Prod.snd
  Trail.listing status ((texts.filterMap Snapshot.ofText?).map Snapshot.trail)

/-- Whether a trail was there, and the folder without its file. -/
def delete (f : Folder) (trail : Id) : Bool × Folder :=
  ((f.read? (fileOf trail)).isSome, f.remove (fileOf trail))

end Folder

end Provenance

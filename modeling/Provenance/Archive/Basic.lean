import Provenance.Snapshot.Encoding

/-!
# Archives

An archive keeps at most one snapshot for each trail. A snapshot of a completed trail is never replaced: it
stays as it was saved until the whole trail is deleted. A trail that failed or was still running may be
saved again. Main statements: `load_insert_self`, `load_insert_of_ne`, `load_erase_self`,
`load_erase_of_ne`.
-/

namespace Provenance

/-- Why an archive refuses. -/
inductive ArchiveError where
  /-- The trail is there and completed. -/
  | completed (trail : Id)
  /-- A file that should hold a snapshot holds none. -/
  | unparsable (file : String)

/-- The path of a file in a directory. -/
def filePath (directory file : String) : String :=
  if directory.toList.getLast? = some '/' then directory ++ file else directory ++ "/" ++ file

/-- The wording of a refusal by an archive that keeps its files in a directory. -/
def ArchiveError.message (directory : String) : ArchiveError → String
  | .completed trail => "Cannot overwrite completed trail " ++ trail.text
  | .unparsable file => "parsing trail " ++ filePath directory file

namespace Trail

/-- Whether a trail is listed before another, or is the same: it began earlier, or at the same time and has
the smaller identity. -/
def listedBefore (a b : Trail) : Bool :=
  a.createdAt.before b.createdAt || (decide (a.createdAt = b.createdAt) && a.id.le b.id)

/-- Whether a trail has the status asked for, if one is asked for. -/
def answers (status : Option Status) (t : Trail) : Bool :=
  match status with
  | some status => decide (t.status = status)
  | none => true

/-- The trails with the status asked for, oldest first. -/
def listing (status : Option Status) (trails : List Trail) : List Trail :=
  (trails.filter (answers status)).mergeSort listedBefore

end Trail

/-- Whether a snapshot can no longer be replaced. -/
def Snapshot.isFinal (s : Snapshot) : Bool := decide (s.trail.status = .completed)

/-- Snapshots, at most one for each trail. -/
structure Archive where
  snapshots : List Snapshot
  nodup : (snapshots.map fun s => s.trail.id).Nodup

namespace Archive

/-- The archive without a snapshot. -/
def empty : Archive := ⟨[], by simp⟩

/-- The snapshot of a trail. -/
def load (a : Archive) (trail : Id) : Option Snapshot :=
  a.snapshots.find? fun s => s.trail.id = trail

/-- The archive without a trail. -/
def erase (a : Archive) (trail : Id) : Archive where
  snapshots := a.snapshots.filter fun s => s.trail.id ≠ trail
  nodup := a.nodup.sublist (List.filter_sublist.map _)

/-- The archive with a snapshot in the place of what it has of the same trail. -/
def insert (a : Archive) (s : Snapshot) : Archive where
  snapshots := s :: (a.erase s.trail.id).snapshots
  nodup := by
    rw [List.map_cons, List.nodup_cons]
    refine ⟨?_, (a.erase s.trail.id).nodup⟩
    simp [erase]

/-- The archive after a snapshot was saved. -/
def save (a : Archive) (s : Snapshot) : Except ArchiveError Archive :=
  match a.load s.trail.id with
  | some present => if present.isFinal then .error (.completed s.trail.id) else .ok (a.insert s)
  | none => .ok (a.insert s)

/-- The trails of an archive, oldest first. -/
def list (a : Archive) (status : Option Trail.Status) : List Trail :=
  Trail.listing status (a.snapshots.map Snapshot.trail)

/-- Whether a trail was there, and the archive without it. -/
def delete (a : Archive) (trail : Id) : Bool × Archive := ((a.load trail).isSome, a.erase trail)

/-! ## What an archive has after a change -/

theorem load_erase_self (a : Archive) (trail : Id) : (a.erase trail).load trail = none := by
  simp [load, erase]

theorem load_erase_of_ne (a : Archive) {trail other : Id} (h : other ≠ trail) :
    (a.erase trail).load other = a.load other := by
  simp only [load, erase, List.find?_filter]
  congr 1
  funext s
  by_cases hs : s.trail.id = other <;> simp [hs, h]

theorem load_insert_self (a : Archive) (s : Snapshot) : (a.insert s).load s.trail.id = some s := by
  simp [load, insert]

theorem load_insert_of_ne (a : Archive) {s : Snapshot} {trail : Id} (h : trail ≠ s.trail.id) :
    (a.insert s).load trail = a.load trail := by
  rw [← a.load_erase_of_ne h]
  simp [load, insert, Ne.symm h]

end Archive

end Provenance

import Mathlib.Data.Int.Order.Basic
import Mathlib.Data.List.Lex
import Mathlib.Data.List.Nodup
import Mathlib.Logic.Function.Basic
import Provenance.Archive.Folder

/-!
# Shelves of snapshots

A shelf has at most one snapshot for each trail, in no order. What it answers to a request is a relation
(`Shelf.Answers`) that leaves no choice (`Shelf.Replies.det`): trails have an order in which no two with
different identities are equal, so a listing of them is determined by its members. An archive answers as the
shelf of what can be loaded from it (`Archive.answers_answer`).
-/

namespace Provenance

/-! ## Requests -/

/-- What an archive is asked for. -/
inductive ArchiveRequest where
  | save (s : Snapshot)
  | load (trail : Id)
  | list (status : Option Trail.Status)
  | delete (trail : Id)

/-- What an archive answers. -/
inductive ArchiveAnswer where
  | saved
  | refused (e : ArchiveError)
  | loaded (s : Option Snapshot)
  | listed (trails : List Trail)
  | deleted (there : Bool)

namespace ArchiveRequest

/-- The answers to requests one after another. -/
def answers {σ : Type} (answer : σ → ArchiveRequest → ArchiveAnswer × σ) : σ → List ArchiveRequest →
    List ArchiveAnswer
  | _, [] => []
  | a, r :: rest => (answer a r).1 :: answers answer (answer a r).2 rest

/-- What is left after requests one after another. -/
def after {σ : Type} (answer : σ → ArchiveRequest → ArchiveAnswer × σ) (a : σ)
    (requests : List ArchiveRequest) : σ :=
  requests.foldl (fun a r => (answer a r).2) a

/-- A request that a folder can meet: a snapshot is read back from its text, and a trail has an identity of
128 bits. -/
def Admissible : ArchiveRequest → Prop
  | .save s => Snapshot.ofText? s.text = some s
  | .load trail | .delete trail => trail.number < 1 <<< 128
  | .list _ => True

end ArchiveRequest

/-- The answer of an archive, and the archive after it. -/
def Archive.answer (a : Archive) : ArchiveRequest → ArchiveAnswer × Archive
  | .save s =>
    match a.save s with
    | .ok a => (.saved, a)
    | .error e => (.refused e, a)
  | .load trail => (.loaded (a.load trail), a)
  | .list status => (.listed (a.list status), a)
  | .delete trail => ((.deleted (a.delete trail).1), (a.delete trail).2)

/-- The answer of a folder, and the folder after it. -/
def Folder.answer (f : Folder) : ArchiveRequest → ArchiveAnswer × Folder
  | .save s =>
    match f.save s with
    | .ok f => (.saved, f)
    | .error e => (.refused e, f)
  | .load trail =>
    match f.load trail with
    | .ok s => (.loaded s, f)
    | .error e => (.refused e, f)
  | .list status => (.listed (f.list status), f)
  | .delete trail => ((.deleted (f.delete trail).1), (f.delete trail).2)

/-! ## The order of trails -/

namespace Timestamp

theorem parts_inj {a b : Timestamp} (h : a.parts = b.parts) : a = b := by
  cases a
  cases b
  simp only [parts, List.cons.injEq, Int.natCast_inj, and_true] at h
  obtain ⟨rfl, rfl, rfl, rfl, rfl, rfl, rfl⟩ := h
  rfl

theorem before_iff {a b : Timestamp} : a.before b ↔ a.parts < b.parts := decide_eq_true_iff

theorem before_cases (a b : Timestamp) : a.before b ∨ a = b ∨ b.before a := by
  rw [before_iff, before_iff]
  exact (lt_trichotomy a.parts b.parts).imp_right (Or.imp_left parts_inj)

theorem before_trans {a b c : Timestamp} (hab : a.before b) (hbc : b.before c) : a.before c :=
  before_iff.2 (lt_trans (before_iff.1 hab) (before_iff.1 hbc))

theorem not_before_self (a : Timestamp) : ¬a.before a := fun h => lt_irrefl _ (before_iff.1 h)

end Timestamp

namespace Trail

variable {a b c t : Trail} {status : Option Status} {trails : List Trail}

/-- A trail is older than another: it began earlier, or at the same time and has the smaller identity. -/
def Older (a b : Trail) : Prop :=
  a.createdAt.before b.createdAt ∨ a.createdAt = b.createdAt ∧ a.id.number < b.id.number

theorem not_older_self (a : Trail) : ¬a.Older a := by
  rintro (h | ⟨-, h⟩)
  · exact a.createdAt.not_before_self h
  · exact Nat.lt_irrefl _ h

theorem Older.trans (hab : a.Older b) (hbc : b.Older c) : a.Older c := by
  rcases hab with hab | ⟨hab, hid⟩
  · rcases hbc with hbc | ⟨hbc, -⟩
    · exact .inl (Timestamp.before_trans hab hbc)
    · exact .inl (hbc ▸ hab)
  · rcases hbc with hbc | ⟨hbc, hid'⟩
    · exact .inl (hab ▸ hbc)
    · exact .inr ⟨hab.trans hbc, Nat.lt_trans hid hid'⟩

theorem listedBefore_iff : a.listedBefore b ↔ a.Older b ∨ a.createdAt = b.createdAt ∧ a.id = b.id := by
  have hle : a.id.le b.id ↔ a.id.number < b.id.number ∨ a.id = b.id := by
    rw [Id.le, decide_eq_true_iff, Nat.le_iff_lt_or_eq]
    exact or_congr_right ⟨congrArg Id.mk, congrArg Id.number⟩
  unfold listedBefore Older
  rw [Bool.or_eq_true, Bool.and_eq_true, decide_eq_true_iff, hle]
  tauto

theorem listedBefore_trans (hab : a.listedBefore b) (hbc : b.listedBefore c) : a.listedBefore c := by
  rw [listedBefore_iff] at hab hbc ⊢
  rcases hab with hab | ⟨hab, hid⟩
  · rcases hbc with hbc | ⟨hbc, hid⟩
    · exact .inl (hab.trans hbc)
    · unfold Older at hab ⊢
      rw [← hbc, ← hid]
      exact .inl hab
  · rcases hbc with hbc | ⟨hbc, hid'⟩
    · unfold Older at hbc ⊢
      rw [hab, hid]
      exact .inl hbc
    · exact .inr ⟨hab.trans hbc, hid.trans hid'⟩

theorem listedBefore_total (a b : Trail) : a.listedBefore b ∨ b.listedBefore a := by
  rw [listedBefore_iff, listedBefore_iff]
  rcases Timestamp.before_cases a.createdAt b.createdAt with h | h | h
  · exact .inl (.inl (.inl h))
  · rcases Nat.lt_trichotomy a.id.number b.id.number with hid | hid | hid
    · exact .inl (.inl (.inr ⟨h, hid⟩))
    · exact .inl (.inr ⟨h, congrArg Id.mk hid⟩)
    · exact .inr (.inl (.inr ⟨h.symm, hid⟩))
  · exact .inr (.inl (.inl h))

/-- A listing of trails with single identities lists them from older to younger. -/
theorem pairwise_listing (h : trails.Pairwise fun a b => a.id ≠ b.id) :
    (listing status trails).Pairwise Older := by
  have hsorted : (listing status trails).Pairwise fun a b => a.listedBefore b :=
    List.pairwise_mergeSort (fun a b c => listedBefore_trans (a := a) (b := b) (c := c))
      (fun a b => (Bool.or_eq_true _ _).mpr (listedBefore_total a b)) _
  have hsingle : (listing status trails).Pairwise fun a b => a.id ≠ b.id :=
    (List.mergeSort_perm _ _).symm.pairwise (h.filter _) fun hne => hne.symm
  refine (hsorted.and hsingle).imp fun {a b} ⟨hab, hne⟩ => ?_
  exact (listedBefore_iff.1 hab).resolve_right fun heq => hne heq.2

theorem mem_listing : t ∈ listing status trails ↔ t ∈ trails ∧ t.answers status := by
  unfold listing
  rw [List.mem_mergeSort, List.mem_filter]

end Trail

/-! ## Shelves -/

/-- Snapshots by the trails that they are of. -/
abbrev Shelf := Id → Option Snapshot

namespace Shelf

variable {m m' m₁ m₂ : Shelf} {request : ArchiveRequest} {requests : List ArchiveRequest}
  {a a₁ a₂ : ArchiveAnswer} {as as₁ as₂ : List ArchiveAnswer} {status : Option Trail.Status}

/-- The shelf without a snapshot. -/
def empty : Shelf := fun _ => none

/-- Trails of a shelf with the status asked for, from older to younger. -/
structure Lists (m : Shelf) (status : Option Trail.Status) (trails : List Trail) : Prop where
  sorted : trails.Pairwise Trail.Older
  mem : ∀ t, t ∈ trails ↔ (∃ s, m t.id = some s ∧ s.trail = t) ∧ t.answers status

/-- What a shelf answers, and the shelf after it. Only saving fails, and only over a snapshot that is final;
it changes nothing then. -/
inductive Answers : Shelf → ArchiveRequest → ArchiveAnswer → Shelf → Prop
  | saved {m : Shelf} {s : Snapshot} (free : ∀ present, m s.trail.id = some present → ¬present.isFinal) :
      Answers m (.save s) .saved (Function.update m s.trail.id (some s))
  | refused {m : Shelf} {s present : Snapshot} (there : m s.trail.id = some present)
      (final : present.isFinal) : Answers m (.save s) (.refused (.completed s.trail.id)) m
  | loaded {m : Shelf} {trail : Id} : Answers m (.load trail) (.loaded (m trail)) m
  | listed {m : Shelf} {status : Option Trail.Status} {trails : List Trail}
      (lists : m.Lists status trails) : Answers m (.list status) (.listed trails) m
  | deleted {m : Shelf} {trail : Id} :
      Answers m (.delete trail) (.deleted (m trail).isSome) (Function.update m trail none)

/-- What a shelf answers to requests one after another. -/
inductive Replies : Shelf → List ArchiveRequest → List ArchiveAnswer → Prop
  | nil {m : Shelf} : Replies m [] []
  | cons {m m' : Shelf} {request : ArchiveRequest} {requests : List ArchiveRequest} {a : ArchiveAnswer}
      {as : List ArchiveAnswer} (first : Answers m request a m') (next : Replies m' requests as) :
      Replies m (request :: requests) (a :: as)

theorem Lists.eq {trails trails' : List Trail} (h : m.Lists status trails) (h' : m.Lists status trails') :
    trails = trails' := by
  have hnodup : ∀ {trails}, m.Lists status trails → trails.Nodup := by
    intro trails h
    refine h.sorted.imp ?_
    rintro a _ hab rfl
    exact Trail.not_older_self a hab
  have hperm : trails.Perm trails' := (List.perm_ext_iff_of_nodup (hnodup h) (hnodup h')).2 fun t => by
    rw [h.mem, h'.mem]
  refine hperm.eq_of_pairwise (fun a b _ _ hab hba => ?_) h.sorted h'.sorted
  exact absurd (hab.trans hba) (Trail.not_older_self a)

/-- A shelf leaves no choice what to answer. -/
theorem Answers.det (h₁ : Answers m request a₁ m₁) (h₂ : Answers m request a₂ m₂) : a₁ = a₂ ∧ m₁ = m₂ := by
  cases h₁ with
  | saved hfree =>
    cases h₂ with
    | saved => exact ⟨rfl, rfl⟩
    | refused there final => exact absurd final (hfree _ there)
  | refused there final =>
    cases h₂ with
    | saved hfree => exact absurd final (hfree _ there)
    | refused => exact ⟨rfl, rfl⟩
  | loaded =>
    cases h₂
    exact ⟨rfl, rfl⟩
  | listed lists =>
    cases h₂ with
    | listed lists' => exact ⟨congrArg _ (lists.eq lists'), rfl⟩
  | deleted =>
    cases h₂
    exact ⟨rfl, rfl⟩

theorem Replies.det (h₁ : Replies m requests as₁) (h₂ : Replies m requests as₂) : as₁ = as₂ := by
  induction h₁ generalizing as₂ with
  | nil =>
    cases h₂
    rfl
  | cons first next ih =>
    cases h₂ with
    | cons first' next' =>
      obtain ⟨rfl, rfl⟩ := first.det first'
      rw [ih next']

/-- A final snapshot stays on the shelf until its trail is deleted. -/
theorem Answers.keeps {s : Snapshot} (h : Answers m request a m') (hs : m s.trail.id = some s)
    (hfinal : s.isFinal) (hrequest : request ≠ .delete s.trail.id) : m' s.trail.id = some s := by
  cases h with
  | saved hfree =>
    rw [Function.update_of_ne, hs]
    intro heq
    rw [← heq] at hfree
    exact hfree s hs hfinal
  | deleted =>
    rw [Function.update_of_ne, hs]
    rintro rfl
    exact hrequest rfl
  | refused | loaded | listed => exact hs

end Shelf

/-! ## In memory -/

namespace Archive

variable {a : Archive}

theorem mem_snapshots_iff {s : Snapshot} : s ∈ a.snapshots ↔ a.load s.trail.id = some s := by
  unfold load
  constructor
  · intro hs
    cases hfind : a.snapshots.find? fun s' => s'.trail.id = s.trail.id with
    | none => simpa using List.find?_eq_none.1 hfind s hs
    | some s' =>
      have hid : s'.trail.id = s.trail.id := by simpa using List.find?_some hfind
      rw [List.inj_on_of_nodup_map a.nodup (List.mem_of_find?_eq_some hfind) hs hid]
  · exact List.mem_of_find?_eq_some

theorem load_insert (a : Archive) (s : Snapshot) :
    (a.insert s).load = Function.update a.load s.trail.id (some s) := by
  funext trail
  by_cases h : trail = s.trail.id
  · rw [h, load_insert_self, Function.update_self]
  · rw [load_insert_of_ne a h, Function.update_of_ne h]

theorem load_erase (a : Archive) (trail : Id) :
    (a.erase trail).load = Function.update a.load trail none := by
  funext other
  by_cases h : other = trail
  · rw [h, load_erase_self, Function.update_self]
  · rw [load_erase_of_ne a h, Function.update_of_ne h]

theorem lists_list (a : Archive) (status : Option Trail.Status) :
    Shelf.Lists a.load status (a.list status) where
  sorted := Trail.pairwise_listing (List.pairwise_map.1 ((List.map_map (l := a.snapshots)).symm ▸ a.nodup))
  mem t := by
    unfold list
    rw [Trail.mem_listing, List.mem_map]
    refine and_congr_left fun _ => exists_congr fun s => ?_
    rw [mem_snapshots_iff]
    constructor
    · rintro ⟨hs, rfl⟩
      exact ⟨hs, rfl⟩
    · rintro ⟨hs, rfl⟩
      exact ⟨hs, rfl⟩

/-- An archive answers as the shelf of what can be loaded from it. -/
theorem answers_answer (a : Archive) (request : ArchiveRequest) :
    Shelf.Answers a.load request (a.answer request).1 (a.answer request).2.load := by
  cases request with
  | save s =>
    by_cases hfinal : ∃ present, a.load s.trail.id = some present ∧ present.isFinal
    · obtain ⟨present, hload, hfinal⟩ := hfinal
      have hsave : a.save s = .error (.completed s.trail.id) := by
        simp only [save, hload, hfinal, if_true]
      simp only [answer, hsave]
      exact .refused hload hfinal
    · have hfree : ∀ present, a.load s.trail.id = some present → ¬present.isFinal := fun present hload hf =>
        hfinal ⟨present, hload, hf⟩
      have hsave : a.save s = .ok (a.insert s) := by
        unfold save
        split
        · next present hload => rw [if_neg (hfree present hload)]
        · rfl
      simp only [answer, hsave, load_insert]
      exact .saved hfree
  | load trail => exact .loaded
  | list status => exact .listed (a.lists_list status)
  | delete trail =>
    unfold answer delete
    dsimp only
    rw [load_erase]
    exact .deleted

end Archive

end Provenance

import Mathlib.Data.List.Induction
import Provenance.Proofs.Archive.Shelf
import Provenance.Proofs.Json.Reparse

/-!
# Folders answer as archives do

A folder that begins empty holds a file for every snapshot of a shelf, named for its trail, and no other file
(`Folder.Represents`). So it answers every sequence of requests as an archive does, if snapshots are read back
from their texts: the names of two trails differ, each says that it holds a document, and none is that of a
draft. Main statement: `Archive.replies_iff`.
-/

namespace Provenance

namespace Text.Digits

theorem hexValue?_lt {c : Char} {d : Nat} (h : hexValue? c = some d) : d < 16 := by
  unfold hexValue? at h
  grind

/-- Hexadecimal digits stand for a number that they have room for. -/
theorem readHex?_lt {digits : List Char} {n : Nat} (h : readHex? digits = some n) :
    n < Nat.pow 16 digits.length := by
  induction digits using List.reverseRecOn generalizing n with
  | nil =>
    cases h
    decide
  | append_singleton digits c ih =>
    unfold readHex? at h ih
    rw [List.foldlM_append] at h
    obtain ⟨m, hm, h⟩ := Option.bind_eq_some_iff.1 h
    obtain ⟨_, hlast, h⟩ := Option.bind_eq_some_iff.1 h
    cases h
    obtain ⟨d, hd, rfl⟩ := Option.map_eq_some_iff.1 hlast
    have hm := ih hm
    have hd := hexValue?_lt hd
    rw [List.length_append, List.length_singleton]
    change 16 * m + d < Nat.pow 16 digits.length * 16
    omega

end Text.Digits

namespace Id

variable {id id' : Id}

theorem lt_of_ofDigits? {digits : List Char} (h : ofDigits? digits = some id) :
    id.number < 1 <<< 128 := by
  unfold ofDigits? at h
  split at h
  · next hlength =>
    obtain ⟨n, hn, rfl⟩ := Option.map_eq_some_iff.1 h
    have hlt := Text.Digits.readHex?_lt hn
    rw [hlength] at hlt
    exact Nat.lt_of_lt_of_eq hlt (by decide)
  · cases h

/-- An identity that was read has 128 bits. -/
theorem lt_of_read? {text : String} (h : read? text = some id) : id.number < 1 <<< 128 := by
  unfold read? readChars? at h
  split at h
  · exact lt_of_ofDigits? h
  · split at h
    · obtain ⟨digits, -, h⟩ := Option.bind_eq_some_iff.1 h
      exact lt_of_ofDigits? h
    · split at h
      · obtain ⟨digits, -, h⟩ := Option.bind_eq_some_iff.1 h
        exact lt_of_ofDigits? h
      · obtain ⟨_, -, h⟩ := Option.bind_eq_some_iff.1 h
        obtain ⟨digits, -, h⟩ := Option.bind_eq_some_iff.1 h
        exact lt_of_ofDigits? h

theorem text_inj (h : id.number < 1 <<< 128) (h' : id'.number < 1 <<< 128) (heq : id.text = id'.text) :
    id = id' := by
  have hread := read?_text h
  rw [heq, read?_text h'] at hread
  exact (Option.some.inj hread).symm

end Id

theorem Id.lt_of_ofDocument? {v : Json} {id : Id} (h : Id.ofDocument? v = some id) :
    id.number < 1 <<< 128 := by
  obtain ⟨text, -, h⟩ := Option.bind_eq_some_iff.1 h
  exact lt_of_read? h

theorem Trail.id_lt_of_read? {depth : Nat} {v : Json} {t : Trail} (h : Trail.read? depth v = some t) :
    t.id.number < 1 <<< 128 := by
  unfold Trail.read? at h
  obtain ⟨fields, -, h⟩ := Option.bind_eq_some_iff.1 h
  split at h
  · -- The end of the trail is read first, in one of three ways; then come the parts in their order.
    simp only [Option.bind_eq_bind, Option.bind_some] at h
    have hid : ∃ v : Json, Id.ofDocument? v = some t.id := by
      split at h
      · simp only [Option.bind_eq_some_iff, Option.some.injEq] at h
        grind
      · split at h
        · simp only [Option.bind_eq_some_iff, Option.some.injEq] at h
          grind
        · simp only [Option.bind_eq_some_iff, Option.some.injEq] at h
          grind
    obtain ⟨_, hid⟩ := hid
    exact Id.lt_of_ofDocument? hid
  · cases h

theorem Snapshot.id_lt_of_ofText? {text : String} {s : Snapshot} (h : ofText? text = some s) :
    s.trail.id.number < 1 <<< 128 := by
  obtain ⟨v, -, h⟩ := Option.bind_eq_some_iff.1 h
  unfold read? at h
  obtain ⟨fields, -, h⟩ := Option.bind_eq_some_iff.1 h
  split at h
  · obtain ⟨trail, htrail, h⟩ := Option.bind_eq_some_iff.1 h
    simp only [Option.bind_eq_bind, Option.bind_eq_some_iff, Option.some.injEq] at h
    obtain ⟨_, -, _, -, _, -, _, -, _, -, rfl⟩ := h
    exact Trail.id_lt_of_read? htrail
  · cases h

namespace Folder

variable {f f' : Folder} {m : Shelf} {trail other : Id} {s : Snapshot} {name : String}
  {file : String × String}

/-! ## Names of files -/

theorem toList_fileOf (trail : Id) : (fileOf trail).toList = trail.chars ++ ".json".toList := by
  rw [fileOf, String.toList_append, Id.text, String.toList_ofList]

theorem toList_draftOf (trail : Id) : (draftOf trail).toList = trail.chars ++ ".json.tmp".toList := by
  rw [draftOf, String.toList_append, toList_fileOf, List.append_assoc]
  rfl

theorem fileOf_inj (h : trail.number < 1 <<< 128) (h' : other.number < 1 <<< 128)
    (heq : fileOf trail = fileOf other) : trail = other := by
  refine Id.text_inj h h' (congrArg String.ofList ?_)
  have hlist := congrArg String.toList heq
  rw [toList_fileOf, toList_fileOf] at hlist
  exact List.append_cancel_right hlist

theorem fileOf_ne_draftOf (trail other : Id) : fileOf trail ≠ draftOf other := by
  intro heq
  have hlast := congrArg (fun name => name.toList.getLast?) heq
  have hfile : ".json".toList.getLast? = some 'n' := by decide
  have hdraft : ".json.tmp".toList.getLast? = some 'p' := by decide
  simp only [toList_fileOf, toList_draftOf, List.getLast?_append, hfile, hdraft, Option.some_or] at hlast
  exact absurd hlast (by decide)

theorem isJsonFile_fileOf (trail : Id) : isJsonFile (fileOf trail) = true := by
  have hchars : trail.chars.reverse ≠ [] := by
    rw [ne_eq, List.reverse_eq_nil_iff]
    intro hnil
    have hlength := Id.group_length (Text.Digits.writeHex_length 32 trail.number)
    rw [show Id.group _ = trail.chars from rfl, hnil] at hlength
    cases hlength
  obtain ⟨c, cs, hcs⟩ := List.exists_cons_of_ne_nil hchars
  have hreverse : (fileOf trail).toList.reverse = 'n' :: 'o' :: 's' :: 'j' :: '.' :: c :: cs := by
    rw [toList_fileOf, List.reverse_append, hcs]
    rfl
  unfold isJsonFile extension?
  rw [hreverse]
  simp [List.takeWhile]

/-! ## Folders and shelves -/

/-- The files of a folder are those of the snapshots on a shelf, which are read back from their texts. -/
structure Represents (f : Folder) (m : Shelf) : Prop where
  read : ∀ trail, trail.number < 1 <<< 128 → f.read? (fileOf trail) = (m trail).map Snapshot.text
  files : ∀ file ∈ f.files, ∃ s, m s.trail.id = some s ∧ file = (fileOf s.trail.id, s.text)
  kept : ∀ trail s, m trail = some s → s.trail.id = trail ∧ Snapshot.ofText? s.text = some s

/-- The snapshots that the files of a folder hold. -/
def snapshots (f : Folder) : List Snapshot :=
  ((f.files.filter fun file => isJsonFile file.1).map Prod.snd).filterMap Snapshot.ofText?

theorem mem_files_remove : file ∈ (f.remove name).files ↔ file ∈ f.files ∧ file.1 ≠ name := by
  simp [remove]

theorem mem_files_of_read? {text : String} (h : f.read? name = some text) : (name, text) ∈ f.files := by
  obtain ⟨before, after, hfiles, -⟩ := List.lookup_eq_some_iff.1 h
  rw [hfiles]
  exact List.mem_append_right _ List.mem_cons_self

theorem represents_empty : empty.Represents Shelf.empty where
  read _ _ := rfl
  files _ hfile := absurd hfile List.not_mem_nil
  kept _ _ hs := nomatch hs

namespace Represents

variable (h : f.Represents m)
include h

theorem id_lt (hs : m trail = some s) : trail.number < 1 <<< 128 := by
  obtain ⟨rfl, hkept⟩ := h.kept trail s hs
  exact Snapshot.id_lt_of_ofText? hkept

theorem load (htrail : trail.number < 1 <<< 128) : f.load trail = .ok (m trail) := by
  unfold Folder.load
  rw [h.read trail htrail]
  cases hs : m trail with
  | none => rfl
  | some s =>
    rw [Option.map_some]
    dsimp only
    rw [(h.kept trail s hs).2]

theorem insert (hs : Snapshot.ofText? s.text = some s) :
    (f.insert s).Represents (Function.update m s.trail.id (some s)) := by
  have hid := Snapshot.id_lt_of_ofText? hs
  constructor
  · intro trail htrail
    by_cases heq : trail = s.trail.id
    · rw [heq, Function.update_self, Option.map_some]
      exact read?_write_self _ _ _
    · have hname : fileOf trail ≠ fileOf s.trail.id := fun hname => heq (fileOf_inj htrail hid hname)
      rw [Function.update_of_ne heq, ← h.read trail htrail]
      unfold Folder.insert
      rw [read?_write_of_ne _ _ hname, read?_remove_of_ne _ (fileOf_ne_draftOf _ _)]
  · intro file hfile
    rcases List.mem_cons.1 hfile with rfl | hfile
    · exact ⟨s, Function.update_self .., rfl⟩
    · obtain ⟨hfile, hname⟩ := mem_files_remove.1 hfile
      obtain ⟨s', hs', rfl⟩ := h.files file (mem_files_remove.1 hfile).1
      refine ⟨s', ?_, rfl⟩
      rw [Function.update_of_ne, hs']
      exact fun heq => hname (congrArg fileOf heq)
  · intro trail s' hs'
    by_cases heq : trail = s.trail.id
    · rw [heq, Function.update_self] at hs'
      cases hs'
      exact ⟨heq.symm, hs⟩
    · rw [Function.update_of_ne heq] at hs'
      exact h.kept trail s' hs'

theorem remove (htrail : trail.number < 1 <<< 128) :
    (f.remove (fileOf trail)).Represents (Function.update m trail none) := by
  constructor
  · intro other hother
    by_cases heq : other = trail
    · rw [heq, Function.update_self, read?_remove_self]
      rfl
    · rw [Function.update_of_ne heq, ← h.read other hother]
      exact read?_remove_of_ne _ fun hname => heq (fileOf_inj hother htrail hname)
  · intro file hfile
    obtain ⟨hfile, hname⟩ := mem_files_remove.1 hfile
    obtain ⟨s, hs, rfl⟩ := h.files file hfile
    refine ⟨s, ?_, rfl⟩
    rw [Function.update_of_ne, hs]
    exact fun heq => hname (congrArg fileOf heq)
  · intro other s hs
    by_cases heq : other = trail
    · rw [heq, Function.update_self] at hs
      cases hs
    · rw [Function.update_of_ne heq] at hs
      exact h.kept other s hs

theorem mem_files_iff :
    file ∈ f.files ↔ ∃ s, m s.trail.id = some s ∧ file = (fileOf s.trail.id, s.text) := by
  constructor
  · exact h.files file
  · rintro ⟨s, hs, rfl⟩
    refine mem_files_of_read? ?_
    rw [h.read _ (h.id_lt hs), hs]
    rfl

theorem mem_snapshots_iff :
    s ∈ f.snapshots ↔ m s.trail.id = some s := by
  unfold snapshots
  simp only [List.mem_filterMap, List.mem_map, List.mem_filter, h.mem_files_iff]
  constructor
  · rintro ⟨_, ⟨_, ⟨⟨s', hs', rfl⟩, -⟩, rfl⟩, hread⟩
    rw [(h.kept _ s' hs').2] at hread
    cases hread
    exact hs'
  · intro hs
    exact ⟨s.text, ⟨_, ⟨⟨s, hs, rfl⟩, isJsonFile_fileOf _⟩, rfl⟩, (h.kept _ s hs).2⟩

/-- No two files hold snapshots of one trail. -/
theorem pairwise_snapshots : f.snapshots.Pairwise fun s s' => s.trail.id ≠ s'.trail.id := by
  unfold snapshots
  rw [List.pairwise_filterMap, List.pairwise_map]
  refine List.Pairwise.filter _ ((List.pairwise_map.1 f.nodup).imp_of_mem ?_)
  intro file file' hfile hfile' hname s hs s' hs' hid
  obtain ⟨t, ht, rfl⟩ := h.files file hfile
  obtain ⟨t', ht', rfl⟩ := h.files file' hfile'
  cases (h.kept _ t ht).2.symm.trans hs
  cases (h.kept _ t' ht').2.symm.trans hs'
  exact hname (congrArg fileOf hid)

theorem lists_list (status : Option Trail.Status) : m.Lists status (f.list status) where
  sorted := Trail.pairwise_listing (List.pairwise_map.2 h.pairwise_snapshots)
  mem t := by
    rw [show f.list status = Trail.listing status (f.snapshots.map Snapshot.trail) from rfl,
      Trail.mem_listing, List.mem_map]
    refine and_congr_left fun _ => exists_congr fun s => ?_
    rw [h.mem_snapshots_iff]
    constructor
    · rintro ⟨hs, rfl⟩
      exact ⟨hs, rfl⟩
    · rintro ⟨hs, rfl⟩
      exact ⟨hs, rfl⟩

/-- A folder answers as the shelf that it represents. -/
theorem answers_answer {request : ArchiveRequest} (hrequest : request.Admissible) :
    ∃ m', m.Answers request (f.answer request).1 m' ∧ (f.answer request).2.Represents m' := by
  cases request with
  | save s =>
    have hload := h.load (Snapshot.id_lt_of_ofText? hrequest)
    by_cases hfinal : ∃ present, m s.trail.id = some present ∧ present.isFinal
    · obtain ⟨present, hpresent, hfinal⟩ := hfinal
      have hsave : f.save s = .error (.completed s.trail.id) := by
        unfold Folder.save
        rw [hload, hpresent]
        exact if_pos hfinal
      refine ⟨m, ?_, ?_⟩ <;> simp only [answer, hsave]
      · exact .refused hpresent hfinal
      · exact h
    · have hfree : ∀ present, m s.trail.id = some present → ¬present.isFinal := fun present hm hf =>
        hfinal ⟨present, hm, hf⟩
      have hsave : f.save s = .ok (f.insert s) := by
        unfold Folder.save
        rw [hload]
        cases hm : m s.trail.id with
        | none => rfl
        | some present => exact if_neg (hfree present hm)
      refine ⟨Function.update m s.trail.id (some s), ?_, ?_⟩ <;> simp only [answer, hsave]
      · exact .saved hfree
      · exact h.insert hrequest
  | load trail =>
    refine ⟨m, ?_, ?_⟩ <;> simp only [answer, h.load hrequest]
    · exact .loaded
    · exact h
  | list status => exact ⟨m, .listed (h.lists_list status), h⟩
  | delete trail =>
    refine ⟨_, ?_, h.remove hrequest⟩
    unfold answer delete
    dsimp only
    rw [h.read trail hrequest, Option.isSome_map]
    exact .deleted

end Represents

end Folder

/-! ## Runs -/

/-- What answers requests as shelves do, if it represents one and the requests are admissible. -/
def ArchiveRequest.Follows {σ : Type} (answer : σ → ArchiveRequest → ArchiveAnswer × σ)
    (represents : σ → Shelf → Prop) : Prop :=
  ∀ a m request, represents a m → request.Admissible →
    ∃ m', m.Answers request (answer a request).1 m' ∧ represents (answer a request).2 m'

namespace ArchiveRequest.Follows

variable {σ : Type} {answer : σ → ArchiveRequest → ArchiveAnswer × σ}
  {represents : σ → Shelf → Prop} {a : σ} {m : Shelf} {requests : List ArchiveRequest} {s : Snapshot}

theorem replies (h : Follows answer represents) (hr : represents a m)
    (hrequests : ∀ request ∈ requests, request.Admissible) :
    m.Replies requests (answers answer a requests) := by
  induction requests generalizing a m with
  | nil => exact .nil
  | cons request requests ih =>
    obtain ⟨m', hanswer, hr'⟩ := h a m request hr (hrequests request List.mem_cons_self)
    exact .cons hanswer (ih hr' fun request hrequest => hrequests request (List.mem_cons_of_mem _ hrequest))

theorem represents_after (h : Follows answer represents) (hr : represents a m)
    (hrequests : ∀ request ∈ requests, request.Admissible) :
    ∃ m', represents (after answer a requests) m' := by
  induction requests generalizing a m with
  | nil => exact ⟨m, hr⟩
  | cons request requests ih =>
    obtain ⟨m', -, hr'⟩ := h a m request hr (hrequests request List.mem_cons_self)
    exact ih hr' fun request hrequest => hrequests request (List.mem_cons_of_mem _ hrequest)

/-- A final snapshot outlives every run that does not delete its trail. -/
theorem keeps (h : Follows answer represents) (hr : represents a m) (hs : m s.trail.id = some s)
    (hfinal : s.isFinal) (hrequests : ∀ request ∈ requests, request.Admissible)
    (hdelete : .delete s.trail.id ∉ requests) :
    ∃ m', represents (after answer a requests) m' ∧ m' s.trail.id = some s := by
  induction requests generalizing a m with
  | nil => exact ⟨m, hr, hs⟩
  | cons request requests ih =>
    obtain ⟨m', hanswer, hr'⟩ := h a m request hr (hrequests request List.mem_cons_self)
    rw [List.mem_cons, not_or] at hdelete
    exact ih hr' (hanswer.keeps hs hfinal (Ne.symm hdelete.1))
      (fun request hrequest => hrequests request (List.mem_cons_of_mem _ hrequest)) hdelete.2

/-- What was saved as final is loaded until its trail is deleted. -/
theorem load_of_saved (h : Follows answer represents) (hr : represents a m)
    {before between : List ArchiveRequest}
    (hbefore : ∀ request ∈ before, request.Admissible) (hsave : (ArchiveRequest.save s).Admissible)
    (hbetween : ∀ request ∈ between, request.Admissible)
    (hload : (ArchiveRequest.load s.trail.id).Admissible)
    (hsaved : (answer (after answer a before) (.save s)).1 = .saved) (hfinal : s.isFinal)
    (hdelete : .delete s.trail.id ∉ between) :
    (answer (after answer a (before ++ .save s :: between)) (.load s.trail.id)).1 = .loaded (some s) := by
  obtain ⟨m₁, hr₁⟩ := h.represents_after hr hbefore
  obtain ⟨m₂, hanswer, hr₂⟩ := h _ m₁ _ hr₁ hsave
  rw [hsaved] at hanswer
  cases hanswer
  obtain ⟨m₃, hr₃, hs⟩ := h.keeps hr₂ (Function.update_self ..) hfinal hbetween hdelete
  obtain ⟨m₄, hanswer, -⟩ := h _ m₃ _ hr₃ hload
  rw [← hs]
  unfold after at hanswer ⊢
  rw [List.foldl_append, List.foldl_cons]
  generalize (answer _ (.load s.trail.id)).1 = loaded at hanswer ⊢
  cases hanswer
  rfl

end ArchiveRequest.Follows

theorem Archive.follows_answer : ArchiveRequest.Follows Archive.answer fun a m => a.load = m := by
  rintro a _ request rfl -
  exact ⟨_, a.answers_answer request, rfl⟩

theorem Folder.follows_answer : ArchiveRequest.Follows Folder.answer Folder.Represents :=
  fun _ _ _ h hrequest => h.answers_answer hrequest

open ArchiveRequest in
/-- Archives and folders that begin empty answer requests as the shelf without a snapshot does, and so with the
same answers. What either of them saved as final is loaded until its trail is deleted. -/
theorem Archive.replies_iff {requests : List ArchiveRequest}
    (h : ∀ request ∈ requests, request.Admissible) :
    (∀ given, Shelf.Replies .empty requests given ↔ given = answers Archive.answer .empty requests) ∧
    answers Folder.answer .empty requests =
      answers Archive.answer .empty requests ∧
    ∀ before s between, before ++ .save s :: between = requests → s.isFinal →
      .delete s.trail.id ∉ between →
      ((Archive.answer (after Archive.answer .empty before) (.save s)).1 = .saved →
        (Archive.answer (after Archive.answer .empty requests) (.load s.trail.id)).1 = .loaded (some s)) ∧
      ((Folder.answer (after Folder.answer .empty before) (.save s)).1 = .saved →
        (Folder.answer (after Folder.answer .empty requests) (.load s.trail.id)).1 = .loaded (some s)) := by
  have hempty : Archive.empty.load = Shelf.empty := rfl
  have harchive := Archive.follows_answer.replies hempty h
  have hfolder := Folder.follows_answer.replies Folder.represents_empty h
  refine ⟨fun given => ⟨fun hgiven => hgiven.det harchive, ?_⟩, hfolder.det harchive, ?_⟩
  · rintro rfl
    exact harchive
  · rintro before s between rfl hfinal hdelete
    obtain ⟨hbefore, hrest⟩ := List.forall_mem_append.1 h
    obtain ⟨hsave, hbetween⟩ := List.forall_mem_cons.1 hrest
    have hload : (ArchiveRequest.load s.trail.id).Admissible := Snapshot.id_lt_of_ofText? hsave
    constructor
    · intro hsaved
      exact Archive.follows_answer.load_of_saved hempty hbefore hsave hbetween hload hsaved hfinal hdelete
    · intro hsaved
      exact Folder.follows_answer.load_of_saved Folder.represents_empty hbefore hsave hbetween hload hsaved
        hfinal hdelete

namespace Sample

/-- A trail that materialized one value. -/
def archived : Snapshot where
  trail := ⟨⟨7⟩, "shop", .epoch, [], ⟨0⟩, "", .completed, some .epoch⟩
  populated := [⟨⟨8⟩, ⟨7⟩, ⟨1⟩, .database, .epoch⟩]
  rows := [⟨⟨9⟩, ⟨8⟩, 0, .database⟩]
  values := [⟨⟨10⟩, ⟨9⟩, ⟨6⟩, .text "\"north\"", .database⟩]
  edges := []
  failures := []

/-- The same trail before it materialized anything. -/
def unfinished : Snapshot :=
  ⟨⟨⟨7⟩, "shop", .epoch, [], ⟨0⟩, "", .running, none⟩, [], [], [], [], []⟩

theorem ofText?_archived : Snapshot.ofText? archived.text = some archived := by
  have hplain : archived.encode.Plain := by
    simp [Snapshot.encode, archived, Trail.encode, Populated.encode, Row.encode, Value.encode, Id.encode,
      Timestamp.encode, Scalar.encode, Json.leastInt, Json.intBound]
  rw [Snapshot.ofText?, Snapshot.text, hplain.parse?_pretty]
  rfl

theorem ofText?_unfinished : Snapshot.ofText? unfinished.text = some unfinished := by
  have hplain : unfinished.encode.Plain := by
    simp [Snapshot.encode, unfinished, Trail.encode, Id.encode, Timestamp.encode]
  rw [Snapshot.ofText?, Snapshot.text, hplain.parse?_pretty]
  rfl

/-- What is saved of the trail; what is saved after it has ended is refused. -/
def savings : List ArchiveRequest := [.save unfinished, .save archived, .save unfinished, .delete ⟨8⟩]

theorem replies_savings :
    (∀ request ∈ savings, request.Admissible) ∧
    archived.isFinal ∧ .delete archived.trail.id ∉ [ArchiveRequest.save unfinished, .delete ⟨8⟩] ∧
    ArchiveRequest.answers Folder.answer .empty savings =
      [.saved, .saved, .refused (.completed ⟨7⟩), .deleted false] ∧
    (Archive.answer (ArchiveRequest.after Archive.answer .empty savings) (.load ⟨7⟩)).1 =
      .loaded (some archived) := by
  have hsavings : ∀ request ∈ savings, request.Admissible := by
    simp only [savings, List.forall_mem_cons, List.not_mem_nil, false_imp_iff, implies_true, and_true]
    exact ⟨ofText?_unfinished, ofText?_archived, ofText?_unfinished, (by decide : 8 < 1 <<< 128)⟩
  have hdelete : .delete archived.trail.id ∉ [ArchiveRequest.save unfinished, .delete ⟨8⟩] := by
    simp [archived]
  obtain ⟨-, hfolder, hkept⟩ := Archive.replies_iff hsavings
  refine ⟨hsavings, rfl, hdelete, hfolder.trans ?_,
    (hkept [.save unfinished] archived _ rfl rfl hdelete).1 rfl⟩
  rfl

end Sample

end Provenance

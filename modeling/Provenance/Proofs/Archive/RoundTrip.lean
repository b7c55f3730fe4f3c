import Provenance.Proofs.Archive.Folder
import Provenance.Proofs.Numbering
import Provenance.Proofs.Snapshot.Reread

/-!
# What a folder gives back

A folder writes the text of a snapshot and does not read it again. What it saved of a run it gives back
(`Folder.Keeps`) if the context of the run leaves room for the two records that it stands in. If it nests
deeper, the run is saved all the same, but its file stands in the way of everything (`Folder.Loses`): the run
is neither loaded nor listed nor saved again, though an archive in memory has it. Main statement:
`Run.Reachable.keeps_or_loses`.
-/

namespace Provenance

namespace Folder

variable {f f' : Folder} {s s' : Snapshot} {name text : String} {trail : Id}

/-- A folder gives a snapshot back: it is loaded, its trail is listed, and another snapshot of the trail may take
its place unless it is final. -/
structure Keeps (f : Folder) (s : Snapshot) : Prop where
  load : ∃ s', f.load s.trail.id = .ok (some s') ∧ s.Equal s'
  list : s.trail ∈ f.list none
  save : s.isFinal = false → ∀ s', s'.trail.id = s.trail.id → ∃ f', f.save s' = .ok f'

/-- A folder has a file for a snapshot that it cannot read: nothing is loaded, what is listed is what would be
without the file, and no snapshot of the trail can be saved. -/
structure Loses (f : Folder) (s : Snapshot) : Prop where
  load : f.load s.trail.id = .error (.unparsable (fileOf s.trail.id))
  list : ∀ status, f.list status = (f.remove (fileOf s.trail.id)).list status
  save : ∀ s', s'.trail.id = s.trail.id → f.save s' = .error (.unparsable (fileOf s.trail.id))

theorem Loses.not_keeps (h : f.Loses s) : ¬f.Keeps s := by
  rintro ⟨⟨s', hload, -⟩, -, -⟩
  cases h.load.symm.trans hload

/-! ## The file of a trail -/

theorem load_of_readable (hfile : f.read? (fileOf trail) = some text) (hread : Snapshot.ofText? text = some s) :
    f.load trail = .ok (some s) := by
  unfold load
  rw [hfile]
  dsimp only
  rw [hread]

theorem load_of_unreadable (hfile : f.read? (fileOf trail) = some text) (hread : Snapshot.ofText? text = none) :
    f.load trail = .error (.unparsable (fileOf trail)) := by
  unfold load
  rw [hfile]
  dsimp only
  rw [hread]

theorem trail_mem_list (hfile : f.read? (fileOf trail) = some text) (hread : Snapshot.ofText? text = some s) :
    s.trail ∈ f.list none := by
  have hmem : s ∈ f.snapshots := List.mem_filterMap.2 ⟨text, List.mem_map.2
    ⟨_, List.mem_filter.2 ⟨mem_files_of_read? hfile, isJsonFile_fileOf trail⟩, rfl⟩, hread⟩
  exact Trail.mem_listing.2 ⟨List.mem_map_of_mem hmem, rfl⟩

/-- A file that holds no snapshot has no part in what is listed. -/
theorem list_remove (h : ∀ file ∈ f.files, file.1 = name → Snapshot.ofText? file.2 = none)
    (status : Option Trail.Status) : (f.remove name).list status = f.list status := by
  have hsnapshots : (f.remove name).snapshots = f.snapshots := by
    unfold snapshots remove
    simp only [List.filterMap_map, List.filterMap_filter]
    refine List.filterMap_congr fun file hfile => ?_
    by_cases hname : file.1 = name
    · simp [hname, h file hfile hname]
    · simp [hname]
  exact congrArg (fun snapshots => Trail.listing status (snapshots.map Snapshot.trail)) hsnapshots

/-! ## After a snapshot was saved -/

theorem eq_insert_of_save (h : f.save s = .ok f') : f' = f.insert s := by
  unfold save at h
  obtain ⟨present, -, h⟩ := Except.bind_eq_ok_iff.1 h
  cases present with
  | none => exact (Except.ok.inj h).symm
  | some present =>
    dsimp only at h
    split at h
    · cases h
    · exact (Except.ok.inj h).symm

theorem read?_insert (f : Folder) (s : Snapshot) : (f.insert s).read? (fileOf s.trail.id) = some s.text :=
  read?_write_self ..

theorem save_empty (s : Snapshot) : empty.save s = .ok (empty.insert s) := rfl

theorem list_remove_insert_empty (s : Snapshot) (status : Option Trail.Status) :
    ((empty.insert s).remove (fileOf s.trail.id)).list status = [] := by
  have hfiles : ((empty.insert s).remove (fileOf s.trail.id)).files = [] := by simp [insert, write, remove, empty]
  unfold list
  rw [hfiles]
  simp [Trail.listing]

/-- A snapshot whose text is read as an equal one is given back once it was saved. -/
theorem keeps_of_save (h : f.save s = .ok f') (hread : Snapshot.ofText? s.text = some s') (hequal : s.Equal s') :
    f'.Keeps s := by
  cases eq_insert_of_save h
  have hload := load_of_readable (f.read?_insert s) hread
  refine ⟨⟨s', hload, hequal⟩, hequal.trail ▸ trail_mem_list (f.read?_insert s) hread, fun hfinal other hid => ?_⟩
  have hopen : s'.isFinal = false := by
    rw [← hfinal]
    unfold Snapshot.isFinal
    rw [hequal.trail]
  refine ⟨(f.insert s).insert other, ?_⟩
  unfold save
  rw [hid, hload]
  change (if s'.isFinal = true then _ else _) = _
  rw [hopen]
  rfl

/-- A snapshot whose text is not read is lost once it was saved. -/
theorem loses_of_save (h : f.save s = .ok f') (hread : Snapshot.ofText? s.text = none) : f'.Loses s := by
  cases eq_insert_of_save h
  have hload := load_of_unreadable (f.read?_insert s) hread
  refine ⟨hload, fun status => (list_remove (fun file hfile hname => ?_) status).symm, fun other hid => ?_⟩
  · rcases List.mem_cons.1 hfile with rfl | hfile
    · exact hread
    · exact absurd hname (mem_files_remove.1 hfile).2
  · unfold save
    rw [hid, hload]
    rfl

end Folder

/-- An archive in memory reads nothing: it saves every snapshot that takes no final one's place. -/
theorem Archive.save_of_open {a : Archive} {s : Snapshot}
    (hopen : ∀ present, a.load s.trail.id = some present → present.isFinal = false) :
    a.save s = .ok (a.insert s) := by
  unfold save
  cases hload : a.load s.trail.id with
  | none => rfl
  | some present => exact if_neg (hopen present hload ▸ Bool.false_ne_true)

/-! ## Runs -/

namespace Run

variable {r : Run}

theorem context_after (r : Run) (call : Call) :
    (r.after call).state.trail.context = r.state.trail.context := by
  rcases r.trail_after call with htrail | ⟨status, now, htrail⟩
  · rw [htrail]
  · obtain ⟨_, _, heq⟩ := r.state.trail.finish_eq status now
    rw [htrail, heq]

theorem trail_finish (r : Run) : r.finish.trail = r.state.trail.finish .completed r.state.now := rfl

theorem context_finish (r : Run) : r.finish.trail.context = r.state.trail.context := by
  obtain ⟨_, _, heq⟩ := r.state.trail.finish_eq .completed r.state.now
  rw [trail_finish, heq]

/-- The identities that a run hands over lie below the first one that is free. -/
theorem Reachable.below_finish (h : r.Reachable) : r.finish.Below r.state.nextId := by
  obtain ⟨hwf, cs, hmade⟩ := h.exists_madeOf
  have hnumbered := h.numbered
  have hsound := hmade.sound hwf
  have hidentified := hmade.identified hwf
  have hknown : ∀ e ∈ knownEntities r.setup.catalog r.state.store, e.id.number < r.state.nextId :=
    fun e he => hmade.id_lt_of_known hwf he
  obtain ⟨_, _, htrail⟩ := r.state.trail.finish_eq .completed r.state.now
  have hpopulated : ∀ x ∈ r.state.store.extents, x.populated.id.number < r.state.nextId :=
    fun x hx => hknown _ (mem_knownEntities_of_extent hx List.mem_cons_self)
  have hrow : ∀ row ∈ r.state.store.rows, row.id.number < r.state.nextId :=
    fun row hr => hknown _ (row_mem_knownEntities hr)
  constructor
  case trail =>
    rw [trail_finish, htrail]
    exact hnumbered.trail
  case catalog =>
    rw [trail_finish, htrail]
    exact hnumbered.described ▸ hnumbered.catalog
  case populated =>
    intro p hp
    have howner := hnumbered.populated p hp
    obtain ⟨x, hx, rfl⟩ := List.mem_map.1 hp
    obtain ⟨c, hc, rfl⟩ := hmade.exists_of_mem_extents hx
    refine ⟨hpopulated _ hx, howner ▸ hnumbered.trail, ?_⟩
    rw [(hmade.history.populates hc).table]
    exact hmade.above _ (Catalog.table_entity_mem (hmade.history.known hc))
  case rows =>
    intro row hr
    obtain ⟨x, hx, hr'⟩ := List.mem_flatMap.1 hr
    exact ⟨hrow row hr, hsound.populated_of_mem_rows hx hr' ▸ hpopulated x hx⟩
  case values =>
    intro v hv
    obtain ⟨x, hx, hv'⟩ := List.mem_flatMap.1 hv
    obtain ⟨row, hr, hvrow⟩ := hsound.row_of_mem_values hx hv'
    obtain ⟨c, hc, rfl⟩ := hmade.exists_of_mem_extents hx
    obtain ⟨_, hgrounded⟩ := hmade.history.grounded hwf hc
    obtain ⟨col, hcol, hid⟩ := hgrounded.columns _ (hsound.column_of_mem_values hx hv')
    refine ⟨hknown _ (value_mem_knownEntities hv), hvrow ▸ hrow row (List.mem_flatMap.2 ⟨_, hx, hr⟩), ?_⟩
    rw [← hid, ← col.entity_id]
    exact hmade.above _ (Catalog.column_entity_mem (Catalog.mem_columnsOf.1 hcol).1)
  case edges =>
    intro edge hedge
    exact ⟨hknown _ (hidentified.owners edge hedge), hknown _ (hidentified.targets edge hedge)⟩
  case failures =>
    intro f hf
    obtain ⟨t, ht, hentity, -⟩ := hmade.failures f hf
    rw [hentity]
    exact hmade.above _ (Catalog.table_entity_mem ht)

/-- What a run tells can be written down: its identities have 128 bits and the numbers of its rows 64, and its
context is made of plain values, the fields of every record in it in the order of their names. -/
structure Writable (r : Run) : Prop where
  ids : r.state.nextId ≤ 1 <<< 128
  rows : ∀ row ∈ r.state.store.rows, row.number < 1 <<< 64
  plain : (Json.object r.state.trail.context).Plain
  sorted : (Json.object r.state.trail.context).sorted = .object r.state.trail.context

theorem Reachable.representable_finish (h : r.Reachable) (hwritable : r.Writable) : r.finish.Representable := by
  refine ⟨h.below_finish.mono hwritable.ids, hwritable.rows, ?_, ?_⟩
  · rw [context_finish]
    exact hwritable.plain
  · rw [context_finish]
    exact hwritable.sorted

theorem Reachable.ofText?_finish (h : r.Reachable) (hwritable : r.Writable) : Snapshot.ofText? r.finish.text =
    if (Json.object r.state.trail.context).nesting + 2 ≤ Json.depthLimit then some r.finish.unsigned
    else none := by
  rw [(h.representable_finish hwritable).ofText?_text, context_finish]

/-- A folder has lost what it saved of a run whose context nests too deep. -/
theorem Reachable.loses_of_save (h : r.Reachable) (hwritable : r.Writable) {f f' : Folder}
    (saved : f.save r.finish = .ok f')
    (deep : Json.depthLimit < (Json.object r.state.trail.context).nesting + 2) : f'.Loses r.finish := by
  refine Folder.loses_of_save saved ?_
  rw [h.ofText?_finish hwritable, if_neg (Nat.not_le.2 deep)]

/-- What a folder saved of a run it gives back if the context of the run leaves room for the two records that it
stands in. What it saved of a run with a context that nests deeper it has lost: the run cannot be loaded, is
not listed and cannot be saved again. -/
theorem Reachable.keeps_or_loses (h : r.Reachable) (hwritable : r.Writable) {f f' : Folder}
    (saved : f.save r.finish = .ok f') :
    ((Json.object r.state.trail.context).nesting + 2 ≤ Json.depthLimit → f'.Keeps r.finish) ∧
      (Json.depthLimit < (Json.object r.state.trail.context).nesting + 2 → f'.Loses r.finish) := by
  refine ⟨fun hdepth => ?_, h.loses_of_save hwritable saved⟩
  have hread := h.ofText?_finish hwritable
  rw [if_pos hdepth] at hread
  exact Folder.keeps_of_save saved hread r.finish.equal_unsigned

end Run

namespace Sample

/-- Two sales in the north, summed up for what a context says. -/
def runFor (context : List (String × Json)) : Run :=
  Engine.start ⟨catalog, ⟨none, .abort, true, true⟩, .empty⟩ 10 .epoch "run" context data

theorem reachable_runFor (context : List (String × Json)) : (runFor context).Reachable :=
  have hcompiled : schema.compile 0 = .ok catalog := rfl
  .start hcompiled (by decide)

/-- A run over the sales for a quarter is given back as it was saved. -/
theorem keeps_total :
    let context := [("quarter", Json.object [("name", .text "q4"), ("year", .int 2024)])]
    let r := (runFor context).after (.materialize "total")
    r.finish.values.length = 6 ∧ ∃ f, Folder.empty.save r.finish = .ok f ∧ f.Keeps r.finish := by
  intro context r
  have hreachable : r.Reachable := .call (reachable_runFor context) (.materialize "total")
  have hcontext : r.state.trail.context = context := by
    unfold r
    exact Run.context_after ..
  have hwritable : r.Writable := by
    constructor
    case ids | rows => decide +kernel
    case plain =>
      rw [hcontext]
      simp [context, Json.leastInt, Json.intBound]
    case sorted =>
      rw [hcontext]
      rfl
  have hdepth : (Json.object r.state.trail.context).nesting + 2 ≤ Json.depthLimit := by
    rw [hcontext]
    decide
  have hvalues : r.finish.values.length = 6 := by decide +kernel
  have hsaved := Folder.save_empty r.finish
  exact ⟨hvalues, _, hsaved, (Run.Reachable.keeps_or_loses hreachable hwritable hsaved).1 hdepth⟩

/-- Arrays inside each other. -/
def nested : Nat → Json
  | 0 => .null
  | n + 1 => .array [nested n]

theorem nesting_nested (n : Nat) : (nested n).nesting = n := by
  induction n with
  | zero => rfl
  | succ n ih => simp [nested, Json.nesting, Json.nestingOfItems, ih]

theorem plain_nested (n : Nat) : (nested n).Plain := by
  induction n with
  | zero => exact .null
  | succ n ih => simpa [nested] using ih

theorem sorted_nested (n : Nat) : (nested n).sorted = nested n := by
  induction n with
  | zero => rfl
  | succ n ih => simp [nested, Json.sorted, Json.sortedItems, ih]

/-- A run that fails for a context with arrays 125 deep is accepted by a folder, which then can neither load nor
list nor save it. An archive in memory can. -/
theorem loses_nested :
    let context := [("deep", nested 125)]
    let r := (runFor context).after (.execute "loop")
    (r.Reachable ∧ r.Writable ∧ r.finish.isFinal = false) ∧
      (∃ a, Archive.empty.save r.finish = .ok a ∧ a.load r.finish.trail.id = some r.finish ∧
        ∃ a', a.save r.finish = .ok a') ∧
      ∃ f, Folder.empty.save r.finish = .ok f ∧
        f.load r.finish.trail.id = .error (.unparsable (Folder.fileOf r.finish.trail.id)) ∧ f.list none = [] ∧
        f.save r.finish = .error (.unparsable (Folder.fileOf r.finish.trail.id)) ∧ ¬f.Keeps r.finish := by
  intro context r
  have hreachable : r.Reachable := .call (reachable_runFor context) (.execute "loop")
  have hcontext : r.state.trail.context = context := by
    unfold r
    exact Run.context_after ..
  have hwritable : r.Writable := by
    constructor
    case ids | rows => decide +kernel
    case plain =>
      rw [hcontext]
      simp [context, plain_nested]
    case sorted =>
      rw [hcontext]
      simp [context, Json.sorted, Json.sortedFields, Json.sortFields, Json.setField, sorted_nested]
  have hdepth : Json.depthLimit < (Json.object r.state.trail.context).nesting + 2 := by
    rw [hcontext]
    simp [context, Json.nesting, Json.nestingOfFields, nesting_nested, Json.depthLimit]
  have hopen : r.finish.isFinal = false := by decide +kernel
  have hsaved := Folder.save_empty r.finish
  have hloses := hreachable.loses_of_save hwritable hsaved hdepth
  have hshelved : Archive.empty.save r.finish = .ok (Archive.empty.insert r.finish) :=
    Archive.save_of_open fun present hload => absurd hload.symm (Option.some_ne_none present)
  have hload := Archive.load_insert_self .empty r.finish
  have hagain : (Archive.empty.insert r.finish).save r.finish =
      .ok ((Archive.empty.insert r.finish).insert r.finish) :=
    Archive.save_of_open fun _ hpresent => Option.some.inj (hload.symm.trans hpresent) ▸ hopen
  refine ⟨⟨hreachable, hwritable, hopen⟩, ⟨_, hshelved, hload, _, hagain⟩, _, hsaved, hloses.load, ?_,
    hloses.save _ rfl, hloses.not_keeps⟩
  rw [hloses.list, Folder.list_remove_insert_empty]

end Sample

end Provenance

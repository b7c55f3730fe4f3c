import Provenance.Proofs.Initialization.History

/-!
# The invariant of initialization

The store and the log of a state are what a history of commits adds up to, and what the state remembers of
tables agrees with it: those that are initialized were committed, and those that failed were not
(`State.MadeOf`). Asking for tables keeps the history and adds to it
(`Initializes.madeOf`).
-/

namespace Provenance

/-- Two states with the same contents and the same memory of tables. -/
structure State.Same (s s' : State) : Prop where
  store : s.store = s'.store
  log : s.log = s'.log
  initialized : s.initialized = s'.initialized
  failures : s.failures = s'.failures
  nextId : s.nextId = s'.nextId

theorem State.Same.rfl {s : State} : s.Same s := ⟨by rfl, by rfl, by rfl, by rfl, by rfl⟩

theorem State.Same.skip {s : State} : s.skip.Same s := ⟨by rfl, by rfl, by rfl, by rfl, by rfl⟩

/-- A state whose store and log are the commits of a history. -/
structure State.MadeOf (setup : Setup) (s : State) (cs : List Commit) : Prop where
  history : History setup cs
  store : s.store = Commit.storeOf cs
  log : s.log.edges = cs.flatMap fun c => c.draft.edges
  above : ∀ e ∈ setup.catalog.entities, e.id.number < s.nextId
  after : ∀ c ∈ cs, c.draft.extent.idsEnd ≤ s.nextId
  initialized : ∀ id, s.isInitialized id = true ↔
    ∃ c ∈ cs, id ∈ c.table.ids ∨ id ∈ c.draft.extent.columns
  failures : ∀ f ∈ s.failures, ∃ t ∈ setup.catalog.tables,
    f.entity = t.entity ∧ f.table = t.name ∧ ∀ c ∈ cs, c.table ≠ t

theorem State.isInitialized_recordSuccess {s : State} {t : Table} {columns : List Id} {id : Id} :
    (s.recordSuccess t columns).isInitialized id = true ↔
      id ∈ t.ids ∨ id ∈ columns ∨ s.isInitialized id = true := by
  simp [isInitialized, recordSuccess, Table.ids, or_assoc]

namespace State.MadeOf

variable {setup : Setup} {s : State} {cs : List Commit} {t : Table} {d : Draft}

theorem start {trail : Trail} {nextId : Nat} {now : Timestamp}
    (above : ∀ e ∈ setup.catalog.entities, e.id.number < nextId) :
    (State.start trail nextId now).MadeOf setup [] :=
  ⟨.nil, rfl, rfl, above, fun _ hc => absurd hc List.not_mem_nil,
    fun _ => ⟨fun h => absurd h Bool.false_ne_true, fun ⟨_, hc, _⟩ => absurd hc List.not_mem_nil⟩,
    fun _ hf => absurd hf List.not_mem_nil⟩

/-- The trail, the time and the count of what was there already have no part in the history. -/
theorem same {s' : State} (h : s'.MadeOf setup cs) (hs : s.Same s') : s.MadeOf setup cs where
  history := h.history
  store := hs.store.trans h.store
  log := hs.log ▸ h.log
  above := hs.nextId ▸ h.above
  after := hs.nextId ▸ h.after
  initialized id := by
    unfold isInitialized
    rw [hs.initialized]
    exact h.initialized id
  failures := hs.failures ▸ h.failures

theorem skip (h : s.MadeOf setup cs) : s.skip.MadeOf setup cs := h.same .skip

theorem recordFailure (h : s.MadeOf setup cs) (ht : t ∈ setup.catalog.tables)
    (hnew : ∀ c ∈ cs, c.table ≠ t) (e : Error) : (s.recordFailure t e).MadeOf setup cs where
  history := h.history
  store := h.store
  log := h.log
  above := h.above
  after := h.after
  initialized := h.initialized
  failures f hf := by
    rcases List.mem_append.1 hf with hf | hf
    · exact h.failures f hf
    · rw [List.mem_singleton.1 hf]
      exact ⟨t, ht, rfl, rfl, hnew⟩

/-! ## What a state holds was committed -/

theorem mem_extents (h : s.MadeOf setup cs) {c : Commit} (hc : c ∈ cs) :
    c.draft.extent ∈ s.store.extents :=
  h.store ▸ Commit.extent_mem hc

theorem mem_values (h : s.MadeOf setup cs) {c : Commit} (hc : c ∈ cs) {v : Value}
    (hv : v ∈ c.draft.extent.values) : v ∈ s.store.values :=
  List.mem_flatMap.2 ⟨_, h.mem_extents hc, hv⟩

theorem exists_of_mem_extents (h : s.MadeOf setup cs) {x : Extent} (hx : x ∈ s.store.extents) :
    ∃ c ∈ cs, c.draft.extent = x := by
  rw [h.store] at hx
  exact List.mem_map.1 hx

theorem mem_edges_iff (h : s.MadeOf setup cs) {edge : Edge} :
    edge ∈ s.log.edges ↔ ∃ c ∈ cs, edge ∈ c.draft.edges := by
  rw [h.log, List.mem_flatMap]

section

variable (hwf : setup.catalog.WellFormed)
include hwf

theorem sound (h : s.MadeOf setup cs) : s.store.Sound := h.store ▸ h.history.sound hwf

/-- A table is initialized if it was committed, and so is its creation. -/
theorem isInitialized_iff_of_mem_ids (h : s.MadeOf setup cs) (ht : t ∈ setup.catalog.tables) {id : Id}
    (hid : id ∈ t.ids) : s.isInitialized id = true ↔ ∃ c ∈ cs, c.table = t := by
  rw [h.initialized]
  constructor
  · intro ⟨c, hc, hmem⟩
    refine ⟨c, hc, ?_⟩
    rcases hmem with hmem | hmem
    · exact hwf.eq_of_mem_ids (h.history.known hc) ht hmem hid
    · obtain ⟨_, hg⟩ := h.history.grounded hwf hc
      obtain ⟨col, hcol, heq⟩ := hg.columns _ hmem
      exact absurd heq (hwf.id_not_mem_columns ht hid (Catalog.mem_columnsOf.1 hcol).1)
  · intro ⟨c, hc, heq⟩
    exact ⟨c, hc, .inl (heq ▸ hid)⟩

theorem isInitialized_iff (h : s.MadeOf setup cs) (ht : t ∈ setup.catalog.tables) :
    s.isInitialized t.id = true ↔ ∃ c ∈ cs, c.table = t :=
  h.isInitialized_iff_of_mem_ids hwf ht List.mem_cons_self

/-- A column is initialized if it was committed with its table. -/
theorem isInitialized_column_iff (h : s.MadeOf setup cs) (ht : t ∈ setup.catalog.tables) {col : Column}
    (hcol : col ∈ setup.catalog.columnsOf t.id) :
    s.isInitialized col.id = true ↔ ∃ c ∈ cs, c.table = t ∧ col.id ∈ c.draft.extent.columns := by
  obtain ⟨hmem, htable⟩ := Catalog.mem_columnsOf.1 hcol
  rw [h.initialized]
  constructor
  · intro ⟨c, hc, hid⟩
    have hknown := h.history.known hc
    rcases hid with hid | hid
    · exact absurd rfl (hwf.id_not_mem_columns hknown hid hmem)
    · obtain ⟨_, hg⟩ := h.history.grounded hwf hc
      obtain ⟨col', hcol', heq⟩ := hg.columns _ hid
      obtain ⟨hmem', htable'⟩ := Catalog.mem_columnsOf.1 hcol'
      cases List.inj_on_of_nodup_map hwf.nodup_columnIds hmem' hmem heq
      exact ⟨c, hc, hwf.table_eq hknown ht (htable'.symm.trans htable), hid⟩
  · intro ⟨c, hc, _, hid⟩
    exact ⟨c, hc, .inr hid⟩

/-- What something owns was committed with it. -/
theorem ownedBy_of_owns (h : s.MadeOf setup cs) {c : Commit} (hc : c ∈ cs) {e : Entity}
    (he : c.draft.Owns setup.catalog c.table e) :
    s.log.ownedBy e.id = c.draft.edges.filter fun edge => edge.owner.id = e.id := by
  rw [EdgeLog.ownedBy, h.log, List.filter_flatMap,
    List.flatMap_eq_of_key h.history.nodup_tables hc fun c' hc' hne => ?_]
  refine List.filter_eq_nil_iff.2 fun edge hedge hown => hne ?_
  obtain ⟨_, hg⟩ := h.history.grounded hwf hc'
  exact congrArg Commit.table
    (h.history.eq_of_owns hwf hc' hc (hg.owners edge hedge) he (of_decide_eq_true hown))

theorem ownedBy_eq (h : s.MadeOf setup cs) {c : Commit} (hc : c ∈ cs) {e : Entity}
    (he : e ∈ c.draft.extent.entities) :
    s.log.ownedBy e.id = c.draft.edges.filter fun edge => edge.owner.id = e.id :=
  h.ownedBy_of_owns hwf hc (.inr he)

theorem new_of_not_isInitialized (h : s.MadeOf setup cs) (ht : t ∈ setup.catalog.tables)
    (hnew : s.isInitialized t.id = false) : ∀ c ∈ cs, c.table ≠ t := by
  intro c hc heq
  have hinit := (h.isInitialized_iff hwf ht).2 ⟨c, hc, heq⟩
  rw [hnew] at hinit
  cases hinit

/-! ## Committing a table -/

/-- A draft of a new table whose sources are there may follow the history. -/
theorem follows (h : s.MadeOf setup cs) (ht : t ∈ setup.catalog.tables) (hnew : ∀ c ∈ cs, c.table ≠ t)
    (hsources : ∀ e ∈ t.sources, ∃ c ∈ cs, c.table.entity = e)
    (hstage : stage setup s.store (s.opening t) t = .ok d) :
    Commit.Follows setup cs ⟨t, d⟩ ∧ d.extent.populated = s.opening t := by
  have hp : d.extent.populated = s.opening t := (grounded_of_stage hwf ht rfl rfl hstage).2
  refine ⟨⟨ht, hnew, hsources, ?_, ?_, ?_, ?_⟩, hp⟩
  · rw [hp]
    exact h.above
  · rw [hp]
    exact h.after
  · rw [hp]
    exact ⟨rfl, rfl⟩
  · rw [hp, ← h.store]
    exact hstage

/-- A staged draft of a new table is committed as a whole, and the history goes on with it. -/
theorem settle (h : s.MadeOf setup cs) (ht : t ∈ setup.catalog.tables) (hnew : ∀ c ∈ cs, c.table ≠ t)
    (hsources : ∀ e ∈ t.sources, ∃ c ∈ cs, c.table.entity = e) (hfailed : s.failureOf? t.id = none)
    (hstage : stage setup s.store (s.opening t) t = .ok d) :
    Provenance.settle setup t (.ok d) s = (.ok (), (d.committed s).recordSuccess t d.extent.columns) ∧
      ((d.committed s).recordSuccess t d.extent.columns).MadeOf setup (cs ++ [⟨t, d⟩]) := by
  obtain ⟨hfollows, hp⟩ := h.follows hwf ht hnew hsources hstage
  have hhistory : History setup (cs ++ [⟨t, d⟩]) := h.history.snoc hfollows
  have hgrounded : d.Grounded setup.catalog s.store t := h.store ▸ hfollows.grounded hwf
  have hfresh : ∀ edge ∈ d.edges, edge ∉ s.log.edges := by
    intro edge hedge hmem
    rw [h.log] at hmem
    obtain ⟨c, hc, hedge'⟩ := List.mem_flatMap.1 hmem
    have heq := hhistory.eq_of_mem_edges hwf (List.mem_append_left _ hc)
      (List.mem_append_right _ (List.mem_singleton_self _)) hedge' hedge
    exact hnew c hc (congrArg Commit.table heq)
  have hcommit := Draft.commit_of_grounded (h.sound hwf) ht hgrounded hfresh
  have hend : d.extent.idsEnd = d.idsEnd s.nextId := by
    unfold Extent.idsEnd Extent.size Draft.idsEnd
    rw [hp]
    exact (Nat.add_assoc _ _ _).symm
  have hle : s.nextId ≤ d.idsEnd s.nextId := by
    unfold Draft.idsEnd
    omega
  refine ⟨?_, hhistory, ?_, ?_, ?_, ?_, ?_, ?_⟩
  · unfold Provenance.settle
    dsimp only
    rw [hcommit]
  · change s.store.commit d.extent = _
    rw [h.store]
    simp [Commit.storeOf, Store.commit]
  · change s.log.edges ++ d.edges = _
    rw [h.log, List.flatMap_append, List.flatMap_singleton]
  · exact fun e he => Nat.lt_of_lt_of_le (h.above e he) hle
  · intro c hc
    rcases List.mem_append.1 hc with hc | hc
    · exact Nat.le_trans (h.after c hc) hle
    · rw [List.mem_singleton.1 hc]
      exact Nat.le_of_eq hend
  · intro id
    rw [isInitialized_recordSuccess]
    change _ ∨ _ ∨ s.isInitialized id = true ↔ _
    rw [h.initialized]
    simp only [List.mem_append, List.mem_singleton, or_and_right, exists_or, exists_eq_left]
    rw [← or_assoc, or_comm]
  · intro f hf
    obtain ⟨t', ht', hentity, hname, hnew'⟩ := h.failures f hf
    refine ⟨t', ht', hentity, hname, fun c hc => ?_⟩
    rcases List.mem_append.1 hc with hc | hc
    · exact hnew' c hc
    · rw [List.mem_singleton.1 hc]
      rintro rfl
      refine absurd (List.find?_eq_none.1 hfailed f hf) ?_
      simp [hentity, Table.entity]

end

end State.MadeOf

namespace Initializes

variable {setup : Setup} {path es : List Entity} {s : State} {before cs : List Commit} {out : Outcome}

/-- A table that is tried was not committed before, nor while its sources were asked for. -/
theorem new_of_tries {e : Entity} {t : Table} (hwf : setup.catalog.WellFormed)
    (tries : Tries setup path e s t)
    (sources : Initializes setup (path ++ [t.entity]) t.sources s cs out)
    (hs : s.MadeOf setup before) : ∀ c ∈ before ++ cs, c.table ≠ t := by
  intro c hc heq
  rcases List.mem_append.1 hc with hc | hc
  · exact hs.new_of_not_isInitialized hwf (Catalog.mem_of_tableById? tries.known).1 tries.new c hc heq
  · exact sources.apart hc (List.mem_append_right _ (heq ▸ List.mem_singleton_self _))

/-- A table that is tried is not recorded as failed while its sources are asked for. -/
private theorem untried_of_tries {e : Entity} {t : Table} (hwf : setup.catalog.WellFormed)
    (tries : Tries setup path e s t)
    (sources : Initializes setup (path ++ [t.entity]) t.sources s cs out)
    (hmade : out.2.MadeOf setup before) : out.2.failureOf? t.id = none := by
  refine List.find?_eq_none.2 fun f hf hid => ?_
  have hid : f.entity.id = t.id := of_decide_eq_true hid
  obtain ⟨t', ht', hentity, -⟩ := hmade.failures f hf
  rcases sources.failures hf with hf | hf
  · exact List.find?_eq_none.1 tries.untried f hf (decide_eq_true hid)
  · rw [hentity] at hid
    rw [hentity, hwf.table_eq ht' (Catalog.mem_of_tableById? tries.known).1 hid] at hf
    exact hf (List.mem_append_right _ (List.mem_singleton_self _))

/-- The sources of a table are committed if all of its source entities are. -/
private theorem sources_committed {t : Table} {cs : List Commit} (hwf : setup.catalog.WellFormed)
    (ht : t ∈ setup.catalog.tables)
    (h : ∀ e ∈ t.sources, ∃ t', setup.catalog.tableById? e.id = some t' ∧ ∃ c ∈ cs, c.table = t') :
    ∀ e ∈ t.sources, ∃ c ∈ cs, c.table.entity = e := by
  intro e he
  obtain ⟨t', hread, rfl⟩ := hwf.reads_of_mem_sources ht he
  obtain ⟨u, hknown, c, hc, rfl⟩ := h _ he
  cases (hwf.tableById?_of_mem hread.1).symm.trans hknown
  exact ⟨c, hc, rfl⟩

/-- A table that is tried, and whose sources are there, is committed if it can be staged. -/
private theorem settle_of_committed {e : Entity} {t : Table} {s' : State} {d : Draft}
    (hwf : setup.catalog.WellFormed) (tries : Tries setup path e s t)
    (sources : Initializes setup (path ++ [t.entity]) t.sources s cs (.ok (), s'))
    (hs : s.MadeOf setup before) (hmade : s'.MadeOf setup (before ++ cs))
    (hcommitted : ∀ e ∈ t.sources, ∃ t', setup.catalog.tableById? e.id = some t' ∧
      ∃ c ∈ before ++ cs, c.table = t')
    (hstage : stage setup s'.store (s'.opening t) t = .ok d) :
    settle setup t (.ok d) s' = (.ok (), (d.committed s').recordSuccess t d.extent.columns) ∧
      ((d.committed s').recordSuccess t d.extent.columns).MadeOf setup (before ++ cs ++ [⟨t, d⟩]) :=
  have ht := (Catalog.mem_of_tableById? tries.known).1
  hmade.settle hwf ht (new_of_tries hwf tries sources hs) (sources_committed hwf ht hcommitted)
    (untried_of_tries hwf tries sources hmade) hstage

/-- Asking for tables adds the commits to the history, and if nothing fails then all tables that were asked
for are there in the end. -/
theorem madeOf_and_committed (hwf : setup.catalog.WellFormed) (h : Initializes setup path es s cs out)
    (hs : s.MadeOf setup before) :
    out.2.MadeOf setup (before ++ cs) ∧ (out.1 = .ok () → ∀ e ∈ es,
      ∃ t, setup.catalog.tableById? e.id = some t ∧ ∃ c ∈ before ++ cs, c.table = t) := by
  induction h generalizing before with
  | done =>
    rw [List.append_nil]
    exact ⟨hs, fun _ e he => absurd he List.not_mem_nil⟩
  | @present path rest e s t cs out known there next ih =>
    obtain ⟨hmade, hcommitted⟩ := ih hs.skip
    refine ⟨hmade, fun hok e' he' => ?_⟩
    rcases List.mem_cons.1 he' with rfl | he'
    · have ht := (Catalog.mem_of_tableById? known).1
      obtain ⟨c, hc, hct⟩ := (hs.isInitialized_iff hwf ht).1 there
      exact ⟨t, known, c, List.mem_append_left _ hc, hct⟩
    · exact hcommitted hok e' he'
  | dangling | failedBefore | cyclic =>
    rw [List.append_nil]
    exact ⟨hs, nofun⟩
  | @blocked path rest e s s' t cs failure tries sources ih =>
    obtain ⟨hmade, -⟩ := ih hs
    exact ⟨hmade.recordFailure (Catalog.mem_of_tableById? tries.known).1
      (new_of_tries hwf tries sources hs) failure, nofun⟩
  | @refused path rest e s s' s'' t cs failure tries sources settled ih =>
    obtain ⟨hmade, hcommitted⟩ := ih hs
    have ht := (Catalog.mem_of_tableById? tries.known).1
    have hnew := new_of_tries hwf tries sources hs
    cases hstage : stage setup s'.store (s'.opening t) t with
    | error e =>
      rw [hstage] at settled
      cases settled
      exact ⟨hmade.recordFailure ht hnew failure, nofun⟩
    | ok d =>
      have hsettle := (settle_of_committed hwf tries sources hs hmade (hcommitted rfl) hstage).1
      rw [hstage] at settled
      cases hsettle.symm.trans settled
  | @built path rest e s s' s'' t cs cs' d out tries sources staged settled next ihsources ihnext =>
    obtain ⟨hmade, hcommitted⟩ := ihsources hs
    obtain ⟨hsettle, hmade⟩ := settle_of_committed hwf tries sources hs hmade (hcommitted rfl) staged
    cases hsettle.symm.trans settled
    obtain ⟨hmade, hcommitted⟩ := ihnext hmade
    have hall : before ++ cs ++ [⟨t, d⟩] ++ cs' = before ++ (cs ++ ⟨t, d⟩ :: cs') := by simp
    rw [hall] at hmade hcommitted
    refine ⟨hmade, fun hok e' he' => ?_⟩
    rcases List.mem_cons.1 he' with rfl | he'
    · exact ⟨t, tries.known, ⟨t, d⟩, by simp, rfl⟩
    · exact hcommitted hok e' he'

/-- The sources of a table are committed once all of them were asked for. -/
theorem exists_source {t t' : Table} {s' : State} (hwf : setup.catalog.WellFormed)
    (sources : Initializes setup path t.sources s cs (.ok (), s')) (hs : s.MadeOf setup before)
    (hreads : setup.catalog.Reads t t') : ∃ c ∈ before ++ cs, c.table = t' := by
  obtain ⟨u, hknown, hcommitted⟩ := (sources.madeOf_and_committed hwf hs).2 rfl _ hreads.2
  cases (hwf.tableById?_of_mem hreads.1).symm.trans hknown
  exact hcommitted

section

variable {e : Entity} {t : Table} {s' s'' : State} (hwf : setup.catalog.WellFormed)
  (tries : Tries setup path e s t)
  (sources : Initializes setup (path ++ [t.entity]) t.sources s cs (.ok (), s'))
  (hs : s.MadeOf setup before)
include hwf tries sources hs

/-- A table whose sources are there is refused only because it cannot be staged. -/
theorem stage_of_refused {failure : Error}
    (settled : settle setup t (stage setup s'.store (s'.opening t) t) s' = (.error failure, s'')) :
    stage setup s'.store (s'.opening t) t = .error failure ∧ s'' = s'.recordFailure t failure := by
  obtain ⟨hmade, hcommitted⟩ := sources.madeOf_and_committed hwf hs
  cases hstage : stage setup s'.store (s'.opening t) t with
  | error e =>
    rw [hstage] at settled
    cases settled
    exact ⟨rfl, rfl⟩
  | ok d =>
    have hsettle := (settle_of_committed hwf tries sources hs hmade (hcommitted rfl) hstage).1
    rw [hstage] at settled
    cases hsettle.symm.trans settled

/-- A table that can be staged is committed. -/
theorem settle_of_staged {d : Draft} (staged : stage setup s'.store (s'.opening t) t = .ok d) :
    settle setup t (.ok d) s' = (.ok (), (d.committed s').recordSuccess t d.extent.columns) := by
  obtain ⟨hmade, hcommitted⟩ := sources.madeOf_and_committed hwf hs
  exact (settle_of_committed hwf tries sources hs hmade (hcommitted rfl) staged).1

/-- A table that can be staged is committed as it was staged. -/
theorem state_of_built {d : Draft} (staged : stage setup s'.store (s'.opening t) t = .ok d)
    (settled : settle setup t (.ok d) s' = (.ok (), s'')) :
    s'' = (d.committed s').recordSuccess t d.extent.columns ∧
      s''.MadeOf setup (before ++ cs ++ [⟨t, d⟩]) := by
  obtain ⟨hmade, hcommitted⟩ := sources.madeOf_and_committed hwf hs
  obtain ⟨hsettle, hmade⟩ := settle_of_committed hwf tries sources hs hmade (hcommitted rfl) staged
  cases hsettle.symm.trans settled
  exact ⟨rfl, hmade⟩

end

/-- A table that is asked for by itself and fails is not committed. -/
theorem new_of_error {e : Entity} {failure : Error} (hwf : setup.catalog.WellFormed)
    (h : Initializes setup path [e] s cs out) (hs : s.MadeOf setup before) (hpath : path = [])
    (herror : out.1 = .error failure) {t : Table} (hknown : setup.catalog.tableById? e.id = some t) :
    ∀ c ∈ before ++ cs, c.table ≠ t := by
  cases h with
  | present _ _ next => cases next; cases herror
  | dangling unknown => cases unknown.symm.trans hknown
  | failedBefore known new =>
    cases known.symm.trans hknown
    rw [List.append_nil]
    exact hs.new_of_not_isInitialized hwf (Catalog.mem_of_tableById? known).1 new
  | cyclic _ _ _ under =>
    rw [hpath] at under
    cases under
  | blocked tries sources =>
    cases tries.known.symm.trans hknown
    exact new_of_tries hwf tries sources hs
  | refused tries sources =>
    cases tries.known.symm.trans hknown
    exact new_of_tries hwf tries sources hs
  | built _ _ _ _ next => cases next; cases herror

end Initializes

end Provenance

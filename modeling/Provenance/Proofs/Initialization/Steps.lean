import Mathlib.Data.List.Perm.Subperm
import Mathlib.Logic.Relation
import Provenance.Initialization.Basic
import Provenance.Proofs.Catalog.WellFormed

/-!
# How tables are asked for

A run through a list of tables that are asked for while others are under way, step by step, with the tables
that are committed on the way (`Initializes`). Initialization is such a run: the number of tables bounds how
many can be under way, so it never ends for want of depth (`initializes_of_initAll`).
-/

namespace Provenance

/-- A table and the draft of it that entered a trail. -/
structure Commit where
  table : Table
  draft : Draft

/-- A table that an entity stands for is tried: it is neither there, nor has it failed, nor is it under
way. -/
structure Tries (setup : Setup) (path : List Entity) (e : Entity) (s : State) (t : Table) : Prop where
  known : setup.catalog.tableById? e.id = some t
  new : s.isInitialized t.id = false
  untried : s.failureOf? t.id = none
  apart : t.entity ∉ path

/-- What becomes of a state when tables are asked for one after another while those on `path` are under way,
and which tables are committed in doing so. -/
inductive Initializes (setup : Setup) : List Entity → List Entity → State → List Commit → Outcome → Prop
  | done {path : List Entity} {s : State} : Initializes setup path [] s [] (.ok (), s)
  | present {path rest : List Entity} {e : Entity} {s : State} {t : Table} {cs : List Commit}
      {out : Outcome} (known : setup.catalog.tableById? e.id = some t)
      (there : s.isInitialized t.id = true) (next : Initializes setup path rest s.skip cs out) :
      Initializes setup path (e :: rest) s cs out
  | dangling {path rest : List Entity} {e : Entity} {s : State}
      (unknown : setup.catalog.tableById? e.id = none) :
      Initializes setup path (e :: rest) s [] (.error (.dangling e), s)
  | failedBefore {path rest : List Entity} {e : Entity} {s : State} {t : Table} {failure : Failure}
      (known : setup.catalog.tableById? e.id = some t) (new : s.isInitialized t.id = false)
      (failed : s.failureOf? t.id = some failure) :
      Initializes setup path (e :: rest) s [] (.error (.failedBefore t.name failure.message), s)
  | cyclic {path rest : List Entity} {e : Entity} {s : State} {t : Table}
      (known : setup.catalog.tableById? e.id = some t) (new : s.isInitialized t.id = false)
      (untried : s.failureOf? t.id = none) (under : t.entity ∈ path) :
      Initializes setup path (e :: rest) s [] (.error (.cyclic (closePath path t.entity)), s)
  /-- A source of the table fails. -/
  | blocked {path rest : List Entity} {e : Entity} {s s' : State} {t : Table} {cs : List Commit}
      {failure : Error} (tries : Tries setup path e s t)
      (sources : Initializes setup (path ++ [t.entity]) t.sources s cs (.error failure, s')) :
      Initializes setup path (e :: rest) s cs (.error failure, s'.recordFailure t failure)
  /-- The sources are there, but the table itself fails. -/
  | refused {path rest : List Entity} {e : Entity} {s s' s'' : State} {t : Table} {cs : List Commit}
      {failure : Error} (tries : Tries setup path e s t)
      (sources : Initializes setup (path ++ [t.entity]) t.sources s cs (.ok (), s'))
      (settled : settle setup t (stage setup s'.store (s'.opening t) t) s' = (.error failure, s'')) :
      Initializes setup path (e :: rest) s cs (.error failure, s'')
  /-- The table is committed. -/
  | built {path rest : List Entity} {e : Entity} {s s' s'' : State} {t : Table} {cs cs' : List Commit}
      {d : Draft} {out : Outcome} (tries : Tries setup path e s t)
      (sources : Initializes setup (path ++ [t.entity]) t.sources s cs (.ok (), s'))
      (staged : stage setup s'.store (s'.opening t) t = .ok d)
      (settled : settle setup t (.ok d) s' = (.ok (), s''))
      (next : Initializes setup path rest s'' cs' out) :
      Initializes setup path (e :: rest) s (cs ++ ⟨t, d⟩ :: cs') out

variable {setup : Setup} {path es : List Entity} {s : State}

/-! ## Initialization is such a run -/

theorem length_le_of_path (hnodup : path.Nodup)
    (hpath : ∀ e ∈ path, ∃ t ∈ setup.catalog.tables, t.entity = e) :
    path.length ≤ setup.catalog.tables.length := by
  have hsub : path ⊆ setup.catalog.tables.map Table.entity := fun e he =>
    have ⟨_, ht, heq⟩ := hpath e he
    List.mem_map.2 ⟨_, ht, heq⟩
  have hle := (List.subperm_of_subset hnodup hsub).length_le
  rwa [List.length_map] at hle

theorem path_snoc {t : Table} (hpath : ∀ e ∈ path, ∃ t ∈ setup.catalog.tables, t.entity = e)
    (ht : t ∈ setup.catalog.tables) :
    ∀ e ∈ path ++ [t.entity], ∃ t ∈ setup.catalog.tables, t.entity = e := by
  intro e he
  rcases List.mem_append.1 he with he | he
  · exact hpath e he
  · exact ⟨t, ht, (List.mem_singleton.1 he).symm⟩

section

variable {depth : Nat} {e : Entity} {rest : List Entity} {s' : State} {t : Table}

theorem initAll_cons_of_ok {step : Entity → State → Outcome} (h : step e s = (.ok (), s')) :
    initAll step (e :: rest) s = initAll step rest s' := by
  rw [initAll, h]

theorem initAll_cons_of_error {step : Entity → State → Outcome} {failure : Error}
    (h : step e s = (.error failure, s')) : initAll step (e :: rest) s = (.error failure, s') := by
  rw [initAll, h]

theorem initTable_of_dangling (unknown : setup.catalog.tableById? e.id = none) :
    initTable setup (depth + 1) path e s = (.error (.dangling e), s) := by
  simp [initTable, unknown]

theorem initTable_of_present (known : setup.catalog.tableById? e.id = some t)
    (there : s.isInitialized t.id = true) : initTable setup (depth + 1) path e s = (.ok (), s.skip) := by
  simp [initTable, known, there]

theorem initTable_of_failedBefore {failure : Failure} (known : setup.catalog.tableById? e.id = some t)
    (new : s.isInitialized t.id = false) (failed : s.failureOf? t.id = some failure) :
    initTable setup (depth + 1) path e s = (.error (.failedBefore t.name failure.message), s) := by
  simp [initTable, known, new, failed]

theorem initTable_of_cyclic (known : setup.catalog.tableById? e.id = some t)
    (new : s.isInitialized t.id = false) (untried : s.failureOf? t.id = none) (under : t.entity ∈ path) :
    initTable setup (depth + 1) path e s = (.error (.cyclic (closePath path t.entity)), s) := by
  simp [initTable, known, new, untried, under]

/-- A table that is tried is settled once its sources were asked for. -/
theorem initTable_of_tries (tries : Tries setup path e s t)
    (h : initAll (initTable setup depth (path ++ [t.entity])) t.sources s = (.ok (), s')) :
    initTable setup (depth + 1) path e s =
      settle setup t (stage setup s'.store (s'.opening t) t) s' := by
  simp [initTable, tries.known, tries.new, tries.untried, tries.apart, h]

theorem initTable_of_blocked {failure : Error} (tries : Tries setup path e s t)
    (h : initAll (initTable setup depth (path ++ [t.entity])) t.sources s = (.error failure, s')) :
    initTable setup (depth + 1) path e s = (.error failure, s'.recordFailure t failure) := by
  simp [initTable, tries.known, tries.new, tries.untried, tries.apart, h, settle]

/-- A table that is tried makes a run of the list that it heads, if its sources make one and so does the
rest. -/
private theorem initializes_of_tries {cs : List Commit} (tries : Tries setup path e s t)
    (sources : Initializes setup (path ++ [t.entity]) t.sources s cs
      (initAll (initTable setup depth (path ++ [t.entity])) t.sources s))
    (hrest : ∀ s, ∃ cs, Initializes setup path rest s cs
      (initAll (initTable setup (depth + 1) path) rest s)) :
    ∃ cs, Initializes setup path (e :: rest) s cs
      (initAll (initTable setup (depth + 1) path) (e :: rest) s) := by
  rcases hsources : initAll (initTable setup depth (path ++ [t.entity])) t.sources s with ⟨_ | _, s'⟩
  · rw [hsources] at sources
    rw [initAll_cons_of_error (initTable_of_blocked tries hsources)]
    exact ⟨cs, .blocked tries sources⟩
  · rw [hsources] at sources
    have htable := initTable_of_tries tries hsources
    rcases hsettle : settle setup t (stage setup s'.store (s'.opening t) t) s' with ⟨_ | _, s''⟩
    · rw [initAll_cons_of_error (htable.trans hsettle)]
      exact ⟨cs, .refused tries sources hsettle⟩
    · rw [initAll_cons_of_ok (htable.trans hsettle)]
      cases hstage : stage setup s'.store (s'.opening t) t with
      | error failure =>
        rw [hstage] at hsettle
        cases hsettle
      | ok d =>
        rw [hstage] at hsettle
        obtain ⟨cs', hcs'⟩ := hrest s''
        exact ⟨_, .built tries sources hstage hsettle hcs'⟩

end

/-- Asking for tables is a run if the depth suffices for all tables that are not under way. -/
theorem initializes_of_initAll {depth : Nat} (hnodup : path.Nodup)
    (hpath : ∀ e ∈ path, ∃ t ∈ setup.catalog.tables, t.entity = e)
    (hdepth : setup.catalog.tables.length + 1 ≤ path.length + depth) :
    ∃ cs, Initializes setup path es s cs (initAll (initTable setup depth path) es s) := by
  -- Induction on the depth, for every path, and for one path on the list that is asked for.
  induction depth generalizing path es s with
  | zero =>
    have hle := length_le_of_path hnodup hpath
    omega
  | succ depth ih =>
    induction es generalizing s with
    | nil => exact ⟨[], .done⟩
    | cons e rest ihrest =>
      cases hknown : setup.catalog.tableById? e.id with
      | none =>
        rw [initAll_cons_of_error (initTable_of_dangling hknown)]
        exact ⟨[], .dangling hknown⟩
      | some t =>
        cases hnew : s.isInitialized t.id with
        | true =>
          rw [initAll_cons_of_ok (initTable_of_present hknown hnew)]
          obtain ⟨cs, hcs⟩ := ihrest (s := s.skip)
          exact ⟨cs, .present hknown hnew hcs⟩
        | false =>
          cases hfailed : s.failureOf? t.id with
          | some failure =>
            rw [initAll_cons_of_error (initTable_of_failedBefore hknown hnew hfailed)]
            exact ⟨[], .failedBefore hknown hnew hfailed⟩
          | none =>
            by_cases hunder : t.entity ∈ path
            · rw [initAll_cons_of_error (initTable_of_cyclic hknown hnew hfailed hunder)]
              exact ⟨[], .cyclic hknown hnew hfailed hunder⟩
            · have ht := (Catalog.mem_of_tableById? hknown).1
              have hnodup' : (path ++ [t.entity]).Nodup := by
                rw [List.nodup_append_comm]
                exact List.nodup_cons.2 ⟨hunder, hnodup⟩
              have hdepth' : setup.catalog.tables.length + 1 ≤ (path ++ [t.entity]).length + depth := by
                rw [List.length_append, List.length_singleton]
                omega
              obtain ⟨cs, hcs⟩ : ∃ cs, Initializes setup (path ++ [t.entity]) t.sources s cs
                  (initAll (initTable setup depth (path ++ [t.entity])) t.sources s) :=
                ih hnodup' (path_snoc hpath ht) hdepth'
              exact initializes_of_tries ⟨hknown, hnew, hfailed, hunder⟩ hcs fun _ => ihrest

/-! ## What a run reaches -/

theorem Draft.failures_commit (d : Draft) (setup : Setup) (s : State) :
    (d.commit setup s).2.failures = s.failures := by
  unfold Draft.commit
  split <;> rfl

/-- Settling a table records no failure but one of that table. -/
theorem failures_of_settle {t : Table} {draft : Except Error Draft} {result : Except Error Unit}
    {s' : State} (h : settle setup t draft s = (result, s')) {f : Failure} (hf : f ∈ s'.failures) :
    f ∈ s.failures ∨ f.entity = t.entity := by
  have hrecord : ∀ {s : State} {e : Error}, f ∈ (s.recordFailure t e).failures →
      f ∈ s.failures ∨ f.entity = t.entity := fun hf =>
    (List.mem_append.1 hf).imp_right fun hf => by rw [List.mem_singleton.1 hf]
  unfold settle at h
  split at h
  · cases h
    exact hrecord hf
  · next d =>
    have hcommit := d.failures_commit setup s
    split at h
    · next heq =>
      cases h
      rw [heq] at hcommit
      exact .inl (hcommit ▸ hf)
    · next heq =>
      cases h
      rw [heq] at hcommit
      exact hcommit ▸ hrecord hf

namespace Initializes

variable {cs : List Commit} {out : Outcome} {c : Commit}

/-- No table that is under way is committed. -/
theorem apart (h : Initializes setup path es s cs out) (hc : c ∈ cs) : c.table.entity ∉ path := by
  induction h with
  | done | dangling | failedBefore | cyclic => cases hc
  | present _ _ _ ih => exact ih hc
  | blocked _ _ ih | refused _ _ _ ih =>
    exact fun hmem => ih hc (List.mem_append_left _ hmem)
  | built tries _ _ _ _ ihsources ihnext =>
    rcases List.mem_append.1 hc with hc | hc
    · exact fun hmem => ihsources hc (List.mem_append_left _ hmem)
    · rcases List.mem_cons.1 hc with rfl | hc
      · exact tries.apart
      · exact ihnext hc

/-- No table that is under way is recorded as failed. -/
theorem failures (h : Initializes setup path es s cs out) {f : Failure} (hf : f ∈ out.2.failures) :
    f ∈ s.failures ∨ f.entity ∉ path := by
  induction h with
  | done | dangling | failedBefore | cyclic => exact .inl hf
  | present _ _ _ ih => exact ih hf
  | blocked tries _ ih =>
    rcases List.mem_append.1 hf with hf | hf
    · exact (ih hf).imp_right fun hout hmem => hout (List.mem_append_left _ hmem)
    · rw [List.mem_singleton.1 hf]
      exact .inr tries.apart
  | refused tries _ settled ih =>
    rcases failures_of_settle settled hf with hf | hf
    · exact (ih hf).imp_right fun hout hmem => hout (List.mem_append_left _ hmem)
    · rw [hf]
      exact .inr tries.apart
  | built tries _ _ settled _ ihsources ihnext =>
    refine (ihnext hf).elim (fun hf => ?_) .inr
    rcases failures_of_settle settled hf with hf | hf
    · exact (ihsources hf).imp_right fun hout hmem => hout (List.mem_append_left _ hmem)
    · rw [hf]
      exact .inr tries.apart

/-- What is committed is a table that was asked for or one that it is derived from. -/
theorem reads (hwf : setup.catalog.WellFormed) (h : Initializes setup path es s cs out) (hc : c ∈ cs) :
    ∃ e ∈ es, ∃ t, setup.catalog.tableById? e.id = some t ∧
      Relation.ReflTransGen setup.catalog.Reads t c.table := by
  have hsource : ∀ {t : Table} {path : List Entity} {e : Entity} {s : State}, Tries setup path e s t →
      (∃ e ∈ t.sources, ∃ t', setup.catalog.tableById? e.id = some t' ∧
        Relation.ReflTransGen setup.catalog.Reads t' c.table) →
      Relation.TransGen setup.catalog.Reads t c.table := by
    intro t path e s tries ⟨e', he', t', hknown, hreads⟩
    have ht := (Catalog.mem_of_tableById? tries.known).1
    obtain ⟨u, hread, rfl⟩ := hwf.reads_of_mem_sources ht he'
    cases (hwf.tableById?_of_mem hread.1).symm.trans hknown
    exact Relation.TransGen.head' hread hreads
  induction h with
  | done | dangling | failedBefore | cyclic => cases hc
  | present _ _ _ ih =>
    obtain ⟨e, he, hreads⟩ := ih hc
    exact ⟨e, List.mem_cons_of_mem _ he, hreads⟩
  | blocked tries _ ih | refused tries _ _ ih =>
    exact ⟨_, List.mem_cons_self, _, tries.known, (hsource tries (ih hc)).to_reflTransGen⟩
  | built tries _ _ _ _ ihsources ihnext =>
    rcases List.mem_append.1 hc with hc | hc
    · exact ⟨_, List.mem_cons_self, _, tries.known, (hsource tries (ihsources hc)).to_reflTransGen⟩
    · rcases List.mem_cons.1 hc with rfl | hc
      · exact ⟨_, List.mem_cons_self, _, tries.known, .refl⟩
      · obtain ⟨e, he, hreads⟩ := ihnext hc
        exact ⟨e, List.mem_cons_of_mem _ he, hreads⟩

end Initializes

end Provenance

import Provenance.Proofs.Initialization.Atomicity
import Provenance.Proofs.Internal

/-!
# Snapshots answer as the run did

What a run hands over in the end is all that was committed, in the order of the commits. Its edges make a log
again, since each was checked and none was recorded twice (`EdgeLog.ofEdges_of_nodup`), and that log is the
one of the run. Main statement: `Run.Reachable.snapshot_answers`.
-/

namespace Provenance

/-! ## Lookups -/

section

variable {c : Catalog} {s : Store} (hs : s.Sound)
include hs

theorem lookupEntity_populated_iff {p : Populated} :
    lookupEntity c s p.entity = some (.populated p) ↔ p ∈ s.populated := by
  have hfind : findSubject? c s p.entity = (s.populated? p.id).map .populated := by
    unfold findSubject? Populated.entity Origin.tableKind
    cases p.origin <;> rfl
  rw [lookupEntity, hfind, Option.filter_eq_some_iff]
  constructor
  · rintro ⟨h, -⟩
    obtain ⟨_, h, ⟨⟩⟩ := Option.map_eq_some_iff.1 h
    exact (Store.of_last?_eq_some h).1
  · intro h
    obtain ⟨x, hx, rfl⟩ := List.mem_map.1 h
    exact ⟨congrArg _ (hs.populated?_of_mem hx), decide_eq_true rfl⟩

theorem lookupEntity_row_iff {r : Row} : lookupEntity c s r.entity = some (.row r) ↔ r ∈ s.rows := by
  have hfind : findSubject? c s r.entity = (s.row? r.id).map .row := by
    unfold findSubject? Row.entity Origin.rowKind
    cases r.origin <;> rfl
  rw [lookupEntity, hfind, Option.filter_eq_some_iff]
  constructor
  · rintro ⟨h, -⟩
    obtain ⟨_, h, ⟨⟩⟩ := Option.map_eq_some_iff.1 h
    exact (Store.of_last?_eq_some h).1
  · exact fun h => ⟨congrArg _ (hs.row?_of_mem h), decide_eq_true rfl⟩

theorem lookupEntity_value_iff {v : Value} :
    lookupEntity c s v.entity = some (.value v) ↔ v ∈ s.values := by
  have hfind : findSubject? c s v.entity = (s.value? v.id).map .value := by
    unfold findSubject? Value.entity Origin.valueKind
    cases v.origin <;> rfl
  rw [lookupEntity, hfind, Option.filter_eq_some_iff]
  constructor
  · rintro ⟨h, -⟩
    obtain ⟨_, h, ⟨⟩⟩ := Option.map_eq_some_iff.1 h
    exact (Store.of_last?_eq_some h).1
  · exact fun h => ⟨congrArg _ (hs.value?_of_mem h), decide_eq_true rfl⟩

end

/-! ## Snapshots -/

/-- A snapshot consists of commits, one after another. -/
structure Snapshot.Consists (s : Snapshot) (cs : List Commit) : Prop where
  populated : s.populated = cs.map fun c => c.draft.extent.populated
  rows : s.rows = cs.flatMap fun c => c.draft.extent.rows
  values : s.values = cs.flatMap fun c => c.draft.extent.values
  edges : s.edges = cs.flatMap fun c => c.draft.edges

/-- A snapshot has the things that a run finds, and no other. -/
structure Snapshot.Complete (s : Snapshot) (r : Run) : Prop where
  populated : ∀ p, p ∈ s.populated ↔ r.lookup p.entity = some (.populated p)
  rows : ∀ row, row ∈ s.rows ↔ r.lookup row.entity = some (.row row)
  values : ∀ v, v ∈ s.values ↔ r.lookup v.entity = some (.value v)
  edges : ∀ edge, edge ∈ s.edges ↔ edge ∈ r.state.log.ownedBy edge.owner.id
  failures : s.failures = r.state.failures

namespace Run

variable {r : Run} {cs : List Commit}

theorem consists_finish (h : r.state.MadeOf r.setup cs) : r.finish.Consists cs := by
  refine ⟨?_, ?_, ?_, h.log⟩
  · change r.state.store.populated = _
    rw [h.store]
    exact List.map_map
  · change r.state.store.rows = _
    rw [h.store]
    exact List.flatMap_map ..
  · change r.state.store.values = _
    rw [h.store]
    exact List.flatMap_map ..

theorem complete_finish (hwf : r.setup.catalog.WellFormed) (h : r.state.MadeOf r.setup cs) :
    r.finish.Complete r where
  populated _ := (lookupEntity_populated_iff (h.sound hwf)).symm
  rows _ := (lookupEntity_row_iff (h.sound hwf)).symm
  values _ := (lookupEntity_value_iff (h.sound hwf)).symm
  edges edge := by simp [EdgeLog.ownedBy, finish]
  failures := rfl

/-- The edges of a run make its log again. -/
theorem log_finish (hwf : r.setup.catalog.WellFormed) (h : r.state.MadeOf r.setup cs) :
    r.finish.log = .ok r.state.log := by
  refine EdgeLog.ofEdges_of_nodup (fun edge hedge => ?_) ?_
  · obtain ⟨c, hc, hmem⟩ := h.mem_edges_iff.1 hedge
    obtain ⟨_, hgrounded⟩ := h.history.grounded hwf hc
    exact hgrounded.checked edge hmem
  · change r.state.log.edges.Nodup
    rw [h.log]
    exact h.history.nodup_edges hwf

/-- What a run hands over has everything that the run finds: its commits one after another, and those of later
calls after these. A log can always be made of its edges, and that log tells the same edges of every owner, in
the same order, and walks the same way from every entity to every depth. -/
theorem Reachable.snapshot_answers (h : r.Reachable) :
    (∃ cs, History r.setup cs ∧ r.finish.Consists cs ∧
      ∀ call, ∃ cs', (r.after call).finish.Consists (cs ++ cs')) ∧
    r.finish.Complete r ∧
    ∃ log, r.finish.log = .ok log ∧ (∀ id, log.ownedBy id = r.state.log.ownedBy id) ∧
      ∀ e depth, log.transitive e depth = r.state.log.transitive e depth := by
  obtain ⟨hwf, cs, hmade⟩ := h.exists_madeOf
  refine ⟨⟨cs, hmade.history, consists_finish hmade, fun call => ?_⟩, complete_finish hwf hmade,
    _, log_finish hwf hmade, fun _ => rfl, fun _ _ => rfl⟩
  obtain ⟨cs', out, hout, hsame, hsetup⟩ := exists_initializes hwf hmade call
  have hmade' := (hout.madeOf_and_committed hwf hmade).1.same hsame
  exact ⟨cs', consists_finish (hsetup ▸ hmade')⟩

end Run

namespace Sample

/-- The snapshot of the totals answers as the run did. -/
theorem snapshot_total :
    let r := run.after (.materialize "total")
    r.finish.edges.length = 10 ∧ ∃ log, r.finish.log = .ok log ∧
      ∀ e depth, log.transitive e depth = r.state.log.transitive e depth := by
  obtain ⟨-, -, log, hlog, -, hwalks⟩ :=
    Run.Reachable.snapshot_answers (.call reachable_run (.materialize "total"))
  exact ⟨rfl, log, hlog, hwalks⟩

end Sample

end Provenance

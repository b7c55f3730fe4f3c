import Provenance.Proofs.Edge.Walk
import Provenance.Proofs.Lineage.Acyclic
import Provenance.Proofs.Lineage.Known
import Provenance.Proofs.Reachable

/-!
# Reports are total and exact

In a reachable run no two things share an identity, so what is followed by identities is followed as a
whole, and as the lineage is acyclic, everything that is there has a report. Without a bound on the depth the
report tells exactly what the entity was made from, and which of this was made from nothing
(`LineageReport.Exact`). Main statement: `Run.Reachable.reports_total`.
-/

namespace Provenance

/-! ## Walks over a log -/

/-- An edge of a log leads from one entity to another. -/
def EdgeLog.Leads (log : EdgeLog) (e x : Entity) : Prop :=
  ∃ edge ∈ log.edges, edge.owner = e ∧ edge.target = x

namespace EdgeLog

namespace Identified

variable {log : EdgeLog} {known : List Entity} {e x : Entity} (h : log.Identified known)
include h

/-- What edges between identities lead to from a known entity, edges between entities lead to. -/
theorem exists_leads (he : e ∈ known) {id : Id} (hlinks : Relation.TransGen log.Links e.id id) :
    ∃ x ∈ known, x.id = id ∧ Relation.TransGen log.Leads e x := by
  induction hlinks with
  | single hstep =>
    obtain ⟨edge, hedge, howner, rfl⟩ := hstep
    have howner := h.ids _ (h.owners edge hedge) _ he howner
    exact ⟨edge.target, h.targets edge hedge, rfl, .single ⟨edge, hedge, howner, rfl⟩⟩
  | tail _ hstep ih =>
    obtain ⟨y, hy, rfl, hleads⟩ := ih
    obtain ⟨edge, hedge, howner, rfl⟩ := hstep
    have howner := h.ids _ (h.owners edge hedge) _ hy howner
    exact ⟨edge.target, h.targets edge hedge, rfl, hleads.tail ⟨edge, hedge, howner, rfl⟩⟩

omit h in
theorem links_of_leads (hleads : Relation.TransGen log.Leads e x) :
    Relation.TransGen log.Links e.id x.id := by
  refine hleads.lift Entity.id ?_
  rintro _ _ ⟨edge, hedge, rfl, rfl⟩
  exact ⟨edge, hedge, rfl, rfl⟩

/-- A walk without a bound reaches what edges lead to. -/
theorem mem_walkFrom_iff (hacyclic : ∀ id, ¬Relation.TransGen log.Links id id) (he : e ∈ known) :
    x ∈ (log.walkFrom e none).map Reached.entity ↔ Relation.TransGen log.Leads e x := by
  have hwalk := log.shortest_walkFrom e none
  have hknown : ∀ y ∈ log.walkFrom e none, y.entity ∈ known := by
    intro y hy
    obtain ⟨edge, hedge, htarget, -⟩ := hwalk.via y hy
    exact htarget ▸ h.targets edge hedge
  -- The walk follows identities, each of which belongs to one known entity.
  have hreached : ∀ id, (∃ y ∈ log.walkFrom e none, y.entity.id = id) ↔
      Relation.TransGen log.Links e.id id := by
    intro id
    rw [hwalk.reaches_iff]
    constructor
    · rintro ⟨hne, hlinks⟩
      exact (Relation.reflTransGen_iff_eq_or_transGen.1 hlinks).resolve_left fun heq => hne heq.symm
    · exact fun hlinks => ⟨fun heq => hacyclic id (heq ▸ hlinks), hlinks.to_reflTransGen⟩
  rw [List.mem_map]
  constructor
  · rintro ⟨y, hy, rfl⟩
    obtain ⟨x, hx, hid, hleads⟩ := h.exists_leads he ((hreached _).1 ⟨y, hy, rfl⟩)
    rwa [h.ids _ (hknown y hy) _ hx hid.symm]
  · intro hleads
    obtain ⟨y, hy, hid⟩ := (hreached _).2 (links_of_leads hleads)
    obtain ⟨_, -, edge, hedge, -, rfl⟩ := Relation.TransGen.tail'_iff.1 hleads
    exact ⟨y, hy, h.ids _ (hknown y hy) _ (h.targets edge hedge) hid⟩

end Identified

theorem nodup_walkFrom (log : EdgeLog) (e : Entity) (depth : Option Nat) :
    ((log.walkFrom e depth).map Reached.entity).Nodup := by
  have hids := (log.shortest_walkFrom e depth).nodup
  rw [← Function.comp_def Entity.id Reached.entity, ← List.map_map] at hids
  exact hids.of_map

end EdgeLog

/-! ## Reports -/

/-- A report tells exactly what its entity was made from, directly or not, and which of that was itself made
from nothing, each entity once. -/
structure LineageReport.Exact (log : EdgeLog) (report : LineageReport) : Prop where
  transitive : ∀ x, x ∈ report.transitive.map Reached.entity ↔
    Relation.TransGen log.Leads report.entity x
  nodup_transitive : (report.transitive.map Reached.entity).Nodup
  leaves : ∀ x, x ∈ report.leaves ↔
    Relation.TransGen log.Leads report.entity x ∧ log.ownedBy x.id = []
  nodup_leaves : report.leaves.Nodup

namespace Run

variable {r : Run} {e : Entity} {depth : Option Nat}

/-- The report on an entity that is there. -/
def reportOf (r : Run) (e : Entity) (depth : Option Nat) : LineageReport :=
  let reached := r.state.log.walkFrom e depth
  let leaves := (reached.map Reached.entity).filter fun e => (r.state.log.ownedBy e.id).isEmpty
  ⟨e, r.state.log.ownedBy e.id, reached, leaves, depth⟩

theorem lookup_value_eq (hs : r.state.store.Sound) {v : Value} (hv : v ∈ r.state.store.values) :
    r.lookup v.entity = some (.value v) := by
  have hfind : findSubject? r.setup.catalog r.state.store v.entity = some (.value v) := by
    have hvalue := hs.value?_of_mem hv
    unfold findSubject? Value.entity
    cases v.origin <;> simp [Origin.valueKind, hvalue]
  simp [lookup, lookupEntity, hfind, Subject.entity]

theorem lookup_value (hs : r.state.store.Sound) {v : Value} (hv : v ∈ r.state.store.values) :
    (r.lookup v.entity).isSome := by
  rw [lookup_value_eq hs hv]
  rfl

theorem lineageWithin_of_none (h : r.lookup e = none) :
    r.lineageWithin e depth = .error (.dangling e) := by
  unfold lineageWithin
  rw [h]

theorem lineageWithin_of_some (hacyclic : ∀ id, ¬Relation.TransGen r.state.log.Links id id)
    (h : (r.lookup e).isSome) : r.lineageWithin e depth = .ok (r.reportOf e depth) := by
  obtain ⟨subject, h⟩ := Option.isSome_iff_exists.1 h
  unfold lineageWithin
  rw [h]
  dsimp only
  rw [EdgeLog.transitive_of_acyclic fun id _ => hacyclic id]
  rfl

/-- In a log without cycles a report without a bound is exact. -/
theorem exact_reportOf {known : List Entity} (hknown : r.state.log.Identified known)
    (hacyclic : ∀ id, ¬Relation.TransGen r.state.log.Links id id) (he : e ∈ known) :
    (r.reportOf e none).Exact r.state.log := by
  have hnodup := r.state.log.nodup_walkFrom e none
  have hreached : ∀ x, x ∈ (r.reportOf e none).transitive.map Reached.entity ↔
      Relation.TransGen r.state.log.Leads (r.reportOf e none).entity x := fun _ =>
    hknown.mem_walkFrom_iff hacyclic he
  refine ⟨hreached, hnodup, fun x => ?_, hnodup.filter _⟩
  rw [← hreached, ← List.isEmpty_iff]
  exact List.mem_filter

theorem Reachable.acyclic (h : r.Reachable) (id : Id) :
    ¬Relation.TransGen r.state.log.Links id id := by
  obtain ⟨hwf, cs, hmade⟩ := h.exists_madeOf
  obtain ⟨_, _, compiled⟩ := h.exists_compile
  have hlog : r.state.log = Commit.logOf cs := congrArg EdgeLog.mk hmade.log
  exact hlog ▸ hmade.history.acyclic hwf (Schema.named_of_compile compiled) id

theorem Reachable.exact_reportOf (h : r.Reachable) (he : (r.lookup e).isSome) :
    (r.reportOf e none).Exact r.state.log := by
  obtain ⟨hwf, cs, hmade⟩ := h.exists_madeOf
  obtain ⟨subject, hlookup⟩ := Option.isSome_iff_exists.1 he
  exact Run.exact_reportOf (hmade.identified hwf) h.acyclic (known_of_lookupEntity hlookup)

/-- No edges of a run form a cycle. Everything that is there has a report, whatever the depth that it is
bounded by, and what is not there has none. A report without a bound is exact. -/
theorem Reachable.reports_total (h : r.Reachable) :
    (∀ id, ¬Relation.TransGen r.state.log.Links id id) ∧
    ∀ e, (∀ depth, (∃ report, r.lineageWithin e depth = .ok report) ↔ (r.lookup e).isSome) ∧
      (∀ depth, r.lookup e = none → r.lineageWithin e depth = .error (.dangling e)) ∧
      ∀ report, r.lineageWithin e none = .ok report →
        report.entity = e ∧ report.Exact r.state.log := by
  refine ⟨h.acyclic, fun e => ⟨fun depth => ?_, fun depth => lineageWithin_of_none, fun report hreport => ?_⟩⟩
  · cases hlookup : r.lookup e with
    | none => simp [lineageWithin_of_none hlookup]
    | some subject =>
      have hthere : (r.lookup e).isSome := by rw [hlookup]; rfl
      simp [lineageWithin_of_some h.acyclic hthere]
  · cases hlookup : r.lookup e with
    | none =>
      rw [lineageWithin_of_none hlookup] at hreport
      cases hreport
    | some subject =>
      have hthere : (r.lookup e).isSome := by rw [hlookup]; rfl
      rw [lineageWithin_of_some h.acyclic hthere] at hreport
      cases hreport
      exact ⟨rfl, h.exact_reportOf hthere⟩

end Run

namespace Sample

/-- The total of a region was made, in the end, from the amounts of all of its sales. -/
theorem report_total :
    let r := run.after (.materialize "total")
    let v : Entity := ⟨.evaluatedValue, ⟨21⟩⟩
    ∃ report, r.lineageWithin v none = .ok report ∧ report.Exact r.state.log ∧
      report.leaves = [⟨.databaseValue, ⟨14⟩⟩, ⟨.databaseValue, ⟨17⟩⟩] := by
  intro r v
  obtain ⟨-, htotal⟩ := Run.Reachable.reports_total (.call reachable_run (.materialize "total"))
  obtain ⟨hthere, -, hexact⟩ := htotal v
  obtain ⟨report, hreport⟩ := (hthere none).2 rfl
  refine ⟨report, hreport, (hexact report hreport).2, ?_⟩
  have hleaves : (r.reportOf v none).leaves =
      [⟨.databaseValue, ⟨14⟩⟩, ⟨.databaseValue, ⟨17⟩⟩] := rfl
  cases (Run.lineageWithin_of_some (Run.Reachable.acyclic (.call reachable_run _)) rfl).symm.trans hreport
  exact hleaves

end Sample

end Provenance

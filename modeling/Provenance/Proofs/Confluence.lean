import Provenance.Proofs.Correspondence
import Provenance.Proofs.Reachable

/-!
# Initialization is confluent

In a reachable run a table can be materialized iff it is derivable, whatever the run was asked for before.
What is materialized is the same in all runs of one setup, up to a renaming of identities (`Run.Carries`).
Two sequences of calls for the same tables end with the same tables materialized and the same recorded as
failed. Main statement: `Run.Reachable.confluent`.
-/

namespace Provenance

namespace Run

variable {r r' : Run} {cs cs' : List Commit} {t : Table} {name : String}

/-- The run after some calls. -/
def afterAll (r : Run) (calls : List Call) : Run := calls.foldl after r

/-- A table that some calls are for. -/
def Targets (c : Catalog) (calls : List Call) (t : Table) : Prop :=
  ∃ call ∈ calls, call.table? c = some t

theorem targets_cons {c : Catalog} {call : Call} {calls : List Call} :
    Targets c (call :: calls) t ↔ call.table? c = some t ∨ Targets c calls t :=
  List.exists_mem_cons_iff ..

/-- Some calls settle the tables that they are for, and all that these ask for. -/
theorem consistent_afterAll (hwf : r.setup.catalog.WellFormed) (h : r.state.Consistent r.setup cs)
    (calls : List Call) :
    ∃ cs', (r.afterAll calls).state.Consistent r.setup cs' ∧
      ∀ u, (r.afterAll calls).state.Settled r.setup cs' u ↔ r.state.Settled r.setup cs u ∨
        ∃ t, Targets r.setup.catalog calls t ∧ Relation.ReflTransGen (Asks r.setup) t u := by
  induction calls generalizing r cs with
  | nil => exact ⟨cs, h, fun u => by simp [afterAll, Targets]⟩
  | cons call calls ih =>
    obtain ⟨hsetup, cs₁, h₁, hsettled₁⟩ := consistent_after hwf h call
    rw [← hsetup] at hwf h₁
    obtain ⟨cs', h', hsettled⟩ := ih hwf h₁
    rw [hsetup] at h' hsettled
    refine ⟨cs', h', fun u => (hsettled u).trans ?_⟩
    simp only [hsettled₁ u, targets_cons, or_and_right, exists_or, or_assoc]
    rfl

/-! ## Confluence -/

/-- Two runs in which the same tables are materialized and the same are recorded as failed. -/
structure Agree (r r' : Run) : Prop where
  materialized : ∀ id, (∃ p ∈ r.state.store.populated, p.table = id) ↔
    ∃ p ∈ r'.state.store.populated, p.table = id
  failed : ∀ e, (∃ f ∈ r.state.failures, f.entity = e) ↔ ∃ f ∈ r'.state.failures, f.entity = e

theorem Agree.symm (h : r.Agree r') : r'.Agree r :=
  ⟨fun id => (h.materialized id).symm, fun e => (h.failed e).symm⟩

section

variable {setup : Setup} (hwf : setup.catalog.WellFormed) (h : r.state.Consistent setup cs)
  (h' : r'.state.Consistent setup cs')
include hwf h h'

/-- What is settled in a run is settled in every run that agrees with it. -/
theorem Agree.settled (hagree : r.Agree r') (ht : r.state.Settled setup cs t) :
    r'.state.Settled setup cs' t := by
  by_cases hderivable : Derivable setup t
  · obtain ⟨u, hid, hu, -⟩ := (h'.populated_iff hwf).1
      ((hagree.materialized t.id).1 ((h.populated_iff hwf).2 ⟨t, rfl, ht, hderivable⟩))
    exact hwf.table_eq hu.1 ht.1 hid ▸ hu
  · obtain ⟨u, hentity, hu, -⟩ := (h'.failures_iff hwf).1
      ((hagree.failed t.entity).1 ((h.failures_iff hwf).2 ⟨t, rfl, ht, hderivable⟩))
    exact hwf.eq_of_entity hu.1 ht.1 hentity ▸ hu

/-- Runs in which the same tables are settled agree. -/
theorem agree_of_settled (hsettled : ∀ t, r.state.Settled setup cs t ↔ r'.state.Settled setup cs' t) :
    r.Agree r' where
  materialized id := by
    rw [h.populated_iff hwf, h'.populated_iff hwf]
    simp only [hsettled]
  failed e := by
    rw [h.failures_iff hwf, h'.failures_iff hwf]
    simp only [hsettled]

end

theorem materialize_of_ok (h : (r.initTable name).1 = .ok ()) :
    (r.materialize name).1 = (r.initTable name).2.tableView name ∧
      (r.materialize name).2 = (r.initTable name).2 := by
  unfold materialize
  generalize r.initTable name = out at h ⊢
  obtain ⟨result, r'⟩ := out
  cases h
  exact ⟨rfl, rfl⟩

section

variable (h : r.Reachable)
include h

/-- A table can be initialized iff it is derivable. -/
theorem Reachable.initTable_eq_ok_iff (hfind : r.setup.catalog.table name = .ok t) :
    (r.initTable name).1 = .ok () ↔ Derivable r.setup t := by
  obtain ⟨hwf, cs, h⟩ := h.exists_consistent
  constructor
  · intro hok
    obtain ⟨-, cs', hmade, c, hc, rfl⟩ := committed_of_initTable hwf h.made hfind hok
    exact ⟨_, hmade.history.derives hwf hc⟩
  · intro hderivable
    obtain ⟨cs', ⟨result, s'⟩, hout, hresult, -⟩ := initializes_of_table hwf h.made hfind
    rw [hresult]
    cases result with
    | ok => rfl
    | error failure =>
      have hask : Asking r.setup [] [t.entity] := .start fun e he =>
        ⟨t, (Catalog.mem_of_table hfind).1, (List.mem_singleton.1 he).symm⟩
      exact absurd hderivable (hout.not_derivable_of_error hwf h.made hask h.honest)

/-- A table that can be initialized is materialized then. -/
theorem Reachable.exists_materialized (hfind : r.setup.catalog.table name = .ok t)
    (hok : (r.initTable name).1 = .ok ()) :
    ∃ view, (r.materialize name).1 = .ok view ∧ (r.materialize name).2.tableView name = .ok view := by
  obtain ⟨hwf, cs, h⟩ := h.exists_madeOf
  obtain ⟨-, rfl⟩ := Catalog.mem_of_table hfind
  obtain ⟨hsetup, cs', hmade, c, hc, rfl⟩ := committed_of_initTable hwf h hfind hok
  obtain ⟨hview, hrun⟩ := materialize_of_ok hok
  have hthere := tableView_of_committed (r := (r.initTable c.table.name).2) (hsetup ▸ hwf)
    (hsetup ▸ hmade) hc
  exact ⟨_, hview.trans hthere, hrun ▸ hthere⟩

/-- A derivable table has the same view in all runs of one setup, up to a renaming. -/
theorem Reachable.exists_view (h' : r'.Reachable) (hsetup : r'.setup = r.setup)
    (hfind : r.setup.catalog.table name = .ok t) (hderivable : Derivable r.setup t) :
    ∃ view ρ, (r.materialize name).1 = .ok view ∧ (r'.materialize name).1 = .ok (view.rename ρ) ∧
      Carries ρ (r.materialize name).2 (r'.materialize name).2 := by
  have hfind' : r'.setup.catalog.table name = .ok t := hsetup ▸ hfind
  obtain ⟨view, hview, hthere⟩ :=
    h.exists_materialized hfind ((h.initTable_eq_ok_iff hfind).2 hderivable)
  obtain ⟨view', hview', hthere'⟩ :=
    h'.exists_materialized hfind' ((h'.initTable_eq_ok_iff hfind').2 (hsetup ▸ hderivable))
  have hafter : ∀ {r : Run}, r.Reachable → (r.materialize name).2.setup = r.setup := by
    intro r h
    obtain ⟨hwf, cs, h⟩ := h.exists_consistent
    exact (consistent_after hwf h (.materialize name)).1
  obtain ⟨hwf, cs, hmade⟩ := (h.call (.materialize name)).exists_madeOf
  obtain ⟨-, cs', hmade'⟩ := (h'.call (.materialize name)).exists_madeOf
  have hsame : (r'.materialize name).2.setup = (r.materialize name).2.setup :=
    (hafter h').trans (hsetup.trans (hafter h).symm)
  obtain ⟨ρ, hρ⟩ := exists_carries hwf hmade (hsame ▸ hmade') hsame
  exact ⟨view, ρ, hview, hρ.views name view view' hthere hthere' ▸ hview', hρ⟩

/-- Calls for the same tables, in runs that agree, end with runs that agree. -/
theorem Reachable.agree_afterAll (h' : r'.Reachable) (hsetup : r'.setup = r.setup) (hagree : r.Agree r')
    {calls calls' : List Call}
    (htargets : ∀ t, Targets r.setup.catalog calls t ↔ Targets r.setup.catalog calls' t) :
    (r.afterAll calls).Agree (r'.afterAll calls') := by
  obtain ⟨hwf, cs, h⟩ := h.exists_consistent
  obtain ⟨hwf', cs', h'⟩ := h'.exists_consistent
  obtain ⟨ds, hall, hsettled⟩ := consistent_afterAll hwf h calls
  obtain ⟨ds', hall', hsettled'⟩ := consistent_afterAll hwf' h' calls'
  rw [hsetup] at h' hall' hsettled'
  have hbefore : ∀ u, r.state.Settled r.setup cs u ↔ r'.state.Settled r.setup cs' u := fun u =>
    ⟨hagree.settled hwf h h', hagree.symm.settled hwf h' h⟩
  refine agree_of_settled hwf hall hall' fun u => ?_
  simp only [hsettled u, hsettled' u, htargets, hbefore u]

end

/-- Initialization is confluent. A table can be initialized iff it is derivable, and a derivable table has the
same view in all runs of one setup, up to a renaming that carries all that these have in common. In runs in
which the same tables are materialized and failed, calls for the same tables, in any order and any number of
times, leave this so. -/
theorem Reachable.confluent (h : r.Reachable) :
    (∀ name t, r.setup.catalog.table name = .ok t →
      ((r.initTable name).1 = .ok () ↔ Derivable r.setup t)) ∧
    ∀ r' : Run, r'.Reachable → r'.setup = r.setup →
      (∀ name t, r.setup.catalog.table name = .ok t → Derivable r.setup t →
        ∃ view ρ, (r.materialize name).1 = .ok view ∧ (r'.materialize name).1 = .ok (view.rename ρ) ∧
          Carries ρ (r.materialize name).2 (r'.materialize name).2) ∧
      ∀ calls calls' : List Call, r.Agree r' →
        (∀ t, Targets r.setup.catalog calls t ↔ Targets r.setup.catalog calls' t) →
        (r.afterAll calls).Agree (r'.afterAll calls') := by
  refine ⟨fun _ _ => h.initTable_eq_ok_iff, fun r' h' hsetup => ⟨fun name t hfind hderivable => ?_, ?_⟩⟩
  · exact h.exists_view h' hsetup hfind hderivable
  · exact fun _ _ hagree htargets => h.agree_afterAll h' hsetup hagree htargets

end Run

namespace Sample

/-- The totals are the same whether the table that is derived from itself failed before or not. -/
theorem confluent_total :
    Derivable run.setup ⟨⟨2⟩, "total", some total⟩ ∧ ¬Derivable run.setup ⟨⟨3⟩, "loop", some loop⟩ ∧
      (∃ view ρ, (run.materialize "total").1 = .ok view ∧
        ((run.after (.execute "loop")).materialize "total").1 = .ok (view.rename ρ)) ∧
      (run.afterAll [.materialize "total", .execute "loop"]).Agree
        (run.afterAll [.initTable "loop", .execute "total", .materialize "loop"]) := by
  have htotal : run.setup.catalog.table "total" = .ok ⟨⟨2⟩, "total", some total⟩ := rfl
  have hloop : run.setup.catalog.table "loop" = .ok ⟨⟨3⟩, "loop", some loop⟩ := rfl
  have hok : (run.initTable "total").1 = .ok () := rfl
  have herror : (run.initTable "loop").1 ≠ .ok () := nofun
  obtain ⟨hiff, hsame⟩ := Run.Reachable.confluent reachable_run
  have hderivable := (hiff _ _ htotal).1 hok
  obtain ⟨hviews, -⟩ := hsame _ (.call reachable_run (.execute "loop")) rfl
  obtain ⟨view, ρ, hview, hview', -⟩ := hviews _ _ htotal hderivable
  obtain ⟨-, hcalls⟩ := hsame run reachable_run rfl
  refine ⟨hderivable, fun h => herror ((hiff _ _ hloop).2 h), ⟨view, ρ, hview, hview'⟩, ?_⟩
  refine hcalls _ _ ⟨fun _ => Iff.rfl, fun _ => Iff.rfl⟩ fun t => ?_
  simp only [Run.targets_cons, Run.Call.table?]
  tauto

end Sample

end Provenance

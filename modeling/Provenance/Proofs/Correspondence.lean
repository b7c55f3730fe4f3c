import Provenance.Proofs.Initialization.Derivable
import Provenance.Proofs.Initialization.Invariant
import Provenance.Proofs.View
import Provenance.Run

/-!
# Runs that are the same up to a renaming

What two runs of one setup have both materialized differs in identities only: a single renaming carries all
views and all edges of their rows and values from one run to the other (`Run.exists_carries`).
-/

namespace Provenance

namespace Run

variable {r r' : Run} {cs cs' : List Commit} {name : String}

/-- The identities of what two runs share: those of definitions, and for every table that is materialized in
both those of the table, its rows and its values in the first run, and of all that these were made from. -/
def shared (r r' : Run) : Set Id :=
  {id | (∃ e ∈ r.setup.catalog.entities, e.id = id) ∨
    ∃ name view view', r.tableView name = .ok view ∧ r'.tableView name = .ok view' ∧
      (view.populated.id = id ∨ ∃ e ∈ view.shown, e.id = id ∨
        ∃ edge ∈ r.state.log.ownedBy e.id, edge.target.id = id)}

/-- A renaming of identities carries one run to another. Definitions stay, and what was apart is kept apart. A
table that is materialized in both has the same view, and its rows and values own the same edges. -/
structure Carries (ρ : Id → Id) (r r' : Run) : Prop where
  definitions : ∀ e ∈ r.setup.catalog.entities, ρ e.id = e.id
  apart : Set.InjOn ρ (r.shared r')
  views : ∀ name view view', r.tableView name = .ok view → r'.tableView name = .ok view' →
    view' = view.rename ρ
  edges : ∀ name view view', r.tableView name = .ok view → r'.tableView name = .ok view' →
    ∀ e ∈ view.shown, r'.state.log.ownedBy (ρ e.id) = (r.state.log.ownedBy e.id).map (Edge.rename ρ)

/-- A definition, or what stands in the same place of two materializations of a table. -/
private def Corresponds (c : Catalog) (s s' : Store) (e e' : Entity) : Prop :=
  (e = e' ∧ e ∈ c.entities) ∨ s.Twins s' e e'

private theorem renames_corresponds {setup : Setup} (hwf : setup.catalog.WellFormed)
    (h : History setup cs) (h' : History setup cs') :
    Entity.Renames (Corresponds setup.catalog (Commit.storeOf cs) (Commit.storeOf cs')) := by
  have hs := h.sound hwf
  have hs' := h'.sound hwf
  have hapart : ∀ {a b b'}, a ∈ setup.catalog.entities →
      (Commit.storeOf cs).Twins (Commit.storeOf cs') b b' → a.id ≠ b.id ∧ a.id ≠ b'.id := by
    rintro a b b' ha ⟨x, hx, x', hx', -, -, i, -, hb, hb'⟩
    obtain ⟨c, hc, rfl⟩ := List.mem_map.1 hx
    obtain ⟨c', hc', rfl⟩ := List.mem_map.1 hx'
    have hlt := h.above hc ha
    have hlt' := h'.above hc' ha
    constructor
    · intro hid
      rw [hid] at hlt
      omega
    · intro hid
      rw [hid] at hlt'
      omega
  constructor
  · rintro a _ (⟨rfl, -⟩ | ha)
    · rfl
    · exact (Store.renames_twins hs hs').kind _ _ ha
  · rintro a b a' b' (⟨rfl, ha⟩ | ha) (⟨rfl, hb⟩ | hb)
    · exact Iff.rfl
    · exact iff_of_false (hapart ha hb).1 (hapart ha hb).2
    · exact iff_of_false (hapart hb ha).1.symm (hapart hb ha).2.symm
    · exact (Store.renames_twins hs hs').id _ _ _ _ ha hb

/-- The view of a table is that of what was committed for it. -/
theorem exists_of_tableView {view : TableView} (hwf : r.setup.catalog.WellFormed)
    (h : r.state.MadeOf r.setup cs) (hview : r.tableView name = .ok view) :
    ∃ c ∈ cs, c.table.name = name ∧ view = c.draft.extent.view r.setup.catalog name := by
  have hfor : ∃ t p, r.setup.catalog.table name = .ok t ∧ r.state.store.populatedFor? t.id = some p := by
    unfold tableView TableView.ofStore at hview
    obtain ⟨t, ht, hview⟩ := Except.bind_eq_ok_iff.1 hview
    split at hview
    · cases hview
    · next p hp => exact ⟨t, p, ht, hp⟩
  obtain ⟨t, p, hfind, hp⟩ := hfor
  obtain ⟨ht, rfl⟩ := Catalog.mem_of_table hfind
  obtain ⟨hp, htable⟩ := Store.of_last?_eq_some hp
  obtain ⟨x, hx, rfl⟩ := List.mem_map.1 hp
  have htable := of_decide_eq_true htable
  have hof := Extent.ofStore_eq hwf (h.sound hwf) ht hx htable
  obtain ⟨c, hc, rfl⟩ := h.exists_of_mem_extents hx
  have heq := hwf.table_eq (h.history.known hc) ht ((h.history.populates hc).table.symm.trans htable)
  exact ⟨c, hc, congrArg Table.name heq, Except.ok.inj (hview.symm.trans hof)⟩

theorem tableView_of_committed {c : Commit} (hwf : r.setup.catalog.WellFormed)
    (h : r.state.MadeOf r.setup cs) (hc : c ∈ cs) :
    r.tableView c.table.name = .ok (c.draft.extent.view r.setup.catalog c.table.name) :=
  Extent.ofStore_eq hwf (h.sound hwf) (h.history.known hc) (h.mem_extents hc)
    (h.history.populates hc).table

/-- Drafts of one table with corresponding edges between corresponding things. -/
private structure Common (E : Entity → Entity → Prop) (d d' : Draft) : Prop where
  twin : d.extent.Twin d'.extent
  pairs : ∀ e e', d.extent.Pairs d'.extent e e' → E e e'
  edges : List.Forall₂ (Edge.Renamed E E) d.edges d'.edges

namespace Common

variable {E : Entity → Entity → Prop} {d d' : Draft} {e : Entity}

private theorem exists_renamed (h : Common E d d') (he : e ∈ d.extent.entities) : ∃ e', E e e' :=
  have ⟨e', hpair⟩ := h.twin.exists_pair he
  ⟨e', h.pairs e e' hpair⟩

variable {ρ : Id → Id} (hρ : ∀ e e', E e e' → e' = e.rename ρ)
include hρ

private theorem view_eq (h : Common E d d') (c : Catalog) (name : String) :
    d'.extent.view c name = (d.extent.view c name).rename ρ :=
  h.twin.view_eq fun e e' hpair => hρ e e' (h.pairs e e' hpair)

private theorem edges_eq (h : Common E d d') : d'.edges = d.edges.map (Edge.rename ρ) := by
  rw [← List.map_id d'.edges]
  refine (h.edges.map_eq fun edge edge' hsame => ?_).symm
  rw [Edge.rename, ← hρ _ _ hsame.owner, ← hρ _ _ hsame.target, hsame.kind]
  rfl

private theorem rename_mem_entities (h : Common E d d') {c : Catalog} {name : String}
    (he : e ∈ (d.extent.view c name).shown) : e.rename ρ ∈ d'.extent.entities := by
  have hshown : e.rename ρ ∈ (d'.extent.view c name).shown := by
    rw [h.view_eq hρ, TableView.shown_rename]
    exact List.mem_map_of_mem he
  exact Extent.mem_entities_of_mem_shown hshown

end Common

/-- What is materialized of a table in two runs of one setup was committed with corresponding edges. -/
private theorem exists_common {view view' : TableView} (hwf : r.setup.catalog.WellFormed)
    (h : r.state.MadeOf r.setup cs) (h' : r'.state.MadeOf r.setup cs') (hsetup : r'.setup = r.setup)
    (hview : r.tableView name = .ok view) (hview' : r'.tableView name = .ok view') :
    ∃ c ∈ cs, ∃ c' ∈ cs', view = c.draft.extent.view r.setup.catalog name ∧
      view' = c'.draft.extent.view r.setup.catalog name ∧
      Common (Corresponds r.setup.catalog (Commit.storeOf cs) (Commit.storeOf cs')) c.draft c'.draft := by
  obtain ⟨c, hc, rfl, hview⟩ := exists_of_tableView hwf h hview
  obtain ⟨c', hc', hname, hview'⟩ := exists_of_tableView (hsetup ▸ hwf) (hsetup ▸ h') hview'
  rw [hsetup] at hview'
  have htable : c'.table = c.table :=
    List.inj_on_of_nodup_map hwf.names (h'.history.known hc') (h.history.known hc) hname
  have hrenamed := h.history.renamed hwf h'.history hc hc' htable.symm
  have hpairs : ∀ e e', c.draft.extent.Pairs c'.draft.extent e e' →
      Corresponds r.setup.catalog (Commit.storeOf cs) (Commit.storeOf cs') e e' := fun e e' hpair =>
    .inr ⟨_, Commit.extent_mem hc, _, Commit.extent_mem hc', hrenamed.twin, hpair⟩
  refine ⟨c, hc, c', hc', hview, hview', hrenamed.twin, hpairs, hrenamed.edges.imp ?_⟩
  rintro edge edge' (⟨rfl, howner, htarget⟩ | hedge)
  · exact ⟨rfl, .inl ⟨rfl, howner⟩, .inl ⟨rfl, htarget⟩⟩
  · exact ⟨hedge.kind, hpairs _ _ hedge.owner, .inr hedge.target⟩

/-- Two runs of one setup are the same up to a renaming, as far as both have materialized it. -/
theorem exists_carries (hwf : r.setup.catalog.WellFormed) (h : r.state.MadeOf r.setup cs)
    (h' : r'.state.MadeOf r.setup cs') (hsetup : r'.setup = r.setup) : ∃ ρ, Carries ρ r r' := by
  obtain ⟨ρ, hρ, hinj⟩ := (renames_corresponds hwf h.history h'.history).exists_renaming
  refine ⟨ρ, fun e he => congrArg Entity.id (hρ e e (.inl ⟨rfl, he⟩)).symm, hinj.mono ?_, ?_, ?_⟩
  · rintro _ (⟨e, he, rfl⟩ | ⟨name, view, view', hview, hview', hid⟩)
    · exact ⟨e, e, .inl ⟨rfl, he⟩, rfl⟩
    obtain ⟨c, hc, c', -, rfl, -, hcommon⟩ := exists_common hwf h h' hsetup hview hview'
    rcases hid with rfl | ⟨e, he, rfl | ⟨edge, hedge, rfl⟩⟩
    · exact ⟨_, _, hcommon.pairs _ _ (Extent.pairs_populated hcommon.twin), rfl⟩
    · obtain ⟨e', he'⟩ := hcommon.exists_renamed (Extent.mem_entities_of_mem_shown he)
      exact ⟨e, e', he', rfl⟩
    · rw [h.ownedBy_eq hwf hc (Extent.mem_entities_of_mem_shown he)] at hedge
      obtain ⟨edge', -, hsame⟩ := hcommon.edges.exists_of_mem_left (List.mem_filter.1 hedge).1
      exact ⟨_, _, hsame.target, rfl⟩
  · intro name view view' hview hview'
    obtain ⟨c, -, c', -, rfl, rfl, hcommon⟩ := exists_common hwf h h' hsetup hview hview'
    exact hcommon.view_eq hρ _ _
  · intro name view view' hview hview' e hshown
    obtain ⟨c, hc, c', hc', rfl, -, hcommon⟩ := exists_common hwf h h' hsetup hview hview'
    have he := Extent.mem_entities_of_mem_shown hshown
    have howned := h'.ownedBy_eq hwf hc' (hcommon.rename_mem_entities hρ hshown)
    rw [hcommon.edges_eq hρ, List.filter_map] at howned
    rw [h.ownedBy_eq hwf hc he]
    refine howned.trans (congrArg _ (List.filter_congr fun edge hedge => ?_))
    obtain ⟨e', he'⟩ := hcommon.exists_renamed he
    obtain ⟨edge', -, hsame⟩ := hcommon.edges.exists_of_mem_left hedge
    refine decide_eq_decide.2 ⟨fun hid => ?_, fun hid => congrArg ρ hid⟩
    exact hinj ⟨_, _, hsame.owner, rfl⟩ ⟨_, _, he', rfl⟩ hid

end Run

end Provenance

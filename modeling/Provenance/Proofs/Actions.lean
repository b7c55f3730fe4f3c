import Provenance.Proofs.Correspondence
import Provenance.Proofs.Initialization.Moved

/-!
# Runs elsewhere

What is done to a run is a list of actions: calls and new beginnings, while time passes (`Run.actAll`). Two
runs over one catalog that start at different numbers stay alike whatever is done to both, if the entities that
the second one is asked for are those of the first one moved on (`Run.Moved.actAll`). So each further call
gives the same (`Run.Moved.sameResults`).
-/

namespace Provenance

/-- What is answered about an entity and about the renamed one: the renamed answer, or a refusal that names the
entity. -/
def Answer.Renamed {α : Type} (ρ : Id → Id) (f : α → α) (e : Entity) (x x' : Except Error α) : Prop :=
  x' = x.map f ∨ x = .error (.dangling e) ∧ x' = .error (.dangling (e.rename ρ))

/-- An outcome with the identity of the trail renamed. -/
def RunOutcome.rename (ρ : Id → Id) (o : RunOutcome) : RunOutcome := { o with trail := ρ o.trail }

/-- Asking for what belongs to no table. -/
theorem init_of_tableOf?_eq_none {setup : Setup} {s : State} {e : Entity}
    (h : setup.catalog.tableOf? e = none) :
    Provenance.init setup e s = if s.isInitialized e.id then (.ok (), s.skip)
      else if !e.kind.isDefinitional && s.store.contains e then (.ok (), s) else (.error (.dangling e), s) := by
  unfold Provenance.init
  rw [h]
  cases e.kind.isDefinitional <;> rfl

namespace Run

/-- What can be done to a run, or happen to it. -/
inductive Action where
  | call (request : Call)
  | reset
  /-- Time passes. -/
  | wait (now : Timestamp)

/-- The call with the entity that it is for renamed. -/
def Call.rename (ρ : Id → Id) : Call → Call
  | .init e => .init (e.rename ρ)
  | .initTable name => .initTable name
  | .materialize name => .materialize name
  | .execute target => .execute target

/-- Actions that differ in identities and times only. -/
inductive Action.Renamed (ρ : Id → Id) : Action → Action → Prop
  | call (request : Call) : Action.Renamed ρ (.call request) (.call (request.rename ρ))
  | reset : Action.Renamed ρ .reset .reset
  | wait (now now' : Timestamp) : Action.Renamed ρ (.wait now) (.wait now')

/-- The run after an action. -/
def act (r : Run) : Action → Run
  | .call request => r.after request
  | .reset => r.reset
  | .wait now => { r with state := { r.state with now } }

/-- The run after actions. -/
def actAll (r : Run) (actions : List Action) : Run := actions.foldl act r

/-- What is reachable stays reachable whatever is done. -/
theorem Reachable.actAll {r : Run} (h : r.Reachable) (actions : List Action) :
    (r.actAll actions).Reachable := by
  induction actions generalizing r with
  | nil => exact h
  | cons action _ ih =>
    cases action with
    | call request => exact ih (h.call request)
    | reset => exact ih h.reset
    | wait now => exact ih (h.wait now)

/-- Whatever a run is asked for next, the other one gives the same with identities renamed. -/
structure SameResults (ρ : Id → Id) (r r' : Run) : Prop where
  init : ∀ e, Answer.Renamed ρ id e (r.init e).1 (r'.init (e.rename ρ)).1
  initTable : ∀ name, (r'.initTable name).1 = (r.initTable name).1
  materialize : ∀ name, (r'.materialize name).1 = (r.materialize name).1.map (TableView.rename ρ)
  execute : ∀ target, (r'.execute target).1 = (r.execute target).1.rename ρ

theorem tableView_of_unknown {r : Run} {name : String} (h : r.setup.catalog.table? name = none) :
    r.tableView name = .error (.unknownTable name) := by
  unfold tableView TableView.ofStore Catalog.table
  rw [h]
  rfl

theorem tableView_of_new {r : Run} {cs : List Commit} {t : Table} (hwf : r.setup.catalog.WellFormed)
    (h : r.state.MadeOf r.setup cs) (ht : t ∈ r.setup.catalog.tables) (hnew : ¬∃ c ∈ cs, c.table = t) :
    r.tableView t.name = .error (.violation (.notMaterialized t.name)) := by
  have hfor : r.state.store.populatedFor? t.id = none := by
    cases hfor : r.state.store.populatedFor? t.id with
    | none => rfl
    | some p =>
      obtain ⟨hp, htable⟩ := Store.of_last?_eq_some hfor
      obtain ⟨x, hx, rfl⟩ := List.mem_map.1 hp
      obtain ⟨c, hc, rfl⟩ := h.exists_of_mem_extents hx
      have htable := (h.history.populates hc).table.symm.trans (of_decide_eq_true htable)
      exact absurd ⟨c, hc, hwf.table_eq (h.history.known hc) ht htable⟩ hnew
  unfold tableView TableView.ofStore
  rw [hwf.table_of_mem ht, Except.bind_of_ok rfl, hfor]

/-- Two runs over one catalog, the identities of the second one moved on and only the edges of some kinds
recorded in it. -/
structure Moved (ρ : Id → Id) (n n' : Nat) (keep : Edge.Kind → Bool) (r r' : Run) : Prop where
  wellFormed : r.setup.catalog.WellFormed
  keeps : r.setup.Keeps r'.setup keep
  moves : Id.Moves r.setup.catalog n n' ρ
  states : ∃ before before', r.state.MadeOf r.setup before ∧ r'.state.MadeOf r'.setup before' ∧
    r.state.Moved ρ n n' keep before r'.state before'

namespace Moved

variable {ρ : Id → Id} {n n' : Nat} {keep : Edge.Kind → Bool} {r r' : Run} (h : Moved ρ n n' keep r r')
include h

/-- Asking for a table of the catalog. -/
private theorem initTable_table (t : Table) :
    let ask (r : Run) := r.step (Provenance.initTable r.setup (r.setup.catalog.tables.length + 1) [] t.entity)
    (ask r').1 = (ask r).1 ∧ Moved ρ n n' keep (ask r).2 (ask r').2 := by
  obtain ⟨before, before', hs, hs', hmoved⟩ := h.states
  have hsim := simulates_moved h.wellFormed h.keeps h.moves
  obtain ⟨cs, hout⟩ := initializes_of_initTable r.setup t r.state
  obtain ⟨cs', out', hout', hresult, hmoved'⟩ := hout.simulate h.wellFormed hsim hs hs' hmoved
  have hmade := (hout.madeOf_and_committed h.wellFormed hs).1
  have hmade' := (hout'.madeOf_and_committed (h.keeps.catalog ▸ h.wellFormed) hs').1
  dsimp only [step]
  rw [hout'.initTable_eq]
  exact ⟨hresult, { h with states := ⟨_, _, hmade, hmade', hmoved'⟩ }⟩

theorem init (e : Entity) :
    Answer.Renamed ρ id e (r.init e).1 (r'.init (e.rename ρ)).1 ∧
      Moved ρ n n' keep (r.init e).2 (r'.init (e.rename ρ)).2 := by
  obtain ⟨before, before', hs, hs', hmoved⟩ := h.states
  have hcatalog := h.keeps.catalog
  have hsame : ∀ x : Except Error Unit, x = x.map id := fun x => by cases x <;> rfl
  cases ht : r.setup.catalog.tableOf? e with
  | some t =>
    have ht' : r'.setup.catalog.tableOf? (e.rename ρ) = some t := by
      rw [hcatalog, h.moves.tableOf?, ht]
    obtain ⟨hresult, hafter⟩ := h.initTable_table t
    unfold Run.init
    unfold step at hresult hafter ⊢
    rw [init_of_tableOf? h.wellFormed hs ht, init_of_tableOf? (hcatalog ▸ h.wellFormed) hs' ht']
    exact ⟨.inl (hresult.trans (hsame _)), hafter⟩
  | none =>
    have ht' : r'.setup.catalog.tableOf? (e.rename ρ) = none := by
      rw [hcatalog, h.moves.tableOf?, ht]
    have hthere : r'.state.isInitialized (e.rename ρ).id = r.state.isInitialized e.id :=
      hmoved.isInitialized h.wellFormed h.moves hs hs' e.id
    have hcontains := (hmoved.store hs hs').contains (hmoved.apart h.wellFormed h.moves hs) e
    have hkind : (e.rename ρ).kind = e.kind := rfl
    unfold Run.init step
    rw [init_of_tableOf?_eq_none ht, init_of_tableOf?_eq_none ht', hthere, hcontains, hkind]
    generalize (!e.kind.isDefinitional && r.state.store.contains e) = known
    cases r.state.isInitialized e.id with
    | true =>
      have hskip : r.state.skip.Moved ρ n n' keep before r'.state.skip before' :=
        { hmoved with skipped := congrArg (· + 1) hmoved.skipped }
      exact ⟨.inl rfl, { h with states := ⟨before, before', hs.skip, hs'.skip, hskip⟩ }⟩
    | false =>
      cases known with
      | true => exact ⟨.inl rfl, h⟩
      | false => exact ⟨.inr ⟨rfl, rfl⟩, h⟩

theorem initTable (name : String) :
    (r'.initTable name).1 = (r.initTable name).1 ∧
      Moved ρ n n' keep (r.initTable name).2 (r'.initTable name).2 := by
  obtain ⟨before, before', hs, hs', hmoved⟩ := h.states
  have hcatalog := h.keeps.catalog
  cases hfind : r.setup.catalog.table? name with
  | none =>
    rw [initTable_of_unknown hfind, initTable_of_unknown (hcatalog ▸ hfind)]
    exact ⟨rfl, h⟩
  | some t =>
    rw [initTable_of_table? h.wellFormed hs hfind,
      initTable_of_table? (hcatalog ▸ h.wellFormed) hs' (hcatalog ▸ hfind)]
    exact h.initTable_table t

theorem tableView (name : String) : r'.tableView name = (r.tableView name).map (TableView.rename ρ) := by
  obtain ⟨before, before', hs, hs', hmoved⟩ := h.states
  have hcatalog := h.keeps.catalog
  have hwf := h.wellFormed
  cases hfind : r.setup.catalog.table? name with
  | none =>
    rw [tableView_of_unknown hfind, tableView_of_unknown (hcatalog ▸ hfind)]
    rfl
  | some t =>
    have ht : t ∈ r.setup.catalog.tables := List.mem_of_find?_eq_some hfind
    have hname : t.name = name := by simpa using List.find?_some hfind
    subst hname
    by_cases hc : ∃ c ∈ before, c.table = t
    · obtain ⟨c, hc, rfl⟩ := hc
      obtain ⟨c', hc', himage⟩ := hmoved.commits.exists_of_mem_left hc
      have hnext := hmoved.next_of_mem h.moves hc himage
      have htwin := himage.twin hwf h.moves hs.history hc hnext
      have hview' := tableView_of_committed (hcatalog ▸ hwf) hs' hc'
      rw [himage.table, htwin.view_eq fun e e' he => Extent.rename_of_pairs hnext he, hcatalog] at hview'
      rw [hview', tableView_of_committed hwf hs hc]
      rfl
    · have hc' : ¬∃ c ∈ before', c.table = t := fun hc' => hc (hmoved.remember.exists_commit.2 hc')
      rw [tableView_of_new hwf hs ht hc, tableView_of_new (hcatalog ▸ hwf) hs' (hcatalog ▸ ht) hc']
      rfl

theorem materialize (name : String) :
    (r'.materialize name).1 = (r.materialize name).1.map (TableView.rename ρ) ∧
      Moved ρ n n' keep (r.materialize name).2 (r'.materialize name).2 := by
  obtain ⟨hresult, hafter⟩ := h.initTable name
  unfold Run.materialize
  generalize r.initTable name = asked at hresult hafter ⊢
  generalize r'.initTable name = asked' at hresult hafter ⊢
  obtain ⟨result, after⟩ := asked
  obtain ⟨result', after'⟩ := asked'
  cases hresult
  cases result with
  | error => exact ⟨rfl, hafter⟩
  | ok => exact ⟨hafter.tableView name, hafter⟩

theorem execute (target : String) :
    (r'.execute target).1 = (r.execute target).1.rename ρ ∧
      Moved ρ n n' keep (r.execute target).2 (r'.execute target).2 := by
  obtain ⟨hresult, hafter⟩ := h.initTable target
  obtain ⟨before, before', hs, hs', hmoved⟩ := hafter.states
  unfold Run.execute
  generalize r.initTable target = asked at *
  generalize r'.initTable target = asked' at *
  obtain ⟨result, after⟩ := asked
  obtain ⟨result', after'⟩ := asked'
  cases hresult
  dsimp only at hafter hmoved hs hs' ⊢
  have htrail := fun status => hmoved.trail.finish status after.state.now after'.state.now
  constructor
  · unfold RunOutcome.rename
    dsimp only
    rw [(htrail _).id, (htrail _).status, hmoved.failures]
  · exact { hafter with states := ⟨before, before', hs.same ⟨rfl, rfl, rfl, rfl, rfl⟩,
      hs'.same ⟨rfl, rfl, rfl, rfl, rfl⟩, { hmoved with trail := htrail _ }⟩ }

/-- A new beginning. -/
theorem reset : Moved ρ n n' keep r.reset r'.reset := by
  obtain ⟨before, before', hs, hs', hmoved⟩ := h.states
  have hcatalog := h.keeps.catalog
  obtain ⟨k, hnext, hnext'⟩ := hmoved.next
  refine { h with states := ⟨[], [], .start fun e he => Nat.lt_succ_of_lt (hs.above e he),
    .start fun e he => Nat.lt_succ_of_lt (hs'.above e he), ?_⟩ }
  exact {
    commits := .nil
    above := fun _ hc => absurd hc List.not_mem_nil
    failures := rfl
    skipped := rfl
    trail := {
      id := (hmoved.next_opening h.moves 0).symm
      name := hmoved.trail.name
      context := hmoved.trail.context
      catalog := congrArg Catalog.id hcatalog
      fingerprint := congrArg Catalog.fingerprint hcatalog
      status := rfl
      finished := rfl }
    next := ⟨k + 1, by change r.state.nextId + 1 = _; omega, by change r'.state.nextId + 1 = _; omega⟩ }

theorem act {action action' : Action} (haction : action.Renamed ρ action') :
    Moved ρ n n' keep (r.act action) (r'.act action') := by
  cases haction with
  | reset => exact h.reset
  | wait now now' =>
    obtain ⟨before, before', hs, hs', hmoved⟩ := h.states
    exact { h with states := ⟨before, before', hs.same ⟨rfl, rfl, rfl, rfl, rfl⟩,
      hs'.same ⟨rfl, rfl, rfl, rfl, rfl⟩, { hmoved with }⟩ }
  | call request =>
    cases request with
    | init e => exact (h.init e).2
    | initTable name => exact (h.initTable name).2
    | materialize name =>
      exact (h.materialize name).2
    | execute target => exact (h.execute target).2

/-- Runs stay alike whatever is done to both. -/
theorem actAll {actions actions' : List Action} (hactions : List.Forall₂ (Action.Renamed ρ) actions actions') :
    Moved ρ n n' keep (r.actAll actions) (r'.actAll actions') := by
  induction hactions generalizing r r' with
  | nil => exact h
  | cons haction _ ih => exact ih (h.act haction)

theorem failures : r'.state.failures = r.state.failures :=
  have ⟨_, _, _, _, hmoved⟩ := h.states
  hmoved.failures

theorem store : r.state.store.Image ρ r'.state.store :=
  have ⟨_, _, hs, hs', hmoved⟩ := h.states
  hmoved.store hs hs'

theorem edges :
    r'.state.log.edges = (r.state.log.edges.filter fun edge => keep edge.kind).map (Edge.rename ρ) :=
  have ⟨_, _, hs, hs', hmoved⟩ := h.states
  hmoved.edges hs hs'

theorem sameResults : SameResults ρ r r' where
  init e := (h.init e).1
  initTable name := (h.initTable name).1
  materialize name := (h.materialize name).1
  execute target := (h.execute target).1

end Moved

/-- Runs that begin at different numbers. -/
theorem moved_start {engine engine' : Engine} {firstId firstId' : Nat} {ρ : Id → Id} {keep : Edge.Kind → Bool}
    {name : String} {context : List (String × Json)} {data : SourceData} (now now' : Timestamp)
    (hwf : engine.catalog.WellFormed) (hids : ∀ e ∈ engine.catalog.entities, e.id.number < firstId)
    (hids' : ∀ e ∈ engine.catalog.entities, e.id.number < firstId')
    (hkeeps : (engine.start firstId now name context data).setup.Keeps
      (engine'.start firstId' now' name context data).setup keep)
    (hρ : Id.Moves engine.catalog firstId firstId' ρ) :
    Moved ρ firstId firstId' keep (engine.start firstId now name context data)
      (engine'.start firstId' now' name context data) := by
  have hcatalog : engine'.catalog = engine.catalog := hkeeps.catalog
  refine ⟨hwf, hkeeps, hρ, [], [], .start fun e he => Nat.lt_succ_of_lt (hids e he),
    .start fun e he => Nat.lt_succ_of_lt (hids' e (hcatalog ▸ he)), ?_⟩
  exact {
    commits := .nil
    above := fun _ hc => absurd hc List.not_mem_nil
    failures := rfl
    skipped := rfl
    trail := {
      id := (hρ.next 0).symm
      name := rfl
      context := rfl
      catalog := congrArg Catalog.id hcatalog
      fingerprint := congrArg Catalog.fingerprint hcatalog
      status := rfl
      finished := rfl }
    next := ⟨0, rfl, rfl⟩ }

end Run

end Provenance

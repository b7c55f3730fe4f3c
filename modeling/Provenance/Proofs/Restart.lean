import Provenance.Proofs.Answers
import Provenance.Proofs.Outcome

/-!
# Starting again

After a new beginning nothing of what was done before has a part in anything: a run that begins again is one
that the engine started (`Run.Continues.reset_eq`). So whatever is done next, it answers every question as a
run does that was started anew, but for the identities and the times of what belongs to the trail
(`Engine.reset_is_start`).
-/

namespace Provenance

namespace Run

/-- The second run goes on with what the first one was started with. -/
structure Continues (r r' : Run) : Prop where
  setup : r'.setup = r.setup
  name : r'.state.trail.name = r.state.trail.name
  context : r'.state.trail.context = r.state.trail.context

theorem Continues.trans {r r' r'' : Run} (h : r.Continues r') (h' : r'.Continues r'') : r.Continues r'' :=
  ⟨h'.setup.trans h.setup, h'.name.trans h.name, h'.context.trans h.context⟩

theorem continues_initTable (r : Run) (name : String) : r.Continues (r.initTable name).2 :=
  have htrail := trail_runInitTable r name
  ⟨setup_initTable r name, congrArg Trail.name htrail, congrArg Trail.context htrail⟩

theorem continues_act (r : Run) (action : Action) : r.Continues (r.act action) := by
  have hfinish : ∀ (t : Trail) status now, (t.finish status now).name = t.name ∧
      (t.finish status now).context = t.context := by
    intro t status now
    obtain ⟨_, _, heq⟩ := t.finish_eq status now
    rw [heq]
    exact ⟨rfl, rfl⟩
  cases action with
  | reset | wait => exact ⟨rfl, rfl, rfl⟩
  | call request =>
    cases request with
    | init e =>
      have htrail : (r.init e).2.state.trail = r.state.trail := trail_init
      exact ⟨rfl, congrArg Trail.name htrail, congrArg Trail.context htrail⟩
    | initTable name => exact continues_initTable r name
    | materialize name =>
      rw [act, after_materialize]
      exact continues_initTable r name
    | execute target =>
      have hasked := continues_initTable r target
      exact ⟨hasked.setup, (hfinish _ _ _).1.trans hasked.name, (hfinish _ _ _).2.trans hasked.context⟩

/-- A run that begins again is one that the engine started. -/
theorem Continues.reset_eq {engine : Engine} {firstId : Nat} {now : Timestamp} {name : String}
    {context : List (String × Json)} {data : SourceData} {r : Run}
    (h : (engine.start firstId now name context data).Continues r) :
    r.reset = engine.start r.state.nextId r.state.now name context data := by
  have hname : r.state.trail.name = name := h.name
  have hcontext : r.state.trail.context = context := h.context
  unfold reset
  dsimp only
  rw [hname, hcontext, h.setup]
  rfl

/-- Whatever is done to a run, it is that of the same engine, over the same records. -/
theorem continues_actAll (r : Run) (actions : List Action) : r.Continues (r.actAll actions) := by
  induction actions generalizing r with
  | nil => exact ⟨rfl, rfl, rfl⟩
  | cons action _ ih => exact (continues_act r action).trans (ih _)

end Run

/-- Whatever was done to a run before it began again, whatever is done to it next and whatever it is asked
then, it answers as a run does that the engine started anew with the same name, context and records. The
answers differ in times and by a renaming that leaves the definitions, and that takes no two identities of the
new trail to one. -/
theorem Engine.reset_is_start {schema : Schema} {first firstId firstId' : Nat} {engine : Engine}
    (compiled : schema.compile first = .ok engine.catalog) (ids : schema.nextId first ≤ firstId)
    (ids' : schema.nextId first ≤ firstId') (now now' : Timestamp) (name : String)
    (context : List (String × Json)) (data : SourceData) (earlier : List Run.Action) :
    let r := ((engine.start firstId now name context data).actAll earlier).reset
    let r' := engine.start firstId' now' name context data
    ∃ ρ : Id → Id, (∀ e ∈ engine.catalog.entities, ρ e.id = e.id) ∧
      Set.InjOn ρ {id | (∃ e ∈ engine.catalog.entities, e.id = id) ∨ r.state.trail.id.number ≤ id.number} ∧
      ∀ actions actions', List.Forall₂ (Run.Action.Renamed ρ) actions actions' →
        (r.actAll actions).SameAnswers ρ (r'.actAll actions') := by
  intro r r'
  let before := (engine.start firstId now name context data).actAll earlier
  have hreset : r = engine.start before.state.nextId before.state.now name context data :=
    ((engine.start firstId now name context data).continues_actAll earlier).reset_eq
  have hreachable : before.Reachable := (Run.Reachable.start compiled ids).actAll earlier
  have hsetup : before.setup = r'.setup :=
    ((engine.start firstId now name context data).continues_actAll earlier).setup
  obtain ⟨hwf, cs, hmade⟩ := hreachable.exists_madeOf
  rw [hsetup] at hwf hmade
  have hbelow' : ∀ e ∈ engine.catalog.entities, e.id.number < firstId' :=
    fun e he => Nat.lt_of_lt_of_le (Schema.id_lt_of_compile compiled he) ids'
  obtain ⟨ρ, hρ⟩ := Id.exists_moves hmade.above hbelow'
  have htrail : r.state.trail.id.number = before.state.nextId := by rw [hreset]; rfl
  refine ⟨ρ, hρ.fixed, htrail ▸ hρ.injOn, fun actions actions' hactions => ?_⟩
  have hstart : Run.Moved ρ before.state.nextId firstId' (fun _ => true) r r' :=
    hreset ▸ Run.moved_start before.state.now now' hwf hmade.above hbelow' (Setup.keeps_all _) hρ
  have hacyclic := (hreachable.reset.actAll actions).acyclic
  have hreachable' : r'.Reachable := .start compiled ids'
  have hacyclic' := (hreachable'.actAll actions').acyclic
  refine (hstart.actAll hactions).sameAnswers hacyclic hacyclic' ?_
  rw [(r.continues_actAll actions).setup, (r'.continues_actAll actions').setup, hreset]
  rfl

namespace Sample

/-- After the totals were asked for, a new beginning and then asking for them again gives what it gave at
first. -/
theorem reset_total :
    let r := (run.actAll [.call (.execute "total"), .call (.materialize "loop")]).reset
    r.state.trail.id = ⟨22⟩ ∧ ∃ ρ, (r.actAll [.call (.materialize "total")]).SameAnswers ρ
      (run.actAll [.call (.materialize "total")]) := by
  have hcompiled : schema.compile 0 = .ok (⟨catalog, ⟨none, .abort, true, true⟩, .empty⟩ : Engine).catalog :=
    rfl
  have hfirst : schema.nextId 0 ≤ 10 := by decide
  obtain ⟨ρ, -, -, halike⟩ := Engine.reset_is_start hcompiled hfirst hfirst .epoch .epoch "run" [] data
    [.call (.execute "total"), .call (.materialize "loop")]
  exact ⟨rfl, ρ, halike _ _ (.cons (.call (.materialize "total")) .nil)⟩

end Sample

end Provenance

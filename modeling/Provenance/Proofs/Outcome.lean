import Provenance.Proofs.Confluence

/-!
# What driving a trail tells

A trail that is still running is ended by the first table that it is driven to, and the outcome then tells
whether that table is there. The trail keeps the status that it ended with, and whatever it is driven to
afterwards has that status in its outcome, whether the table is there or not. Main statement:
`Run.Reachable.execute_status`.
-/

namespace Provenance

namespace Trail

variable {t : Trail} {status : Status} {now : Timestamp}

theorem isTerminal_iff_ne_running {status : Status} : status.isTerminal = true ↔ status ≠ .running := by
  cases status <;> simp [Status.isTerminal]

/-- The end of a trail leaves everything else in it as it is. -/
theorem finish_eq (t : Trail) (status : Status) (now : Timestamp) :
    ∃ status' finishedAt, t.finish status now = { t with status := status', finishedAt } := by
  unfold finish
  split
  · exact ⟨_, _, rfl⟩
  · exact ⟨_, _, rfl⟩

theorem finish_of_terminal (h : t.status.isTerminal = true) : t.finish status now = t := if_pos h

theorem status_finish_of_running (h : t.status = .running) : (t.finish status now).status = status := by
  simp [finish, Status.isTerminal, h]

end Trail

/-! ## Asking for tables leaves the trail alone -/

section

variable {setup : Setup}

theorem trail_initAll {step : Entity → State → Outcome} (hstep : ∀ e s, (step e s).2.trail = s.trail)
    {es : List Entity} {s : State} : (initAll step es s).2.trail = s.trail := by
  induction es generalizing s with
  | nil => rfl
  | cons e rest ih =>
    have he := hstep e s
    unfold initAll
    split
    · next heq =>
      rw [heq] at he
      exact ih.trans he
    · exact he

theorem trail_settle {t : Table} {draft : Except Error Draft} {s : State} :
    (settle setup t draft s).2.trail = s.trail := by
  unfold settle
  cases draft with
  | error e => rfl
  | ok d =>
    have hcommit : (d.commit setup s).2.trail = s.trail := by
      unfold Draft.commit
      split <;> rfl
    dsimp only
    split
    · next heq =>
      rw [heq] at hcommit
      exact hcommit
    · next heq =>
      rw [heq] at hcommit
      exact hcommit

theorem trail_initTable {depth : Nat} {path : List Entity} {e : Entity} {s : State} :
    (initTable setup depth path e s).2.trail = s.trail := by
  induction depth generalizing path e s with
  | zero => rfl
  | succ depth ih =>
    unfold initTable
    split
    · rfl
    · next t _ =>
      have hsources : (initAll (initTable setup depth (path ++ [t.entity])) t.sources s).2.trail =
          s.trail := trail_initAll fun _ _ => ih
      split
      · rfl
      · split
        · rfl
        · split
          · rfl
          · split
            · next heq =>
              rw [heq] at hsources
              exact trail_settle.trans hsources
            · next heq =>
              rw [heq] at hsources
              exact trail_settle.trans hsources

theorem trail_init {e : Entity} {s : State} : (init setup e s).2.trail = s.trail := by
  unfold init
  split
  · rfl
  · split
    · split
      · exact trail_initTable
      · rfl
    · split <;> rfl

end

namespace Run

variable {r : Run} {name : String}

theorem trail_runInitTable (r : Run) (name : String) :
    (r.initTable name).2.state.trail = r.state.trail := by
  unfold initTable
  split
  · exact trail_init
  · rfl

theorem trail_execute_of_ok (h : (r.initTable name).1 = .ok ()) : (r.execute name).2.state.trail =
    r.state.trail.finish .completed (r.initTable name).2.state.now := by
  have htrail := trail_runInitTable r name
  unfold execute
  generalize r.initTable name = out at h htrail ⊢
  obtain ⟨result, r'⟩ := out
  cases h
  exact congrArg (Trail.finish · .completed r'.state.now) htrail

theorem trail_execute_of_error {e : Error} (h : (r.initTable name).1 = .error e) :
    (r.execute name).2.state.trail =
      r.state.trail.finish .failed (r.initTable name).2.state.now := by
  have htrail := trail_runInitTable r name
  unfold execute
  generalize r.initTable name = out at h htrail ⊢
  obtain ⟨result, r'⟩ := out
  cases h
  exact congrArg (Trail.finish · .failed r'.state.now) htrail

/-- A trail that is driven to a table has ended then. -/
theorem status_execute_ne_running (r : Run) (name : String) :
    (r.execute name).2.state.trail.status ≠ .running := by
  by_cases hrunning : r.state.trail.status = .running
  · cases hresult : (r.initTable name).1 with
    | ok =>
      rw [trail_execute_of_ok hresult, Trail.status_finish_of_running hrunning]
      exact nofun
    | error e =>
      rw [trail_execute_of_error hresult, Trail.status_finish_of_running hrunning]
      exact nofun
  · have hterminal := Trail.isTerminal_iff_ne_running.2 hrunning
    cases hresult : (r.initTable name).1 with
    | ok => rwa [trail_execute_of_ok hresult, Trail.finish_of_terminal hterminal]
    | error e => rwa [trail_execute_of_error hresult, Trail.finish_of_terminal hterminal]

/-- A call leaves the trail as it is, or ends it. -/
theorem trail_after (r : Run) (call : Call) : (r.after call).state.trail = r.state.trail ∨
    ∃ status now, (r.after call).state.trail = r.state.trail.finish status now := by
  cases call with
  | init e => exact .inl trail_init
  | initTable name => exact .inl (trail_runInitTable r name)
  | materialize name =>
    rw [after_materialize]
    exact .inl (trail_runInitTable r name)
  | execute name =>
    cases hresult : (r.initTable name).1 with
    | ok => exact .inr ⟨_, _, trail_execute_of_ok hresult⟩
    | error e => exact .inr ⟨_, _, trail_execute_of_error hresult⟩

/-- A trail that has ended stays as it is, whatever is asked for. -/
theorem trail_after_of_ended (h : r.state.trail.status ≠ .running) (call : Call) :
    (r.after call).state.trail = r.state.trail := by
  rcases r.trail_after call with hsame | ⟨status, now, hfinish⟩
  · exact hsame
  · exact hfinish.trans (Trail.finish_of_terminal (Trail.isTerminal_iff_ne_running.2 h))

theorem trail_afterAll_of_ended (h : r.state.trail.status ≠ .running) (calls : List Call) :
    (r.afterAll calls).state.trail = r.state.trail := by
  induction calls generalizing r with
  | nil => rfl
  | cons call calls ih =>
    have hcall := trail_after_of_ended h call
    exact (ih (hcall ▸ h)).trans hcall

/-- Asking for a table by its name succeeds iff the table is there then. -/
theorem Reachable.initTable_eq_ok_iff_tableView (h : r.Reachable) (name : String) :
    (r.initTable name).1 = .ok () ↔ ∃ view, (r.initTable name).2.tableView name = .ok view := by
  obtain ⟨hwf, cs, hmade⟩ := h.exists_madeOf
  constructor
  · intro hok
    cases hfind : r.setup.catalog.table? name with
    | none =>
      rw [initTable_of_unknown hfind] at hok
      cases hok
    | some t =>
      have hfind : r.setup.catalog.table name = .ok t := by
        unfold Catalog.table
        rw [hfind]
      obtain ⟨view, -, hview⟩ := h.exists_materialized hfind hok
      exact ⟨view, (materialize_of_ok hok).2 ▸ hview⟩
  · rintro ⟨view, hview⟩
    cases hfind : r.setup.catalog.table name with
    | error e =>
      obtain ⟨-, -, -, -, hsetup, -⟩ := initializes_of_name hwf hmade name
      unfold tableView TableView.ofStore at hview
      rw [hsetup, hfind] at hview
      cases hview
    | ok t =>
      obtain ⟨ht, rfl⟩ := Catalog.mem_of_table hfind
      obtain ⟨cs', out, hout, hresult, hsetup, hmade'⟩ := initializes_of_table hwf hmade hfind
      obtain ⟨c, hc, hname, -⟩ := exists_of_tableView (hsetup ▸ hwf) (hsetup ▸ hmade') hview
      -- A table that was asked for in vain has no commit.
      cases herror : (r.initTable t.name).1 with
      | ok => rfl
      | error e =>
        have htable : c.table = t := List.inj_on_of_nodup_map hwf.names (hmade'.history.known hc) ht hname
        exact absurd htable
          (hout.new_of_error hwf hmade rfl (hresult.symm.trans herror) (hwf.tableById?_of_mem ht) c hc)

/-- A trail that is running when it is driven to a table tells whether that table is there then. From then on
every outcome has the status that the trail ended with. -/
theorem Reachable.execute_status (h : r.Reachable) (target : String) :
    (r.state.trail.status = .running →
      ((r.execute target).1.status = .completed ↔
        ∃ view, (r.execute target).2.tableView target = .ok view) ∧
      ((r.execute target).1.status = .failed ↔
        ¬∃ view, (r.execute target).2.tableView target = .ok view)) ∧
    ∀ calls later, (((r.execute target).2.afterAll calls).execute later).1.status =
      (r.execute target).1.status := by
  refine ⟨fun hrunning => ?_, fun calls later => ?_⟩
  · have hthere := h.initTable_eq_ok_iff_tableView target
    change ((r.execute target).2.state.trail.status = .completed ↔
        ∃ view, (r.initTable target).2.tableView target = .ok view) ∧
      ((r.execute target).2.state.trail.status = .failed ↔
        ¬∃ view, (r.initTable target).2.tableView target = .ok view)
    rw [← hthere]
    cases hresult : (r.initTable target).1 with
    | ok => simp [trail_execute_of_ok hresult, Trail.status_finish_of_running hrunning]
    | error e => simp [trail_execute_of_error hresult, Trail.status_finish_of_running hrunning]
  · have hended := status_execute_ne_running r target
    have hkept := trail_afterAll_of_ended hended calls
    have hagain := trail_after_of_ended (hkept ▸ hended) (.execute later)
    exact congrArg Trail.status (hagain.trans hkept)

end Run

namespace Sample

/-- A trail that was driven to a table which failed tells of a table which is there that it failed. -/
theorem status_total_of_loop :
    let r := run.after (.execute "loop")
    r.Reachable ∧ (∃ view, (r.execute "total").2.tableView "total" = .ok view) ∧
      (r.execute "total").1.status = .failed :=
  ⟨.call reachable_run _, ⟨_, rfl⟩, rfl⟩

/-- The first table that the trail is driven to decides. -/
theorem status_total :
    (run.execute "total").1.status = .completed ∧
      ((run.after (.execute "total")).execute "loop").1.status = .completed := by
  obtain ⟨htold, hkept⟩ := Run.Reachable.execute_status reachable_run "total"
  have hcompleted := (htold rfl).1.2 ⟨_, rfl⟩
  exact ⟨hcompleted, (hkept [] "loop").trans hcompleted⟩

end Sample

end Provenance

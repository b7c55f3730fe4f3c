import Mathlib.Logic.Relation
import Provenance.Proofs.Reachable

/-!
# Initialization as a machine

`initTable` bounds how deep it goes. A machine has no such bound: it keeps a stack of the tables under way,
each with its sources that are still to be asked for, and does one thing at a time (`StackMachine.next?`). It
comes to the answer that `initTable` gives and then stops (`StackMachine.evaluates_initTable`), so it takes
finitely many steps from wherever a run may be (`StackMachine.Reachable.terminates`). On its way no table is on
the stack twice, and none is begun twice in a trail (`StackMachine.Reachable.orderly`).
-/

namespace Provenance

/-- A table under way, with its sources that are still to be asked for. -/
structure StackMachine.Frame where
  table : Table
  pending : List Entity

/-- What a machine is at: an entity that is asked for, or the answer to the last request. -/
inductive StackMachine.Focus where
  | asks (e : Entity)
  | answers (result : Except Error Unit)

/-- A run in the middle of initialization. -/
structure StackMachine where
  run : Run
  /-- The tables under way, the innermost first. -/
  stack : List StackMachine.Frame
  focus : StackMachine.Focus
  /-- The tables that were begun since the trail of the run started. -/
  begun : List Table

namespace StackMachine

/-- The tables under way as entities, the outermost first. -/
def underWay (stack : List Frame) : List Entity := (stack.map fun frame => frame.table.entity).reverse

/-- The machine after a request was answered. -/
def answer (m : StackMachine) (out : Outcome) : StackMachine :=
  { m with run := ⟨m.run.setup, out.2⟩, focus := .answers out.1 }

/-- The machine after a table was begun. -/
def enter (m : StackMachine) (t : Table) : StackMachine :=
  { m with stack := ⟨t, t.sources⟩ :: m.stack, focus := .answers (.ok ()), begun := m.begun ++ [t] }

/-- The machine after an entity was asked for: the request is answered, or the table is begun. -/
def ask (m : StackMachine) (e : Entity) : StackMachine :=
  let s := m.run.state
  match m.run.setup.catalog.tableById? e.id with
  | none => m.answer (.error (.dangling e), s)
  | some t =>
    if s.isInitialized t.id then m.answer (.ok (), s.skip)
    else
      match s.failureOf? t.id with
      | some failure => m.answer (.error (.failedBefore t.name failure.message), s)
      | none =>
        if t.entity ∈ underWay m.stack then
          m.answer (.error (.cyclic (closePath (underWay m.stack) t.entity)), s)
        else m.enter t

/-- The machine after a step, unless nothing is under way any more. -/
def next? (m : StackMachine) : Option StackMachine :=
  match m.focus, m.stack with
  | .asks e, _ => some (m.ask e)
  | .answers _, [] => none
  | .answers (.error e), frame :: stack =>
    some ({ m with stack }.answer (settle m.run.setup frame.table (.error e) m.run.state))
  | .answers (.ok ()), ⟨t, e :: pending⟩ :: stack =>
    some { m with stack := ⟨t, pending⟩ :: stack, focus := .asks e }
  | .answers (.ok ()), ⟨t, []⟩ :: stack =>
    let s := m.run.state
    let draft := stage m.run.setup s.store (s.opening t) t
    some ({ m with stack }.answer (settle m.run.setup t draft s))

/-- One step of a machine. -/
def Steps (m m' : StackMachine) : Prop := m.next? = some m'

/-- Nothing is asked for, and nothing is under way. -/
def Idle (m : StackMachine) : Prop := m.stack = [] ∧ ∃ result, m.focus = .answers result

/-- The machine with a request for a table. -/
def asking (m : StackMachine) (t : Table) : StackMachine := { m with focus := .asks t.entity }

theorem Idle.next? {m : StackMachine} (h : m.Idle) : m.next? = none := by
  obtain ⟨hstack, result, hfocus⟩ := h
  unfold StackMachine.next?
  rw [hstack, hfocus]

/-! ## What a request comes to -/

section

variable {setup : Setup} {stack : List Frame} {t : Table} {e : Entity} {s : State} {out : Outcome}

theorem underWay_cons (frame : Frame) : underWay (frame :: stack) = underWay stack ++ [frame.table.entity] := by
  simp [underWay]

/-- A request comes to an answer, over the tables that are under way. -/
def Evaluates (setup : Setup) (stack : List Frame) (e : Entity) (s : State) (out : Outcome) : Prop :=
  ∀ begun, ∃ begun', Relation.ReflTransGen Steps ⟨⟨setup, s⟩, stack, .asks e, begun⟩
    ⟨⟨setup, out.2⟩, stack, .answers out.1, begun'⟩

theorem evaluates_of_ask
    (h : ∀ begun, ask ⟨⟨setup, s⟩, stack, .asks e, begun⟩ e =
      answer ⟨⟨setup, s⟩, stack, .asks e, begun⟩ out) : Evaluates setup stack e s out :=
  fun begun => ⟨begun, .single (congrArg some (h begun))⟩

/-- Sources are asked for one after another, if each request comes to an answer. -/
theorem reaches_initAll {request : Entity → State → Outcome}
    (hrequest : ∀ e s pending, Evaluates setup (⟨t, pending⟩ :: stack) e s (request e s)) (es : List Entity)
    (s : State) (begun : List Table) :
    ∃ left begun', Relation.ReflTransGen Steps ⟨⟨setup, s⟩, ⟨t, es⟩ :: stack, .answers (.ok ()), begun⟩
        ⟨⟨setup, (initAll request es s).2⟩, ⟨t, left⟩ :: stack, .answers (initAll request es s).1, begun'⟩ ∧
      ((initAll request es s).1 = .ok () → left = []) := by
  induction es generalizing s begun with
  | nil => exact ⟨[], begun, .refl, fun _ => rfl⟩
  | cons e rest ih =>
    obtain ⟨begun₁, hsteps⟩ := hrequest e s rest begun
    have hfirst : Steps ⟨⟨setup, s⟩, ⟨t, e :: rest⟩ :: stack, .answers (.ok ()), begun⟩
        ⟨⟨setup, s⟩, ⟨t, rest⟩ :: stack, .asks e, begun⟩ := rfl
    rcases hout : request e s with ⟨failure | _, s'⟩
    · rw [hout] at hsteps
      rw [initAll_cons_of_error hout]
      exact ⟨rest, begun₁, .head hfirst hsteps, nofun⟩
    · rw [hout] at hsteps
      rw [initAll_cons_of_ok hout]
      obtain ⟨left, begun₂, hrest, hleft⟩ := ih s' begun₁
      exact ⟨left, begun₂, .head hfirst (hsteps.trans hrest), hleft⟩

/-- A table that is tried is begun, and settled once its sources were asked for. -/
theorem evaluates_of_tries {depth : Nat} (tries : Tries setup (underWay stack) e s t)
    (hrequest : ∀ e s pending, Evaluates setup (⟨t, pending⟩ :: stack) e s
      (initTable setup depth (underWay stack ++ [t.entity]) e s)) :
    Evaluates setup stack e s (initTable setup (depth + 1) (underWay stack) e s) := by
  intro begun
  have henter : Steps ⟨⟨setup, s⟩, stack, .asks e, begun⟩
      ⟨⟨setup, s⟩, ⟨t, t.sources⟩ :: stack, .answers (.ok ()), begun ++ [t]⟩ := by
    simp [Steps, next?, ask, enter, tries.known, tries.new, tries.untried, tries.apart]
  obtain ⟨left, begun', hsources, hleft⟩ := reaches_initAll hrequest t.sources s (begun ++ [t])
  rcases hout : initAll (initTable setup depth (underWay stack ++ [t.entity])) t.sources s with
    ⟨failure | _, s'⟩
  · rw [hout] at hsources
    rw [initTable_of_blocked tries hout]
    exact ⟨begun', .head henter (hsources.tail rfl)⟩
  · rw [hout] at hsources hleft
    rw [initTable_of_tries tries hout]
    cases hleft rfl
    exact ⟨begun', .head henter (hsources.tail rfl)⟩

/-- The machine comes to the answer that `initTable` gives, if the depth suffices for all tables that are not
under way. -/
theorem evaluates_initTable {depth : Nat} (hnodup : (underWay stack).Nodup)
    (hknown : ∀ e ∈ underWay stack, ∃ t ∈ setup.catalog.tables, t.entity = e)
    (hdepth : setup.catalog.tables.length + 1 ≤ (underWay stack).length + depth) (e : Entity) (s : State) :
    Evaluates setup stack e s (initTable setup depth (underWay stack) e s) := by
  -- Induction on the depth, for every stack: the sources of a table are asked for with one more frame.
  induction depth generalizing stack e s with
  | zero =>
    have hle := length_le_of_path hnodup hknown
    omega
  | succ depth ih =>
    cases hfind : setup.catalog.tableById? e.id with
    | none =>
      rw [initTable_of_dangling hfind]
      exact evaluates_of_ask fun begun => by simp [ask, hfind]
    | some t =>
      cases hnew : s.isInitialized t.id with
      | true =>
        rw [initTable_of_present hfind hnew]
        exact evaluates_of_ask fun begun => by simp [ask, hfind, hnew]
      | false =>
        cases hfailed : s.failureOf? t.id with
        | some failure =>
          rw [initTable_of_failedBefore hfind hnew hfailed]
          exact evaluates_of_ask fun begun => by simp [ask, hfind, hnew, hfailed]
        | none =>
          by_cases hunder : t.entity ∈ underWay stack
          · rw [initTable_of_cyclic hfind hnew hfailed hunder]
            exact evaluates_of_ask fun begun => by simp [ask, hfind, hnew, hfailed, hunder]
          · refine evaluates_of_tries ⟨hfind, hnew, hfailed, hunder⟩ fun e s pending => ?_
            have ht := (Catalog.mem_of_tableById? hfind).1
            have hcons : underWay (⟨t, pending⟩ :: stack) = underWay stack ++ [t.entity] := underWay_cons _
            rw [← hcons]
            refine ih ?_ ?_ ?_ e s
            · rw [hcons, ← List.concat_eq_append]
              exact hnodup.concat hunder
            · rw [hcons]
              exact path_snoc hknown ht
            · rw [hcons, List.length_append, List.length_singleton]
              omega

end

/-! ## Termination -/

/-- Every sequence of steps of a machine comes to an end. -/
def Terminates (m : StackMachine) : Prop := Acc (fun m' m => Steps m m') m

variable {m m' : StackMachine} {t : Table}

/-- A machine takes one step at most, so it terminates if it comes to a stop at all. -/
theorem terminates_of_reaches (h : Relation.ReflTransGen Steps m m') (hstop : m'.next? = none) :
    m.Terminates := by
  induction h using Relation.ReflTransGen.head_induction_on with
  | refl => exact .intro _ fun _ hstep => by cases hstop.symm.trans hstep
  | head hfirst _ ih =>
    refine .intro _ fun _ hstep => ?_
    cases hfirst.symm.trans hstep
    exact ih

/-- A request for a table comes to the answer of `initTable`, and nothing is under way then. -/
theorem Idle.exists_answered (h : m.Idle) (t : Table) :
    let setup := m.run.setup
    let out := initTable setup (setup.catalog.tables.length + 1) [] t.entity m.run.state
    ∃ m', Relation.ReflTransGen Steps (m.asking t) m' ∧ m'.stack = [] ∧ m'.focus = .answers out.1 ∧
      m'.run = ⟨setup, out.2⟩ := by
  obtain ⟨run, stack, focus, begun⟩ := m
  obtain ⟨rfl, -⟩ := h
  have hnodup : (underWay []).Nodup := .nil
  have hevaluates : Evaluates run.setup [] t.entity run.state
      (initTable run.setup (run.setup.catalog.tables.length + 1) (underWay []) t.entity run.state) :=
    evaluates_initTable hnodup (fun _ he => absurd he List.not_mem_nil) (Nat.le_add_left _ _) t.entity run.state
  obtain ⟨begun', hsteps⟩ := hevaluates begun
  exact ⟨_, hsteps, rfl, rfl, rfl⟩

/-! ## Reachable machines -/

/-- Machines that come about from an engine with a compiled schema. Tables are requested while nothing is under
way, and steps follow. In between a run may change in what initialization does not look at, such as its
time, and may start again. -/
inductive Reachable : StackMachine → Prop
  | start {schema : Schema} {first firstId : Nat} {engine : Engine} {now : Timestamp} {name : String}
      {context : List (String × Json)} {data : SourceData}
      (compiled : schema.compile first = .ok engine.catalog) (ids : schema.nextId first ≤ firstId) :
      Reachable ⟨engine.start firstId now name context data, [], .answers (.ok ()), []⟩
  | request {m : StackMachine} {t : Table} (h : Reachable m) (idle : m.Idle)
      (known : t ∈ m.run.setup.catalog.tables) : Reachable (m.asking t)
  | step {m m' : StackMachine} (h : Reachable m) (next : m.Steps m') : Reachable m'
  | between {m : StackMachine} {r : Run} (h : Reachable m) (idle : m.Idle) (setup : r.setup = m.run.setup)
      (same : r.state.Same m.run.state) : Reachable { m with run := r }
  | reset {m : StackMachine} (h : Reachable m) (idle : m.Idle) :
      Reachable ⟨m.run.reset, [], .answers (.ok ()), []⟩

theorem Reachable.reaches (h : m.Reachable) (hsteps : Relation.ReflTransGen Steps m m') : m'.Reachable := by
  induction hsteps with
  | refl => exact h
  | tail _ hstep ih => exact ih.step hstep

theorem Reachable.terminates (h : m.Reachable) : m.Terminates := by
  have hidle : ∀ {m : StackMachine}, m.Idle → m.Terminates := fun h => terminates_of_reaches .refl h.next?
  induction h with
  | start | reset => exact hidle ⟨rfl, _, rfl⟩
  | @request m t _ idle _ =>
    obtain ⟨m', hsteps, hstack, hfocus, -⟩ := idle.exists_answered t
    have hstop : m'.Idle := ⟨hstack, _, hfocus⟩
    exact terminates_of_reaches hsteps hstop.next?
  | step _ next ih => exact ih.inv next
  | between _ idle => exact hidle ⟨idle.1, idle.2⟩

end StackMachine

/-! ## What was begun -/

namespace State

/-- The table with an identity was tried before: it is there, or it failed. -/
def Tried (s : State) (id : Id) : Prop := s.isInitialized id = true ∨ (s.failureOf? id).isSome

variable {s s' : State} {t : Table} {id : Id}

theorem Tried.congr (h : s.Tried id) (hinitialized : s'.initialized = s.initialized)
    (hfailures : s'.failures = s.failures) : s'.Tried id := by
  unfold Tried isInitialized failureOf? at h ⊢
  rwa [hinitialized, hfailures]

theorem Tried.recordFailure (h : s.Tried id ∨ id = t.id) (e : Error) : (s.recordFailure t e).Tried id := by
  rcases h with (h | h) | rfl
  · exact .inl h
  · right
    unfold failureOf? State.recordFailure at *
    rw [List.find?_append, Option.isSome_or, h, Bool.true_or]
  · right
    unfold failureOf? State.recordFailure
    simp [List.find?_append, Table.entity]

theorem Tried.recordSuccess (h : s.Tried id ∨ id = t.id) (columns : List Id) :
    (s.recordSuccess t columns).Tried id := by
  rcases h with (h | h) | rfl
  · exact .inl (isInitialized_recordSuccess.2 (.inr (.inr h)))
  · exact .inr h
  · exact .inl (isInitialized_recordSuccess.2 (.inl List.mem_cons_self))

end State

theorem Draft.initialized_commit (d : Draft) (setup : Setup) (s : State) :
    (d.commit setup s).2.initialized = s.initialized := by
  unfold Draft.commit
  split <;> rfl

theorem tried_of_settle {setup : Setup} {t : Table} {id : Id} {draft : Except Error Draft} {s : State}
    (h : s.Tried id ∨ id = t.id) : (settle setup t draft s).2.Tried id := by
  cases draft with
  | error e => exact .recordFailure h e
  | ok d =>
    have hcommit : (d.commit setup s).2.Tried id ∨ id = t.id :=
      h.imp_left fun h => h.congr (d.initialized_commit setup s) (d.failures_commit setup s)
    unfold settle
    dsimp only
    split
    · next heq =>
      rw [heq] at hcommit
      exact .recordSuccess hcommit _
    · next heq =>
      rw [heq] at hcommit
      exact .recordFailure hcommit _

namespace StackMachine

variable {m m' : StackMachine}

/-- What one step does: a request is answered at once or begins a table, the next source is asked for, or the
innermost table is settled. -/
theorem Steps.cases (h : m.Steps m') :
    (∃ out, out.2.initialized = m.run.state.initialized ∧ out.2.failures = m.run.state.failures ∧
      m' = m.answer out) ∨
    (∃ e t, Tries m.run.setup (underWay m.stack) e m.run.state t ∧ m' = m.enter t) ∨
    (∃ t e pending stack, m.stack = ⟨t, e :: pending⟩ :: stack ∧
      m' = { m with stack := ⟨t, pending⟩ :: stack, focus := .asks e }) ∨
    ∃ frame stack draft, m.stack = frame :: stack ∧
      m' = { m with stack }.answer (settle m.run.setup frame.table draft m.run.state) := by
  unfold Steps next? at h
  split at h
  · next e _ =>
    cases h
    unfold ask
    dsimp only
    split
    · exact .inl ⟨_, rfl, rfl, rfl⟩
    · next t known =>
      split
      · exact .inl ⟨_, rfl, rfl, rfl⟩
      · next new =>
        split
        · exact .inl ⟨_, rfl, rfl, rfl⟩
        · next untried =>
          split
          · exact .inl ⟨_, rfl, rfl, rfl⟩
          · next apart =>
            exact .inr (.inl ⟨e, t, ⟨known, Bool.eq_false_iff.2 new, untried, apart⟩, rfl⟩)
  · cases h
  · next frame stack _ hstack =>
    cases h
    exact .inr (.inr (.inr ⟨frame, stack, _, hstack, rfl⟩))
  · next t e pending stack _ hstack =>
    cases h
    exact .inr (.inr (.inl ⟨t, e, pending, stack, hstack, rfl⟩))
  · next t stack _ hstack =>
    cases h
    exact .inr (.inr (.inr ⟨_, stack, _, hstack, rfl⟩))

/-- No table is on the stack twice, and none was begun twice. What was begun is under way, or it is there or
failed by now. -/
structure Orderly (m : StackMachine) : Prop where
  single : (underWay m.stack).Nodup
  once : m.begun.Nodup
  accounted : ∀ t ∈ m.begun, t.entity ∈ underWay m.stack ∨ m.run.state.Tried t.id

theorem Orderly.start {r : Run} {focus : Focus} : Orderly ⟨r, [], focus, []⟩ :=
  ⟨.nil, .nil, fun _ ht => absurd ht List.not_mem_nil⟩

/-- Only a table that was not tried and is not under way is begun. -/
theorem Orderly.enter {e : Entity} {t : Table} (h : m.Orderly)
    (tries : Tries m.run.setup (underWay m.stack) e m.run.state t) : (m.enter t).Orderly := by
  have hfresh : t ∉ m.begun := by
    intro hmem
    rcases h.accounted t hmem with hunder | hthere | hfailed
    · exact tries.apart hunder
    · cases hthere.symm.trans tries.new
    · rw [tries.untried] at hfailed
      cases hfailed
  have hunder : underWay (m.enter t).stack = underWay m.stack ++ [t.entity] := underWay_cons _
  refine ⟨?_, ?_, fun u hu => ?_⟩
  · rw [hunder, ← List.concat_eq_append]
    exact h.single.concat tries.apart
  · change (m.begun ++ [t]).Nodup
    rw [← List.concat_eq_append]
    exact h.once.concat hfresh
  · rw [hunder]
    rcases List.mem_append.1 hu with hu | hu
    · exact (h.accounted u hu).imp_left (List.mem_append_left _)
    · cases List.mem_singleton.1 hu
      exact .inl (List.mem_append_right _ (List.mem_singleton_self _))

/-- What comes off the stack is there or failed from then on. -/
theorem Orderly.settle {frame : Frame} {stack : List Frame} (h : m.Orderly) (hstack : m.stack = frame :: stack)
    (draft : Except Error Draft) :
    ({ m with stack }.answer (Provenance.settle m.run.setup frame.table draft m.run.state)).Orderly := by
  have hunder : underWay m.stack = underWay stack ++ [frame.table.entity] := by
    rw [hstack, underWay_cons]
  have hsingle := h.single
  rw [hunder] at hsingle
  refine ⟨(List.nodup_append.1 hsingle).1, h.once, fun u hu => ?_⟩
  have haccounted := h.accounted u hu
  rw [hunder, List.mem_append, List.mem_singleton] at haccounted
  rcases haccounted with (hmem | hlast) | htried
  · exact .inl hmem
  · exact .inr (tried_of_settle (.inr (congrArg Entity.id hlast)))
  · exact .inr (tried_of_settle (.inl htried))

theorem Orderly.step (h : m.Orderly) (hstep : m.Steps m') : m'.Orderly := by
  rcases hstep.cases with ⟨out, hinitialized, hfailures, rfl⟩ | ⟨e, t, tries, rfl⟩ |
    ⟨t, e, pending, stack, hstack, rfl⟩ | ⟨frame, stack, draft, hstack, rfl⟩
  · exact ⟨h.single, h.once, fun u hu => (h.accounted u hu).imp_right (.congr · hinitialized hfailures)⟩
  · exact h.enter tries
  · -- The next source is asked for, and the same tables are under way.
    have hunder : underWay (⟨t, pending⟩ :: stack) = underWay m.stack := by
      rw [hstack, underWay_cons, underWay_cons]
    refine ⟨?_, h.once, ?_⟩
    · rw [hunder]
      exact h.single
    · rw [hunder]
      exact h.accounted
  · exact h.settle hstack draft

theorem Reachable.orderly (h : m.Reachable) : m.Orderly := by
  induction h with
  | start | reset => exact .start
  | request _ _ _ ih => exact ⟨ih.single, ih.once, ih.accounted⟩
  | step _ next ih => exact ih.step next
  | between _ _ _ same ih =>
    exact ⟨ih.single, ih.once, fun t ht =>
      (ih.accounted t ht).imp_right (.congr · same.initialized same.failures)⟩

/-- After a request for a table that has come to its answer the machine is at rest. -/
theorem Reachable.exists_answered (h : m.Reachable) (hidle : m.Idle) {t : Table}
    (ht : t ∈ m.run.setup.catalog.tables) :
    let setup := m.run.setup
    let out := initTable setup (setup.catalog.tables.length + 1) [] t.entity m.run.state
    ∃ m', Relation.ReflTransGen Steps (m.asking t) m' ∧ m'.Reachable ∧ m'.Idle ∧ m'.focus = .answers out.1 ∧
      m'.run = ⟨setup, out.2⟩ := by
  obtain ⟨m', hsteps, hstack, hfocus, hrun⟩ := hidle.exists_answered t
  exact ⟨m', hsteps, (h.request hidle ht).reaches hsteps, ⟨hstack, _, hfocus⟩, hfocus, hrun⟩

end StackMachine

/-! ## Runs as machines -/

namespace Run

variable {r : Run}

/-- Between requests the run of a machine may change in what initialization does not look at. -/
private theorem exists_machine_of_same {m : StackMachine} (h : m.Reachable) (hidle : m.Idle)
    (setup : r.setup = m.run.setup) (same : r.state.Same m.run.state) :
    ∃ m' : StackMachine, m'.Reachable ∧ m'.Idle ∧ m'.run = r :=
  ⟨_, h.between hidle setup same, ⟨hidle.1, hidle.2⟩, rfl⟩

/-- A reachable run is that of a reachable machine at rest. -/
theorem Reachable.exists_machine (h : r.Reachable) : ∃ m : StackMachine, m.Reachable ∧ m.Idle ∧ m.run = r := by
  induction h with
  | start compiled ids => exact ⟨_, .start compiled ids, ⟨rfl, _, rfl⟩, rfl⟩
  | reset _ ih =>
    obtain ⟨m, hm, hidle, rfl⟩ := ih
    exact ⟨_, hm.reset hidle, ⟨rfl, _, rfl⟩, rfl⟩
  | wait _ now ih =>
    obtain ⟨m, hm, hidle, rfl⟩ := ih
    exact exists_machine_of_same hm hidle rfl ⟨rfl, rfl, rfl, rfl, rfl⟩
  | call h call ih =>
    obtain ⟨hwf, cs, hmade⟩ := h.exists_madeOf
    obtain ⟨m, hm, hidle, rfl⟩ := ih
    cases ht : call.table? m.run.setup.catalog with
    | none => exact exists_machine_of_same hm hidle (setup_after _ call) (same_after_of_none ht)
    | some t =>
      obtain ⟨m', -, hm', hidle', -, hrun⟩ := hm.exists_answered hidle (Call.mem_of_table? ht)
      have hsetup : (m.run.after call).setup = m'.run.setup :=
        (setup_after _ call).trans (congrArg Run.setup hrun).symm
      have hsame : (m.run.after call).state.Same m'.run.state :=
        congrArg Run.state hrun ▸ same_after_of_table hwf hmade ht
      exact exists_machine_of_same hm' hidle' hsetup hsame

/-- A machine at rest that is asked for a table comes to what the run gives. -/
theorem Reachable.exists_answered (h : r.Reachable) {m : StackMachine} (hm : m.Reachable) (hidle : m.Idle)
    (hrun : m.run = r) {name : String} {t : Table} (ht : r.setup.catalog.table name = .ok t) :
    ∃ m', Relation.ReflTransGen StackMachine.Steps (m.asking t) m' ∧ m'.Idle ∧
      m'.focus = .answers (r.initTable name).1 ∧ m'.run = (r.initTable name).2 := by
  obtain ⟨hwf, cs, hmade⟩ := h.exists_madeOf
  subst hrun
  obtain ⟨m', hsteps, -, hidle', hfocus, hrun'⟩ := hm.exists_answered hidle (Catalog.mem_of_table ht).1
  rw [initTable_of_table? hwf hmade (Catalog.table?_of_table ht)]
  exact ⟨m', hsteps, hidle', hfocus, hrun'⟩

end Run

end Provenance

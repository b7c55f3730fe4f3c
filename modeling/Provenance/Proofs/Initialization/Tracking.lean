import Provenance.Proofs.Reachable

/-!
# The memories of initialization

A run hands down the path of the tables that are under way, and looks up in the records of failures which
tables failed. A tracked run keeps both in memories of its own: tables go on a stack and come off it again,
and the reason of a failure is written down when it happens. Nothing but the calls themselves keeps the stack
and the two memories of failures in step (`Tracked`). It does what the run does all the same
(`Tracked.agrees_initTable`), and between calls its memories are what the run can tell
(`Tracked.Reachable.eq_tracked`).
-/

namespace Provenance

/-- A run with a stack of the tables under way, the outermost first, and the reasons why tables failed. -/
structure Tracked extends Run where
  underWay : List Entity
  failed : Id → Option String

namespace Tracked

/-- What a step of a tracked run gives, and the tracked run after it. -/
abbrev Outcome := Except Error Unit × Tracked

def push (m : Tracked) (e : Entity) : Tracked := { m with underWay := m.underWay ++ [e] }

def pop (m : Tracked) : Tracked := { m with underWay := m.underWay.dropLast }

/-- A table failed: the reason is remembered, and a record is made of it. -/
def fail (m : Tracked) (table : Table) (e : Error) : Tracked :=
  { m with
    state := m.state.recordFailure table e
    failed := fun id => if id = table.id then some e.message else m.failed id }

/-- A draft of a table is committed, or the table failed. -/
def settle (table : Table) (draft : Except Error Draft) (m : Tracked) : Outcome :=
  match draft with
  | .error e => (.error e, m.fail table e)
  | .ok d =>
    match d.commit m.setup m.state with
    | (.ok (), s) => (.ok (), { m with state := s.recordSuccess table d.extent.columns })
    | (.error e, s) => (.error e, { m with state := s }.fail table e)

/-- Asks for entities one after another, up to the first that fails. -/
def askAll (ask : Entity → Tracked → Outcome) : List Entity → Tracked → Outcome
  | [], m => (.ok (), m)
  | e :: rest, m =>
    match ask e m with
    | (.ok (), m) => askAll ask rest m
    | failed => failed

/-- A table as it is materialized once its sources were asked for. -/
def build (ask : Entity → Tracked → Outcome) (table : Table) (m : Tracked) :
    Except Error Draft × Tracked :=
  match askAll ask table.sources m with
  | (.ok (), m) => (stage m.setup m.state.store (m.state.opening table) table, m)
  | (.error e, m) => (.error e, m)

/-- Puts a table on the stack, and settles it once it is off the stack again. -/
def attempt (ask : Entity → Tracked → Outcome) (table : Table) (m : Tracked) : Outcome :=
  let (draft, m) := build ask table (m.push table.entity)
  settle table draft m.pop

/-- Materializes a table, with those on the stack under way. -/
def initTable : Nat → Entity → Tracked → Outcome
  | 0, _, m => (.error (.cyclic m.underWay), m)
  | depth + 1, e, m =>
    match m.setup.catalog.tableById? e.id with
    | none => (.error (.dangling e), m)
    | some table =>
      if m.state.isInitialized table.id then (.ok (), { m with state := m.state.skip })
      else
        match m.failed table.id with
        | some reason => (.error (.failedBefore table.name reason), m)
        | none =>
          if table.entity ∈ m.underWay then (.error (.cyclic (closePath m.underWay table.entity)), m)
          else attempt (initTable depth) table m

/-- Asks for an entity. -/
def init (e : Entity) (m : Tracked) : Outcome :=
  if m.state.isInitialized e.id then (.ok (), { m with state := m.state.skip })
  else if e.kind.isDefinitional then
    match m.setup.catalog.tableOf? e with
    | some table => initTable (m.setup.catalog.tables.length + 1) table.entity m
    | none => (.error (.dangling e), m)
  else if m.state.store.contains e then (.ok (), m)
  else (.error (.dangling e), m)

/-- Asks for the table with a name. -/
def initNamed (name : String) (m : Tracked) : Outcome :=
  match m.setup.catalog.table name with
  | .ok table => m.init table.entity
  | .error e => (.error e, m)

/-- Asks for the table with a name and ends the trail. -/
def execute (name : String) (m : Tracked) : Tracked :=
  let (result, m) := m.initNamed name
  let status : Trail.Status := match result with
    | .ok _ => .completed
    | .error _ => .failed
  { m with state := { m.state with trail := m.state.trail.finish status m.state.now } }

/-- The tracked run after a call. -/
def after (m : Tracked) : Run.Call → Tracked
  | .init e => (m.init e).2
  | .initTable name | .materialize name => (m.initNamed name).2
  | .execute name => m.execute name

/-- Starts again, with nothing remembered. -/
def reset (m : Tracked) : Tracked := ⟨m.toRun.reset, [], fun _ => none⟩

/-- Tracked runs that come about as reachable runs do, their memories being empty in the beginning. -/
inductive Reachable : Tracked → Prop
  | start {schema : Schema} {first firstId : Nat} {engine : Engine} {now : Timestamp} {name : String}
      {context : List (String × Json)} {data : SourceData}
      (compiled : schema.compile first = .ok engine.catalog) (ids : schema.nextId first ≤ firstId) :
      Reachable ⟨engine.start firstId now name context data, [], fun _ => none⟩
  | call {m : Tracked} (h : Reachable m) (call : Run.Call) : Reachable (m.after call)
  | reset {m : Tracked} (h : Reachable m) : Reachable m.reset
  /-- Time passes. -/
  | wait {m : Tracked} (h : Reachable m) (now : Timestamp) :
      Reachable { m with state := { m.state with now } }

end Tracked

/-- A run with the memories that it can tell, while the tables on a path are under way. -/
def Run.tracked (r : Run) (path : List Entity) : Tracked :=
  ⟨r, path, fun id => (r.state.failureOf? id).map Failure.message⟩

/-- Failures are those of tables, and every table has at most one. -/
structure State.Recorded (setup : Setup) (s : State) : Prop where
  known : ∀ f ∈ s.failures, ∃ t ∈ setup.catalog.tables, f.entity = t.entity
  once : (s.failures.map fun f => f.entity.id).Nodup

namespace State

variable {setup : Setup} {s s' : State} {t : Table}

theorem Recorded.congr (hs : s.Recorded setup) (h : s'.failures = s.failures) : s'.Recorded setup :=
  ⟨h ▸ hs.known, h ▸ hs.once⟩

theorem Recorded.recordFailure (hs : s.Recorded setup) (ht : t ∈ setup.catalog.tables)
    (hnew : s.failureOf? t.id = none) (e : Error) : (s.recordFailure t e).Recorded setup where
  known f hf := by
    rcases List.mem_append.1 hf with hf | hf
    · exact hs.known f hf
    · exact ⟨t, ht, List.mem_singleton.1 hf ▸ rfl⟩
  once := by
    change ((s.failures ++ [_]).map fun f : Failure => f.entity.id).Nodup
    rw [List.map_append, List.map_singleton, List.nodup_append_comm]
    refine List.nodup_cons.2 ⟨fun hmem => ?_, hs.once⟩
    obtain ⟨f, hf, hid⟩ := List.mem_map.1 hmem
    exact List.find?_eq_none.1 hnew f hf (decide_eq_true hid)

theorem failureOf?_recordFailure (hnew : s.failureOf? t.id = none) (e : Error) (id : Id) :
    ((s.recordFailure t e).failureOf? id).map Failure.message =
      if id = t.id then some e.message else (s.failureOf? id).map Failure.message := by
  unfold failureOf? recordFailure
  rw [List.find?_append]
  split
  · next heq =>
    subst heq
    rw [show s.failures.find? _ = none from hnew]
    simp [Table.entity]
  · next hne =>
    have hlast : [(⟨t.entity, t.name, e.code, e.message⟩ : Failure)].find?
        (fun f => f.entity.id = id) = none := by
      simpa [Table.entity] using Ne.symm hne
    rw [hlast, Option.or_none]

end State

namespace Tracked

variable {setup : Setup} {path : List Entity} {s s' : State} {t : Table}

/-! ## A tracked run does what the run does -/

/-- What a tracked run gives is what the run gives, and its memories are what the run can tell. Failures are
recorded once, and no table under way is recorded as failed meanwhile. -/
structure Agrees (setup : Setup) (path : List Entity) (s : State) (out : Provenance.Outcome)
    (tracked : Outcome) : Prop where
  eq : tracked = (out.1, Run.tracked ⟨setup, out.2⟩ path)
  recorded : out.2.Recorded setup
  failures : ∀ f ∈ out.2.failures, f ∈ s.failures ∨ f.entity ∉ path

theorem agrees_self (hs : s.Recorded setup) (result : Except Error Unit) :
    Agrees setup path s (result, s) (result, Run.tracked ⟨setup, s⟩ path) :=
  ⟨rfl, hs, fun _ => .inl⟩

theorem agrees_skip (hs : s.Recorded setup) :
    Agrees setup path s (.ok (), s.skip)
      (.ok (), { Run.tracked ⟨setup, s⟩ path with state := s.skip }) :=
  ⟨rfl, hs.congr rfl, fun _ => .inl⟩

theorem tracked_congr (h : s'.failures = s.failures) :
    { Run.tracked ⟨setup, s⟩ path with state := s' } = Run.tracked ⟨setup, s'⟩ path := by
  unfold Run.tracked State.failureOf?
  rw [h]

theorem tracked_fail (hnew : s.failureOf? t.id = none) (e : Error) :
    (Run.tracked ⟨setup, s⟩ path).fail t e = Run.tracked ⟨setup, s.recordFailure t e⟩ path := by
  unfold fail Run.tracked
  congr
  funext id
  exact (State.failureOf?_recordFailure hnew e id).symm

theorem tracked_pop {e : Entity} (r : Run) : (r.tracked (path ++ [e])).pop = r.tracked path := by
  unfold pop Run.tracked
  simp

section

variable (hs : s.Recorded setup) (ht : t ∈ setup.catalog.tables) (hapart : t.entity ∉ path)
  (hnew : s.failureOf? t.id = none)
include hs ht hapart hnew

theorem agrees_fail (hsame : s'.failures = s.failures) (e : Error) :
    Agrees setup path s (.error e, s'.recordFailure t e)
      (.error e, { Run.tracked ⟨setup, s⟩ path with state := s' }.fail t e) := by
  have hnew' : s'.failureOf? t.id = none := by
    unfold State.failureOf?
    rw [hsame]
    exact hnew
  refine ⟨?_, (hs.congr hsame).recordFailure ht hnew' e, fun f hf => ?_⟩
  · rw [tracked_congr hsame, tracked_fail hnew']
  · rcases List.mem_append.1 hf with hf | hf
    · exact .inl (hsame ▸ hf)
    · rw [List.mem_singleton.1 hf]
      exact .inr hapart

theorem agrees_settle (draft : Except Error Draft) :
    Agrees setup path s (Provenance.settle setup t draft s)
      (settle t draft (Run.tracked ⟨setup, s⟩ path)) := by
  have hfail : ∀ {s' : State}, s'.failures = s.failures → ∀ e, Agrees setup path s
      (.error e, s'.recordFailure t e) (.error e, { Run.tracked ⟨setup, s⟩ path with state := s' }.fail t e) :=
    fun hsame => agrees_fail hs ht hapart hnew hsame
  cases draft with
  | error e => exact hfail rfl e
  | ok d =>
    have hsame := d.failures_commit setup s
    unfold settle Provenance.settle
    dsimp only [Run.tracked]
    rcases hcommit : d.commit setup s with ⟨e | _, s'⟩
    · rw [hcommit] at hsame
      exact hfail hsame e
    · rw [hcommit] at hsame
      refine ⟨?_, hs.congr hsame, fun f hf => .inl (hsame ▸ hf)⟩
      exact congrArg (Prod.mk _) (tracked_congr hsame)

end

/-- Lists of entities are asked for alike if single ones are. -/
theorem agrees_askAll {ask : Entity → State → Provenance.Outcome} {ask' : Entity → Tracked → Outcome}
    (hask : ∀ e s, s.Recorded setup → Agrees setup path s (ask e s) (ask' e (Run.tracked ⟨setup, s⟩ path)))
    (es : List Entity) (hs : s.Recorded setup) :
    Agrees setup path s (initAll ask es s) (askAll ask' es (Run.tracked ⟨setup, s⟩ path)) := by
  induction es generalizing s with
  | nil => exact agrees_self hs _
  | cons e rest ih =>
    have hfirst := hask e s hs
    unfold initAll askAll
    rw [hfirst.eq]
    rcases hout : ask e s with ⟨failure | _, s'⟩
    · rw [hout] at hfirst
      exact ⟨rfl, hfirst.recorded, hfirst.failures⟩
    · rw [hout] at hfirst
      have hrest := ih hfirst.recorded
      exact ⟨hrest.eq, hrest.recorded, fun f hf => (hrest.failures f hf).elim (hfirst.failures f) .inr⟩

/-- A table is not recorded as failed while its sources are asked for. -/
theorem Agrees.untried {out : Provenance.Outcome} {tracked : Outcome} (hwf : setup.catalog.WellFormed)
    (h : Agrees setup (path ++ [t.entity]) s out tracked) (ht : t ∈ setup.catalog.tables)
    (hnew : s.failureOf? t.id = none) : out.2.failureOf? t.id = none := by
  refine List.find?_eq_none.2 fun f hf hid => ?_
  have hid : f.entity.id = t.id := of_decide_eq_true hid
  rcases h.failures f hf with hbefore | hout
  · exact List.find?_eq_none.1 hnew f hbefore (decide_eq_true hid)
  · obtain ⟨u, hu, hentity⟩ := h.recorded.known f hf
    rw [hentity] at hid hout
    rw [hwf.table_eq hu ht hid] at hout
    exact hout (List.mem_append_right _ (List.mem_singleton_self _))

/-- What agrees after the sources of a table were asked for agrees from before. -/
theorem Agrees.after {e : Entity} {result : Except Error Unit} {out : Provenance.Outcome}
    {tracked tracked' : Outcome} (hsources : Agrees setup (path ++ [e]) s (result, s') tracked)
    (h : Agrees setup path s' out tracked') : Agrees setup path s out tracked' := by
  refine ⟨h.eq, h.recorded, fun f hf => (h.failures f hf).elim (fun hf => ?_) .inr⟩
  exact (hsources.failures f hf).imp_right fun hout hmem => hout (List.mem_append_left _ hmem)

/-- A table that is tried comes off the stack again, whether its sources fail, itself or nothing. -/
theorem agrees_tries {depth : Nat} {e : Entity} (hwf : setup.catalog.WellFormed) (hs : s.Recorded setup)
    (tries : Tries setup path e s t)
    (hask : ∀ e s, s.Recorded setup → Agrees setup (path ++ [t.entity]) s
      (Provenance.initTable setup depth (path ++ [t.entity]) e s)
      (initTable depth e (Run.tracked ⟨setup, s⟩ (path ++ [t.entity])))) :
    Agrees setup path s (Provenance.initTable setup (depth + 1) path e s)
      (attempt (initTable depth) t (Run.tracked ⟨setup, s⟩ path)) := by
  have ht := (Catalog.mem_of_tableById? tries.known).1
  have hsources := agrees_askAll hask t.sources hs
  have hpush : (Run.tracked ⟨setup, s⟩ path).push t.entity =
      Run.tracked ⟨setup, s⟩ (path ++ [t.entity]) := rfl
  unfold attempt build
  rw [hpush, hsources.eq]
  rcases hout : initAll (Provenance.initTable setup depth (path ++ [t.entity])) t.sources s with
    ⟨failure | _, s'⟩
  · rw [hout] at hsources
    rw [initTable_of_blocked tries hout]
    dsimp only
    rw [tracked_pop]
    exact hsources.after (agrees_settle hsources.recorded ht tries.apart
      (hsources.untried hwf ht tries.untried) (.error failure))
  · rw [hout] at hsources
    rw [initTable_of_tries tries hout]
    dsimp only
    rw [tracked_pop]
    exact hsources.after (agrees_settle hsources.recorded ht tries.apart
      (hsources.untried hwf ht tries.untried) _)

/-- A table is asked for alike. -/
theorem agrees_initTable (hwf : setup.catalog.WellFormed) (depth : Nat) (e : Entity)
    (hs : s.Recorded setup) :
    Agrees setup path s (Provenance.initTable setup depth path e s)
      (initTable depth e (Run.tracked ⟨setup, s⟩ path)) := by
  -- Induction on the depth: the sources of a table are asked for with one less.
  induction depth generalizing path e s with
  | zero => exact agrees_self hs _
  | succ depth ih =>
    cases hknown : setup.catalog.tableById? e.id with
    | none =>
      rw [initTable_of_dangling hknown]
      simp only [initTable, Run.tracked, hknown]
      exact agrees_self hs _
    | some t =>
      cases hnew : s.isInitialized t.id with
      | true =>
        rw [initTable_of_present hknown hnew]
        simp only [initTable, Run.tracked, hknown, hnew]
        exact agrees_skip hs
      | false =>
        cases hfailed : s.failureOf? t.id with
        | some failure =>
          rw [initTable_of_failedBefore hknown hnew hfailed]
          simp only [initTable, Run.tracked, hknown, hnew, hfailed]
          exact agrees_self hs _
        | none =>
          by_cases hunder : t.entity ∈ path
          · rw [initTable_of_cyclic hknown hnew hfailed hunder]
            simp only [initTable, Run.tracked, hknown, hnew, hfailed, hunder]
            exact agrees_self hs _
          · have h := agrees_tries hwf hs ⟨hknown, hnew, hfailed, hunder⟩ fun e s hs => ih e hs
            simp only [initTable, Run.tracked, hknown, hnew, hfailed, hunder]
            exact h

/-! ## Calls -/

theorem agrees_init (hwf : setup.catalog.WellFormed) (e : Entity) (hs : s.Recorded setup) :
    Agrees setup [] s (Provenance.init setup e s) (init e (Run.tracked ⟨setup, s⟩ [])) := by
  cases hthere : s.isInitialized e.id with
  | true =>
    simp only [init, Provenance.init, Run.tracked, hthere]
    exact agrees_skip hs
  | false =>
    cases hkind : e.kind.isDefinitional with
    | true =>
      cases ht : setup.catalog.tableOf? e with
      | none =>
        simp only [init, Provenance.init, Run.tracked, hthere, hkind, ht]
        exact agrees_self hs _
      | some t =>
        simp only [init, Provenance.init, Run.tracked, hthere, hkind, ht]
        exact agrees_initTable hwf _ t.entity hs
    | false =>
      cases hcontains : s.store.contains e with
      | true =>
        simp only [init, Provenance.init, Run.tracked, hthere, hkind, hcontains]
        exact agrees_self hs _
      | false =>
        simp only [init, Provenance.init, Run.tracked, hthere, hkind, hcontains]
        exact agrees_self hs _

section

variable {r : Run} (hwf : r.setup.catalog.WellFormed) (hs : r.state.Recorded r.setup)
include hwf hs

theorem initNamed_eq (name : String) :
    initNamed name (r.tracked []) = ((r.initTable name).1, (r.initTable name).2.tracked []) ∧
      (r.initTable name).2.state.Recorded r.setup := by
  unfold initNamed Run.initTable
  dsimp only [Run.tracked]
  cases r.setup.catalog.table name with
  | error e => exact ⟨rfl, hs⟩
  | ok t =>
    have h := agrees_init hwf t.entity hs
    exact ⟨h.eq, h.recorded⟩

/-- A call leaves its mark in the memories as it does in the state, and the stack is empty again. -/
theorem after_tracked (call : Run.Call) :
    (r.tracked []).after call = (r.after call).tracked [] ∧ (r.after call).state.Recorded r.setup := by
  cases call with
  | init e =>
    have h := agrees_init hwf e hs
    exact ⟨congrArg Prod.snd h.eq, h.recorded⟩
  | initTable name =>
    obtain ⟨heq, hrecorded⟩ := initNamed_eq hwf hs name
    exact ⟨congrArg Prod.snd heq, hrecorded⟩
  | materialize name =>
    obtain ⟨heq, hrecorded⟩ := initNamed_eq hwf hs name
    rw [Run.after_materialize]
    exact ⟨congrArg Prod.snd heq, hrecorded⟩
  | execute name =>
    obtain ⟨heq, hrecorded⟩ := initNamed_eq hwf hs name
    unfold after execute
    dsimp only
    rw [heq]
    exact ⟨rfl, hrecorded.congr rfl⟩

end

/-- The memories of a tracked run are what the run can tell between calls. -/
theorem Reachable.eq_tracked {m : Tracked} (h : m.Reachable) :
    m.toRun.Reachable ∧ m = m.toRun.tracked [] ∧ m.state.Recorded m.setup := by
  induction h with
  | start compiled ids => exact ⟨.start compiled ids, rfl, fun f hf => absurd hf List.not_mem_nil, .nil⟩
  | @call m h call ih =>
    obtain ⟨hreachable, heq, hrecorded⟩ := ih
    obtain ⟨hafter, hrecorded⟩ := after_tracked hreachable.exists_madeOf.1 hrecorded call
    rw [← heq] at hafter
    rw [hafter]
    refine ⟨hreachable.call call, rfl, ?_⟩
    rw [← Run.setup_after] at hrecorded
    exact hrecorded
  | reset h ih => exact ⟨ih.1.reset, rfl, fun f hf => absurd hf List.not_mem_nil, .nil⟩
  | @wait m h now ih =>
    obtain ⟨hreachable, heq, hrecorded⟩ := ih
    refine ⟨hreachable.wait now, ?_, hrecorded.congr rfl⟩
    rw [heq]
    rfl

theorem Reachable.toRun_after {m : Tracked} (h : m.Reachable) (call : Run.Call) :
    (m.after call).toRun = m.toRun.after call := by
  obtain ⟨hreachable, heq, hrecorded⟩ := h.eq_tracked
  have hafter := (after_tracked hreachable.exists_madeOf.1 hrecorded call).1
  rw [← heq] at hafter
  exact congrArg Tracked.toRun hafter

/-- Every reachable run can be tracked. -/
theorem exists_reachable {r : Run} (h : r.Reachable) : ∃ m : Tracked, m.Reachable ∧ m.toRun = r := by
  induction h with
  | start compiled ids => exact ⟨_, .start compiled ids, rfl⟩
  | call h call ih =>
    obtain ⟨m, hm, rfl⟩ := ih
    exact ⟨m.after call, hm.call call, hm.toRun_after call⟩
  | reset h ih =>
    obtain ⟨m, hm, rfl⟩ := ih
    exact ⟨m.reset, hm.reset, rfl⟩
  | wait h now ih =>
    obtain ⟨m, hm, rfl⟩ := ih
    exact ⟨_, hm.wait now, rfl⟩

end Tracked

end Provenance

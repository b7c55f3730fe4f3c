import Provenance.Proofs.Edge.Cycle
import Provenance.Proofs.Graph.Queue

/-!
# Walks over a log

A walk over a log reaches identities by edges. It reaches each one on a shortest way, and what it reaches
within a depth is what it reaches first (`EdgeLog.shortest_walkFrom`, `EdgeLog.walkFrom_isPrefix`). No shortest
way is longer than there are edges, so the bound that every walk has is never met. Main statement:
`EdgeLog.transitive_shortest`.
-/

namespace Provenance

/-- A walk over a log reaches what is at most `depth` edges away from an entity: each identity once, at its
distance, nearer ones first, and by an edge that comes from one edge nearer. -/
structure EdgeLog.Shortest (log : EdgeLog) (start : Entity) (depth : Option Nat) (walk : List Reached) :
    Prop where
  mem_iff : ∀ id n, (∃ x ∈ walk, x.entity.id = id ∧ x.depth = n) ↔
    0 < n ∧ (∀ d ∈ depth, n ≤ d) ∧ Graph.Nearest log.Links n start.id id
  nodup : (walk.map fun x => x.entity.id).Nodup
  sorted : walk.Pairwise fun x y => x.depth ≤ y.depth
  via : ∀ x ∈ walk, ∃ edge ∈ log.edges, edge.target = x.entity ∧ edge.kind = x.via ∧
    ∃ n, x.depth = n + 1 ∧ Graph.Nearest log.Links n start.id edge.owner.id

namespace EdgeLog

variable {log : EdgeLog} {start : Entity} {depth : Option Nat}

theorem leads_ownedBy : Graph.Leads (fun edge : Edge => edge.target.id) log.ownedBy = log.Links := by
  funext a b
  refine propext ⟨?_, ?_⟩
  · rintro ⟨edge, hedge, rfl⟩
    obtain ⟨hedge, howner⟩ := mem_ownedBy.1 hedge
    exact ⟨edge, hedge, howner, rfl⟩
  · rintro ⟨edge, hedge, howner, rfl⟩
    exact ⟨edge, mem_ownedBy.2 ⟨hedge, howner⟩, rfl⟩

/-- How many levels a walk goes through. -/
def levels (log : EdgeLog) (depth : Option Nat) : Nat :=
  (depth.map (min · (log.edges.length + 1))).getD (log.edges.length + 1)

/-- What a walk goes along: the edges, each with its level. -/
def steps (log : EdgeLog) (start : Entity) (depth : Option Nat) : List (Edge × Nat) :=
  Graph.walk (fun edge => edge.target.id) log.ownedBy (log.levels depth) 1 (log.ownedBy start.id) [start.id]

theorem walkFrom_eq : log.walkFrom start depth =
    (log.steps start depth).map fun step => ⟨step.1.target, step.2, step.1.kind⟩ := rfl

/-- A walk is as deep as it may be, or goes through one level more than there are edges. -/
theorem levels_cases (log : EdgeLog) (depth : Option Nat) :
    (∀ d ∈ depth, log.levels depth ≤ d) ∧
      (log.levels depth ∈ depth ∨ log.levels depth = log.edges.length + 1) := by
  cases depth with
  | none => exact ⟨nofun, .inr rfl⟩
  | some d =>
    simp only [levels, Option.map_some, Option.getD_some, Option.mem_def, Option.some.injEq, forall_eq']
    omega

theorem lt_levels_iff {n : Nat} {a b : Id} (h : Graph.Nearest log.Links n a b) :
    n < 1 + log.levels depth ↔ ∀ d ∈ depth, n ≤ d := by
  have hle : n ≤ log.edges.length := by
    simpa using h.le_length log.mem_targets_of_links
  obtain ⟨hdepth, hlevels⟩ := log.levels_cases depth
  constructor
  · intro hlt d hd
    have := hdepth d hd
    omega
  · intro hn
    rcases hlevels with hlevels | hlevels
    · have := hn _ hlevels
      omega
    · omega

theorem shortest_walkFrom (log : EdgeLog) (start : Entity) (depth : Option Nat) :
    log.Shortest start depth (log.walkFrom start depth) := by
  have hfirst := Graph.Frontier.first (fun edge : Edge => edge.target.id) log.ownedBy start.id
  refine ⟨fun id n => ?_, ?_, ?_, ?_⟩
  · have hmem : (id, n) ∈ (log.steps start depth).map (fun step => (step.1.target.id, step.2)) ↔
        1 ≤ n ∧ n < 1 + log.levels depth ∧ Graph.Nearest log.Links n start.id id := by
      rw [← leads_ownedBy]
      exact hfirst.mem_walk_iff
    simp only [walkFrom_eq, List.mem_map, exists_exists_and_eq_and]
    simp only [List.mem_map, Prod.mk.injEq] at hmem
    refine hmem.trans (and_congr_right fun _ => ?_)
    exact and_congr_left fun hnearest => lt_levels_iff hnearest
  · rw [walkFrom_eq, List.map_map]
    exact hfirst.nodup_walk
  · rw [walkFrom_eq, List.pairwise_map]
    exact hfirst.sorted_walk
  · intro x hx
    rw [walkFrom_eq] at hx
    obtain ⟨step, hstep, rfl⟩ := List.mem_map.1 hx
    obtain ⟨id, n, hdepth, hnearest, hedge⟩ := hfirst.exists_before_of_mem_walk
      (fun edge hedge => ⟨start.id, ⟨rfl, nofun⟩, hedge⟩) hstep
    obtain ⟨hmem, rfl⟩ := mem_ownedBy.1 hedge
    rw [leads_ownedBy] at hnearest
    exact ⟨step.1, hmem, rfl, rfl, n, hdepth, hnearest⟩

/-- A walk without a bound reaches all that can be reached. -/
theorem Shortest.reaches_iff {walk : List Reached} (h : log.Shortest start none walk) {id : Id} :
    (∃ x ∈ walk, x.entity.id = id) ↔ start.id ≠ id ∧ Relation.ReflTransGen log.Links start.id id := by
  constructor
  · rintro ⟨x, hx, rfl⟩
    obtain ⟨hpos, -, hnearest⟩ := (h.mem_iff _ _).1 ⟨x, hx, rfl, rfl⟩
    exact ⟨hnearest.pos_iff.1 hpos, Graph.exists_nearest_iff.1 ⟨_, hnearest⟩⟩
  · rintro ⟨hne, hreach⟩
    obtain ⟨n, hnearest⟩ := Graph.exists_nearest_iff.2 hreach
    obtain ⟨x, hx, hid, -⟩ := (h.mem_iff id n).2 ⟨hnearest.pos_iff.2 hne, nofun, hnearest⟩
    exact ⟨x, hx, hid⟩

theorem walkFrom_isPrefix (log : EdgeLog) (start : Entity) (depth : Option Nat) :
    log.walkFrom start depth <+: log.walkFrom start none := by
  have hle : log.levels depth ≤ log.levels none := by
    obtain ⟨-, hlevels⟩ := log.levels_cases depth
    cases depth with
    | none => exact Nat.le_refl _
    | some d => exact Nat.min_le_right _ _
  obtain ⟨more, hmore⟩ := Nat.exists_eq_add_of_le hle
  rw [walkFrom_eq, walkFrom_eq, steps, steps, hmore]
  exact (Graph.walk_isPrefix _ _ _ _ _).map _

/-- Of a whole walk, what is within a depth comes first. -/
theorem Shortest.eq_filter {walk whole : List Reached} (h : log.Shortest start depth walk)
    (hwhole : log.Shortest start none whole) (hbegins : walk <+: whole) :
    walk = whole.filter fun x => depth.all (x.depth ≤ ·) := by
  obtain ⟨rest, rfl⟩ := hbegins
  have hwithin : ∀ x : Reached, depth.all (x.depth ≤ ·) = true ↔ ∀ d ∈ depth, x.depth ≤ d := by
    intro x
    cases depth <;> simp
  have hwalk : ∀ x ∈ walk, depth.all (x.depth ≤ ·) = true := by
    intro x hx
    obtain ⟨-, hle, -⟩ := (h.mem_iff _ _).1 ⟨x, hx, rfl, rfl⟩
    exact (hwithin x).2 hle
  have hrest : ∀ x ∈ rest, ¬depth.all (x.depth ≤ ·) = true := by
    intro x hx hle
    -- What the whole walk reaches within the depth, the other one reaches too.
    obtain ⟨hpos, -, hnearest⟩ := (hwhole.mem_iff _ _).1 ⟨x, List.mem_append_right _ hx, rfl, rfl⟩
    obtain ⟨y, hy, hid, -⟩ := (h.mem_iff _ _).2 ⟨hpos, (hwithin x).1 hle, hnearest⟩
    have hnodup := hwhole.nodup
    rw [List.map_append] at hnodup
    exact (List.nodup_append.1 hnodup).2.2 _ (List.mem_map_of_mem hy) _ (List.mem_map_of_mem hx) hid
  rw [List.filter_append, List.filter_eq_self.2 hwalk, List.filter_eq_nil_iff.2 hrest, List.append_nil]

/-- A walk over a log is that of a queue of edges. -/
theorem walks_steps (log : EdgeLog) (start : Entity) (depth : Option Nat) :
    Graph.Walks (fun edge : Edge => edge.target.id) log.ownedBy depth
      (Graph.queued depth 1 (log.ownedBy start.id)) [start.id] (log.steps start depth) := by
  obtain ⟨hdepth, hlevels⟩ := log.levels_cases depth
  have htargets := log.mem_targets_of_links
  rw [← leads_ownedBy] at htargets
  refine (Graph.Frontier.first _ _ _).walks htargets (fun d hd => ?_) ?_
  · have := hdepth d hd
    omega
  · rw [List.length_map]
    rcases hlevels with hlevels | hlevels
    · exact .inl ⟨_, hlevels, by omega⟩
    · exact .inr (by omega)

/-- Where no cycle can be reached, what an entity was made from is told completely up to any depth, on
shortest ways and nearest first, and what is told up to a depth is where all of it begins. It is what a queue
of edges walks that comes to its end. -/
theorem transitive_shortest (log : EdgeLog) (start : Entity)
    (hacyclic : ∀ id, Relation.ReflTransGen log.Links start.id id → ¬Relation.TransGen log.Links id id)
    (depth : Option Nat) :
    ∃ walk whole steps, log.transitive start depth = .ok walk ∧ log.transitive start none = .ok whole ∧
      log.Shortest start depth walk ∧
      walk <+: whole ∧ walk = whole.filter (fun x => depth.all (x.depth ≤ ·)) ∧
      Graph.Walks (fun edge : Edge => edge.target.id) log.ownedBy depth
        (Graph.queued depth 1 (log.ownedBy start.id)) [start.id] steps ∧
      walk = steps.map fun step => ⟨step.1.target, step.2, step.1.kind⟩ := by
  have hwalk := log.shortest_walkFrom start depth
  have hbegins := log.walkFrom_isPrefix start depth
  exact ⟨_, _, _, transitive_of_acyclic hacyclic, transitive_of_acyclic hacyclic, hwalk, hbegins,
    hwalk.eq_filter (log.shortest_walkFrom start none) hbegins, log.walks_steps start depth, walkFrom_eq⟩

/-- Of the ways to an entity the shortest one counts, though the edges of a longer one come first. -/
theorem shortest_diamond :
    let e (n : Nat) : Entity := ⟨.evaluatedValue, ⟨n⟩⟩
    let edge (a b : Nat) : Edge := ⟨e a, .valueSource, e b⟩
    let log := EdgeLog.mk [edge 1 2, edge 2 3, edge 3 4, edge 1 4, edge 4 5, edge 5 6]
    log.Shortest (e 1) (some 2)
      [⟨e 2, 1, .valueSource⟩, ⟨e 4, 1, .valueSource⟩, ⟨e 3, 2, .valueSource⟩, ⟨e 5, 2, .valueSource⟩] := by
  intro e edge log
  have hacyclic := cycleFrom?_eq_none_iff.1 (show log.cycleFrom? (e 1) = none from rfl)
  obtain ⟨walk, -, -, hwalk, -, hshortest, -⟩ := transitive_shortest log (e 1) hacyclic (some 2)
  have hlist : log.transitive (e 1) (some 2) = .ok [⟨e 2, 1, .valueSource⟩, ⟨e 4, 1, .valueSource⟩,
      ⟨e 3, 2, .valueSource⟩, ⟨e 5, 2, .valueSource⟩] := rfl
  cases hlist.symm.trans hwalk
  exact hshortest

end EdgeLog

end Provenance

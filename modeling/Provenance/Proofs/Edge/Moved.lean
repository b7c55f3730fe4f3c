import Provenance.Proofs.Edge.Walk
import Provenance.Proofs.View

/-!
# Walks with other identities

A walk goes along the same arrows if keys are renamed, as long as no two keys of arrows are taken to one
(`Graph.walk_map`). So a log whose identities are renamed tells the renamed edges of an owner, and everything
that can be reached from there (`EdgeLog.ownedBy_rename`, `EdgeLog.walkFrom_rename`).
-/

namespace Provenance

namespace Graph

variable {Arrow Arrow' Key Key' : Type} [DecidableEq Key] [DecidableEq Key'] {key : Arrow → Key}
  {key' : Arrow' → Key'} {next : Key → List Arrow} {next' : Key' → List Arrow'} {f : Arrow → Arrow'}
  {ρ : Key → Key'}

theorem discover_map (hkey : ∀ a, key' (f a) = ρ (key a)) {arrows : List Arrow}
    (hapart : ∀ a ∈ arrows, ∀ k, ρ k = ρ (key a) → k = key a) (seen : List Key) :
    discover key' (arrows.map f) (seen.map ρ) =
      ((discover key arrows seen).1.map f, (discover key arrows seen).2.map ρ) := by
  induction arrows generalizing seen with
  | nil => rfl
  | cons arrow rest ih =>
    have hrest : ∀ a ∈ rest, ∀ k, ρ k = ρ (key a) → k = key a := fun a ha =>
      hapart a (List.mem_cons_of_mem _ ha)
    have hseen : key' (f arrow) ∈ seen.map ρ ↔ key arrow ∈ seen := by
      rw [hkey, List.mem_map]
      constructor
      · rintro ⟨k, hk, heq⟩
        exact hapart arrow List.mem_cons_self k heq ▸ hk
      · exact fun hk => ⟨_, hk, rfl⟩
    rw [List.map_cons, discover, discover]
    by_cases h : key arrow ∈ seen
    · rw [if_pos h, if_pos (hseen.2 h), ih hrest]
    · rw [if_neg h, if_neg (fun h' => h (hseen.1 h')), hkey, ← List.map_cons, ih hrest]
      rfl

theorem walk_map (hkey : ∀ a, key' (f a) = ρ (key a)) (hnext : ∀ k, next' (ρ k) = (next k).map f)
    (hapart : ∀ k, ∀ a ∈ next k, ∀ k', ρ k' = ρ (key a) → k' = key a) (levels level : Nat)
    {arrows : List Arrow} (harrows : ∀ a ∈ arrows, ∀ k, ρ k = ρ (key a) → k = key a) (seen : List Key) :
    walk key' next' levels level (arrows.map f) (seen.map ρ) =
      (walk key next levels level arrows seen).map fun step => (f step.1, step.2) := by
  induction levels generalizing level arrows seen with
  | zero => rfl
  | succ levels ih =>
    have hfollowing : ∀ found : List Arrow, (found.map f).flatMap (fun a => next' (key' a)) =
        (found.flatMap fun a => next (key a)).map f := by
      intro found
      rw [List.flatMap_map, List.map_flatMap]
      exact List.flatMap_congr fun a _ => by rw [hkey, hnext]
    have hfound : ∀ a ∈ (discover key arrows seen).1.flatMap fun a => next (key a),
        ∀ k, ρ k = ρ (key a) → k = key a := by
      intro a ha
      obtain ⟨b, -, ha⟩ := List.mem_flatMap.1 ha
      exact hapart _ a ha
    simp only [walk]
    rw [discover_map hkey harrows]
    dsimp only
    rw [hfollowing, ih _ hfound, List.map_append, List.map_map, List.map_map]
    rfl

end Graph

namespace EdgeLog

variable {ρ : Id → Id} {log : EdgeLog}

/-- A log with its identities renamed. -/
def rename (ρ : Id → Id) (log : EdgeLog) : EdgeLog := ⟨log.edges.map (Edge.rename ρ)⟩

/-- A renaming takes no other identity to where it takes that of an entity which an edge links. -/
def Apart (ρ : Id → Id) (log : EdgeLog) : Prop :=
  ∀ edge ∈ log.edges, ∀ e, e = edge.owner ∨ e = edge.target → ∀ i, ρ i = ρ e.id → i = e.id

variable (h : log.Apart ρ)
include h

theorem ownedBy_rename (id : Id) : (log.rename ρ).ownedBy (ρ id) = (log.ownedBy id).map (Edge.rename ρ) := by
  unfold ownedBy rename
  rw [List.filter_map]
  refine congrArg _ (List.filter_congr fun edge hedge => decide_eq_decide.2 ⟨fun heq => ?_, congrArg ρ⟩)
  exact (h edge hedge edge.owner (.inl rfl) id heq.symm).symm

theorem isEmpty_ownedBy_rename (id : Id) :
    ((log.rename ρ).ownedBy (ρ id)).isEmpty = (log.ownedBy id).isEmpty := by
  rw [ownedBy_rename h, List.isEmpty_map]

theorem walkFrom_rename (start : Entity) (depth : Option Nat) :
    (log.rename ρ).walkFrom (start.rename ρ) depth =
      (log.walkFrom start depth).map fun reached => { reached with entity := reached.entity.rename ρ } := by
  have hapart : ∀ id, ∀ edge ∈ log.ownedBy id, ∀ k, ρ k = ρ edge.target.id → k = edge.target.id :=
    fun id edge hedge => h edge (mem_ownedBy.1 hedge).1 edge.target (.inr rfl)
  have hlevels : (log.rename ρ).levels depth = log.levels depth := by
    unfold levels rename
    rw [List.length_map]
  have hsteps : (log.rename ρ).steps (start.rename ρ) depth =
      (log.steps start depth).map fun step => (step.1.rename ρ, step.2) := by
    unfold steps
    rw [hlevels, show (start.rename ρ).id = ρ start.id from rfl, ownedBy_rename h]
    have hkey : ∀ edge : Edge, (edge.rename ρ).target.id = ρ edge.target.id := fun _ => rfl
    exact Graph.walk_map (f := Edge.rename ρ) hkey (ownedBy_rename h) hapart _ _ (hapart start.id) [start.id]
  rw [walkFrom_eq, walkFrom_eq, hsteps, List.map_map, List.map_map]
  rfl

end EdgeLog

end Provenance

import Provenance.Proofs.Graph.Walk

/-!
# A walk is a queue

What leads on from a key is queued when the key is first reached, and whether a key was reached before is
only asked when an arrow leaves the queue (`Walks`). A walk level by level is the walk of such a queue, if
its levels suffice for the depth or for all the keys of a graph (`Frontier.walks`).
-/

namespace Provenance.Graph

variable {Arrow Key : Type} {key : Arrow → Key} {next : Key → List Arrow} {depth : Option Nat}
  {arrows : List Arrow} {seen : List Key} {level levels : Nat}

/-- Arrows as they are queued at a level. None are, if that is deeper than a walk goes. -/
def queued (depth : Option Nat) (level : Nat) (arrows : List Arrow) : List (Arrow × Nat) :=
  if depth.any (· < level) then [] else arrows.map fun arrow => (arrow, level)

/-- What a queue of arrows walks, one arrow after the other. -/
inductive Walks (key : Arrow → Key) (next : Key → List Arrow) (depth : Option Nat) :
    List (Arrow × Nat) → List Key → List (Arrow × Nat) → Prop
  | finished {seen : List Key} : Walks key next depth [] seen []
  | skips {arrow : Arrow} {level : Nat} {queue steps : List (Arrow × Nat)} {seen : List Key}
      (old : key arrow ∈ seen) (others : Walks key next depth queue seen steps) :
      Walks key next depth ((arrow, level) :: queue) seen steps
  | reaches {arrow : Arrow} {level : Nat} {queue steps : List (Arrow × Nat)} {seen : List Key}
      (new : key arrow ∉ seen)
      (others : Walks key next depth (queue ++ queued depth (level + 1) (next (key arrow)))
        (key arrow :: seen) steps) :
      Walks key next depth ((arrow, level) :: queue) seen ((arrow, level) :: steps)

theorem queued_of_deep (h : ∃ d ∈ depth, d < level) : queued depth level arrows = [] := by
  obtain ⟨d, rfl, hlt⟩ := h
  simp [queued, hlt]

theorem queued_of_le (h : ∀ d ∈ depth, level ≤ d) :
    queued depth level arrows = arrows.map fun arrow => (arrow, level) := by
  cases depth with
  | none => rfl
  | some d => simp [queued, h d rfl]

theorem flatMap_queued (found : List Arrow) :
    (found.flatMap fun arrow => queued depth level (next (key arrow))) =
      queued depth level (found.flatMap fun arrow => next (key arrow)) := by
  unfold queued
  split <;> simp [List.map_flatMap]

variable [DecidableEq Key]

/-- The arrows of one level leave a queue before what they queue themselves. -/
theorem walks_discover {queue steps : List (Arrow × Nat)}
    (h : Walks key next depth
      (queue ++ (discover key arrows seen).1.flatMap fun arrow => queued depth (level + 1) (next (key arrow)))
      (discover key arrows seen).2 steps) :
    Walks key next depth (arrows.map (fun arrow => (arrow, level)) ++ queue) seen
      ((discover key arrows seen).1.map (fun arrow => (arrow, level)) ++ steps) := by
  induction arrows generalizing seen queue with
  | nil => simpa [discover] using h
  | cons arrow rest ih =>
    by_cases hseen : key arrow ∈ seen
    · simp only [discover, if_pos hseen] at h ⊢
      exact .skips hseen (ih h)
    · simp only [discover, if_neg hseen, List.flatMap_cons, ← List.append_assoc] at h ⊢
      have hrest := ih h
      rw [← List.append_assoc] at hrest
      exact .reaches hseen hrest

/-- A walk is that of a queue, if it goes through the levels up to the depth or through more than there are
keys to reach. -/
theorem Frontier.walks {start : Key} {keys : List Key} (h : Frontier key next start level arrows seen)
    (hkeys : ∀ a b, Leads key next a b → b ∈ keys) (hdepth : ∀ d ∈ depth, level + levels ≤ d + 1)
    (hlevels : (∃ d ∈ depth, d < level + levels) ∨ keys.length < level + levels) :
    Walks key next depth (queued depth level arrows) seen (walk key next levels level arrows seen) := by
  induction levels generalizing level arrows seen with
  | zero =>
    by_cases hdeep : ∃ d ∈ depth, d < level
    · rw [queued_of_deep hdeep]
      exact .finished
    -- Where the depth is no bound, no key is this far away.
    have hnone : (discover key arrows seen).1 = [] := by
      refine List.eq_nil_iff_forall_not_mem.2 fun arrow harrow => ?_
      have hle := (h.mem_found_iff.1 (List.mem_map_of_mem harrow)).le_length hkeys
      have hlt := hlevels.resolve_left hdeep
      omega
    push Not at hdeep
    have hwalks : Walks key next depth (arrows.map (fun arrow => (arrow, level)) ++ []) seen
        ((discover key arrows seen).1.map (fun arrow => (arrow, level)) ++ []) :=
      walks_discover (by rw [hnone]; exact .finished)
    rw [queued_of_le hdeep]
    simpa [walk, hnone] using hwalks
  | succ levels ih =>
    have hle : ∀ d ∈ depth, level ≤ d := by
      intro d hd
      have := hdepth d hd
      omega
    have hrest : Walks key next depth
        (queued depth (level + 1) ((discover key arrows seen).1.flatMap fun arrow => next (key arrow)))
        (discover key arrows seen).2 _ :=
      ih h.step (fun d hd => by have := hdepth d hd; omega) (by rwa [Nat.add_right_comm, Nat.add_assoc])
    rw [← flatMap_queued] at hrest
    rw [queued_of_le hle]
    have hwalks : Walks key next depth (arrows.map (fun arrow => (arrow, level)) ++ []) seen _ :=
      walks_discover hrest
    simpa [walk] using hwalks

end Provenance.Graph

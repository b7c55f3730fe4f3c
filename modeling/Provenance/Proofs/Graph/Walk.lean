import Mathlib.Data.List.Perm.Subperm
import Mathlib.Data.Nat.Find
import Provenance.Graph.Search
import Provenance.Proofs.Graph.Cycle

/-!
# What a walk reaches

A walk reaches a key once, at the level that is the least number of arrows which lead to it from the start
(`Frontier.mem_walk_iff`, `Frontier.nodup_walk`), and keys of lower levels before others
(`Frontier.sorted_walk`). That number is at most the number of keys that arrows lead to
(`Nearest.le_length`), so a walk through more levels than that reaches all that can be reached, and its start
as well if that is on a cycle and was not marked as seen (`mem_walk_iff_reaches`).
-/

namespace Provenance.Graph

/-! ## Distances -/

section

variable {Key : Type} {R : Key → Key → Prop} {n : Nat} {a b : Key}

/-- A number of arrows leads from a key to another one. -/
def Steps (R : Key → Key → Prop) : Nat → Key → Key → Prop
  | 0, a, b => a = b
  | n + 1, a, b => ∃ m, Steps R n a m ∧ R m b

/-- The least number of arrows that lead from a key to another one. -/
structure Nearest (R : Key → Key → Prop) (n : Nat) (a b : Key) : Prop where
  steps : Steps R n a b
  least : ∀ m < n, ¬Steps R m a b

theorem exists_steps_iff : (∃ n, Steps R n a b) ↔ Relation.ReflTransGen R a b := by
  constructor
  · rintro ⟨n, h⟩
    induction n generalizing b with
    | zero => exact h ▸ .refl
    | succ n ih =>
      obtain ⟨m, hm, hstep⟩ := h
      exact (ih hm).tail hstep
  · intro h
    induction h with
    | refl => exact ⟨0, rfl⟩
    | tail _ hstep ih =>
      obtain ⟨n, hn⟩ := ih
      exact ⟨n + 1, _, hn, hstep⟩

open Classical in
theorem exists_nearest_iff : (∃ n, Nearest R n a b) ↔ Relation.ReflTransGen R a b := by
  rw [← exists_steps_iff]
  constructor
  · rintro ⟨n, h⟩
    exact ⟨n, h.steps⟩
  · intro h
    exact ⟨Nat.find h, Nat.find_spec h, fun _ => Nat.find_min h⟩

namespace Nearest

theorem eq {n' : Nat} (h : Nearest R n a b) (h' : Nearest R n' a b) : n = n' := by
  rcases Nat.lt_trichotomy n n' with hlt | heq | hlt
  · exact absurd h.steps (h'.least n hlt)
  · exact heq
  · exact absurd h'.steps (h.least n' hlt)

theorem pos_iff (h : Nearest R n a b) : 0 < n ↔ a ≠ b := by
  constructor
  · exact fun hpos => h.least 0 hpos
  · intro hne
    refine Nat.pos_of_ne_zero fun hzero => ?_
    subst hzero
    exact hne h.steps

/-- The last arrow on a shortest way comes from a key that is one arrow nearer. -/
theorem exists_before (h : Nearest R (n + 1) a b) : ∃ m, Nearest R n a m ∧ R m b := by
  obtain ⟨m, hm, hstep⟩ := h.steps
  exact ⟨m, ⟨hm, fun j hj hj' => h.least (j + 1) (Nat.succ_lt_succ hj) ⟨m, hj', hstep⟩⟩, hstep⟩

/-- A shortest way meets no key twice. -/
private theorem exists_nodup {keys : List Key} (hkeys : ∀ a b, R a b → b ∈ keys) (h : Nearest R n a b) :
    ∃ met : List Key, met.length = n ∧ met.Nodup ∧ met ⊆ keys ∧ ∀ k ∈ met, ∃ m ≤ n, Nearest R m a k := by
  -- Induction along the way: its last key is farther from the start than all that it met before.
  induction n generalizing b with
  | zero => exact ⟨[], rfl, .nil, List.nil_subset _, nofun⟩
  | succ n ih =>
    obtain ⟨m, hm, hstep⟩ := h.exists_before
    obtain ⟨met, hlength, hnodup, hsub, hnear⟩ := ih hm
    refine ⟨b :: met, by rw [List.length_cons, hlength], List.nodup_cons.2 ⟨fun hb => ?_, hnodup⟩,
      List.cons_subset.2 ⟨hkeys m b hstep, hsub⟩, fun k hk => ?_⟩
    · obtain ⟨j, hj, hnearest⟩ := hnear b hb
      have := h.eq hnearest
      omega
    · rcases List.mem_cons.1 hk with rfl | hk
      · exact ⟨n + 1, Nat.le_refl _, h⟩
      · obtain ⟨j, hj, hnearest⟩ := hnear k hk
        exact ⟨j, Nat.le_succ_of_le hj, hnearest⟩

/-- No shortest way is longer than there are keys that arrows lead to. -/
theorem le_length {keys : List Key} (hkeys : ∀ a b, R a b → b ∈ keys) (h : Nearest R n a b) :
    n ≤ keys.length := by
  obtain ⟨met, rfl, hnodup, hsub, -⟩ := h.exists_nodup hkeys
  exact (List.subperm_of_subset hnodup hsub).length_le

end Nearest

end

/-! ## Levels -/

variable {Arrow Key : Type} {key : Arrow → Key} {next : Key → List Arrow} {arrows : List Arrow}
  {seen : List Key} {start k : Key} {level levels : Nat}

/-- What a walk has at a level: it has seen the keys that are nearer to the start, and its arrows lead to
those at this distance. -/
structure Frontier (key : Arrow → Key) (next : Key → List Arrow) (start : Key) (level : Nat)
    (arrows : List Arrow) (seen : List Key) : Prop where
  nearer : ∀ k, k ∈ seen ↔ ∃ m < level, Steps (Leads key next) m start k
  here : ∀ k, k ∈ arrows.map key ∧ k ∉ seen ↔ Nearest (Leads key next) level start k

theorem Frontier.first (key : Arrow → Key) (next : Key → List Arrow) (start : Key) :
    Frontier key next start 1 (next start) [start] := by
  have hseen : ∀ k, k ∈ [start] ↔ ∃ m < 1, Steps (Leads key next) m start k := by
    intro k
    rw [List.mem_singleton]
    constructor
    · exact fun hk => ⟨0, Nat.one_pos, hk.symm⟩
    · rintro ⟨m, hm, hsteps⟩
      cases Nat.lt_one_iff.1 hm
      exact hsteps.symm
  have harrows : ∀ k, k ∈ (next start).map key ↔ Steps (Leads key next) 1 start k := by
    intro k
    rw [List.mem_map]
    constructor
    · exact fun harrow => ⟨start, rfl, harrow⟩
    · rintro ⟨_, rfl, harrow⟩
      exact harrow
  refine ⟨hseen, fun k => ?_⟩
  rw [harrows, hseen]
  constructor
  · exact fun ⟨hsteps, hnew⟩ => ⟨hsteps, fun m hm hm' => hnew ⟨m, hm, hm'⟩⟩
  · exact fun h => ⟨h.steps, fun ⟨m, hm, hm'⟩ => h.least m hm hm'⟩

variable [DecidableEq Key]

theorem mem_discover_iff :
    k ∈ (discover key arrows seen).1.map key ↔ k ∈ arrows.map key ∧ k ∉ seen := by
  induction arrows generalizing seen with
  | nil => simp [discover]
  | cons arrow rest ih =>
    unfold discover
    split
    · next hseen =>
      rw [ih, List.map_cons, List.mem_cons]
      constructor
      · exact fun ⟨hk, hnew⟩ => ⟨.inr hk, hnew⟩
      · rintro ⟨rfl | hk, hnew⟩
        · exact absurd hseen hnew
        · exact ⟨hk, hnew⟩
    · next hnew =>
      rw [List.map_cons, List.mem_cons, ih, List.map_cons, List.mem_cons, List.mem_cons]
      by_cases hk : k = key arrow
      · simp [hk, hnew]
      · simp [hk]

theorem mem_seen_discover_iff :
    k ∈ (discover key arrows seen).2 ↔ k ∈ seen ∨ k ∈ arrows.map key := by
  induction arrows generalizing seen with
  | nil => simp [discover]
  | cons arrow rest ih =>
    unfold discover
    split
    · next hseen =>
      rw [ih, List.map_cons, List.mem_cons]
      constructor
      · exact fun hk => hk.imp_right .inr
      · rintro (hk | rfl | hk)
        · exact .inl hk
        · exact .inl hseen
        · exact .inr hk
    · rw [ih, List.map_cons, List.mem_cons, List.mem_cons]
      tauto

theorem discover_sublist : (discover key arrows seen).1.Sublist arrows := by
  induction arrows generalizing seen with
  | nil => exact List.Sublist.slnil
  | cons arrow rest ih =>
    unfold discover
    split
    · exact ih.cons arrow
    · exact ih.cons_cons arrow

/-- A walk through more levels goes on from where the other one ends. -/
theorem walk_isPrefix (levels more level : Nat) (arrows : List Arrow) (seen : List Key) :
    walk key next levels level arrows seen <+: walk key next (levels + more) level arrows seen := by
  induction levels generalizing level arrows seen with
  | zero => exact List.nil_prefix
  | succ levels ih =>
    rw [Nat.succ_add]
    simp only [walk]
    exact (List.prefix_append_right_inj _).2 (ih _ _ _)

theorem nodup_discover : ((discover key arrows seen).1.map key).Nodup := by
  induction arrows generalizing seen with
  | nil => exact .nil
  | cons arrow rest ih =>
    unfold discover
    split
    · exact ih
    · refine List.nodup_cons.2 ⟨fun hmem => ?_, ih⟩
      exact (mem_discover_iff.1 hmem).2 List.mem_cons_self

namespace Frontier

variable (h : Frontier key next start level arrows seen)
include h

theorem mem_found_iff :
    k ∈ (discover key arrows seen).1.map key ↔ Nearest (Leads key next) level start k :=
  mem_discover_iff.trans (h.here k)

/-- A walk goes on one level further. -/
theorem step : Frontier key next start (level + 1)
    ((discover key arrows seen).1.flatMap fun arrow => next (key arrow))
    (discover key arrows seen).2 := by
  have hseen : ∀ k, k ∈ (discover key arrows seen).2 ↔
      ∃ m < level + 1, Steps (Leads key next) m start k := by
    intro k
    rw [mem_seen_discover_iff]
    constructor
    · rintro (hk | hk)
      · obtain ⟨m, hm, hsteps⟩ := (h.nearer k).1 hk
        exact ⟨m, Nat.lt_succ_of_lt hm, hsteps⟩
      · by_cases hold : k ∈ seen
        · obtain ⟨m, hm, hsteps⟩ := (h.nearer k).1 hold
          exact ⟨m, Nat.lt_succ_of_lt hm, hsteps⟩
        · exact ⟨level, Nat.lt_succ_self _, ((h.here k).1 ⟨hk, hold⟩).steps⟩
    · rintro ⟨m, hm, hsteps⟩
      by_cases hold : k ∈ seen
      · exact .inl hold
      · -- What was not seen before is not nearer than this level.
        have hfar : ∀ j < level, ¬Steps (Leads key next) j start k := fun j hj hj' =>
          hold ((h.nearer k).2 ⟨j, hj, hj'⟩)
        rcases Nat.lt_succ_iff_lt_or_eq.1 hm with hlt | rfl
        · exact absurd hsteps (hfar m hlt)
        · exact .inr ((h.here k).2 ⟨hsteps, hfar⟩).1
  have harrows : ∀ k, k ∈ ((discover key arrows seen).1.flatMap fun arrow => next (key arrow)).map key ↔
      ∃ m, Nearest (Leads key next) level start m ∧ Leads key next m k := by
    intro k
    simp only [List.mem_map, List.mem_flatMap, ← h.mem_found_iff]
    constructor
    · rintro ⟨arrow, ⟨before, hbefore, harrow⟩, rfl⟩
      exact ⟨_, ⟨before, hbefore, rfl⟩, arrow, harrow, rfl⟩
    · rintro ⟨_, ⟨before, hbefore, rfl⟩, arrow, harrow, rfl⟩
      exact ⟨arrow, ⟨before, hbefore, harrow⟩, rfl⟩
  refine ⟨hseen, fun k => ?_⟩
  rw [harrows, hseen]
  constructor
  · rintro ⟨⟨m, hm, hstep⟩, hnew⟩
    exact ⟨⟨m, hm.steps, hstep⟩, fun j hj hj' => hnew ⟨j, hj, hj'⟩⟩
  · intro hnearest
    exact ⟨hnearest.exists_before, fun ⟨j, hj, hj'⟩ => hnearest.least j hj hj'⟩

/-- A walk reaches a key at a level iff that is its distance. -/
theorem mem_walk_iff {l : Nat} :
    (k, l) ∈ (walk key next levels level arrows seen).map (fun step => (key step.1, step.2)) ↔
      level ≤ l ∧ l < level + levels ∧ Nearest (Leads key next) l start k := by
  -- Induction on the levels that are left, for every frontier: `step` leads from one to the next.
  induction levels generalizing level arrows seen with
  | zero =>
    constructor
    · exact fun hmem => absurd hmem List.not_mem_nil
    · rintro ⟨hle, hlt, -⟩
      omega
  | succ levels ih =>
    have hfound : (k, l) ∈ ((discover key arrows seen).1.map fun arrow => (arrow, level)).map
        (fun step => (key step.1, step.2)) ↔ l = level ∧ Nearest (Leads key next) level start k := by
      rw [← h.mem_found_iff]
      simp only [List.map_map, List.mem_map, Function.comp, Prod.mk.injEq]
      constructor
      · rintro ⟨arrow, harrow, hk, rfl⟩
        exact ⟨rfl, arrow, harrow, hk⟩
      · rintro ⟨rfl, arrow, harrow, hk⟩
        exact ⟨arrow, harrow, hk, rfl⟩
    unfold walk
    dsimp only
    rw [List.map_append, List.mem_append, hfound, ih h.step]
    constructor
    · rintro (⟨rfl, hnearest⟩ | ⟨hle, hlt, hnearest⟩)
      · exact ⟨Nat.le_refl _, by omega, hnearest⟩
      · exact ⟨by omega, by omega, hnearest⟩
    · rintro ⟨hle, hlt, hnearest⟩
      rcases Nat.eq_or_lt_of_le hle with rfl | hlt'
      · exact .inl ⟨rfl, hnearest⟩
      · exact .inr ⟨hlt', by omega, hnearest⟩

theorem nearest_of_mem_walk {step : Arrow × Nat} (hstep : step ∈ walk key next levels level arrows seen) :
    level ≤ step.2 ∧ step.2 < level + levels ∧ Nearest (Leads key next) step.2 start (key step.1) :=
  h.mem_walk_iff.1 (List.mem_map.2 ⟨step, hstep, rfl⟩)

/-- A walk reaches no key twice. -/
theorem nodup_walk :
    ((walk key next levels level arrows seen).map fun step => key step.1).Nodup := by
  induction levels generalizing level arrows seen with
  | zero => exact .nil
  | succ levels ih =>
    unfold walk
    dsimp only
    rw [List.map_append, List.map_map]
    refine List.nodup_append.2 ⟨nodup_discover, ih h.step, fun k hk k' hk' heq => ?_⟩
    subst heq
    obtain ⟨step, hstep, rfl⟩ := List.mem_map.1 hk'
    -- What is found later is farther, and a key has one distance.
    obtain ⟨hle, -, hfar⟩ := h.step.nearest_of_mem_walk hstep
    have hnear := (h.mem_found_iff (k := key step.1)).1 hk
    have := hnear.eq hfar
    omega

/-- A walk reaches what is nearer first. -/
theorem sorted_walk : (walk key next levels level arrows seen).Pairwise fun a b => a.2 ≤ b.2 := by
  induction levels generalizing level arrows seen with
  | zero => exact .nil
  | succ levels ih =>
    simp only [walk]
    refine List.pairwise_append.2 ⟨?_, ih h.step, ?_⟩
    · simp [List.pairwise_map, List.pairwise_of_forall]
    · intro a ha b hb
      obtain ⟨arrow, -, rfl⟩ := List.mem_map.1 ha
      have hlater := (h.step.nearest_of_mem_walk hb).1
      exact Nat.le_of_succ_le hlater

omit h in
/-- What a walk goes along comes from a key that is one level nearer. -/
theorem exists_before_of_mem_walk (h : Frontier key next start (level + 1) arrows seen)
    (hbefore : ∀ arrow ∈ arrows, ∃ k, Nearest (Leads key next) level start k ∧ arrow ∈ next k)
    {step : Arrow × Nat} (hstep : step ∈ walk key next levels (level + 1) arrows seen) :
    ∃ k n, step.2 = n + 1 ∧ Nearest (Leads key next) n start k ∧ step.1 ∈ next k := by
  induction levels generalizing level arrows seen with
  | zero => cases hstep
  | succ levels ih =>
    simp only [walk] at hstep
    rcases List.mem_append.1 hstep with hstep | hstep
    · obtain ⟨arrow, harrow, rfl⟩ := List.mem_map.1 hstep
      obtain ⟨k, hk, hnext⟩ := hbefore arrow (discover_sublist.subset harrow)
      exact ⟨k, level, rfl, hk, hnext⟩
    · refine ih h.step (fun arrow harrow => ?_) hstep
      obtain ⟨before, hfound, hnext⟩ := List.mem_flatMap.1 harrow
      exact ⟨key before, h.mem_found_iff.1 (List.mem_map_of_mem hfound), hnext⟩

end Frontier

/-! ## Walks that go far enough -/

/-- Keys to which arrows lead, and with each of them all that follows it. -/
structure Closed (key : Arrow → Key) (next : Key → List Arrow) (arrows : List Arrow) (reached : List Key) :
    Prop where
  here : ∀ arrow ∈ arrows, key arrow ∈ reached
  follows : ∀ a ∈ reached, ∀ arrow ∈ next a, key arrow ∈ reached

omit [DecidableEq Key] in
theorem Closed.mem_of_reaches {reached : List Key} (h : Closed key next arrows reached) {arrow : Arrow}
    (harrow : arrow ∈ arrows) (hreach : Relation.ReflTransGen (Leads key next) (key arrow) k) :
    k ∈ reached := by
  induction hreach with
  | refl => exact h.here arrow harrow
  | tail _ hleads ih =>
    obtain ⟨arrow, harrow, rfl⟩ := hleads
    exact h.follows _ ih arrow harrow

/-- The keys of a list that are not seen yet. -/
def unseen (keys seen : List Key) : List Key := keys.filter fun k => k ∉ seen

/-- What a walk has seen in the end, what it had seen before included. -/
def reached (key : Arrow → Key) (next : Key → List Arrow) (levels level : Nat) (arrows : List Arrow)
    (seen : List Key) : List Key :=
  seen ++ (walk key next levels level arrows seen).map fun step => key step.1

/-- A key of the list that is seen as well is not unseen any longer. -/
theorem unseen_cons_lt {keys : List Key} (hkey : k ∈ keys) (hnew : k ∉ seen) :
    (unseen keys (k :: seen)).length < (unseen keys seen).length := by
  have heq : unseen keys (k :: seen) = (unseen keys seen).filter fun other => other ≠ k := by
    rw [unseen, unseen, List.filter_filter]
    refine List.filter_congr fun other _ => ?_
    rw [← Bool.decide_and, decide_eq_decide, List.mem_cons, not_or]
  rw [heq]
  refine List.length_filter_lt_length_iff_exists.2 ⟨k, ?_, by simp⟩
  simpa [unseen, hnew] using hkey

theorem unseen_mono {keys seen' : List Key} (hsub : seen ⊆ seen') :
    (unseen keys seen').length ≤ (unseen keys seen).length := by
  refine (List.monotone_filter_right keys fun k hk => ?_).length_le
  exact decide_eq_true fun hseen => of_decide_eq_true hk (hsub hseen)

/-- A level that discovers something leaves fewer keys unseen. -/
theorem unseen_discover_lt {keys : List Key} (harrows : ∀ arrow ∈ arrows, key arrow ∈ keys)
    (hfound : (discover key arrows seen).1 ≠ []) :
    (unseen keys (discover key arrows seen).2).length < (unseen keys seen).length := by
  obtain ⟨arrow, harrow⟩ := List.exists_mem_of_ne_nil _ hfound
  obtain ⟨hmem, hnew⟩ := mem_discover_iff.1 (List.mem_map_of_mem (f := key) harrow)
  have hlt := unseen_cons_lt (harrows arrow (discover_sublist.subset harrow)) hnew
  refine Nat.lt_of_le_of_lt (unseen_mono (List.cons_subset.2 ⟨?_, fun k hk => ?_⟩)) hlt
  · exact mem_seen_discover_iff.2 (.inr hmem)
  · exact mem_seen_discover_iff.2 (.inl hk)

/-- What a walk has seen in the end is what it would have seen from its second level on. -/
theorem mem_reached_succ_iff : k ∈ reached key next (levels + 1) level arrows seen ↔
    k ∈ reached key next levels (level + 1)
      ((discover key arrows seen).1.flatMap fun arrow => next (key arrow)) (discover key arrows seen).2 := by
  have hfound : k ∈ (discover key arrows seen).1.map key ↔ k ∈ arrows.map key ∧ k ∉ seen := mem_discover_iff
  simp only [reached, walk, List.map_append, List.map_map, List.mem_append, Function.comp_def,
    mem_seen_discover_iff, ← or_assoc, hfound]
  tauto

theorem reached_nil (levels level : Nat) (seen : List Key) : reached key next levels level [] seen = seen := by
  have hwalk : walk key next levels level [] seen = [] := by
    induction levels generalizing level seen with
    | zero => rfl
    | succ levels ih => simp [walk, discover, ih]
  simp [reached, hwalk]

/-- What follows the keys that are seen is seen, or found by the arrows of the next level. -/
theorem seen_discover
    (hseen : ∀ a ∈ seen, ∀ arrow ∈ next a, key arrow ∈ seen ∨ key arrow ∈ arrows.map key) :
    ∀ a ∈ (discover key arrows seen).2, ∀ arrow ∈ next a, key arrow ∈ (discover key arrows seen).2 ∨
      key arrow ∈ ((discover key arrows seen).1.flatMap fun arrow => next (key arrow)).map key := by
  intro a ha arrow harrow
  by_cases hold : a ∈ seen
  · exact .inl (mem_seen_discover_iff.2 (hseen a hold arrow harrow))
  · have hfound := mem_discover_iff.2 ⟨(mem_seen_discover_iff.1 ha).resolve_left hold, hold⟩
    obtain ⟨before, hbefore, rfl⟩ := List.mem_map.1 hfound
    exact .inr (List.mem_map_of_mem (List.mem_flatMap.2 ⟨before, hbefore, harrow⟩))

/-- A walk through more levels than there are unseen keys sees all that its arrows lead to. -/
theorem closed_reached {keys : List Key} (hkeys : ∀ a, ∀ arrow ∈ next a, key arrow ∈ keys)
    (harrows : ∀ arrow ∈ arrows, key arrow ∈ keys) (hlevels : (unseen keys seen).length < levels)
    (hseen : ∀ a ∈ seen, ∀ arrow ∈ next a, key arrow ∈ seen ∨ key arrow ∈ arrows.map key) :
    Closed key next arrows (reached key next levels level arrows seen) := by
  induction levels generalizing level arrows seen with
  | zero => exact absurd hlevels (Nat.not_lt_zero _)
  | succ levels ih =>
    have hseen := seen_discover hseen
    -- Each level discovers a key, unless nothing is left to be discovered.
    have hnext : Closed key next ((discover key arrows seen).1.flatMap fun arrow => next (key arrow))
        (reached key next levels (level + 1)
          ((discover key arrows seen).1.flatMap fun arrow => next (key arrow)) (discover key arrows seen).2) := by
      by_cases hfound : (discover key arrows seen).1 = []
      · rw [hfound, List.flatMap_nil] at hseen ⊢
        rw [reached_nil]
        exact ⟨nofun, fun a ha arrow harrow => (hseen a ha arrow harrow).resolve_right List.not_mem_nil⟩
      · have hlt := unseen_discover_lt harrows hfound
        refine ih (fun arrow harrow => ?_) (by omega) hseen
        obtain ⟨before, -, harrow⟩ := List.mem_flatMap.1 harrow
        exact hkeys _ arrow harrow
    refine ⟨fun arrow harrow => ?_, fun a ha arrow harrow => ?_⟩
    · rw [mem_reached_succ_iff]
      exact List.mem_append_left _ (mem_seen_discover_iff.2 (.inr (List.mem_map_of_mem harrow)))
    · rw [mem_reached_succ_iff] at ha ⊢
      exact hnext.follows a ha arrow harrow

/-- A walk reaches only what its arrows lead to. -/
theorem exists_reaches_of_mem_walk {step : Arrow × Nat} (hstep : step ∈ walk key next levels level arrows seen) :
    ∃ arrow ∈ arrows, Relation.ReflTransGen (Leads key next) (key arrow) (key step.1) := by
  induction levels generalizing level arrows seen with
  | zero => cases hstep
  | succ levels ih =>
    simp only [walk] at hstep
    rcases List.mem_append.1 hstep with hstep | hstep
    · obtain ⟨arrow, harrow, rfl⟩ := List.mem_map.1 hstep
      exact ⟨arrow, discover_sublist.subset harrow, .refl⟩
    · obtain ⟨arrow, harrow, hreach⟩ := ih hstep
      obtain ⟨before, hbefore, harrow⟩ := List.mem_flatMap.1 harrow
      exact ⟨before, discover_sublist.subset hbefore, .head ⟨arrow, harrow, rfl⟩ hreach⟩

/-- A walk that goes through more levels than there are keys reaches all that its arrows lead to. -/
theorem mem_walk_iff_reaches {keys : List Key} (hkeys : ∀ a, ∀ arrow ∈ next a, key arrow ∈ keys)
    (hlevels : keys.length < levels) (start : Key) :
    k ∈ (walk key next levels level (next start) []).map (fun step => key step.1) ↔
      Relation.TransGen (Leads key next) start k := by
  rw [Relation.TransGen.head'_iff]
  constructor
  · intro hk
    obtain ⟨step, hstep, rfl⟩ := List.mem_map.1 hk
    obtain ⟨arrow, harrow, hreach⟩ := exists_reaches_of_mem_walk hstep
    exact ⟨_, ⟨arrow, harrow, rfl⟩, hreach⟩
  · rintro ⟨_, ⟨arrow, harrow, rfl⟩, hreach⟩
    have hclosed : Closed key next (next start) (reached key next levels level (next start) []) :=
      closed_reached hkeys (hkeys start) (Nat.lt_of_le_of_lt (List.length_filter_le _ _) hlevels) nofun
    simpa [reached] using hclosed.mem_of_reaches harrow hreach

end Provenance.Graph

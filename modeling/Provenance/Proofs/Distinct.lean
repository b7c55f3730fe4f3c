import Mathlib.Data.List.Forall2
import Mathlib.Data.List.Induction
import Mathlib.Data.List.Nodup
import Mathlib.Data.List.Pairwise
import Provenance.Evaluation
import Provenance.Proofs.Traverse

/-!
# Lists at their first places

`distinct` keeps the members of a list without repetitions, in the order in which they are first met
(`pairwise_idxOf_distinct`).
`distinctById` does the same where entities are told apart by their identities alone, so the two agree on
entities of which no two share an identity (`distinctById_eq_distinct`). A one-to-one correspondence of the
members carries over to the distinct ones (`forall₂_distinct`). A member whose key is single is the one that a
lookup by the key finds (`List.find?_key_eq_some_iff`, `List.lookup_of_mem`).
-/

/-- If a list of lists repeats nothing, then a thing stands in one of the lists only. -/
theorem List.eq_of_nodup_flatMap {α β : Type} {f : α → List β} {xs : List α}
    (h : (xs.flatMap f).Nodup) {x x' : α} (hx : x ∈ xs) (hx' : x' ∈ xs) {y : β} (hy : y ∈ f x)
    (hy' : y ∈ f x') : x = x' := by
  by_contra hne
  have hsymm : Std.Symm (Function.onFun List.Disjoint f) := ⟨fun _ _ hd _ hy hy' => hd hy' hy⟩
  exact (List.nodup_flatMap.1 h).2.forall hx hx' hne hy hy'

/-- A lookup by a key that is single finds exactly the member that has it. -/
theorem List.find?_key_eq_some_iff {α κ : Type} [DecidableEq κ] {key : α → κ} {xs : List α}
    (h : (xs.map key).Nodup) {k : κ} {x : α} :
    xs.find? (fun y => key y = k) = some x ↔ x ∈ xs ∧ key x = k := by
  constructor
  · intro hfind
    exact ⟨List.mem_of_find?_eq_some hfind, by simpa using List.find?_some hfind⟩
  · intro ⟨hx, hkey⟩
    cases hfind : xs.find? (fun y => key y = k) with
    | none => exact absurd (decide_eq_true hkey) (List.find?_eq_none.1 hfind x hx)
    | some y =>
      have hy : key y = k := by simpa using List.find?_some hfind
      rw [List.inj_on_of_nodup_map h (List.mem_of_find?_eq_some hfind) hx (hy.trans hkey.symm)]

/-- If only the member with a given key contributes to a list of lists, it contributes all of it. -/
theorem List.flatMap_eq_of_key {α β κ : Type} {key : α → κ} {f : α → List β} {xs : List α}
    (h : (xs.map key).Nodup) {x : α} (hx : x ∈ xs) (hf : ∀ y ∈ xs, key y ≠ key x → f y = []) :
    xs.flatMap f = f x := by
  induction xs with
  | nil => cases hx
  | cons y ys ih =>
    obtain ⟨hy, hnodup⟩ := List.nodup_cons.1 h
    rw [List.flatMap_cons]
    rcases List.mem_cons.1 hx with rfl | hx
    · have hnil : ys.flatMap f = [] := List.flatMap_eq_nil_iff.2 fun z hz =>
        hf z (List.mem_cons_of_mem _ hz) fun heq => hy (heq ▸ List.mem_map_of_mem hz)
      rw [hnil, List.append_nil]
    · have hne : key y ≠ key x := fun heq => hy (heq ▸ List.mem_map_of_mem hx)
      rw [hf y List.mem_cons_self hne, List.nil_append,
        ih hnodup hx fun z hz => hf z (List.mem_cons_of_mem _ hz)]

section Lookup

variable {α : Type} {fields : List (String × α)}

theorem List.lookup_cons_eq_ite (field : String × α) (k : String) :
    (field :: fields).lookup k = if k = field.1 then some field.2 else fields.lookup k := by
  rw [List.lookup_cons]
  by_cases hk : k = field.1
  · simp [hk]
  · rw [beq_eq_false_iff_ne.2 hk, if_neg hk]

theorem List.lookup_map_snd {β : Type} (f : α → β) (k : String) :
    (fields.map fun field => (field.1, f field.2)).lookup k = (fields.lookup k).map f := by
  induction fields with
  | nil => rfl
  | cons field rest ih =>
    rw [List.map_cons, List.lookup_cons, List.lookup_cons, ih]
    cases k == field.1 <;> rfl

theorem List.exists_lookup_of_mem {field : String × α} (h : field ∈ fields) :
    ∃ v, fields.lookup field.1 = some v := by
  cases hlookup : fields.lookup field.1 with
  | some v => exact ⟨v, rfl⟩
  | none => exact absurd (List.lookup_eq_none_iff.1 hlookup field h) (by simp)

/-- Of single fields each is found under its name. -/
theorem List.lookup_of_mem (h : (fields.map Prod.fst).Nodup) {field : String × α} (hfield : field ∈ fields) :
    fields.lookup field.1 = some field.2 := by
  induction fields with
  | nil => cases hfield
  | cons first rest ih =>
    obtain ⟨hfirst, hrest⟩ := List.nodup_cons.1 h
    rw [List.lookup_cons_eq_ite]
    rcases List.mem_cons.1 hfield with rfl | hfield
    · exact if_pos rfl
    · have hne : field.1 ≠ first.1 := fun heq => hfirst (heq ▸ List.mem_map_of_mem hfield)
      rw [if_neg hne, ih hrest hfield]

end Lookup

namespace Provenance

section Distinct

variable {α β : Type} [DecidableEq α] [DecidableEq β]

/-- One more member of a list without repetitions. -/
private def addNew (seen : List α) (x : α) : List α := if x ∈ seen then seen else seen ++ [x]

private theorem distinct_eq (xs : List α) : distinct xs = xs.foldl addNew [] := rfl

private theorem mem_addNew {seen : List α} {x y : α} : y ∈ addNew seen x ↔ y ∈ seen ∨ y = x := by
  unfold addNew
  split
  · next h =>
    constructor
    · exact .inl
    · rintro (hy | rfl)
      · exact hy
      · exact h
  · simp

private theorem mem_foldl_addNew {xs seen : List α} {y : α} :
    y ∈ xs.foldl addNew seen ↔ y ∈ seen ∨ y ∈ xs := by
  induction xs generalizing seen with
  | nil => simp
  | cons x xs ih => rw [List.foldl_cons, ih, mem_addNew, List.mem_cons, or_assoc]

private theorem nodup_foldl_addNew {xs seen : List α} (h : seen.Nodup) :
    (xs.foldl addNew seen).Nodup := by
  induction xs generalizing seen with
  | nil => exact h
  | cons x xs ih =>
    refine ih ?_
    unfold addNew
    split
    · exact h
    · next hx =>
      refine List.nodup_append.2 ⟨h, List.nodup_singleton x, ?_⟩
      rintro a ha b hb rfl
      exact hx (List.mem_singleton.1 hb ▸ ha)

theorem mem_distinct {xs : List α} {y : α} : y ∈ distinct xs ↔ y ∈ xs := by
  rw [distinct_eq, mem_foldl_addNew]
  simp

theorem nodup_distinct (xs : List α) : (distinct xs).Nodup := nodup_foldl_addNew .nil

/-- The distinct members of a list keep the order in which they are first met. -/
theorem pairwise_idxOf_distinct (xs : List α) :
    (distinct xs).Pairwise fun a b => xs.idxOf a < xs.idxOf b := by
  induction xs using List.reverseRecOn with
  | nil => exact .nil
  | append_singleton xs x ih =>
    have hold : ∀ y ∈ distinct xs, (xs ++ [x]).idxOf y = xs.idxOf y := fun y hy =>
      List.idxOf_append_of_mem (mem_distinct.1 hy)
    have hbefore : (distinct xs).Pairwise fun a b => (xs ++ [x]).idxOf a < (xs ++ [x]).idxOf b := by
      refine ih.imp_of_mem fun {a b} ha hb hlt => ?_
      rwa [hold a ha, hold b hb]
    rw [distinct_eq, List.foldl_append, ← distinct_eq]
    simp only [List.foldl_cons, List.foldl_nil, addNew]
    split
    · exact hbefore
    · next hnew =>
      refine List.pairwise_append.2 ⟨hbefore, List.pairwise_singleton _ _, fun y hy z hz => ?_⟩
      cases List.mem_singleton.1 hz
      rw [hold y hy, List.idxOf_append_of_notMem fun hx => hnew (mem_distinct.2 hx)]
      have hlt := List.idxOf_lt_length_of_mem (mem_distinct.1 hy)
      omega

theorem distinct_of_nodup {xs : List α} (h : xs.Nodup) : distinct xs = xs := by
  induction xs using List.reverseRecOn with
  | nil => rfl
  | append_singleton xs x ih =>
    obtain ⟨hxs, -, hx⟩ := List.nodup_append.1 h
    have hnew : x ∉ xs := fun hmem => hx x hmem x (List.mem_singleton_self x) rfl
    rw [distinct_eq, List.foldl_append, ← distinct_eq, ih hxs]
    simp [addNew, hnew]

/-- Corresponding lists have corresponding distinct members. -/
theorem forall₂_distinct {R : α → β → Prop} (hR : Relator.BiUnique R) {xs : List α} {ys : List β}
    (h : List.Forall₂ R xs ys) : List.Forall₂ R (distinct xs) (distinct ys) := by
  rw [distinct_eq, distinct_eq]
  refine List.rel_foldl (R := R) (P := List.Forall₂ R) ?_ .nil h
  intro seen seen' hseen x y hxy
  unfold addNew
  have hmem : x ∈ seen ↔ y ∈ seen' := List.rel_mem hR hxy hseen
  by_cases hx : x ∈ seen
  · rw [if_pos hx, if_pos (hmem.1 hx)]
    exact hseen
  · rw [if_neg hx, if_neg fun hy => hx (hmem.2 hy)]
    exact List.rel_append hseen (.cons hxy .nil)

theorem distinct_map {f : α → β} {xs : List α} (hf : ∀ x ∈ xs, ∀ y ∈ xs, f x = f y → x = y) :
    distinct (xs.map f) = (distinct xs).map f := by
  have hunique : Relator.BiUnique fun x y => x ∈ xs ∧ f x = y :=
    ⟨fun x x' _ ⟨hx, heq⟩ ⟨hx', heq'⟩ => hf x hx x' hx' (heq.trans heq'.symm),
      fun _ _ _ ⟨_, heq⟩ ⟨_, heq'⟩ => heq.symm.trans heq'⟩
  have hmap : List.Forall₂ (fun x y => x ∈ xs ∧ f x = y) xs (xs.map f) := by
    rw [List.forall₂_map_right_iff, List.forall₂_same]
    exact fun _ hx => ⟨hx, rfl⟩
  have hdistinct := (forall₂_distinct hunique hmap).map_eq (f := f) (g := id) fun _ _ h => h.2
  rw [List.map_id] at hdistinct
  exact hdistinct.symm

end Distinct

/-- Among some entities an identity belongs to one of them only. -/
def IdsIdentify (entities : List Entity) : Prop :=
  ∀ a ∈ entities, ∀ b ∈ entities, a.id = b.id → a = b

theorem IdsIdentify.mono {entities entities' : List Entity} (h : IdsIdentify entities')
    (hsub : ∀ e ∈ entities, e ∈ entities') : IdsIdentify entities :=
  fun a ha b hb => h a (hsub a ha) b (hsub b hb)

theorem idsIdentify_of_nodup {entities : List Entity} (h : (entities.map Entity.id).Nodup) :
    IdsIdentify entities :=
  fun _ ha _ hb => List.inj_on_of_nodup_map h ha hb

/-- One more entity of a list without repeated identities. -/
private def addNewId (seen : List Entity) (e : Entity) : List Entity :=
  if e.id ∈ seen.map Entity.id then seen else seen ++ [e]

private theorem distinctById_eq (xs : List Entity) : distinctById xs = xs.foldl addNewId [] := rfl

private theorem of_mem_foldl_addNewId {xs seen : List Entity} {e : Entity}
    (h : e ∈ xs.foldl addNewId seen) : e ∈ seen ∨ e ∈ xs := by
  induction xs generalizing seen with
  | nil => exact .inl h
  | cons x xs ih =>
    rcases ih h with h | h
    · unfold addNewId at h
      split at h
      · exact .inl h
      · rcases List.mem_append.1 h with h | h
        · exact .inl h
        · exact .inr (List.mem_singleton.1 h ▸ List.mem_cons_self)
    · exact .inr (List.mem_cons_of_mem _ h)

private theorem nodup_foldl_addNewId {xs seen : List Entity} (h : (seen.map Entity.id).Nodup) :
    ((xs.foldl addNewId seen).map Entity.id).Nodup := by
  induction xs generalizing seen with
  | nil => exact h
  | cons x xs ih =>
    refine ih ?_
    unfold addNewId
    split
    · exact h
    · next hx =>
      rw [List.map_append]
      refine List.nodup_append.2 ⟨h, List.nodup_singleton x.id, ?_⟩
      rintro id hid id' hid' rfl
      exact hx (List.mem_singleton.1 hid' ▸ hid)

theorem mem_of_mem_distinctById {xs : List Entity} {e : Entity} (h : e ∈ distinctById xs) : e ∈ xs :=
  (of_mem_foldl_addNewId h).resolve_left List.not_mem_nil

/-- Of some entities at least one is kept. -/
theorem distinctById_ne_nil {xs : List Entity} (h : xs ≠ []) : distinctById xs ≠ [] := by
  obtain ⟨xs, x, rfl⟩ := (List.eq_nil_or_concat xs).resolve_left h
  rw [distinctById_eq, List.concat_eq_append, List.foldl_append, List.foldl_cons, List.foldl_nil]
  unfold addNewId
  split
  · next hx =>
    intro hnil
    rw [hnil] at hx
    cases hx
  · simp

/-- The identities of the entities that are kept are single. -/
theorem nodup_distinctById (xs : List Entity) : ((distinctById xs).map Entity.id).Nodup :=
  nodup_foldl_addNewId .nil

private theorem foldl_addNewId {xs seen : List Entity} (h : IdsIdentify (seen ++ xs)) :
    xs.foldl addNewId seen = xs.foldl addNew seen := by
  induction xs generalizing seen with
  | nil => rfl
  | cons x xs ih =>
    have hmem : x.id ∈ seen.map Entity.id ↔ x ∈ seen := by
      constructor
      · intro hx
        obtain ⟨y, hy, hyx⟩ := List.mem_map.1 hx
        rwa [← h y (by simp [hy]) x (by simp) hyx]
      · exact List.mem_map_of_mem
    have hstep : addNewId seen x = addNew seen x := by simp only [addNewId, hmem, addNew]
    rw [List.foldl_cons, List.foldl_cons, hstep]
    refine ih (h.mono fun e he => ?_)
    rcases List.mem_append.1 he with he | he
    · rcases mem_addNew.1 he with he | rfl
      · exact List.mem_append_left _ he
      · simp
    · exact List.mem_append_right _ (List.mem_cons_of_mem _ he)

theorem distinctById_eq_distinct {xs : List Entity} (h : IdsIdentify xs) :
    distinctById xs = distinct xs := foldl_addNewId h

/-- Corresponding entities, told apart by their identities on both sides, are kept or dropped together. -/
theorem forall₂_distinctById {R : Entity → Entity → Prop}
    (hR : ∀ a b a' b', R a a' → R b b' → (a.id = b.id ↔ a'.id = b'.id)) {xs ys : List Entity}
    (h : List.Forall₂ R xs ys) : List.Forall₂ R (distinctById xs) (distinctById ys) := by
  rw [distinctById_eq, distinctById_eq]
  refine List.rel_foldl (R := R) (P := List.Forall₂ R) ?_ .nil h
  intro seen seen' hseen x y hxy
  have hmem : x.id ∈ seen.map Entity.id ↔ y.id ∈ seen'.map Entity.id := by
    simp only [List.mem_map]
    constructor
    · rintro ⟨z, hz, hid⟩
      obtain ⟨z', hz', hzz'⟩ := hseen.exists_of_mem_left hz
      exact ⟨z', hz', (hR z x z' y hzz' hxy).1 hid⟩
    · rintro ⟨z', hz', hid⟩
      obtain ⟨z, hz, hzz'⟩ := hseen.exists_of_mem_right hz'
      exact ⟨z, hz, (hR z x z' y hzz' hxy).2 hid⟩
  unfold addNewId
  by_cases hx : x.id ∈ seen.map Entity.id
  · rw [if_pos hx, if_pos (hmem.1 hx)]
    exact hseen
  · rw [if_neg hx, if_neg fun hy => hx (hmem.2 hy)]
    exact List.rel_append hseen (.cons hxy .nil)

end Provenance

import Mathlib.Data.List.Forall2

/-!
# Computations that may fail

Inversion of chained computations in `Except`, and of traversals of a list by one. Two computations are
related (`Except.Rel`) if both fail with the same error, or both succeed with related results, as two options
are (`Option.Rel`); traversals of related lists by related computations are related (`List.Forall₂.mapM`).
What a computation may fail with is bounded by a predicate on errors (`Except.FailsOnly`), which is passed on
by chaining and traversals.
-/

namespace Except

variable {ε α β γ δ : Type _}

theorem bind_eq_ok_iff {x : Except ε α} {f : α → Except ε β} {b : β} :
    x >>= f = .ok b ↔ ∃ a, x = .ok a ∧ f a = .ok b := by
  cases x with
  | error e => simp [bind, Except.bind]
  | ok a => simp [bind, Except.bind]

theorem bind_eq_error_iff {x : Except ε α} {f : α → Except ε β} {e : ε} :
    x >>= f = .error e ↔ x = .error e ∨ ∃ a, x = .ok a ∧ f a = .error e := by
  cases x with
  | error e' => simp [bind, Except.bind]
  | ok a => simp [bind, Except.bind]

theorem bind_of_ok {x : Except ε α} {f : α → Except ε β} {a : α} (h : x = .ok a) : x >>= f = f a := by
  subst h
  rfl

theorem map_eq_ok_iff {x : Except ε α} {f : α → β} {b : β} :
    x.map f = .ok b ↔ ∃ a, x = .ok a ∧ f a = b := by
  cases x with
  | error e => simp [Except.map]
  | ok a => simp [Except.map]

theorem pure_eq_ok_iff {a b : α} : (pure a : Except ε α) = .ok b ↔ a = b := by
  simp [pure, Except.pure]

/-- Both computations fail with the same error, or both succeed with related results. -/
inductive Rel (R : α → β → Prop) : Except ε α → Except ε β → Prop
  | error {e : ε} : Rel R (.error e) (.error e)
  | ok {a : α} {b : β} (h : R a b) : Rel R (.ok a) (.ok b)

namespace Rel

variable {R : α → β → Prop} {S : γ → δ → Prop}

theorem bind {x : Except ε α} {y : Except ε β} {f : α → Except ε γ} {g : β → Except ε δ}
    (h : Rel R x y) (hfg : ∀ a b, R a b → Rel S (f a) (g b)) : Rel S (x >>= f) (y >>= g) := by
  cases h with
  | error => exact .error
  | ok h => exact hfg _ _ h

/-- A computation is related to itself by equality of results. -/
theorem refl {x : Except ε α} : Rel Eq x x := by
  cases x with
  | error => exact .error
  | ok => exact .ok rfl

theorem imp {R' : α → β → Prop} {x : Except ε α} {y : Except ε β} (h : Rel R x y)
    (himp : ∀ a b, R a b → R' a b) : Rel R' x y := by
  cases h with
  | error => exact .error
  | ok h => exact .ok (himp _ _ h)

/-- Related results are results. -/
theorem attach {x : Except ε α} {y : Except ε β} (h : Rel R x y) :
    Rel (fun a b => x = .ok a ∧ R a b) x y := by
  cases h with
  | error => exact .error
  | ok h => exact .ok ⟨rfl, h⟩

/-- Computations with equal results are equal. -/
theorem eq {x y : Except ε α} (h : Rel Eq x y) : x = y := by
  cases h with
  | error => rfl
  | ok h => rw [h]

/-- Of two related computations the second fails as the first does. -/
theorem eq_error {e : ε} {y : Except ε β} (h : Rel R (.error e) y) : y = .error e := by
  cases h
  rfl

/-- Of two related computations the second succeeds if the first does. -/
theorem of_ok {a : α} {y : Except ε β} (h : Rel R (.ok a) y) :
    ∃ b, y = .ok b ∧ R a b := by
  cases h with
  | ok h => exact ⟨_, rfl, h⟩

end Rel

/-- A computation that fails does so with an error that has a property. -/
def FailsOnly (P : ε → Prop) (x : Except ε α) : Prop := ∀ e, x = .error e → P e

namespace FailsOnly

variable {P Q : ε → Prop} {x : Except ε α} {f : α → Except ε β}

theorem ok {a : α} : (.ok a : Except ε α).FailsOnly P := nofun

theorem error {e : ε} (h : P e) : (.error e : Except ε α).FailsOnly P := by
  intro e' he
  cases he
  exact h

theorem of_eq_ok {a : α} (h : x = .ok a) : x.FailsOnly P := by
  subst h
  exact ok

theorem mono (h : x.FailsOnly P) (hPQ : ∀ e, P e → Q e) : x.FailsOnly Q := fun e he => hPQ e (h e he)

theorem bind (hx : x.FailsOnly P) (hf : ∀ a, x = .ok a → (f a).FailsOnly P) : (x >>= f).FailsOnly P := by
  cases x with
  | error e => exact error (hx e rfl)
  | ok a => exact hf a rfl

end FailsOnly

end Except

namespace Option.Rel

variable {α β γ δ : Type _} {R : α → β → Prop} {x : Option α} {y : Option β}

theorem imp {S : α → β → Prop} (h : Rel R x y) (himp : ∀ a ∈ x, ∀ b ∈ y, R a b → S a b) : Rel S x y := by
  cases h with
  | none => exact .none
  | some h => exact .some (himp _ rfl _ rfl h)

theorem map {S : γ → δ → Prop} {f : α → γ} {g : β → δ} (h : Rel R x y) (hfg : ∀ a b, R a b → S (f a) (g b)) :
    Rel S (x.map f) (y.map g) := by
  cases h with
  | none => exact .none
  | some h => exact .some (hfg _ _ h)

theorem map_eq {f : α → γ} {g : β → γ} (h : Rel R x y) (hfg : ∀ a b, R a b → f a = g b) :
    x.map f = y.map g := by
  cases h with
  | none => rfl
  | some h => exact congrArg Option.some (hfg _ _ h)

theorem isSome_eq (h : Rel R x y) : x.isSome = y.isSome := by
  cases h with
  | none => rfl
  | some => rfl

/-- Of two related options the second is there if the first is. -/
theorem of_some {a : α} (h : Rel R (.some a) y) : ∃ b, y = .some b ∧ R a b := by
  cases h with
  | some h => exact ⟨_, rfl, h⟩

theorem eq_none (h : Rel R .none y) : y = .none := by
  cases h
  rfl

end Option.Rel

namespace List

variable {ε α β γ δ : Type _}

theorem mapM_eq_ok_iff {f : α → Except ε β} {xs : List α} {ys : List β} :
    xs.mapM f = .ok ys ↔ Forall₂ (fun x y => f x = .ok y) xs ys := by
  induction xs generalizing ys with
  | nil => simp [pure, Except.pure, eq_comm]
  | cons x xs ih =>
    simp only [mapM_cons, Except.bind_eq_ok_iff, Except.pure_eq_ok_iff, forall₂_cons_left_iff, ih]
    constructor
    · rintro ⟨y, hy, ys, hys, rfl⟩
      exact ⟨y, ys, hy, hys, rfl⟩
    · rintro ⟨y, ys, hy, hys, rfl⟩
      exact ⟨y, hy, ys, hys, rfl⟩

theorem mapM_eq_some_iff {f : α → Option β} {xs : List α} {ys : List β} :
    xs.mapM f = some ys ↔ Forall₂ (fun x y => f x = some y) xs ys := by
  induction xs generalizing ys with
  | nil => simp [eq_comm]
  | cons x xs ih =>
    simp only [mapM_cons, Option.bind_eq_bind, Option.bind_eq_some_iff, Option.pure_def, Option.some.injEq,
      forall₂_cons_left_iff, ih]
    constructor
    · rintro ⟨y, hy, ys, hys, rfl⟩
      exact ⟨y, ys, hy, hys, rfl⟩
    · rintro ⟨y, ys, hy, hys, rfl⟩
      exact ⟨y, hy, ys, hys, rfl⟩

theorem failsOnly_mapM {P : ε → Prop} {f : α → Except ε β} {xs : List α}
    (h : ∀ x ∈ xs, (f x).FailsOnly P) : (xs.mapM f).FailsOnly P := by
  induction xs with
  | nil => exact .ok
  | cons x xs ih =>
    rw [mapM_cons]
    apply (h x mem_cons_self).bind
    intro y _
    apply (ih fun x hx => h x (mem_cons_of_mem _ hx)).bind
    intro ys _
    exact .ok

theorem failsOnly_foldlM {P : ε → Prop} {f : β → α → Except ε β} {xs : List α}
    (h : ∀ x ∈ xs, ∀ b, (f b x).FailsOnly P) (b : β) : (xs.foldlM f b).FailsOnly P := by
  induction xs generalizing b with
  | nil => exact .ok
  | cons x xs ih =>
    rw [foldlM_cons]
    apply (h x mem_cons_self b).bind
    intro b _
    exact ih (fun x hx => h x (mem_cons_of_mem _ hx)) b

theorem forM_eq_ok_iff {f : α → Except ε PUnit} {xs : List α} :
    xs.forM f = .ok ⟨⟩ ↔ ∀ x ∈ xs, f x = .ok ⟨⟩ := by
  induction xs with
  | nil => simp [pure, Except.pure]
  | cons x xs ih =>
    change (f x >>= fun _ => xs.forM f) = _ ↔ _
    simp only [Except.bind_eq_ok_iff, ih, mem_cons, forall_eq_or_imp]
    constructor
    · rintro ⟨⟨⟩, hx, hxs⟩
      exact ⟨hx, hxs⟩
    · rintro ⟨hx, hxs⟩
      exact ⟨_, hx, hxs⟩

theorem exists_forall₂ {R : α → β → Prop} {xs : List α} (h : ∀ x ∈ xs, ∃ y, R x y) :
    ∃ ys, Forall₂ R xs ys := by
  induction xs with
  | nil => exact ⟨[], .nil⟩
  | cons x xs ih =>
    obtain ⟨y, hy⟩ := h x mem_cons_self
    obtain ⟨ys, hys⟩ := ih fun x hx => h x (mem_cons_of_mem _ hx)
    exact ⟨y :: ys, .cons hy hys⟩

theorem mapM_congr {f g : α → Except ε β} {xs : List α} (h : ∀ x ∈ xs, f x = g x) :
    xs.mapM f = xs.mapM g := by
  induction xs with
  | nil => rfl
  | cons x xs ih =>
    simp only [mapM_cons, h x mem_cons_self, ih fun x hx => h x (mem_cons_of_mem _ hx)]

/-- A traversal whose steps succeed under a condition succeeds if it holds for all, with what each gives. -/
theorem mapM_eq_ok_iff_map {P : α → Prop} {f : α → Except ε β} {g : α → β} {xs : List α} {ys : List β}
    (h : ∀ x ∈ xs, ∀ y, f x = .ok y ↔ P x ∧ y = g x) :
    xs.mapM f = .ok ys ↔ (∀ x ∈ xs, P x) ∧ ys = xs.map g := by
  induction xs generalizing ys with
  | nil => simp [pure, Except.pure, eq_comm]
  | cons x xs ih =>
    have ih := fun ys => @ih ys fun x hx => h x (mem_cons_of_mem _ hx)
    simp only [mapM_cons, Except.bind_eq_ok_iff, Except.pure_eq_ok_iff, h x mem_cons_self, ih, mem_cons,
      forall_eq_or_imp, map_cons]
    constructor
    · rintro ⟨_, ⟨hx, rfl⟩, _, ⟨hxs, rfl⟩, rfl⟩
      exact ⟨⟨hx, hxs⟩, rfl⟩
    · rintro ⟨⟨hx, hxs⟩, rfl⟩
      exact ⟨_, ⟨hx, rfl⟩, _, ⟨hxs, rfl⟩, rfl⟩

/-- What is computed from a member is among the results of a traversal. -/
theorem Forall₂.exists_of_mem_left {R : α → β → Prop} {xs : List α} {ys : List β}
    (h : Forall₂ R xs ys) {x : α} (hx : x ∈ xs) : ∃ y ∈ ys, R x y := by
  induction h with
  | nil => cases hx
  | cons hab _ ih =>
    rcases mem_cons.1 hx with rfl | hx
    · exact ⟨_, mem_cons_self, hab⟩
    · obtain ⟨y, hy, hr⟩ := ih hx
      exact ⟨y, mem_cons_of_mem _ hy, hr⟩

theorem Forall₂.exists_of_mem_right {R : α → β → Prop} {xs : List α} {ys : List β}
    (h : Forall₂ R xs ys) {y : β} (hy : y ∈ ys) : ∃ x ∈ xs, R x y := by
  induction h with
  | nil => cases hy
  | cons hab _ ih =>
    rcases mem_cons.1 hy with rfl | hy
    · exact ⟨_, mem_cons_self, hab⟩
    · obtain ⟨x, hx, hr⟩ := ih hy
      exact ⟨x, mem_cons_of_mem _ hx, hr⟩

/-- What stands at a place of the results was computed from what stands there. -/
theorem Forall₂.exists_of_getElem?_right {R : α → β → Prop} {xs : List α} {ys : List β}
    (h : Forall₂ R xs ys) {n : Nat} {y : β} (hy : ys[n]? = some y) : ∃ x, xs[n]? = some x ∧ R x y := by
  induction h generalizing n with
  | nil => cases hy
  | cons hab _ ih =>
    cases n with
    | zero =>
      cases hy
      exact ⟨_, rfl, hab⟩
    | succ n => exact ih hy

theorem Forall₂.mem_left {R : α → β → Prop} {xs : List α} {ys : List β} (h : Forall₂ R xs ys) :
    Forall₂ (fun x y => x ∈ xs ∧ R x y) xs ys :=
  (forall₂_and_left _ _).2 ⟨fun _ hx => hx, h⟩

theorem Forall₂.mem_right {R : α → β → Prop} {xs : List α} {ys : List β} (h : Forall₂ R xs ys) :
    Forall₂ (fun x y => y ∈ ys ∧ R x y) xs ys :=
  h.flip.mem_left.flip

theorem Forall₂.exists_of_getElem?_left {R : α → β → Prop} {xs : List α} {ys : List β}
    (h : Forall₂ R xs ys) {n : Nat} {x : α} (hx : xs[n]? = some x) : ∃ y, ys[n]? = some y ∧ R x y :=
  h.flip.exists_of_getElem?_right hx

theorem Forall₂.map_eq {R : α → β → Prop} {f : α → γ} {g : β → γ} {xs : List α} {ys : List β}
    (h : Forall₂ R xs ys) (hfg : ∀ x y, R x y → f x = g y) : xs.map f = ys.map g := by
  induction h with
  | nil => rfl
  | cons hab _ ih => rw [map_cons, map_cons, hfg _ _ hab, ih]

theorem Forall₂.filterMap_eq {R : α → β → Prop} {f : α → Option γ} {g : β → Option γ} {xs : List α}
    {ys : List β} (h : Forall₂ R xs ys) (hfg : ∀ x y, R x y → f x = g y) :
    xs.filterMap f = ys.filterMap g := by
  induction h with
  | nil => rfl
  | cons hab _ ih => rw [filterMap_cons, filterMap_cons, hfg _ _ hab, ih]

theorem Forall₂.any_eq {R : α → β → Prop} {p : α → Bool} {q : β → Bool} {xs : List α} {ys : List β}
    (h : Forall₂ R xs ys) (hpq : ∀ x y, R x y → p x = q y) : xs.any p = ys.any q := by
  induction h with
  | nil => rfl
  | cons hab _ ih => rw [any_cons, any_cons, hpq _ _ hab, ih]

theorem Forall₂.flatMap_eq {R : α → β → Prop} {f : α → List γ} {g : β → List γ} {xs : List α} {ys : List β}
    (h : Forall₂ R xs ys) (hfg : ∀ x y, R x y → f x = g y) : xs.flatMap f = ys.flatMap g := by
  induction h with
  | nil => rfl
  | cons hab _ ih => rw [flatMap_cons, flatMap_cons, hfg _ _ hab, ih]

/-- Related computations on related lists have related results. -/
theorem Forall₂.mapM {R : α → β → Prop} {S : γ → δ → Prop} {f : α → Except ε γ} {g : β → Except ε δ}
    {xs : List α} {ys : List β} (h : Forall₂ R xs ys)
    (hfg : ∀ x y, R x y → Except.Rel S (f x) (g y)) :
    Except.Rel (Forall₂ S) (xs.mapM f) (ys.mapM g) := by
  induction h with
  | nil => exact .ok .nil
  | cons hab _ ih =>
    rw [mapM_cons, mapM_cons]
    refine (hfg _ _ hab).bind fun c d hcd => ih.bind fun cs ds hcds => ?_
    exact .ok (.cons hcd hcds)

/-- Computations that agree on related members agree on related lists. -/
theorem Forall₂.mapM_eq {R : α → β → Prop} {f : α → Except ε γ} {g : β → Except ε γ} {xs : List α}
    {ys : List β} (h : Forall₂ R xs ys) (hfg : ∀ x y, R x y → f x = g y) : xs.mapM f = ys.mapM g := by
  induction h with
  | nil => rfl
  | cons hab _ ih => rw [mapM_cons, mapM_cons, hfg _ _ hab, ih]

theorem forall₂_of_getElem? {R : α → β → Prop} {xs : List α} {ys : List β}
    (hlength : xs.length = ys.length) (h : ∀ (n : Nat) x y, xs[n]? = some x → ys[n]? = some y → R x y) :
    Forall₂ R xs ys :=
  forall₂_iff_get.2 ⟨hlength, fun n hx hy => h n _ _ (getElem?_eq_getElem hx) (getElem?_eq_getElem hy)⟩

theorem forall₂_comp_iff {R : α → β → Prop} {S : β → γ → Prop} {xs : List α} {zs : List γ} :
    Forall₂ (fun x z => ∃ y, R x y ∧ S y z) xs zs ↔ ∃ ys, Forall₂ R xs ys ∧ Forall₂ S ys zs := by
  constructor
  · intro h
    induction h with
    | nil => exact ⟨[], .nil, .nil⟩
    | cons hxz _ ih =>
      obtain ⟨y, hxy, hyz⟩ := hxz
      obtain ⟨ys, hxys, hyzs⟩ := ih
      exact ⟨y :: ys, .cons hxy hxys, .cons hyz hyzs⟩
  · rintro ⟨ys, hxy, hyz⟩
    induction hxy generalizing zs with
    | nil =>
      cases hyz
      exact .nil
    | cons hxy _ ih =>
      cases hyz with
      | cons hyz hyzs => exact .cons ⟨_, hxy, hyz⟩ (ih hyzs)

/-- Computations that succeed alike, with equal results, do so on a list. -/
theorem mapM_rel {f g : α → Except ε β} {xs : List α}
    (h : ∀ x ∈ xs, Except.Rel Eq (f x) (g x)) : Except.Rel Eq (xs.mapM f) (xs.mapM g) := by
  induction xs with
  | nil => exact .ok rfl
  | cons x xs ih =>
    rw [mapM_cons, mapM_cons]
    refine (h x mem_cons_self).bind fun y y' hy => ?_
    refine (ih fun x hx => h x (mem_cons_of_mem _ hx)).bind fun ys ys' hys => ?_
    exact .ok (by rw [hy, hys])

/-- Tests that agree on related members find related members. -/
theorem Forall₂.find? {R : α → β → Prop} {p : α → Bool} {q : β → Bool} {xs : List α} {ys : List β}
    (h : Forall₂ R xs ys) (hpq : ∀ x y, R x y → p x = q y) :
    Option.Rel R (xs.find? p) (ys.find? q) := by
  induction h with
  | nil => exact .none
  | @cons x y xs ys hxy _ ih =>
    rw [find?_cons, find?_cons, ← hpq x y hxy]
    cases p x with
    | true => exact .some hxy
    | false => exact ih

theorem Forall₂.zipIdx {R : α → β → Prop} {xs : List α} {ys : List β} (h : Forall₂ R xs ys)
    (n : Nat) : Forall₂ (fun x y => R x.1 y.1 ∧ x.2 = y.2) (xs.zipIdx n) (ys.zipIdx n) := by
  induction h generalizing n with
  | nil => exact .nil
  | cons hab _ ih => exact .cons ⟨hab, rfl⟩ (ih (n + 1))

theorem Forall₂.zip_right {R : α → β → Prop} {xs : List α} {ys : List β} (h : Forall₂ R xs ys)
    (zs : List γ) : Forall₂ (fun x y => R x.1 y.1 ∧ x.2 = y.2) (xs.zip zs) (ys.zip zs) := by
  induction h generalizing zs with
  | nil => exact .nil
  | cons hab _ ih =>
    cases zs with
    | nil => exact .nil
    | cons z zs => exact .cons ⟨hab, rfl⟩ (ih zs)

theorem mapM_zipIdx_fst {f : α → Except ε β} {xs : List α} (k : Nat) :
    ((xs.zipIdx k).mapM fun x => f x.1) = xs.mapM f := by
  conv_rhs => rw [← zipIdx_map_fst k xs, mapM_map]
  rfl

/-- A traversal of numbered members that works on what another one finds. -/
theorem mapM_zipIdx_map {f : α × Nat → Except ε γ} {g : α × Nat → Except ε β} {h : α → β → Nat → γ}
    {xs : List α} (hf : ∀ x ∈ xs, ∀ n, f (x, n) = (g (x, n)).map (h x · n)) (k : Nat) :
    (xs.zipIdx k).mapM f = ((xs.zipIdx k).mapM g).map fun ys =>
      ((xs.zip ys).zipIdx k).map fun p => h p.1.1 p.1.2 p.2 := by
  induction xs generalizing k with
  | nil => rfl
  | cons x xs ih =>
    rw [zipIdx_cons, mapM_cons, mapM_cons, hf x mem_cons_self,
      ih (fun x hx => hf x (mem_cons_of_mem _ hx)) (k + 1)]
    cases g (x, k) with
    | error e => rfl
    | ok y =>
      cases (xs.zipIdx (k + 1)).mapM g with
      | error e => rfl
      | ok ys => rfl

/-- The numbered members of a list that is related to the chosen members of another one are related to these,
with the numbers that they have there. -/
theorem Forall₂.zipIdx_filter {R : α → β → Prop} {p : β → Bool} {xs : List α} {ys : List β}
    (h : Forall₂ R xs (ys.filter p)) :
    Forall₂ (fun x y => R x.1 y.1) xs.zipIdx (ys.zipIdx.filter fun y => p y.1) := by
  have hys : (ys.zipIdx.filter fun y => p y.1).map Prod.fst = ys.filter p := by
    conv_rhs => rw [← zipIdx_map_fst 0 ys, filter_map]
    rfl
  rw [← zipIdx_map_fst 0 xs, ← hys] at h
  exact forall₂_map_right_iff.1 (forall₂_map_left_iff.1 h)

/-- The numbered members of one of two related lists. -/
theorem Forall₂.zip_zipIdx {R : α → β → Prop} {xs : List α} {ys : List β} (h : Forall₂ R xs ys) :
    ((xs.zip ys).zipIdx.map fun q => (q.1.2, q.2)) = ys.zipIdx := by
  have hys : (xs.zip ys).map Prod.snd = ys := map_snd_zip (Nat.le_of_eq h.length_eq.symm)
  conv_rhs => rw [← hys, zipIdx_map]
  rfl

end List

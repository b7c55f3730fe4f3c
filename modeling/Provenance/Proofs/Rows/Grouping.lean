import Mathlib.Data.List.Perm.Basic
import Provenance.Proofs.Scalar.Equality

/-!
# Groups of groups

Things under keys are put together group by group: the first thing takes all that come under its key, and the
others are grouped without these (`KeyIndex.ofList_cons`). So each thing stands in one group, and a condition
that depends on the key only may be put on the things or on the groups. Grouping first by some keys and then
the groups by coarser ones gives, in the same order and under the same keys, what grouping by the coarser ones
gives at once (`KeyIndex.ofList_ofList`).
-/

namespace Provenance.KeyIndex

variable {α : Type} {key : Key} {item : α} {items : List (Key × α)} {entry : KeyEntry α} {index : KeyIndex α}

private theorem foldl_add_cons :
    items.foldl (fun index item => add item.1 item.2 index) (entry :: index) =
      ⟨entry.key, entry.items ++ (items.filter fun i => entry.key.same i.1).map Prod.snd⟩ ::
        (items.filter fun i => !entry.key.same i.1).foldl (fun index item => add item.1 item.2 index)
          index := by
  induction items generalizing entry index with
  | nil => simp
  | cons i items ih =>
    rw [List.foldl_cons, add]
    cases hsame : entry.key.same i.1 with
    | true => simp [ih, hsame]
    | false => simp [ih, hsame]

/-- The first thing takes all that come under its key. -/
theorem ofList_cons (key : Key) (item : α) (items : List (Key × α)) :
    ofList ((key, item) :: items) =
      ⟨key, item :: (items.filter fun i => key.same i.1).map Prod.snd⟩ ::
        ofList (items.filter fun i => !key.same i.1) := by
  unfold ofList
  rw [List.foldl_cons]
  exact foldl_add_cons

/-- Induction over a list of things, taking some of them out together with the first one. -/
theorem filter_induct {motive : List (Key × α) → Prop} (keep : Key → Key → Bool) (nil : motive [])
    (cons : ∀ key item items, motive (items.filter fun i => keep key i.1) → motive ((key, item) :: items))
    (items : List (Key × α)) : motive items := by
  induction hlength : items.length using Nat.strong_induction_on generalizing items with
  | h n ih =>
    cases items with
    | nil => exact nil
    | cons i items =>
      refine cons _ _ _ (ih _ ?_ _ rfl)
      rw [← hlength, List.length_cons]
      exact Nat.lt_succ_of_le (List.length_filter_le _ items)

/-- Induction over the groups of a list of things. -/
@[elab_as_elim]
theorem group_induct {motive : List (Key × α) → Prop} (nil : motive [])
    (cons : ∀ key item items, motive (items.filter fun i => !key.same i.1) → motive ((key, item) :: items))
    (items : List (Key × α)) : motive items :=
  filter_induct (fun a b => !a.same b) nil cons items

/-- Each thing stands in one group. -/
theorem flatMap_items_perm (items : List (Key × α)) :
    ((ofList items).flatMap KeyEntry.items).Perm (items.map Prod.snd) := by
  induction items using group_induct with
  | nil => exact .nil
  | cons key item items ih =>
    rw [ofList_cons, List.flatMap_cons, List.map_cons]
    refine .cons item ((List.Perm.append_left _ ih).trans ?_)
    rw [← List.map_append]
    exact (List.filter_append_perm _ items).map Prod.snd

/-- What is found under a key are the things that came under it. -/
theorem find_ofList (key : Key) (items : List (Key × α)) :
    find key (ofList items) = (items.filter fun i => i.1.same key).map Prod.snd := by
  induction items using group_induct with
  | nil => rfl
  | cons first item items ih =>
    rw [ofList_cons, find]
    cases hsame : first.same key with
    | true =>
      have hfilter : (items.filter fun i => i.1.same key) = items.filter fun i => first.same i.1 :=
        List.filter_congr fun i _ => by
          rw [Key.same_eq (Key.same_symm hsame)]
          exact Bool.eq_iff_iff.2 ⟨Key.same_symm, Key.same_symm⟩
      simp [hsame, hfilter]
    | false =>
      have hfilter : (items.filter fun i => !first.same i.1).filter (fun i => i.1.same key) =
          items.filter fun i => i.1.same key := by
        rw [List.filter_filter]
        refine List.filter_congr fun i _ => ?_
        cases hi : i.1.same key with
        | false => rfl
        | true => simp [Key.same_eq hi, hsame]
      simp [hsame, ih, hfilter]

private theorem filter_filter_of_imp {β : Type} {p q : β → Bool} {xs : List β}
    (h : ∀ x, q x = true → p x = true) : (xs.filter p).filter q = xs.filter q := by
  rw [List.filter_filter]
  refine List.filter_congr fun x _ => ?_
  cases hq : q x with
  | true => simp [h x hq]
  | false => simp

/-- A condition on keys holds for a group if it holds for its members. -/
theorem filter_ofList {p : Key → Bool} (hp : ∀ a b, a.same b → p a = p b) (items : List (Key × α)) :
    (ofList items).filter (fun entry => p entry.key) = ofList (items.filter fun i => p i.1) := by
  induction items using group_induct with
  | nil => rfl
  | cons key item items ih =>
    rw [ofList_cons, List.filter_cons, List.filter_cons, ih]
    cases hkey : p key with
    | true =>
      have hsame : (items.filter fun i => p i.1).filter (fun i => key.same i.1) =
          items.filter fun i => key.same i.1 :=
        filter_filter_of_imp fun i h => (hp key i.1 h).symm.trans hkey
      rw [if_pos rfl, if_pos rfl, ofList_cons, hsame, List.filter_filter, List.filter_filter]
      simp only [Bool.and_comm]
    | false =>
      rw [if_neg Bool.false_ne_true, if_neg Bool.false_ne_true, filter_filter_of_imp]
      intro i hi
      cases h : key.same i.1 with
      | true => cases hi.symm.trans ((hp key i.1 h).symm.trans hkey)
      | false => rfl

/-- Groups of groups under coarser keys are the groups under the coarser keys. -/
theorem ofList_ofList {f : Key → Key} (hf : ∀ a b, a.same b → (f a).same (f b)) (items : List (Key × α)) :
    List.Forall₂
      (fun (outer : KeyEntry (KeyEntry α)) (group : KeyEntry α) =>
        outer.key = group.key ∧ (outer.items.flatMap KeyEntry.items).Perm group.items)
      (ofList ((ofList items).map fun entry => (f entry.key, entry)))
      (ofList (items.map fun i => (f i.1, i.2))) := by
  induction items using filter_induct (fun a b => !(f a).same (f b)) with
  | nil => exact .nil
  | cons key item items ih =>
    let fine (i : Key × α) := key.same i.1
    let coarse (k : Key) := (f key).same (f k)
    have hcoarse : ∀ a b, a.same b → coarse a = coarse b := fun a b h => Key.same_eq (hf a b h)
    have hfine : ∀ i, fine i = true → coarse i.1 = true := fun i => hf key i.1
    rw [ofList_cons, List.map_cons, ofList_cons, List.map_cons, ofList_cons, List.filter_map,
      List.filter_map, List.filter_map, List.filter_map, List.map_map, List.map_map]
    -- The first outer group takes the fine groups under its coarse key, which are the groups of the things
    -- under that key. What remains is the same without these things.
    refine .cons ⟨rfl, ?_⟩ ?_
    · have hgroups : (ofList (items.filter fun i => !fine i)).filter (fun entry => coarse entry.key) =
          ofList ((items.filter fun i => coarse i.1).filter fun i => !fine i) := by
        rw [filter_ofList hcoarse, List.filter_filter, List.filter_filter]
        simp only [Bool.and_comm]
      change ((⟨key, item :: (items.filter fine).map Prod.snd⟩ ::
        ((ofList (items.filter fun i => !fine i)).filter fun entry => coarse entry.key).map id).flatMap
          KeyEntry.items).Perm (item :: (items.filter fun i => coarse i.1).map Prod.snd)
      rw [List.map_id, List.flatMap_cons, hgroups, ← filter_filter_of_imp hfine]
      refine .cons item ((List.Perm.append_left _ (flatMap_items_perm _)).trans ?_)
      rw [← List.map_append]
      exact (List.filter_append_perm _ _).map _
    · have hgroups : (ofList (items.filter fun i => !fine i)).filter (fun entry => !coarse entry.key) =
          ofList (items.filter fun i => !coarse i.1) := by
        rw [filter_ofList (p := fun k => !coarse k) fun a b h => congrArg (!·) (hcoarse a b h),
          filter_filter_of_imp]
        intro i hi
        cases h : fine i with
        | true => rw [hfine i h] at hi; exact hi
        | false => rfl
      change List.Forall₂ _ (ofList (((ofList (items.filter fun i => !fine i)).filter fun entry =>
        !coarse entry.key).map fun entry => (f entry.key, entry))) _
      rw [hgroups]
      exact ih

end Provenance.KeyIndex

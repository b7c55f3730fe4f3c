import Mathlib.Algebra.BigOperators.Group.List.Basic
import Mathlib.Algebra.Ring.Int.Defs
import Provenance.Aggregate
import Provenance.Proofs.Traverse

/-!
# Sums of integers

The sum of payloads of an integer field, if it is in range, is their sum as unbounded integers, where nothing
counts for zero; it is nothing if all of them are (`Scalar.SumOf`). So it depends neither on the order of the
payloads nor on how they are put together for partial sums (`Scalar.SumOf.flatten`).
-/

namespace Provenance

namespace Integer

/-- A number that 64 bits with a sign have room for. -/
def InRange (n : Int) : Prop := -2 ^ 63 ≤ n ∧ n < 2 ^ 63

theorem inRange_val (i : Integer) : InRange i.val := ⟨i.le_val, i.val_lt⟩

theorem ofInt?_eq_none_iff {n : Int} : ofInt? n = none ↔ ¬InRange n := by
  unfold ofInt? InRange
  split <;> simp_all

theorem val_ofCount {n : Nat} (h : n < 2 ^ 63) : (ofCount n).val = n := by
  unfold ofCount
  rw [dif_pos (by omega)]

end Integer

namespace Scalar

/-- What a payload of an integer field counts for. -/
def amount : Scalar → Int
  | .int i => i.val
  | _ => 0

/-- A payload of an integer field is the sum of others. -/
structure SumOf (values : List Scalar) (total : Scalar) : Prop where
  integer : total.conforms .integer
  null : total.isNull = values.all isNull
  amount : total.amount = (values.map amount).sum

variable {a b total total' : Scalar} {values values' totals : List Scalar}

theorem cases_of_integer (h : a.conforms .integer) : a = .null ∨ ∃ i, a = .int i := by
  cases a with
  | null => exact .inl rfl
  | int i => exact .inr ⟨i, rfl⟩
  | bool | decimal | text => cases h

theorem eq_of_amount_eq (ha : a.conforms .integer) (hb : b.conforms .integer) (hnull : a.isNull = b.isNull)
    (hamount : a.amount = b.amount) : a = b := by
  rcases cases_of_integer ha with rfl | ⟨i, rfl⟩ <;> rcases cases_of_integer hb with rfl | ⟨j, rfl⟩
  · rfl
  · cases hnull
  · cases hnull
  · exact congrArg Scalar.int (Integer.val_inj hamount)

theorem of_add_eq_ok {i j : Integer} (h : arith .add (.int i) (.int j) = .ok total) :
    ∃ k, total = .int k ∧ k.val = i.val + j.val := by
  simp only [arith, reduceCtorEq, false_and, if_false, Integer.arith?, Integer.exact] at h
  cases hsum : Integer.ofInt? (i.val + j.val) with
  | none =>
    rw [hsum] at h
    cases h
  | some k =>
    rw [hsum] at h
    cases h
    exact ⟨k, rfl, Integer.ofInt?_eq_some_iff.1 hsum⟩

namespace SumOf

/-- The same payloads in another order have the same sum. -/
theorem eq_of_perm (h : SumOf values total) (h' : SumOf values' total') (hperm : values.Perm values') :
    total = total' := by
  refine eq_of_amount_eq h.integer h'.integer ?_ ?_
  · rw [h.null, h'.null]
    exact hperm.all_eq
  · rw [h.amount, h'.amount]
    exact (hperm.map _).sum_eq

/-- A sum of partial sums is the sum of all. -/
theorem flatten {parts : List (List Scalar)} (hparts : List.Forall₂ SumOf parts totals)
    (h : SumOf totals total) : SumOf parts.flatten total := by
  have hall : totals.all isNull = parts.flatten.all isNull ∧
      (totals.map Scalar.amount).sum = (parts.flatten.map Scalar.amount).sum := by
    clear h
    induction hparts with
    | nil => exact ⟨rfl, rfl⟩
    | cons hpart _ ih =>
      simp only [List.flatten_cons, List.all_cons, List.all_append, List.map_cons, List.map_append,
        List.sum_cons, List.sum_append, hpart.null, hpart.amount, ih.1, ih.2, and_self]
  exact ⟨h.integer, h.null.trans hall.1, h.amount.trans hall.2⟩

end SumOf

end Scalar

namespace AggregateFn

open Scalar

variable {total : Scalar} {values rest : List Scalar}

theorem of_sumFrom_eq_ok {i : Integer} (hrest : ∀ v ∈ rest, ∃ j, v = .int j)
    (h : sumFrom (.int i) rest = .ok total) :
    ∃ k, total = .int k ∧ k.val = i.val + (rest.map amount).sum := by
  -- Every step changes what was summed up so far, so this is proved for all of that.
  unfold sumFrom at h
  induction rest generalizing i with
  | nil =>
    cases h
    exact ⟨i, rfl, (Int.add_zero _).symm⟩
  | cons v rest ih =>
    obtain ⟨j, rfl⟩ := hrest v List.mem_cons_self
    rw [List.foldlM_cons] at h
    obtain ⟨_, hadd, h⟩ := Except.bind_eq_ok_iff.1 h
    obtain ⟨k, rfl, hk⟩ := of_add_eq_ok hadd
    obtain ⟨l, rfl, hl⟩ := ih (fun v hv => hrest v (List.mem_cons_of_mem _ hv)) h
    refine ⟨l, rfl, ?_⟩
    rw [hl, hk, List.map_cons, List.sum_cons, Int.add_assoc]
    rfl

/-- Nothing counts for zero. -/
theorem sum_amount_present (values : List Scalar) :
    ((values.filter fun v => !v.isNull).map amount).sum = (values.map amount).sum := by
  induction values with
  | nil => rfl
  | cons v values ih =>
    rw [List.filter_cons, List.map_cons, List.sum_cons, ← ih]
    cases v with
    | null => exact (Int.zero_add _).symm
    | bool | int | decimal | text => rfl

/-- A sum of integers that succeeds is their sum. -/
theorem sumOf_of_apply (hvalues : ∀ v ∈ values, v.conforms .integer)
    (h : AggregateFn.sum.apply values = .ok total) : SumOf values total := by
  have hpresent : ∀ v ∈ values.filter fun v => !v.isNull, ∃ i, v = .int i := by
    intro v hv
    obtain ⟨hmem, hnull⟩ := List.mem_filter.1 hv
    refine (cases_of_integer (hvalues v hmem)).resolve_left ?_
    rintro rfl
    cases hnull
  have hamount := sum_amount_present values
  unfold apply at h
  generalize hp : (values.filter fun v => !v.isNull) = present at h hpresent hamount
  -- With nothing to sum up the result is nothing, else the sum begins with the first payload there is.
  cases present with
  | nil =>
    cases h
    refine ⟨rfl, (List.all_eq_true.2 fun v hv => ?_).symm, hamount⟩
    simpa using List.filter_eq_nil_iff.1 hp v hv
  | cons first rest =>
    obtain ⟨_, -, h⟩ := Except.bind_eq_ok_iff.1 h
    obtain ⟨_, -, h⟩ := Except.bind_eq_ok_iff.1 h
    obtain ⟨i, rfl⟩ := hpresent first List.mem_cons_self
    obtain ⟨k, rfl, hk⟩ := of_sumFrom_eq_ok (fun v hv => hpresent v (List.mem_cons_of_mem _ hv)) h
    have hmem : Scalar.int i ∈ values := (List.mem_filter.1 (hp ▸ List.mem_cons_self)).1
    exact ⟨rfl, (List.all_eq_false.2 ⟨_, hmem, Bool.false_ne_true⟩).symm, hk.trans hamount⟩

end AggregateFn

end Provenance

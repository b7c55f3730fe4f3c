import Mathlib.Algebra.Order.Field.Basic
import Mathlib.Algebra.Order.Field.Rat
import Mathlib.Data.Rat.Cast.Order
import Mathlib.Data.Bool.Basic
import Mathlib.Data.String.Basic
import Mathlib.Order.Compare
import Mathlib.Tactic.FieldSimp
import Mathlib.Tactic.Positivity
import Provenance.Proofs.Scalar.Equality
import Provenance.Scalar.Arithmetic

/-!
# The order of payloads

Payloads are compared as what they stand for: integers and decimals as rational numbers, texts and truth values
as themselves (`Scalar.compare_eq_ok_some_iff`). So their comparison is an order on each kind of payload, and
numbers of both kinds are in one order. Main statement: `Scalar.compare_coherent`.
-/

namespace Provenance

namespace Decimal

/-- The number that a decimal stands for. -/
def toRat (d : Decimal) : ℚ := d.signed / 10 ^ d.scale

theorem compare_eq (a b : Decimal) : a.compare b = Ord.compare a.toRat b.toRat := by
  have hscaled : ∀ d e : Decimal,
      d.toRat * (10 ^ d.scale * 10 ^ e.scale) = (d.signed * (10 ^ e.scale : Nat) : ℤ) := by
    intro d e
    unfold toRat
    field_simp
    push_cast
    rfl
  have hpos : (0 : ℚ) < 10 ^ a.scale * 10 ^ b.scale := by positivity
  calc a.compare b
      = cmp (a.signed * (10 ^ b.scale : Nat)) (b.signed * (10 ^ a.scale : Nat)) := (cmp_eq_compare _ _).symm
    _ = cmp ((a.signed * (10 ^ b.scale : Nat) : ℤ) : ℚ) (b.signed * (10 ^ a.scale : Nat) : ℤ) :=
      (Int.cast_strictMono.cmp_map_eq _ _).symm
    _ = cmp (a.toRat * (10 ^ a.scale * 10 ^ b.scale)) (b.toRat * (10 ^ a.scale * 10 ^ b.scale)) := by
      rw [hscaled, mul_comm (10 ^ a.scale) (10 ^ b.scale), hscaled]
    _ = cmp a.toRat b.toRat := cmp_mul_pos_right hpos _ _
    _ = Ord.compare a.toRat b.toRat := cmp_eq_compare _ _

theorem toRat_toDecimal (i : Integer) : i.toDecimal.toRat = i.val := by
  have hsigned : i.toDecimal.signed = i.val := by
    unfold Integer.toDecimal ofInt signed
    dsimp only
    split <;> next hneg => rw [decide_eq_true_iff] at hneg; omega
  rw [toRat, hsigned]
  exact div_one _

end Decimal

namespace Scalar

/-- The number that a payload stands for. -/
def number? : Scalar → Option ℚ
  | .int i => some i.val
  | .decimal d => some d.toRat
  | _ => none

/-- The order in which a payload stands to another one. -/
inductive Ordered : Scalar → Scalar → Ordering → Prop
  | number {a b : Scalar} {x y : ℚ} (ha : a.number? = some x) (hb : b.number? = some y) :
    Ordered a b (Ord.compare x y)
  | text {s t : String} : Ordered (.text s) (.text t) (Ord.compare s t)
  | bool {p q : Bool} : Ordered (.bool p) (.bool q) (Ord.compare p q)

variable {a b c : Scalar} {o o' : Ordering}

theorem Ordered.compare_eq (h : Ordered a b o) : a.compare b = .ok (some o) := by
  cases h with
  | text => rfl
  | bool => rfl
  | number ha hb =>
    have hint : ∀ i j : ℤ, Ord.compare (i : ℚ) j = Ord.compare i j := fun i j => by
      rw [← cmp_eq_compare, Int.cast_strictMono.cmp_map_eq, cmp_eq_compare]
    cases a <;> cases ha <;> cases b <;> cases hb <;>
      simp only [compare, hint, Decimal.compare_eq, Decimal.toRat_toDecimal]

theorem compare_eq_ok_some_iff : a.compare b = .ok (some o) ↔ Ordered a b o := by
  refine ⟨fun h => ?_, Ordered.compare_eq⟩
  have hnumber : ∀ {x y}, a.number? = some x → b.number? = some y → Ordered a b o := by
    intro x y ha hb
    cases h.symm.trans (Ordered.number ha hb).compare_eq
    exact .number ha hb
  cases a with
  | null => cases h
  | bool p =>
    cases b with
    | bool q =>
      cases h
      exact .bool
    | _ => cases h
  | text s =>
    cases b with
    | text t =>
      cases h
      exact .text
    | _ => cases h
  | int i =>
    cases b with
    | int | decimal => exact hnumber rfl rfl
    | _ => cases h
  | decimal d =>
    cases b with
    | int | decimal => exact hnumber rfl rfl
    | _ => cases h

/-- Payloads of one data type can be compared. -/
theorem exists_ordered (htype : a.dataType? = b.dataType?) (hnull : a.isNull = false) : ∃ o, Ordered a b o := by
  cases a with
  | null => cases hnull
  | bool p =>
    cases b with
    | bool q => exact ⟨_, .bool⟩
    | _ => cases htype
  | text s =>
    cases b with
    | text t => exact ⟨_, .text⟩
    | _ => cases htype
  | int i =>
    cases b with
    | int j => exact ⟨_, .number rfl rfl⟩
    | _ => cases htype
  | decimal d =>
    cases b with
    | decimal e => exact ⟨_, .number rfl rfl⟩
    | _ => cases htype

namespace Ordered

theorem symm (h : Ordered a b o) : Ordered b a o.swap := by
  cases h with
  | number ha hb =>
    rw [← Std.OrientedCmp.eq_swap]
    exact .number hb ha
  | text =>
    rw [← Std.OrientedCmp.eq_swap]
    exact .text
  | bool =>
    rw [← Std.OrientedCmp.eq_swap]
    exact .bool

theorem eq (h : Ordered a b o) (h' : Ordered a b o') : o = o' := by
  cases h.compare_eq.symm.trans h'.compare_eq
  rfl

theorem isNull_left (h : Ordered a b o) : a.isNull = false := by
  cases h with
  | number ha =>
    cases a with
    | null => cases ha
    | _ => rfl
  | text => rfl
  | bool => rfl

theorem refl (hnull : a.isNull = false) : Ordered a a .eq := by
  obtain ⟨o, ho⟩ := exists_ordered rfl hnull
  have hswap : o = o.swap := ho.eq ho.symm
  cases o with
  | eq => exact ho
  | lt | gt => cases hswap

/-- Payloads that are compared along a chain are all in one linear order. -/
theorem exists_chain (hab : Ordered a b o) (hbc : Ordered b c o') :
    ∃ (α : Type) (_ : LinearOrder α) (x y z : α),
      Ord.compare x y = o ∧ Ord.compare y z = o' ∧ Ordered a c (Ord.compare x z) := by
  cases hab with
  | number ha hb =>
    cases hbc with
    | number hb' hc =>
      cases hb.symm.trans hb'
      exact ⟨ℚ, inferInstance, _, _, _, rfl, rfl, .number ha hc⟩
    | text | bool => cases hb
  | text =>
    cases hbc with
    | number hb hc => cases hb
    | text => exact ⟨String, inferInstance, _, _, _, rfl, rfl, .text⟩
  | bool =>
    cases hbc with
    | number hb hc => cases hb
    | bool => exact ⟨Bool, inferInstance, _, _, _, rfl, rfl, .bool⟩

/-- What comes before or after a payload comes so before or after everything that does not itself. -/
theorem of_beaten (ho : o ≠ .eq) (hab : Ordered a b o) (hcb : Ordered c b o') (hne : o' ≠ o) : Ordered a c o := by
  obtain ⟨α, _, x, y, z, hxy, hyz, hac⟩ := hab.exists_chain hcb.symm
  cases o with
  | eq => exact absurd rfl ho
  | lt =>
    have hle : y ≤ z := compare_le_iff_le.1 fun hgt => hne (Ordering.swap_eq_gt.1 (hyz.symm.trans hgt))
    rwa [compare_lt_iff_lt.2 ((compare_lt_iff_lt.1 hxy).trans_le hle)] at hac
  | gt =>
    have hge : z ≤ y := compare_ge_iff_ge.1 fun hlt => hne (Ordering.swap_eq_lt.1 (hyz.symm.trans hlt))
    rwa [compare_gt_iff_gt.2 (hge.trans_lt (compare_gt_iff_gt.1 hxy))] at hac

/-- Payloads along a chain that goes in one direction are in the order of its ends. -/
theorem trans (hab : Ordered a b o) (hbc : Ordered b c o') (h : o = o' ∨ o = .eq ∨ o' = .eq) :
    Ordered a c (o.then o') := by
  obtain ⟨α, _, x, y, z, rfl, rfl, hac⟩ := hab.exists_chain hbc
  cases hxy : Ord.compare x y with
  | eq =>
    cases compare_eq_iff_eq.1 hxy
    exact hac
  | lt =>
    have hle : y ≤ z := compare_le_iff_le.1 fun hgt => by simp [hxy, hgt] at h
    rwa [compare_lt_iff_lt.2 ((compare_lt_iff_lt.1 hxy).trans_le hle)] at hac
  | gt =>
    have hge : z ≤ y := compare_ge_iff_ge.1 fun hlt => by simp [hxy, hlt] at h
    rwa [compare_gt_iff_gt.2 (hge.trans_lt (compare_gt_iff_gt.1 hxy))] at hac

end Ordered

/-! ## Coherence -/

theorem compare_eq_ok_none_iff : a.compare b = .ok none ↔ a.isNull ∨ b.isNull := by
  cases a <;> cases b <;> simp [compare, isNull]

/-- Payloads cannot be compared if both are there and they stand in no order. -/
theorem exists_compare_eq_error_iff :
    (∃ e, a.compare b = .error e) ↔ ¬(a.isNull ∨ b.isNull) ∧ ∀ o, ¬Ordered a b o := by
  simp only [← compare_eq_ok_none_iff, ← compare_eq_ok_some_iff]
  cases a.compare b with
  | error e => simp
  | ok result => cases result <;> simp

/-- Payloads of one data type are equal in their order exactly if they are equal as keys. -/
theorem ordered_eq_iff (htype : a.dataType? = b.dataType?) (hnull : a.isNull = false) :
    Ordered a b .eq ↔ a.eqv b := by
  rw [← compare_eq_ok_some_iff]
  cases a with
  | null => cases hnull
  | bool p =>
    cases b with
    | bool q => simp [compare, eqv]
    | _ => cases htype
  | text s =>
    cases b with
    | text t => simp [compare, eqv]
    | _ => cases htype
  | int i =>
    cases b with
    | int j => simpa [compare, eqv] using ⟨Integer.val_inj, congrArg Integer.val⟩
    | _ => cases htype
  | decimal d =>
    cases b with
    | decimal e => simp [compare, eqv, Decimal.eqv]
    | _ => cases htype

/-- What the comparison of payloads keeps to as an order that numbers of both kinds share. -/
structure Coherent (a b c : Scalar) : Prop where
  error_iff : (∃ e, a.compare b = .error e) ↔ ∃ e, b.compare a = .error e
  none_iff : a.compare b = .ok none ↔ a.isNull ∨ b.isNull
  swap : ∀ o, a.compare b = .ok (some o) → b.compare a = .ok (some o.swap)
  comparable : ∀ o o', a.compare b = .ok (some o) → b.compare c = .ok (some o') →
    ∃ o'', a.compare c = .ok (some o'')
  trans : ∀ o o', a.compare b = .ok (some o) → b.compare c = .ok (some o') → o = o' ∨ o = .eq ∨ o' = .eq →
    a.compare c = .ok (some (o.then o'))
  equal_iff : a.dataType? = b.dataType? → a.isNull = false → (a.compare b = .ok (some .eq) ↔ a.eqv b)
  number : ∀ x y, a.number? = some x → b.number? = some y → a.compare b = .ok (some (Ord.compare x y))

/-- Comparison is coherent on all payloads. -/
theorem compare_coherent (a b c : Scalar) : Coherent a b c where
  error_iff := by
    have hsymm : (∀ o, ¬Ordered a b o) ↔ ∀ o, ¬Ordered b a o :=
      ⟨fun h o ho => h _ ho.symm, fun h o ho => h _ ho.symm⟩
    rw [exists_compare_eq_error_iff, exists_compare_eq_error_iff, hsymm, or_comm]
  none_iff := compare_eq_ok_none_iff
  swap o h := (compare_eq_ok_some_iff.1 h).symm.compare_eq
  comparable o o' hab hbc := by
    obtain ⟨α, _, x, y, z, -, -, hac⟩ := (compare_eq_ok_some_iff.1 hab).exists_chain (compare_eq_ok_some_iff.1 hbc)
    exact ⟨_, hac.compare_eq⟩
  trans o o' hab hbc h := ((compare_eq_ok_some_iff.1 hab).trans (compare_eq_ok_some_iff.1 hbc) h).compare_eq
  equal_iff htype hnull := by
    rw [compare_eq_ok_some_iff, ordered_eq_iff htype hnull]
  number x y hx hy := (Ordered.number hx hy).compare_eq

/-- The largest integer comes before a decimal that is greater by one tenth. -/
example (i : Integer) (d : Decimal) (hi : i = ⟨9223372036854775807, by decide, by decide⟩)
    (hd : d = ⟨false, 92233720368547758071, 1, by decide, by decide⟩) :
    compare (.int i) (.decimal d) = .ok (some .lt) := by
  subst hi hd
  rfl

end Scalar

end Provenance

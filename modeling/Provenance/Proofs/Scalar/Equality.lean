import Mathlib.Data.List.Forall2
import Mathlib.Tactic.Ring
import Provenance.Rows.Key

/-!
# Equal payloads

Having one value is an equivalence of decimals, of payloads and of keys, though payloads with one value need
not be the same.
-/

namespace Provenance

namespace Decimal

variable {a b c : Decimal}

/-- Decimals have one value if their coefficients are equal once both have all digits of the other. -/
theorem eqv_iff : a.eqv b ↔ a.signed * (10 ^ b.scale : Nat) = b.signed * (10 ^ a.scale : Nat) := by
  unfold eqv compare
  rw [beq_iff_eq, Std.LawfulEqCmp.compare_eq_iff_eq]
  rfl

theorem eqv_refl (a : Decimal) : a.eqv a := eqv_iff.2 rfl

theorem eqv_symm (h : a.eqv b) : b.eqv a := eqv_iff.2 (eqv_iff.1 h).symm

theorem eqv_trans (hab : a.eqv b) (hbc : b.eqv c) : a.eqv c := by
  rw [eqv_iff] at hab hbc ⊢
  have hpow : ((10 ^ b.scale : Nat) : Int) ≠ 0 := Int.natCast_ne_zero.2 (Nat.pow_pos (by decide)).ne'
  refine mul_right_cancel₀ hpow ?_
  calc a.signed * (10 ^ c.scale : Nat) * (10 ^ b.scale : Nat)
      = a.signed * (10 ^ b.scale : Nat) * (10 ^ c.scale : Nat) := by ring
    _ = b.signed * (10 ^ c.scale : Nat) * (10 ^ a.scale : Nat) := by rw [hab]; ring
    _ = c.signed * (10 ^ a.scale : Nat) * (10 ^ b.scale : Nat) := by rw [hbc]; ring

end Decimal

namespace Scalar

variable {a b c : Scalar}

theorem eqv_refl (a : Scalar) : a.eqv a := by
  cases a with
  | decimal d => exact d.eqv_refl
  | _ => simp [eqv]

theorem eqv_symm (h : a.eqv b) : b.eqv a := by
  cases a <;> cases b <;> first | exact Decimal.eqv_symm h | simp_all [eqv]

theorem eqv_comm (a b : Scalar) : a.eqv b = b.eqv a := Bool.eq_iff_iff.2 ⟨eqv_symm, eqv_symm⟩

theorem eqv_trans (hab : a.eqv b) (hbc : b.eqv c) : a.eqv c := by
  cases a <;> cases b <;> cases c <;> first | exact Decimal.eqv_trans hab hbc | simp_all [eqv]

end Scalar

namespace Key

variable {a b c : Key}

theorem same_iff : a.same b ↔ List.Forall₂ (fun x y => x.eqv y) a b := by
  induction a generalizing b with
  | nil => cases b <;> simp [same]
  | cons x a ih => cases b <;> simp [same, ih]

theorem same_refl (a : Key) : a.same a := same_iff.2 (List.forall₂_same.2 fun x _ => x.eqv_refl)

theorem same_symm (h : a.same b) : b.same a :=
  same_iff.2 ((same_iff.1 h).flip.imp fun _ _ => Scalar.eqv_symm)

theorem same_trans (hab : a.same b) (hbc : b.same c) : a.same c := by
  rw [same_iff] at hab hbc ⊢
  induction hab generalizing c with
  | nil => exact hbc
  | cons hxy _ ih =>
    cases hbc with
    | cons hyz hbc => exact .cons (Scalar.eqv_trans hxy hyz) (ih hbc)

theorem same_eq (h : b.same c) : a.same b = a.same c :=
  Bool.eq_iff_iff.2 ⟨fun hab => same_trans hab h, fun hac => same_trans hac (same_symm h)⟩

theorem same_take (n : Nat) (h : a.same b) : same (a.take n) (b.take n) :=
  same_iff.2 (List.forall₂_take n (same_iff.1 h))

end Key

end Provenance

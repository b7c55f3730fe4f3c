import Mathlib.Tactic.Linarith
import Mathlib.Tactic.Ring
import Provenance.Decimal.Arithmetic
import Provenance.Decimal.Division
import Provenance.Proofs.Scalar.Order

/-!
# Rounding of sums and quotients

A sum is exact as long as there is room for it (`Decimal.add?_exact`), and else it is the nearest decimal of some
scale. A quotient is rounded only when there is no more room for digits, so no decimal lies between the exact
quotient and the rounded one (`Decimal.RoundsTo`): what is at most, or at least, the exact one is so for the rounded
one too. Main statements: `Decimal.abs_add?_sub_le` and `Decimal.roundsTo_of_div?`.
-/

namespace Provenance

theorem Number.abs_halfEven_sub_le {d : ℕ} (hd : 0 < d) (n : ℕ) : |(halfEven n d : ℚ) - n / d| ≤ 1 / 2 := by
  obtain ⟨hle, hge⟩ := two_mul_halfEven_mul (n := n) hd
  have hd : (0 : ℚ) < d := by exact_mod_cast hd
  have hle : 2 * ((halfEven n d : ℚ) * d) ≤ 2 * n + d := by exact_mod_cast hle
  have hge : 2 * (n : ℚ) ≤ 2 * (halfEven n d * d) + d := by exact_mod_cast hge
  have hscaled : (halfEven n d : ℚ) - n / d = (halfEven n d * d - n) / d := by field_simp
  rw [hscaled, abs_div, abs_of_pos hd, div_le_iff₀ hd, abs_le]
  constructor <;> linarith

namespace Decimal

/-- No decimal lies between a number and what it is rounded to. -/
structure RoundsTo (exact rounded : ℚ) : Prop where
  le : ∀ d : Decimal, d.toRat ≤ exact → d.toRat ≤ rounded
  ge : ∀ d : Decimal, exact ≤ d.toRat → rounded ≤ d.toRat

/-- The number that a coefficient and a scale stand for. -/
def fraction (d : ℕ × ℕ) : ℚ := d.1 / 10 ^ d.2

/-- The factor that a sign is. -/
def sign (negative : Bool) : ℚ := if negative then -1 else 1

variable {a b c d : Decimal} {negative : Bool} {coefficient scale n s : ℕ} {v w y : ℚ}

theorem toRat_eq (d : Decimal) : d.toRat = sign d.negative * fraction (d.coefficient, d.scale) := by
  unfold toRat signed sign fraction
  cases d.negative with
  | false => simp
  | true =>
    simp only [if_true]
    push_cast
    ring

theorem toRat_neg (d : Decimal) : d.neg.toRat = -d.toRat := by
  rw [toRat_eq, toRat_eq]
  unfold neg sign
  cases d.negative <;> simp

theorem toRat_eq_atScale (h : d.scale ≤ s) : d.toRat = d.atScale s / 10 ^ s := by
  obtain ⟨t, rfl⟩ := Nat.exists_eq_add_of_le h
  rw [toRat, atScale, Nat.add_sub_cancel_left, pow_add, Nat.pow_eq]
  push_cast
  field_simp

theorem signed_le (d : Decimal) : (d.signed : ℚ) ≤ 2 ^ 96 - 1 := by
  have hlt := d.coefficient_lt
  have hsigned : d.signed ≤ 2 ^ 96 - 1 := by
    unfold signed
    split <;> omega
  exact_mod_cast hsigned

/-- Zeros after the point that end a coefficient may be dropped. -/
theorem fraction_drop {zeros : ℕ} (hscale : zeros ≤ scale) (hzeros : 10 ^ zeros ∣ coefficient) :
    fraction (coefficient / 10 ^ zeros, scale - zeros) = fraction (coefficient, scale) := by
  obtain ⟨n, rfl⟩ := hzeros
  obtain ⟨s, rfl⟩ := Nat.exists_eq_add_of_le hscale
  rw [fraction, fraction, Nat.mul_div_cancel_left _ (by positivity), Nat.add_sub_cancel_left]
  push_cast
  rw [pow_add]
  field_simp

theorem toRat_of_isZero (h : d.isZero = true) : d.toRat = 0 := by
  rw [toRat_eq, eq_of_beq h, fraction]
  simp

theorem parts_of_make? (h : make? negative coefficient scale = some d) :
    d.negative = negative ∧ d.coefficient = coefficient ∧ d.scale = scale := by
  unfold make? at h
  split at h
  · cases h
    exact ⟨rfl, rfl, rfl⟩
  · cases h

theorem toRat_of_make? (h : make? negative coefficient scale = some d) :
    d.toRat = sign negative * fraction (coefficient, scale) := by
  obtain ⟨rfl, rfl, rfl⟩ := parts_of_make? h
  exact toRat_eq d

/-! ## Sums -/

/-- A decimal that is found for a coefficient and a scale is rounded at the scale that it has. -/
theorem exists_of_fit? (h : fit? negative coefficient scale = some d) :
    ∃ dropped, dropped + d.scale = scale ∧
      d.toRat = sign negative * fraction (Number.halfEven coefficient (10 ^ dropped), d.scale) := by
  obtain ⟨dropped, hmem, hmake⟩ := List.exists_of_findSome?_eq_some h
  have hdropped := List.mem_range.1 hmem
  obtain ⟨-, -, hscale⟩ := parts_of_make? hmake
  refine ⟨dropped, by omega, ?_⟩
  rw [toRat_of_make? hmake, hscale]
  rfl

/-- What is rounded loses no more than half a unit of the last digit. -/
theorem abs_fit?_sub_le (h : fit? negative coefficient scale = some d) :
    |d.toRat - sign negative * fraction (coefficient, scale)| ≤ 1 / 2 / 10 ^ d.scale := by
  obtain ⟨dropped, rfl, hd⟩ := exists_of_fit? h
  have hpos : (0 : ℚ) < 10 ^ d.scale := by positivity
  have hnear := Number.abs_halfEven_sub_le (show 0 < 10 ^ dropped by positivity) coefficient
  have hsign : |sign negative| = 1 := by cases negative <;> simp [sign]
  have hdiff : d.toRat - sign negative * fraction (coefficient, dropped + d.scale) = sign negative *
      ((Number.halfEven coefficient (10 ^ dropped) - coefficient / (10 ^ dropped : ℕ)) / 10 ^ d.scale) := by
    rw [hd, ← mul_sub, fraction, fraction, pow_add]
    push_cast
    field_simp
  rw [hdiff, abs_mul, hsign, one_mul, abs_div, abs_of_pos hpos]
  exact div_le_div_of_nonneg_right hnear hpos.le

/-- What there is room for is not rounded, and neither is a whole number. -/
theorem fit?_exact (h : fit? negative coefficient scale = some d)
    (hexact : scale = 0 ∨ coefficient < 2 ^ 96 ∧ scale ≤ 28) :
    d.scale = scale ∧ d.toRat = sign negative * fraction (coefficient, scale) := by
  rcases hexact with rfl | ⟨hlt, hle⟩
  · obtain ⟨dropped, hsum, hd⟩ := exists_of_fit? h
    obtain ⟨rfl, hscale⟩ := Nat.add_eq_zero_iff.1 hsum
    rw [hscale, pow_zero, Number.halfEven_one] at hd
    exact ⟨hscale, hd⟩
  · have hlt : coefficient < 1 <<< 96 := by omega
    have hmake : make? negative (Number.halfEven coefficient (Nat.pow 10 0)) (scale - 0) =
        some ⟨negative, coefficient, scale, hlt, hle⟩ := by
      rw [Nat.pow_eq, pow_zero, Number.halfEven_one]
      exact dif_pos ⟨hlt, hle⟩
    rw [fit?, List.range_succ_eq_map, List.findSome?_cons, hmake] at h
    cases h
    exact ⟨rfl, toRat_eq _⟩

/-- The coefficient of the exact sum at the larger one of the scales. -/
def sumCoefficient (a b : Decimal) : ℤ := a.atScale (max a.scale b.scale) + b.atScale (max a.scale b.scale)

theorem toRat_add_toRat (a b : Decimal) : a.toRat + b.toRat = sumCoefficient a b / 10 ^ max a.scale b.scale := by
  rw [toRat_eq_atScale (le_max_left a.scale b.scale), toRat_eq_atScale (le_max_right a.scale b.scale), ← add_div,
    sumCoefficient, Int.cast_add]

theorem sign_mul_natAbs (n : ℤ) (zero : Bool) (scale : ℕ) :
    sign (if n = 0 then zero else decide (n < 0)) * fraction (n.natAbs, scale) = n / 10 ^ scale := by
  rw [fraction, ← mul_div_assoc]
  congr 1
  rw [Nat.cast_natAbs]
  split
  · next h => simp [h]
  · by_cases hneg : n < 0
    · simp [sign, hneg, abs_of_neg hneg]
    · simp [sign, hneg, abs_of_nonneg (not_lt.1 hneg)]

/-- A sum is one of the operands if the other one is zero, or the exact one is rounded. -/
theorem add?_cases (h : a.add? b = some c) :
    (c = a ∨ c = b) ∧ c.toRat = a.toRat + b.toRat ∨
      ∃ negative, fit? negative (sumCoefficient a b).natAbs (max a.scale b.scale) = some c ∧
        sign negative * fraction ((sumCoefficient a b).natAbs, max a.scale b.scale) = a.toRat + b.toRat := by
  unfold add? at h
  split at h
  · next ha =>
    cases h
    exact .inl ⟨.inr rfl, by rw [toRat_of_isZero ha, zero_add]⟩
  · split at h
    · next hb =>
      cases h
      exact .inl ⟨.inl rfl, by rw [toRat_of_isZero hb, add_zero]⟩
    · exact .inr ⟨_, h, by rw [toRat_add_toRat]; exact sign_mul_natAbs _ _ _⟩

/-- A sum loses no more than half a unit of its last digit. -/
theorem abs_add?_sub_le (h : a.add? b = some c) :
    |c.toRat - (a.toRat + b.toRat)| ≤ 1 / 2 / 10 ^ c.scale := by
  rcases add?_cases h with ⟨-, hc⟩ | ⟨negative, hfit, hsum⟩
  · rw [hc, sub_self, abs_zero]
    positivity
  · exact hsum ▸ abs_fit?_sub_le hfit

/-- A sum of whole numbers is exact, and so is one that there is room for. -/
theorem add?_exact (h : a.add? b = some c) (ha : a.scale ≤ s) (hb : b.scale ≤ s)
    (hexact : s = 0 ∨ |a.toRat + b.toRat| * 10 ^ s < 2 ^ 96) : c.scale ≤ s ∧ c.toRat = a.toRat + b.toRat := by
  have hmax : max a.scale b.scale ≤ s := max_le ha hb
  rcases add?_cases h with ⟨hc, hsum⟩ | ⟨negative, hfit, hsum⟩
  · exact ⟨by rcases hc with rfl | rfl <;> assumption, hsum⟩
  · have hfits : max a.scale b.scale = 0 ∨ (sumCoefficient a b).natAbs < 2 ^ 96 ∧ max a.scale b.scale ≤ 28 := by
      rcases hexact with rfl | hroom
      · exact .inl (Nat.le_zero.1 hmax)
      · refine .inr ⟨?_, max_le a.scale_le b.scale_le⟩
        have hcoefficient : |a.toRat + b.toRat| * 10 ^ max a.scale b.scale = (sumCoefficient a b).natAbs := by
          have hpos : (0 : ℚ) < 10 ^ max a.scale b.scale := by positivity
          rw [toRat_add_toRat, abs_div, abs_of_pos hpos, div_mul_cancel₀ _ hpos.ne', Nat.cast_natAbs, Int.cast_abs]
        have hroom : ((sumCoefficient a b).natAbs : ℚ) < 2 ^ 96 := calc
          ((sumCoefficient a b).natAbs : ℚ) = |a.toRat + b.toRat| * 10 ^ max a.scale b.scale := hcoefficient.symm
          _ ≤ |a.toRat + b.toRat| * 10 ^ s :=
            mul_le_mul_of_nonneg_left (pow_le_pow_right₀ (by norm_num) hmax) (abs_nonneg _)
          _ < 2 ^ 96 := hroom
        exact_mod_cast hroom
    obtain ⟨hscale, hc⟩ := fit?_exact hfit hfits
    exact ⟨hscale.trans_le hmax, hc.trans hsum⟩

/-! ## Quotients -/

theorem RoundsTo.refl (v : ℚ) : RoundsTo v v := ⟨fun _ h => h, fun _ h => h⟩

theorem RoundsTo.neg (h : RoundsTo v w) : RoundsTo (-v) (-w) where
  le d hd := by
    have hw := h.ge d.neg (by rw [toRat_neg]; linarith)
    rw [toRat_neg] at hw
    linarith
  ge d hd := by
    have hw := h.le d.neg (by rw [toRat_neg]; linarith)
    rw [toRat_neg] at hw
    linarith

theorem RoundsTo.signed (h : RoundsTo v w) (negative : Bool) :
    RoundsTo (sign negative * v) (sign negative * w) := by
  unfold sign
  cases negative
  · simpa using h
  · simpa using h.neg

/-- A number rounded to the nearest coefficient at a scale, if the scale is the largest one or no decimal with a
larger scale is that large. -/
theorem roundsTo_of_near (hnear : |(n : ℚ) - y| ≤ 1 / 2)
    (hfull : 28 ≤ s ∨ 2 ^ 96 ≤ 10 * (n : ℚ) ∧ 2 ^ 96 - 1 < 10 * y) : RoundsTo (y / 10 ^ s) (n / 10 ^ s) := by
  have hs : (0 : ℚ) < 10 ^ s := by positivity
  obtain ⟨hge, hle⟩ := abs_le.1 hnear
  have hbeyond : ∀ d : Decimal, s < d.scale → d.toRat < y / 10 ^ s ∧ d.toRat ≤ n / 10 ^ s := by
    intro d hd
    obtain ⟨hn, hy⟩ := hfull.resolve_left fun h => by have := d.scale_le; omega
    have hsmall : d.toRat ≤ (2 ^ 96 - 1) / 10 / 10 ^ s := calc
      d.toRat ≤ (2 ^ 96 - 1) / 10 ^ d.scale := div_le_div_of_nonneg_right d.signed_le (by positivity)
      _ ≤ (2 ^ 96 - 1) / 10 ^ (s + 1) :=
        div_le_div_of_nonneg_left (by norm_num) (by positivity) (pow_le_pow_right₀ (by norm_num) hd)
      _ = (2 ^ 96 - 1) / 10 / 10 ^ s := by rw [div_div, ← pow_succ']
    exact ⟨hsmall.trans_lt (div_lt_div_of_pos_right (by linarith) hs),
      hsmall.trans (div_le_div_of_nonneg_right (by linarith) hs.le)⟩
  constructor
  case le =>
    intro d hd
    by_cases hscale : d.scale ≤ s
    · rw [toRat_eq_atScale hscale, div_le_div_iff_of_pos_right hs] at hd ⊢
      by_contra hlt
      have hlt : (n : ℚ) + 1 ≤ d.atScale s := by exact_mod_cast not_le.1 hlt
      linarith
    · exact (hbeyond d (not_le.1 hscale)).2
  case ge =>
    intro d hd
    by_cases hscale : d.scale ≤ s
    · rw [toRat_eq_atScale hscale, div_le_div_iff_of_pos_right hs] at hd ⊢
      by_contra hlt
      have hlt : (d.atScale s : ℚ) + 1 ≤ n := by exact_mod_cast not_le.1 hlt
      linarith
    · exact absurd hd (not_le.2 (hbeyond d (not_le.1 hscale)).1)

/-- A number whose nearest coefficient at a scale is too large, rounded at the next smaller one. -/
theorem roundsTo_of_too_large {m : ℕ} (hnear : |(n : ℚ) - y| ≤ 1 / 2) (hlarge : 2 ^ 96 ≤ n)
    (htenth : |(m : ℚ) - y / 10| ≤ 1 / 2) : RoundsTo (y / 10 ^ (s + 1)) (m / 10 ^ s) := by
  have hy := (abs_le.1 hnear).2
  have hm := (abs_le.1 htenth).1
  have hn : (2 : ℚ) ^ 96 ≤ n := by exact_mod_cast hlarge
  -- A multiple of ten that is so near to the power of two is not below it.
  have hfull : 2 ^ 97 ≤ 20 * m + 11 := by
    have h : (2 : ℚ) ^ 97 ≤ 20 * m + 11 := by linarith
    exact_mod_cast h
  have hfull : (2 : ℚ) ^ 96 ≤ 10 * m := by exact_mod_cast (show 2 ^ 96 ≤ 10 * m by omega)
  rw [pow_succ', ← div_div]
  exact roundsTo_of_near htenth (.inr ⟨hfull, by linarith⟩)

namespace LongDivision

variable {divisor steps : ℕ} {q : LongDivision} {worked : ℕ × ℕ}

/-- The exact quotient at the scale of the last digit. -/
def mantissa (divisor : ℕ) (q : LongDivision) : ℚ := q.coefficient + q.remainder / divisor

/-- The exact quotient. -/
def value (divisor : ℕ) (q : LongDivision) : ℚ := q.mantissa divisor / 10 ^ q.scale

theorem div_add_mod_div (hd : 0 < divisor) (n : ℕ) :
    ((n / divisor : ℕ) : ℚ) + (n % divisor : ℕ) / divisor = n / divisor := by
  have hd : (divisor : ℚ) ≠ 0 := by exact_mod_cast hd.ne'
  have hmod : (divisor : ℚ) * (n / divisor : ℕ) + (n % divisor : ℕ) = n := by
    exact_mod_cast Nat.div_add_mod n divisor
  rw [← hmod]
  field_simp

theorem mantissa_start (hd : 0 < divisor) (dividend : ℕ) (scale : ℤ) :
    (start dividend divisor scale).mantissa divisor = dividend / divisor :=
  div_add_mod_div hd dividend

/-- More digits do not change the exact quotient. -/
theorem value_extend (hd : 0 < divisor) (digits : ℕ) : (q.extend divisor digits).value divisor = q.value divisor := by
  have hrest := div_add_mod_div hd (q.remainder * 10 ^ digits)
  have hmantissa : (q.extend divisor digits).mantissa divisor = q.mantissa divisor * 10 ^ digits := by
    unfold extend mantissa
    simp only [Nat.pow_eq]
    rw [Nat.cast_add, add_assoc, hrest]
    push_cast
    ring
  have hscale : (q.extend divisor digits).scale = q.scale + digits := rfl
  rw [value, value, hmantissa, hscale, zpow_add₀ (by norm_num), zpow_natCast]
  field_simp

/-- A division with nothing left over is exact. -/
theorem value_of_exact (hrest : q.remainder = 0) (hscale : 0 ≤ q.scale) :
    q.value divisor = fraction (q.coefficient, q.scale.toNat) := by
  rw [value, mantissa, hrest, fraction]
  nth_rewrite 1 [← Int.toNat_of_nonneg hscale]
  rw [zpow_natCast]
  simp

/-- Digits are rounded without making room for any decimal between the exact quotient and the rounded one, if there
is no room for one more digit. -/
theorem roundsTo_of_round? (hd : 0 < divisor) (hfull : 28 ≤ q.scale ∨ 2 ^ 96 ≤ 10 * q.coefficient)
    (h : q.round? divisor = some worked) : RoundsTo (q.value divisor) (fraction worked) := by
  have hdivisor : (0 : ℚ) < divisor := by exact_mod_cast hd
  have hmantissa : ((q.coefficient * divisor + q.remainder : ℕ) : ℚ) / divisor = q.mantissa divisor := by
    rw [mantissa]
    push_cast
    field_simp
  have hcoefficient : q.coefficient ≤ Number.halfEven (q.coefficient * divisor + q.remainder) divisor :=
    ((Nat.le_div_iff_mul_le hd).2 (Nat.le_add_right _ _)).trans (Number.div_le_halfEven _ _)
  have hle : (q.coefficient : ℚ) ≤ q.mantissa divisor := le_add_of_nonneg_right (by positivity)
  unfold round? at h
  generalize q.coefficient * divisor + q.remainder = exact at h hmantissa hcoefficient
  have hnear := Number.abs_halfEven_sub_le hd exact
  rw [hmantissa] at hnear
  dsimp only at h
  split at h
  · cases h
  · next hscale =>
    obtain ⟨s, hs⟩ := Int.eq_ofNat_of_zero_le (not_lt.1 hscale)
    rw [hs] at h hfull
    rw [value, hs]
    split at h
    · cases h
      refine roundsTo_of_near hnear (hfull.imp (fun h => by exact_mod_cast h) fun h => ?_)
      have hrounded : (2 : ℚ) ^ 96 ≤ 10 * Number.halfEven exact divisor := by exact_mod_cast (by omega)
      have h : (2 : ℚ) ^ 96 ≤ 10 * q.coefficient := by exact_mod_cast h
      exact ⟨hrounded, by linarith⟩
    · next hlarge =>
      split at h
      · cases h
      · next hpos =>
        cases h
        obtain ⟨s, rfl⟩ := Nat.exists_eq_succ_of_ne_zero fun h => hpos (congrArg _ h)
        have htenth := Number.abs_halfEven_sub_le (show 0 < 10 * divisor by omega) exact
        rw [Nat.cast_mul, Nat.cast_ofNat, mul_comm (10 : ℚ), ← div_div, hmantissa] at htenth
        exact roundsTo_of_too_large hnear (by omega) htenth

/-- The most digits that there is room for are none only if there is no room for any number of them. -/
theorem hasRoom_of_find? {most digits : ℕ} (h : ((List.range (most + 1)).reverse.find? q.hasRoom).getD 0 = 0)
    (hpos : 0 < digits) (hle : digits ≤ most) : q.hasRoom digits = false := by
  induction most with
  | zero => omega
  | succ most ih =>
    rw [List.range_succ, List.reverse_concat, List.find?_cons] at h
    split at h
    · cases h
    · next hlast =>
      rcases Nat.lt_or_eq_of_le hle with hlt | rfl
      · exact ih h (Nat.le_of_lt_succ hlt)
      · exact hlast

/-- Where there is no room for any digit, the scale is the largest one or the coefficient is too large for one more
digit. -/
theorem full_of_room (h : q.room = 0) : 28 ≤ q.scale ∨ 2 ^ 96 ≤ 10 * q.coefficient := by
  have hroom : q.hasRoom 1 = false := hasRoom_of_find? h Nat.one_pos (by decide)
  rcases Bool.and_eq_false_iff.1 hroom with hcoefficient | hscale
  · have hlarge : 1 <<< 96 ≤ q.coefficient * 10 := not_lt.1 (decide_eq_false_iff_not.1 hcoefficient)
    exact .inr (by omega)
  · have hscale : ¬q.scale + 1 ≤ 28 := decide_eq_false_iff_not.1 hscale
    exact .inl (by omega)

/-- The exact quotient stays what it is from step to step, and the last step rounds it without a decimal between. -/
theorem roundsTo_of_finish? (hd : 0 < divisor) (h : q.finish? divisor steps = some worked) :
    RoundsTo (q.value divisor) (fraction worked) := by
  induction steps generalizing q with
  | zero => cases h
  | succ steps ih =>
    have hextend : ∀ digits, (q.extend divisor digits).finish? divisor steps = some worked →
        RoundsTo (q.value divisor) (fraction worked) := fun digits h => value_extend hd digits ▸ ih h
    unfold finish? at h
    split at h
    · next hrest =>
      split at h
      · next hscale =>
        cases h
        exact value_of_exact hrest hscale ▸ .refl _
      · dsimp only at h
        split at h
        · exact hextend _ h
        · cases h
    · dsimp only at h
      split at h
      · next hstop =>
        -- Either nothing more fits, or digits before the point are missing and there is no result.
        rcases hstop with hroom | ⟨-, hscale⟩
        · exact roundsTo_of_round? hd (full_of_room hroom) h
        · rw [round?, if_pos (by omega)] at h
          cases h
      · split at h
        · next hlarge =>
          rw [← value_extend hd q.room]
          exact roundsTo_of_round? hd (.inr (by omega)) h
        · exact hextend _ h

theorem fraction_dropGroup (zeros : ℕ) (d : ℕ × ℕ) : fraction (dropGroup zeros d) = fraction d := by
  unfold dropGroup
  split
  · next h => exact fraction_drop h.1 (Nat.dvd_of_mod_eq_zero h.2)
  · rfl

theorem fraction_dropEights (coefficient scale : ℕ) :
    fraction (dropEights coefficient scale) = fraction (coefficient, scale) := by
  fun_induction dropEights coefficient scale with
  | case1 coefficient scale hscale hzeros ih =>
    exact ih.trans (fraction_drop hscale (Nat.dvd_of_mod_eq_zero hzeros.2))
  | case2 | case3 => rfl

theorem fraction_dropZeros (d : ℕ × ℕ) : fraction (dropZeros d) = fraction d := by
  rw [dropZeros, fraction_dropGroup, fraction_dropGroup, fraction_dropGroup, fraction_dropEights]

end LongDivision

theorem fraction_stripZeros (coefficient scale : ℕ) :
    fraction (stripZeros coefficient scale) = fraction (coefficient, scale) := by
  induction scale generalizing coefficient with
  | zero => rfl
  | succ scale ih =>
    rw [stripZeros]
    split
    · next h =>
      have hzeros : 10 ^ 1 ∣ coefficient := Nat.dvd_of_mod_eq_zero h
      exact (ih _).trans (fraction_drop (Nat.le_add_left 1 scale) hzeros)
    · rfl

theorem toRat_normalize (d : Decimal) : d.normalize.toRat = d.toRat := by
  unfold normalize
  split
  · next h => rw [toRat_of_isZero h, toRat_of_isZero (d := zero) rfl]
  · rw [toRat_eq, toRat_eq d, ← fraction_stripZeros d.coefficient]

theorem sign_xor (n m : Bool) : sign (n ^^ m) = sign n / sign m := by
  cases n <;> cases m <;> norm_num [sign]

/-- A long division begins with the quotient of the magnitudes. -/
theorem value_start (hb : 0 < b.coefficient) :
    (LongDivision.start a.coefficient b.coefficient (a.scale - b.scale)).value b.coefficient =
      fraction (a.coefficient, a.scale) / fraction (b.coefficient, b.scale) := by
  have hb' : (b.coefficient : ℚ) ≠ 0 := by exact_mod_cast hb.ne'
  have hscale : (LongDivision.start a.coefficient b.coefficient (a.scale - b.scale)).scale = a.scale - b.scale := rfl
  rw [LongDivision.value, LongDivision.mantissa_start hb, hscale, zpow_sub₀ (by norm_num), zpow_natCast, zpow_natCast,
    fraction, fraction]
  field_simp

/-- No decimal lies between a quotient and what it is rounded to. -/
theorem roundsTo_of_div? {r : Decimal} (hb : b.isZero = false) (h : a.div? b = some r) :
    RoundsTo (a.toRat / b.toRat) r.toRat := by
  unfold div? at h
  split at h
  · next ha =>
    cases h
    rw [toRat_of_isZero ha, toRat_of_isZero (d := zero) rfl, zero_div]
    exact .refl 0
  · have hpos : 0 < b.coefficient := Nat.pos_of_ne_zero (beq_eq_false_iff_ne.1 hb)
    have hvalue := value_start (a := a) hpos
    dsimp only at h
    generalize LongDivision.start a.coefficient b.coefficient (a.scale - b.scale) = q at h hvalue
    obtain ⟨worked, hworked, h⟩ := Option.bind_eq_some_iff.1 h
    have hrounds := LongDivision.roundsTo_of_finish? hpos hworked
    rw [hvalue] at hrounds
    have hexact : a.toRat / b.toRat = sign (a.negative ^^ b.negative) *
        (fraction (a.coefficient, a.scale) / fraction (b.coefficient, b.scale)) := by
      rw [toRat_eq, toRat_eq, sign_xor, mul_div_mul_comm]
    generalize hkept : (if q.remainder = 0 then worked else LongDivision.dropZeros worked) = kept at h
    have hfraction : fraction kept = fraction worked := by
      rw [← hkept]
      split
      · rfl
      · exact LongDivision.fraction_dropZeros worked
    obtain ⟨coefficient, scale⟩ := kept
    -- Only zero has another sign than the signs of the operands give.
    have hr : r.toRat = sign (a.negative ^^ b.negative) * fraction (coefficient, scale) := by
      rw [toRat_of_make? h]
      by_cases hzero : coefficient = 0
      · simp [hzero, fraction]
      · simp [hzero]
    rw [hr, hexact, hfraction]
    exact hrounds.signed _

end Decimal

end Provenance

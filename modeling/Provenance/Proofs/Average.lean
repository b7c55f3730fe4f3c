import Mathlib.Algebra.Order.BigOperators.Group.List
import Provenance.Proofs.Aggregate
import Provenance.Proofs.Decimal.Rounding

/-!
# Averages

An average is a quotient of a running total, and both may be rounded. Between the exact quotient and the rounded
one lies no decimal, so an average of which the total is exact is between the least and the greatest payload. The
additions to a total may lose something (`AggregateFn.lost`), and by its share in that an average may be beside
them. Main statement: `AggregateFn.average_within`.
-/

namespace Provenance

namespace Scalar

/-- The number that is added to a total for a payload. -/
def quantity (v : Scalar) : ℚ := (v.toDecimal?.getD .zero).toRat

/-- Neither payload is nothing, and the first one is not greater than the other one. -/
def AtMost (a b : Scalar) : Prop := ∃ o, a.compare b = .ok (some o) ∧ o ≠ .gt

variable {a b : Scalar}

theorem number?_eq_quantity (h : a.toDecimal?.isSome) : a.number? = some a.quantity := by
  cases a with
  | null | bool | text => cases h
  | int i => exact congrArg some (Decimal.toRat_toDecimal i).symm
  | decimal d => rfl

theorem compare_eq_quantity (ha : a.toDecimal?.isSome) (hb : b.toDecimal?.isSome) :
    a.compare b = .ok (some (Ord.compare a.quantity b.quantity)) :=
  (Ordered.number (number?_eq_quantity ha) (number?_eq_quantity hb)).compare_eq

theorem atMost_iff (ha : a.toDecimal?.isSome) (hb : b.toDecimal?.isSome) :
    a.AtMost b ↔ a.quantity ≤ b.quantity := by
  rw [AtMost, compare_eq_quantity ha hb, ← compare_le_iff_le]
  simp

end Scalar

namespace AggregateFn

open Scalar

/-- What the additions of payloads to a total lose to rounding. -/
def lost (total : Decimal) : List Scalar → ℚ
  | [] => 0
  | v :: rest =>
    match total.add? (v.toDecimal?.getD .zero) with
    | some next => |next.toRat - (total.toRat + v.quantity)| + lost next rest
    | none => 0

variable {values : List Scalar} {count s : ℕ} {total sum : Decimal} {lo hi mean : Scalar}

theorem addToTotal_eq_ok_iff {v : Scalar} {next : Decimal} :
    addToTotal count total v = .ok next ↔ total.add? (v.toDecimal?.getD .zero) = some next := by
  unfold addToTotal
  split <;> simp_all

/-- A total is the sum of what it begins with and the payloads, up to what is lost. -/
theorem abs_total_sub_le (h : values.foldlM (addToTotal count) total = .ok sum) :
    |sum.toRat - (total.toRat + (values.map quantity).sum)| ≤ lost total values := by
  -- Every payload changes the total, so this is proved for all of them.
  induction values generalizing total with
  | nil =>
    cases h
    simp [lost]
  | cons v rest ih =>
    rw [List.foldlM_cons] at h
    obtain ⟨next, hnext, h⟩ := Except.bind_eq_ok_iff.1 h
    rw [addToTotal_eq_ok_iff] at hnext
    rw [lost, hnext, List.map_cons, List.sum_cons]
    calc |sum.toRat - (total.toRat + (v.quantity + (rest.map quantity).sum))|
        = |(next.toRat - (total.toRat + v.quantity)) + (sum.toRat - (next.toRat + (rest.map quantity).sum))| := by
          ring_nf
      _ ≤ |next.toRat - (total.toRat + v.quantity)| + |sum.toRat - (next.toRat + (rest.map quantity).sum)| :=
          abs_add_le _ _
      _ ≤ |next.toRat - (total.toRat + v.quantity)| + lost next rest := by gcongr; exact ih h

/-- Nothing is lost as long as the payloads and the total have few digits after the point and there is room for
everything that is added up, or if there are no digits after the point at all. -/
theorem lost_eq_zero (htotal : total.scale ≤ s) (hscale : ∀ v ∈ values, (v.toDecimal?.getD .zero).scale ≤ s)
    (hroom : s = 0 ∨ ∀ part, part <+: values → |total.toRat + (part.map quantity).sum| * 10 ^ s < 2 ^ 96) :
    lost total values = 0 := by
  induction values generalizing total with
  | nil => rfl
  | cons v rest ih =>
    obtain ⟨hv, hscale⟩ := List.forall_mem_cons.1 hscale
    rw [lost]
    cases hnext : total.add? (v.toDecimal?.getD .zero) with
    | none => rfl
    | some next =>
      have hfirst : s = 0 ∨ |total.toRat + v.quantity| * 10 ^ s < 2 ^ 96 := hroom.imp_right fun hroom => by
        simpa using hroom [v] ((List.prefix_cons_inj v).2 List.nil_prefix)
      obtain ⟨hs, hexact⟩ := Decimal.add?_exact hnext htotal hv hfirst
      have hexact : next.toRat = total.toRat + v.quantity := hexact
      have hrest : s = 0 ∨ ∀ part, part <+: rest → |next.toRat + (part.map quantity).sum| * 10 ^ s < 2 ^ 96 := by
        refine hroom.imp_right fun hroom part hpart => ?_
        rw [hexact, add_assoc]
        exact hroom (v :: part) ((List.prefix_cons_inj v).2 hpart)
      dsimp only
      rw [hexact, sub_self, abs_zero, zero_add]
      exact ih hs hscale hrest

/-- An addition loses no more than one half. -/
theorem lost_le (total : Decimal) (values : List Scalar) : lost total values ≤ values.length / 2 := by
  induction values generalizing total with
  | nil => simp [lost]
  | cons v rest ih =>
    rw [lost, List.length_cons]
    push_cast
    cases hnext : total.add? (v.toDecimal?.getD .zero) with
    | none => positivity
    | some next =>
      have hhalf : |next.toRat - (total.toRat + v.quantity)| ≤ 1 / 2 :=
        (Decimal.abs_add?_sub_le hnext).trans (div_le_self (by norm_num) (one_le_pow₀ (by norm_num)))
      have hrest := ih next
      dsimp only
      linarith

/-- An average is the total divided by the number of the payloads, with no decimal between the two. -/
theorem exists_total (hlength : values.length < 2 ^ 63) (hne : values ≠ []) (h : average values = .ok mean) :
    ∃ sum d, values.foldlM (addToTotal values.length) .zero = .ok sum ∧ mean = .decimal d ∧
      Decimal.RoundsTo (sum.toRat / values.length) d.toRat := by
  obtain ⟨sum, hsum, h⟩ := Except.bind_eq_ok_iff.1 h
  -- The divisor is the number of the payloads as a decimal.
  have hcount : (Integer.ofCount values.length).toDecimal.toRat = values.length := by
    rw [Decimal.toRat_toDecimal, Integer.val_ofCount hlength, Int.cast_natCast]
  have hzero : (Integer.ofCount values.length).toDecimal.isZero = false := by
    by_contra hzero
    rw [Decimal.toRat_of_isZero (eq_true_of_ne_false hzero)] at hcount
    exact hne (List.length_eq_zero_iff.1 (by exact_mod_cast hcount.symm))
  split at h
  · next d hd =>
    cases h
    refine ⟨sum, d.normalize, hsum, rfl, ?_⟩
    rw [Decimal.toRat_normalize, ← hcount]
    exact Decimal.roundsTo_of_div? hzero hd
  · cases h

/-- How an average lies to the least and the greatest of the payloads that it is taken of. -/
structure AverageWithin (values : List Scalar) (lo hi mean : Scalar) : Prop where
  /-- If nothing is lost, the average is between them. -/
  exact : lost .zero values = 0 → lo.AtMost mean ∧ mean.AtMost hi
  integers : (∀ v ∈ values, v.conforms .integer) → lost .zero values = 0
  /-- Nothing is lost if there is room for all that the payloads begin with added up, with as many digits after the
  point as any of them has. -/
  room : ∀ s, (∀ v ∈ values, (v.toDecimal?.getD .zero).scale ≤ s) →
    (∀ part, part <+: values → |(part.map quantity).sum| * 10 ^ s < 2 ^ 96) → lost .zero values = 0
  /-- A decimal that is so far below the least payload as is the share of each one in what is lost is not above the
  average, and neither is the average above a decimal that is so far above the greatest one. -/
  share : ∀ d : Decimal,
    (d.toRat ≤ lo.quantity - lost .zero values / values.length → (Scalar.decimal d).AtMost mean) ∧
    (hi.quantity + lost .zero values / values.length ≤ d.toRat → mean.AtMost (.decimal d))
  half : lost .zero values / values.length ≤ 1 / 2

/-- The total of an average is at least as many times the least payload as there are payloads, and at most so many
times the greatest one, up to what is lost. -/
theorem total_between (hne : values ≠ []) (h : values.foldlM (addToTotal count) .zero = .ok sum) {l u : ℚ}
    (hleast : ∀ v ∈ values, l ≤ v.quantity) (hgreatest : ∀ v ∈ values, v.quantity ≤ u) :
    l - lost .zero values / values.length ≤ sum.toRat / values.length ∧
      sum.toRat / values.length ≤ u + lost .zero values / values.length := by
  have hpos : (0 : ℚ) < values.length := by exact_mod_cast List.length_pos_of_ne_nil hne
  have htotal := abs_le.1 (abs_total_sub_le h)
  rw [Decimal.toRat_of_isZero (d := .zero) rfl, zero_add] at htotal
  have hlower := List.card_nsmul_le_sum (values.map quantity) l (List.forall_mem_map.2 hleast)
  have hupper := List.sum_le_card_nsmul (values.map quantity) u (List.forall_mem_map.2 hgreatest)
  rw [List.length_map, nsmul_eq_mul] at hlower hupper
  constructor
  · rw [sub_le_iff_le_add, ← add_div, le_div_iff₀ hpos]
    linarith
  · rw [← sub_le_iff_le_add, ← sub_div, div_le_iff₀ hpos]
    linarith

/-- An average that is something is taken of payloads that are there and suit it. -/
theorem average_of_apply (h : AggregateFn.avg.apply values = .ok mean) (hnull : mean.isNull = false) :
    present values ≠ [] ∧ Suits .avg (present values) ∧ average (present values) = .ok mean := by
  have hne : present values ≠ [] := by
    intro hnone
    cases (apply_of_none hnone (show avg ≠ .count from nofun)).symm.trans h
    cases hnull
  obtain ⟨first, rest, hpresent⟩ := List.exists_cons_of_ne_nil hne
  refine ⟨hne, ?_⟩
  rw [hpresent]
  rcases apply_of_present hpresent (show avg ≠ .count from nofun) with ⟨hsuits, hfold⟩ | ⟨-, m, herror⟩
  · exact ⟨hsuits, hfold.symm.trans h⟩
  · cases herror.symm.trans h

theorem foremost_of_apply {func : AggregateFn} {wanted : Ordering} {best : Scalar} (hwanted : wanted ≠ .eq)
    (hcount : func ≠ .count) (hfold : ∀ first rest, func.fold first rest = extreme wanted first rest)
    (hpresent : present values ≠ []) (hsuits : Suits func (present values)) (h : func.apply values = .ok best) :
    Foremost wanted (present values) best := by
  obtain ⟨best', hbest', hforemost⟩ := exists_foremost_of_suits hwanted hcount hfold hpresent hsuits
  cases hbest'.symm.trans h
  exact hforemost

/-- Numbers lie between the least and the greatest one. -/
theorem quantity_between (hnumeric : ∀ v ∈ values, v.toDecimal?.isSome) (hlo : Foremost .lt values lo)
    (hhi : Foremost .gt values hi) :
    ∀ v ∈ values, lo.quantity ≤ v.quantity ∧ v.quantity ≤ hi.quantity := by
  intro v hv
  constructor
  · obtain ⟨o, ho, hne⟩ := hlo.unbeaten v hv
    cases (compare_eq_quantity (hnumeric v hv) (hnumeric lo hlo.mem)).symm.trans ho
    exact compare_ge_iff_ge.1 hne
  · obtain ⟨o, ho, hne⟩ := hhi.unbeaten v hv
    cases (compare_eq_quantity (hnumeric v hv) (hnumeric hi hhi.mem)).symm.trans ho
    exact compare_le_iff_le.1 hne

/-- An average is between the least and the greatest payload if nothing is lost when they are added up, and else it
is beside them by no more than its share in what is lost. A list does not have so many items that they cannot be
counted. -/
theorem average_within (hlength : values.length < 2 ^ 63) (hlo : AggregateFn.min.apply values = .ok lo)
    (hhi : AggregateFn.max.apply values = .ok hi) (hmean : AggregateFn.avg.apply values = .ok mean)
    (hnull : mean.isNull = false) : AverageWithin (present values) lo hi mean := by
  obtain ⟨hne, hsuits, haverage⟩ := average_of_apply hmean hnull
  have hnumeric := hsuits.numeric (.inr rfl)
  have hleast := foremost_of_apply (show Ordering.lt ≠ .eq from nofun) (show AggregateFn.min ≠ .count from nofun)
    (fun _ _ => rfl) hne ⟨hsuits.one, fun h => h.elim nofun nofun⟩ hlo
  have hgreatest := foremost_of_apply (show Ordering.gt ≠ .eq from nofun) (show AggregateFn.max ≠ .count from nofun)
    (fun _ _ => rfl) hne ⟨hsuits.one, fun h => h.elim nofun nofun⟩ hhi
  have hbetween := quantity_between hnumeric hleast hgreatest
  have hlo := hnumeric lo hleast.mem
  have hhi := hnumeric hi hgreatest.mem
  obtain ⟨sum, d, hsum, rfl, hrounds⟩ :=
    exists_total ((List.length_filter_le _ _).trans_lt hlength) hne haverage
  obtain ⟨hlower, hupper⟩ := total_between hne hsum (fun v hv => (hbetween v hv).1) fun v hv => (hbetween v hv).2
  constructor
  case exact =>
    intro hlost
    rw [hlost, zero_div] at hlower hupper
    rw [sub_zero] at hlower
    rw [add_zero] at hupper
    exact ⟨(atMost_iff hlo rfl).2 (hrounds.le _ hlower), (atMost_iff rfl hhi).2 (hrounds.ge _ hupper)⟩
  case integers =>
    intro hinteger
    refine lost_eq_zero le_rfl (fun v hv => ?_) (.inl rfl)
    rcases cases_of_integer (hinteger v hv) with rfl | ⟨i, rfl⟩ <;> exact le_rfl
  case room =>
    intro s hscale hroom
    refine lost_eq_zero (Nat.zero_le s) hscale (.inr fun part hpart => ?_)
    rw [Decimal.toRat_of_isZero (d := .zero) rfl, zero_add]
    exact hroom part hpart
  case share =>
    exact fun x => ⟨fun h => (atMost_iff rfl rfl).2 (hrounds.le x (h.trans hlower)),
      fun h => (atMost_iff rfl rfl).2 (hrounds.ge x (hupper.trans h))⟩
  case half =>
    have hpos : (0 : ℚ) < (present values).length := by exact_mod_cast List.length_pos_of_ne_nil hne
    rw [div_le_iff₀ hpos]
    linarith [lost_le .zero (present values)]

end AggregateFn

namespace Sample

/-- One and three, and nothing between them. -/
def oneAndThree : List Scalar := [.int (.ofCount 1), .null, .int (.ofCount 3)]

theorem average_oneAndThree : ∃ mean, AggregateFn.avg.apply oneAndThree = .ok mean ∧
    (Scalar.int (.ofCount 1)).AtMost mean ∧ mean.AtMost (.int (.ofCount 3)) := by
  have hmean : ∃ d, AggregateFn.avg.apply oneAndThree = .ok (.decimal d) := ⟨_, rfl⟩
  obtain ⟨d, hd⟩ := hmean
  have hwithin := AggregateFn.average_within (show oneAndThree.length < 2 ^ 63 by decide) rfl rfl hd rfl
  have hintegers : ∀ v ∈ AggregateFn.present oneAndThree, v.conforms .integer := by decide
  obtain ⟨hleast, hgreatest⟩ := hwithin.exact (hwithin.integers hintegers)
  exact ⟨_, hd, hleast, hgreatest⟩

/-- A decimal that twice there is no room for. -/
def nearLimit : Decimal := ⟨false, 79228162514264337593543950334, 28, by decide, by decide⟩

def twiceNearLimit : Decimal := ⟨false, 15845632502852867518708790067, 27, by decide, by decide⟩

/-- The total loses its last digit, and the average of a decimal with itself is greater than it. -/
theorem average_exceeds_greatest :
    let values : List Scalar := [.decimal nearLimit, .decimal nearLimit]
    ∃ lo hi mean, AggregateFn.min.apply values = .ok lo ∧ AggregateFn.max.apply values = .ok hi ∧
      AggregateFn.avg.apply values = .ok mean ∧ lo.isNull = false ∧ hi.isNull = false ∧ mean.isNull = false ∧
      mean.compare hi = .ok (some .gt) := by
  intro values
  have hdiv : twiceNearLimit.div? (Integer.ofCount 2).toDecimal =
      some ⟨false, 79228162514264337593543950335, 28, by decide, by decide⟩ := by
    decide +kernel
  have havg : AggregateFn.avg.apply values =
      match twiceNearLimit.div? (Integer.ofCount 2).toDecimal with
      | some d => .ok (.decimal d.normalize)
      | none => .error (.overflow .average) := rfl
  rw [hdiv] at havg
  exact ⟨_, _, _, rfl, rfl, havg, rfl, rfl, rfl, rfl⟩

end Sample

end Provenance

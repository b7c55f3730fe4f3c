/-!
# Rounding a quotient

A quotient of natural numbers rounded to the nearest whole number, an exact half to the even neighbour
(`halfEven`) or up (`halfUp`). Main statement: the result is within half a unit of the quotient
(`two_mul_halfEven_mul`).
-/

namespace Provenance.Number

/-- The whole number nearest to `n / d`; of two equally near ones, the even one. -/
def halfEven (n d : Nat) : Nat :=
  let q := n / d
  let r := n % d
  if 2 * r < d then q else if d < 2 * r then q + 1 else if q % 2 = 0 then q else q + 1

/-- The whole number nearest to `n / d`; of two equally near ones, the larger one. -/
def halfUp (n d : Nat) : Nat := (2 * n + d) / (2 * d)

theorem halfEven_one (n : Nat) : halfEven n 1 = n := by
  simp [halfEven, Nat.mod_one]

/-- The rounded quotient is within half a unit of the exact one. -/
theorem two_mul_halfEven_mul {n d : Nat} (hd : 0 < d) :
    2 * (halfEven n d * d) ≤ 2 * n + d ∧ 2 * n ≤ 2 * (halfEven n d * d) + d := by
  have hdiv : n / d * d + n % d = n := by
    rw [Nat.mul_comm]; exact Nat.div_add_mod n d
  have hlt := Nat.mod_lt n hd
  have hsucc : (n / d + 1) * d = n / d * d + d := by rw [Nat.add_mul, Nat.one_mul]
  simp only [halfEven]
  split
  · omega
  · split
    · rw [hsucc]; omega
    · split
      · omega
      · rw [hsucc]; omega

theorem div_le_halfEven (n d : Nat) : n / d ≤ halfEven n d := by
  simp only [halfEven]; split <;> (try split) <;> (try split) <;> omega

end Provenance.Number

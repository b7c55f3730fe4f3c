import Provenance.Proofs.Scalar.Order
import Provenance.Proofs.Scalar.Sum

/-!
# Laws of aggregates

An aggregate is taken of the payloads that are there (`AggregateFn.present`). It checks that they suit it before
it computes anything (`AggregateFn.apply_of_present`): they have to be of one data type, and numbers if they are
to be added up. The least and the greatest payload is the first one of its value (`AggregateFn.Foremost`), and
whether integers have a sum depends on what they begin with, not on the sum alone (`AggregateFn.AllInRange`). Main
statement: `AggregateFn.laws`.
-/

namespace Provenance

namespace Scalar

variable {a b : Scalar}

theorem isNull_eq (v : Scalar) : v.isNull = v.dataType?.isNone := by
  cases v <;> rfl

theorem isSome_toDecimal?_iff :
    a.toDecimal?.isSome ↔ a.dataType? = some .integer ∨ a.dataType? = some .decimal := by
  cases a <;> simp [toDecimal?, dataType?]

/-- The sum of two numbers of one data type is of that type, or out of range. -/
theorem add_cases (htype : a.dataType? = b.dataType?) (hnumber : a.toDecimal?.isSome) :
    (∃ c, arith .add a b = .ok c ∧ c.dataType? = a.dataType?) ∨ ∃ o, arith .add a b = .error (.overflow o) := by
  cases a with
  | null | bool | text => cases hnumber
  | int i =>
    cases b with
    | int j =>
      simp only [arith, reduceCtorEq, false_and, if_false]
      cases i.arith? .add j with
      | none => exact .inr ⟨_, rfl⟩
      | some k => exact .inl ⟨_, rfl, rfl⟩
    | _ => cases htype
  | decimal d =>
    cases b with
    | decimal e =>
      simp only [arith, reduceCtorEq, false_and, if_false]
      cases d.arith? .add e with
      | none => exact .inr ⟨_, rfl⟩
      | some f => exact .inl ⟨_, rfl, rfl⟩
    | _ => cases htype

end Scalar

namespace AggregateFn

open Scalar

/-- The payloads that an aggregate is taken of. -/
def present (values : List Scalar) : List Scalar := values.filter fun v => !v.isNull

/-- Payloads that a function can be taken of: all of one data type, and numbers if they are to be added up. -/
structure Suits (func : AggregateFn) (values : List Scalar) : Prop where
  one : ∀ a ∈ values, ∀ b ∈ values, a.dataType? = b.dataType?
  numeric : func = .sum ∨ func = .avg → ∀ a ∈ values, a.toDecimal?.isSome

/-- The first of the payloads that no other one is before in an order: those in front of it come after it, and
none that follows it comes before it. -/
structure Foremost (wanted : Ordering) (values : List Scalar) (best : Scalar) : Prop where
  unbeaten : ∀ v ∈ values, ∃ o, v.compare best = .ok (some o) ∧ o ≠ wanted
  first : ∃ before after, values = before ++ best :: after ∧ ∀ v ∈ before, best.compare v = .ok (some wanted)

/-- A function of payloads that suit it, the first one apart. -/
def fold (func : AggregateFn) (first : Scalar) (rest : List Scalar) : Except Error Scalar :=
  match func with
  | .count => .ok (.int (Integer.ofCount (first :: rest).length))
  | .sum => sumFrom first rest
  | .min => extreme .lt first rest
  | .max => extreme .gt first rest
  | .avg => average (first :: rest)

variable {func : AggregateFn} {values rest : List Scalar} {first best v : Scalar}

/-! ## Requirements -/

theorem mem_present : v ∈ present values ↔ v ∈ values ∧ v.isNull = false := by
  simp [present]

theorem requireOneType_cases :
    (∀ v ∈ rest, v.dataType? = first.dataType?) ∧ func.requireOneType first rest = .ok () ∨
      (∃ v ∈ rest, v.dataType? ≠ first.dataType?) ∧ ∃ m, func.requireOneType first rest = .error (.mismatch m) := by
  unfold requireOneType
  split
  · next v hfind =>
    exact .inr ⟨⟨v, List.mem_of_find?_eq_some hfind, by simpa using List.find?_some hfind⟩, _, rfl⟩
  · next hfind => exact .inl ⟨by simpa using hfind, rfl⟩

theorem requireNumeric_cases :
    first.toDecimal?.isSome ∧ func.requireNumeric first = .ok () ∨
      ¬first.toDecimal?.isSome ∧ ∃ m, func.requireNumeric first = .error (.mismatch m) := by
  cases first <;> simp [requireNumeric, toDecimal?]

theorem suits_cons_iff : Suits func (first :: rest) ↔
    (∀ v ∈ rest, v.dataType? = first.dataType?) ∧ (func = .sum ∨ func = .avg → first.toDecimal?.isSome) := by
  constructor
  · intro h
    exact ⟨fun v hv => h.one v (List.mem_cons_of_mem _ hv) first List.mem_cons_self,
      fun hfunc => h.numeric hfunc first List.mem_cons_self⟩
  · rintro ⟨hone, hnumeric⟩
    have hfirst : ∀ v ∈ first :: rest, v.dataType? = first.dataType? := List.forall_mem_cons.2 ⟨rfl, hone⟩
    refine ⟨fun a ha b hb => (hfirst a ha).trans (hfirst b hb).symm, fun hfunc a ha => ?_⟩
    rw [isSome_toDecimal?_iff, hfirst a ha, ← isSome_toDecimal?_iff]
    exact hnumeric hfunc

/-- A function of payloads that are there: whether they suit it is found out first. -/
theorem apply_eq (hpresent : present values = first :: rest) (hcount : func ≠ .count) :
    func.apply values = (do
      func.requireOneType first rest
      if func = .sum ∨ func = .avg then func.requireNumeric first
      func.fold first rest) := by
  unfold present at hpresent
  unfold apply
  rw [hpresent]
  cases func with
  | count => exact absurd rfl hcount
  | sum | min | max | avg => rfl

/-- A function of payloads that are there is computed if they suit it, and fails if they do not. -/
theorem apply_of_present (hpresent : present values = first :: rest) (hcount : func ≠ .count) :
    Suits func (first :: rest) ∧ func.apply values = func.fold first rest ∨
      ¬Suits func (first :: rest) ∧ ∃ m, func.apply values = .error (.mismatch m) := by
  rw [apply_eq hpresent hcount, suits_cons_iff]
  rcases requireOneType_cases with ⟨hone, hok⟩ | ⟨⟨v, hv, hne⟩, m, herror⟩
  · rw [Except.bind_of_ok hok]
    by_cases hadded : func = .sum ∨ func = .avg
    · rw [if_pos hadded]
      rcases requireNumeric_cases with ⟨hnumber, hok⟩ | ⟨hnumber, m, herror⟩
      · rw [Except.bind_of_ok hok]
        exact .inl ⟨⟨hone, fun _ => hnumber⟩, rfl⟩
      · rw [herror]
        exact .inr ⟨fun h => hnumber (h.2 hadded), m, rfl⟩
    · rw [if_neg hadded]
      exact .inl ⟨⟨hone, fun h => absurd h hadded⟩, rfl⟩
  · rw [herror]
    exact .inr ⟨fun h => hne (h.1 v hv), m, rfl⟩

/-! ## Sums -/

theorem sumFrom_cases (hrest : ∀ v ∈ rest, v.dataType? = first.dataType?) (hnumber : first.toDecimal?.isSome) :
    (∃ c, sumFrom first rest = .ok c ∧ c.dataType? = first.dataType?) ∨
      ∃ o, sumFrom first rest = .error (.overflow o) := by
  unfold sumFrom
  induction rest generalizing first with
  | nil => exact .inl ⟨first, rfl, rfl⟩
  | cons v rest ih =>
    obtain ⟨hv, hrest⟩ := List.forall_mem_cons.1 hrest
    rw [List.foldlM_cons]
    rcases add_cases hv.symm hnumber with ⟨c, hc, htype⟩ | ⟨o, ho⟩
    · rw [Except.bind_of_ok hc, ← htype]
      refine ih (fun v hv => (hrest v hv).trans htype.symm) ?_
      rwa [isSome_toDecimal?_iff, htype, ← isSome_toDecimal?_iff]
    · rw [ho]
      exact .inr ⟨o, rfl⟩

/-- A sum of integers is their sum if all that begins with the first one has its sum in range, and out of range
otherwise. -/
theorem sumFrom_integers (i : Integer) (rest : List Integer) :
    (∀ part, part <+: rest → Integer.InRange (i.val + (part.map Integer.val).sum)) ∧
        (∃ n, sumFrom (.int i) (rest.map .int) = .ok (.int n) ∧ n.val = i.val + (rest.map Integer.val).sum) ∨
      (∃ part, part <+: rest ∧ ¬Integer.InRange (i.val + (part.map Integer.val).sum)) ∧
        ∃ o, sumFrom (.int i) (rest.map .int) = .error (.overflow o) := by
  unfold sumFrom
  induction rest generalizing i with
  | nil =>
    refine .inl ⟨fun part hpart => ?_, i, rfl, (Int.add_zero _).symm⟩
    rw [List.prefix_nil.1 hpart]
    simpa using i.inRange_val
  | cons j rest ih =>
    have hadd : arith .add (.int i) (.int j) = orOverflow .add (.int i) (.int j)
        ((Integer.ofInt? (i.val + j.val)).map .int) := rfl
    rw [List.map_cons, List.foldlM_cons, hadd]
    cases hsum : Integer.ofInt? (i.val + j.val) with
    | none =>
      refine .inr ⟨⟨[j], (List.prefix_cons_inj j).2 List.nil_prefix, ?_⟩, _, rfl⟩
      simpa using Integer.ofInt?_eq_none_iff.1 hsum
    | some k =>
      have hk : ∀ part : List Integer,
          i.val + ((j :: part).map Integer.val).sum = k.val + (part.map Integer.val).sum := by
        intro part
        rw [Integer.ofInt?_eq_some_iff.1 hsum, List.map_cons, List.sum_cons, Int.add_assoc]
      simp only [Option.map_some, orOverflow, Except.bind_of_ok rfl, hk]
      rcases ih k with ⟨hparts, hok⟩ | ⟨⟨part, hpart, hout⟩, herror⟩
      · refine .inl ⟨fun part hpart => ?_, hok⟩
        rcases List.prefix_cons_iff.1 hpart with rfl | ⟨others, rfl, hothers⟩
        · simpa using i.inRange_val
        · exact hk others ▸ hparts others hothers
      · refine .inr ⟨⟨j :: part, (List.prefix_cons_inj j).2 hpart, ?_⟩, herror⟩
        rwa [hk]

/-- All that integers begin with has its sum in range. -/
def AllInRange (is : List Integer) : Prop := ∀ part, part <+: is → Integer.InRange (part.map Integer.val).sum

theorem allInRange_cons_iff {i : Integer} {rest : List Integer} : AllInRange (i :: rest) ↔
    ∀ part, part <+: rest → Integer.InRange (i.val + (part.map Integer.val).sum) := by
  constructor
  · intro h part hpart
    simpa using h (i :: part) ((List.prefix_cons_inj i).2 hpart)
  · intro h part hpart
    rcases List.prefix_cons_iff.1 hpart with rfl | ⟨others, rfl, hothers⟩
    · exact ⟨by decide, by decide⟩
    · simpa using h others hothers

/-! ## Least and greatest -/

namespace Foremost

variable {wanted : Ordering}

theorem single (hwanted : wanted ≠ .eq) (hnull : first.isNull = false) : Foremost wanted [first] first where
  unbeaten v hv := by
    rw [List.mem_singleton.1 hv]
    exact ⟨.eq, (Ordered.refl hnull).compare_eq, hwanted.symm⟩
  first := ⟨[], [], rfl, fun _ hv => absurd hv List.not_mem_nil⟩

/-- A payload that does not come before the foremost one leaves it the foremost. -/
theorem keep {o : Ordering} (h : Foremost wanted values best) (hv : v.compare best = .ok (some o))
    (hne : o ≠ wanted) : Foremost wanted (values ++ [v]) best where
  unbeaten := List.forall_mem_append.2 ⟨h.unbeaten, List.forall_mem_singleton.2 ⟨o, hv, hne⟩⟩
  first := by
    obtain ⟨before, after, rfl, hbefore⟩ := h.first
    exact ⟨before, after ++ [v], by simp, hbefore⟩

/-- A payload that comes before the foremost one takes its place. -/
theorem replace (hwanted : wanted ≠ .eq) (h : Foremost wanted values best)
    (hv : v.compare best = .ok (some wanted)) : Foremost wanted (values ++ [v]) v := by
  have hbeats : ∀ u ∈ values, Ordered v u wanted := by
    intro u hu
    obtain ⟨o, ho, hne⟩ := h.unbeaten u hu
    exact (compare_eq_ok_some_iff.1 hv).of_beaten hwanted (compare_eq_ok_some_iff.1 ho) hne
  have hswap : wanted.swap ≠ wanted := by cases wanted <;> simp_all
  refine ⟨List.forall_mem_append.2 ⟨fun u hu => ?_, List.forall_mem_singleton.2 ?_⟩, values, [], rfl, fun u hu => ?_⟩
  · exact ⟨_, (hbeats u hu).symm.compare_eq, hswap⟩
  · exact ⟨.eq, (Ordered.refl (compare_eq_ok_some_iff.1 hv).isNull_left).compare_eq, hwanted.symm⟩
  · exact (hbeats u hu).compare_eq

theorem mem (h : Foremost wanted values best) : best ∈ values := by
  obtain ⟨before, after, rfl, -⟩ := h.first
  simp

theorem isNull_eq_false (h : Foremost wanted values best) : best.isNull = false := by
  obtain ⟨o, ho, -⟩ := h.unbeaten best h.mem
  exact (compare_eq_ok_some_iff.1 ho).isNull_left

end Foremost

/-- Taking the better one of two payloads at a time, the foremost one of all is found. -/
theorem exists_foremost_of_foremost {wanted : Ordering} (hwanted : wanted ≠ .eq) (hnull : best.isNull = false)
    (hrest : ∀ v ∈ rest, v.dataType? = best.dataType?) (h : Foremost wanted values best) :
    ∃ best', extreme wanted best rest = .ok best' ∧ Foremost wanted (values ++ rest) best' := by
  unfold extreme
  induction rest generalizing values best with
  | nil => exact ⟨best, rfl, by rwa [List.append_nil]⟩
  | cons v rest ih =>
    obtain ⟨hv, hrest⟩ := List.forall_mem_cons.1 hrest
    have hnullv : v.isNull = false := by rw [isNull_eq, hv, ← isNull_eq, hnull]
    obtain ⟨o, ho⟩ := exists_ordered hv hnullv
    rw [List.foldlM_cons, ho.compare_eq, List.append_cons]
    by_cases heq : o = wanted
    · subst heq
      simp only [Except.bind_of_ok rfl, pure, Except.pure, if_true]
      exact ih hnullv (fun u hu => (hrest u hu).trans hv.symm) (h.replace hwanted ho.compare_eq)
    · simp only [Except.bind_of_ok rfl, pure, Except.pure, Option.some.injEq, heq, if_false]
      exact ih hnull hrest (h.keep ho.compare_eq heq)

/-- What is the least or the greatest of payloads is the first one that is. -/
theorem exists_foremost {wanted : Ordering} (hwanted : wanted ≠ .eq) (hnull : first.isNull = false)
    (hrest : ∀ v ∈ rest, v.dataType? = first.dataType?) :
    ∃ best, extreme wanted first rest = .ok best ∧ Foremost wanted (first :: rest) best :=
  exists_foremost_of_foremost hwanted hnull hrest (.single hwanted hnull)

/-! ## Averages -/

theorem total_cases (count : Nat) (total : Decimal) (values : List Scalar) :
    (∃ d, values.foldlM (addToTotal count) total = .ok d) ∨
      ∃ o, values.foldlM (addToTotal count) total = .error (.overflow o) := by
  induction values generalizing total with
  | nil => exact .inl ⟨total, rfl⟩
  | cons v values ih =>
    rw [List.foldlM_cons, addToTotal]
    cases total.add? (v.toDecimal?.getD Decimal.zero) with
    | none => exact .inr ⟨_, rfl⟩
    | some total => exact ih total

theorem average_cases (values : List Scalar) :
    (∃ d, average values = .ok (.decimal d)) ∨ ∃ o, average values = .error (.overflow o) := by
  unfold average
  rcases total_cases values.length Decimal.zero values with ⟨total, htotal⟩ | ⟨o, ho⟩
  · rw [Except.bind_of_ok htotal]
    cases total.div? (Integer.ofCount values.length).toDecimal with
    | none => exact .inr ⟨_, rfl⟩
    | some d => exact .inl ⟨_, rfl⟩
  · rw [ho]
    exact .inr ⟨o, rfl⟩

/-! ## Laws -/

/-- What the aggregates of payloads are. -/
structure Laws (values : List Scalar) : Prop where
  /-- A count is the number of payloads that are there, as far as 64 bits have room for it. -/
  count : ∃ n, AggregateFn.count.apply values = .ok (.int n) ∧
    ((present values).length < 2 ^ 63 → n.val = (present values).length)
  /-- Every other function gives nothing exactly if no payload is there. -/
  null : ∀ func : AggregateFn, func ≠ .count → (func.apply values = .ok .null ↔ present values = [])
  /-- The kinds of payloads make every other function fail exactly if they do not suit it. -/
  mismatch : ∀ func : AggregateFn, func ≠ .count → present values ≠ [] →
    ((∃ m, func.apply values = .error (.mismatch m)) ↔ ¬Suits func (present values))
  least : present values ≠ [] → Suits .min (present values) →
    ∃ best, AggregateFn.min.apply values = .ok best ∧ Foremost .lt (present values) best
  greatest : present values ≠ [] → Suits .max (present values) →
    ∃ best, AggregateFn.max.apply values = .ok best ∧ Foremost .gt (present values) best
  /-- A sum of integers is their sum if all that they begin with has its sum in range, and out of range
  otherwise. -/
  sum : ∀ is : List Integer, is ≠ [] → present values = is.map .int →
    (AllInRange is → ∃ n, AggregateFn.sum.apply values = .ok (.int n) ∧ n.val = (is.map Integer.val).sum) ∧
    (¬AllInRange is → ∃ o, AggregateFn.sum.apply values = .error (.overflow o))
  /-- Integers that can be summed up in two orders have one sum. -/
  order : ∀ values' total total', (∀ v ∈ values, v.conforms .integer) → values.Perm values' →
    AggregateFn.sum.apply values = .ok total → AggregateFn.sum.apply values' = .ok total' → total = total'

theorem apply_of_none (hpresent : present values = []) (hcount : func ≠ .count) : func.apply values = .ok .null := by
  unfold present at hpresent
  unfold apply
  rw [hpresent]
  cases func with
  | count => exact absurd rfl hcount
  | sum | min | max | avg => rfl

/-- A function of payloads that suit it gives something, or is out of range. -/
theorem fold_cases (hcount : func ≠ .count) (hnull : first.isNull = false) (hsuits : Suits func (first :: rest)) :
    (∃ v, func.fold first rest = .ok v ∧ v.isNull = false) ∨ ∃ o, func.fold first rest = .error (.overflow o) := by
  obtain ⟨hone, hnumeric⟩ := suits_cons_iff.1 hsuits
  cases func with
  | count => exact absurd rfl hcount
  | sum =>
    rcases sumFrom_cases hone (hnumeric (.inl rfl)) with ⟨c, hc, htype⟩ | herror
    · exact .inl ⟨c, hc, by rw [isNull_eq, htype, ← isNull_eq, hnull]⟩
    · exact .inr herror
  | min =>
    obtain ⟨best, hbest, hforemost⟩ := exists_foremost (show Ordering.lt ≠ .eq from nofun) hnull hone
    exact .inl ⟨best, hbest, hforemost.isNull_eq_false⟩
  | max =>
    obtain ⟨best, hbest, hforemost⟩ := exists_foremost (show Ordering.gt ≠ .eq from nofun) hnull hone
    exact .inl ⟨best, hbest, hforemost.isNull_eq_false⟩
  | avg => exact (average_cases (first :: rest)).imp_left fun ⟨d, hd⟩ => ⟨_, hd, rfl⟩

/-- What a function gives for payloads that are there. -/
theorem apply_cases (hpresent : present values ≠ []) (hcount : func ≠ .count) :
    (∃ v, Suits func (present values) ∧ func.apply values = .ok v ∧ v.isNull = false) ∨
      (∃ o, Suits func (present values) ∧ func.apply values = .error (.overflow o)) ∨
      ∃ m, ¬Suits func (present values) ∧ func.apply values = .error (.mismatch m) := by
  obtain ⟨first, rest, heq⟩ := List.exists_cons_of_ne_nil hpresent
  have hnull : first.isNull = false := (mem_present.1 (heq ▸ List.mem_cons_self)).2
  rw [heq]
  rcases apply_of_present heq hcount with ⟨hsuits, happly⟩ | ⟨hsuits, m, herror⟩
  · rw [happly]
    rcases fold_cases hcount hnull hsuits with ⟨v, hv, hnullv⟩ | ⟨o, ho⟩
    · exact .inl ⟨v, hsuits, hv, hnullv⟩
    · exact .inr (.inl ⟨o, hsuits, ho⟩)
  · exact .inr (.inr ⟨m, hsuits, herror⟩)

theorem apply_eq_null_iff (hcount : func ≠ .count) : func.apply values = .ok .null ↔ present values = [] := by
  refine ⟨fun h => ?_, fun h => apply_of_none h hcount⟩
  by_contra hpresent
  rcases apply_cases hpresent hcount with ⟨v, -, hv, hnull⟩ | ⟨o, -, ho⟩ | ⟨m, -, hm⟩
  · cases h.symm.trans hv
    cases hnull
  · cases h.symm.trans ho
  · cases h.symm.trans hm

theorem apply_mismatch_iff (hpresent : present values ≠ []) (hcount : func ≠ .count) :
    (∃ m, func.apply values = .error (.mismatch m)) ↔ ¬Suits func (present values) := by
  rcases apply_cases hpresent hcount with ⟨v, hsuits, hv, -⟩ | ⟨o, hsuits, ho⟩ | ⟨m, hsuits, hm⟩
  · simp [hsuits, hv]
  · simp [hsuits, ho]
  · simp [hsuits, hm]

/-- The least or the greatest of payloads that suit is the foremost one. -/
theorem exists_foremost_of_suits {wanted : Ordering} (hwanted : wanted ≠ .eq) (hcount : func ≠ .count)
    (hfold : ∀ first rest, func.fold first rest = extreme wanted first rest)
    (hpresent : present values ≠ []) (hsuits : Suits func (present values)) :
    ∃ best, func.apply values = .ok best ∧ Foremost wanted (present values) best := by
  obtain ⟨first, rest, heq⟩ := List.exists_cons_of_ne_nil hpresent
  have hnull : first.isNull = false := (mem_present.1 (heq ▸ List.mem_cons_self)).2
  rw [heq] at hsuits ⊢
  rw [((apply_of_present heq hcount).resolve_right fun h => h.1 hsuits).2, hfold]
  exact exists_foremost hwanted hnull (suits_cons_iff.1 hsuits).1

theorem suits_integers (is : List Integer) : Suits func (is.map .int) where
  one := by simp [dataType?]
  numeric := by simp [toDecimal?]

theorem apply_sum_integers {is : List Integer} (hne : is ≠ []) (hpresent : present values = is.map .int) :
    (AllInRange is → ∃ n, AggregateFn.sum.apply values = .ok (.int n) ∧ n.val = (is.map Integer.val).sum) ∧
    (¬AllInRange is → ∃ o, AggregateFn.sum.apply values = .error (.overflow o)) := by
  obtain ⟨i, rest, rfl⟩ := List.exists_cons_of_ne_nil hne
  have hcount : AggregateFn.sum ≠ .count := nofun
  have happly : AggregateFn.sum.apply values = sumFrom (.int i) (rest.map .int) :=
    ((apply_of_present hpresent hcount).resolve_right fun h => h.1 (suits_integers (i :: rest))).2
  rw [happly, allInRange_cons_iff, List.map_cons, List.sum_cons]
  rcases sumFrom_integers i rest with ⟨hparts, hok⟩ | ⟨⟨part, hpart, hout⟩, herror⟩
  · exact ⟨fun _ => hok, fun h => absurd hparts h⟩
  · exact ⟨fun h => absurd (h part hpart) hout, fun _ => herror⟩

/-- Aggregates keep their laws on all payloads. -/
theorem laws (values : List Scalar) : Laws values where
  count := ⟨_, rfl, Integer.val_ofCount⟩
  null func hcount := apply_eq_null_iff hcount
  mismatch func hcount hpresent := apply_mismatch_iff hpresent hcount
  least := exists_foremost_of_suits nofun nofun fun _ _ => rfl
  greatest := exists_foremost_of_suits nofun nofun fun _ _ => rfl
  sum is hne hpresent := apply_sum_integers hne hpresent
  order values' total total' hinteger hperm htotal htotal' := by
    have hsum := sumOf_of_apply hinteger htotal
    have hsum' := sumOf_of_apply (fun v hv => hinteger v (hperm.mem_iff.2 hv)) htotal'
    exact hsum.eq_of_perm hsum' hperm

/-- Of decimals with one value the first one is the least. -/
example (a b : Decimal) (ha : a = ⟨false, 150, 2, by decide, by decide⟩)
    (hb : b = ⟨false, 15, 1, by decide, by decide⟩) :
    AggregateFn.min.apply [.null, .decimal a, .decimal b] = .ok (.decimal a) := by
  subst ha hb
  rfl

end AggregateFn

end Provenance

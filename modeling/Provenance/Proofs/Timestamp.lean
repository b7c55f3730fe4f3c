import Mathlib.Data.List.TakeWhile
import Provenance.Timestamp

/-!
# Points of time read back from their texts

A point of time is read back from its text, whatever sign and length its year has and however fine its part of
a second is. Every part is written in digits: either as many as its reader takes, or with something behind them
that is no digit (`Timestamp.number?_append`). Main statement: `Timestamp.read?_text`.
-/

namespace Provenance

namespace Timestamp

open Text Text.Digits

variable {c : Char} {ds rest : List Char} {count most n : Nat}

/-! ## Rows of digits -/

theorem digits_length (count n : Nat) : (digits count n).length = count := by
  induction count generalizing n with
  | zero => rfl
  | succ count ih => simp [digits, ih]

theorem isDigit_of_mem_digits (h : c ∈ digits count n) : isDigit c = true := by
  induction count generalizing n with
  | zero => cases h
  | succ count ih =>
    rcases List.mem_append.1 h with h | h
    · exact ih h
    · rw [List.mem_singleton.1 h]
      exact isDigit_char (Nat.mod_lt _ (by decide))

/-- A row of digits stands for the number it was written from, if it has room for it. -/
theorem read_digits (h : n < Nat.pow 10 count) : read (digits count n) = n := by
  induction count generalizing n with
  | zero =>
    have hzero : n = 0 := Nat.lt_one_iff.1 h
    rw [hzero]
    rfl
  | succ count ih =>
    have hrest : n / 10 < Nat.pow 10 count := Nat.div_lt_of_lt_mul ((Nat.pow_succ').symm ▸ h)
    rw [digits, read_append, ih hrest, List.foldl_cons, List.foldl_nil, value_char (Nat.mod_lt n (by decide))]
    omega

theorem digits_ne_nil (count n : Nat) : digits (count + 1) n ≠ [] := by
  rw [← List.length_pos_iff, digits_length]
  exact Nat.succ_pos count

theorem read_replicate_append (k : Nat) (ds : List Char) : read (List.replicate k '0' ++ ds) = read ds := by
  induction k with
  | zero => rfl
  | succ k ih => exact ih

theorem isBlank_of_isDigit (h : isDigit c = true) : isBlank c = false := by
  simp only [isDigit, Bool.and_eq_true, decide_eq_true_eq] at h
  simp only [isBlank, Bool.or_eq_false_iff, Bool.and_eq_false_iff, decide_eq_false_iff_not, beq_eq_false_iff_ne]
  omega

/-! ## Parts -/

theorem skipBlank_cons (h : isBlank c = false) : skipBlank (c :: rest) = c :: rest :=
  List.dropWhile_cons_of_neg (by rw [h]; exact Bool.false_ne_true)

theorem skipBlank_append (hne : ds ≠ []) (hds : ∀ c ∈ ds, isDigit c = true) :
    skipBlank (ds ++ rest) = ds ++ rest := by
  obtain ⟨c, cs, rfl⟩ := List.exists_cons_of_ne_nil hne
  exact skipBlank_cons (isBlank_of_isDigit (hds c List.mem_cons_self))

theorem takeWhile_isDigit_append (hds : ∀ c ∈ ds, isDigit c = true) :
    (ds ++ rest).takeWhile isDigit = ds ++ rest.takeWhile isDigit :=
  List.takeWhile_append_of_pos hds

/-- A number is read from its digits if its reader takes no more of them, or what follows is no digit. -/
theorem number?_append (hne : ds ≠ []) (hds : ∀ c ∈ ds, isDigit c = true) (hle : ds.length ≤ most)
    (hrest : (rest.take (most - ds.length)).takeWhile isDigit = []) :
    number? most (ds ++ rest) = some (read ds, rest) := by
  have htaken : ((ds ++ rest).take most).takeWhile isDigit = ds := by
    rw [List.take_append, List.take_of_length_le hle, takeWhile_isDigit_append hds, hrest, List.append_nil]
  unfold number?
  dsimp only
  rw [htaken, if_neg hne, List.drop_left]

theorem pair?_digits (h : n < 100) (rest : List Char) : pair? (digits 2 n ++ rest) = some (n, rest) := by
  have hds : ∀ c ∈ digits 2 n, isDigit c = true := fun _ => isDigit_of_mem_digits
  have hlength := digits_length 2 n
  rw [pair?, skipBlank_append (digits_ne_nil 1 n) hds, number?_append (digits_ne_nil 1 n) hds hlength.le,
    read_digits h]
  rw [hlength]
  rfl

theorem mark?_cons (h : isBlank c = false) (rest : List Char) : mark? c (c :: rest) = some rest := by
  rw [mark?, skipBlank_cons h]
  exact if_pos rfl

/-- Four digits without a sign are a year. -/
theorem year?_digits (hds : ∀ c ∈ ds, isDigit c = true) (hlength : ds.length = 4) (rest : List Char) :
    year? (ds ++ '-' :: rest) = some ((read ds : Int), '-' :: rest) := by
  have hne : ds ≠ [] := List.ne_nil_of_length_pos (hlength ▸ Nat.succ_pos 3)
  have hnumber : number? 4 (ds ++ '-' :: rest) = some (read ds, '-' :: rest) :=
    number?_append hne hds hlength.le (by rw [hlength]; rfl)
  unfold year?
  rw [skipBlank_append hne hds]
  obtain ⟨c, cs, rfl⟩ := List.exists_cons_of_ne_nil hne
  have hc := hds c List.mem_cons_self
  split
  · next heq =>
    cases (List.cons.inj heq).1
    cases hc
  · next heq =>
    cases (List.cons.inj heq).1
    cases hc
  · rw [hnumber, Option.map_some]

theorem year?_minus (cs : List Char) :
    year? ('-' :: cs) = (number? cs.length cs).map fun r => (-(r.1 : Int), r.2) := rfl

theorem year?_plus (cs : List Char) :
    year? ('+' :: cs) = (number? cs.length cs).map fun r => ((r.1 : Int), r.2) := rfl

/-- Where a sign stands in front, all digits of a year are read. -/
theorem number?_length (hne : ds ≠ []) (hds : ∀ c ∈ ds, isDigit c = true) (rest : List Char) :
    number? (ds ++ '-' :: rest).length (ds ++ '-' :: rest) = some (read ds, '-' :: rest) := by
  refine number?_append hne hds (by simp) ?_
  cases (ds ++ '-' :: rest).length - ds.length <;> rfl

theorem year?_yearChars (year : Int) (rest : List Char) :
    year? (yearChars year ++ '-' :: rest) = some (year, '-' :: rest) := by
  unfold yearChars
  split
  · next hyear =>
    rw [year?_digits (fun _ => isDigit_of_mem_digits) (digits_length 4 _), read_digits]
    · congr 2
      omega
    · exact Nat.lt_of_le_of_lt (by omega : year.natAbs ≤ 9999) (by decide)
  · dsimp only
    generalize hds : List.replicate (4 - (write year.natAbs).length) '0' ++ write year.natAbs = ds
    have hall : ∀ c ∈ ds, isDigit c = true := by
      rw [← hds]
      intro c hc
      rcases List.mem_append.1 hc with hc | hc
      · rw [List.eq_of_mem_replicate hc]
        rfl
      · exact isDigit_of_mem_write c hc
    have hne : ds ≠ [] := hds ▸ List.append_ne_nil_of_right_ne_nil _ (write_ne_nil _)
    have hread : read ds = year.natAbs := by rw [← hds, read_replicate_append, read_write]
    by_cases hsign : year < 0
    · rw [if_pos hsign, List.cons_append, year?_minus, number?_length hne hall, hread, Option.map_some]
      congr 2
      omega
    · rw [if_neg hsign, List.cons_append, year?_plus, number?_length hne hall, hread, Option.map_some]
      congr 2
      omega

theorem fraction?_digits (hcount : count + 1 ≤ 9) (h : n < Nat.pow 10 (count + 1)) :
    fraction? ('.' :: (digits (count + 1) n ++ ['Z'])) =
      some (n * Nat.pow 10 (9 - (count + 1)), ['Z']) := by
  have htaken : (digits (count + 1) n ++ ['Z']).takeWhile isDigit = digits (count + 1) n := by
    rw [takeWhile_isDigit_append fun _ => isDigit_of_mem_digits, show ['Z'].takeWhile isDigit = [] from rfl,
      List.append_nil]
  have hlength := digits_length (count + 1) n
  rw [fraction?]
  dsimp only
  rw [htaken, if_neg (digits_ne_nil count n), List.take_of_length_le (by omega), read_digits h, hlength,
    List.drop_left' hlength]

/-- The part of a second is read back, in however many digits it is written. -/
theorem fraction?_fractionChars (h : n < 1000000000) :
    fraction? (fractionChars n ++ ['Z']) = some (n, ['Z']) := by
  unfold fractionChars
  split_ifs with hzero hmillis hmicros
  · rw [hzero]
    rfl
  · rw [List.cons_append, fraction?_digits (by decide) (Nat.div_lt_of_lt_mul h)]
    congr 2
    exact Nat.div_mul_cancel (Nat.dvd_of_mod_eq_zero hmillis)
  · rw [List.cons_append, fraction?_digits (by decide) (Nat.div_lt_of_lt_mul h)]
    congr 2
    exact Nat.div_mul_cancel (Nat.dvd_of_mod_eq_zero hmicros)
  · rw [List.cons_append, fraction?_digits (by decide) h]
    congr 2
    exact Nat.mul_one n

/-! ## Points of time -/

theorem make?_parts (t : Timestamp) :
    make? t.year t.month t.day t.hour t.minute t.second t.nanos = some t :=
  dif_pos ⟨t.isDate, t.hour_lt, t.minute_lt, t.second_le, t.nanos_lt⟩

/-- A clock at Greenwich shows the time. -/
theorem atOffset?_zero (t : Timestamp) : t.atOffset? 0 = some t := by
  have hhour := t.hour_lt
  have hminute := t.minute_lt
  have hofDay : ((60 * (t.hour : Int) + t.minute - 0) % 1440).toNat = 60 * t.hour + t.minute := by omega
  unfold atOffset?
  dsimp only
  rw [if_neg (by omega), if_neg (by omega), hofDay, show (60 * t.hour + t.minute) / 60 = t.hour by omega,
    show (60 * t.hour + t.minute) % 60 = t.minute by omega]
  exact t.make?_parts

theorem month_day_lt {year : Int} {month day : Nat} (h : Calendar.isDate year month day = true) :
    month < 100 ∧ day < 100 := by
  simp only [Calendar.isDate, Bool.and_eq_true, decide_eq_true_eq] at h
  have hdays : Calendar.daysOf year month ≤ 31 := by
    unfold Calendar.daysOf
    split_ifs <;> decide
  omega

theorem readChars?_chars (t : Timestamp) : readChars? t.chars = some t := by
  obtain ⟨hmonth, hday⟩ := month_day_lt t.isDate
  have hhour : t.hour < 100 := Nat.lt_trans t.hour_lt (by decide)
  have hminute : t.minute < 100 := Nat.lt_trans t.minute_lt (by decide)
  have hsecond : t.second < 100 := Nat.lt_of_le_of_lt t.second_le (by decide)
  -- Each step gives what one part is read as; the `T` between date and time is compared, not read.
  refine Option.bind_eq_some_iff.2 ⟨_, year?_yearChars t.year _, ?_⟩
  refine Option.bind_eq_some_iff.2 ⟨_, mark?_cons rfl _, ?_⟩
  refine Option.bind_eq_some_iff.2 ⟨_, pair?_digits hmonth _, ?_⟩
  refine Option.bind_eq_some_iff.2 ⟨_, mark?_cons rfl _, ?_⟩
  refine Option.bind_eq_some_iff.2 ⟨_, pair?_digits hday _, ?_⟩
  refine Option.bind_eq_some_iff.2 ⟨_, pair?_digits hhour _, ?_⟩
  refine Option.bind_eq_some_iff.2 ⟨_, mark?_cons rfl _, ?_⟩
  refine Option.bind_eq_some_iff.2 ⟨_, pair?_digits hminute _, ?_⟩
  refine Option.bind_eq_some_iff.2 ⟨_, mark?_cons rfl _, ?_⟩
  refine Option.bind_eq_some_iff.2 ⟨_, pair?_digits hsecond _, ?_⟩
  refine Option.bind_eq_some_iff.2 ⟨_, fraction?_fractionChars t.nanos_lt, ?_⟩
  refine Option.bind_eq_some_iff.2 ⟨_, rfl, ?_⟩
  refine Option.bind_eq_some_iff.2 ⟨_, t.make?_parts, ?_⟩
  exact t.atOffset?_zero

/-- A point of time is read back from its text. -/
theorem read?_text (t : Timestamp) : read? t.text = some t := by
  rw [read?, text, String.toList_ofList, readChars?_chars]

end Timestamp

end Provenance

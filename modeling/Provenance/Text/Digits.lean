/-!
# Numerals

Natural numbers written with decimal digits, and with a fixed count of hexadecimal digits, and read
back. Main statements: `read_write`, `writeHex_length`, `readHex?_writeHex`.
-/

namespace Provenance.Text

namespace Digits

/-- The character of a digit below sixteen, letters in lower case. -/
def char (d : Nat) : Char :=
  if d < 10 then Char.ofNat (48 + d) else Char.ofNat (87 + d)

/-- The value of a decimal digit. -/
def value (c : Char) : Nat := c.toNat - 48

/-- Whether a character is one of the ten decimal digits. -/
def isDigit (c : Char) : Bool := 48 ≤ c.toNat && c.toNat ≤ 57

/-- The decimal numeral of a number, without leading zeros. -/
def write (n : Nat) : List Char :=
  if n < 10 then [char n] else write (n / 10) ++ [char (n % 10)]

/-- The number that a row of decimal digits stands for. -/
def read (digits : List Char) : Nat :=
  digits.foldl (fun n c => 10 * n + value c) 0

/-- The number that a row of decimal digits stands for, a plus sign in front of it allowed, if it is below
2 ^ 64. -/
def readCount? (cs : List Char) : Option Nat :=
  let digits := if cs.head? = some '+' then cs.drop 1 else cs
  if digits ≠ [] ∧ digits.all isDigit ∧ read digits < 1 <<< 64 then some (read digits) else none

/-- The decimal numeral of a number as a text. -/
def text (n : Nat) : String := String.ofList (write n)

/-- The decimal numeral of an integer as a text. -/
def intText (n : Int) : String :=
  if n < 0 then "-" ++ text n.natAbs else text n.natAbs

/-- The value of a hexadecimal digit in either case. -/
def hexValue? (c : Char) : Option Nat :=
  if 48 ≤ c.toNat ∧ c.toNat ≤ 57 then some (c.toNat - 48)
  else if 97 ≤ c.toNat ∧ c.toNat ≤ 102 then some (c.toNat - 87)
  else if 65 ≤ c.toNat ∧ c.toNat ≤ 70 then some (c.toNat - 55)
  else none

/-- The last `count` hexadecimal digits of a number, leading zeros included. -/
def writeHex : Nat → Nat → List Char
  | 0, _ => []
  | count + 1, n => writeHex count (n / 16) ++ [char (n % 16)]

/-- The number that a row of hexadecimal digits stands for. -/
def readHex? (digits : List Char) : Option Nat :=
  digits.foldlM (fun n c => (hexValue? c).map (16 * n + ·)) 0

/-- The hexadecimal numeral of a number, without leading zeros. -/
def hex (n : Nat) : List Char :=
  if n < 16 then [char n] else hex (n / 16) ++ [char (n % 16)]

/-! ## Laws -/

theorem char_toNat {d : Nat} (h : d < 10) : (char d).toNat = 48 + d := by
  have : ∀ d < 10, (char d).toNat = 48 + d := by decide
  exact this d h

theorem value_char {d : Nat} (h : d < 10) : value (char d) = d := by
  rw [value, char_toNat h]; omega

theorem isDigit_char {d : Nat} (h : d < 10) : isDigit (char d) = true := by
  simp only [isDigit, char_toNat h, Bool.and_eq_true, decide_eq_true_eq]; omega

theorem isDigit_of_mem_write {n : Nat} : ∀ c ∈ write n, isDigit c = true := by
  induction n using write.induct with
  | case1 n h =>
    intro c hc
    rw [write, if_pos h] at hc
    rw [List.mem_singleton.1 hc]
    exact isDigit_char h
  | case2 n h ih =>
    intro c hc
    rw [write, if_neg h] at hc
    rcases List.mem_append.1 hc with hc | hc
    · exact ih c hc
    · rw [List.mem_singleton.1 hc]
      exact isDigit_char (Nat.mod_lt _ (by decide))

theorem write_ne_nil (n : Nat) : write n ≠ [] := by
  rw [write]; split <;> simp

theorem read_append (front back : List Char) :
    read (front ++ back) = back.foldl (fun n c => 10 * n + value c) (read front) := by
  simp [read, List.foldl_append]

/-- A numeral stands for the number it was written from. -/
theorem read_write (n : Nat) : read (write n) = n := by
  induction n using write.induct with
  | case1 n h => rw [write, if_pos h]; simp [read, value_char h]
  | case2 n h ih =>
    rw [write, if_neg h, read_append, ih]
    simp only [List.foldl_cons, List.foldl_nil, value_char (Nat.mod_lt n (by decide : 0 < 10))]
    omega

theorem hexValue?_char {d : Nat} (h : d < 16) : hexValue? (char d) = some d := by
  have : ∀ d < 16, hexValue? (char d) = some d := by decide
  exact this d h

theorem writeHex_length (count n : Nat) : (writeHex count n).length = count := by
  induction count generalizing n with
  | zero => rfl
  | succ count ih => simp [writeHex, ih]

theorem readHex?_writeHex_mod (count n : Nat) : readHex? (writeHex count n) = some (n % Nat.pow 16 count) := by
  induction count generalizing n with
  | zero => simp [writeHex, readHex?, Nat.mod_one]
  | succ count ih =>
    have h := ih (n / 16)
    rw [readHex?] at h
    rw [writeHex, readHex?, List.foldlM_append, h]
    simp only [Option.bind_eq_bind, Option.bind_some, List.foldlM_cons, List.foldlM_nil,
      hexValue?_char (Nat.mod_lt n (by decide : 0 < 16)), Option.map_some]
    have := Nat.mod_mul (x := n) (a := 16) (b := Nat.pow 16 count)
    rw [show Nat.pow 16 (count + 1) = 16 * Nat.pow 16 count from Nat.pow_succ'.trans rfl, this]
    simp [Nat.add_comm]

/-- A row of hexadecimal digits stands for the number it was written from, if it has room for it. -/
theorem readHex?_writeHex {count n : Nat} (h : n < Nat.pow 16 count) :
    readHex? (writeHex count n) = some n := by
  rw [readHex?_writeHex_mod, Nat.mod_eq_of_lt h]

end Digits

end Provenance.Text

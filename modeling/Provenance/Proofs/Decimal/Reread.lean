import Provenance.Decimal.Text

/-!
# Decimals read back from their texts

The text of a decimal has all of its digits and its point, so it is read back with its scale. Only the sign of
a zero is lost. Main statement: `Decimal.read?_text`.
-/

namespace Provenance.Decimal

open Text.Digits

variable {negative point started : Bool} {coefficient scale : Nat} {digits rest : List Char} {d : Decimal}

theorem le_foldl_digits (digits : List Char) (n : Nat) :
    n ≤ digits.foldl (fun n c => 10 * n + value c) n := by
  induction digits generalizing n with
  | nil => exact Nat.le_refl n
  | cons c digits ih => exact Nat.le_trans (by omega) (ih (10 * n + value c))

/-- A digit there is room for. -/
theorem readDigits?_digit {c : Char} (hc : isDigit c = true) (hlt : 10 * coefficient + value c < 1 <<< 96)
    (hscale : point = true → scale < 28) :
    readDigits? negative point started coefficient scale (c :: rest) =
      readDigits? negative point true (10 * coefficient + value c) (if point then scale + 1 else scale)
        rest := by
  rw [readDigits?, if_neg fun h => absurd (hscale h.1) (by omega), if_pos hc]
  dsimp only
  rw [Nat.mul_comm coefficient, if_pos hlt]

/-- Digits that there is room for. -/
theorem readDigits?_append (hdigits : ∀ c ∈ digits, isDigit c = true)
    (hlt : digits.foldl (fun n c => 10 * n + value c) coefficient < 1 <<< 96)
    (hscale : point = true → scale + digits.length ≤ 28) :
    readDigits? negative point started coefficient scale (digits ++ rest) =
      readDigits? negative point (started || !digits.isEmpty)
        (digits.foldl (fun n c => 10 * n + value c) coefficient)
        (if point then scale + digits.length else scale) rest := by
  induction digits generalizing started coefficient scale with
  | nil =>
    cases started <;> cases point <;> rfl
  | cons c digits ih =>
    obtain ⟨hc, hdigits⟩ := List.forall_mem_cons.1 hdigits
    rw [List.foldl_cons] at hlt
    rw [List.cons_append, readDigits?_digit hc (Nat.lt_of_le_of_lt (le_foldl_digits _ _) hlt)]
    · rw [ih hdigits hlt]
      · cases point <;> simp [Nat.add_assoc, Nat.add_comm 1]
      · rintro rfl
        have := hscale rfl
        rw [List.length_cons] at this
        rw [if_pos rfl]
        omega
    · intro hpoint
      have := hscale hpoint
      rw [List.length_cons] at this
      omega

theorem readDigits?_whole (hne : digits ≠ []) (hdigits : ∀ c ∈ digits, isDigit c = true)
    (hlt : read digits < 1 <<< 96) :
    readDigits? negative false false 0 0 digits = unsigned? negative (read digits) 0 := by
  have happend : readDigits? negative false false 0 0 (digits ++ []) = _ :=
    readDigits?_append hdigits hlt fun h => absurd h Bool.false_ne_true
  rw [List.append_nil] at happend
  rw [happend]
  cases digits with
  | nil => exact absurd rfl hne
  | cons c digits => rfl

theorem readDigits?_pointed {front back : List Char} (hne : front ≠ [])
    (hdigits : ∀ c ∈ front ++ back, isDigit c = true) (hlt : read (front ++ back) < 1 <<< 96)
    (hscale : back.length ≤ 28) :
    readDigits? negative false false 0 0 (front ++ '.' :: back) =
      unsigned? negative (read (front ++ back)) back.length := by
  obtain ⟨hfront, hback⟩ := List.forall_mem_append.1 hdigits
  rw [read_append] at hlt ⊢
  rw [readDigits?_append hfront (Nat.lt_of_le_of_lt (le_foldl_digits _ _) hlt)
    fun h => absurd h Bool.false_ne_true]
  cases front with
  | nil => exact absurd rfl hne
  | cons c front =>
    have happend : readDigits? negative true true (read (c :: front)) 0 (back ++ []) = _ :=
      readDigits?_append hback hlt fun _ => by omega
    rw [List.append_nil, if_pos rfl, Nat.zero_add] at happend
    exact happend

/-! ## Texts -/

theorem unsigned?_parts (d : Decimal) : unsigned? d.negative d.coefficient d.scale = some d.unsignZero := by
  rw [unsigned?, make?, dif_pos ⟨d.coefficient_lt, d.scale_le⟩]
  rfl

theorem read_replicate_append (count : Nat) (digits : List Char) :
    read (List.replicate count '0' ++ digits) = read digits := by
  induction count with
  | zero => rfl
  | succ count ih => exact ih

/-- The digits of a magnitude are read back, with the point among them. -/
theorem readDigits?_magnitude (d : Decimal) :
    readDigits? d.negative false false 0 0 (magnitude d.coefficient d.scale) = some d.unsignZero := by
  have hlt := d.coefficient_lt
  have hdigits := isDigit_of_mem_write (n := d.coefficient)
  rw [← unsigned?_parts]
  unfold magnitude
  by_cases hscale : d.scale = 0
  · rw [if_pos hscale, readDigits?_whole (write_ne_nil _) hdigits ((read_write _).symm ▸ hlt), read_write,
      hscale]
  · rw [if_neg hscale]
    dsimp only
    have hread := (read_replicate_append (d.scale + 1 - (write d.coefficient).length) _).trans
      (read_write d.coefficient)
    have hall : ∀ c ∈ List.replicate (d.scale + 1 - (write d.coefficient).length) '0' ++
        write d.coefficient, isDigit c = true :=
      List.forall_mem_append.2 ⟨fun c hc => (List.mem_replicate.1 hc).2 ▸ rfl, hdigits⟩
    have hlength : d.scale < (List.replicate (d.scale + 1 - (write d.coefficient).length) '0' ++
        write d.coefficient).length := by
      rw [List.length_append, List.length_replicate]
      omega
    generalize List.replicate _ '0' ++ write d.coefficient = padded at hread hall hlength
    have hback : (padded.drop (padded.length - d.scale)).length = d.scale := by
      rw [List.length_drop]
      omega
    have hsplit := List.take_append_drop (padded.length - d.scale) padded
    rw [readDigits?_pointed, hsplit, hread, hback]
    · intro hnil
      have hnil := congrArg List.length hnil
      rw [List.length_take, List.length_nil] at hnil
      omega
    · rwa [hsplit]
    · rwa [hsplit, hread]
    · rw [hback]
      exact d.scale_le

theorem readPlain?_chars (d : Decimal) : readPlain? d.chars = some d.unsignZero := by
  unfold chars
  have hmagnitude := readDigits?_magnitude d
  cases hnegative : d.negative with
  | true =>
    rw [hnegative] at hmagnitude
    exact hmagnitude
  | false =>
    rw [hnegative] at hmagnitude
    rw [if_neg Bool.false_ne_true, ← hmagnitude]
    generalize magnitude d.coefficient d.scale = text at hmagnitude
    -- No sign is read inside of a numeral, so the text has none in front.
    unfold readPlain?
    split
    · cases hmagnitude
    · cases hmagnitude
    · rfl

/-- A decimal is read back from its text, but zero without its sign. -/
theorem read?_text (d : Decimal) : read? d.text = some d.unsignZero := by
  rw [read?, text, String.toList_ofList, readPlain?_chars]
  rfl

end Provenance.Decimal

import Provenance.Text.Digits

/-!
# Identifiers

Trails, snapshots of a schema and everything in them are known by identifiers of 128 bits, written as 32
hexadecimal digits in five groups. Main statement: an identifier is read back from its text
(`read?_text`).
-/

namespace Provenance

/-- The identity of a trail, a snapshot or an entity. -/
structure Id where
  number : Nat
  deriving DecidableEq, Hashable

namespace Id

instance : Inhabited Id := ⟨⟨0⟩⟩

/-- The order of identifiers. -/
def le (a b : Id) : Bool := a.number ≤ b.number

/-- Digits in groups of 8, 4, 4, 4 and 12. -/
def group (digits : List Char) : List Char :=
  digits.take 8 ++ '-' :: ((digits.drop 8).take 4 ++ '-' :: ((digits.drop 12).take 4 ++
    '-' :: ((digits.drop 16).take 4 ++ '-' :: digits.drop 20)))

/-- The text as a list of characters. -/
def chars (id : Id) : List Char := group (Text.Digits.writeHex 32 id.number)

/-- The text of an identifier. -/
def text (id : Id) : String := String.ofList id.chars

/-- The digits of a text in five groups, if its dashes are where they belong. -/
def ungroup? (cs : List Char) : Option (List Char) :=
  if cs.length = 36 ∧ cs[8]? = some '-' ∧ cs[13]? = some '-' ∧ cs[18]? = some '-' ∧ cs[23]? = some '-'
  then
    some (cs.take 8 ++ ((cs.drop 9).take 4 ++ ((cs.drop 14).take 4 ++ ((cs.drop 19).take 4 ++
      cs.drop 24))))
  else none

/-- The identifier that 32 digits stand for. -/
def ofDigits? (digits : List Char) : Option Id :=
  if digits.length = 32 then (Text.Digits.readHex? digits).map Id.mk else none

/-- A text without the name of the space that identifiers may be quoted with. -/
def dropSpace? (cs : List Char) : Option (List Char) :=
  if (cs.take 9).map Char.toLower = ['u', 'r', 'n', ':', 'u', 'u', 'i', 'd', ':'] then some (cs.drop 9)
  else none

/-- The identifier that a text stands for: digits, digits in groups, or digits in groups between braces
or after the name of their space. -/
def readChars? (cs : List Char) : Option Id :=
  if cs.length = 32 then ofDigits? cs
  else if cs.length = 36 then do ofDigits? (← ungroup? cs)
  else if cs.length = 38 ∧ cs.head? = some '{' ∧ cs.getLast? = some '}' then do
    ofDigits? (← ungroup? ((cs.drop 1).take 36))
  else do ofDigits? (← ungroup? (← dropSpace? cs))

/-- The identifier that a text stands for. -/
def read? (text : String) : Option Id := readChars? text.toList

/-! ## Laws -/

theorem ungroup?_group {digits : List Char} (h : digits.length = 32) :
    ungroup? (group digits) = some digits := by
  match digits, h with
  | [d0, d1, d2, d3, d4, d5, d6, d7, d8, d9, d10, d11, d12, d13, d14, d15, d16, d17, d18, d19, d20, d21,
      d22, d23, d24, d25, d26, d27, d28, d29, d30, d31], _ => rfl

theorem group_length {digits : List Char} (h : digits.length = 32) : (group digits).length = 36 := by
  match digits, h with
  | [d0, d1, d2, d3, d4, d5, d6, d7, d8, d9, d10, d11, d12, d13, d14, d15, d16, d17, d18, d19, d20, d21,
      d22, d23, d24, d25, d26, d27, d28, d29, d30, d31], _ => rfl

theorem readChars?_group {digits : List Char} (h : digits.length = 32) :
    readChars? (group digits) = ofDigits? digits := by
  have hlen := group_length h
  rw [readChars?, if_neg (by omega), if_pos hlen, ungroup?_group h]
  rfl

/-- An identifier of 128 bits is read back from its text. -/
theorem read?_text {id : Id} (h : id.number < 1 <<< 128) : read? id.text = some id := by
  have hlen := Text.Digits.writeHex_length 32 id.number
  rw [read?, text, chars, String.toList_ofList, readChars?_group hlen, ofDigits?, if_pos hlen,
    Text.Digits.readHex?_writeHex (Nat.lt_of_lt_of_eq h (by decide)), Option.map_some]

end Id

end Provenance

import Provenance.Proofs.Schema.Reread

/-!
# What a canonical text says of its schema

Schemas with one canonical text are equal, and the text is read back as an equal schema. It is the same schema
if no decimal in it is a zero with a minus sign. A document can have such a zero: a decimal with an exponent may
be rounded to it. Then the fingerprint changes when the canonical text is read. Main statement:
`Schema.ofJson_canonical`.
-/

namespace Provenance

/-! ## Bytes of a text -/

theorem toList_loop_eq (bytes : ByteArray) (i : Nat) (before : List UInt8) :
    ByteArray.toList.loop bytes i before = before.reverse ++ bytes.data.toList.drop i := by
  fun_induction ByteArray.toList.loop bytes i before with
  | case1 i before h ih =>
    have hlt : i < bytes.data.toList.length := h
    have hget : bytes.get! i = bytes.data.toList[i] := by
      simp [ByteArray.get!, getElem!_pos, h]
    rw [ih, List.reverse_cons, List.append_assoc, List.drop_eq_getElem_cons hlt, hget]
    rfl
  | case2 i before h =>
    have hle : bytes.data.toList.length ≤ i := Nat.le_of_not_lt h
    rw [List.drop_eq_nil_of_le hle, List.append_nil]

theorem toList_toUTF8_ofList (cs : List Char) :
    (String.ofList cs).toUTF8.toList = cs.flatMap String.utf8EncodeChar := by
  unfold ByteArray.toList
  rw [toList_loop_eq]
  change (cs.flatMap String.utf8EncodeChar).toByteArray.data.toList = _
  rw [List.data_toByteArray]

/-! ## Canonical texts -/

namespace Schema

/-- A canonical text that nests within the limit of documents is read back as an equal schema, so schemas with
one canonical text are equal. The schema that is read is the same, and compiled with the same fingerprint, if no
zero in it has a minus sign. -/
theorem ofJson_canonical (s : Schema) (h : s.encode.nesting ≤ Json.depthLimit) :
    ∃ read, ofJson s.canonical = .ok read ∧ s.Equal read ∧
      (∀ s', s'.encode.nesting ≤ Json.depthLimit → s.canonical = s'.canonical → s.Equal s') ∧
      ((∀ d, .decimal d ∈ s.literals → d.isZero → d.negative = false) → read = s ∧
        ∀ first c, s.compile first = .ok c →
          ∃ c', read.compile first = .ok c' ∧ c'.fingerprint = c.fingerprint) := by
  refine ⟨s.unsigned, ofJson_canonical_eq h, s.equal_unsigned, fun s' h' heq => ?_, fun hzero => ?_⟩
  · have hread := ofJson_canonical_eq h
    rw [heq, ofJson_canonical_eq h'] at hread
    exact equal_of_unsigned_eq (Except.ok.inj hread).symm
  · have hsame : s.unsigned = s := mapLiterals_eq_self fun v hv => by
      cases v with
      | decimal d => exact congrArg Scalar.decimal (Decimal.unsignZero_eq_self (hzero d hv))
      | _ => rfl
    rw [hsame]
    exact ⟨rfl, fun first c hc => ⟨c, hc, rfl⟩⟩

end Schema

namespace Sample

/-- Tariffs in two regions, the lower ones of which are kept. -/
def tariffs : Schema where
  name := "tariffs"
  tables := [⟨"tariff", [⟨"region", .text⟩, ⟨"rate", .decimal⟩]⟩]
  hierarchies := [⟨"regions", [⟨"world", "north"⟩]⟩]
  derived := [⟨"low", some "of a \"kind\"", .filter "tariff"
      (.binary .and (.member "regions" "world" (.column ⟨"tariff", "region"⟩))
        (.binary .lt (.column ⟨"tariff", "rate"⟩) (.literal (.decimal ⟨true, 150, 2, by decide, by decide⟩)))),
    [⟨"rate", none, "expr", .call "coalesce" [.column ⟨"tariff", "rate"⟩, .literal .null]⟩]⟩]

theorem ofJson_canonical_tariffs :
    tariffs.encode.nesting ≤ Json.depthLimit ∧
    (∀ d, .decimal d ∈ tariffs.literals → d.isZero → d.negative = false) ∧
    Schema.ofJson tariffs.canonical = .ok tariffs := by
  have hnesting : tariffs.encode.nesting ≤ Json.depthLimit := by decide
  have hzero : ∀ d, .decimal d ∈ tariffs.literals → d.isZero → d.negative = false := by
    intro d hd hzero
    have hd : Scalar.decimal d ∈ [.decimal ⟨true, 150, 2, by decide, by decide⟩, .null] := hd
    simp only [List.mem_cons, Scalar.decimal.injEq, reduceCtorEq, List.not_mem_nil, or_false] at hd
    rw [hd] at hzero
    exact absurd hzero (by decide)
  obtain ⟨read, hread, -, -, hsame⟩ := tariffs.ofJson_canonical hnesting
  rw [(hsame hzero).1] at hread
  exact ⟨hnesting, hzero, hread⟩

/-- A table whose only column holds a zero with all the digits that a decimal may have. -/
def zeroes (negative : Bool) : Schema where
  name := "zero"
  tables := [⟨"t", [⟨"c", .text⟩]⟩]
  hierarchies := []
  derived := [⟨"d", none, .enrichment "t",
    [⟨"x", none, "expr", .literal (.decimal
      ⟨negative, 0, 28, Decimal.zero.coefficient_lt, Nat.le_refl Decimal.maxScale⟩)⟩]⟩]

/-- A document of the schema with the negative zero: its decimal is rounded to no more digits than there may
be. -/
def zeroDocument : Json :=
  .object [("name", .text "zero"),
    ("tables", .array [.object [("name", .text "t"),
      ("fields", .array [.object [("name", .text "c"), ("type", .text "text")]])]]),
    ("derived_tables", .array [.object [("name", .text "d"),
      ("creation", .object [("approach", .text "enrichment"), ("source", .text "t")]),
      ("columns", .array [.object [("name", .text "x"),
        ("expr", .object [("literal", .object [("decimal", .text "-0.1e-28")])])]])]])]

theorem ofJson_zeroDocument : Schema.ofJson zeroDocument.compact = .ok (zeroes true) := by
  have hplain : zeroDocument.Plain := by simp [zeroDocument]
  rw [Schema.ofJson, Schema.ofJsonText?, hplain.parse?_compact]
  rfl

theorem fingerprint_zeroes : (zeroes true).fingerprint ≠ (zeroes false).fingerprint := by
  unfold Schema.fingerprint Schema.canonical Json.compact Sha256.hexDigest
  simp only [toList_toUTF8_ofList]
  decide +kernel

/-- The fingerprint of an accepted document is not that of the canonical text of its schema. -/
theorem fingerprint_reread_ne :
    Schema.ofJson zeroDocument.compact = .ok (zeroes true) ∧
    (zeroes true).encode.nesting ≤ Json.depthLimit ∧
    Schema.ofJson (zeroes true).canonical = .ok (zeroes false) ∧
    ∃ c c', (zeroes true).compile 0 = .ok c ∧ (zeroes false).compile 0 = .ok c' ∧
      c'.fingerprint ≠ c.fingerprint := by
  have hnesting : (zeroes true).encode.nesting ≤ Json.depthLimit := by decide
  exact ⟨ofJson_zeroDocument, hnesting, Schema.ofJson_canonical_eq hnesting, _, _, rfl, rfl,
    fingerprint_zeroes.symm⟩

end Sample

end Provenance

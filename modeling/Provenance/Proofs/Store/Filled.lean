import Mathlib.Data.List.Sigma
import Provenance.Initialization.Populate
import Provenance.Proofs.Distinct

/-!
# Tables filled from payloads

A table and the payloads of its rows determine everything that is materialized of it: the rows and values
have the identities after that of the table, each row followed by its values (`Extent.filled`). No two of
them share an identity (`Extent.nodup_ids_filled`), and all stand below the end of the table's identities.
-/

namespace Provenance

/-! ## Identities of a draft -/

namespace Draft

variable {first width n n' k k' : Nat}

/-- Places of a table are told apart by their distance from its first row. -/
private theorem place_inj (hk : k ≤ width) (hk' : k' ≤ width)
    (h : n * (width + 1) + k = n' * (width + 1) + k') : n = n' ∧ k = k' := by
  have hn : n = n' := by
    have hdiv := congrArg (· / (width + 1)) h
    simpa [Nat.mul_comm _ (width + 1), Nat.mul_add_div, Nat.div_eq_of_lt (Nat.lt_succ_of_le hk),
      Nat.div_eq_of_lt (Nat.lt_succ_of_le hk')] using hdiv
  subst hn
  exact ⟨rfl, Nat.add_left_cancel h⟩

theorem place_lt {count : Nat} (hn : n < count) (hk : k ≤ width) :
    n * (width + 1) + k < count * (width + 1) := by
  have h := Nat.mul_le_mul_right (width + 1) (Nat.succ_le_of_lt hn)
  rw [Nat.succ_mul] at h
  omega

theorem rowId_inj (h : rowId first width n = rowId first width n') : n = n' := by
  have h := congrArg Id.number h
  simp only [rowId] at h
  exact (place_inj (Nat.zero_le width) (Nat.zero_le width) (by omega)).1

theorem valueId_inj (hk : k < width) (hk' : k' < width)
    (h : valueId first width n k = valueId first width n' k') : n = n' ∧ k = k' := by
  have h := congrArg Id.number h
  simp only [valueId] at h
  have hplace : n * (width + 1) + (k + 1) = n' * (width + 1) + (k' + 1) := by omega
  obtain ⟨hn, hk⟩ := place_inj (Nat.succ_le_of_lt hk) (Nat.succ_le_of_lt hk') hplace
  exact ⟨hn, Nat.succ.inj hk⟩

theorem rowId_ne_valueId (hk : k < width) : rowId first width n ≠ valueId first width n' k := by
  intro h
  have h := congrArg Id.number h
  simp only [rowId, valueId] at h
  have hplace : n * (width + 1) + 0 = n' * (width + 1) + (k + 1) := by omega
  exact absurd (place_inj (Nat.zero_le width) (Nat.succ_le_of_lt hk) hplace).2 (Nat.succ_ne_zero k).symm

/-- An identity is that of a row of a draft, or of one of its values. -/
def InRow (first width n : Nat) (id : Id) : Prop := ∃ k ≤ width, id.number = first + 1 + n * (width + 1) + k

theorem inRow_rowId : InRow first width n (rowId first width n) := ⟨0, Nat.zero_le _, rfl⟩

theorem inRow_valueId (hk : k < width) : InRow first width n (valueId first width n k) :=
  ⟨k + 1, Nat.succ_le_of_lt hk, by simp only [valueId]; omega⟩

theorem InRow.eq {id : Id} (h : InRow first width n id) (h' : InRow first width n' id) : n = n' := by
  obtain ⟨k, hk, heq⟩ := h
  obtain ⟨k', hk', heq'⟩ := h'
  have hplace : n * (width + 1) + k = n' * (width + 1) + k' := by omega
  exact (place_inj hk hk' hplace).1

end Draft

/-! ## Tables -/

/-- A value of a table in the given place. -/
def Value.filled (p : Populated) (width row : Nat) (cell : (Id × Scalar) × Nat) : Value :=
  ⟨Draft.valueId p.id.number width row cell.2, Draft.rowId p.id.number width row, cell.1.1, cell.1.2,
    p.origin⟩

/-- A row of a table with payloads in some columns. -/
def FilledRow.filled (p : Populated) (columns : List Id) (row : List Scalar × Nat) : FilledRow :=
  ⟨Row.create (Draft.rowId p.id.number columns.length row.2) p row.2,
    (columns.zip row.1).zipIdx.map (Value.filled p columns.length row.2)⟩

/-- A table with rows of payloads in some columns. -/
def Extent.filled (p : Populated) (columns : List Id) (rows : List (List Scalar)) : Extent :=
  .ofRows p columns (rows.zipIdx.map (FilledRow.filled p columns))

namespace Extent

/-- How many identities a table takes: its own, and one for every row and every place in a row. -/
def size (x : Extent) : Nat := 1 + x.rows.length * (x.columns.length + 1)

/-- The first identity after those of a table. -/
def idsEnd (x : Extent) : Nat := x.populated.id.number + x.size

/-- The values of a row in the order of its columns. -/
def valuesOf (x : Extent) (r : Row) : List Value := x.values.filter fun v => v.row = r.id

/-- The identities of a table, its rows and its values. -/
def ids (x : Extent) : List Id := x.populated.id :: (x.rows.map Row.id ++ x.values.map Value.id)

theorem row_id_mem_ids {x : Extent} {r : Row} (hr : r ∈ x.rows) : r.id ∈ x.ids :=
  List.mem_cons_of_mem _ (List.mem_append_left _ (List.mem_map_of_mem hr))

theorem value_id_mem_ids {x : Extent} {v : Value} (hv : v ∈ x.values) : v.id ∈ x.ids :=
  List.mem_cons_of_mem _ (List.mem_append_right _ (List.mem_map_of_mem hv))

theorem id_mem_ids {x : Extent} {e : Entity} (he : e ∈ x.entities) : e.id ∈ x.ids := by
  rcases List.mem_append.1 he with he | he
  · obtain ⟨r, hr, rfl⟩ := List.mem_map.1 he
    exact row_id_mem_ids hr
  · obtain ⟨v, hv, rfl⟩ := List.mem_map.1 he
    exact value_id_mem_ids hv

variable {p : Populated} {columns : List Id} {rows : List (List Scalar)}

theorem rows_filled : (filled p columns rows).rows = rows.zipIdx.map fun row =>
    Row.create (Draft.rowId p.id.number columns.length row.2) p row.2 := by
  unfold filled ofRows
  rw [List.map_map]
  rfl

theorem values_filled : (filled p columns rows).values = rows.zipIdx.flatMap fun row =>
    (columns.zip row.1).zipIdx.map (Value.filled p columns.length row.2) := by
  unfold filled ofRows
  rw [List.flatMap_map]
  rfl

theorem size_filled : (filled p columns rows).size = 1 + rows.length * (columns.length + 1) := by
  unfold size
  rw [rows_filled, List.length_map, List.length_zipIdx]
  rfl

theorem mem_rows_filled {r : Row} (h : r ∈ (filled p columns rows).rows) :
    ∃ n < rows.length, r = Row.create (Draft.rowId p.id.number columns.length n) p n := by
  rw [rows_filled] at h
  obtain ⟨row, hrow, rfl⟩ := List.mem_map.1 h
  exact ⟨row.2, List.snd_lt_of_mem_zipIdx hrow, rfl⟩

/-- A value of a table stands in one of its rows and columns. -/
theorem place_of_mem_values_filled {v : Value} (h : v ∈ (filled p columns rows).values) :
    ∃ n k row column payload, rows[n]? = some row ∧ columns[k]? = some column ∧ row[k]? = some payload ∧
      v = Value.filled p columns.length n ((column, payload), k) := by
  rw [values_filled] at h
  obtain ⟨⟨row, n⟩, hrow, h⟩ := List.mem_flatMap.1 h
  obtain ⟨⟨⟨column, payload⟩, k⟩, hcell, rfl⟩ := List.mem_map.1 h
  obtain ⟨hcolumn, hpayload⟩ := List.getElem?_zip_eq_some.1 (List.mem_zipIdx_iff_getElem?.1 hcell)
  exact ⟨n, k, row, column, payload, List.mem_zipIdx_iff_getElem?.1 hrow, hcolumn, hpayload, rfl⟩

theorem mem_values_filled {v : Value} (h : v ∈ (filled p columns rows).values) :
    ∃ n < rows.length, ∃ cell, cell.2 < columns.length ∧ cell.1.1 ∈ columns ∧
      v = Value.filled p columns.length n cell := by
  obtain ⟨n, k, row, column, payload, hrow, hcolumn, -, rfl⟩ := place_of_mem_values_filled h
  exact ⟨n, (List.getElem?_eq_some_iff.1 hrow).1, _, (List.getElem?_eq_some_iff.1 hcolumn).1,
    List.mem_of_getElem? hcolumn, rfl⟩

theorem row_of_mem_values_filled {v : Value} (h : v ∈ (filled p columns rows).values) :
    ∃ r ∈ (filled p columns rows).rows, v.row = r.id := by
  rw [values_filled] at h
  obtain ⟨row, hrow, h⟩ := List.mem_flatMap.1 h
  obtain ⟨cell, -, rfl⟩ := List.mem_map.1 h
  rw [rows_filled]
  exact ⟨_, List.mem_map_of_mem hrow, rfl⟩

theorem row_entity_mem_filled (p : Populated) (columns : List Id) {row : List Scalar × Nat}
    (hrow : row ∈ rows.zipIdx) :
    ⟨p.origin.rowKind, Draft.rowId p.id.number columns.length row.2⟩ ∈
      (filled p columns rows).entities := by
  let r := Row.create (Draft.rowId p.id.number columns.length row.2) p row.2
  have hr : r ∈ (filled p columns rows).rows := by
    rw [rows_filled]
    exact List.mem_map_of_mem hrow
  exact List.mem_append_left _ (List.mem_map.2 ⟨r, hr, rfl⟩)

theorem value_mem_filled (p : Populated) {row : List Scalar × Nat} (hrow : row ∈ rows.zipIdx)
    {column : Id} {payload : Scalar} {k : Nat} (hcolumn : columns[k]? = some column)
    (hpayload : row.1[k]? = some payload) :
    Value.filled p columns.length row.2 ((column, payload), k) ∈ (filled p columns rows).values := by
  rw [values_filled]
  refine List.mem_flatMap.2 ⟨row, hrow, List.mem_map_of_mem (List.mem_zipIdx_iff_getElem?.2 ?_)⟩
  exact List.getElem?_zip_eq_some.2 ⟨hcolumn, hpayload⟩

theorem value_entity_mem_filled (p : Populated) (columns : List Id) {row : List Scalar × Nat}
    (hrow : row ∈ rows.zipIdx) {k : Nat} (hcolumn : k < columns.length) (hcell : k < row.1.length) :
    ⟨p.origin.valueKind, Draft.valueId p.id.number columns.length row.2 k⟩ ∈
      (filled p columns rows).entities := by
  have hmem := value_mem_filled p hrow (List.getElem?_eq_getElem hcolumn) (List.getElem?_eq_getElem hcell)
  exact List.mem_append_right _ (List.mem_map.2 ⟨_, hmem, rfl⟩)

/-! ## Identities -/

theorem range_of_mem_ids_filled {id : Id} (h : id ∈ (filled p columns rows).ids) :
    p.id.number ≤ id.number ∧ id.number < (filled p columns rows).idsEnd := by
  unfold idsEnd
  rw [size_filled]
  change p.id.number ≤ id.number ∧ id.number < p.id.number + _
  rcases List.mem_cons.1 h with rfl | h
  · exact ⟨Nat.le_refl _, Nat.lt_add_of_pos_right (Nat.add_pos_left Nat.one_pos _)⟩
  · rcases List.mem_append.1 h with h | h
    · obtain ⟨r, hr, rfl⟩ := List.mem_map.1 h
      obtain ⟨n, hn, rfl⟩ := mem_rows_filled hr
      have hlt := Draft.place_lt hn (Nat.zero_le columns.length)
      simp only [Row.create, Draft.rowId]
      omega
    · obtain ⟨v, hv, rfl⟩ := List.mem_map.1 h
      obtain ⟨n, hn, cell, hcell, -, rfl⟩ := mem_values_filled hv
      have hlt := Draft.place_lt hn (Nat.succ_le_of_lt hcell)
      simp only [Value.filled, Draft.valueId]
      omega

theorem places_ne {α : Type} (xs : List α) : xs.zipIdx.Pairwise fun a b => a.2 ≠ b.2 :=
  List.pairwise_map.1 (List.nodup_zipIdx_map_snd xs)

/-- No two of a table, its rows and its values share an identity. -/
theorem nodup_ids_filled : (filled p columns rows).ids.Nodup := by
  refine List.nodup_cons.2 ⟨fun h => ?_, List.nodup_append.2 ⟨?_, ?_, ?_⟩⟩
  · rcases List.mem_append.1 h with h | h
    · obtain ⟨r, hr, hid⟩ := List.mem_map.1 h
      obtain ⟨n, -, rfl⟩ := mem_rows_filled hr
      have h := congrArg Id.number hid
      simp only [Row.create, Draft.rowId] at h
      change _ = p.id.number at h
      omega
    · obtain ⟨v, hv, hid⟩ := List.mem_map.1 h
      obtain ⟨n, -, cell, -, -, rfl⟩ := mem_values_filled hv
      have h := congrArg Id.number hid
      simp only [Value.filled, Draft.valueId] at h
      change _ = p.id.number at h
      omega
  · rw [rows_filled, List.map_map]
    exact List.pairwise_map.2 ((places_ne rows).imp fun hne heq => hne (Draft.rowId_inj heq))
  · rw [values_filled, List.map_flatMap]
    refine List.nodup_flatMap.2 ⟨fun row _ => ?_, ?_⟩
    · rw [List.map_map]
      refine List.pairwise_map.2 ((places_ne _).imp_of_mem fun {a b} ha hb hne heq => hne ?_)
      have ha := List.snd_lt_of_mem_zipIdx ha
      have hb := List.snd_lt_of_mem_zipIdx hb
      rw [List.length_zip] at ha hb
      exact (Draft.valueId_inj (by omega) (by omega) heq).2
    · refine (places_ne rows).imp fun {a b} hne id hid hid' => hne ?_
      obtain ⟨v, hv, rfl⟩ := List.mem_map.1 hid
      obtain ⟨v', hv', heq⟩ := List.mem_map.1 hid'
      obtain ⟨cell, hcell, rfl⟩ := List.mem_map.1 hv
      obtain ⟨cell', hcell', rfl⟩ := List.mem_map.1 hv'
      have hcell := List.snd_lt_of_mem_zipIdx hcell
      have hcell' := List.snd_lt_of_mem_zipIdx hcell'
      rw [List.length_zip] at hcell hcell'
      exact (Draft.valueId_inj (by omega) (by omega) heq.symm).1
  · intro id hid id' hid' heq
    obtain ⟨r, hr, rfl⟩ := List.mem_map.1 hid
    obtain ⟨v, hv, rfl⟩ := List.mem_map.1 hid'
    obtain ⟨n, -, rfl⟩ := mem_rows_filled hr
    obtain ⟨n', -, cell, hcell, -, rfl⟩ := mem_values_filled hv
    exact Draft.rowId_ne_valueId hcell heq

/-- The values of one row are those that were filled in for it. -/
theorem valuesOf_filled {row : List Scalar × Nat} (hrow : row ∈ rows.zipIdx) :
    (filled p columns rows).valuesOf (.create (Draft.rowId p.id.number columns.length row.2) p row.2) =
      (columns.zip row.1).zipIdx.map (Value.filled p columns.length row.2) := by
  rw [valuesOf, values_filled, List.filter_flatMap,
    List.flatMap_eq_of_key (List.nodup_zipIdx_map_snd rows) hrow fun other _ hne => ?_]
  · refine List.filter_eq_self.2 fun v hv => ?_
    obtain ⟨cell, -, rfl⟩ := List.mem_map.1 hv
    simp [Value.filled, Row.create]
  · refine List.filter_eq_nil_iff.2 fun v hv heq => hne ?_
    obtain ⟨cell, -, rfl⟩ := List.mem_map.1 hv
    exact Draft.rowId_inj (of_decide_eq_true heq)

end Extent

end Provenance

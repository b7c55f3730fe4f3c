import Provenance.Proofs.Rows.Bound
import Provenance.Proofs.Rows.Renaming

/-!
# Tables that differ in their identities only

Two materializations of a table are twins if they are filled from the same payloads (`Extent.Twin`). What
stands in the same place of both corresponds, and between two sound stores this correspondence of entities
is a renaming (`Store.renames_twins`). Source tables bound to twins are the same but for that renaming
(`Extent.Twin.bind_rel`).
-/

namespace Provenance

namespace Extent

/-- Two materializations of one table, filled from the same payloads. -/
structure Twin (x x' : Extent) : Prop where
  table : x.populated.table = x'.populated.table
  origin : x.populated.origin = x'.populated.origin
  filled : ∃ columns rows, x = .filled x.populated columns rows ∧ x' = .filled x'.populated columns rows

/-- Entities of one kind whose identities stand in the same place of two tables. -/
def Pairs (x x' : Extent) (e e' : Entity) : Prop :=
  e.kind = e'.kind ∧ ∃ i < x.size,
    e.id.number = x.populated.id.number + i ∧ e'.id.number = x'.populated.id.number + i

/-- Rows with the same number whose values have the same columns and payloads. -/
structure RowTwin (x x' : Extent) (r r' : Row) : Prop where
  number : r.number = r'.number
  entity : x.Pairs x' r.entity r'.entity
  values : List.Forall₂
    (fun v v' => v.column = v'.column ∧ v.payload = v'.payload ∧ x.Pairs x' v.entity v'.entity)
    (x.valuesOf r) (x'.valuesOf r')

variable {x x' : Extent}

theorem Twin.columns (h : x.Twin x') : x.columns = x'.columns := by
  obtain ⟨columns, rows, hx, hx'⟩ := h.filled
  rw [hx, hx']
  rfl

theorem Twin.size (h : x.Twin x') : x.size = x'.size := by
  obtain ⟨columns, rows, hx, hx'⟩ := h.filled
  rw [hx, hx', size_filled, size_filled]

theorem pairs_populated (h : x.Twin x') : x.Pairs x' x.populated.entity x'.populated.entity :=
  ⟨congrArg Origin.tableKind h.origin, 0, Nat.lt_add_right _ Nat.one_pos, rfl, rfl⟩

/-- Everything in a table stands in the place of something in a twin of it. -/
theorem Twin.exists_pair (h : x.Twin x') {e : Entity} (he : e ∈ x.entities) : ∃ e', x.Pairs x' e e' := by
  have hrange : x.populated.id.number ≤ e.id.number ∧ e.id.number < x.idsEnd := by
    obtain ⟨columns, rows, hx, -⟩ := h.filled
    rw [hx] at he ⊢
    exact range_of_mem_ids_filled (id_mem_ids he)
  unfold idsEnd at hrange
  refine ⟨⟨e.kind, ⟨x'.populated.id.number + (e.id.number - x.populated.id.number)⟩⟩, rfl,
    e.id.number - x.populated.id.number, ?_, ?_, rfl⟩
  · omega
  · omega

section

variable {p p' : Populated} {columns : List Id} {rows : List (List Scalar)} {n k : Nat}

/-- Rows in the same place of two tables correspond. -/
theorem pairs_row (horigin : p.origin = p'.origin) (hn : n < rows.length) :
    (filled p columns rows).Pairs (filled p' columns rows)
      ⟨p.origin.rowKind, Draft.rowId p.id.number columns.length n⟩
      ⟨p'.origin.rowKind, Draft.rowId p'.id.number columns.length n⟩ := by
  have hlt := Draft.place_lt hn (Nat.zero_le columns.length)
  refine ⟨congrArg Origin.rowKind horigin, 1 + n * (columns.length + 1), ?_, ?_, ?_⟩
  · rw [size_filled]
    omega
  · exact Nat.add_assoc _ _ _
  · exact Nat.add_assoc _ _ _

/-- Values in the same place of two tables correspond. -/
theorem pairs_value (horigin : p.origin = p'.origin) (hn : n < rows.length) (hk : k < columns.length) :
    (filled p columns rows).Pairs (filled p' columns rows)
      ⟨p.origin.valueKind, Draft.valueId p.id.number columns.length n k⟩
      ⟨p'.origin.valueKind, Draft.valueId p'.id.number columns.length n k⟩ := by
  have hlt := Draft.place_lt hn (Nat.succ_le_of_lt hk)
  refine ⟨congrArg Origin.valueKind horigin, 2 + n * (columns.length + 1) + k, ?_, ?_, ?_⟩
  · rw [size_filled]
    omega
  · change p.id.number + 2 + n * (columns.length + 1) + k = p.id.number + _
    omega
  · change p'.id.number + 2 + n * (columns.length + 1) + k = p'.id.number + _
    omega

end

/-- The rows of twins correspond. -/
theorem Twin.rows (h : x.Twin x') : List.Forall₂ (RowTwin x x') x.rows x'.rows := by
  have horigin := h.origin
  obtain ⟨columns, rows, hx, hx'⟩ := h.filled
  generalize x.populated = p at horigin hx
  generalize x'.populated = p' at horigin hx'
  subst hx hx'
  rw [rows_filled, rows_filled, List.forall₂_map_left_iff, List.forall₂_map_right_iff, List.forall₂_same]
  intro row hrow
  have hn := List.snd_lt_of_mem_zipIdx hrow
  refine ⟨rfl, pairs_row horigin hn, ?_⟩
  rw [valuesOf_filled hrow, valuesOf_filled hrow, List.forall₂_map_left_iff,
    List.forall₂_map_right_iff, List.forall₂_same]
  intro cell hcell
  have hk := List.snd_lt_of_mem_zipIdx hcell
  rw [List.length_zip] at hk
  exact ⟨rfl, rfl, pairs_value horigin hn (by omega)⟩

variable {E : Entity → Entity → Prop} {c : Catalog}

/-- Sources bound to twins differ in their identities only. -/
theorem Twin.bind_rel (h : x.Twin x') (hE : ∀ e e', x.Pairs x' e e' → E e e') (name : String) :
    Except.Rel (SourceTable.Renamed E) (x.bind c name) (x'.bind c name) := by
  have hrow : ∀ r r', x.RowTwin x' r r' →
      Except.Rel (SourceRow.Renamed E) (x.bindRow c r) (x'.bindRow c r') := by
    intro r r' hr
    refine (hr.values.mapM (S := fun a b => a.1 = b.1 ∧ Cell.Renamed E a.2 b.2) ?_).bind
      fun cells cells' hcells => .ok ⟨hE _ _ hr.entity, hcells⟩
    rintro v v' ⟨hcolumn, hpayload, hentity⟩
    unfold SourceTable.bindCell
    rw [hcolumn]
    exact Except.Rel.refl.bind fun _ _ hname => .ok ⟨hname, hE _ _ hentity, hpayload⟩
  unfold bind
  rw [h.columns]
  refine Except.Rel.refl.bind fun columns columns' hcolumns => ?_
  exact (h.rows.mapM hrow).bind fun _ _ hrows => .ok ⟨rfl, hcolumns, hrows⟩

end Extent

namespace Store

variable {s s' : Store} {x y : Extent}

/-- Entities that stand in the same place of twins in two stores. -/
def Twins (s s' : Store) (e e' : Entity) : Prop :=
  ∃ x ∈ s.extents, ∃ x' ∈ s'.extents, x.Twin x' ∧ x.Pairs x' e e'

theorem Sound.eq_of_range (hs : s.Sound) (hx : x ∈ s.extents) (hy : y ∈ s.extents) {n : Nat}
    (hn : x.populated.id.number ≤ n ∧ n < x.idsEnd) (hn' : y.populated.id.number ≤ n ∧ n < y.idsEnd) :
    x = y := by
  by_contra hne
  have hsymm : Std.Symm fun x y : Extent =>
      x.idsEnd ≤ y.populated.id.number ∨ y.idsEnd ≤ x.populated.id.number := ⟨fun _ _ => Or.symm⟩
  have hblocks : s.extents.Pairwise fun x y =>
      x.idsEnd ≤ y.populated.id.number ∨ y.idsEnd ≤ x.populated.id.number := hs.blocks.imp .inl
  have h := hblocks.forall hx hy hne
  omega

/-- Between sound stores the correspondence of twins is a renaming. -/
theorem renames_twins (hs : s.Sound) (hs' : s'.Sound) : Entity.Renames (s.Twins s') where
  kind _ _ h := have ⟨_, _, _, _, _, hkind, _⟩ := h; hkind
  id := by
    rintro a b a' b' ⟨x, hx, x', hx', htwin, -, i, hi, ha, ha'⟩ ⟨y, hy, y', hy', htwin', -, j, hj, hb, hb'⟩
    have hsize := htwin.size
    have hsize' := htwin'.size
    constructor
    · intro hid
      have hxy : x = y := hs.eq_of_range hx hy (n := a.id.number) (by unfold Extent.idsEnd; omega)
        (by rw [hid]; unfold Extent.idsEnd; omega)
      subst hxy
      have hxy' := hs'.eq_of_table hx' hy' (htwin.table.symm.trans htwin'.table)
      subst hxy'
      rw [hid] at ha
      have hnumber : a'.id.number = b'.id.number := by omega
      exact congrArg Id.mk hnumber
    · intro hid
      have hxy' : x' = y' := hs'.eq_of_range hx' hy' (n := a'.id.number) (by unfold Extent.idsEnd; omega)
        (by rw [hid]; unfold Extent.idsEnd; omega)
      subst hxy'
      have hxy := hs.eq_of_table hx hy (htwin.table.trans htwin'.table.symm)
      subst hxy
      rw [hid] at ha'
      have hnumber : a.id.number = b.id.number := by omega
      exact congrArg Id.mk hnumber

end Store

end Provenance

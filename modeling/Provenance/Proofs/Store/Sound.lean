import Provenance.Proofs.Store.Filled

/-!
# Sound stores

In the store of a run every table is filled from payloads, none is there twice, and each takes its
identities after those of the tables before it (`Store.Sound`). So no two things in the store share an
identity (`Store.Sound.nodup_ids`), and what is looked up for a table, a row or a value is that of it.
-/

namespace Provenance

/-- A store of tables that are filled from payloads, one table after another. -/
structure Store.Sound (s : Store) : Prop where
  filled : ∀ x ∈ s.extents, ∃ rows, x = .filled x.populated x.columns rows
  tables : (s.extents.map fun x => x.populated.table).Nodup
  blocks : s.extents.Pairwise fun x y => x.idsEnd ≤ y.populated.id.number

namespace Store

variable {s : Store} {x y : Extent} {id : Id}

/-- The only member with a property is the last one with it. -/
theorem last?_eq_some {α : Type} {q : α → Bool} {xs : List α} {a : α} (ha : a ∈ xs) (hq : q a)
    (honly : ∀ b ∈ xs, q b → b = a) : last? q xs = some a := by
  unfold last?
  cases hfind : xs.reverse.find? q with
  | none => exact absurd hq (List.find?_eq_none.1 hfind a (List.mem_reverse.2 ha))
  | some b =>
    have hb := List.mem_reverse.1 (List.mem_of_find?_eq_some hfind)
    have hqb : q b := List.find?_some hfind
    rw [honly b hb hqb]

theorem of_last?_eq_some {α : Type} {q : α → Bool} {xs : List α} {a : α} (h : last? q xs = some a) :
    a ∈ xs ∧ q a :=
  ⟨List.mem_reverse.1 (List.mem_of_find?_eq_some h), List.find?_some h⟩

private theorem flatMap_sublist {α β : Type} {f g : α → List β} {xs : List α}
    (h : ∀ x ∈ xs, (f x).Sublist (g x)) : (xs.flatMap f).Sublist (xs.flatMap g) := by
  induction xs with
  | nil => exact List.Sublist.slnil
  | cons x xs ih =>
    rw [List.flatMap_cons, List.flatMap_cons]
    exact (h x List.mem_cons_self).append (ih fun y hy => h y (List.mem_cons_of_mem _ hy))

theorem sound_empty : Store.empty.Sound := ⟨fun _ hx => absurd hx List.not_mem_nil, .nil, .nil⟩

/-- A table may enter a sound store after those that are there. -/
theorem Sound.commit (hs : s.Sound) (hx : ∃ rows, x = .filled x.populated x.columns rows)
    (htable : ∀ y ∈ s.extents, y.populated.table ≠ x.populated.table)
    (hblock : ∀ y ∈ s.extents, y.idsEnd ≤ x.populated.id.number) : (s.commit x).Sound where
  filled y hy := by
    rcases List.mem_append.1 hy with hy | hy
    · exact hs.filled y hy
    · exact List.mem_singleton.1 hy ▸ hx
  tables := by
    unfold Store.commit
    rw [List.map_append]
    refine List.nodup_append.2 ⟨hs.tables, List.nodup_singleton _, fun t ht t' ht' => ?_⟩
    obtain ⟨y, hy, rfl⟩ := List.mem_map.1 ht
    rw [List.mem_singleton.1 ht']
    exact htable y hy
  blocks := by
    refine List.pairwise_append.2 ⟨hs.blocks, List.pairwise_singleton _ _, fun y hy z hz => ?_⟩
    rw [List.mem_singleton.1 hz]
    exact hblock y hy

namespace Sound

variable (hs : s.Sound)
include hs

theorem range_of_mem_ids (hx : x ∈ s.extents) (hid : id ∈ x.ids) :
    x.populated.id.number ≤ id.number ∧ id.number < x.idsEnd := by
  obtain ⟨rows, heq⟩ := hs.filled x hx
  rw [heq] at hid ⊢
  exact Extent.range_of_mem_ids_filled hid

/-- No two things in a sound store share an identity. -/
theorem nodup_ids : (s.extents.flatMap Extent.ids).Nodup := by
  refine List.nodup_flatMap.2 ⟨fun x hx => ?_, hs.blocks.imp_of_mem fun {x y} hx hy hle id hid hid' => ?_⟩
  · obtain ⟨rows, heq⟩ := hs.filled x hx
    rw [heq]
    exact Extent.nodup_ids_filled
  · have hlt := (hs.range_of_mem_ids hx hid).2
    have hge := (hs.range_of_mem_ids hy hid').1
    omega

theorem eq_of_mem_ids (hx : x ∈ s.extents) (hy : y ∈ s.extents) (hid : id ∈ x.ids) (hid' : id ∈ y.ids) :
    x = y :=
  List.eq_of_nodup_flatMap hs.nodup_ids hx hy hid hid'

theorem eq_of_table (hx : x ∈ s.extents) (hy : y ∈ s.extents)
    (h : x.populated.table = y.populated.table) : x = y :=
  List.inj_on_of_nodup_map hs.tables hx hy h

/-! ## Lookups -/

theorem nodup_populatedIds : (s.extents.map fun x => x.populated.id).Nodup := by
  refine (List.nodup_flatMap.1 hs.nodup_ids).2.imp (S := fun x y => x.populated.id ≠ y.populated.id)
    (fun {x y} hdisjoint heq => ?_) |> List.pairwise_map.2
  exact hdisjoint (List.mem_cons_self (a := x.populated.id)) (heq ▸ List.mem_cons_self)

theorem populatedFor?_of_mem (hx : x ∈ s.extents) :
    s.populatedFor? x.populated.table = some x.populated := by
  refine last?_eq_some (List.mem_map_of_mem hx) (by simp) fun p hp htable => ?_
  obtain ⟨y, hy, rfl⟩ := List.mem_map.1 hp
  rw [hs.eq_of_table hy hx (of_decide_eq_true htable)]

theorem populated?_of_mem (hx : x ∈ s.extents) : s.populated? x.populated.id = some x.populated := by
  refine last?_eq_some (List.mem_map_of_mem hx) (by simp) fun p hp hid => ?_
  obtain ⟨y, hy, rfl⟩ := List.mem_map.1 hp
  rw [List.inj_on_of_nodup_map hs.nodup_populatedIds hy hx (of_decide_eq_true hid)]

theorem columnsOf_of_mem (hx : x ∈ s.extents) : s.columnsOf x.populated.id = x.columns := by
  have hlast : last? (fun y => y.populated.id = x.populated.id) s.extents = some x :=
    last?_eq_some hx (by simp) fun y hy hid =>
      List.inj_on_of_nodup_map hs.nodup_populatedIds hy hx (of_decide_eq_true hid)
  unfold columnsOf
  rw [hlast]
  rfl

theorem rowsOf_of_mem (hx : x ∈ s.extents) : s.rowsOf x.populated.id = x.rows := by
  have hfilter : s.extents.filter (fun y => y.populated.id = x.populated.id) = [x] := by
    rw [← List.flatMap_singleton' s.extents, List.filter_flatMap,
      List.flatMap_eq_of_key hs.nodup_populatedIds hx fun y _ hne => by simp [hne]]
    simp
  unfold rowsOf
  rw [hfilter, List.flatMap_singleton]

theorem row_of_mem_values (hx : x ∈ s.extents) {v : Value} (hv : v ∈ x.values) :
    ∃ r ∈ x.rows, v.row = r.id := by
  obtain ⟨rows, heq⟩ := hs.filled x hx
  rw [heq] at hv ⊢
  exact Extent.row_of_mem_values_filled hv

theorem populated_of_mem_rows (hx : x ∈ s.extents) {r : Row} (hr : r ∈ x.rows) :
    r.populated = x.populated.id := by
  obtain ⟨rows, heq⟩ := hs.filled x hx
  rw [heq] at hr
  obtain ⟨n, -, rfl⟩ := Extent.mem_rows_filled hr
  rfl

theorem column_of_mem_values (hx : x ∈ s.extents) {v : Value} (hv : v ∈ x.values) : v.column ∈ x.columns := by
  obtain ⟨rows, heq⟩ := hs.filled x hx
  rw [heq] at hv
  obtain ⟨n, -, cell, -, hcolumn, rfl⟩ := Extent.mem_values_filled hv
  exact hcolumn

theorem valuesOf_of_mem (hx : x ∈ s.extents) {r : Row} (hr : r ∈ x.rows) :
    s.valuesOf r.id = x.valuesOf r := by
  unfold valuesOf values Extent.valuesOf
  rw [List.filter_flatMap, List.flatMap_eq_of_key hs.tables hx fun y hy hne => ?_]
  refine List.filter_eq_nil_iff.2 fun v hv hrow => hne ?_
  obtain ⟨r', hr', heq⟩ := hs.row_of_mem_values hy hv
  rw [hs.eq_of_mem_ids hy hx (Extent.row_id_mem_ids hr')
    (heq ▸ of_decide_eq_true hrow ▸ Extent.row_id_mem_ids hr)]

theorem nodup_rowIds : (s.rows.map Row.id).Nodup := by
  unfold rows
  rw [List.map_flatMap]
  refine hs.nodup_ids.sublist (flatMap_sublist fun x _ => ?_)
  exact (List.sublist_append_left _ _).trans (List.sublist_cons_self _ _)

theorem nodup_valueIds : (s.values.map Value.id).Nodup := by
  unfold values
  rw [List.map_flatMap]
  refine hs.nodup_ids.sublist (flatMap_sublist fun x _ => ?_)
  exact (List.sublist_append_right _ _).trans (List.sublist_cons_self _ _)

theorem row?_of_mem {r : Row} (hr : r ∈ s.rows) : s.row? r.id = some r :=
  last?_eq_some hr (by simp) fun _ hr' hid =>
    List.inj_on_of_nodup_map hs.nodup_rowIds hr' hr (of_decide_eq_true hid)

theorem value?_of_mem {v : Value} (hv : v ∈ s.values) : s.value? v.id = some v :=
  last?_eq_some hv (by simp) fun _ hv' hid =>
    List.inj_on_of_nodup_map hs.nodup_valueIds hv' hv (of_decide_eq_true hid)

theorem contains_populated (hx : x ∈ s.extents) : s.contains x.populated.entity := by
  have hfind : s.find? x.populated.entity = (s.populated? x.populated.id).map Populated.entity := by
    unfold find? Populated.entity Origin.tableKind
    cases x.populated.origin <;> rfl
  simp [contains, hfind, hs.populated?_of_mem hx]

theorem contains_row {r : Row} (hr : r ∈ s.rows) : s.contains r.entity := by
  have hfind : s.find? r.entity = (s.row? r.id).map Row.entity := by
    unfold find? Row.entity Origin.rowKind
    cases r.origin <;> rfl
  simp [contains, hfind, hs.row?_of_mem hr]

theorem contains_value {v : Value} (hv : v ∈ s.values) : s.contains v.entity := by
  have hfind : s.find? v.entity = (s.value? v.id).map Value.entity := by
    unfold find? Value.entity Origin.valueKind
    cases v.origin <;> rfl
  simp [contains, hfind, hs.value?_of_mem hv]

end Sound

end Store

end Provenance

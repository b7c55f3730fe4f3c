import Provenance.Proofs.Evaluation.Agreement
import Provenance.Proofs.Rows.Filled
import Provenance.Proofs.Rows.Renaming

/-!
# Amounts under keys

The rows of a table, each with its key in some columns and its cell in another one (`SourceTable.Amounts`).
When the table is grouped by the former columns, every frame has the key of a group of these, and its members
hold the cells of the group (`Approach.collects_of_createRows`). So a grouped column has its part of the key
there, and the sum of the other column is that of the cells, which are what is read for it.
-/

namespace Provenance

namespace Binding

variable {b : Binding} {r : SourceRow} {name : ColumnName} {cell : Cell}

/-- In a row of a filled table a column is found as its cell. -/
theorem lookup_filled {p : Populated} {table column : String} {names : List String}
    {rows : List (List Scalar)} (hr : r ∈ (SourceTable.filled p table names rows).rows)
    (hcell : r.cell? column = some cell) :
    (single (.filled p table names rows) r).lookup ⟨table, column⟩ = .ok (some cell) := by
  have hcolumn : column ∈ names := by
    obtain ⟨row, -, rfl⟩ := List.mem_map.1 hr
    obtain ⟨_, hplace, heq⟩ := List.mem_map.1 (SourceRow.mem_of_cell? hcell)
    cases heq
    exact (List.of_mem_zip (List.fst_mem_of_mem_zipIdx hplace)).1
  simp [lookup, single, SourceTable.filled, SourceTable.hasColumn, hcolumn, hcell]

theorem payload_of_lookup (h : b.lookup name = .ok (some cell)) : b.payload name = .ok cell.payload :=
  Except.bind_eq_ok_iff.2 ⟨_, h, rfl⟩

theorem readCell_of_lookup (h : b.lookup name = .ok (some cell)) :
    Expr.readCell b name = .ok (cell.payload, [some cell.value]) :=
  Except.bind_eq_ok_iff.2 ⟨_, h, rfl⟩

theorem denoted_of_lookup (h : b.lookup name = .ok (some cell)) : b.denoted name = [cell.value] :=
  (Expr.readings_of_readCell (readCell_of_lookup h)).symm

end Binding

/-- The keys of the rows of a table in some columns, and their cells in another one. -/
def SourceTable.Amounts (t : SourceTable) (keys : List ColumnName) (amount : ColumnName)
    (items : List (Key × Cell)) : Prop :=
  List.Forall₂
    (fun r i => keys.mapM (Binding.single t r).payload = .ok i.1 ∧
      (Binding.single t r).lookup amount = .ok (some i.2))
    t.rows items

namespace SourceTable.Amounts

variable {t : SourceTable} {keys rest : List ColumnName} {amount : ColumnName} {items : List (Key × Cell)}

/-- The keys in the first columns are the first parts of the keys. -/
theorem take (h : t.Amounts (keys ++ rest) amount items) :
    t.Amounts keys amount (items.map fun i => (i.1.take keys.length, i.2)) := by
  refine List.forall₂_map_right_iff.2 (h.imp ?_)
  rintro r i ⟨hkey, hcell⟩
  rw [List.mapM_eq_ok_iff] at hkey
  exact ⟨List.mapM_eq_ok_iff.2 (List.forall₂_take_append _ _ _ hkey.flip).flip, hcell⟩

end SourceTable.Amounts

/-- A scope is a group of rows: its members hold the cells of the group in a column. -/
structure Scope.Collects (s : Scope) (keys : List ColumnName) (amount : ColumnName) (group : KeyEntry Cell) :
    Prop where
  members : ∃ bs, s = .group group.key keys bs ∧
    List.Forall₂ (fun b cell => b.lookup amount = .ok (some cell)) bs group.items
  keyed : s.Keyed

namespace Approach

variable {c : Catalog} {functions : Functions} {source : String} {keys : List ColumnName}
  {sources : List SourceTable} {t : SourceTable} {frames : List RowFrame} {amount : ColumnName}

/-- Grouping a table needs the keys of its rows. -/
theorem exists_keyed_of_createRows (h : (group source keys).createRows c functions sources = .ok frames)
    (ht : sourceTable sources source = .ok t) :
    ∃ items, t.rows.mapM (keyed t keys) = .ok items ∧
      frames = (KeyIndex.ofList items).map fun g => .ofScope (.group g.key keys g.items) := by
  obtain ⟨_, -, h⟩ := Except.bind_eq_ok_iff.1 h
  obtain ⟨t', ht', h⟩ := Except.bind_eq_ok_iff.1 h
  cases ht.symm.trans ht'
  obtain ⟨groups, hgroups, h⟩ := Except.bind_eq_ok_iff.1 h
  cases h
  obtain ⟨items, hitems, hgroups⟩ := Except.bind_eq_ok_iff.1 hgroups
  cases hgroups
  exact ⟨items, hitems, rfl⟩

theorem exists_amounts_of_createRows
    (h : (group source keys).createRows c functions sources = .ok frames)
    (ht : sourceTable sources source = .ok t)
    (hamount : ∀ r ∈ t.rows, ∃ cell, (Binding.single t r).lookup amount = .ok (some cell)) :
    ∃ items, t.Amounts keys amount items := by
  obtain ⟨keyedRows, hkeyed, -⟩ := exists_keyed_of_createRows h ht
  refine List.exists_forall₂ fun r hr => ?_
  obtain ⟨_, -, hrow⟩ := (List.mapM_eq_ok_iff.1 hkeyed).exists_of_mem_left hr
  obtain ⟨key, hkey, -⟩ := Except.bind_eq_ok_iff.1 hrow
  obtain ⟨cell, hcell⟩ := hamount r hr
  exact ⟨(key, cell), hkey, hcell⟩

/-- Grouping a table makes a frame for every group of its amounts. -/
theorem collects_of_createRows (h : (group source keys).createRows c functions sources = .ok frames)
    (ht : sourceTable sources source = .ok t) {items : List (Key × Cell)}
    (hitems : t.Amounts keys amount items) :
    List.Forall₂ (fun (frame : RowFrame) group => frame.scope.Collects keys amount group) frames
      (KeyIndex.ofList items) := by
  have hkeyed : ∀ frame ∈ frames, frame.scope.Keyed := fun _ hframe =>
    (framed_of_mem_createRows h hframe).keyed
  obtain ⟨keyedRows, hrows, rfl⟩ := exists_keyed_of_createRows h ht
  have hpairs : List.Forall₂ (fun x y => x.1 = y.1 ∧ Binding.lookup x.2 amount = .ok (some y.2)) keyedRows
      items := by
    refine (List.forall₂_comp_iff.2 ⟨_, (List.mapM_eq_ok_iff.1 hrows).flip, hitems⟩).imp ?_
    rintro x y ⟨r, hrow, hkey, hcell⟩
    obtain ⟨key, hkey', hrow⟩ := Except.bind_eq_ok_iff.1 hrow
    cases hrow
    cases hkey.symm.trans hkey'
    exact ⟨rfl, hcell⟩
  -- The same keys in the same order make the same groups, whatever stands under them.
  have hentries : List.Forall₂ (KeyEntry.Rel fun b cell => Binding.lookup b amount = .ok (some cell))
      (KeyIndex.ofList keyedRows) (KeyIndex.ofList items) := KeyIndex.ofList_rel hpairs
  have hgroups : List.Forall₂ (fun (frame : RowFrame) group => ∃ bs, frame.scope = .group group.key keys bs ∧
      List.Forall₂ (fun b cell => b.lookup amount = .ok (some cell)) bs group.items)
      ((KeyIndex.ofList keyedRows).map fun g => .ofScope (.group g.key keys g.items))
      (KeyIndex.ofList items) := by
    refine List.forall₂_map_left_iff.2 (hentries.imp fun g group hg => ?_)
    exact ⟨g.items, congrArg (Scope.group · keys g.items) hg.key, hg.items⟩
  exact ((List.forall₂_and_left _ _).2 ⟨hkeyed, hgroups⟩).imp fun _ _ h => ⟨h.2, h.1⟩

end Approach

namespace Scope.Collects

variable {c : Catalog} {functions : Functions} {s : Scope} {keys : List ColumnName} {amount : ColumnName}
  {group : KeyEntry Cell} {v : Scalar} {readings : Readings}

theorem items_ne_nil (h : s.Collects keys amount group) : group.items ≠ [] := by
  obtain ⟨bs, rfl, hitems⟩ := h.members
  obtain ⟨first, rest, rfl, -⟩ := h.keyed
  obtain ⟨cell, cells, -, -, heq⟩ := List.forall₂_cons_left_iff.1 hitems
  rw [heq]
  exact List.cons_ne_nil _ _

/-- The key is that of a member, and a grouped column has the payload that it has there. -/
theorem exists_first (c : Catalog) (functions : Functions) (h : s.Collects keys amount group) :
    ∃ first : Binding, keys.mapM first.payload = .ok group.key ∧ ∀ name v readings,
      (Expr.column name).eval c functions s = .ok (v, readings) → first.payload name = .ok v := by
  obtain ⟨bs, rfl, -⟩ := h.members
  obtain ⟨first, rest, rfl, hkey⟩ := h.keyed
  refine ⟨first, hkey, fun name v readings hv => ?_⟩
  unfold Expr.eval Expr.readColumn at hv
  dsimp only at hv
  split at hv
  · cases hv
  · next i hi =>
    obtain ⟨cells, -, hv⟩ := Except.bind_eq_ok_iff.1 hv
    cases hv
    exact Expr.payload_of_key hkey hi

variable (h : s.Collects keys amount group)
include h

theorem denoted_sum : (Expr.aggregate .sum (.column amount)).denoted s = group.items.map Cell.value := by
  obtain ⟨bs, rfl, hitems⟩ := h.members
  have hcells : bs.map (fun b => (Scope.row b).denoted amount) =
      group.items.map fun cell => [cell.value] := by
    refine hitems.map_eq fun b cell hcell => ?_
    simp [Scope.denoted, Scope.partition, Binding.denoted_of_lookup hcell]
  simp only [Expr.denoted, Scope.partition]
  rw [List.flatMap_def, hcells, ← List.flatMap_def, ← List.map_eq_flatMap]

/-- The sum of a column is the sum of the cells. -/
theorem apply_sum (hv : (Expr.aggregate .sum (.column amount)).eval c functions s = .ok (v, readings)) :
    AggregateFn.sum.apply (group.items.map Cell.payload) = .ok v := by
  obtain ⟨bs, rfl, hitems⟩ := h.members
  obtain ⟨results, hresults, hv⟩ := Except.bind_eq_ok_iff.1 hv
  obtain ⟨total, htotal, hv⟩ := Except.bind_eq_ok_iff.1 hv
  cases hv
  suffices hpayloads : results.map Prod.fst = group.items.map Cell.payload from hpayloads ▸ htotal
  refine (List.forall₂_comp_iff.2 ⟨_, (List.mapM_eq_ok_iff.1 hresults).flip, hitems⟩).map_eq ?_
  rintro ⟨w, reading⟩ cell ⟨b, hread, hcell⟩
  cases (Binding.readCell_of_lookup hcell).symm.trans hread
  rfl

end Scope.Collects

end Provenance

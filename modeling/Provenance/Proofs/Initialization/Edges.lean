import Provenance.Proofs.Catalog.WellFormed
import Provenance.Proofs.Evaluation.Footprint
import Provenance.Proofs.Initialization.Staging
import Provenance.Proofs.Store.Sound

/-!
# The edges of a staged table

The edges of a derived table are those of its definition and those of its rows and values. They are staged
without repetition. A row owns exactly the edges to its sources (`ComputedRow.filter_edges_of_row`), and a
value those to the values that were read for it (`ComputedRow.filter_edges_of_value`).
-/

namespace Provenance

/-- The rows and values that a computed row is made of are in a store, each once. -/
structure ComputedRow.Sourced (store : Store) (row : ComputedRow) : Prop where
  nodup_sources : row.sources.Nodup
  sources : ∀ e ∈ row.sources, ∃ r ∈ store.rows, r.entity = e
  nodup_cells : ∀ cell ∈ row.cells, cell.2.Nodup
  cells : ∀ cell ∈ row.cells, ∀ e ∈ cell.2, ∃ v ∈ store.values, v.entity = e

namespace Derive

variable {c : Catalog} {functions : Functions} {store : Store} {sources : List SourceTable}
  {frame : RowFrame} {plan : List ColumnPlan}

theorem sourced_of_holds (hbound : ∀ t ∈ sources, ∃ table, SourceTable.bind c store table = .ok t)
    (hframe : frame.Framed sources) {column : ColumnPlan} {cell : Scalar × List Entity}
    (h : Holds c functions frame column cell) :
    cell.2.Nodup ∧ ∀ e ∈ cell.2, ∃ v ∈ store.values, v.entity = e := by
  cases column with
  | fill =>
    rw [show cell = (_, []) from h]
    exact ⟨.nil, nofun⟩
  | compute _ e =>
    obtain ⟨result, hresult, -, rfl⟩ := h
    refine ⟨Expr.nodup_sources hresult, fun x hx => ?_⟩
    obtain ⟨b, hb, name, -, hx⟩ := Expr.exists_of_mem_denoted (Expr.mem_denoted_of_mem_sources hresult hx)
    obtain ⟨t, ht, -, r, hr, cell, hcell, rfl⟩ := Binding.exists_of_mem_denoted (hframe.bound b hb) hx
    obtain ⟨table, htable⟩ := hbound t ht
    obtain ⟨v, hv, rfl⟩ := SourceTable.exists_value_of_bind htable hr hcell
    exact ⟨v, hv, rfl⟩

theorem sourced_of_fills (hbound : ∀ t ∈ sources, ∃ table, SourceTable.bind c store table = .ok t)
    (hframe : frame.Framed sources) {row : ComputedRow} (h : Fills c functions plan frame row) :
    row.Sourced store := by
  obtain ⟨hsources, hcells⟩ := h
  refine ⟨hsources ▸ hframe.nodup_sourceRows, fun e he => ?_, fun cell hcell => ?_, fun cell hcell => ?_⟩
  · rw [hsources] at he
    obtain ⟨t, ht, r, hr, rfl⟩ := hframe.exists_of_mem_sourceRows he
    obtain ⟨table, htable⟩ := hbound t ht
    obtain ⟨row, hrow, heq⟩ := SourceTable.exists_row_of_bind htable hr
    exact ⟨row, hrow, heq.symm⟩
  · obtain ⟨column, -, hholds⟩ := hcells.exists_of_mem_right hcell
    exact (sourced_of_holds hbound hframe hholds).1
  · obtain ⟨column, -, hholds⟩ := hcells.exists_of_mem_right hcell
    exact (sourced_of_holds hbound hframe hholds).2

end Derive

/-! ## Edges of rows and values -/

namespace ComputedRow

variable {store : Store} {p : Populated} {width n : Nat} {row : ComputedRow} {rows : List ComputedRow}
  {edge : Edge}

/-- An edge of a row leads from the row to one of its sources, or from one of its values to a value that
was read for it. -/
theorem cases_of_mem_edges (h : edge ∈ row.edges p width n) :
    (edge.owner = ⟨.derivedRow, Draft.rowId p.id.number width n⟩ ∧ edge.kind = .rowSource ∧
        edge.target ∈ row.sources) ∨
      ∃ cell ∈ row.cells.zipIdx,
        edge.owner = ⟨.evaluatedValue, Draft.valueId p.id.number width n cell.2⟩ ∧
          edge.kind = .valueSource ∧ edge.target ∈ cell.1.2 := by
  rcases List.mem_append.1 h with h | h
  · obtain ⟨e, he, rfl⟩ := List.mem_map.1 h
    exact .inl ⟨rfl, rfl, he⟩
  · obtain ⟨cell, hcell, h⟩ := List.mem_flatMap.1 h
    obtain ⟨e, he, rfl⟩ := List.mem_map.1 h
    exact .inr ⟨cell, hcell, rfl, rfl, he⟩

/-- What owns an edge of a row is the row or one of its values. -/
theorem inRow_of_mem_edges (h : edge ∈ row.edges p width n) (hwidth : row.cells.length ≤ width) :
    Draft.InRow p.id.number width n edge.owner.id := by
  rcases cases_of_mem_edges h with ⟨ho, -⟩ | ⟨cell, hcell, ho, -⟩
  · rw [ho]
    exact Draft.inRow_rowId
  · rw [ho]
    exact Draft.inRow_valueId (Nat.lt_of_lt_of_le (List.snd_lt_of_mem_zipIdx hcell) hwidth)

theorem nodup_edges (h : row.Sourced store) (hwidth : row.cells.length ≤ width) :
    (row.edges p width n).Nodup := by
  refine List.nodup_append.2 ⟨h.nodup_sources.map fun _ _ heq => congrArg Edge.target heq,
    List.nodup_flatMap.2 ⟨fun cell hcell => ?_, ?_⟩, ?_⟩
  · exact (h.nodup_cells _ (List.fst_mem_of_mem_zipIdx hcell)).map fun _ _ heq => congrArg Edge.target heq
  · refine (Extent.places_ne row.cells).imp_of_mem fun {a b} ha hb hne edge hedge hedge' => hne ?_
    obtain ⟨e, -, rfl⟩ := List.mem_map.1 hedge
    obtain ⟨e', -, heq⟩ := List.mem_map.1 hedge'
    have hid := congrArg (fun edge => edge.owner.id) heq
    have ha := List.snd_lt_of_mem_zipIdx ha
    have hb := List.snd_lt_of_mem_zipIdx hb
    exact (Draft.valueId_inj (by omega) (by omega) hid).2.symm
  · intro edge hedge edge' hedge' heq
    obtain ⟨e, -, rfl⟩ := List.mem_map.1 hedge
    obtain ⟨cell, -, hedge'⟩ := List.mem_flatMap.1 hedge'
    obtain ⟨e', -, rfl⟩ := List.mem_map.1 hedge'
    cases congrArg Edge.kind heq

/-- The rows of a table stage no edge twice. -/
theorem nodup_flatMap_edges (h : ∀ row ∈ rows, row.Sourced store ∧ row.cells.length ≤ width) :
    (rows.zipIdx.flatMap fun row => row.1.edges p width row.2).Nodup := by
  refine List.nodup_flatMap.2 ⟨fun row hrow => ?_, ?_⟩
  · obtain ⟨hsourced, hwidth⟩ := h _ (List.fst_mem_of_mem_zipIdx hrow)
    exact nodup_edges hsourced hwidth
  · refine (Extent.places_ne rows).imp_of_mem fun {a b} ha hb hne edge hedge hedge' => hne ?_
    have hin := inRow_of_mem_edges hedge (h _ (List.fst_mem_of_mem_zipIdx ha)).2
    have hin' := inRow_of_mem_edges hedge' (h _ (List.fst_mem_of_mem_zipIdx hb)).2
    exact hin.eq hin'

section

variable {row : ComputedRow × Nat} (hwidth : ∀ row ∈ rows, row.cells.length ≤ width)
  (hrow : row ∈ rows.zipIdx)
include hwidth hrow

/-- What a row or one of its values owns are edges of that row. -/
theorem filter_edges_of_inRow {id : Id} (hid : Draft.InRow p.id.number width row.2 id) :
    (rows.zipIdx.flatMap fun row => row.1.edges p width row.2).filter (fun edge => edge.owner.id = id) =
      (row.1.edges p width row.2).filter fun edge => edge.owner.id = id := by
  rw [List.filter_flatMap,
    List.flatMap_eq_of_key (List.nodup_zipIdx_map_snd rows) hrow fun other hother hne => ?_]
  refine List.filter_eq_nil_iff.2 fun edge hedge heq => hne ?_
  have hin := inRow_of_mem_edges hedge (hwidth _ (List.fst_mem_of_mem_zipIdx hother))
  rw [of_decide_eq_true heq] at hin
  exact hin.eq hid

/-- The edges that a row owns are those to its sources. -/
theorem filter_edges_of_row :
    (rows.zipIdx.flatMap fun row => row.1.edges p width row.2).filter
        (fun edge => edge.owner.id = Draft.rowId p.id.number width row.2) =
      row.1.sources.map fun e => ⟨⟨.derivedRow, Draft.rowId p.id.number width row.2⟩, .rowSource, e⟩ := by
  have hvalues : (row.1.cells.zipIdx.flatMap fun cell => cell.1.2.map fun e => (⟨⟨.evaluatedValue,
      Draft.valueId p.id.number width row.2 cell.2⟩, .valueSource, e⟩ : Edge)).filter
      (fun edge => edge.owner.id = Draft.rowId p.id.number width row.2) = [] := by
    refine List.filter_eq_nil_iff.2 fun edge hedge heq => ?_
    obtain ⟨cell, hcell, hedge⟩ := List.mem_flatMap.1 hedge
    obtain ⟨e, -, rfl⟩ := List.mem_map.1 hedge
    have hlt := Nat.lt_of_lt_of_le (List.snd_lt_of_mem_zipIdx hcell)
      (hwidth _ (List.fst_mem_of_mem_zipIdx hrow))
    exact Draft.rowId_ne_valueId hlt (of_decide_eq_true heq).symm
  rw [filter_edges_of_inRow hwidth hrow Draft.inRow_rowId, edges, List.filter_append, hvalues,
    List.append_nil]
  refine List.filter_eq_self.2 fun edge hedge => ?_
  obtain ⟨e, -, rfl⟩ := List.mem_map.1 hedge
  exact decide_eq_true rfl

/-- The edges that a value owns are those to the values that were read for it. -/
theorem filter_edges_of_value {cell : (Scalar × List Entity) × Nat} (hcell : cell ∈ row.1.cells.zipIdx) :
    (rows.zipIdx.flatMap fun row => row.1.edges p width row.2).filter
        (fun edge => edge.owner.id = Draft.valueId p.id.number width row.2 cell.2) =
      cell.1.2.map fun e =>
        ⟨⟨.evaluatedValue, Draft.valueId p.id.number width row.2 cell.2⟩, .valueSource, e⟩ := by
  have hlt : ∀ cell ∈ row.1.cells.zipIdx, cell.2 < width := fun cell hcell =>
    Nat.lt_of_lt_of_le (List.snd_lt_of_mem_zipIdx hcell) (hwidth _ (List.fst_mem_of_mem_zipIdx hrow))
  have hsources : (row.1.sources.map fun e => (⟨⟨.derivedRow, Draft.rowId p.id.number width row.2⟩,
      .rowSource, e⟩ : Edge)).filter
      (fun edge => edge.owner.id = Draft.valueId p.id.number width row.2 cell.2) = [] := by
    refine List.filter_eq_nil_iff.2 fun edge hedge heq => ?_
    obtain ⟨e, -, rfl⟩ := List.mem_map.1 hedge
    exact Draft.rowId_ne_valueId (hlt cell hcell) (of_decide_eq_true heq)
  rw [filter_edges_of_inRow hwidth hrow (Draft.inRow_valueId (hlt cell hcell)), edges, List.filter_append,
    hsources, List.nil_append, List.filter_flatMap,
    List.flatMap_eq_of_key (List.nodup_zipIdx_map_snd row.1.cells) hcell fun other hother hne => ?_]
  · refine List.filter_eq_self.2 fun edge hedge => ?_
    obtain ⟨e, -, rfl⟩ := List.mem_map.1 hedge
    exact decide_eq_true rfl
  · refine List.filter_eq_nil_iff.2 fun edge hedge heq => hne ?_
    obtain ⟨e, -, rfl⟩ := List.mem_map.1 hedge
    exact (Draft.valueId_inj (hlt other hother) (hlt cell hcell) (of_decide_eq_true heq)).2

end

end ComputedRow

/-! ## Edges of definitions -/

namespace Derive

variable {c : Catalog} {creation : Creation} {plan : List ColumnPlan} {edge : Edge}

/-- An edge of a definition leads from the creation to a table or a column that it reads, or from a planned
column to a column that it reads. -/
theorem cases_of_mem_definitionEdges (h : edge ∈ definitionEdges creation plan) :
    (edge.owner = creation.entity ∧
        (edge.kind = .creationTable ∧ edge.target ∈ creation.sourceTables ∨
          edge.kind = .creationColumn ∧ edge.target ∈ creation.sourceColumns)) ∨
      ∃ column ∈ plan, edge.owner = column.column.entity ∧ edge.kind = .functionColumn ∧
        edge.target ∈ column.column.references := by
  rcases List.mem_append.1 h with h | h
  · rcases List.mem_append.1 h with h | h
    · obtain ⟨e, he, rfl⟩ := List.mem_map.1 h
      exact .inl ⟨rfl, .inl ⟨rfl, he⟩⟩
    · obtain ⟨e, he, rfl⟩ := List.mem_map.1 h
      exact .inl ⟨rfl, .inr ⟨rfl, he⟩⟩
  · obtain ⟨column, hcolumn, h⟩ := List.mem_flatMap.1 h
    cases column with
    | fill => cases h
    | compute column e =>
      obtain ⟨e, he, rfl⟩ := List.mem_map.1 h
      exact .inr ⟨_, hcolumn, rfl, rfl, he⟩

theorem nodup_definitionEdges (hcreation : creation.Resolved c)
    (hplan : ∀ column ∈ plan, column.column.Resolved c)
    (hids : (plan.map fun column => column.column.id).Nodup) :
    (definitionEdges creation plan).Nodup := by
  refine List.nodup_append.2 ⟨List.nodup_append.2 ⟨?_, ?_, ?_⟩, List.nodup_flatMap.2 ⟨?_, ?_⟩, ?_⟩
  · exact hcreation.nodup_tables.map fun _ _ heq => congrArg Edge.target heq
  · exact hcreation.nodup_columns.map fun _ _ heq => congrArg Edge.target heq
  · intro edge hedge edge' hedge' heq
    obtain ⟨e, -, rfl⟩ := List.mem_map.1 hedge
    obtain ⟨e', -, rfl⟩ := List.mem_map.1 hedge'
    cases congrArg Edge.kind heq
  · intro column hcolumn
    cases column with
    | fill => exact .nil
    | compute column e =>
      exact (hplan _ hcolumn).nodup_references.map fun _ _ heq => congrArg Edge.target heq
  · refine (List.pairwise_map.1 hids).imp fun {a b} hne edge hedge hedge' => hne ?_
    cases a with
    | fill => cases hedge
    | compute column e =>
      cases b with
      | fill => cases hedge'
      | compute column' e' =>
        obtain ⟨x, -, rfl⟩ := List.mem_map.1 hedge
        obtain ⟨x', -, heq⟩ := List.mem_map.1 hedge'
        have hid := congrArg (fun edge => edge.owner.id) heq
        exact column.entity_id.symm.trans (hid.symm.trans column'.entity_id)
  · intro edge hedge edge' hedge' heq
    have hkind : edge.kind = .creationTable ∨ edge.kind = .creationColumn := by
      rcases List.mem_append.1 hedge with hedge | hedge
      · obtain ⟨e, -, rfl⟩ := List.mem_map.1 hedge
        exact .inl rfl
      · obtain ⟨e, -, rfl⟩ := List.mem_map.1 hedge
        exact .inr rfl
    obtain ⟨column, -, hedge'⟩ := List.mem_flatMap.1 hedge'
    cases column with
    | fill => cases hedge'
    | compute column e =>
      obtain ⟨x, -, rfl⟩ := List.mem_map.1 hedge'
      rw [heq] at hkind
      rcases hkind with hkind | hkind <;> cases hkind

/-- No edge of a definition is one of a row or a value. -/
theorem ne_of_mem_definitionEdges {p : Populated} {row : ComputedRow} {width n : Nat} {edge' : Edge}
    (h : edge ∈ definitionEdges creation plan) (h' : edge' ∈ row.edges p width n) : edge ≠ edge' := by
  rintro rfl
  have hkind : edge.kind = .rowSource ∨ edge.kind = .valueSource := by
    rcases ComputedRow.cases_of_mem_edges h' with ⟨-, hk, -⟩ | ⟨_, -, -, hk, -⟩
    · exact .inl hk
    · exact .inr hk
  rcases cases_of_mem_definitionEdges h with ⟨-, ⟨hk, -⟩ | ⟨hk, -⟩⟩ | ⟨_, -, -, hk, -⟩ <;> simp [hk] at hkind

end Derive

end Provenance

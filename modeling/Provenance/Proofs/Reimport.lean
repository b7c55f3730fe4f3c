import Provenance.Proofs.Confluence
import Provenance.Proofs.Decimal.Rounding
import Provenance.Proofs.Grid
import Provenance.Proofs.Json.Fields
import Provenance.Proofs.Json.Reparse
import Provenance.Proofs.Schema.Literals

/-!
# Exported tables supplied again

A payload that is exported can be read as every data type that it conforms to, and what is read equals it
(`Scalar.exists_coerce_toJson`). The result set of a view holds a record for every row, in which the payloads are
found under the names of their columns (`RowView.lookup_exported`), and this is so too for a text of it
(`TableView.ofText_document`). A table whose records are all accepted is materialized with what they hold
(`Run.Reachable.exists_supplied`). So the result set, supplied for a table that declares the columns of the view,
fills that table with the same payloads. Main statement: `Run.Reachable.reimports`.
-/

namespace Provenance

/-! ## Payloads -/

theorem Text.trim_ofList {cs : List Char} (h : ∀ c ∈ cs, isBlank c = false) :
    trim (String.ofList cs) = String.ofList cs := by
  have hdrop : ∀ {cs : List Char}, (∀ c ∈ cs, isBlank c = false) → cs.dropWhile isBlank = cs := by
    intro cs h
    cases cs with
    | nil => rfl
    | cons c cs => exact List.dropWhile_cons_of_neg (by simp [h c List.mem_cons_self])
  have hreverse : ∀ c ∈ cs.reverse, isBlank c = false := fun c hc => h c (List.mem_reverse.1 hc)
  rw [trim, trimChars, String.toList_ofList, hdrop h, hdrop hreverse, List.reverse_reverse]

namespace Decimal

theorem isBlank_of_mem_chars {d : Decimal} {c : Char} (h : c ∈ d.chars) : Text.isBlank c = false := by
  have hdigit : ∀ {c : Char}, Text.Digits.isDigit c = true → Text.isBlank c = false := by
    intro c hc
    simp only [Text.Digits.isDigit, Bool.and_eq_true, decide_eq_true_eq] at hc
    simp only [Text.isBlank, Bool.or_eq_false_iff, Bool.and_eq_false_iff, decide_eq_false_iff_not, beq_eq_false_iff_ne]
    omega
  have hpadded : ∀ {n : Nat}, ∀ c ∈ List.replicate n '0' ++ Text.Digits.write d.coefficient,
      Text.isBlank c = false := by
    intro n c hc
    rcases List.mem_append.1 hc with hc | hc
    · rw [(List.mem_replicate.1 hc).2]
      rfl
    · exact hdigit (Text.Digits.isDigit_of_mem_write c hc)
  have hmagnitude : ∀ c ∈ magnitude d.coefficient d.scale, Text.isBlank c = false := by
    intro c hc
    unfold magnitude at hc
    split at hc
    · exact hdigit (Text.Digits.isDigit_of_mem_write c hc)
    · rcases List.mem_append.1 hc with hc | hc
      · exact hpadded c (List.mem_of_mem_take hc)
      · rcases List.mem_cons.1 hc with rfl | hc
        · rfl
        · exact hpadded c (List.mem_of_mem_drop hc)
  unfold chars at h
  split at h
  · rcases List.mem_cons.1 h with rfl | h
    · rfl
    · exact hmagnitude c h
  · exact hmagnitude c h

theorem read?_trim_text (d : Decimal) : read? (Text.trim d.text) = some d.unsignZero := by
  rw [text, Text.trim_ofList fun c => isBlank_of_mem_chars, ← text, read?_text]

theorem eqv_normalize (d : Decimal) : d.normalize.eqv d := by
  rw [eqv, compare_eq, toRat_normalize, beq_iff_eq, compare_eq_iff_eq]

end Decimal

namespace Scalar

variable {type : DataType} {raw : Json} {v w : Scalar}

theorem coerce_eq_ok_iff : coerce type raw = .ok v ↔ ofRaw? type raw = some v := by
  unfold coerce
  cases ofRaw? type raw <;> simp

/-- What is exported is read as a payload with the same value. -/
theorem exists_coerce_toJson (h : v.conforms type) : ∃ w, coerce type v.toJson = .ok w ∧ w.eqv v := by
  simp only [coerce_eq_ok_iff]
  cases v with
  | null => exact ⟨.null, rfl, rfl⟩
  | bool b =>
    cases type <;> cases h
    exact ⟨.bool b, rfl, eqv_refl _⟩
  | int i =>
    cases type <;> cases h
    refine ⟨.int i, ?_, eqv_refl _⟩
    change (Integer.ofInt? i.val).map Scalar.int = _
    rw [i.ofInt?_val, Option.map_some]
  | text s =>
    cases type <;> cases h
    exact ⟨.text s, rfl, eqv_refl _⟩
  | decimal d =>
    cases type <;> cases h
    have heqv := Decimal.eqv_trans (Decimal.eqv_symm d.normalize.eqv_unsignZero) d.eqv_normalize
    refine ⟨.decimal d.normalize.unsignZero, ?_, heqv⟩
    change (Decimal.read? (Text.trim d.normalize.text)).map Scalar.decimal = _
    rw [Decimal.read?_trim_text, Option.map_some]

/-- What is read as a data type conforms to it. -/
theorem conforms_of_coerce (h : coerce type raw = .ok v) : v.conforms type := by
  rw [coerce_eq_ok_iff] at h
  have hmap : ∀ {α : Type} {x : Option α} {f : α → Scalar}, x.map f = some v →
      (∀ a, (f a).conforms type) → v.conforms type := by
    intro α x f hx hf
    obtain ⟨a, -, rfl⟩ := Option.map_eq_some_iff.1 hx
    exact hf a
  unfold ofRaw? at h
  split at h
  · cases h
    rfl
  · cases type with
    | integer | decimal => exact hmap h fun _ => rfl
    | text =>
      dsimp only at h
      split at h
      · cases h
        rfl
      · exact hmap h fun _ => rfl
    | boolean =>
      dsimp only at h
      split at h
      · cases h
        rfl
      · cases h

end Scalar

/-! ## Records -/

/-- The columns of a view have different names, and every row has a cell in each of them. -/
structure TableView.Rectangular (view : TableView) : Prop where
  single : view.columns.Nodup
  rows : ∀ row ∈ view.rows, row.cells.map CellView.column = view.columns

/-- A table declares the columns of a view, with data types that the payloads of the view conform to. -/
structure TableView.Fits (view : TableView) (d : TableDefinition) : Prop where
  columns : ∀ column, column ∈ view.columns ↔ column ∈ d.fields.map FieldDefinition.name
  types : ∀ f ∈ d.fields, ∀ row ∈ view.rows, ∀ cell, row.cell? f.name = some cell →
    cell.payload.conforms f.type

/-- Two rows have cells in the same columns, with equal payloads. -/
def RowView.SamePayloads (row row' : RowView) : Prop :=
  ∀ column, Option.Rel (fun cell cell' => cell'.payload.eqv cell.payload) (row.cell? column) (row'.cell? column)

namespace RowView

/-- A row as an object of the result set. -/
def exported (row : RowView) : SourceRecord :=
  (TableView.record row).map fun field => (field.1, field.2.toJson)

variable {row : RowView} {column : String}

theorem cell?_eq_none_iff : row.cell? column = none ↔ column ∉ row.cells.map CellView.column := by
  simp [cell?, List.find?_eq_none]

theorem lookup_cells : (row.cells.map fun cell => (cell.column, cell.payload)).lookup column =
    (row.cell? column).map CellView.payload := by
  obtain ⟨_, _, cells⟩ := row
  unfold cell?
  induction cells with
  | nil => rfl
  | cons cell cells ih =>
    rw [List.map_cons, List.lookup_cons_eq_ite, List.find?_cons, ih]
    by_cases hcolumn : column = cell.column
    · simp [hcolumn]
    · simp [hcolumn, Ne.symm hcolumn]

theorem lookup_exported (h : (row.cells.map CellView.column).Nodup) (column : String) :
    row.exported.lookup column = (row.cell? column).map fun cell => cell.payload.toJson := by
  have hsingle : ((row.cells.map fun cell => (cell.column, cell.payload)).map Prod.fst).Nodup := by
    rwa [List.map_map]
  rw [exported, TableView.record, List.lookup_map_snd, Json.lookup_sortFields hsingle, lookup_cells,
    Option.map_map]
  rfl

end RowView

namespace TableView

/-- The result set of a view is read as the records of its rows. -/
theorem readRecords?_toJson (view : TableView) :
    SourceData.readRecords? view.toJson = some (view.rows.map RowView.exported) := by
  rw [toJson, SourceData.readRecords?, records, List.mapM_eq_some_iff, List.map_map, List.forall₂_map_left_iff,
    List.forall₂_map_right_iff, List.forall₂_same]
  exact fun _ _ => rfl

end TableView

/-! ## Documents -/

theorem Scalar.plain_toJson (v : Scalar) : v.toJson.Plain := by
  cases v with
  | int i => exact .int i.le_val (i.val_lt.trans (by decide))
  | null | bool | text | decimal => constructor

theorem Scalar.read?_toJson (depth : Nat) (v : Scalar) : v.toJson.read? depth = some v.toJson := by
  cases v <;> rfl

namespace RowView

theorem sortFields_exported (row : RowView) : Json.sortFields row.exported = row.exported := by
  rw [exported, Json.sortFields_map_snd, TableView.record, Json.sortFields_sortFields]

theorem read?_exported (depth : Nat) (row : RowView) :
    (Json.object row.exported).read? (depth + 1) = some (.object row.exported) := by
  have hfields : ∀ fields : List (String × Scalar),
      Json.readFields? depth (fields.map fun field => (field.1, field.2.toJson)) =
        some (fields.map fun field => (field.1, field.2.toJson)) := by
    intro fields
    induction fields with
    | nil => rfl
    | cons field rest ih =>
      rw [List.map_cons, Json.readFields?, Scalar.read?_toJson, ih]
      rfl
  rw [Json.read?, exported, hfields, ← exported, Option.map_some, sortFields_exported]

end RowView

namespace TableView

/-- The result set of a view as the records of a table. -/
def document (view : TableView) (name : String) : Json := .object [(name, view.toJson)]

theorem toJson_eq (view : TableView) :
    view.toJson = .array ((view.rows.map RowView.exported).map .object) := by
  rw [toJson, records, List.map_map, List.map_map]
  rfl

theorem plain_document (view : TableView) (name : String) : (view.document name).Plain := by
  simp only [document, toJson_eq, Json.plain_object_iff, Json.plain_array_iff, List.mem_singleton, List.mem_map,
    forall_eq, forall_exists_index, and_imp, forall_apply_eq_imp_iff₂, RowView.exported]
  exact fun row _ field _ => field.2.plain_toJson

/-- A text of a result set holds the records of the rows. -/
theorem ofText_document {text : String} {view : TableView} {name : String}
    (h : Json.parse? text = some (view.document name)) :
    SourceData.ofText text = .ok ⟨[(name, view.rows.map RowView.exported)]⟩ := by
  have hitems : ∀ rows : List RowView, Json.readItems? 125 ((rows.map RowView.exported).map .object) =
      some ((rows.map RowView.exported).map .object) := by
    intro rows
    induction rows with
    | nil => rfl
    | cons row rest ih =>
      rw [List.map_cons, List.map_cons, Json.readItems?, RowView.read?_exported, ih]
      rfl
  have hread : (view.document name).read? Json.depthLimit = some (view.document name) := by
    rw [document, toJson_eq, Json.depthLimit, Json.read?, Json.readFields?, Json.read?, hitems]
    rfl
  have hall : SourceData.ofText.readAll? text = some (view.document name) := by
    unfold SourceData.ofText.readAll?
    rw [h, Option.bind_eq_bind, Option.bind_some, ← hread]
    simp only [document, List.mapM_cons, List.mapM_nil, readRecords?_toJson]
    rfl
  have hdata : SourceData.ofJson? (view.document name) =
      some ⟨[(name, view.rows.map RowView.exported)]⟩ := by
    simp only [document, SourceData.ofJson?, List.mapM_cons, List.mapM_nil, readRecords?_toJson]
    rfl
  rw [SourceData.ofText, hall, Option.bind_some, hdata]

end TableView

/-! ## Supplied tables -/

namespace Populate

variable {strict : Bool} {table : Table} {columns : List Column} {r : SourceRecord}

/-- A record is accepted if it has fields of the table only. -/
theorem checkFields_eq_ok (h : ∀ field ∈ r, ∃ column ∈ columns, column.name = field.1) :
    checkFields strict table columns r = .ok () := by
  unfold checkFields
  split
  · next field hfind =>
    obtain ⟨column, hcolumn, hname⟩ := h field (List.mem_of_find?_eq_some hfind)
    have hother := List.find?_some hfind
    exact absurd hname (of_decide_eq_true (List.all_eq_true.1 hother column hcolumn))
  · rfl

end Populate

namespace TableView

variable {view : TableView} {d : TableDefinition} {s : Schema} {first : Nat} {strict : Bool} {table : Table}
  {row : RowView} {payloads : List Scalar}

theorem Rectangular.lookup_exported (h : view.Rectangular) (hrow : row ∈ view.rows) (column : String) :
    row.exported.lookup column = (row.cell? column).map fun cell => cell.payload.toJson :=
  RowView.lookup_exported (by rw [h.rows row hrow]; exact h.single) column

section

variable (h : view.Rectangular) (hfits : view.Fits d) (hrow : row ∈ view.rows)
include h hfits hrow

theorem Fits.mem_iff_exists_cell {column : String} :
    column ∈ d.fields.map FieldDefinition.name ↔ ∃ cell, row.cell? column = some cell := by
  rw [← hfits.columns, ← h.rows row hrow, ← not_iff_not, ← RowView.cell?_eq_none_iff,
    Option.eq_none_iff_forall_ne_some, not_exists]

/-- What a row was exported as fills a row of a table that declares its columns. -/
theorem Fits.exists_fills :
    ∃ payloads, Populate.Fills strict table (d.fields.map (s.compileField first d)) row.exported payloads := by
  have hholds : ∀ f ∈ d.fields, ∃ payload, Populate.Holds row.exported (s.compileField first d f) payload := by
    intro f hf
    obtain ⟨cell, hcell⟩ := (hfits.mem_iff_exists_cell h hrow).1 (List.mem_map_of_mem hf)
    obtain ⟨payload, hcoerce, -⟩ := Scalar.exists_coerce_toJson (hfits.types f hf row hrow cell hcell)
    refine ⟨payload, f.type, rfl, ?_, Scalar.conforms_of_coerce hcoerce⟩
    rw [show (s.compileField first d f).name = f.name from rfl, h.lookup_exported hrow, hcell]
    exact hcoerce
  obtain ⟨payloads, hpayloads⟩ := List.exists_forall₂ hholds
  refine ⟨payloads, Populate.checkFields_eq_ok fun field hfield => ?_, List.forall₂_map_left_iff.2 hpayloads⟩
  obtain ⟨raw, hraw⟩ := List.exists_lookup_of_mem hfield
  rw [h.lookup_exported hrow] at hraw
  obtain ⟨cell, hcell, -⟩ := Option.map_eq_some_iff.1 hraw
  obtain ⟨f, hf, hname⟩ := List.mem_map.1 ((hfits.mem_iff_exists_cell h hrow).2 ⟨cell, hcell⟩)
  exact ⟨s.compileField first d f, List.mem_map_of_mem hf, hname⟩

/-- A row that is filled from what a row was exported as has the same payloads. -/
theorem Fits.samePayloads (hsingle : (d.fields.map FieldDefinition.name).Nodup)
    (hfills : Populate.Fills strict table (d.fields.map (s.compileField first d)) row.exported payloads)
    (p : Populated) (number n : Nat) :
    row.SamePayloads (.ofSource number (.filled p (d.fields.map FieldDefinition.name) (payloads, n))) := by
  have hholds := List.forall₂_map_left_iff.1 hfills.2
  have hlength : payloads.length = (d.fields.map FieldDefinition.name).length := by
    rw [List.length_map]
    exact hholds.length_eq.symm
  intro column
  rw [RowView.cell?_ofSource]
  by_cases hcolumn : column ∈ d.fields.map FieldDefinition.name
  · obtain ⟨k, hk⟩ := List.mem_iff_getElem?.1 hcolumn
    obtain ⟨f, hf, rfl⟩ := Option.map_eq_some_iff.1 (List.getElem?_map ▸ hk)
    obtain ⟨payload, hpayload, type, hkind, hcoerce, -⟩ := hholds.exists_of_getElem?_left hf
    obtain ⟨cell, hcell⟩ := (hfits.mem_iff_exists_cell h hrow).1 hcolumn
    cases hkind
    obtain ⟨w, hw, heqv⟩ :=
      Scalar.exists_coerce_toJson (hfits.types f (List.mem_of_getElem? hf) row hrow cell hcell)
    rw [show (s.compileField first d f).name = f.name from rfl, h.lookup_exported hrow, hcell] at hcoerce
    cases hcoerce.symm.trans hw
    rw [SourceRow.cell?_filled hsingle hlength hk hpayload, hcell]
    exact .some heqv
  · have hnone : row.cell? column = none := by
      rwa [RowView.cell?_eq_none_iff, h.rows row hrow, hfits.columns]
    have hfilled : (SourceRow.filled p (d.fields.map FieldDefinition.name) (payloads, n)).cell? column = none := by
      have hnames : (SourceRow.filled p (d.fields.map FieldDefinition.name) (payloads, n)).cells.map Prod.fst =
          d.fields.map FieldDefinition.name := SourceRow.names_filled hlength
      refine List.lookup_eq_none_iff.2 fun cell hcell => bne_iff_ne.2 fun heq => hcolumn ?_
      rw [heq, ← hnames]
      exact List.mem_map_of_mem hcell
    rw [hnone, hfilled]
    exact .none

end

end TableView

/-- A table is derivable if records are supplied that are all accepted. -/
theorem Derivable.of_supplied {setup : Setup} {t : Table} (ht : t ∈ setup.catalog.tables)
    (hsupplied : t.creation = none)
    (h : ∀ record ∈ setup.data.records t.name, ∃ payloads, Populate.Fills setup.settings.strictColumns t
      (setup.catalog.columnsOf t.id) record payloads) : Derivable setup t := by
  obtain ⟨rows, hrows⟩ := List.exists_forall₂ h
  let p : Populated := ⟨⟨0⟩, ⟨0⟩, t.id, t.origin, .epoch⟩
  have hp : p.Of t := ⟨rfl, rfl⟩
  have hdraft := (Populate.draft_eq_ok_iff (hp.database hsupplied) hp.table).2 ⟨rows, hrows, rfl⟩
  have hstaged : stage setup .empty p t = Populate.draft setup p t := by rw [stage, hsupplied]
  refine ⟨_, .of_held ht Store.sound_empty (fun t' hreads => ?_) hp (hstaged.trans hdraft)⟩
  rw [Catalog.Reads, Table.sources, hsupplied] at hreads
  exact absurd hreads.2 List.not_mem_nil

namespace Run

variable {r q : Run} {name : String} {view : TableView}

/-- A table whose records are all accepted is materialized with what they hold. -/
theorem Reachable.exists_supplied (hq : q.Reachable) {t : Table} (ht : t ∈ q.setup.catalog.tables)
    (hsupplied : t.creation = none)
    (h : ∀ record ∈ q.setup.data.records t.name, ∃ payloads, Populate.Fills q.setup.settings.strictColumns t
      (q.setup.catalog.columnsOf t.id) record payloads) :
    ∃ (p : Populated) (rows : List (List Scalar)),
      List.Forall₂ (Populate.Fills q.setup.settings.strictColumns t (q.setup.catalog.columnsOf t.id))
        (q.setup.data.records t.name) rows ∧
      (q.materialize t.name).1 = .ok ⟨t.name, p.entity, (q.setup.catalog.columnsOf t.id).map Column.name,
        rows.zipIdx.map fun row =>
          .ofSource row.2 (.filled p ((q.setup.catalog.columnsOf t.id).map Column.name) row)⟩ := by
  obtain ⟨hwf, cs, hmade⟩ := hq.exists_madeOf
  have hfind := hwf.table_of_mem ht
  have hok := (hq.initTable_eq_ok_iff hfind).2 (.of_supplied ht hsupplied h)
  obtain ⟨hsetup, cs', hmade', c, hc, rfl⟩ := committed_of_initTable hwf hmade hfind hok
  have hview := tableView_of_committed (r := (q.initTable c.table.name).2) (hsetup ▸ hwf) (hsetup ▸ hmade') hc
  obtain ⟨before, after, -, follows⟩ := hmade'.history.exists_follows hc
  rcases follows.cases_of_staged with ⟨rows, hrows⟩ | ⟨creation, _, _, _, _, hcomputed⟩
  · have hfilled := hrows.filledWith hwf
    refine ⟨c.draft.extent.populated, rows, hrows.fills, ?_⟩
    rw [(materialize_of_ok hok).1, hview, hsetup, hfilled.extent, Extent.view_filled hfilled.columns]
    rfl
  · cases hsupplied.symm.trans hcomputed.derived

theorem Reachable.rectangular (hr : r.Reachable) (hview : r.tableView name = .ok view) : view.Rectangular := by
  obtain ⟨hwf, cs, hmade⟩ := hr.exists_madeOf
  obtain ⟨schema, first, compiled⟩ := hr.exists_compile
  have hnamed := Schema.named_of_compile compiled
  obtain ⟨c, hc, rfl, -⟩ := exists_of_tableView hwf hmade hview
  obtain ⟨before, after, -, follows⟩ := hmade.history.exists_follows hc
  obtain ⟨columns, rows, hlaid⟩ := follows.exists_laid
  have hgrid := hmade.grid_of_laid hwf hc hlaid
  have hfor : r.state.store.populatedFor? c.table.id = some c.draft.extent.populated := by
    rw [← (hmade.history.populates hc).table]
    exact (hmade.sound hwf).populatedFor?_of_mem (hmade.mem_extents hc)
  obtain ⟨view', hview', hshows⟩ := hgrid.exists_view hwf hnamed hfor
  cases hview.symm.trans hview'
  refine ⟨?_, hshows.rectangular⟩
  rw [hshows.columns]
  exact (hnamed.single c.table hgrid.known).sublist (hgrid.declared.map Column.name)

/-- The result set of a view, supplied for a table that declares its columns, fills that table with the same
payloads row by row. -/
theorem Reachable.exists_samePayloads (hq : q.Reachable) {s : Schema} {first : Nat}
    (compiled : s.compile first = .ok q.setup.catalog) {d : TableDefinition} (hd : d ∈ s.tables)
    (h : view.Rectangular) (hfits : view.Fits d)
    (hrecords : q.setup.data.records d.name = view.rows.map RowView.exported) :
    ∃ view', (q.materialize d.name).1 = .ok view' ∧ view'.columns = d.fields.map FieldDefinition.name ∧
      List.Forall₂ RowView.SamePayloads view.rows view'.rows := by
  let t := s.compileTable first d
  have hcompiled := Schema.compiled_of_compile compiled
  have hwf := Schema.wellFormed_of_compile compiled
  have ht : t ∈ q.setup.catalog.tables := by
    obtain ⟨derived, -, htables⟩ := hcompiled.tables
    exact htables ▸ List.mem_append_left _ (List.mem_map_of_mem hd)
  have hcolumns := hcompiled.fieldsOf_eq hd ht rfl
  have hnames : (q.setup.catalog.columnsOf t.id).map Column.name = d.fields.map FieldDefinition.name := by
    rw [hcolumns, List.map_map]
    rfl
  have hsingle := hcompiled.single hwf ht
  have hfillable : ∀ record ∈ q.setup.data.records t.name, ∃ payloads,
      Populate.Fills q.setup.settings.strictColumns t (q.setup.catalog.columnsOf t.id) record payloads := by
    rw [show t.name = d.name from rfl, hrecords, hcolumns]
    intro record hrecord
    obtain ⟨row, hrow, rfl⟩ := List.mem_map.1 hrecord
    exact hfits.exists_fills h hrow
  obtain ⟨p, rows, hrows, hview⟩ := hq.exists_supplied ht rfl hfillable
  refine ⟨_, hview, hnames, ?_⟩
  rw [show t.name = d.name from rfl, hrecords, hcolumns, List.forall₂_map_left_iff] at hrows
  rw [hnames] at hsingle ⊢
  have hnumbered : List.Forall₂ (fun row payloads => Populate.Fills q.setup.settings.strictColumns t
      (d.fields.map (s.compileField first d)) row.exported payloads.1) view.rows rows.zipIdx := by
    rw [← List.forall₂_map_right_iff, List.zipIdx_map_fst]
    exact hrows
  refine List.forall₂_map_right_iff.2 (hnumbered.mem_left.imp fun row payloads hrow => ?_)
  exact hfits.samePayloads h hrow.1 hsingle hrow.2 p payloads.2 payloads.2

/-- Exported results can be supplied again. A payload is read as an equal one of every data type that it
conforms to, and whatever is read as a data type conforms to it and can be exported and read again. The result
set of a view, also through its text, holds a record for every row. Supplied to a run for a table that declares
the columns of the view, with data types that its payloads conform to, these records fill the table with the same
payloads row by row. -/
theorem Reachable.reimports (hq : q.Reachable) {s : Schema} {first : Nat}
    (compiled : s.compile first = .ok q.setup.catalog) :
    (∀ (v : Scalar) (type : DataType), v.conforms type →
      ∃ w, Scalar.coerce type v.toJson = .ok w ∧ w.eqv v) ∧
    (∀ (raw : Json) (type : DataType) (v : Scalar), Scalar.coerce type raw = .ok v →
      v.conforms type ∧ ∃ w, Scalar.coerce type v.toJson = .ok w ∧ w.eqv v) ∧
    (∀ (r : Run) name view, r.Reachable → r.tableView name = .ok view → view.Rectangular) ∧
    ∀ view : TableView, ∃ records, SourceData.readRecords? view.toJson = some records ∧
      (∀ name, SourceData.ofText (view.document name).compact = .ok ⟨[(name, records)]⟩ ∧
        SourceData.ofText (view.document name).pretty = .ok ⟨[(name, records)]⟩) ∧
      ∀ d ∈ s.tables, view.Rectangular → view.Fits d → q.setup.data.records d.name = records →
        ∃ view', (q.materialize d.name).1 = .ok view' ∧ view'.columns = d.fields.map FieldDefinition.name ∧
          List.Forall₂ RowView.SamePayloads view.rows view'.rows := by
  refine ⟨fun v type => Scalar.exists_coerce_toJson, fun raw type v h => ?_, fun r name view hr hview => ?_,
    fun view => ⟨_, view.readRecords?_toJson, fun name => ?_, fun d hd h hfits hrecords => ?_⟩⟩
  · have hconforms := Scalar.conforms_of_coerce h
    exact ⟨hconforms, Scalar.exists_coerce_toJson hconforms⟩
  · exact hr.rectangular hview
  · have hplain := view.plain_document name
    exact ⟨TableView.ofText_document hplain.parse?_compact, TableView.ofText_document hplain.parse?_pretty⟩
  · exact hq.exists_samePayloads compiled hd h hfits hrecords

end Run

namespace Sample

/-- The totals of the regions, supplied as sales. -/
def resold : Run :=
  Engine.start ⟨catalog, ⟨none, .abort, true, true⟩, .empty⟩ 10 .epoch "again" []
    ⟨[("sale", [[("amount", .int 8), ("region", .text "north")]])]⟩

theorem reachable_resold : resold.Reachable :=
  have hcompiled : schema.compile 0 = .ok catalog := rfl
  .start hcompiled (by decide)

/-- The totals of the regions can be supplied as sales. -/
theorem reimports_total : ∃ view view' : TableView,
    (run.after (.materialize "total")).tableView "total" = .ok view ∧
      view.toJson = .array [.object [("amount", .int 8), ("region", .text "north")]] ∧
      (resold.materialize "sale").1 = .ok view' ∧ List.Forall₂ RowView.SamePayloads view.rows view'.rows := by
  have hview : ∃ view, (run.after (.materialize "total")).tableView "total" = .ok view ∧
      view.toJson = .array [.object [("amount", .int 8), ("region", .text "north")]] ∧
      view.columns = ["region", "amount"] ∧
      (view.rows.all fun row => (row.cell? "region").all (fun cell => cell.payload.conforms .text) &&
        (row.cell? "amount").all fun cell => cell.payload.conforms .integer) = true :=
    ⟨_, rfl, rfl, rfl, rfl⟩
  obtain ⟨view, hview, hjson, hcolumns, htypes⟩ := hview
  obtain ⟨-, -, hrectangular, hsupplied⟩ := Run.Reachable.reimports (s := schema) reachable_resold rfl
  obtain ⟨records, hrecords, -, hfills⟩ := hsupplied view
  have hfits : view.Fits ⟨"sale", [⟨"region", .text⟩, ⟨"amount", .integer⟩]⟩ := by
    refine ⟨fun column => by rw [hcolumns]; rfl, fun f hf row hrow cell hcell => ?_⟩
    obtain ⟨hregion, hamount⟩ := Bool.and_eq_true_iff.1 (List.all_eq_true.1 htypes row hrow)
    simp only [List.mem_cons, List.not_mem_nil, or_false] at hf
    rcases hf with rfl | rfl
    · rwa [hcell] at hregion
    · rwa [hcell] at hamount
  have hsame : resold.setup.data.records "sale" = records := by
    rw [hjson] at hrecords
    exact Option.some.inj hrecords
  obtain ⟨view', hview', -, hsame⟩ := hfills _ List.mem_cons_self
    (hrectangular _ "total" view (.call reachable_run _) hview) hfits hsame
  exact ⟨view, view', hview, hjson, hview', hsame⟩

end Sample

end Provenance

import Provenance.Proofs.Distinct
import Provenance.Proofs.Traverse
import Provenance.Rows.Key
import Provenance.Rows.Source

/-!
# Rows of one shape

Two rows, bindings or scopes are alike if they have the same tables, columns and empty places, and their
rows and cells correspond under given relations. Looking a column up in alike bindings fails in both, or
finds corresponding cells, or an empty place in both (`Binding.Alike.lookup`).
-/

namespace Provenance

/-- Rows whose cells have the same columns and correspond one by one. -/
structure SourceRow.Alike (P : Entity → Entity → Prop) (Q : Cell → Cell → Prop) (r r' : SourceRow) :
    Prop where
  row : P r.row r'.row
  cells : List.Forall₂ (fun x y => x.1 = y.1 ∧ Q x.2 y.2) r.cells r'.cells

/-- Tables with the same columns whose rows correspond one by one. -/
structure SourceTable.Alike (P : Entity → Entity → Prop) (Q : Cell → Cell → Prop)
    (t t' : SourceTable) : Prop where
  name : t.name = t'.name
  columns : t.columns = t'.columns
  rows : List.Forall₂ (SourceRow.Alike P Q) t.rows t'.rows

/-- Bindings of the same tables whose rows correspond, with the same empty places. -/
def Binding.Alike (P : Entity → Entity → Prop) (Q : Cell → Cell → Prop) (b b' : Binding) : Prop :=
  List.Forall₂
    (fun slot slot' => slot.1.name = slot'.1.name ∧ slot.1.columns = slot'.1.columns ∧
      Option.Rel (SourceRow.Alike P Q) slot.2 slot'.2)
    b.slots b'.slots

/-- Scopes of corresponding bindings, grouped by the same columns, whose keys correspond. -/
inductive Scope.Alike (K : Key → Key → Prop) (P : Entity → Entity → Prop) (Q : Cell → Cell → Prop) :
    Scope → Scope → Prop
  | row {b b' : Binding} (h : b.Alike P Q b') : Alike K P Q (.row b) (.row b')
  | group {key key' : Key} {columns : List ColumnName} {members members' : List Binding}
      (hkey : K key key') (h : List.Forall₂ (Binding.Alike P Q) members members') :
      Alike K P Q (.group key columns members) (.group key' columns members')

section

variable {K : Key → Key → Prop} {P : Entity → Entity → Prop} {Q : Cell → Cell → Prop}

theorem Scope.Alike.partition {s s' : Scope} (h : s.Alike K P Q s') :
    List.Forall₂ (Binding.Alike P Q) s.partition s'.partition := by
  cases h with
  | row h => exact .cons h .nil
  | group _ h => exact h

theorem SourceRow.Alike.cell? {r r' : SourceRow} (h : r.Alike P Q r') (column : String) :
    Option.Rel Q (r.cell? column) (r'.cell? column) := by
  obtain ⟨row, cells⟩ := r
  obtain ⟨row', cells'⟩ := r'
  obtain ⟨-, h⟩ := h
  unfold SourceRow.cell?
  dsimp only at h ⊢
  induction h with
  | nil => exact .none
  | @cons x y xs ys hxy _ ih =>
    obtain ⟨name, cell⟩ := x
    obtain ⟨name', cell'⟩ := y
    obtain ⟨rfl, hcell⟩ : name = name' ∧ Q cell cell' := hxy
    rw [List.lookup_cons, List.lookup_cons]
    split
    · exact .some hcell
    · exact ih

theorem SourceTable.Alike.hasColumn {t t' : SourceTable} (h : t.Alike P Q t') (column : String) :
    t.hasColumn column = t'.hasColumn column := by
  unfold SourceTable.hasColumn
  rw [h.columns]

/-- In alike bindings a column is found in both or in none, and its cells correspond. -/
theorem Binding.Alike.lookup {b b' : Binding} (h : b.Alike P Q b') (name : ColumnName) :
    Except.Rel (Option.Rel Q) (b.lookup name) (b'.lookup name) := by
  have hslot := h.find? (p := fun slot => slot.1.name = name.table)
    (q := fun slot => slot.1.name = name.table) fun x y hxy => by rw [hxy.1]
  unfold Binding.lookup
  generalize b.slots.find? (fun slot => slot.1.name = name.table) = slot? at hslot ⊢
  generalize b'.slots.find? (fun slot => slot.1.name = name.table) = slot?' at hslot ⊢
  cases hslot with
  | none => exact .error
  | @some slot slot' hslot =>
    obtain ⟨t, r⟩ := slot
    obtain ⟨t', r'⟩ := slot'
    obtain ⟨-, hcolumns, hrow⟩ := hslot
    have hhas : t.hasColumn name.column = t'.hasColumn name.column := by
      unfold SourceTable.hasColumn
      rw [hcolumns]
    simp only [← hhas]
    split
    · exact .error
    · cases hrow with
      | none => exact .ok .none
      | @some r r' hrow =>
        have hcell := hrow.cell? name.column
        dsimp only
        generalize r.cell? name.column = cell at hcell ⊢
        generalize r'.cell? name.column = cell' at hcell ⊢
        cases hcell with
        | none => exact .error
        | some hcell => exact .ok (.some hcell)

theorem Binding.alike_single {t t' : SourceTable} (ht : t.Alike P Q t') {r r' : SourceRow}
    (hr : r.Alike P Q r') : (single t r).Alike P Q (single t' r') :=
  .cons ⟨ht.name, ht.columns, .some hr⟩ .nil

theorem Binding.Alike.extend {b b' : Binding} (h : b.Alike P Q b') {t t' : SourceTable}
    (ht : t.Alike P Q t') {r r' : Option SourceRow} (hr : Option.Rel (SourceRow.Alike P Q) r r') :
    (b.extend t r).Alike P Q (b'.extend t' r') :=
  List.rel_append h (.cons ⟨ht.name, ht.columns, hr⟩ .nil)

theorem Binding.Alike.sourceRows {b b' : Binding} (h : b.Alike P Q b') :
    List.Forall₂ P b.sourceRows b'.sourceRows := by
  refine List.rel_filterMap (fun slot slot' hslot => ?_) h
  obtain ⟨t, r⟩ := slot
  obtain ⟨t', r'⟩ := slot'
  obtain ⟨-, -, hrow⟩ := hslot
  cases hrow with
  | none => exact .none
  | some hrow => exact .some hrow.row

theorem Scope.Alike.sourceRows {s s' : Scope} (hP : Relator.BiUnique P) (h : s.Alike K P Q s') :
    List.Forall₂ P s.sourceRows s'.sourceRows :=
  forall₂_distinct hP (List.rel_flatMap h.partition fun _ _ hb => hb.sourceRows)

end

end Provenance

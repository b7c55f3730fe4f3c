import Mathlib.Data.List.Find
import Mathlib.Data.Set.Function
import Provenance.Initialization.Basic
import Provenance.Proofs.Catalog.WellFormed
import Provenance.Proofs.View

/-!
# Moving identities on

Runs over one catalog take their identities from different numbers on. A renaming that leaves the
definitions and moves the identities of one run on to those of another one (`Id.Moves`) finds every
definition where it was.
-/

namespace Provenance

variable {ρ : Id → Id} {c : Catalog} {n n' : Nat}

/-- A renaming that leaves the definitions of a catalog and moves the identities from `n` on to those from
`n'` on. No other identity is taken to where it takes a definition or an identity after `n`. -/
structure Id.Moves (c : Catalog) (n n' : Nat) (ρ : Id → Id) : Prop where
  fixed : ∀ e ∈ c.entities, ρ e.id = e.id
  next : ∀ k, ρ ⟨n + k⟩ = ⟨n' + k⟩
  apart : ∀ j, ((∃ e ∈ c.entities, e.id = j) ∨ n < j.number) → ∀ i, ρ i = ρ j → i = j

/-- Identities before `n` that are no definitions are taken to `n'`. -/
theorem Id.exists_moves (hn : ∀ e ∈ c.entities, e.id.number < n) (hn' : ∀ e ∈ c.entities, e.id.number < n') :
    ∃ ρ, Id.Moves c n n' ρ := by
  let ρ (i : Id) : Id := if i ∈ c.entities.map Entity.id then i else ⟨n' + (i.number - n)⟩
  have hdefined : ∀ e ∈ c.entities, ρ e.id = e.id := fun e he => if_pos (List.mem_map_of_mem he)
  have hother : ∀ i, i ∉ c.entities.map Entity.id → ρ i = ⟨n' + (i.number - n)⟩ := fun i hi => if_neg hi
  have hlater : ∀ i : Id, n ≤ i.number → ρ i = ⟨n' + (i.number - n)⟩ := by
    refine fun i hi => hother i fun hmem => ?_
    obtain ⟨e, he, rfl⟩ := List.mem_map.1 hmem
    exact Nat.not_lt_of_le hi (hn e he)
  refine ⟨ρ, hdefined, fun k => ?_, fun j hj i heq => ?_⟩
  · rw [hlater _ (Nat.le_add_right n k), Nat.add_sub_cancel_left]
  · by_cases hi : i ∈ c.entities.map Entity.id
    · obtain ⟨e, he, rfl⟩ := List.mem_map.1 hi
      rcases hj with ⟨e', he', rfl⟩ | hj
      · rwa [hdefined e he, hdefined e' he'] at heq
      · rw [hdefined e he, hlater j (Nat.le_of_lt hj)] at heq
        exact absurd (congrArg Id.number heq) (by have := hn' e he; dsimp only; omega)
    · rcases hj with ⟨e', he', rfl⟩ | hj
      · rw [hother i hi, hdefined e' he'] at heq
        exact absurd (congrArg Id.number heq) (by have := hn' e' he'; dsimp only; omega)
      · rw [hother i hi, hlater j (Nat.le_of_lt hj)] at heq
        have hnumber := congrArg Id.number heq
        dsimp only at hnumber
        have hsame : i.number = j.number := by omega
        exact congrArg Id.mk hsame

namespace Id.Moves

variable (hρ : Id.Moves c n n' ρ)
include hρ

theorem injOn : Set.InjOn ρ {id | (∃ e ∈ c.entities, e.id = id) ∨ n ≤ id.number} := by
  rintro i hi j hj heq
  by_cases hj' : (∃ e ∈ c.entities, e.id = j) ∨ n < j.number
  · exact hρ.apart j hj' i heq
  · by_cases hi' : (∃ e ∈ c.entities, e.id = i) ∨ n < i.number
    · exact (hρ.apart i hi' j heq.symm).symm
    · have hnumber : i.number = j.number := by
        have hi := hi.resolve_left fun h => hi' (.inl h)
        have hj := hj.resolve_left fun h => hj' (.inl h)
        have hi' : ¬n < i.number := fun h => hi' (.inr h)
        have hj' : ¬n < j.number := fun h => hj' (.inr h)
        change n ≤ i.number at hi
        change n ≤ j.number at hj
        omega
      exact congrArg Id.mk hnumber

theorem definition_eq_iff {e : Entity} (he : e ∈ c.entities) {i : Id} : e.id = ρ i ↔ e.id = i := by
  constructor
  · intro heq
    exact (hρ.apart e.id (.inl ⟨e, he, rfl⟩) i (heq.symm.trans (hρ.fixed e he).symm)).symm
  · rintro rfl
    exact (hρ.fixed e he).symm

theorem fixed_table {t : Table} (ht : t ∈ c.tables) : ρ t.id = t.id := hρ.fixed _ (Catalog.table_entity_mem ht)

theorem fixed_column {col : Column} (hcol : col ∈ c.columns) : ρ col.id = col.id := by
  rw [← col.entity_id]
  exact hρ.fixed _ (Catalog.column_entity_mem hcol)

theorem map_columns {ids : List Id} (h : ∀ id ∈ ids, ∃ col ∈ c.columns, col.id = id) : ids.map ρ = ids := by
  refine (List.map_congr_left fun id hid => ?_).trans (List.map_id ids)
  obtain ⟨col, hcol, rfl⟩ := h id hid
  exact hρ.fixed_column hcol

theorem rename_entity {e : Entity} (he : e ∈ c.entities) : e.rename ρ = e := by
  rw [Entity.rename, hρ.fixed e he]

theorem eq_rename_iff {e e' : Entity} (he : e ∈ c.entities) : e = e'.rename ρ ↔ e = e' := by
  constructor
  · intro heq
    have hkind : e.kind = e'.kind := (congrArg Entity.kind heq :)
    have hid := (hρ.definition_eq_iff he).1 (congrArg Entity.id heq)
    cases e
    cases e'
    cases hkind
    cases hid
    rfl
  · rintro rfl
    exact (hρ.rename_entity he).symm

theorem mem_iff {ids : List Id} (h : ∀ id ∈ ids, ∃ e ∈ c.entities, e.id = id) {i : Id} :
    ρ i ∈ ids ↔ i ∈ ids := by
  constructor
  · intro hi
    obtain ⟨e, he, heq⟩ := h _ hi
    rwa [← (hρ.definition_eq_iff he).1 heq, heq]
  · intro hi
    obtain ⟨e, he, rfl⟩ := h _ hi
    rwa [hρ.fixed e he]

/-! ## Lookups -/

theorem tableById? (i : Id) : c.tableById? (ρ i) = c.tableById? i :=
  List.find?_congr fun _ ht => decide_eq_decide.2 (hρ.definition_eq_iff (Catalog.table_entity_mem ht))

theorem columnById? (i : Id) : c.columnById? (ρ i) = c.columnById? i := by
  refine List.find?_congr fun col hcol => decide_eq_decide.2 ?_
  rw [← col.entity_id]
  exact hρ.definition_eq_iff (Catalog.column_entity_mem hcol)

theorem tableOfCreation? (i : Id) : c.tableOfCreation? (ρ i) = c.tableOfCreation? i := by
  refine List.find?_congr fun t ht => ?_
  cases hc : t.creation with
  | none => rfl
  | some creation =>
    exact decide_eq_decide.2 (hρ.definition_eq_iff (Catalog.creation_entity_mem ht hc))

theorem creationById? (i : Id) : c.creationById? (ρ i) = c.creationById? i := by
  unfold Catalog.creationById?
  rw [hρ.tableOfCreation?]

private theorem filter_rename {α : Type} {entity : α → Entity} {found : Option α} (e : Entity)
    (h : ∀ x, found = some x → entity x ∈ c.entities) :
    found.filter (fun x => entity x = e.rename ρ) = found.filter fun x => entity x = e := by
  cases found with
  | none => rfl
  | some x => simp only [Option.filter, hρ.eq_rename_iff (h x rfl)]

theorem tableOf? (e : Entity) : c.tableOf? (e.rename ρ) = c.tableOf? e := by
  obtain ⟨kind, id⟩ := e
  have htable : (c.tableById? (ρ id)).filter (fun t => t.entity = (⟨kind, ρ id⟩ : Entity)) =
      (c.tableById? id).filter fun t => t.entity = (⟨kind, id⟩ : Entity) := by
    rw [hρ.tableById?]
    exact hρ.filter_rename ⟨kind, id⟩ fun t ht =>
      Catalog.table_entity_mem (Catalog.mem_of_tableById? ht).1
  have hcolumn : (c.columnById? (ρ id)).filter (fun col => col.entity = (⟨kind, ρ id⟩ : Entity)) =
      (c.columnById? id).filter fun col => col.entity = (⟨kind, id⟩ : Entity) := by
    rw [hρ.columnById?]
    exact hρ.filter_rename ⟨kind, id⟩ fun col hcol =>
      Catalog.column_entity_mem (List.mem_of_find?_eq_some hcol)
  cases kind with
  | databaseTable | derivedTable => exact htable
  | databaseField | function => exact congrArg (· >>= fun column => c.tableById? column.table) hcolumn
  | tableCreation => exact hρ.tableOfCreation? id
  | populatedTable | evaluatedTable | databaseRow | derivedRow | databaseValue | evaluatedValue => rfl

end Id.Moves

end Provenance

import Provenance.Proofs.View

/-!
# Stores with other identities

A store whose tables are those of another one with their identities renamed (`Store.Image`) answers lookups by
identity with the renamed things, as long as the renaming keeps apart what is in the store. Identities of a
table follow each other, so a renaming that moves them on from that of the table carries a table that is
filled from payloads to one that is filled from the same payloads (`Extent.image_filled`).
-/

namespace Provenance

/-- A materialized table with its identities renamed. It may have been made at another time. -/
structure Populated.Image (ρ : Id → Id) (p p' : Populated) : Prop where
  id : p'.id = ρ p.id
  trail : p'.trail = ρ p.trail
  table : p'.table = ρ p.table
  origin : p'.origin = p.origin

def Row.rename (ρ : Id → Id) (r : Row) : Row := { r with id := ρ r.id, populated := ρ r.populated }

def Value.rename (ρ : Id → Id) (v : Value) : Value :=
  { v with id := ρ v.id, row := ρ v.row, column := ρ v.column }

/-- A table with its rows and values, their identities renamed. -/
structure Extent.Image (ρ : Id → Id) (x x' : Extent) : Prop where
  populated : x.populated.Image ρ x'.populated
  columns : x'.columns = x.columns.map ρ
  rows : x'.rows = x.rows.map (Row.rename ρ)
  values : x'.values = x.values.map (Value.rename ρ)

/-- A store with the identities of all tables renamed. -/
def Store.Image (ρ : Id → Id) (s s' : Store) : Prop := List.Forall₂ (Extent.Image ρ) s.extents s'.extents

variable {ρ : Id → Id} {c : Catalog}

theorem Populated.Image.entity {p p' : Populated} (h : p.Image ρ p') : p'.entity = p.entity.rename ρ := by
  unfold Populated.entity Entity.rename
  rw [h.id, h.origin]

/-! ## Tables -/

/-- Identities that follow each other move on together. -/
theorem Id.next_of_le {n n' a b k : Nat} (hnext : ∀ k, ρ ⟨n + k⟩ = ⟨n' + k⟩) (ha : a = n + k) (hb : b = n' + k)
    (i : Nat) : ρ ⟨a + i⟩ = ⟨b + i⟩ := by
  rw [ha, hb, Nat.add_assoc, Nat.add_assoc]
  exact hnext (k + i)

namespace Draft

variable {first first' : Nat} (hmoves : ∀ k, ρ ⟨first + k⟩ = ⟨first' + k⟩)
include hmoves

theorem rename_rowId (width n : Nat) : ρ (rowId first width n) = rowId first' width n := by
  unfold rowId
  rw [Nat.add_assoc, Nat.add_assoc, hmoves]

theorem rename_valueId (width n k : Nat) : ρ (valueId first width n k) = valueId first' width n k := by
  unfold valueId
  rw [Nat.add_assoc, Nat.add_assoc, Nat.add_assoc, Nat.add_assoc, hmoves]

end Draft

namespace Extent

variable {x x' : Extent} {p p' : Populated} {columns : List Id} {rows : List (List Scalar)}

/-- A table that is filled from payloads, with its identities moved on. -/
theorem image_filled (columns : List Id) (rows : List (List Scalar)) (hp : p.Image ρ p')
    (hmoves : ∀ k, ρ ⟨p.id.number + k⟩ = ⟨p'.id.number + k⟩) :
    (filled p columns rows).Image ρ (filled p' (columns.map ρ) rows) := by
  refine ⟨hp, rfl, ?_, ?_⟩
  · rw [rows_filled, rows_filled, List.map_map, List.length_map]
    refine List.map_congr_left fun row _ => ?_
    simp only [Function.comp, Row.rename, Row.create, Draft.rename_rowId hmoves, hp.id, hp.origin]
  · rw [values_filled, values_filled, List.map_flatMap, List.length_map]
    congr 1
    funext row
    rw [List.zip_map_left, List.zipIdx_map, List.map_map, List.map_map]
    refine List.map_congr_left fun cell _ => ?_
    simp only [Function.comp, Value.rename, Value.filled, Prod.map, Draft.rename_rowId hmoves,
      Draft.rename_valueId hmoves, hp.origin, id]

/-- A table with its identities moved on is filled from the same payloads. -/
theorem Image.eq_filled (h : x.Image ρ x') (hx : x = filled x.populated columns rows)
    (hmoves : ∀ k, ρ ⟨x.populated.id.number + k⟩ = ⟨x'.populated.id.number + k⟩) :
    x' = filled x'.populated (columns.map ρ) rows := by
  have himage : x.Image ρ (filled x'.populated (columns.map ρ) rows) :=
    hx ▸ image_filled columns rows h.populated hmoves
  have hcolumns := h.columns.trans himage.columns.symm
  have hrows := h.rows.trans himage.rows.symm
  have hvalues := h.values.trans himage.values.symm
  obtain ⟨p', columns', rows', values'⟩ := x'
  dsimp only at hcolumns hrows hvalues
  rw [hcolumns, hrows, hvalues]
  rfl

/-- What stands in the same place of two tables differs by the renaming that moves one to the other. -/
theorem rename_of_pairs (hmoves : ∀ k, ρ ⟨x.populated.id.number + k⟩ = ⟨x'.populated.id.number + k⟩)
    {e e' : Entity} (h : x.Pairs x' e e') : e' = e.rename ρ := by
  obtain ⟨hkind, i, -, he, he'⟩ := h
  obtain ⟨kind, ⟨n⟩⟩ := e
  obtain ⟨kind', ⟨n'⟩⟩ := e'
  dsimp only at hkind he he'
  subst hkind he he'
  rw [Entity.rename, hmoves]

theorem Image.size (h : x.Image ρ x') : x'.size = x.size := by
  rw [Extent.size, Extent.size, h.rows, h.columns, List.length_map, List.length_map]

end Extent

/-! ## Lookups -/

namespace Store

variable {s s' : Store} {id : Id}

theorem last?_rel {α β : Type} {R : α → β → Prop} {p : α → Bool} {q : β → Bool} {xs : List α} {ys : List β}
    (h : List.Forall₂ R xs ys) (hpq : ∀ x ∈ xs, ∀ y, R x y → p x = q y) :
    Option.Rel R (last? p xs) (last? q ys) := by
  have hfind := (List.rel_reverse h.mem_left).find? (p := p) (q := q) fun x y hxy => hpq x hxy.1 y hxy.2
  exact hfind.imp fun _ _ _ _ hxy => hxy.2

theorem last?_map {α β : Type} {f : α → β} {p : α → Bool} {q : β → Bool} {xs : List α}
    (hpq : ∀ x ∈ xs, p x = q (f x)) : last? q (xs.map f) = (last? p xs).map f := by
  have hrel : Option.Rel (fun x y => y = f x) (last? p xs) (last? q (xs.map f)) := by
    refine last?_rel (List.forall₂_map_right_iff.2 (List.forall₂_same.2 fun _ _ => rfl)) ?_
    rintro x hx _ rfl
    exact hpq x hx
  have heq : (last? p xs).map f = (last? q (xs.map f)).map id := hrel.map_eq fun _ _ hxy => hxy.symm
  rw [heq, Option.map_id_fun, id]

theorem id_of_find? (s : Store) {e found : Entity} (h : s.find? e = some found) : found.id = e.id := by
  have hid : ∀ {α : Type} {key : α → Id} {xs : List α} {entity : α → Entity}, (∀ x, (entity x).id = key x) →
      (last? (fun x => key x = e.id) xs).map entity = some found → found.id = e.id := by
    intro α key xs entity hentity h
    obtain ⟨x, hx, rfl⟩ := Option.map_eq_some_iff.1 h
    rw [hentity]
    exact of_decide_eq_true (of_last?_eq_some hx).2
  unfold find? at h
  split at h
  all_goals first | exact hid (fun _ => rfl) h | cases h

/-- A renaming takes no other identity to where it takes one of the store. -/
def Apart (ρ : Id → Id) (s : Store) : Prop :=
  ∀ x ∈ s.extents, ∀ j ∈ x.ids, ∀ i, ρ i = ρ j → i = j

theorem Apart.id_eq_iff (h : s.Apart ρ) {x : Extent} (hx : x ∈ s.extents) {j : Id} (hj : j ∈ x.ids) :
    j = id ↔ ρ j = ρ id :=
  ⟨congrArg ρ, fun heq => (h x hx j hj id heq.symm).symm⟩

namespace Image

variable (h : s.Image ρ s')
include h

theorem populated : List.Forall₂ (Populated.Image ρ) s.populated s'.populated :=
  List.rel_map (fun _ _ hx => hx.populated) h

theorem rows : s'.rows = s.rows.map (Row.rename ρ) := by
  unfold Store.rows
  rw [List.map_flatMap]
  exact (List.Forall₂.flatMap_eq h fun _ _ hx => hx.rows.symm).symm

theorem values : s'.values = s.values.map (Value.rename ρ) := by
  unfold Store.values
  rw [List.map_flatMap]
  exact (List.Forall₂.flatMap_eq h fun _ _ hx => hx.values.symm).symm

variable (happart : s.Apart ρ)
include happart

theorem populated? :
    Option.Rel (Populated.Image ρ) (s.populated? id) (s'.populated? (ρ id)) := by
  refine last?_rel h.populated fun p hp p' hp' => ?_
  obtain ⟨x, hx, rfl⟩ := List.mem_map.1 hp
  rw [hp'.id]
  exact decide_eq_decide.2 (happart.id_eq_iff hx List.mem_cons_self)

theorem row? : s'.row? (ρ id) = (s.row? id).map (Row.rename ρ) := by
  unfold Store.row?
  rw [h.rows, last?_map fun r hr => ?_]
  obtain ⟨x, hx, hr⟩ := List.mem_flatMap.1 hr
  exact decide_eq_decide.2 (happart.id_eq_iff hx (Extent.row_id_mem_ids hr))

theorem value? : s'.value? (ρ id) = (s.value? id).map (Value.rename ρ) := by
  unfold Store.value?
  rw [h.values, last?_map fun v hv => ?_]
  obtain ⟨x, hx, hv⟩ := List.mem_flatMap.1 hv
  exact decide_eq_decide.2 (happart.id_eq_iff hx (Extent.value_id_mem_ids hv))

theorem find? (e : Entity) : s'.find? (e.rename ρ) = (s.find? e).map (Entity.rename ρ) := by
  obtain ⟨kind, id⟩ := e
  have hpopulated : (s'.populated? (ρ id)).map Populated.entity =
      ((s.populated? id).map Populated.entity).map (Entity.rename ρ) := by
    rw [Option.map_map]
    exact ((h.populated? happart).map_eq fun _ _ hp => hp.entity.symm).symm
  have hrow : (s'.row? (ρ id)).map Row.entity = ((s.row? id).map Row.entity).map (Entity.rename ρ) := by
    rw [h.row? happart, Option.map_map, Option.map_map]
    rfl
  have hvalue : (s'.value? (ρ id)).map Value.entity =
      ((s.value? id).map Value.entity).map (Entity.rename ρ) := by
    rw [h.value? happart, Option.map_map, Option.map_map]
    rfl
  cases kind with
  | populatedTable | evaluatedTable => exact hpopulated
  | databaseRow | derivedRow => exact hrow
  | databaseValue | evaluatedValue => exact hvalue
  | databaseTable | derivedTable | tableCreation | databaseField | function => rfl

theorem contains (e : Entity) : s'.contains (e.rename ρ) = s.contains e := by
  unfold Store.contains
  rw [h.find? happart]
  refine decide_eq_decide.2 ⟨fun heq => ?_, fun heq => by rw [heq]; rfl⟩
  obtain ⟨found, hfound, hrename⟩ := Option.map_eq_some_iff.1 heq
  have hkind : found.kind = e.kind := (congrArg Entity.kind hrename :)
  have hid := s.id_of_find? hfound
  obtain ⟨kind, id⟩ := found
  cases hkind
  cases hid
  exact hfound

end Image

end Store

end Provenance

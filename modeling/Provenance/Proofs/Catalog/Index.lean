import Mathlib.Data.List.FinRange
import Provenance.Catalog.Index
import Provenance.Proofs.Catalog.Accepted
import Provenance.Proofs.Store.Sound

/-!
# Indexed lookups

An index keeps the last of what has one key, as the store does (`getElem?_placeByKey`), whereas a lookup that
goes through a catalog ends at the first. In a catalog no two have one key, so both find the same
(`Catalog.Index.Answers`). Main statement: `Schema.answers_index`.
-/

namespace Provenance

/-- If a property is that of one member only, the last member with it is the first one. -/
theorem Store.last?_eq_find? {α : Type} {q : α → Bool} {xs : List α}
    (h : ∀ x ∈ xs, ∀ y ∈ xs, q x → q y → x = y) : last? q xs = xs.find? q := by
  cases hfind : xs.find? q with
  | none => exact List.find?_eq_none.2 fun x hx => List.find?_eq_none.1 hfind x (List.mem_reverse.1 hx)
  | some x =>
    have hx := List.mem_of_find?_eq_some hfind
    have hq := List.find?_some hfind
    exact last?_eq_some hx hq fun y hy hqy => h y hy x hx hqy hq

/-- Of members with different keys the last one with a key is the first one. -/
theorem Store.last?_key_eq_find? {α κ : Type} [DecidableEq κ] {key : α → κ} {xs : List α} {k : κ}
    (h : ∀ x ∈ xs, ∀ y ∈ xs, key x = key y → x = y) :
    last? (fun x => key x = k) xs = xs.find? fun x => key x = k :=
  last?_eq_find? fun x hx y hy hkey hkey' =>
    h x hx y hy ((of_decide_eq_true hkey).trans (of_decide_eq_true hkey').symm)

/-! ## Places under keys -/

section Places

variable {α κ : Type} [DecidableEq κ] [Hashable κ] {k : κ}

/-- Entries that are inserted one after another hide those before them. -/
theorem getElem?_ofList_filterMap {β : Type} (key : α → Option κ) (value : α → β) (xs : List α) :
    (Std.HashMap.ofList (xs.filterMap fun x => (key x).map fun k => (k, value x)))[k]? =
      (Store.last? (fun x => key x = some k) xs).map value := by
  rw [Std.HashMap.ofList_eq_insertMany_empty, Std.HashMap.getElem?_insertMany_list,
    List.findSomeRev?_eq_findSome?_reverse, ← List.filterMap_reverse, Std.HashMap.getElem?_empty, Option.or_none]
  unfold Store.last?
  induction xs.reverse with
  | nil => rfl
  | cons x rest ih =>
    rw [List.filterMap_cons, List.find?_cons]
    cases hkey : key x with
    | none => exact ih
    | some k' =>
      by_cases hk : k' = k
      · simp [hk]
      · simpa [hk] using ih

theorem getElem?_ofList_map {β : Type} (key : α → κ) (value : α → β) (xs : List α) :
    (Std.HashMap.ofList (xs.map fun x => (key x, value x)))[k]? =
      (Store.last? (fun x => key x = k) xs).map value := by
  have h := getElem?_ofList_filterMap (k := k) (fun x => some (key x)) value xs
  simp only [Option.map_some, List.filterMap_eq_map', Option.some.injEq] at h
  exact h

/-- Under a key there is the place of the last member with it. -/
theorem getElem?_placeByKey (key : α → Option κ) (xs : List α) :
    (placeByKey key xs)[k]?.map xs.get = Store.last? (fun x => key x = some k) xs := by
  conv_rhs => rw [← List.map_get_finRange xs]
  unfold placeByKey
  rw [getElem?_ofList_filterMap]
  unfold Store.last?
  rw [← List.map_reverse, List.find?_map, Option.map_id']
  rfl

/-- If the keys are single, then under a key there is the place of the first member with it. -/
theorem getElem?_placeByKey_eq_find? {key : α → κ} {xs : List α}
    (h : ∀ x ∈ xs, ∀ y ∈ xs, key x = key y → x = y) :
    (placeByKey (fun x => some (key x)) xs)[k]?.map xs.get = xs.find? fun x => key x = k := by
  rw [getElem?_placeByKey]
  simp only [Option.some.injEq]
  exact Store.last?_key_eq_find? h

theorem toList_getD_addPlace {n : Nat} (places : Std.HashMap κ (Array (Fin n))) (k k' : κ) (place : Fin n) :
    ((addPlace places k' place).getD k #[]).toList =
      (places.getD k #[]).toList ++ if k' = k then [place] else [] := by
  unfold addPlace
  rw [Std.HashMap.getD_insert]
  by_cases hk : k' = k
  · simp [hk]
  · simp [hk]

theorem toList_getD_foldl_addPlace {n : Nat} (key : Fin n → κ) (rest : List (Fin n))
    (places : Std.HashMap κ (Array (Fin n))) :
    ((rest.foldl (fun places place => addPlace places (key place) place) places).getD k #[]).toList =
      (places.getD k #[]).toList ++ rest.filter fun place => key place = k := by
  induction rest generalizing places with
  | nil => simp
  | cons place rest ih =>
    rw [List.foldl_cons, ih, toList_getD_addPlace, List.append_assoc]
    by_cases hk : key place = k
    · simp [hk]
    · simp [hk]

/-- Under a key there are the places of all members with it. -/
theorem toList_getD_placesByKey (key : α → κ) (xs : List α) :
    ((placesByKey key xs).getD k #[]).toList.map xs.get = xs.filter fun x => key x = k := by
  conv_rhs => rw [← List.map_get_finRange xs, List.filter_map]
  unfold placesByKey
  rw [toList_getD_foldl_addPlace fun place => key (xs.get place), Std.HashMap.getD_empty]
  rfl

end Places

namespace Catalog

/-- Every lookup in an index finds what the lookup that goes through the catalog finds. -/
structure Index.Answers {c : Catalog} (x : c.Index) : Prop where
  table? : ∀ name, x.table? name = c.table? name
  table : ∀ name, x.table name = c.table name
  tableById? : ∀ id, x.tableById? id = c.tableById? id
  creationById? : ∀ id, x.creationById? id = c.creationById? id
  columnsOf : ∀ table, x.columnsOf table = c.columnsOf table
  column? : ∀ name, x.column? name = c.column? name
  hasColumn : ∀ name, x.hasColumn name = c.hasColumn name
  columnById? : ∀ id, x.columnById? id = c.columnById? id
  hierarchy : ∀ name, x.hierarchy name = c.hierarchy name
  contains : ∀ e, x.contains e = c.contains e

variable {c : Catalog}

theorem index_columnsOf (c : Catalog) (table : Id) : c.index.columnsOf table = c.columnsOf table :=
  toList_getD_placesByKey Column.table c.columns

namespace WellFormed

variable (hwf : c.WellFormed)
include hwf

theorem index_table? (name : String) : c.index.table? name = c.table? name :=
  getElem?_placeByKey_eq_find? fun _ ht _ ht' => List.inj_on_of_nodup_map hwf.names ht ht'

theorem index_tableById? (id : Id) : c.index.tableById? id = c.tableById? id :=
  getElem?_placeByKey_eq_find? fun _ ht _ ht' => hwf.table_eq ht ht'

theorem index_tableOfCreation? (id : Id) : c.index.tableOfCreation? id = c.tableOfCreation? id := by
  have hkey : (fun t : Table => t.creation.any fun creation => creation.id = id) =
      fun t => decide (t.creation.map Creation.id = some id) := by
    funext t
    cases t.creation <;> simp
  unfold Index.tableOfCreation? Catalog.tableOfCreation? index
  rw [getElem?_placeByKey, hkey]
  refine Store.last?_eq_find? fun t ht t' ht' hid hid' => ?_
  obtain ⟨creation, hc, rfl⟩ := Option.map_eq_some_iff.1 (of_decide_eq_true hid)
  obtain ⟨creation', hc', heq⟩ := Option.map_eq_some_iff.1 (of_decide_eq_true hid')
  exact hwf.eq_of_mem_ids ht ht' (Table.creation_id_mem hc) (heq ▸ Table.creation_id_mem hc')

theorem index_columnById? (id : Id) : c.index.columnById? id = c.columnById? id :=
  getElem?_placeByKey_eq_find? fun _ hcol _ hcol' => List.inj_on_of_nodup_map hwf.nodup_columnIds hcol hcol'

theorem index_column? (name : ColumnName) : c.index.column? name = c.column? name := by
  unfold Index.column? Catalog.column?
  simp only [hwf.index_table?, index_columnsOf]

/-- An entity is told by its kind, as no other one has its identity. -/
theorem index_contains (e : Entity) : c.index.contains e = c.contains e := by
  unfold Index.contains Catalog.contains index
  rw [getElem?_ofList_map, decide_eq_decide]
  constructor
  · intro h
    obtain ⟨found, hfound, hkind⟩ := Option.map_eq_some_iff.1 h
    obtain ⟨hmem, hid⟩ := Store.of_last?_eq_some hfound
    have hid := of_decide_eq_true hid
    obtain ⟨kind, id⟩ := found
    cases hkind
    cases hid
    exact hmem
  · intro he
    refine Option.map_eq_some_iff.2 ⟨e, ?_, rfl⟩
    exact Store.last?_eq_some he (decide_eq_true rfl) fun e' he' hid =>
      hwf.entity_eq he' he (of_decide_eq_true hid)

/-- The index of a well-formed catalog with single names of hierarchies answers as the catalog does. -/
theorem answers_index (hhierarchies : (c.hierarchies.map Hierarchy.name).Nodup) : c.index.Answers where
  table? := hwf.index_table?
  table name := by
    have hname := hwf.index_table? name
    cases hfind : c.table? name with
    | none => simp only [Index.table, Catalog.table, hname, hfind]
    | some t => simp only [Index.table, Catalog.table, hname, hfind]
  tableById? := hwf.index_tableById?
  creationById? id := by
    unfold Index.creationById? Catalog.creationById?
    rw [hwf.index_tableOfCreation?]
  columnsOf := c.index_columnsOf
  column? := hwf.index_column?
  hasColumn name := by
    unfold Index.hasColumn Catalog.hasColumn
    rw [hwf.index_column?]
  columnById? := hwf.index_columnById?
  hierarchy name := by
    have hlast : c.index.hierarchyByName[name]? = c.hierarchies.find? fun h => h.name = name := by
      unfold index
      rw [getElem?_ofList_map Hierarchy.name fun h => h, Option.map_id']
      exact Store.last?_key_eq_find? fun _ hh _ hh' => List.inj_on_of_nodup_map hhierarchies hh hh'
    cases hfind : c.hierarchies.find? fun h => h.name = name with
    | none => simp only [Index.hierarchy, Catalog.hierarchy, hlast, hfind]
    | some h => simp only [Index.hierarchy, Catalog.hierarchy, hlast, hfind]
  contains := hwf.index_contains

end WellFormed

end Catalog

/-- Whatever schema a catalog is of, its index answers as the catalog does. -/
theorem Schema.answers_index {s : Schema} {first : Nat} {c : Catalog} (h : s.compile first = .ok c) :
    c.index.Answers := by
  obtain ⟨-, -, ⟨derived, -, rfl⟩, -, hnodup⟩ := compile_eq_ok_iff.1 h
  refine (wellFormed_of_compile h).answers_index ?_
  have hnames : (s.catalogOf first derived).hierarchies.map Hierarchy.name =
      s.hierarchies.map HierarchyDefinition.name := List.map_map
  rw [hnames]
  exact hnodup

end Provenance

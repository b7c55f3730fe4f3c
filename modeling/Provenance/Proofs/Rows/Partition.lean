import Mathlib.Algebra.BigOperators.Group.List.Basic
import Mathlib.Algebra.Ring.Int.Defs
import Provenance.Proofs.Evaluation.Agreement
import Provenance.Proofs.Rows.Frames
import Provenance.Proofs.Rows.Grouping
import Provenance.Proofs.Scalar.Sum

/-!
# Groups as an ordered partition

The rows of a table with the payloads that they hold in some columns (`SourceRow.tuple`) make groups, and each
group becomes a frame (`SourceTable.groupFrame`). The groups divide the rows: each row stands in one of them,
which is the one under its tuple, and the groups stand in the order of their first rows
(`SourceTable.Partition`). Main statement: `Approach.createRows_group_partition`.
-/

/-- If the members of a list that satisfy one of two conditions are kept by a filter, the filter does not change
which of the conditions is satisfied first. -/
theorem List.findIdx_lt_of_filter {α : Type} {p q keep : α → Bool} {xs : List α}
    (hp : ∀ x, p x = true → keep x = true) (hq : ∀ x, q x = true → keep x = true)
    (h : (xs.filter keep).findIdx p < (xs.filter keep).findIdx q) : xs.findIdx p < xs.findIdx q := by
  induction xs with
  | nil => exact h
  | cons x xs ih =>
    cases hkeep : keep x with
    | false =>
      have hpx : p x = false := Bool.eq_false_iff.2 fun hx => Bool.noConfusion (hkeep.symm.trans (hp x hx))
      have hqx : q x = false := Bool.eq_false_iff.2 fun hx => Bool.noConfusion (hkeep.symm.trans (hq x hx))
      rw [List.filter_cons_of_neg (by simp [hkeep])] at h
      simpa [List.findIdx_cons, hpx, hqx] using ih h
    | true =>
      rw [List.filter_cons_of_pos hkeep, List.findIdx_cons, List.findIdx_cons] at h
      rw [List.findIdx_cons, List.findIdx_cons]
      cases hqx : q x with
      | true => simp [hqx] at h
      | false =>
        cases hpx : p x with
        | true => simp
        | false =>
          simp only [hpx, hqx, cond_false, Nat.add_lt_add_iff_right] at h ⊢
          exact ih h

namespace Provenance

namespace KeyIndex

variable {α : Type} {key other : Key} {items : List (Key × α)} {entry : KeyEntry α}

/-- What is grouped without the things under a key makes no group under it. -/
theorem same_of_mem_ofList_filter (h : entry ∈ ofList (items.filter fun i => !key.same i.1)) :
    key.same entry.key = false := by
  obtain ⟨first, _, -, hfirst, -⟩ := headed_of_mem_ofList h
  simpa using (List.mem_filter.1 hfirst).2

theorem same_of_same_mem (h : entry ∈ ofList (items.filter fun i => !key.same i.1))
    (hsame : entry.key.same other = true) : key.same other = false := by
  rw [← Key.same_eq hsame]
  exact same_of_mem_ofList_filter h

theorem same_left_of_mem (h : entry ∈ ofList (items.filter fun i => !key.same i.1)) :
    entry.key.same key = false := by
  cases hsame : entry.key.same key with
  | false => rfl
  | true => exact absurd key.same_refl (by simp [same_of_same_mem h hsame])

/-- No two groups stand under one key. -/
theorem pairwise_same_ofList (items : List (Key × α)) :
    (ofList items).Pairwise fun a b => a.key.same b.key = false := by
  induction items using group_induct with
  | nil => exact .nil
  | cons key item items ih =>
    rw [ofList_cons]
    exact .cons (fun entry hentry => same_of_mem_ofList_filter hentry) ih

/-- A group holds the things under its key, in their order. -/
theorem items_of_mem_ofList (h : entry ∈ ofList items) :
    entry.items = (items.filter fun i => entry.key.same i.1).map Prod.snd := by
  induction items using group_induct with
  | nil => cases h
  | cons key item items ih =>
    rw [ofList_cons] at h
    rcases List.mem_cons.1 h with rfl | h
    · simp [key.same_refl]
    · rw [ih h, List.filter_cons_of_neg (by simp [same_left_of_mem h]), List.filter_filter]
      refine congrArg (List.map Prod.snd) (List.filter_congr fun i _ => ?_)
      cases hsame : entry.key.same i.1 with
      | false => rfl
      | true => simp [same_of_same_mem h hsame]

/-- Each thing is under the key of a group. -/
theorem exists_same_of_mem {i : Key × α} (h : i ∈ items) : ∃ entry ∈ ofList items, entry.key.same i.1 := by
  induction items using group_induct with
  | nil => cases h
  | cons key item items ih =>
    rw [ofList_cons]
    cases hsame : key.same i.1 with
    | true => exact ⟨_, List.mem_cons_self, hsame⟩
    | false =>
      rcases List.mem_cons.1 h with rfl | h
      · exact absurd key.same_refl (by simp [hsame])
      · obtain ⟨entry, hentry, hkey⟩ := ih (List.mem_filter.2 ⟨h, by simp [hsame]⟩)
        exact ⟨entry, List.mem_cons_of_mem _ hentry, hkey⟩

/-- Groups stand in the order of the first things under their keys. -/
theorem pairwise_findIdx_ofList (items : List (Key × α)) :
    (ofList items).Pairwise fun a b =>
      items.findIdx (fun i => a.key.same i.1) < items.findIdx fun i => b.key.same i.1 := by
  induction items using group_induct with
  | nil => exact .nil
  | cons key item items ih =>
    rw [ofList_cons]
    refine .cons (fun entry hentry => ?_) (ih.imp_of_mem fun {a b} ha hb hlt => ?_)
    · simp [List.findIdx_cons, key.same_refl, same_left_of_mem hentry]
    · have hlt := List.findIdx_lt_of_filter (fun i hsame => by simp [same_of_same_mem ha hsame])
        (fun i hsame => by simp [same_of_same_mem hb hsame]) hlt
      simpa [List.findIdx_cons, same_left_of_mem ha, same_left_of_mem hb] using hlt

/-- What stands under the keys does not matter for the groups. -/
theorem ofList_map {β : Type} (f : α → β) (items : List (Key × α)) :
    ofList (items.map fun i => (i.1, f i.2)) =
      (ofList items).map fun entry => ⟨entry.key, entry.items.map f⟩ := by
  induction items using group_induct with
  | nil => rfl
  | cons key item items ih =>
    rw [List.map_cons, ofList_cons, ofList_cons, List.map_cons, ← ih, List.filter_map, List.filter_map]
    simp only [List.map_cons, List.map_map, Function.comp_def]

end KeyIndex

/-- The payloads of a row in some columns. -/
def SourceRow.tuple (r : SourceRow) (keys : List ColumnName) : Key :=
  keys.map fun key => ((r.cell? key.column).map Cell.payload).getD .null

namespace SourceTable

/-- The frame of a group of rows of a table. -/
def groupFrame (t : SourceTable) (keys : List ColumnName) (group : KeyEntry SourceRow) : RowFrame :=
  .ofScope (.group group.key keys (group.items.map (Binding.single t)))

/-- Groups that divide the rows of a table by their payloads in some columns. -/
structure Partition (t : SourceTable) (keys : List ColumnName) (groups : KeyIndex SourceRow) : Prop where
  /-- No two groups have equal keys. -/
  apart : groups.Pairwise fun a b => a.key.same b.key = false
  /-- The groups stand in the order of the first rows under their keys. -/
  ordered : groups.Pairwise fun a b =>
    t.rows.findIdx (fun r => a.key.same (r.tuple keys)) < t.rows.findIdx fun r => b.key.same (r.tuple keys)
  /-- A group holds the rows whose payloads are equal to its key, in their order. -/
  members : ∀ group ∈ groups, group.items = t.rows.filter fun r => group.key.same (r.tuple keys)
  /-- The key of a group is the tuple of its first row, so it has one. -/
  headed : ∀ group ∈ groups, ∃ first rest, group.items = first :: rest ∧ group.key = first.tuple keys
  /-- Every row is in the group under its tuple, and in no other one. -/
  covers : ∀ r ∈ t.rows, ∃ group ∈ groups, r ∈ group.items ∧ group.key.same (r.tuple keys) ∧
    ∀ other ∈ groups, r ∈ other.items → other = group
  /-- The groups together hold every row once. -/
  whole : (groups.flatMap KeyEntry.items).Perm t.rows

variable {t : SourceTable} {keys : List ColumnName} {r : SourceRow} {key : ColumnName}
  {groups : KeyIndex SourceRow} {group : KeyEntry SourceRow}

theorem payload_single (hkey : key.table = t.name ∧ t.hasColumn key.column = true) {v : Scalar} :
    (Binding.single t r).payload key = .ok v ↔
      (r.cell? key.column).isSome ∧ v = ((r.cell? key.column).map Cell.payload).getD .null := by
  unfold Binding.payload
  rw [Except.bind_eq_ok_iff]
  cases hcell : r.cell? key.column with
  | none => simp [Binding.lookup, Binding.single, hkey.1, hkey.2, hcell]
  | some cell =>
    simp [Binding.lookup, Binding.single, hkey.1, hkey.2, hcell, Except.pure, pure, eq_comm]

/-- A row has a key if it holds all its cells, and the key is its tuple then. -/
theorem keyed_eq_ok_iff (hkeys : ∀ key ∈ keys, key.table = t.name ∧ t.hasColumn key.column = true)
    (r : SourceRow) (item : Key × Binding) :
    keyed t keys r = .ok item ↔
      (∀ key ∈ keys, (r.cell? key.column).isSome) ∧ item = (r.tuple keys, .single t r) := by
  have htuple : ∀ tuple, keys.mapM (Binding.single t r).payload = .ok tuple ↔
      (∀ key ∈ keys, (r.cell? key.column).isSome) ∧ tuple = r.tuple keys := fun _ =>
    List.mapM_eq_ok_iff_map fun key hkey _ => payload_single (hkeys key hkey)
  unfold keyed
  simp only [Except.bind_eq_ok_iff, Except.pure_eq_ok_iff, htuple]
  constructor
  · rintro ⟨_, ⟨hcells, rfl⟩, rfl⟩
    exact ⟨hcells, rfl⟩
  · rintro ⟨hcells, rfl⟩
    exact ⟨_, ⟨hcells, rfl⟩, rfl⟩

/-- The groups of the rows of a table by their tuples divide them. -/
theorem partition_ofList (t : SourceTable) (keys : List ColumnName) :
    t.Partition keys (.ofList (t.rows.map fun r => (r.tuple keys, r))) := by
  have hmembers : ∀ group ∈ KeyIndex.ofList (t.rows.map fun r => (r.tuple keys, r)),
      group.items = t.rows.filter fun r => group.key.same (r.tuple keys) := by
    intro group hgroup
    rw [KeyIndex.items_of_mem_ofList hgroup, List.filter_map, List.map_map]
    exact List.map_id _
  have hapart := KeyIndex.pairwise_same_ofList (t.rows.map fun r => (r.tuple keys, r))
  refine ⟨hapart, ?_, hmembers, ?_, ?_, ?_⟩
  · refine (KeyIndex.pairwise_findIdx_ofList _).imp fun hlt => ?_
    rwa [List.findIdx_map, List.findIdx_map] at hlt
  · intro group hgroup
    obtain ⟨first, rest, hitems, hfirst, -⟩ := KeyIndex.headed_of_mem_ofList hgroup
    obtain ⟨r, -, heq⟩ := List.mem_map.1 hfirst
    obtain ⟨hkey, rfl⟩ := Prod.mk.inj heq
    exact ⟨r, rest, hitems, hkey.symm⟩
  · intro r hr
    obtain ⟨group, hgroup, hsame⟩ := KeyIndex.exists_same_of_mem (List.mem_map_of_mem hr)
    refine ⟨group, hgroup, ?_, hsame, fun other hother hmem => ?_⟩
    · rw [hmembers group hgroup]
      exact List.mem_filter.2 ⟨hr, hsame⟩
    · -- Both groups are under the tuple of the row, and no two groups are under one key.
      by_contra hne
      rw [hmembers other hother] at hmem
      have hsymm : Std.Symm fun a b : KeyEntry SourceRow => a.key.same b.key = false :=
        ⟨fun a b h => Bool.eq_false_iff.2 fun hba => by simp [Key.same_symm hba] at h⟩
      have hdiffer := hapart.forall hother hgroup hne
      rw [Key.same_trans (List.mem_filter.1 hmem).2 (Key.same_symm hsame)] at hdiffer
      cases hdiffer
  · have hperm := KeyIndex.flatMap_items_perm (t.rows.map fun r => (r.tuple keys, r))
    rw [List.map_map] at hperm
    exact hperm.trans (.of_eq (List.map_id _))

/-! ## The frames of groups -/

theorem sourceRows_groupFrame (t : SourceTable) (keys : List ColumnName) (group : KeyEntry SourceRow) :
    (t.groupFrame keys group).sourceRows = distinct (group.items.map SourceRow.row) := by
  change distinct ((group.items.map (Binding.single t)).flatMap Binding.sourceRows) = _
  rw [List.flatMap_map, List.map_eq_flatMap]
  rfl

/-- Counting without an argument gives the number of the members of a group. -/
theorem evaluate_count (c : Catalog) (functions : Functions) (t : SourceTable) (keys : List ColumnName)
    (group : KeyEntry SourceRow) :
    (Expr.aggregateRows .count).evaluate c functions (t.groupFrame keys group).scope =
      .ok ⟨.int (.ofCount group.items.length), [], false⟩ := by
  simp [Expr.evaluate, Expr.eval, Expr.countRows, groupFrame, RowFrame.ofScope, Scope.partition]
  rfl

end SourceTable

theorem Integer.sum_ofCount {ns : List Nat} (h : ∀ n ∈ ns, n < 2 ^ 63) :
    ((ns.map ofCount).map val).sum = ns.sum := by
  induction ns with
  | nil => rfl
  | cons n ns ih =>
    have ih := ih fun m hm => h m (List.mem_cons_of_mem _ hm)
    rw [List.map_cons, List.map_cons, List.sum_cons, List.sum_cons, val_ofCount (h n List.mem_cons_self), ih,
      Nat.cast_add]

namespace SourceTable.Partition

variable {t : SourceTable} {keys : List ColumnName} {groups : KeyIndex SourceRow}

theorem sum_length (h : t.Partition keys groups) :
    (groups.map fun group => group.items.length).sum = t.rows.length := by
  rw [← h.whole.length_eq, List.length_flatMap]

theorem nodup_rows (h : t.Partition keys groups) (hrows : (t.rows.map SourceRow.row).Nodup)
    {group : KeyEntry SourceRow} (hgroup : group ∈ groups) : (group.items.map SourceRow.row).Nodup := by
  rw [h.members group hgroup]
  exact hrows.sublist (List.filter_sublist.map _)

/-- The counts of the members of the groups come to the number of rows, as long as that is an integer. -/
theorem sum_counts (h : t.Partition keys groups) (hlength : t.rows.length < 2 ^ 63) :
    (((groups.map fun group => group.items.length).map Integer.ofCount).map Integer.val).sum =
      t.rows.length := by
  rw [Integer.sum_ofCount, h.sum_length]
  intro n hn
  obtain ⟨group, hgroup, rfl⟩ := List.mem_map.1 hn
  rw [h.members group hgroup]
  exact Nat.lt_of_le_of_lt (List.length_filter_le _ _) hlength

end SourceTable.Partition

namespace Approach

variable {sources : List SourceTable} {source : String} {t : SourceTable} {keys : List ColumnName}

/-- Grouping a table by columns of it needs a cell of each row in each of them, and makes the frames of the
groups of its rows. -/
theorem createRows_group_eq_ok_iff (c : Catalog) (functions : Functions)
    (hsource : sourceTable sources source = .ok t)
    (hkeys : ∀ key ∈ keys, key.table = source ∧ t.hasColumn key.column = true) (frames : List RowFrame) :
    (group source keys).createRows c functions sources = .ok frames ↔
      (∀ r ∈ t.rows, ∀ key ∈ keys, (r.cell? key.column).isSome) ∧
        frames = (KeyIndex.ofList (t.rows.map fun r => (r.tuple keys, r))).map (t.groupFrame keys) := by
  have hname := (mem_of_sourceTable hsource).2
  have hkeyed : ∀ items, t.rows.mapM (keyed t keys) = .ok items ↔
      (∀ r ∈ t.rows, ∀ key ∈ keys, (r.cell? key.column).isSome) ∧
        items = t.rows.map fun r => (r.tuple keys, .single t r) := fun _ =>
    List.mapM_eq_ok_iff_map fun r _ => SourceTable.keyed_eq_ok_iff (hname ▸ hkeys) r
  have hcolumns : (group source keys).checkColumns sources = .ok () := by
    have hhas : ∀ key ∈ keys, anyHasColumn sources key = true := fun key hkey =>
      List.any_eq_true.2 ⟨t, (mem_of_sourceTable hsource).1, by simp [hname, hkeys key hkey]⟩
    unfold checkColumns
    rw [List.find?_eq_none.2 fun key hkey => by simp [hhas key hkey]]
  have hframes : (KeyIndex.ofList (t.rows.map fun r => (r.tuple keys, Binding.single t r))).map
      (fun g => RowFrame.ofScope (.group g.key keys g.items)) =
      (KeyIndex.ofList (t.rows.map fun r => (r.tuple keys, r))).map (t.groupFrame keys) := by
    have hmap := KeyIndex.ofList_map (Binding.single t) (t.rows.map fun r => (r.tuple keys, r))
    rw [List.map_map] at hmap
    change (KeyIndex.ofList (t.rows.map fun r => (r.tuple keys, Binding.single t r))) = _ at hmap
    rw [hmap, List.map_map]
    rfl
  unfold createRows
  rw [Except.bind_of_ok hcolumns]
  dsimp only
  rw [Except.bind_of_ok hsource]
  simp only [groupRows, Except.bind_eq_ok_iff, Except.pure_eq_ok_iff, hkeyed]
  constructor
  · rintro ⟨_, ⟨_, ⟨hcells, rfl⟩, rfl⟩, rfl⟩
    exact ⟨hcells, hframes⟩
  · rintro ⟨hcells, rfl⟩
    exact ⟨_, ⟨_, ⟨hcells, rfl⟩, rfl⟩, hframes⟩

/-- The frames of a table that is grouped by some of its columns divide its rows. They are there if each row
holds a cell in all these columns. -/
theorem createRows_group_partition (c : Catalog) (functions : Functions)
    (hsource : sourceTable sources source = .ok t)
    (hkeys : ∀ key ∈ keys, key.table = source ∧ t.hasColumn key.column = true) :
    ((∃ frames, (group source keys).createRows c functions sources = .ok frames) ↔
      ∀ r ∈ t.rows, ∀ key ∈ keys, (r.cell? key.column).isSome) ∧
    ∀ frames, (group source keys).createRows c functions sources = .ok frames →
      ∃ groups, frames = groups.map (t.groupFrame keys) ∧ t.Partition keys groups ∧
        (∀ group ∈ groups, ∀ e,
          e ∈ (t.groupFrame keys group).sourceRows ↔ ∃ r ∈ group.items, r.row = e) ∧
        ((t.rows.map SourceRow.row).Nodup → ∀ group ∈ groups,
          (t.groupFrame keys group).sourceRows = group.items.map SourceRow.row) ∧
        (t.rows.length < 2 ^ 63 → ∃ counts : List Integer,
          List.Forall₂
            (fun frame n =>
              (Expr.aggregateRows .count).evaluate c functions frame.scope = .ok ⟨.int n, [], false⟩)
            frames counts ∧
          (counts.map Integer.val).sum = t.rows.length) := by
  have hiff := createRows_group_eq_ok_iff c functions hsource hkeys
  constructor
  · constructor
    · rintro ⟨frames, hframes⟩
      exact ((hiff frames).1 hframes).1
    · intro hcells
      exact ⟨_, (hiff _).2 ⟨hcells, rfl⟩⟩
  · intro frames hframes
    obtain ⟨-, rfl⟩ := (hiff frames).1 hframes
    have hpartition := t.partition_ofList keys
    refine ⟨_, rfl, hpartition, fun group _ e => ?_, fun hrows group hgroup => ?_, fun hlength => ?_⟩
    · rw [SourceTable.sourceRows_groupFrame, mem_distinct, List.mem_map]
    · rw [SourceTable.sourceRows_groupFrame, distinct_of_nodup (hpartition.nodup_rows hrows hgroup)]
    · refine ⟨_, ?_, hpartition.sum_counts hlength⟩
      rw [List.forall₂_map_left_iff, List.forall₂_map_right_iff, List.forall₂_map_right_iff, List.forall₂_same]
      exact fun group _ => SourceTable.evaluate_count c functions t keys group

end Approach

namespace Sample

def pricedEntity (number : Nat) : Entity := ⟨.databaseRow, ⟨number⟩⟩

/-- A sale at one and a half, in some region or in none. -/
def pricedRow (number : Nat) (region : Scalar) (price : Decimal) : SourceRow :=
  ⟨pricedEntity number, [("region", ⟨⟨.databaseValue, ⟨number + 1⟩⟩, region⟩),
    ("price", ⟨⟨.databaseValue, ⟨number + 2⟩⟩, .decimal price⟩)]⟩

/-- Sales of one price, which is written with different scales. -/
def priced : SourceTable :=
  ⟨"sale", ["region", "price"],
    [pricedRow 10 .null ⟨false, 15, 1, by decide, by decide⟩,
      pricedRow 20 (.text "north") ⟨false, 15, 1, by decide, by decide⟩,
      pricedRow 30 .null ⟨false, 1500, 3, by decide, by decide⟩]⟩

/-- Sales without a region make one group, whatever the scales of their prices are, and it stands first. -/
theorem createRows_priced :
    let keys : List ColumnName := [⟨"sale", "region"⟩, ⟨"sale", "price"⟩, ⟨"sale", "region"⟩]
    sourceTable [priced] "sale" = .ok priced ∧
    (∀ key ∈ keys, key.table = "sale" ∧ priced.hasColumn key.column = true) ∧
    ∃ frames, (Approach.group "sale" keys).createRows saleCatalog .empty [priced] = .ok frames ∧
      frames.map RowFrame.sourceRows = [[pricedEntity 10, pricedEntity 30], [pricedEntity 20]] ∧
      ∃ groups, frames = groups.map (priced.groupFrame keys) ∧ priced.Partition keys groups := by
  intro keys
  have hsource : sourceTable [priced] "sale" = .ok priced := rfl
  have hkeys : ∀ key ∈ keys, key.table = "sale" ∧ priced.hasColumn key.column = true := by decide
  obtain ⟨hreturns, hframes⟩ := Approach.createRows_group_partition saleCatalog .empty hsource hkeys
  obtain ⟨frames, hmade⟩ := hreturns.2 (by decide)
  obtain ⟨groups, heq, hpartition, -⟩ := hframes frames hmade
  have hrows : ((Approach.group "sale" keys).createRows saleCatalog .empty [priced]).map
      (fun frames => frames.map RowFrame.sourceRows) =
      .ok [[pricedEntity 10, pricedEntity 30], [pricedEntity 20]] := rfl
  rw [hmade] at hrows
  exact ⟨hsource, hkeys, frames, hmade, Except.ok.inj hrows, groups, heq, hpartition⟩

end Sample

end Provenance

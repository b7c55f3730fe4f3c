import Provenance.Proofs.Evaluation.Renaming
import Provenance.Rows.Create

/-!
# Making rows does not look at identities

From source tables that are the same but for the identities of their rows and values, an approach makes
corresponding frames (`Approach.createRows_rel`). Keys hold payloads, so the same rows meet in a join or in
a group.
-/

namespace Provenance

/-- Frames of corresponding scopes. -/
structure RowFrame.Renamed (E : Entity → Entity → Prop) (f f' : RowFrame) : Prop where
  scope : f.scope.Alike Eq E (Cell.Renamed E) f'.scope
  sourceRows : List.Forall₂ E f.sourceRows f'.sourceRows

/-! ## Indices -/

/-- Entries under the same key. -/
structure KeyEntry.Rel {α β : Type} (R : α → β → Prop) (x : KeyEntry α) (y : KeyEntry β) : Prop where
  key : x.key = y.key
  items : List.Forall₂ R x.items y.items

namespace KeyIndex

variable {α β : Type} {R : α → β → Prop} {xs : KeyIndex α} {ys : KeyIndex β}

theorem add_rel {key : Key} {a : α} {b : β} (hab : R a b) (h : List.Forall₂ (KeyEntry.Rel R) xs ys) :
    List.Forall₂ (KeyEntry.Rel R) (add key a xs) (add key b ys) := by
  induction h with
  | nil => exact .cons ⟨rfl, .cons hab .nil⟩ .nil
  | @cons x y xs ys hxy hrest ih =>
    unfold add
    rw [hxy.key]
    split
    · exact .cons ⟨rfl, List.rel_append hxy.items (.cons hab .nil)⟩ hrest
    · exact .cons hxy ih

theorem ofList_rel {items : List (Key × α)} {items' : List (Key × β)}
    (h : List.Forall₂ (fun x y => x.1 = y.1 ∧ R x.2 y.2) items items') :
    List.Forall₂ (KeyEntry.Rel R) (ofList items) (ofList items') := by
  refine List.rel_foldl (P := List.Forall₂ (KeyEntry.Rel R)) ?_ .nil h
  rintro index index' hindex ⟨key, a⟩ ⟨_, b⟩ ⟨rfl, hab⟩
  exact add_rel hab hindex

theorem find_rel {key : Key} (h : List.Forall₂ (KeyEntry.Rel R) xs ys) :
    List.Forall₂ R (find key xs) (find key ys) := by
  induction h with
  | nil => exact .nil
  | @cons x y xs ys hxy _ ih =>
    unfold find
    rw [hxy.key]
    split
    · exact hxy.items
    · exact ih

end KeyIndex

variable {E : Entity → Entity → Prop} {t t' : SourceTable} {b b' : Binding}
  {sources sources' : List SourceTable}

/-! ## Joins -/

theorem anyHasColumn_eq (h : List.Forall₂ (SourceTable.Renamed E) sources sources') (name : ColumnName) :
    anyHasColumn sources name = anyHasColumn sources' name :=
  h.any_eq fun _ _ ht => by rw [ht.name, ht.hasColumn]

theorem sourceTable_rel (h : List.Forall₂ (SourceTable.Renamed E) sources sources') (name : String) :
    Except.Rel (SourceTable.Renamed E) (sourceTable sources name) (sourceTable sources' name) := by
  have hfind := h.find? (p := fun t => t.name = name) (q := fun t => t.name = name)
    fun _ _ ht => by rw [ht.name]
  unfold sourceTable
  generalize sources.find? (fun t => t.name = name) = t? at hfind ⊢
  generalize sources'.find? (fun t => t.name = name) = t?' at hfind ⊢
  cases hfind with
  | none => exact .error
  | some ht => exact .ok ht

namespace JoinStep

variable {step : JoinStep}

theorem rightKey?_eq {r r' : SourceRow} (h : r.Renamed E r') : step.rightKey? r = step.rightKey? r' := by
  have hcell : ∀ key : JoinKey,
      (r.cell? key.right).map Cell.payload = (r'.cell? key.right).map Cell.payload := fun key =>
    (h.cell? key.right).map_eq fun _ _ hcell => hcell.2
  unfold rightKey?
  rw [funext hcell]

theorem leftKey_rel (hb : b.Renamed E b') : Except.Rel Eq (step.leftKey b) (step.leftKey b') :=
  List.mapM_rel fun key _ => Binding.payload_rel hb key.left

theorem index_rel (ht : t.Renamed E t') :
    List.Forall₂ (KeyEntry.Rel (SourceRow.Renamed E)) (step.index t) (step.index t') := by
  refine KeyIndex.ofList_rel (List.rel_filterMap (fun r r' hr => ?_) ht.rows)
  unfold indexed?
  rw [rightKey?_eq hr]
  cases step.rightKey? r' with
  | none => exact .none
  | some key =>
    dsimp only [Option.bind_eq_bind, Option.bind_some]
    split
    · exact .none
    · exact .some ⟨rfl, hr⟩

theorem extend_rel (ht : t.Renamed E t') (hb : b.Renamed E b') :
    Except.Rel (List.Forall₂ (Binding.Renamed E)) (step.extend t (step.index t) b)
      (step.extend t' (step.index t') b') := by
  refine (leftKey_rel hb).bind ?_
  rintro key _ rfl
  have hpartners : List.Forall₂ (SourceRow.Renamed E) (partners (step.index t) key)
      (partners (step.index t') key) := by
    unfold partners
    split
    · exact .nil
    · exact KeyIndex.find_rel (index_rel ht)
  generalize partners (step.index t) key = rows at hpartners ⊢
  generalize partners (step.index t') key = rows' at hpartners ⊢
  cases hpartners with
  | nil =>
    cases step.kind with
    | inner => exact .ok .nil
    | leftOuter => exact .ok (.cons (hb.extend ht .none) .nil)
  | cons hr hrows =>
    exact .ok (List.rel_map (fun _ _ hr => hb.extend ht (.some hr)) (.cons hr hrows))

end JoinStep

theorem joinSteps_rel (h : List.Forall₂ (SourceTable.Renamed E) sources sources') {steps : List JoinStep}
    {joined : List String} {bs bs' : List Binding} (hbs : List.Forall₂ (Binding.Renamed E) bs bs') :
    Except.Rel (List.Forall₂ (Binding.Renamed E)) (joinSteps sources steps joined bs)
      (joinSteps sources' steps joined bs') := by
  induction steps generalizing joined bs bs' with
  | nil => exact .ok hbs
  | cons step rest ih =>
    unfold joinSteps
    refine Except.Rel.refl.bind fun _ _ _ => ?_
    refine (sourceTable_rel h step.table).bind fun right right' hright => ?_
    refine (hbs.mapM fun _ _ hb => JoinStep.extend_rel hright hb).bind fun _ _ hext => ?_
    exact ih (List.rel_flatten hext)

/-! ## Approaches -/

theorem RowFrame.renamed_ofScope (hE : Entity.Renames E) {s s' : Scope} (hs : s.Renamed E s') :
    (ofScope s).Renamed E (ofScope s') :=
  ⟨hs, hs.sourceRows hE.biUnique⟩

theorem groupRows_rel (ht : t.Renamed E t') (columns : List ColumnName) :
    Except.Rel (List.Forall₂ (KeyEntry.Rel (Binding.Renamed E))) (groupRows t columns)
      (groupRows t' columns) := by
  have hkeyed : ∀ r r', r.Renamed E r' → Except.Rel (fun x y => x.1 = y.1 ∧ Binding.Renamed E x.2 y.2)
      (keyed t columns r) (keyed t' columns r') := by
    intro r r' hr
    have hb := Binding.alike_single ht hr
    exact (List.mapM_rel fun name _ => Binding.payload_rel hb name).bind fun _ _ hkey => .ok ⟨hkey, hb⟩
  exact (ht.rows.mapM hkeyed).bind fun _ _ hitems => .ok (KeyIndex.ofList_rel hitems)

variable {c : Catalog} {functions : Functions}

namespace Approach

theorem filterRow_rel (hE : Entity.Renames E) (ht : t.Renamed E t') {predicate : Expr} {r r' : SourceRow}
    (hr : r.Renamed E r') :
    Except.Rel (Option.Rel (RowFrame.Renamed E)) (filterRow c functions predicate t r)
      (filterRow c functions predicate t' r') := by
  have hs : Scope.Renamed E (.row (.single t r)) (.row (.single t' r')) :=
    .row (Binding.alike_single ht hr)
  refine (Expr.evaluate_rel hE hs).bind fun x y hxy => ?_
  rw [hxy.value]
  refine Except.Rel.refl.bind ?_
  rintro keep _ rfl
  cases keep with
  | false => exact .ok .none
  | true => exact .ok (.some (RowFrame.renamed_ofScope hE hs))

/-- From corresponding tables an approach makes corresponding frames, or fails for both. -/
theorem createRows_rel (hE : Entity.Renames E) (h : List.Forall₂ (SourceTable.Renamed E) sources sources')
    (a : Approach) :
    Except.Rel (List.Forall₂ (RowFrame.Renamed E)) (a.createRows c functions sources)
      (a.createRows c functions sources') := by
  have hcheck : a.checkColumns sources = a.checkColumns sources' := by
    unfold checkColumns
    rw [funext (anyHasColumn_eq h)]
  unfold createRows
  rw [hcheck]
  refine Except.Rel.refl.bind fun _ _ _ => ?_
  cases a with
  | filter source predicate =>
    refine (sourceTable_rel h source).bind fun t t' ht => ?_
    refine (ht.rows.mapM fun _ _ hr => filterRow_rel hE ht hr).bind fun _ _ hkept => ?_
    exact .ok (List.rel_filterMap (fun _ _ h => h) hkept)
  | enrichment source =>
    refine (sourceTable_rel h source).bind fun t t' ht => ?_
    exact .ok (List.rel_map
      (fun _ _ hr => RowFrame.renamed_ofScope hE (.row (Binding.alike_single ht hr))) ht.rows)
  | join base steps =>
    refine (sourceTable_rel h base).bind fun t t' ht => ?_
    unfold joinRows
    rw [ht.name]
    refine (joinSteps_rel h (List.rel_map (fun _ _ hr => Binding.alike_single ht hr) ht.rows)).bind
      fun _ _ hbs => ?_
    exact .ok (List.rel_map (fun _ _ hb => RowFrame.renamed_ofScope hE (.row hb)) hbs)
  | group source keys =>
    refine (sourceTable_rel h source).bind fun t t' ht => ?_
    refine (groupRows_rel ht keys).bind fun _ _ hgroups => ?_
    exact .ok (List.rel_map (fun _ _ hg => RowFrame.renamed_ofScope hE (.group hg.key hg.items)) hgroups)

end Approach

end Provenance

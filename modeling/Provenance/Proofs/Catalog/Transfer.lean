import Provenance.Proofs.Catalog.Extension

/-!
# Renaming definitions

Between a catalog and one with more definitions there is a renaming that takes each definition to the one of the
same name, and the identities that are free in the first one to those that are free in the second
(`Id.exists_transfers`). Tables and columns that one definition declares differ by it, and so do what a creation
and a function refer to, if all names in the definition were resolved before.
-/

namespace Provenance

variable {ρ : Id → Id} {c c' : Catalog} {n n' : Nat}

/-- Entities of one kind whose identities are equally far from two numbers. -/
def Entity.Shifted (n n' : Nat) (e e' : Entity) : Prop :=
  e.kind = e'.kind ∧ ∃ k, e.id.number = n + k ∧ e'.id.number = n' + k

/-- Entities of the definitions of one name in two catalogs. -/
def Catalog.Counterparts (c c' : Catalog) (e e' : Entity) : Prop :=
  ∃ d, c.named? d = some e ∧ c'.named? d = some e'

theorem Entity.renames_shifted : Entity.Renames (Entity.Shifted n n') where
  kind _ _ h := h.1
  id := by
    rintro ⟨_, ⟨a⟩⟩ ⟨_, ⟨b⟩⟩ ⟨_, ⟨a'⟩⟩ ⟨_, ⟨b'⟩⟩ ⟨-, k, ha, ha'⟩ ⟨-, k', hb, hb'⟩
    simp only [Id.mk.injEq] at ha ha' hb hb' ⊢
    omega

theorem Catalog.ExtendedBy.renames_counterparts (h : c.ExtendedBy c') : Entity.Renames (c.Counterparts c') where
  kind := by
    rintro e e' ⟨d, he, he'⟩
    obtain ⟨e'', he'', hkind⟩ := h.exists_named? he
    cases he'.symm.trans he''
    exact hkind.symm
  id := by
    rintro a b a' b' ⟨d, ha, ha'⟩ ⟨d', hb, hb'⟩
    constructor
    · intro hid
      cases h.wellFormed.entity_eq (mem_entities_of_named? h.wellFormed h.named ha)
        (mem_entities_of_named? h.wellFormed h.named hb) hid
      cases named?_inj h.wellFormed h.named ha hb
      cases ha'.symm.trans hb'
      rfl
    · intro hid
      cases h.wellFormed'.entity_eq (mem_entities_of_named? h.wellFormed' h.named' ha')
        (mem_entities_of_named? h.wellFormed' h.named' hb') hid
      cases named?_inj h.wellFormed' h.named' ha' hb'
      cases ha.symm.trans hb
      rfl

/-- A renaming that takes the definitions of a catalog to those of the same names in another one, and the
identities from `n` on to those from `n'` on, and that keeps all of these apart. -/
structure Id.Transfers (c c' : Catalog) (n n' : Nat) (ρ : Id → Id) : Prop where
  named : ∀ d e, c.named? d = some e → c'.named? d = some (e.rename ρ)
  next : ∀ k, ρ ⟨n + k⟩ = ⟨n' + k⟩
  injOn : Set.InjOn ρ {id | (∃ e ∈ c.entities, e.id = id) ∨ n ≤ id.number}

/-- The definitions of a catalog can be taken to those of one with more definitions. -/
theorem Id.exists_transfers (h : c.ExtendedBy c') (hn : ∀ e ∈ c.entities, e.id.number < n)
    (hn' : ∀ e ∈ c'.entities, e.id.number < n') : ∃ ρ, Id.Transfers c c' n n' ρ := by
  have hcounterparts := h.renames_counterparts
  have hshifted : Entity.Renames (Entity.Shifted n n') := Entity.renames_shifted
  have hapart : ∀ a b a' b', c.Counterparts c' a a' → Entity.Shifted n n' b b' →
      a.id ≠ b.id ∧ a'.id ≠ b'.id := by
    rintro a b a' b' ⟨d, ha, ha'⟩ ⟨-, k, hb, hb'⟩
    have hlt := hn a (Catalog.mem_entities_of_named? h.wellFormed h.named ha)
    have hlt' := hn' a' (Catalog.mem_entities_of_named? h.wellFormed' h.named' ha')
    exact ⟨fun heq => by rw [heq] at hlt; omega, fun heq => by rw [heq] at hlt'; omega⟩
  have hE : Entity.Renames fun e e' => c.Counterparts c' e e' ∨ Entity.Shifted n n' e e' := by
    refine ⟨fun a a' ha => ha.elim (hcounterparts.kind a a') (hshifted.kind a a'), ?_⟩
    rintro a b a' b' (ha | ha) (hb | hb)
    · exact hcounterparts.id a b a' b' ha hb
    · exact iff_of_false (hapart a b a' b' ha hb).1 (hapart a b a' b' ha hb).2
    · exact iff_of_false (hapart b a b' a' hb ha).1.symm (hapart b a b' a' hb ha).2.symm
    · exact hshifted.id a b a' b' ha hb
  obtain ⟨ρ, hρ, hinj⟩ := hE.exists_renaming
  refine ⟨ρ, fun d e he => ?_, fun k => ?_, hinj.mono ?_⟩
  · obtain ⟨e', he', -⟩ := h.exists_named? he
    rw [he', hρ e e' (.inl ⟨d, he, he'⟩)]
  · have hrow := hρ ⟨.databaseRow, ⟨n + k⟩⟩ ⟨.databaseRow, ⟨n' + k⟩⟩ (.inr ⟨rfl, k, rfl, rfl⟩)
    exact (congrArg Entity.id hrow).symm
  · rintro id (⟨e, he, rfl⟩ | hid)
    · obtain ⟨d, hd⟩ := Catalog.exists_named? h.wellFormed h.named he
      obtain ⟨e', he', -⟩ := h.exists_named? hd
      exact ⟨e, e', .inl ⟨d, hd, he'⟩, rfl⟩
    · exact ⟨⟨.databaseRow, id⟩, ⟨.databaseRow, ⟨n' + (id.number - n)⟩⟩,
        .inr ⟨rfl, id.number - n, (Nat.add_sub_cancel' hid).symm, rfl⟩, rfl⟩

/-! ## Images -/

/-- A creation in another catalog that one approach declares. What it refers to is what the first one refers to,
if the first catalog has all columns that the approach names. -/
structure Creation.Image (ρ : Id → Id) (c : Catalog) (x x' : Creation) : Prop where
  entity : x'.entity = x.entity.rename ρ
  approach : x'.approach = x.approach
  sourceTables : x'.sourceTables = x.sourceTables.map (Entity.rename ρ)
  sourceColumns : (∀ name ∈ x.approach.sourceColumns, c.hasColumn name) →
    x'.sourceColumns = x.sourceColumns.map (Entity.rename ρ)

/-- A column in another catalog that one definition declares. It refers to what the first one refers to, if the
first catalog has all columns that its expression names. -/
structure Column.Image (ρ : Id → Id) (c : Catalog) (col col' : Column) : Prop where
  entity : col'.entity = col.entity.rename ρ
  name : col'.name = col.name
  kind : (∃ type, col.kind = .field type ∧ col'.kind = .field type) ∨
    ∃ text e references references', col.kind = .function text e references ∧
      col'.kind = .function text e references' ∧
      ((∀ name ∈ e.columns, c.hasColumn name) → references' = references.map (Entity.rename ρ))

/-- A table in another catalog that one definition declares, with its creation and its columns. -/
structure Table.Image (ρ : Id → Id) (c c' : Catalog) (t t' : Table) : Prop where
  known : t' ∈ c'.tables
  name : t'.name = t.name
  entity : t'.entity = t.entity.rename ρ
  origin : t'.origin = t.origin
  creation : Option.Rel (Creation.Image ρ c) t.creation t'.creation
  columns : List.Forall₂ (Column.Image ρ c) (c.columnsOf t.id) (c'.columnsOf t'.id)

theorem Table.Image.id {t t' : Table} (h : t.Image ρ c c' t') : t'.id = ρ t.id := congrArg Entity.id h.entity

theorem Table.Image.sources {t t' : Table} (h : t.Image ρ c c' t') :
    t'.sources = t.sources.map (Entity.rename ρ) := by
  have hcreation := h.creation
  unfold Table.sources
  cases hc : t.creation with
  | none =>
    rw [hc] at hcreation
    rw [hcreation.eq_none]
    rfl
  | some creation =>
    rw [hc] at hcreation
    obtain ⟨creation', hc', hcreation⟩ := hcreation.of_some
    rw [hc']
    exact hcreation.sourceTables

theorem Column.Image.id {col col' : Column} (h : col.Image ρ c col') : col'.id = ρ col.id := by
  rw [← col.entity_id, ← col'.entity_id, h.entity]
  rfl

namespace Id.Transfers

variable {t t' : Table} {e e' : Entity} (h : c.ExtendedBy c') (hρ : Id.Transfers c c' n n' ρ)

include hρ in
theorem rename_inj (he : e ∈ c.entities) (he' : e' ∈ c.entities) (heq : e.rename ρ = e'.rename ρ) : e = e' := by
  have hkind : e.kind = e'.kind := (congrArg Entity.kind heq :)
  have hid := hρ.injOn (.inl ⟨e, he, rfl⟩) (.inl ⟨e', he', rfl⟩) (congrArg Entity.id heq)
  cases e
  cases e'
  cases hkind
  cases hid
  rfl

/-- Names of one sort that are all resolved in a catalog are resolved to the renamed entities in another one. -/
private theorem filterMap_eq {α : Type} {find find' : α → Option Entity} {names : List α}
    (hfound : ∀ name ∈ names, (find name).isSome)
    (hrename : ∀ name e, find name = some e → find' name = some (e.rename ρ)) :
    names.filterMap find' = (names.filterMap find).map (Entity.rename ρ) := by
  rw [List.map_filterMap]
  refine List.filterMap_congr fun name hname => ?_
  obtain ⟨e, he⟩ := Option.isSome_iff_exists.1 (hfound name hname)
  rw [hrename name e he, he]
  rfl

section

include hρ

/-- Names of tables that a catalog has are resolved to the renamed tables. -/
theorem tableNamed?_eq {names : List String} (hhas : ∀ name ∈ names, (c.table? name).isSome) :
    names.filterMap c'.tableNamed? = (names.filterMap c.tableNamed?).map (Entity.rename ρ) := by
  have hnamed : ∀ name e, c.tableNamed? name = some e → c'.tableNamed? name = some (e.rename ρ) :=
    fun name e he => hρ.named (.table name) e he
  refine filterMap_eq (fun name hname => ?_) hnamed
  rw [Catalog.tableNamed?, Option.isSome_map]
  exact hhas name hname

/-- Names of columns that a catalog has are resolved to the renamed columns. -/
theorem columnNamed?_eq {names : List ColumnName} (hhas : ∀ name ∈ names, c.hasColumn name) :
    names.filterMap c'.columnNamed? = (names.filterMap c.columnNamed?).map (Entity.rename ρ) := by
  have hnamed : ∀ name e, c.columnNamed? name = some e → c'.columnNamed? name = some (e.rename ρ) :=
    fun name e he => hρ.named (.column name) e he
  refine filterMap_eq (fun name hname => ?_) hnamed
  rw [Catalog.columnNamed?, Option.isSome_map]
  exact hhas name hname

end

include h hρ

private theorem distinct_rename {es : List Entity} (hes : ∀ e ∈ es, ∃ d, c.named? d = some e) :
    distinct (es.map (Entity.rename ρ)) = (distinct es).map (Entity.rename ρ) := by
  have hmem : ∀ e ∈ es, e ∈ c.entities := fun e he =>
    have ⟨_, hd⟩ := hes e he
    Catalog.mem_entities_of_named? h.wellFormed h.named hd
  exact distinct_map fun e he e' he' => hρ.rename_inj (hmem e he) (hmem e' he')

theorem creation_image {a : Approach} {x x' : Creation} (ht : t ∈ c.tables) (ht' : t' ∈ c'.tables)
    (hdeclare : Catalog.DeclareTable c c' t t') (hx : t.creation = some x) (hx' : t'.creation = some x')
    (hcreated : c.CreatedAs a x) (hcreated' : c'.CreatedAs a x') : x.Image ρ c x' where
  entity := by
    have hnamed := hρ.named (.creation t.name) x.entity
      (h.wellFormed.named?_creation_eq_some_iff.2 ⟨t, ht, rfl, x, hx, rfl⟩)
    have hnamed' : c'.named? (.creation t.name) = some x'.entity :=
      h.wellFormed'.named?_creation_eq_some_iff.2 ⟨t', ht', hdeclare.name, x', hx', rfl⟩
    exact Option.some.inj (hnamed'.symm.trans hnamed)
  approach := hcreated'.approach.trans hcreated.approach.symm
  sourceTables := by
    rw [hcreated.tables, hcreated'.tables, hρ.tableNamed?_eq hcreated.named,
      distinct_rename h hρ fun e he => ?_]
    obtain ⟨name, -, he⟩ := List.mem_filterMap.1 he
    exact ⟨.table name, he⟩
  sourceColumns hhas := by
    rw [hcreated.approach] at hhas
    rw [hcreated.columns, hcreated'.columns, hρ.columnNamed?_eq hhas,
      distinct_rename h hρ fun e he => ?_]
    obtain ⟨name, -, he⟩ := List.mem_filterMap.1 he
    exact ⟨.column name, he⟩

theorem column_image {col col' : Column} (ht : t ∈ c.tables) (ht' : t' ∈ c'.tables)
    (hdeclare : Catalog.DeclareTable c c' t t') (hcol : col ∈ c.columnsOf t.id)
    (hcol' : col' ∈ c'.columnsOf t'.id) (hdeclared : Catalog.DeclareColumn c c' col col') :
    col.Image ρ c col' where
  entity := by
    have hnamed := hρ.named (.column ⟨t.name, col.name⟩) col.entity
      ((h.named.columnNamed?_eq_some_iff h.wellFormed).2 ⟨t, ht, rfl, col, hcol, rfl, rfl⟩)
    have hnamed' : c'.named? (.column ⟨t.name, col.name⟩) = some col'.entity :=
      (h.named'.columnNamed?_eq_some_iff h.wellFormed').2
        ⟨t', ht', hdeclare.name, col', hcol', hdeclared.name, rfl⟩
    exact Option.some.inj (hnamed'.symm.trans hnamed)
  name := hdeclared.name
  kind := hdeclared.kind.imp_right fun ⟨text, e, hk, hk'⟩ =>
    ⟨text, e, _, _, hk, hk', fun hhas => hρ.columnNamed?_eq fun name hname => hhas name (mem_distinct.1 hname)⟩

/-- Every table of a catalog has an image in one with more definitions. -/
theorem exists_image (ht : t ∈ c.tables) : ∃ t', t.Image ρ c c' t' := by
  obtain ⟨t', ht', hdeclare⟩ := h.tables t ht
  refine ⟨t', ht', hdeclare.name, ?_, hdeclare.origin, hdeclare.creation.imp ?_, ?_⟩
  · have hnamed := hρ.named (.table t.name) t.entity (h.wellFormed.tableNamed?_eq_some_iff.2 ⟨t, ht, rfl, rfl⟩)
    have hnamed' : c'.named? (.table t.name) = some t'.entity :=
      h.wellFormed'.tableNamed?_eq_some_iff.2 ⟨t', ht', hdeclare.name, rfl⟩
    exact Option.some.inj (hnamed'.symm.trans hnamed)
  · rintro x hx x' hx' ⟨a, hcreated, hcreated'⟩
    exact creation_image h hρ ht ht' hdeclare hx hx' hcreated hcreated'
  · refine hdeclare.columns.mem_left.mem_right.imp ?_
    rintro col col' ⟨hcol', hcol, hdeclared⟩
    exact column_image h hρ ht ht' hdeclare hcol hcol' hdeclared

end Id.Transfers

end Provenance

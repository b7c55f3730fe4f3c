import Provenance.Proofs.Initialization.History
import Provenance.Proofs.Initialization.Renaming

/-!
# Derivable tables

A table is derivable if it can be staged over the contents of its sources, and these are derivable in turn:
a table of records if they populate it, and no table that is derived from itself (`Derivable`). Where the
contents stand does not matter. They are the same in all stores up to a renaming (`Derives.twin`), and a
derivable table can be staged over every one of them (`Derives.exists_stage`). What a history commits is
derivable (`History.derives`), and two histories commit the same for a table (`History.renamed`).
-/

namespace Provenance

/-- A table and contents of it: what is staged over a store that holds contents of its sources. -/
inductive Derives (setup : Setup) : Table → Extent → Prop
  | intro {t : Table} {contents : Table → Extent} {store : Store} {p : Populated} {d : Draft}
      (known : t ∈ setup.catalog.tables)
      (sources : ∀ t', setup.catalog.Reads t t' → Derives setup t' (contents t'))
      (sound : store.Sound) (held : ∀ t', setup.catalog.Reads t t' → contents t' ∈ store.extents)
      (populates : p.Of t) (staged : stage setup store p t = .ok d) : Derives setup t d.extent

/-- The least set of tables that holds every table that can be staged over contents of its sources, if these
belong to the set. -/
def Derivable (setup : Setup) (t : Table) : Prop := ∃ x, Derives setup t x

variable {setup : Setup} {t t' : Table} {x x' : Extent}

theorem Derivable.known (h : Derivable setup t) : t ∈ setup.catalog.tables := by
  obtain ⟨x, h⟩ := h
  cases h with
  | intro known => exact known

theorem Derivable.source (h : Derivable setup t) (hreads : setup.catalog.Reads t t') :
    Derivable setup t' := by
  obtain ⟨x, h⟩ := h
  cases h with
  | intro _ sources => exact ⟨_, sources t' hreads⟩

/-- A derivable table is not derived from itself. -/
theorem Derivable.acyclic (h : Derivable setup t) : ¬Relation.TransGen setup.catalog.Reads t t := by
  obtain ⟨x, h⟩ := h
  induction h with
  | intro _ _ _ _ _ _ ih =>
    intro hcycle
    obtain ⟨u, hread, hback⟩ := Relation.TransGen.head'_iff.1 hcycle
    exact ih u hread (Relation.TransGen.tail' hback hread)

/-- What is staged over a store that holds contents of all sources are contents of the table. -/
theorem Derives.of_held {store : Store} {p : Populated} {d : Draft} (known : t ∈ setup.catalog.tables)
    (sound : store.Sound) (held : ∀ t', setup.catalog.Reads t t' → ∃ y ∈ store.extents, Derives setup t' y)
    (populates : p.Of t) (staged : stage setup store p t = .ok d) : Derives setup t d.extent := by
  have hcontents : ∀ t', ∃ y, setup.catalog.Reads t t' → Derives setup t' y ∧ y ∈ store.extents := by
    intro t'
    by_cases hreads : setup.catalog.Reads t t'
    · obtain ⟨y, hy, hderives⟩ := held t' hreads
      exact ⟨y, fun _ => ⟨hderives, hy⟩⟩
    · exact ⟨d.extent, fun h => absurd h hreads⟩
  choose contents hcontents using hcontents
  exact .intro known (fun t' hreads => (hcontents t' hreads).1) sound
    (fun t' hreads => (hcontents t' hreads).2) populates staged

section

variable (hwf : setup.catalog.WellFormed)
include hwf

theorem Derives.populates (h : Derives setup t x) : x.populated.Of t := by
  cases h with
  | intro known _ _ _ populates staged =>
    rw [(grounded_of_stage hwf known populates.origin populates.table staged).2]
    exact populates

/-- Contents of a table are the same up to a renaming. -/
theorem Derives.twin (h : Derives setup t x) (h' : Derives setup t x') : x.Twin x' := by
  induction h generalizing x' with
  | intro known sources sound held populates staged ih =>
    cases h' with
    | intro _ sources' sound' held' populates' staged' =>
      obtain ⟨d', hd', hrenamed⟩ := stage_renamed hwf sound sound' known populates populates'
        (fun t' hreads => ⟨_, held t' hreads, _, held' t' hreads, ((sources t' hreads).populates hwf).table,
          ih t' hreads (sources' t' hreads)⟩) staged
      cases hd'.symm.trans staged'
      exact hrenamed.twin

/-- A derivable table can be staged over every store that holds contents of its sources. -/
theorem Derives.exists_stage {store : Store} {p : Populated} (h : Derives setup t x) (hs : store.Sound)
    (hheld : ∀ t', setup.catalog.Reads t t' → ∃ y ∈ store.extents, Derives setup t' y) (hp : p.Of t) :
    ∃ d, stage setup store p t = .ok d ∧ x.Twin d.extent := by
  cases h with
  | intro known sources sound held populates staged =>
    obtain ⟨d, hd, hrenamed⟩ := stage_renamed hwf sound hs known populates hp (fun t' hreads => by
      obtain ⟨y, hy, hderives⟩ := hheld t' hreads
      exact ⟨_, held t' hreads, y, hy, ((sources t' hreads).populates hwf).table,
        (sources t' hreads).twin hwf hderives⟩) staged
    exact ⟨d, hd, hrenamed.twin⟩

/-- Contents of a table may stand anywhere. -/
theorem Derives.exists_at {p : Populated} (h : Derives setup t x) (hp : p.Of t) :
    ∃ x', Derives setup t x' ∧ x'.populated = p := by
  cases h with
  | intro known sources sound held populates staged =>
    obtain ⟨d, hd, -⟩ := stage_renamed hwf sound sound known populates hp
      (fun t' hreads => ⟨_, held t' hreads, _, held t' hreads, ((sources t' hreads).populates hwf).table,
        (sources t' hreads).twin hwf (sources t' hreads)⟩) staged
    exact ⟨d.extent, .intro known sources sound held hp hd,
      (grounded_of_stage hwf known hp.origin hp.table hd).2⟩

theorem Derives.filled (h : Derives setup t x) : ∃ rows, x = .filled x.populated x.columns rows := by
  cases h with
  | intro known _ _ _ populates staged =>
    exact (grounded_of_stage hwf known populates.origin populates.table staged).1.filled

/-- There is a store that holds contents of any derivable tables. -/
private theorem exists_store {ts : List Table} (hts : ts.Nodup)
    (h : ∀ t ∈ ts, Derivable setup t) :
    ∃ store : Store, store.Sound ∧ (∀ t ∈ ts, ∃ x ∈ store.extents, Derives setup t x) ∧
      (∀ x ∈ store.extents, ∃ t ∈ ts, x.populated.table = t.id) ∧
      ∃ n, ∀ x ∈ store.extents, x.idsEnd ≤ n := by
  induction ts with
  | nil =>
    exact ⟨.empty, Store.sound_empty, fun _ ht => absurd ht List.not_mem_nil,
      fun _ hx => absurd hx List.not_mem_nil, 0, fun _ hx => absurd hx List.not_mem_nil⟩
  | cons t ts ih =>
    obtain ⟨hnew, hts⟩ := List.nodup_cons.1 hts
    obtain ⟨store, hs, hheld, hof, n, hn⟩ := ih hts fun t ht => h t (List.mem_cons_of_mem _ ht)
    obtain ⟨y, hy⟩ := h t List.mem_cons_self
    have hp : Populated.Of t { y.populated with id := ⟨n⟩ } :=
      ⟨(hy.populates hwf).table, (hy.populates hwf).origin⟩
    obtain ⟨x, hx, hat⟩ := hy.exists_at hwf hp
    refine ⟨store.commit x, hs.commit (hx.filled hwf) (fun z hz heq => hnew ?_) ?_, ?_, ?_, x.idsEnd, ?_⟩
    · obtain ⟨t', ht', htable⟩ := hof z hz
      have hid : t'.id = t.id := htable.symm.trans (heq.trans (hx.populates hwf).table)
      have hknown := (h t' (List.mem_cons_of_mem _ ht')).known
      exact hwf.table_eq hknown (h t List.mem_cons_self).known hid ▸ ht'
    · rw [hat]
      exact hn
    · intro t' ht'
      rcases List.mem_cons.1 ht' with rfl | ht'
      · exact ⟨x, List.mem_append_right _ (List.mem_singleton_self x), hx⟩
      · obtain ⟨z, hz, hderives⟩ := hheld t' ht'
        exact ⟨z, List.mem_append_left _ hz, hderives⟩
    · intro z hz
      rcases List.mem_append.1 hz with hz | hz
      · obtain ⟨t', ht', htable⟩ := hof z hz
        exact ⟨t', List.mem_cons_of_mem _ ht', htable⟩
      · rw [List.mem_singleton.1 hz]
        exact ⟨t, List.mem_cons_self, (hx.populates hwf).table⟩
    · intro z hz
      rcases List.mem_append.1 hz with hz | hz
      · have hlt : n ≤ x.idsEnd := by
          rw [Extent.idsEnd, hat]
          exact Nat.le_add_right _ _
        exact Nat.le_trans (hn z hz) hlt
      · rw [List.mem_singleton.1 hz]

/-- A table is derivable iff all of its sources are and it can be staged over their contents, wherever
these stand. -/
theorem derivable_iff (ht : t ∈ setup.catalog.tables) :
    Derivable setup t ↔ (∀ t', setup.catalog.Reads t t' → Derivable setup t') ∧
      ∀ (store : Store) (p : Populated), store.Sound → p.Of t →
        (∀ t', setup.catalog.Reads t t' → ∃ x ∈ store.extents, Derives setup t' x) →
        ∃ d, stage setup store p t = .ok d := by
  constructor
  · rintro ⟨x, hx⟩
    refine ⟨fun t' => Derivable.source ⟨x, hx⟩, fun store p hs hp hheld => ?_⟩
    obtain ⟨d, hd, -⟩ := hx.exists_stage hwf hs hheld hp
    exact ⟨d, hd⟩
  · rintro ⟨hsources, hstage⟩
    classical
    have hnodup : (setup.catalog.tables.filter fun t' => setup.catalog.Reads t t').Nodup :=
      (List.Nodup.of_map _ hwf.names).filter _
    obtain ⟨store, hs, hheld, -⟩ := exists_store hwf hnodup fun t' ht' =>
      hsources t' (of_decide_eq_true (List.mem_filter.1 ht').2)
    have hheld : ∀ t', setup.catalog.Reads t t' → ∃ x ∈ store.extents, Derives setup t' x :=
      fun t' hreads => hheld t' (List.mem_filter.2 ⟨hreads.1, decide_eq_true hreads⟩)
    obtain ⟨d, hd⟩ := hstage store ⟨⟨0⟩, ⟨0⟩, t.id, t.origin, .epoch⟩ hs ⟨rfl, rfl⟩ hheld
    exact ⟨d.extent, .of_held ht hs hheld ⟨rfl, rfl⟩ hd⟩

end

/-! ## Histories -/

theorem Draft.Renamed.mono {c : Catalog} {E E' : Entity → Entity → Prop} {d d' : Draft}
    (h : d.Renamed c E d') (hE : ∀ e e', E e e' → E' e e') : d.Renamed c E' d' where
  twin := h.twin
  edges := h.edges.imp fun _ _ hedge =>
    hedge.imp_right fun hedge => ⟨hedge.kind, hedge.owner, hE _ _ hedge.target⟩

theorem Store.Twins.mono {s₁ s₁' s₂ s₂' : Store} {e e' : Entity} (h : s₁.Twins s₁' e e')
    (hs : ∀ x ∈ s₁.extents, x ∈ s₂.extents) (hs' : ∀ x ∈ s₁'.extents, x ∈ s₂'.extents) :
    s₂.Twins s₂' e e' :=
  have ⟨x, hx, x', hx', h⟩ := h
  ⟨x, hs x hx, x', hs' x' hx', h⟩

theorem Commit.extent_mem_append {cs : List Commit} (cs' : List Commit) {x : Extent}
    (hx : x ∈ (storeOf cs).extents) : x ∈ (storeOf (cs ++ cs')).extents := by
  obtain ⟨c, hc, rfl⟩ := List.mem_map.1 hx
  exact extent_mem (List.mem_append_left _ hc)

/-- The sources of a table that is committed were committed before it. -/
theorem Commit.Follows.exists_source {cs : List Commit} {c : Commit} (hwf : setup.catalog.WellFormed)
    (hknown : ∀ c' ∈ cs, c'.table ∈ setup.catalog.tables) (follows : c.Follows setup cs)
    (hreads : setup.catalog.Reads c.table t) : ∃ c' ∈ cs, c'.table = t := by
  obtain ⟨c', hc', hentity⟩ := follows.sources _ hreads.2
  exact ⟨c', hc', hwf.table_eq (hknown c' hc') hreads.1 (congrArg Entity.id hentity)⟩

namespace History

variable {cs cs' : List Commit} {c c' : Commit} (hwf : setup.catalog.WellFormed)
include hwf

/-- What is committed are contents of its table. -/
theorem derives (h : History setup cs) (hc : c ∈ cs) : Derives setup c.table c.draft.extent := by
  induction h generalizing c with
  | nil => cases hc
  | @snoc cs last h follows ih =>
    rcases List.mem_append.1 hc with hc | hc
    · exact ih hc
    · cases List.mem_singleton.1 hc
      have hsources : ∀ t, setup.catalog.Reads last.table t → ∃ c' ∈ cs, c'.table = t := fun t =>
        follows.exists_source hwf fun _ => h.known
      exact .of_held follows.known (h.sound hwf) (fun t hreads =>
        have ⟨c', hc', heq⟩ := hsources t hreads
        ⟨_, Commit.extent_mem hc', heq ▸ ih hc'⟩) follows.populates follows.staged

/-- Two histories commit the same for a table, up to a renaming. -/
theorem renamed (h : History setup cs) (h' : History setup cs') (hc : c ∈ cs) (hc' : c' ∈ cs')
    (htable : c.table = c'.table) :
    c.draft.Renamed setup.catalog ((Commit.storeOf cs).Twins (Commit.storeOf cs')) c'.draft := by
  obtain ⟨before, after, rfl, follows⟩ := h.exists_follows hc
  obtain ⟨before', after', rfl, follows'⟩ := h'.exists_follows hc'
  have hb := h.of_append
  have hb' := h'.of_append
  obtain ⟨d', hd', hrenamed⟩ := stage_renamed hwf (hb.sound hwf) (hb'.sound hwf) follows.known
    follows.populates (htable ▸ follows'.populates) (fun t hreads => by
      obtain ⟨c₁, hc₁, heq⟩ := follows.exists_source hwf (fun _ => hb.known) hreads
      obtain ⟨c₁', hc₁', heq'⟩ := follows'.exists_source hwf (fun _ => hb'.known) (htable ▸ hreads)
      refine ⟨_, Commit.extent_mem hc₁, _, Commit.extent_mem hc₁', heq ▸ (hb.populates hc₁).table, ?_⟩
      exact (hb.derives hwf hc₁).twin hwf (heq.trans heq'.symm ▸ hb'.derives hwf hc₁')) follows.staged
  have hstaged := follows'.staged
  rw [← htable] at hstaged
  cases hd'.symm.trans hstaged
  exact hrenamed.mono fun _ _ he =>
    he.mono (fun _ => Commit.extent_mem_append _) fun _ => Commit.extent_mem_append _

end History

end Provenance

import Provenance.Proofs.Initialization.Derivable
import Provenance.Proofs.Initialization.Invariant

/-!
# Which tables are settled

Whatever the order in which tables are asked for, a table fails only if it is not derivable
(`Initializes.honest`). Which tables are settled, that is, materialized or recorded as failed, is then a
matter of which tables ask for which: a table asks for its sources up to the first that is not derivable.
Asking for tables settles exactly those that can be reached in this way (`Initializes.settles`).
-/

namespace Provenance

/-- Tables that are asked for while those on `path` are under way, and which these are derived from. -/
structure Asking (setup : Setup) (path es : List Entity) : Prop where
  known : ∀ e ∈ es, ∃ t ∈ setup.catalog.tables, t.entity = e
  below : ∀ u ∈ setup.catalog.tables, ∀ t ∈ setup.catalog.tables, u.entity ∈ path → t.entity ∈ es →
    Relation.TransGen setup.catalog.Reads u t

/-- No table that is recorded as failed is derivable. -/
def State.Honest (setup : Setup) (s : State) : Prop :=
  ∀ f ∈ s.failures, ∀ t, f.entity = t.entity → ¬Derivable setup t

variable {setup : Setup} {path es rest : List Entity} {s s' : State} {e : Entity} {t u : Table}
  {before cs : List Commit} {out : Outcome}

theorem Catalog.WellFormed.eq_of_entity {c : Catalog} (h : c.WellFormed) (ht : t ∈ c.tables)
    (hu : u ∈ c.tables) (heq : t.entity = u.entity) : t = u :=
  h.table_eq ht hu (congrArg Entity.id heq)

namespace Asking

theorem start (known : ∀ e ∈ es, ∃ t ∈ setup.catalog.tables, t.entity = e) : Asking setup [] es :=
  ⟨known, fun _ _ _ _ hpath => absurd hpath List.not_mem_nil⟩

theorem tail (h : Asking setup path (e :: rest)) : Asking setup path rest where
  known e' he := h.known e' (List.mem_cons_of_mem _ he)
  below u hu t ht hpath hmem := h.below u hu t ht hpath (List.mem_cons_of_mem _ hmem)

theorem head (h : Asking setup path (e :: rest)) : Asking setup path [e] where
  known e' he := h.known e' (List.mem_singleton.1 he ▸ List.mem_cons_self)
  below u hu t ht hpath hmem := h.below u hu t ht hpath (List.mem_singleton.1 hmem ▸ List.mem_cons_self)

variable (hwf : setup.catalog.WellFormed)
include hwf

theorem entity_eq (h : Asking setup path (e :: rest)) (hknown : setup.catalog.tableById? e.id = some t) :
    t ∈ setup.catalog.tables ∧ t.entity = e := by
  obtain ⟨u, hu, rfl⟩ := h.known e List.mem_cons_self
  cases (hwf.tableById?_of_mem hu).symm.trans hknown
  exact ⟨hu, rfl⟩

theorem sources (h : Asking setup path (t.entity :: rest)) (ht : t ∈ setup.catalog.tables) :
    Asking setup (path ++ [t.entity]) t.sources where
  known e he := by
    obtain ⟨t', hreads, rfl⟩ := hwf.reads_of_mem_sources ht he
    exact ⟨t', hreads.1, rfl⟩
  below u hu t' ht' hpath hmem := by
    rcases List.mem_append.1 hpath with hpath | hpath
    · exact (h.below u hu t ht hpath List.mem_cons_self).tail ⟨ht', hmem⟩
    · cases hwf.eq_of_entity hu ht (List.mem_singleton.1 hpath)
      exact .single ⟨ht', hmem⟩

end Asking

theorem State.Honest.recordFailure (hwf : setup.catalog.WellFormed) (h : s.Honest setup)
    (ht : t ∈ setup.catalog.tables) (hnot : ¬Derivable setup t) (failure : Error) :
    (s.recordFailure t failure).Honest setup := by
  intro f hf u hu hderivable
  rcases List.mem_append.1 hf with hf | hf
  · exact h f hf u hu hderivable
  · rw [List.mem_singleton.1 hf] at hu
    exact hnot (hwf.eq_of_entity ht hderivable.known hu ▸ hderivable)

theorem State.MadeOf.entity_of_failure {f : Failure} (hwf : setup.catalog.WellFormed)
    (h : s.MadeOf setup before) (ht : t ∈ setup.catalog.tables) (hf : s.failureOf? t.id = some f) :
    f ∈ s.failures ∧ f.entity = t.entity := by
  have hmem := List.mem_of_find?_eq_some hf
  have hid : f.entity.id = t.id := by simpa using List.find?_some hf
  obtain ⟨u, hu, hentity, -⟩ := h.failures f hmem
  rw [hentity] at hid
  exact ⟨hmem, hwf.table_eq hu ht hid ▸ hentity⟩

/-- A table fails only if it is not derivable: it is derived from itself or from a table that is not
derivable, or it cannot be staged over the contents of its sources. -/
theorem Initializes.honest (hwf : setup.catalog.WellFormed) (h : Initializes setup path es s cs out)
    (hs : s.MadeOf setup before) (hask : Asking setup path es) (hhonest : s.Honest setup) :
    out.2.Honest setup ∧ ∀ failure, out.1 = .error failure →
      ∃ t ∈ setup.catalog.tables, t.entity ∈ es ∧ ¬Derivable setup t := by
  induction h generalizing before with
  | done => exact ⟨hhonest, fun _ h => by cases h⟩
  | @present _ _ _ s _ _ _ _ _ _ ih =>
    have hskip : s.skip.Honest setup := hhonest
    obtain ⟨hout, hfail⟩ := ih hs.skip hask.tail hskip
    refine ⟨hout, fun failure h => ?_⟩
    obtain ⟨t, ht, hmem, hnot⟩ := hfail failure h
    exact ⟨t, ht, List.mem_cons_of_mem _ hmem, hnot⟩
  | dangling unknown =>
    obtain ⟨t, ht, rfl⟩ := hask.known _ List.mem_cons_self
    cases (hwf.tableById?_of_mem ht).symm.trans unknown
  | @failedBefore _ _ _ _ t f known _ failed =>
    obtain ⟨ht, rfl⟩ := hask.entity_eq hwf known
    refine ⟨hhonest, fun _ _ => ⟨t, ht, List.mem_cons_self, ?_⟩⟩
    obtain ⟨hf, hentity⟩ := hs.entity_of_failure hwf ht failed
    exact hhonest f hf t hentity
  | @cyclic _ _ _ _ t known _ _ under =>
    obtain ⟨ht, rfl⟩ := hask.entity_eq hwf known
    refine ⟨hhonest, fun _ _ => ⟨t, ht, List.mem_cons_self, fun hderivable => ?_⟩⟩
    exact hderivable.acyclic (hask.below t ht t ht under List.mem_cons_self)
  | @blocked _ _ _ _ _ t _ failure tries _ ih =>
    obtain ⟨ht, rfl⟩ := hask.entity_eq hwf tries.known
    obtain ⟨hout, hfail⟩ := ih hs (hask.sources hwf ht) hhonest
    obtain ⟨t', ht', hmem, hnot⟩ := hfail failure rfl
    have hnot : ¬Derivable setup t := fun hderivable => hnot (hderivable.source ⟨ht', hmem⟩)
    exact ⟨hout.recordFailure hwf ht hnot failure, fun _ _ => ⟨t, ht, List.mem_cons_self, hnot⟩⟩
  | @refused _ _ _ _ s' _ t _ failure tries sources settled ih =>
    obtain ⟨ht, rfl⟩ := hask.entity_eq hwf tries.known
    obtain ⟨hout, -⟩ := ih hs (hask.sources hwf ht) hhonest
    obtain ⟨hstage, rfl⟩ := sources.stage_of_refused hwf tries hs settled
    have hmade := (sources.madeOf_and_committed hwf hs).1
    have hnot : ¬Derivable setup t := by
      rintro ⟨x, hx⟩
      obtain ⟨d, hd, -⟩ := hx.exists_stage hwf (p := s'.opening t) (hmade.sound hwf) (fun t' hreads => by
        obtain ⟨c, hc, rfl⟩ := sources.exists_source hwf hs hreads
        exact ⟨_, hmade.mem_extents hc, hmade.history.derives hwf hc⟩) ⟨rfl, rfl⟩
      cases hd.symm.trans hstage
    exact ⟨hout.recordFailure hwf ht hnot failure, fun _ _ => ⟨t, ht, List.mem_cons_self, hnot⟩⟩
  | @built _ _ _ _ _ _ t _ _ _ _ tries sources staged settled _ ihsources ihnext =>
    obtain ⟨ht, rfl⟩ := hask.entity_eq hwf tries.known
    obtain ⟨hout, -⟩ := ihsources hs (hask.sources hwf ht) hhonest
    obtain ⟨rfl, hmade⟩ := sources.state_of_built hwf tries hs staged settled
    obtain ⟨hout, hfail⟩ := ihnext hmade hask.tail hout
    refine ⟨hout, fun failure h => ?_⟩
    obtain ⟨t', ht', hmem, hnot⟩ := hfail failure h
    exact ⟨t', ht', List.mem_cons_of_mem _ hmem, hnot⟩

/-! ## Which tables ask for which -/

/-- A table in a list is asked for if all tables before it are derivable: the first that is not fails, and
the rest is left. -/
inductive Asked (setup : Setup) : List Entity → Table → Prop
  | head {t : Table} {rest : List Entity} (known : t ∈ setup.catalog.tables) :
      Asked setup (t.entity :: rest) t
  | tail {u t : Table} {rest : List Entity} (derivable : Derivable setup u) (next : Asked setup rest t) :
      Asked setup (u.entity :: rest) t

/-- A table asks for its sources up to the first that is not derivable. -/
def Asks (setup : Setup) (t t' : Table) : Prop := Asked setup t.sources t'

theorem Asked.known (h : Asked setup es t) : t ∈ setup.catalog.tables := by
  induction h with
  | head known => exact known
  | tail _ _ ih => exact ih

theorem asked_cons_iff (hwf : setup.catalog.WellFormed) (ht : t ∈ setup.catalog.tables) :
    Asked setup (t.entity :: rest) u ↔ u = t ∨ (Derivable setup t ∧ Asked setup rest u) := by
  constructor
  · intro h
    generalize hes : t.entity :: rest = es at h
    cases h with
    | head known =>
      obtain ⟨hentity, rfl⟩ := List.cons.inj hes
      exact .inl (hwf.eq_of_entity known ht hentity.symm)
    | tail derivable next =>
      obtain ⟨hentity, rfl⟩ := List.cons.inj hes
      exact .inr ⟨hwf.eq_of_entity derivable.known ht hentity.symm ▸ derivable, next⟩
  · rintro (rfl | ⟨derivable, next⟩)
    · exact .head ht
    · exact .tail derivable next

/-- What a settled table asks for is settled, or under way. -/
def Closed (setup : Setup) (path : List Entity) (K : Table → Prop) : Prop :=
  ∀ t t', K t → Asks setup t t' → K t' ∨ t'.entity ∈ path

/-- How a set of settled tables grows when the tables of a list are asked for: by those that are asked for,
and by those that are asked for by one of these. -/
structure Settles (setup : Setup) (path es : List Entity) (K K' : Table → Prop) : Prop where
  mono : ∀ t, K t → K' t
  closed : Closed setup path K'
  reached : ∀ t, Asked setup es t → K' t ∨ t.entity ∈ path
  bounded : ∀ t, K' t → K t ∨ ∃ u, Asked setup es u ∧ Relation.ReflTransGen (Asks setup) u t

namespace Settles

variable {K K₁ K' : Table → Prop}

theorem nil (h : Closed setup path K) : Settles setup path [] K K where
  mono _ h := h
  closed := h
  reached _ h := nomatch h
  bounded _ h := .inl h

variable (hwf : setup.catalog.WellFormed) (ht : t ∈ setup.catalog.tables)
include hwf ht

/-- A table that is settled or under way is not tried. -/
theorem of_settled (hclosed : Closed setup path K) (h : K t ∨ t.entity ∈ path) :
    Settles setup path [t.entity] K K where
  mono _ h := h
  closed := hclosed
  reached u hu := by
    rcases (asked_cons_iff hwf ht).1 hu with rfl | ⟨-, hu⟩
    · exact h
    · cases hu
  bounded _ h := .inl h

/-- A table that is tried asks for its sources and is settled then. -/
theorem of_sources (h : Settles setup (path ++ [t.entity]) t.sources K K₁)
    (hK' : ∀ u, K' u ↔ K₁ u ∨ u = t) : Settles setup path [t.entity] K K' where
  mono u hu := (hK' u).2 (.inl (h.mono u hu))
  closed u u' hu hasks := by
    have hu' : K₁ u' ∨ u'.entity ∈ path ++ [t.entity] := by
      rcases (hK' u).1 hu with hu | rfl
      · exact h.closed u u' hu hasks
      · exact h.reached u' hasks
    rcases hu' with hu' | hu'
    · exact .inl ((hK' u').2 (.inl hu'))
    · rcases List.mem_append.1 hu' with hu' | hu'
      · exact .inr hu'
      · have heq := hwf.eq_of_entity hasks.known ht (List.mem_singleton.1 hu')
        exact .inl ((hK' u').2 (.inr heq))
  reached u hu := by
    rcases (asked_cons_iff hwf ht).1 hu with rfl | ⟨-, hu⟩
    · exact .inl ((hK' u).2 (.inr rfl))
    · cases hu
  bounded u hu := by
    rcases (hK' u).1 hu with hu | rfl
    · refine (h.bounded u hu).imp_right fun ⟨w, hw, hreach⟩ => ?_
      exact ⟨t, .head ht, .head hw hreach⟩
    · exact .inr ⟨u, .head ht, .refl⟩

/-- After a table that is not derivable no other is asked for. -/
theorem cons_of_not_derivable (h : Settles setup path [t.entity] K K') (hnot : ¬Derivable setup t) :
    Settles setup path (t.entity :: rest) K K' where
  mono := h.mono
  closed := h.closed
  reached u hu := by
    rcases (asked_cons_iff hwf ht).1 hu with rfl | ⟨hderivable, -⟩
    · exact h.reached u (.head ht)
    · exact absurd hderivable hnot
  bounded u hu := by
    refine (h.bounded u hu).imp_right fun ⟨w, hw, hreach⟩ => ⟨w, ?_, hreach⟩
    rcases (asked_cons_iff hwf ht).1 hw with rfl | ⟨-, hw⟩
    · exact .head ht
    · cases hw

/-- After a derivable table the rest of the list is asked for. -/
theorem cons_of_derivable (h : Settles setup path [t.entity] K K₁) (hderivable : Derivable setup t)
    (hrest : Settles setup path rest K₁ K') : Settles setup path (t.entity :: rest) K K' where
  mono u hu := hrest.mono u (h.mono u hu)
  closed := hrest.closed
  reached u hu := by
    rcases (asked_cons_iff hwf ht).1 hu with rfl | ⟨-, hu⟩
    · exact (h.reached u (.head ht)).imp_left (hrest.mono u)
    · exact hrest.reached u hu
  bounded u hu := by
    rcases hrest.bounded u hu with hu | ⟨w, hw, hreach⟩
    · refine (h.bounded u hu).imp_right fun ⟨w, hw, hreach⟩ => ⟨w, ?_, hreach⟩
      rcases (asked_cons_iff hwf ht).1 hw with rfl | ⟨-, hw⟩
      · exact .head ht
      · cases hw
    · exact .inr ⟨w, .tail hderivable hw, hreach⟩

end Settles

/-! ## What initialization settles -/

/-- A table is settled in a state that is made of some commits if it is one of them, or recorded as
failed. -/
def State.Settled (setup : Setup) (s : State) (cs : List Commit) (t : Table) : Prop :=
  t ∈ setup.catalog.tables ∧ ((∃ c ∈ cs, c.table = t) ∨ ∃ f ∈ s.failures, f.entity = t.entity)

theorem State.settled_recordFailure (hwf : setup.catalog.WellFormed) (ht : t ∈ setup.catalog.tables)
    (failure : Error) (u : Table) :
    (s.recordFailure t failure).Settled setup cs u ↔ s.Settled setup cs u ∨ u = t := by
  constructor
  · rintro ⟨hu, hc | ⟨f, hf, heq⟩⟩
    · exact .inl ⟨hu, .inl hc⟩
    · rcases List.mem_append.1 hf with hf | hf
      · exact .inl ⟨hu, .inr ⟨f, hf, heq⟩⟩
      · rw [List.mem_singleton.1 hf] at heq
        exact .inr (hwf.eq_of_entity hu ht heq.symm)
  · rintro (⟨hu, hc | ⟨f, hf, heq⟩⟩ | rfl)
    · exact ⟨hu, .inl hc⟩
    · exact ⟨hu, .inr ⟨f, List.mem_append_left _ hf, heq⟩⟩
    · exact ⟨ht, .inr ⟨_, List.mem_append_right _ (List.mem_singleton_self _), rfl⟩⟩

theorem State.settled_recordSuccess {d : Draft} (ht : t ∈ setup.catalog.tables) (u : Table) :
    ((d.committed s).recordSuccess t d.extent.columns).Settled setup (cs ++ [⟨t, d⟩]) u ↔
      s.Settled setup cs u ∨ u = t := by
  constructor
  · rintro ⟨hu, ⟨c, hc, rfl⟩ | hf⟩
    · rcases List.mem_append.1 hc with hc | hc
      · exact .inl ⟨hu, .inl ⟨c, hc, rfl⟩⟩
      · rw [List.mem_singleton.1 hc]
        exact .inr rfl
    · exact .inl ⟨hu, .inr hf⟩
  · rintro (⟨hu, ⟨c, hc, rfl⟩ | hf⟩ | rfl)
    · exact ⟨hu, .inl ⟨c, List.mem_append_left _ hc, rfl⟩⟩
    · exact ⟨hu, .inr hf⟩
    · exact ⟨ht, .inl ⟨⟨u, d⟩, List.mem_append_right _ (List.mem_singleton_self _), rfl⟩⟩

theorem Initializes.not_derivable_of_error {failure : Error} (hwf : setup.catalog.WellFormed)
    (h : Initializes setup path [t.entity] s cs (.error failure, s')) (hs : s.MadeOf setup before)
    (hask : Asking setup path [t.entity]) (hhonest : s.Honest setup) : ¬Derivable setup t := by
  intro hderivable
  obtain ⟨u, hu, hmem, hnot⟩ := (h.honest hwf hs hask hhonest).2 failure rfl
  exact hnot (hwf.eq_of_entity hderivable.known hu (List.mem_singleton.1 hmem).symm ▸ hderivable)

/-- Asking for tables settles those that are asked for, and those that they ask for in turn. -/
theorem Initializes.settles (hwf : setup.catalog.WellFormed) (h : Initializes setup path es s cs out)
    (hs : s.MadeOf setup before) (hask : Asking setup path es) (hhonest : s.Honest setup)
    (hclosed : Closed setup path (s.Settled setup before)) :
    Settles setup path es (s.Settled setup before) (out.2.Settled setup (before ++ cs)) := by
  have hunder : ∀ {path : List Entity} {e : Entity} {K : Table → Prop}, Closed setup path K →
      Closed setup (path ++ [e]) K :=
    fun h t t' ht hasks => (h t t' ht hasks).imp_right (List.mem_append_left _)
  induction h generalizing before with
  | done =>
    rw [List.append_nil]
    exact .nil hclosed
  | @present _ _ _ s t _ _ known there _ ih =>
    obtain ⟨ht, rfl⟩ := hask.entity_eq hwf known
    obtain ⟨c, hc, rfl⟩ := (hs.isInitialized_iff hwf ht).1 there
    have hskip : s.skip.Honest setup := hhonest
    have hhead := Settles.of_settled hwf ht hclosed (.inl ⟨ht, .inl ⟨c, hc, rfl⟩⟩)
    exact hhead.cons_of_derivable hwf ht ⟨_, hs.history.derives hwf hc⟩
      (ih hs.skip hask.tail hskip hclosed)
  | dangling unknown =>
    obtain ⟨t, ht, rfl⟩ := hask.known _ List.mem_cons_self
    cases (hwf.tableById?_of_mem ht).symm.trans unknown
  | @failedBefore _ _ _ _ t f known new failed =>
    obtain ⟨ht, rfl⟩ := hask.entity_eq hwf known
    have hnot := not_derivable_of_error hwf (.failedBefore known new failed) hs hask.head hhonest
    have hhead := Settles.of_settled hwf ht hclosed
      (.inl ⟨ht, .inr ⟨f, hs.entity_of_failure hwf ht failed⟩⟩)
    rw [List.append_nil]
    exact hhead.cons_of_not_derivable hwf ht hnot
  | @cyclic _ _ _ _ t known new untried under =>
    obtain ⟨ht, rfl⟩ := hask.entity_eq hwf known
    have hnot := not_derivable_of_error hwf (.cyclic known new untried under) hs hask.head hhonest
    rw [List.append_nil]
    exact (Settles.of_settled hwf ht hclosed (.inr under)).cons_of_not_derivable hwf ht hnot
  | @blocked _ _ _ _ _ t _ failure tries sources ih =>
    obtain ⟨ht, rfl⟩ := hask.entity_eq hwf tries.known
    have hnot := not_derivable_of_error hwf (.blocked tries sources) hs hask.head hhonest
    have hhead := Settles.of_sources hwf ht (ih hs (hask.sources hwf ht) hhonest (hunder hclosed))
      (State.settled_recordFailure hwf ht failure)
    exact hhead.cons_of_not_derivable hwf ht hnot
  | @refused _ _ _ _ _ _ t _ failure tries sources settled ih =>
    obtain ⟨ht, rfl⟩ := hask.entity_eq hwf tries.known
    have hnot := not_derivable_of_error hwf (.refused tries sources settled) hs hask.head hhonest
    obtain ⟨-, rfl⟩ := sources.stage_of_refused hwf tries hs settled
    have hhead := Settles.of_sources hwf ht (ih hs (hask.sources hwf ht) hhonest (hunder hclosed))
      (State.settled_recordFailure hwf ht failure)
    exact hhead.cons_of_not_derivable hwf ht hnot
  | @built _ _ _ _ _ _ t cs cs' d _ tries sources staged settled _ ihsources ihnext =>
    obtain ⟨ht, rfl⟩ := hask.entity_eq hwf tries.known
    have hsources := hask.sources hwf ht
    obtain ⟨rfl, hmade⟩ := sources.state_of_built hwf tries hs staged settled
    have hhead := Settles.of_sources hwf ht (ihsources hs hsources hhonest (hunder hclosed))
      (State.settled_recordSuccess (d := d) ht)
    have hderivable : Derivable setup t :=
      ⟨_, hmade.history.derives hwf (List.mem_append_right _ (List.mem_singleton_self _))⟩
    have hrest := ihnext hmade hask.tail (sources.honest hwf hs hsources hhonest).1 hhead.closed
    have hall : before ++ cs ++ [⟨t, d⟩] ++ cs' = before ++ (cs ++ ⟨t, d⟩ :: cs') := by simp
    rw [hall] at hrest
    exact hhead.cons_of_derivable hwf ht hderivable hrest

end Provenance

import Provenance.Proofs.Confluence
import Provenance.Proofs.Initialization.Atomicity
import Provenance.Proofs.Initialization.Sources

/-!
# Internal errors do not occur

Some codes are those of errors that would tell of a mistake in the program, not in a definition or a record
(`Error.internalCodes`). No table fails with one of them, unless a registered function raises such an error
itself, which the standard ones do not. In particular whatever is computed from columns was read from a cell or
an empty place, and no edge that is staged is there already. Main statement:
`Run.Reachable.internal_failures`.
-/

namespace Provenance

namespace Error

/-- The codes of errors that no definition and no record brings about. -/
def internalCodes : List String :=
  ["invariant_violation", "incomplete_lineage", "dangling_reference", "invalid_edge_owner",
    "invalid_edge_target", "duplicate_edge", "internal"]

theorem code_not_internal_of_computational {e : Error} (h : e.Computational) : e.code ∉ internalCodes := by
  cases e with
  | unknownTable | unknownFunction | unknownHierarchy | mismatch | overflow | divisionByZero | invalid =>
    simp [code, internalCodes]
  | unresolvedColumn | unresolvedSpeculative | cyclic | duplicateEdge | invalidOwner | invalidTarget
  | dangling | incompleteLineage | violation | failedBefore | inaccessible => cases h

theorem code_not_internal_of_unresolved {e : Error} (h : e.Unresolved) : e.code ∉ internalCodes := by
  cases e with
  | unresolvedColumn | unresolvedSpeculative => simp [code, internalCodes]
  | unknownTable | unknownFunction | unknownHierarchy | mismatch | overflow | divisionByZero | invalid
  | cyclic | duplicateEdge | invalidOwner | invalidTarget | dangling | incompleteLineage | violation
  | failedBefore | inaccessible => cases h

end Error

/-- If a code is internal then some function raises an error with that code. -/
def Functions.Explain (fs : Functions) (code : String) : Prop :=
  code ∈ Error.internalCodes → ∃ e, e.code = code ∧ fs.Raises e

namespace Functions

variable {fs : Functions} {e : Error}

theorem explain_of_staged (h : e.Definitional ∨ fs.Raises e) : fs.Explain e.code := by
  intro hinternal
  rcases h with (he | he) | he
  · exact absurd hinternal (Error.code_not_internal_of_computational he)
  · exact absurd hinternal (Error.code_not_internal_of_unresolved he)
  · exact ⟨e, rfl, he⟩

theorem not_explain_standard {code : String} (hinternal : code ∈ Error.internalCodes) :
    ¬standard.Explain code := by
  intro hexplain
  obtain ⟨e, rfl, hraises⟩ := hexplain hinternal
  exact Error.code_not_internal_of_computational (computational_of_raises_standard hraises) hinternal

end Functions

namespace Initializes

variable {setup : Setup} {path es : List Entity} {s : State} {before cs : List Commit} {out : Outcome}

/-- Tables that are asked for fail with an internal code only if a function does. -/
theorem explained (hwf : setup.catalog.WellFormed) (hnamed : setup.catalog.Named)
    (h : Initializes setup path es s cs out) (hs : s.MadeOf setup before)
    (hes : ∀ e ∈ es, ∃ t ∈ setup.catalog.tables, t.entity = e)
    (hfailures : ∀ f ∈ s.failures, setup.functions.Explain f.code) :
    out.1.FailsOnly (fun e => setup.functions.Explain e.code) ∧
      ∀ f ∈ out.2.failures, setup.functions.Explain f.code := by
  have hsources : ∀ {t : Table}, t ∈ setup.catalog.tables →
      ∀ e ∈ t.sources, ∃ t' ∈ setup.catalog.tables, t'.entity = e := by
    intro t ht e he
    obtain ⟨t', hreads, hentity⟩ := hwf.reads_of_mem_sources ht he
    exact ⟨t', hreads.1, hentity⟩
  have hrecord : ∀ {s : State} {t : Table} {failure : Error}, setup.functions.Explain failure.code →
      (∀ f ∈ s.failures, setup.functions.Explain f.code) →
      ∀ f ∈ (s.recordFailure t failure).failures, setup.functions.Explain f.code := by
    intro s t failure hfailure hfailures f hf
    rcases List.mem_append.1 hf with hf | hf
    · exact hfailures f hf
    · rw [List.mem_singleton.1 hf]
      exact hfailure
  induction h generalizing before with
  | done => exact ⟨.ok, hfailures⟩
  | present known there next ih =>
    exact ih hs.skip (fun e he => hes e (List.mem_cons_of_mem _ he)) hfailures
  | dangling unknown =>
    obtain ⟨t, ht, rfl⟩ := hes _ List.mem_cons_self
    cases unknown.symm.trans (hwf.tableById?_of_mem ht)
  | failedBefore | cyclic =>
    refine ⟨.error fun hinternal => ?_, hfailures⟩
    simp [Error.code, Error.internalCodes] at hinternal
  | blocked tries sources ih =>
    have ht := (Catalog.mem_of_tableById? tries.known).1
    obtain ⟨hfails, hrecorded⟩ := ih hs (hsources ht) hfailures
    have hfailure := hfails _ rfl
    exact ⟨.error hfailure, hrecord hfailure hrecorded⟩
  | @refused path rest e s s' s'' t cs failure tries sources settled ih =>
    have ht := (Catalog.mem_of_tableById? tries.known).1
    obtain ⟨-, hrecorded⟩ := ih hs (hsources ht) hfailures
    obtain ⟨-, rfl⟩ := stage_of_refused hwf tries sources hs settled
    have hfailure := Functions.explain_of_staged (sources.cases_of_refused hwf hnamed tries hs settled)
    exact ⟨.error hfailure, hrecord hfailure hrecorded⟩
  | @built path rest e s s' s'' t cs cs' d out tries sources staged settled next ihsources ihnext =>
    have ht := (Catalog.mem_of_tableById? tries.known).1
    obtain ⟨-, hrecorded⟩ := ihsources hs (hsources ht) hfailures
    obtain ⟨rfl, hmade⟩ := state_of_built hwf tries sources hs staged settled
    exact ihnext hmade (fun e he => hes e (List.mem_cons_of_mem _ he)) hrecorded

end Initializes

namespace History

variable {setup : Setup} {cs : List Commit}

/-- No edge is committed twice. -/
theorem nodup_edges (hwf : setup.catalog.WellFormed) (h : History setup cs) :
    (cs.flatMap fun c => c.draft.edges).Nodup := by
  induction h with
  | nil => exact .nil
  | @snoc cs c h follows ih =>
    have hall := h.snoc follows
    rw [List.flatMap_append, List.flatMap_singleton]
    apply List.nodup_append.2 ⟨ih, (follows.grounded hwf).nodup, _⟩
    intro edge hedge edge' hedge' heq
    obtain ⟨c', hc', hedge⟩ := List.mem_flatMap.1 hedge
    have hsame := hall.eq_of_mem_edges hwf (List.mem_append_left _ hc')
      (List.mem_append_right _ (List.mem_singleton_self c)) hedge (heq ▸ hedge')
    exact follows.new c' hc' (congrArg Commit.table hsame)

end History

namespace Run

variable {r : Run} {cs : List Commit}

/-- A call is a run through a table of the catalog, or through none. -/
private theorem exists_table_of_call {call : Call} :
    ∀ e ∈ ((call.table? r.setup.catalog).map Table.entity).toList,
      ∃ t ∈ r.setup.catalog.tables, t.entity = e := by
  intro e he
  obtain ⟨t, ht, rfl⟩ := Option.map_eq_some_iff.1 (Option.mem_toList.1 he)
  exact ⟨t, Call.mem_of_table? ht, rfl⟩

/-- The failures that a reachable run remembers have internal codes only if a function does. -/
theorem Reachable.explained (h : r.Reachable) : ∀ f ∈ r.state.failures, r.setup.functions.Explain f.code := by
  induction h with
  | start | reset => exact fun f hf => absurd hf List.not_mem_nil
  | wait _ _ ih => exact ih
  | @call r h call ih =>
    obtain ⟨hwf, cs, hmade⟩ := h.exists_madeOf
    obtain ⟨schema, first, compiled⟩ := h.exists_compile
    obtain ⟨cs', out, hout, hsame, hsetup⟩ := exists_initializes hwf hmade call
    rw [hsetup, hsame.failures]
    exact (hout.explained hwf (Schema.named_of_compile compiled) hmade exists_table_of_call ih).2

theorem initTable_of_materialize {name : String} {e : Error} (h : (r.materialize name).1 = .error e)
    (hthere : (r.initTable name).1 = .ok () → ∃ view, (r.materialize name).1 = .ok view) :
    (r.initTable name).1 = .error e := by
  cases hresult : (r.initTable name).1 with
  | ok =>
    obtain ⟨view, hview⟩ := hthere hresult
    cases hview.symm.trans h
  | error e' =>
    unfold materialize at h
    generalize r.initTable name = out at h hresult
    obtain ⟨result, r'⟩ := out
    cases hresult
    cases h
    rfl

/-- No table of a reachable run fails with an internal error, and none is recorded, unless a registered function
raises it; the standard functions raise none. An expression that reads columns has sources or met an empty
place, and all edges that are staged for a table enter the log. -/
theorem Reachable.internal_failures (h : r.Reachable) :
    (∀ f ∈ r.state.failures, r.setup.functions.Explain f.code) ∧
    (∀ name t e, r.setup.catalog.table name = .ok t →
      (r.initTable name).1 = .error e ∨ (r.materialize name).1 = .error e →
      r.setup.functions.Explain e.code) ∧
    (∀ target, ∀ f ∈ (r.execute target).1.failures, r.setup.functions.Explain f.code) ∧
    (∀ code ∈ Error.internalCodes, ¬Functions.standard.Explain code) ∧
    (∀ (a : Approach) sources frames, a.createRows r.setup.catalog r.setup.functions sources = .ok frames →
      ∀ frame ∈ frames, ∀ (e : Expr) result, e.parameterCount ≠ 0 →
        e.evaluate r.setup.catalog r.setup.functions frame.scope = .ok result →
        result.sources ≠ [] ∨ result.nullExtended = true) ∧
    ∀ call, (r.after call).state.log.edges.Nodup ∧ ∃ cs, r.Appends (r.after call) cs := by
  obtain ⟨hwf, cs, hmade⟩ := h.exists_madeOf
  obtain ⟨schema, first, compiled⟩ := h.exists_compile
  refine ⟨h.explained, fun name t e htable herror => ?_, fun target f hf => ?_,
    fun code => Functions.not_explain_standard, fun a sources frames hframes frame hframe e result => ?_,
    fun call => ?_⟩
  · have hfails : (r.initTable name).1 = .error e := by
      rcases herror with herror | herror
      · exact herror
      · apply initTable_of_materialize herror
        intro hok
        obtain ⟨view, hview, -⟩ := h.exists_materialized htable hok
        exact ⟨view, hview⟩
    obtain ⟨cs', out, hout, hresult, -⟩ := initializes_of_table hwf hmade htable
    have hknown : ∀ e ∈ [t.entity], ∃ t' ∈ r.setup.catalog.tables, t'.entity = e := fun e he =>
      ⟨t, (Catalog.mem_of_table htable).1, (List.mem_singleton.1 he).symm⟩
    exact (hout.explained hwf (Schema.named_of_compile compiled) hmade hknown h.explained).1 e
      (hresult.symm.trans hfails)
  · have hafter := (Reachable.call h (.execute target)).explained f hf
    rwa [setup_after] at hafter
  · exact Expr.read_of_evaluate (Derive.partition_ne_nil hframes hframe)
  · obtain ⟨cs', out, hout, hsame, hsetup⟩ := exists_initializes hwf hmade call
    have hafter := (hout.madeOf_and_committed hwf hmade).1.same hsame
    refine ⟨?_, cs', appends_of_madeOf hwf hmade hafter⟩
    rw [hafter.log]
    exact hafter.history.nodup_edges hwf

end Run

namespace Sample

/-- A table that is derived from itself is recorded as failed, but not with an internal error. -/
theorem internal_failures_loop :
    let r := run.after (.execute "loop")
    r.state.failures ≠ [] ∧ (∀ f ∈ r.state.failures, f.code ∉ Error.internalCodes) ∧
      (r.after (.materialize "total")).state.log.edges.Nodup := by
  intro r
  have hreachable : r.Reachable := .call reachable_run _
  obtain ⟨hfailures, -, -, -, -, hcalls⟩ := Run.Reachable.internal_failures hreachable
  refine ⟨by decide +kernel, fun f hf hinternal => ?_, (hcalls (.materialize "total")).1⟩
  obtain ⟨e, -, entry, hentry, -⟩ := hfailures f hf hinternal
  cases hentry

end Sample

end Provenance

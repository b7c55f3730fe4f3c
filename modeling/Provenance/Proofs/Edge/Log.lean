import Mathlib.Algebra.GroupWithZero.Nat
import Provenance.Edge.Log
import Provenance.Proofs.Traverse

/-!
# What a log of edges takes

A log takes an edge that links what its kind links and that is not there yet (`EdgeLog.add_eq_ok_iff`). So
whatever edges are offered to a log, it holds each at most once and none that links anything else
(`EdgeLog.clean_offerAll`), and its edges make the log again (`EdgeLog.Clean.ofEdges`).
-/

namespace Provenance

namespace Edge

variable {edge : Edge}

theorem check_eq_ok_iff : edge.check = .ok () ↔
    edge.kind.acceptsOwner edge.owner.kind ∧ edge.kind.acceptsTarget edge.target.kind := by
  rw [check]
  cases edge.kind.acceptsOwner edge.owner.kind <;> cases edge.kind.acceptsTarget edge.target.kind <;> simp

theorem check_of_accepts (ho : edge.kind.acceptsOwner edge.owner.kind)
    (ht : edge.kind.acceptsTarget edge.target.kind) : edge.check = .ok () :=
  check_eq_ok_iff.2 ⟨ho, ht⟩

theorem check_eq_invalidOwner_iff :
    edge.check = .error (.invalidOwner edge.kind edge.owner) ↔ ¬edge.kind.acceptsOwner edge.owner.kind := by
  rw [check]
  cases edge.kind.acceptsOwner edge.owner.kind <;> cases edge.kind.acceptsTarget edge.target.kind <;> simp

theorem check_eq_invalidTarget_iff :
    edge.check = .error (.invalidTarget edge.kind edge.owner edge.target) ↔
      edge.kind.acceptsOwner edge.owner.kind ∧ ¬edge.kind.acceptsTarget edge.target.kind := by
  rw [check]
  cases edge.kind.acceptsOwner edge.owner.kind <;> cases edge.kind.acceptsTarget edge.target.kind <;> simp

/-- An edge is refused over its owner or over its target. -/
theorem check_eq_error {e : Error} (h : edge.check = .error e) :
    e = .invalidOwner edge.kind edge.owner ∨ e = .invalidTarget edge.kind edge.owner edge.target := by
  rw [check] at h
  cases ho : edge.kind.acceptsOwner edge.owner.kind <;>
    cases ht : edge.kind.acceptsTarget edge.target.kind <;> simp_all

end Edge

namespace EdgeLog

variable {log log' : EdgeLog} {edge : Edge} {edges : List Edge} {e : Error}

theorem add_of_checked (h : edge.check = .ok ()) :
    log.add edge = if edge ∈ log.edges then .error (.duplicateEdge edge) else .ok ⟨log.edges ++ [edge]⟩ := by
  unfold add
  rw [h]
  rfl

theorem add_of_check_eq_error (h : edge.check = .error e) : log.add edge = .error e := by
  unfold add
  rw [h]
  rfl

theorem add_eq_ok_iff : log.add edge = .ok log' ↔
    edge.check = .ok () ∧ edge ∉ log.edges ∧ log' = ⟨log.edges ++ [edge]⟩ := by
  cases hcheck : edge.check with
  | error e => simp [add_of_check_eq_error hcheck]
  | ok =>
    rw [add_of_checked hcheck]
    by_cases hmem : edge ∈ log.edges <;> simp [hmem, eq_comm]

/-- An edge is refused over what it links, or because it is there. -/
theorem add_eq_error_iff : log.add edge = .error e ↔
    edge.check = .error e ∨ edge.check = .ok () ∧ edge ∈ log.edges ∧ e = .duplicateEdge edge := by
  cases hcheck : edge.check with
  | error e' => simp [add_of_check_eq_error hcheck]
  | ok =>
    rw [add_of_checked hcheck]
    by_cases hmem : edge ∈ log.edges <;> simp [hmem, eq_comm]

theorem add_eq_duplicateEdge_iff :
    log.add edge = .error (.duplicateEdge edge) ↔ edge.check = .ok () ∧ edge ∈ log.edges := by
  have hcheck : edge.check ≠ .error (.duplicateEdge edge) := fun h => by
    rcases Edge.check_eq_error h with h | h <;> cases h
  simp [add_eq_error_iff, hcheck]

/-- The log after an edge was offered to it: with the edge, or as it is if the edge is refused. -/
def offer (log : EdgeLog) (edge : Edge) : EdgeLog :=
  match log.add edge with
  | .ok log => log
  | .error _ => log

/-- The log after edges were offered to it one after another. -/
def offerAll (log : EdgeLog) (edges : List Edge) : EdgeLog := edges.foldl offer log

theorem offer_of_ok (h : log.add edge = .ok log') : log.offer edge = log' := by
  rw [offer, h]

theorem offer_of_error (h : log.add edge = .error e) : log.offer edge = log := by
  rw [offer, h]

/-- A log holds each edge once, and edges that link what their kinds link. -/
structure Clean (log : EdgeLog) : Prop where
  nodup : log.edges.Nodup
  checked : ∀ edge ∈ log.edges, edge.check = .ok ()

theorem Clean.offer (h : log.Clean) (edge : Edge) : (log.offer edge).Clean := by
  cases hadd : log.add edge with
  | error e => rwa [offer_of_error hadd]
  | ok log' =>
    obtain ⟨hcheck, hnew, rfl⟩ := add_eq_ok_iff.1 hadd
    rw [offer_of_ok hadd]
    constructor
    · refine List.nodup_append.2 ⟨h.nodup, List.pairwise_singleton _ _, ?_⟩
      rintro old hold _ hedge rfl
      exact hnew (List.mem_singleton.1 hedge ▸ hold)
    · exact List.forall_mem_append.2 ⟨h.checked, List.forall_mem_singleton.2 hcheck⟩

theorem clean_offerAll (edges : List Edge) : (empty.offerAll edges).Clean := by
  have hrun : ∀ log : EdgeLog, log.Clean → (log.offerAll edges).Clean := by
    induction edges with
    | nil => exact fun _ h => h
    | cons edge edges ih => exact fun log h => ih (log.offer edge) (h.offer edge)
  exact hrun empty ⟨.nil, fun _ hedge => absurd hedge List.not_mem_nil⟩

private theorem foldlM_add (hchecked : ∀ edge ∈ edges, edge.check = .ok ())
    (hnodup : (log.edges ++ edges).Nodup) : edges.foldlM add log = .ok ⟨log.edges ++ edges⟩ := by
  induction edges generalizing log with
  | nil =>
    rw [List.append_nil]
    rfl
  | cons edge edges ih =>
    have hnew : edge ∉ log.edges := by
      have hdisjoint := (List.nodup_append.1 hnodup).2.2
      exact fun hmem => hdisjoint edge hmem edge List.mem_cons_self rfl
    rw [← List.singleton_append, ← List.append_assoc] at hnodup
    rw [List.foldlM_cons, add_of_checked (hchecked edge List.mem_cons_self), if_neg hnew]
    refine (@ih ⟨log.edges ++ [edge]⟩
      (fun e he => hchecked e (List.mem_cons_of_mem _ he)) hnodup).trans ?_
    rw [List.append_assoc, List.singleton_append]

/-- Edges that were checked, and of which none is there twice, make a log. -/
theorem ofEdges_of_nodup (hchecked : ∀ edge ∈ edges, edge.check = .ok ()) (hnodup : edges.Nodup) :
    ofEdges edges = .ok ⟨edges⟩ :=
  @foldlM_add empty edges hchecked hnodup

theorem Clean.ofEdges (h : log.Clean) : ofEdges log.edges = .ok log := ofEdges_of_nodup h.checked h.nodup

/-! ## Counts -/

theorem count_cons (kind : Edge.Kind) :
    (EdgeLog.mk (edge :: edges)).count kind = (if edge.kind = kind then 1 else 0) + (EdgeLog.mk edges).count kind := by
  unfold count
  rw [List.filter_cons]
  split <;> simp_all [Nat.add_comm]

/-- Every edge is counted under one kind. -/
theorem sum_count (log : EdgeLog) : (Edge.Kind.all.map log.count).sum = log.edges.length := by
  obtain ⟨edges⟩ := log
  induction edges with
  | nil => rfl
  | cons edge edges ih =>
    rw [List.length_cons, ← ih]
    simp only [Edge.Kind.all, count_cons, List.map_cons, List.map_nil, List.sum_cons, List.sum_nil]
    cases edge.kind <;> simp <;> omega

/-- The counts of the kinds that there are edges of add up to the number of edges. -/
theorem sum_countByKind (log : EdgeLog) : (log.countByKind.map Prod.snd).sum = log.edges.length := by
  have hfilter : ∀ entries : List (Edge.Kind × Nat),
      ((entries.filter fun entry => entry.2 ≠ 0).map Prod.snd).sum = (entries.map Prod.snd).sum := by
    intro entries
    induction entries with
    | nil => rfl
    | cons entry entries ih =>
      rw [List.filter_cons]
      split <;> simp_all
  rw [countByKind, hfilter, List.map_map]
  exact log.sum_count

end EdgeLog

end Provenance

import Mathlib.Data.List.Forall2
import Provenance.Edge.Indexed
import Provenance.Proofs.Edge.Log

/-!
# A log with its index

Nothing but the calls keeps the three parts of a log with its index in step, and a call may end between the changes
that it makes. They stay in step with the log that has the edges that it took (`IndexedLog.Indexes.add`), so a call
that is refused cannot be told from one that was never made, and the edges alone bring the index back
(`IndexedLog.Alike`). Main statement: `IndexedLog.laws_addAll`.
-/

namespace Provenance

namespace IndexedLog

/-- Logs of which none can be told from the other, whatever edges are added to both. -/
def Alike (x y : IndexedLog) : Prop :=
  ∀ edges, (x.addAll edges).log = (y.addAll edges).log ∧
    (∀ id, (x.addAll edges).resolve? id = (y.addAll edges).resolve? id) ∧
    ∀ edge, ((x.addAll edges).add edge).1 = ((y.addAll edges).add edge).1

/-- What adding an edge gives: the edge is refused over its owner, over its target or because it is there, and
else it is the last edge of the log. A call that is refused changes nothing that could be noticed. -/
structure Adds (x : IndexedLog) (edge : Edge) : Prop where
  owner : (x.add edge).1 = .error (.invalidOwner edge.kind edge.owner) ↔
    ¬edge.kind.acceptsOwner edge.owner.kind
  target : (x.add edge).1 = .error (.invalidTarget edge.kind edge.owner edge.target) ↔
    edge.kind.acceptsOwner edge.owner.kind ∧ ¬edge.kind.acceptsTarget edge.target.kind
  duplicate : (x.add edge).1 = .error (.duplicateEdge edge) ↔
    edge.kind.acceptsOwner edge.owner.kind ∧ edge.kind.acceptsTarget edge.target.kind ∧ edge ∈ x.log.edges
  refused : ∀ e, (x.add edge).1 = .error e →
    (e = .invalidOwner edge.kind edge.owner ∨ e = .invalidTarget edge.kind edge.owner edge.target ∨
      e = .duplicateEdge edge) ∧ (x.add edge).2.Alike x
  added : (x.add edge).1 = .ok () → (x.add edge).2.log.edges = x.log.edges ++ [edge]

/-- What holds of a log with its index. -/
structure Laws (x : IndexedLog) : Prop where
  nodup : x.log.edges.Nodup
  accepted : ∀ edge ∈ x.log.edges,
    edge.kind.acceptsOwner edge.owner.kind ∧ edge.kind.acceptsTarget edge.target.kind
  resolve : ∀ id, x.resolve? id = some (x.log.edges.filter fun edge => edge.owner.id = id)
  count : (x.log.countByKind.map Prod.snd).sum = x.edges.size
  adds : ∀ edge, x.Adds edge
  rebuilt : EdgeLog.ofEdges x.log.edges = .ok x.log ∧ ∃ y, ofEdges x.log.edges = .ok y ∧ y.Alike x

/-! ## The index of a log -/

/-- The three parts are in step with a log: they have its edges, and for every owner the places of its edges, in
their order. -/
structure Indexes (x : IndexedLog) (log : EdgeLog) : Prop where
  log_eq : x.log = log
  places : ∀ id, List.Forall₂ (fun place edge => log.edges[place]? = some edge) (x.placesOf id).toList
    (log.ownedBy id)
  present : ∀ edge, edge ∈ x.present ↔ edge ∈ log.edges

variable {x y : IndexedLog} {log : EdgeLog} {edge : Edge} {edges : List Edge} {e : Error}

theorem add_of_check_eq_error (h : edge.check = .error e) : x.add edge = (.error e, x) := by
  rw [add, h]

theorem add_of_mem (hcheck : edge.check = .ok ()) (h : edge ∈ x.present) :
    x.add edge = (.error (.duplicateEdge edge), { x with present := x.present.insert edge }) := by
  rw [add, hcheck]
  simp [h]

theorem add_of_not_mem (hcheck : edge.check = .ok ()) (h : edge ∉ x.present) :
    x.add edge = (.ok (), ⟨x.edges.push edge,
      x.places.insert edge.owner.id ((x.placesOf edge.owner.id).push x.edges.size), x.present.insert edge⟩) := by
  rw [add, hcheck]
  simp [h]

theorem indexes_empty : empty.Indexes .empty where
  log_eq := rfl
  places id := by
    simp [placesOf, empty, EdgeLog.ownedBy, EdgeLog.empty]
  present edge := by simp [empty, EdgeLog.empty]

namespace Indexes

variable (h : x.Indexes log)
include h

theorem size_eq : x.edges.size = log.edges.length := by
  rw [← h.log_eq]
  rfl

/-- A lookup by places finds the edges of the owner. -/
theorem resolve?_eq (id : Provenance.Id) : x.resolve? id = some (log.ownedBy id) := by
  refine List.mapM_eq_some_iff.2 ((h.places id).imp fun place edge hedge => ?_)
  rw [← h.log_eq] at hedge
  exact Array.getElem?_toList.symm.trans hedge

/-- With one more edge the log has one more place of its owner. -/
theorem push (edge : Edge) :
    Indexes ⟨x.edges.push edge,
      x.places.insert edge.owner.id ((x.placesOf edge.owner.id).push x.edges.size), x.present.insert edge⟩
      ⟨log.edges ++ [edge]⟩ where
  log_eq := by
    rw [← h.log_eq]
    simp [IndexedLog.log]
  places id := by
    have hbefore : List.Forall₂ (fun place old => (log.edges ++ [edge])[place]? = some old)
        (x.placesOf id).toList (log.ownedBy id) := by
      refine (h.places id).imp fun place old hold => ?_
      obtain ⟨hlt, -⟩ := List.getElem?_eq_some_iff.1 hold
      rwa [List.getElem?_append_left hlt]
    by_cases howner : edge.owner.id = id
    · subst howner
      have hlast : (log.edges ++ [edge])[x.edges.size]? = some edge := by
        rw [h.size_eq]
        exact List.getElem?_concat_length
      simp only [placesOf, Std.HashMap.getD_insert_self, Array.toList_push, EdgeLog.ownedBy, List.filter_append,
        List.filter_singleton, decide_true, cond_true]
      exact List.rel_append hbefore (.cons hlast .nil)
    · simp only [placesOf, Std.HashMap.getD_insert, beq_iff_eq, howner, if_false, EdgeLog.ownedBy,
        List.filter_append, List.filter_singleton, decide_false, cond_false, List.append_nil]
      exact hbefore
  present other := by
    rw [Std.HashSet.mem_insert, h.present, beq_iff_eq, List.mem_append, List.mem_singleton, or_comm, eq_comm]

/-- Adding an edge gives what adding it to the log gives, and leaves an index of the log that has it. -/
theorem add (edge : Edge) :
    (x.add edge).1 = (log.add edge).map (fun _ => ()) ∧ (x.add edge).2.Indexes (log.offer edge) := by
  cases hcheck : edge.check with
  | error e =>
    have hadd : log.add edge = .error e := EdgeLog.add_of_check_eq_error hcheck
    rw [add_of_check_eq_error hcheck, EdgeLog.offer_of_error hadd, hadd]
    exact ⟨rfl, h⟩
  | ok =>
    by_cases hmem : edge ∈ log.edges
    · have hadd : log.add edge = .error (.duplicateEdge edge) := (EdgeLog.add_of_checked hcheck).trans (if_pos hmem)
      rw [add_of_mem hcheck ((h.present edge).2 hmem), EdgeLog.offer_of_error hadd, hadd]
      refine ⟨rfl, h.log_eq, h.places, fun other => ?_⟩
      rw [Std.HashSet.mem_insert, h.present, beq_iff_eq]
      exact or_iff_right_of_imp fun heq => heq ▸ hmem
    · have hadd : log.add edge = .ok ⟨log.edges ++ [edge]⟩ := (EdgeLog.add_of_checked hcheck).trans (if_neg hmem)
      rw [add_of_not_mem hcheck fun hpresent => hmem ((h.present edge).1 hpresent), EdgeLog.offer_of_ok hadd, hadd]
      exact ⟨rfl, h.push edge⟩

theorem addAll (edges : List Edge) : (x.addAll edges).Indexes (log.offerAll edges) := by
  induction edges generalizing x log with
  | nil => exact h
  | cons edge edges ih => exact ih (h.add edge).2

/-- All indexes of one log are alike. -/
theorem alike (h' : y.Indexes log) : x.Alike y := by
  intro edges
  have hx := h.addAll edges
  have hy := h'.addAll edges
  refine ⟨hx.log_eq.trans hy.log_eq.symm, fun id => ?_, fun edge => ?_⟩
  · rw [hx.resolve?_eq, hy.resolve?_eq]
  · rw [(hx.add edge).1, (hy.add edge).1]

theorem adds (edge : Edge) : x.Adds edge := by
  obtain ⟨hresult, hafter⟩ := h.add edge
  obtain rfl := h.log_eq
  have herror : ∀ e, (x.add edge).1 = .error e ↔ x.log.add edge = .error e := by
    intro e
    rw [hresult]
    cases x.log.add edge <;> simp [Except.map]
  constructor
  case owner => simp [herror, EdgeLog.add_eq_error_iff, Edge.check_eq_invalidOwner_iff]
  case target => simp [herror, EdgeLog.add_eq_error_iff, Edge.check_eq_invalidTarget_iff]
  case duplicate => rw [herror, EdgeLog.add_eq_duplicateEdge_iff, Edge.check_eq_ok_iff, and_assoc]
  case refused =>
    intro e he
    have hrefused := (herror e).1 he
    rw [EdgeLog.offer_of_error hrefused] at hafter
    refine ⟨?_, hafter.alike h⟩
    rcases EdgeLog.add_eq_error_iff.1 hrefused with hcheck | ⟨-, -, rfl⟩
    · exact (Edge.check_eq_error hcheck).imp_right .inl
    · exact .inr (.inr rfl)
  case added =>
    intro hok
    rw [hresult] at hok
    obtain ⟨log', hlog, -⟩ := Except.map_eq_ok_iff.1 hok
    obtain ⟨-, -, rfl⟩ := EdgeLog.add_eq_ok_iff.1 hlog
    rw [hafter.log_eq, EdgeLog.offer_of_ok hlog]

/-- Edges that make a log make one with an index. -/
theorem exists_foldlM {log' : EdgeLog} (hlog : edges.foldlM EdgeLog.add log = .ok log') :
    ∃ y, edges.foldlM add? x = .ok y ∧ y.Indexes log' := by
  induction edges generalizing x log with
  | nil =>
    cases hlog
    exact ⟨x, rfl, h⟩
  | cons edge edges ih =>
    rw [List.foldlM_cons] at hlog
    obtain ⟨next, hnext, hrest⟩ := Except.bind_eq_ok_iff.1 hlog
    obtain ⟨hresult, hafter⟩ := h.add edge
    rw [EdgeLog.offer_of_ok hnext] at hafter
    obtain ⟨y, hy, hindexes⟩ := ih hafter hrest
    have hadd : x.add? edge = .ok (x.add edge).2 := by
      rw [add?, hresult, hnext]
      rfl
    refine ⟨y, ?_, hindexes⟩
    rw [List.foldlM_cons, Except.bind_of_ok hadd]
    exact hy

theorem obeys (hclean : log.Clean) : x.Laws := by
  obtain ⟨y, hy, hindexes⟩ := indexes_empty.exists_foldlM hclean.ofEdges
  have hresolve := h.resolve?_eq
  have hadds := h.adds
  have halike := hindexes.alike h
  have hsize := h.size_eq
  obtain rfl := h.log_eq
  exact ⟨hclean.nodup, fun edge hedge => Edge.check_eq_ok_iff.1 (hclean.checked edge hedge), hresolve,
    x.log.sum_countByKind.trans hsize.symm, hadds, hclean.ofEdges, y, hy, halike⟩

end Indexes

/-- Whatever edges are added to an empty log, its three parts stay in step: it has the edges that it took, each
once, and gives those of every owner in their order, and calls that it refused leave no trace. -/
theorem laws_addAll (edges : List Edge) :
    (empty.addAll edges).log = EdgeLog.empty.offerAll edges ∧ (empty.addAll edges).Laws :=
  have h := indexes_empty.addAll edges
  ⟨h.log_eq, h.obeys (EdgeLog.clean_offerAll edges)⟩

end IndexedLog

end Provenance

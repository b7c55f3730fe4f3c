import Provenance.Proofs.Lineage.Exactness
import Provenance.Proofs.Lineage.Reports
import Provenance.Proofs.Scalar.Sum

/-!
# Totals of totals

A cell is the total of others if it holds their sum and was made from exactly these (`EdgeLog.TotalOf`). The
total of totals of some cells holds the total of all the cells, and these are the leaves of its lineage
(`EdgeLog.TotalOf.payload_eq`, `EdgeLog.TotalOf.leaf_iff`).
-/

namespace Provenance

namespace EdgeLog

/-- A cell holds the sum of others, of which there are some, and was made from these. -/
structure TotalOf (log : EdgeLog) (cells : List Cell) (total : Cell) : Prop where
  nonempty : cells ≠ []
  sum : AggregateFn.sum.apply (cells.map Cell.payload) = .ok total.payload
  edges : log.ownedBy total.value.id =
    (distinct (cells.map Cell.value)).map fun x => ⟨total.value, .valueSource, x⟩

variable {log : EdgeLog} {parts : List (List Cell)} {totals cells : List Cell} {total direct : Cell}
  {e x : Entity}

theorem not_leads_of_ownedBy (h : log.ownedBy e.id = []) : ¬log.Leads e x := by
  rintro ⟨edge, hedge, rfl, -⟩
  have hmem := mem_ownedBy.2 ⟨hedge, rfl⟩
  rw [h] at hmem
  cases hmem

namespace TotalOf

theorem mem_targets_iff (h : log.TotalOf cells total) :
    x ∈ (log.ownedBy total.value.id).map Edge.target ↔ x ∈ cells.map Cell.value := by
  rw [h.edges, List.map_map]
  change x ∈ (distinct (cells.map Cell.value)).map id ↔ _
  rw [List.map_id, mem_distinct]

theorem leads_iff (h : log.TotalOf cells total) : log.Leads total.value x ↔ x ∈ cells.map Cell.value := by
  rw [← h.mem_targets_iff, List.mem_map]
  constructor
  · rintro ⟨edge, hedge, howner, rfl⟩
    exact ⟨edge, mem_ownedBy.2 ⟨hedge, congrArg Entity.id howner⟩, rfl⟩
  · rintro ⟨edge, hedge, rfl⟩
    have hmem := (mem_ownedBy.1 hedge).1
    rw [h.edges] at hedge
    obtain ⟨_, -, rfl⟩ := List.mem_map.1 hedge
    exact ⟨_, hmem, rfl, rfl⟩

theorem ownedBy_ne_nil (h : log.TotalOf cells total) : log.ownedBy total.value.id ≠ [] := by
  obtain ⟨cell, hcell⟩ := List.exists_mem_of_ne_nil _ h.nonempty
  intro hnil
  have hmem := h.mem_targets_iff.2 (List.mem_map_of_mem hcell)
  rw [hnil] at hmem
  cases hmem

theorem sumOf (h : log.TotalOf cells total) (hcells : ∀ cell ∈ cells, cell.payload.conforms .integer) :
    Scalar.SumOf (cells.map Cell.payload) total.payload :=
  AggregateFn.sumOf_of_apply (List.forall_mem_map.2 hcells) h.sum

section

variable (hparts : List.Forall₂ log.TotalOf parts totals) (h : log.TotalOf totals total)
include hparts h

/-- The total of some totals is the total of all. -/
theorem payload_eq (hdirect : log.TotalOf cells direct) (hperm : parts.flatten.Perm cells)
    (hcells : ∀ cell ∈ cells, cell.payload.conforms .integer) : total.payload = direct.payload := by
  have hsums : List.Forall₂ (fun part total => Scalar.SumOf (part.map Cell.payload) (Cell.payload total))
      parts totals := by
    refine hparts.mem_left.imp fun part _ ⟨hpart, htotal⟩ => htotal.sumOf fun cell hcell => ?_
    exact hcells cell (hperm.mem_iff.1 (List.mem_flatten_of_mem hpart hcell))
  have htotals : ∀ cell ∈ totals, cell.payload.conforms .integer := by
    intro cell hcell
    obtain ⟨_, -, hsum⟩ := hsums.exists_of_mem_right hcell
    exact hsum.integer
  have hsum : Scalar.SumOf (parts.map (List.map Cell.payload)).flatten total.payload :=
    .flatten (List.forall₂_map_left_iff.2 (List.forall₂_map_right_iff.2 hsums)) (h.sumOf htotals)
  rw [← List.map_flatten] at hsum
  exact hsum.eq_of_perm (hdirect.sumOf hcells) (hperm.map _)

/-- What the total of some totals was made from in the end is what these were made from. -/
theorem leaf_iff (hleaves : ∀ cell ∈ parts.flatten, log.ownedBy cell.value.id = []) :
    (Relation.TransGen log.Leads total.value e ∧ log.ownedBy e.id = []) ↔
      e ∈ parts.flatten.map Cell.value := by
  constructor
  · rintro ⟨hreached, hleaf⟩
    obtain ⟨x, hx, hrest⟩ := Relation.TransGen.head'_iff.1 hreached
    obtain ⟨part, hpart, rfl⟩ := List.mem_map.1 (h.leads_iff.1 hx)
    obtain ⟨cells, hcells, htotal⟩ := hparts.exists_of_mem_right hpart
    -- A total is no leaf, so the path goes on from it, and it ends in a cell.
    rcases Relation.ReflTransGen.cases_head hrest with rfl | ⟨y, hy, hend⟩
    · exact absurd hleaf htotal.ownedBy_ne_nil
    obtain ⟨cell, hcell, rfl⟩ := List.mem_map.1 (htotal.leads_iff.1 hy)
    have hmem := List.mem_flatten_of_mem hcells hcell
    rcases Relation.ReflTransGen.cases_head hend with rfl | ⟨z, hz, -⟩
    · exact List.mem_map_of_mem hmem
    · exact absurd hz (not_leads_of_ownedBy (hleaves cell hmem))
  · intro he
    obtain ⟨cell, hmem, rfl⟩ := List.mem_map.1 he
    obtain ⟨cells, hcells, hcell⟩ := List.mem_flatten.1 hmem
    obtain ⟨part, hpart, htotal⟩ := hparts.exists_of_mem_left hcells
    have hfirst := h.leads_iff.2 (List.mem_map_of_mem hpart)
    exact ⟨.head hfirst (.single (htotal.leads_iff.2 (List.mem_map_of_mem hcell))), hleaves cell hmem⟩

end

end TotalOf

end EdgeLog

end Provenance

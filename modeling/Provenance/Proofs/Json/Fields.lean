import Mathlib.Data.List.Induction
import Mathlib.Data.String.Basic
import Provenance.Json.Basic
import Provenance.Proofs.Distinct

/-!
# Fields in the order of their names

Sorting leaves single fields as they are found (`Json.lookup_sortFields`) and fields in order as they are
(`Json.sortFields_sortFields`). The values of fields do not matter for it (`Json.sortFields_map_snd`).
-/

namespace Provenance

namespace Json

variable {α : Type} {fields : List (String × α)}

theorem lookup_setField (name : String) (v : α) (k : String) :
    (setField name v fields).lookup k = if k = name then some v else fields.lookup k := by
  induction fields with
  | nil => exact List.lookup_cons_eq_ite (name, v) k
  | cons field rest ih =>
    rw [setField]
    split
    · rw [List.lookup_cons_eq_ite]
    · split
      · next heq =>
        subst heq
        rw [List.lookup_cons_eq_ite, List.lookup_cons_eq_ite]
        split <;> rfl
      · next hne =>
        rw [List.lookup_cons_eq_ite, List.lookup_cons_eq_ite, ih]
        split
        · next hk => rw [if_neg (hk ▸ Ne.symm hne)]
        · rfl

/-- The last of some fields is set after the others. -/
theorem sortFields_concat (fields : List (String × α)) (field : String × α) :
    sortFields (fields ++ [field]) = setField field.1 field.2 (sortFields fields) := by
  rw [sortFields, sortFields, List.foldl_append]
  rfl

/-- Sorting leaves single fields as they are found. -/
theorem lookup_sortFields (h : (fields.map Prod.fst).Nodup) (k : String) :
    (sortFields fields).lookup k = fields.lookup k := by
  induction fields using List.reverseRecOn with
  | nil => rfl
  | append_singleton fields field ih =>
    rw [List.map_append, List.nodup_append] at h
    obtain ⟨hfields, -, hapart⟩ := h
    rw [sortFields_concat, lookup_setField, ih hfields, List.lookup_append, List.lookup_cons_eq_ite]
    split
    · next hk =>
      have hnone : fields.lookup k = none := List.lookup_eq_none_iff.2 fun other hother =>
        bne_iff_ne.2 fun heq => hapart _ (List.mem_map_of_mem hother) _ List.mem_cons_self (heq.symm.trans hk)
      rw [hnone, Option.none_or]
    · rw [List.lookup_nil, Option.or_none]

/-- Fields that are single and in the order of their names. -/
private def InOrder (fields : List (String × α)) : Prop := fields.Pairwise fun a b => a.1 < b.1

private theorem mem_setField {name : String} {v : α} {field : String × α} (h : field ∈ setField name v fields) :
    field = (name, v) ∨ field ∈ fields := by
  induction fields with
  | nil => exact .inl (List.mem_singleton.1 h)
  | cons first rest ih =>
    rw [setField] at h
    split at h
    · exact List.mem_cons.1 h
    · split at h
      · exact (List.mem_cons.1 h).imp_right (List.mem_cons_of_mem _)
      · rcases List.mem_cons.1 h with rfl | h
        · exact .inr List.mem_cons_self
        · exact (ih h).imp_right (List.mem_cons_of_mem _)

private theorem inOrder_setField (h : InOrder fields) (name : String) (v : α) :
    InOrder (setField name v fields) := by
  induction fields with
  | nil => exact List.pairwise_singleton _ _
  | cons first rest ih =>
    obtain ⟨hfirst, hrest⟩ := List.pairwise_cons.1 h
    rw [setField]
    split
    · next hlt =>
      refine List.pairwise_cons.2 ⟨fun field hfield => ?_, h⟩
      rcases List.mem_cons.1 hfield with rfl | hfield
      · exact hlt
      · exact String.lt_trans hlt (hfirst field hfield)
    · next hge =>
      split
      · next heq =>
        subst heq
        exact List.pairwise_cons.2 ⟨hfirst, hrest⟩
      · next hne =>
        refine List.pairwise_cons.2 ⟨fun field hfield => ?_, ih hrest⟩
        rcases mem_setField hfield with rfl | hfield
        · exact lt_of_le_of_ne (not_lt.1 hge) (Ne.symm hne)
        · exact hfirst field hfield

private theorem inOrder_sortFields (fields : List (String × α)) : InOrder (sortFields fields) := by
  induction fields using List.reverseRecOn with
  | nil => exact .nil
  | append_singleton fields field ih =>
    rw [sortFields_concat]
    exact inOrder_setField ih field.1 field.2

private theorem setField_last {name : String} {v : α} (h : ∀ field ∈ fields, field.1 < name) :
    setField name v fields = fields ++ [(name, v)] := by
  induction fields with
  | nil => rfl
  | cons first rest ih =>
    obtain ⟨hfirst, hrest⟩ := List.forall_mem_cons.1 h
    rw [setField, if_neg (not_lt.2 hfirst.le), if_neg hfirst.ne', ih hrest, List.cons_append]

private theorem sortFields_eq_self (h : InOrder fields) : sortFields fields = fields := by
  induction fields using List.reverseRecOn with
  | nil => rfl
  | append_singleton fields field ih =>
    obtain ⟨hfields, -, hbefore⟩ := List.pairwise_append.1 h
    rw [sortFields_concat, ih hfields, setField_last fun other hother => hbefore other hother field List.mem_cons_self]

/-- Fields in order stay as they are. -/
theorem sortFields_sortFields (fields : List (String × α)) : sortFields (sortFields fields) = sortFields fields :=
  sortFields_eq_self (inOrder_sortFields fields)

theorem setField_map_snd {β : Type} (f : α → β) (name : String) (v : α) (fields : List (String × α)) :
    setField name (f v) (fields.map fun field => (field.1, f field.2)) =
      (setField name v fields).map fun field => (field.1, f field.2) := by
  induction fields with
  | nil => rfl
  | cons field rest ih =>
    simp only [List.map_cons, setField, ih]
    split
    · rfl
    · split <;> rfl

/-- The values of fields do not matter for their order. -/
theorem sortFields_map_snd {β : Type} (f : α → β) (fields : List (String × α)) :
    sortFields (fields.map fun field => (field.1, f field.2)) =
      (sortFields fields).map fun field => (field.1, f field.2) := by
  induction fields using List.reverseRecOn with
  | nil => rfl
  | append_singleton fields field ih =>
    rw [List.map_append, List.map_singleton, sortFields_concat, sortFields_concat, ih]
    exact setField_map_snd f field.1 field.2 _

end Json

end Provenance

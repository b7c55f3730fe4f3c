import Provenance.Hierarchy
import Provenance.Proofs.Graph.Cycle

/-!
# Hierarchies of definitions

The parents of a member are those that the links of the definition give it, each once
(`Hierarchy.mem_parentsOf`). A definition is accepted exactly if no member stands above itself
(`Hierarchy.compile_eq_ok_iff`): the search for a cycle starts from all members that have parents, and its depth
suffices for every path through these.
-/

namespace Provenance

/-- A member of a hierarchy stands right below another one. -/
def HierarchyDefinition.Below (d : HierarchyDefinition) (member parent : String) : Prop :=
  ∃ link ∈ d.links, link.child = member ∧ link.parent = parent

/-- No member of a hierarchy stands above itself. -/
def HierarchyDefinition.Acyclic (d : HierarchyDefinition) : Prop :=
  ∀ member, ¬Relation.TransGen d.Below member member

namespace Hierarchy

variable {d : HierarchyDefinition} {h : Hierarchy} {link : HierarchyLink} {links : List HierarchyLink}
  {parents : List (String × List String)} {member parent : String}

/-! ## Parents -/

/-- Members with their parents, in the order of their names. -/
def Sorted (parents : List (String × List String)) : Prop :=
  parents.Pairwise fun entry entry' => entry.1 < entry'.1

theorem lookup_of_lt (hlt : ∀ entry ∈ parents, member < entry.1) : parents.lookup member = none := by
  refine List.lookup_eq_none_iff.2 fun entry hentry => ?_
  have hne : member ≠ entry.1 := fun heq => String.lt_irrefl _ (heq ▸ hlt entry hentry)
  simpa using hne

theorem fst_mem_addLink {entry : String × List String} (hentry : entry ∈ addLink link parents) :
    entry.1 = link.child ∨ ∃ entry' ∈ parents, entry'.1 = entry.1 := by
  induction parents with
  | nil =>
    cases List.mem_singleton.1 hentry
    exact .inl rfl
  | cons first rest ih =>
    unfold addLink at hentry
    split at hentry
    · rcases List.mem_cons.1 hentry with rfl | hentry
      · exact .inl rfl
      · exact .inr ⟨entry, hentry, rfl⟩
    split at hentry
    · rcases List.mem_cons.1 hentry with rfl | hentry
      · exact .inr ⟨first, List.mem_cons_self, rfl⟩
      · exact .inr ⟨entry, List.mem_cons_of_mem _ hentry, rfl⟩
    · rcases List.mem_cons.1 hentry with rfl | hentry
      · exact .inr ⟨_, List.mem_cons_self, rfl⟩
      · exact (ih hentry).imp_right fun ⟨entry', hmem, heq⟩ => ⟨entry', List.mem_cons_of_mem _ hmem, heq⟩

theorem Sorted.addLink (hs : Sorted parents) : Sorted (addLink link parents) := by
  induction parents with
  | nil => exact List.pairwise_singleton _ _
  | cons first rest ih =>
    obtain ⟨hfirst, hrest⟩ := List.pairwise_cons.1 hs
    unfold Hierarchy.addLink
    split
    · next hlt =>
      refine List.pairwise_cons.2 ⟨fun entry hentry => ?_, hs⟩
      rcases List.mem_cons.1 hentry with rfl | hentry
      · exact hlt
      · exact String.lt_trans hlt (hfirst entry hentry)
    · next hlt =>
      split
      · exact List.pairwise_cons.2 ⟨hfirst, hrest⟩
      · next hne =>
        refine List.pairwise_cons.2 ⟨fun entry hentry => ?_, ih hrest⟩
        rcases fst_mem_addLink hentry with heq | ⟨entry', hmem, heq⟩
        · rw [heq]
          refine String.not_le.1 fun hle => hne ?_
          exact String.le_antisymm hle (String.not_lt.1 hlt)
        · exact heq ▸ hfirst entry' hmem

/-- A link changes the parents of its child only. -/
theorem lookup_addLink_of_ne (hne : member ≠ link.child) :
    (addLink link parents).lookup member = parents.lookup member := by
  have hbeq : (member == link.child) = false := beq_false_of_ne hne
  induction parents with
  | nil => simp [addLink, List.lookup_cons, hbeq]
  | cons first rest ih =>
    obtain ⟨name, above⟩ := first
    unfold addLink
    split
    · rw [List.lookup_cons, hbeq]
    split
    · next hname => simp [List.lookup_cons, ← hname, hbeq]
    · rw [List.lookup_cons, List.lookup_cons, ih]

theorem mem_lookup_addLink_child (hs : Sorted parents) :
    parent ∈ ((addLink link parents).lookup link.child).getD [] ↔
      parent ∈ (parents.lookup link.child).getD [] ∨ link.parent = parent := by
  induction parents with
  | nil => simp [addLink, eq_comm]
  | cons first rest ih =>
    obtain ⟨name, above⟩ := first
    obtain ⟨hfirst, hrest⟩ := List.pairwise_cons.1 hs
    unfold addLink
    split
    · next hlt =>
      -- The list is sorted, so the member has no parents in it yet.
      have hnone : List.lookup link.child ((name, above) :: rest) = none := by
        refine lookup_of_lt fun entry hentry => ?_
        rcases List.mem_cons.1 hentry with rfl | hentry
        · exact hlt
        · exact String.lt_trans hlt (hfirst entry hentry)
      simp [hnone, eq_comm]
    split
    · next hname =>
      subst hname
      by_cases hold : link.parent ∈ above
      · simp only [hold, if_true, List.lookup_cons_self, Option.getD_some]
        exact ⟨.inl, fun hparent => hparent.elim id fun heq => heq ▸ hold⟩
      · simp [hold, eq_comm]
    · next hname =>
      simp only [List.lookup_cons, beq_false_of_ne hname]
      exact ih hrest

theorem mem_lookup_addLink (hs : Sorted parents) :
    parent ∈ ((addLink link parents).lookup member).getD [] ↔
      parent ∈ (parents.lookup member).getD [] ∨ link.child = member ∧ link.parent = parent := by
  by_cases hmember : member = link.child
  · subst hmember
    simpa using mem_lookup_addLink_child hs
  · rw [lookup_addLink_of_ne hmember]
    simp [Ne.symm hmember]

theorem mem_lookup_foldl (hs : Sorted parents) :
    parent ∈ ((links.foldl (fun parents link => addLink link parents) parents).lookup member).getD [] ↔
      parent ∈ (parents.lookup member).getD [] ∨
        ∃ link ∈ links, link.child = member ∧ link.parent = parent := by
  induction links generalizing parents with
  | nil => simp
  | cons link links ih =>
    rw [List.foldl_cons, ih hs.addLink, mem_lookup_addLink hs, or_assoc, List.exists_mem_cons_iff]

/-- The parents of a member are those that the links of the definition give it. -/
theorem mem_parentsOf : parent ∈ (ofDefinition d).parentsOf member ↔ d.Below member parent := by
  rw [parentsOf, ofDefinition, mem_lookup_foldl .nil]
  simp [HierarchyDefinition.Below]

/-! ## Cycles -/

theorem leads_parentsOf : Graph.Leads id (ofDefinition d).parentsOf = d.Below := by
  funext member parent
  simp [Graph.Leads, mem_parentsOf]

theorem exists_of_mem_parentsOf (hparent : parent ∈ h.parentsOf member) :
    ∃ above, (member, above) ∈ h.parents ∧ parent ∈ above := by
  unfold parentsOf at hparent
  cases hfind : h.parents.lookup member with
  | none =>
    rw [hfind] at hparent
    cases hparent
  | some above =>
    rw [hfind] at hparent
    obtain ⟨before, after, heq, -⟩ := List.lookup_eq_some_iff.1 hfind
    exact ⟨above, by simp [heq], hparent⟩

/-- Only members that are listed have parents. -/
theorem mem_of_mem_parentsOf (hparent : parent ∈ h.parentsOf member) : member ∈ h.parents.map Prod.fst := by
  obtain ⟨above, hentry, -⟩ := exists_of_mem_parentsOf hparent
  exact List.mem_map_of_mem hentry

theorem mem_of_leads (hleads : Graph.Leads id h.parentsOf member parent) :
    member ∈ h.parents.map Prod.fst := by
  obtain ⟨node, hnode, rfl⟩ := hleads
  exact mem_of_mem_parentsOf hnode

/-- The search from all members that have parents is not cut short. -/
theorem searches_members (h : Hierarchy) :
    Graph.Searches id h.parentsOf [] (h.parents.map Prod.fst) []
      (Graph.search id h.parentsOf (h.parents.length + 1) [] (h.parents.map Prod.fst) []) := by
  have hkeys : ∀ a b, Graph.Leads id h.parentsOf a b → a ∈ h.parents.map Prod.fst := fun _ _ => mem_of_leads
  have hsearches := Graph.searches_starts hkeys (h.parents.map Prod.fst)
  rwa [List.length_map] at hsearches

/-- The member that the search names lies on a cycle. -/
theorem transGen_of_cyclicMember? (hmember : h.cyclicMember? = some member) :
    Relation.TransGen (Graph.Leads id h.parentsOf) member member := by
  have hsearches := h.searches_members
  unfold cyclicMember? at hmember
  split at hmember
  · next closed hsearch =>
    rw [hsearch] at hsearches
    obtain ⟨start, -, done, hdeeper⟩ := hsearches.exists_start
    obtain ⟨hclosed, -⟩ := hdeeper.closedPath (.first id h.parentsOf start)
    exact hclosed.cycle_of_getLast? hmember
  · cases hmember

/-- The search for a cycle finds a member if there is one. -/
theorem exists_cyclicMember?_iff : (∃ member, h.cyclicMember? = some member) ↔
    ∃ member, Relation.TransGen (Graph.Leads id h.parentsOf) member member := by
  have hsearches := h.searches_members
  constructor
  · rintro ⟨member, hmember⟩
    exact ⟨member, transGen_of_cyclicMember? hmember⟩
  · rw [← hsearches.eq_error_iff_of_starts fun _ _ hleads => by simpa using mem_of_leads hleads]
    rintro ⟨closed, hsearch⟩
    rw [hsearch] at hsearches
    obtain ⟨start, -, done, hdeeper⟩ := hsearches.exists_start
    obtain ⟨hclosed, -⟩ := hdeeper.closedPath (.first id h.parentsOf start)
    refine ⟨closed.getLast hclosed.ne_nil, ?_⟩
    rw [cyclicMember?, hsearch]
    exact List.getLast?_eq_some_getLast hclosed.ne_nil

/-- A definition is accepted exactly if no member stands above itself. -/
theorem compile_eq_ok_iff : compile d = .ok h ↔ d.Acyclic ∧ h = ofDefinition d := by
  have hcyclic := exists_cyclicMember?_iff (h := ofDefinition d)
  rw [leads_parentsOf] at hcyclic
  unfold compile HierarchyDefinition.Acyclic
  dsimp only
  split
  · next member hmember =>
    obtain ⟨member, hcycle⟩ := hcyclic.1 ⟨member, hmember⟩
    exact ⟨nofun, fun ⟨hacyclic, _⟩ => absurd hcycle (hacyclic member)⟩
  · next hnone =>
    have hacyclic : ∀ member, ¬Relation.TransGen d.Below member member := by
      intro member hcycle
      obtain ⟨_, hsome⟩ := hcyclic.2 ⟨member, hcycle⟩
      cases hnone.symm.trans hsome
    constructor
    · intro heq
      exact ⟨hacyclic, (Except.ok.inj heq).symm⟩
    · rintro ⟨-, rfl⟩
      rfl

end Hierarchy

end Provenance

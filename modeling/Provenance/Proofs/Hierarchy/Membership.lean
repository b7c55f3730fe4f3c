import Provenance.Proofs.Graph.Walk
import Provenance.Proofs.Hierarchy

/-!
# Standing at or below a member

A member stands at or below another one if it is that one, or a chain of links leads up to it
(`Hierarchy.isMember_iff`). A climb comes to the same answer without a bound on its way: it keeps the members
whose parents are still to be looked at on a stack, remembers which ones it has met, and halts as soon as it
meets the one asked for (`Climb.next?`). Main statement: `Hierarchy.isMember_order`.
-/

namespace Provenance.Hierarchy

/-- The parents of all members. -/
def allParents (h : Hierarchy) : List String := h.parents.flatMap Prod.snd

theorem parentsOf_subset (h : Hierarchy) (member : String) : h.parentsOf member ⊆ h.allParents := by
  intro parent hparent
  obtain ⟨above, hentry, hparent⟩ := exists_of_mem_parentsOf hparent
  exact List.mem_flatMap.2 ⟨_, hentry, hparent⟩

/-- A climb in the middle of its work, or at its end with its answer. -/
inductive Climb where
  /-- The members whose parents are to be looked at, the parents of the last one that are left, and the members
  that were met. The member to start from is not met by that. -/
  | climbs (stack parents met : List String)
  | halted (found : Bool)

namespace Climb

/-- The climb from a member before its first step. -/
def begin (member ancestor : String) : Climb :=
  if member = ancestor then .halted true else .climbs [member] [] []

/-- The climb to a member after one step, unless it has halted. -/
def next? (h : Hierarchy) (ancestor : String) : Climb → Option Climb
  | .halted _ => none
  | .climbs stack (parent :: parents) met =>
    if parent = ancestor then some (.halted true)
    else if parent ∈ met then some (.climbs stack parents met)
    else some (.climbs (parent :: stack) parents (parent :: met))
  | .climbs stack [] met =>
    match stack with
    | [] => some (.halted false)
    | member :: stack => some (.climbs stack (h.parentsOf member) met)

/-- One step of a climb. -/
def Steps (h : Hierarchy) (ancestor : String) (s s' : Climb) : Prop := s.next? h ancestor = some s'

/-- Every sequence of steps of a climb comes to an end. -/
def Terminates (h : Hierarchy) (ancestor : String) (s : Climb) : Prop :=
  Acc (fun s' s => Steps h ancestor s s') s

/-- What a climb knows on its way: what it has met stands above its start, nothing of it is the member asked
for, and what stands above that was met or is still to be looked at. -/
structure Underway (h : Hierarchy) (member ancestor : String) (stack parents met : List String) : Prop where
  above : ∀ parent ∈ parents ++ met, Relation.TransGen (Graph.Leads id h.parentsOf) member parent
  stacked : ∀ other ∈ stack, other = member ∨ other ∈ met
  apart : ancestor ∉ met
  followed : ∀ other, other = member ∨ other ∈ met → other ∈ stack ∨ h.parentsOf other ⊆ parents ++ met

/-- A climb is right so far, and its answer is right once it has halted. -/
def Sound (h : Hierarchy) (member ancestor : String) : Climb → Prop
  | .climbs stack parents met => member ≠ ancestor ∧ Underway h member ancestor stack parents met
  | .halted found =>
    found = true ↔ member = ancestor ∨ Relation.TransGen (Graph.Leads id h.parentsOf) member ancestor

variable {h : Hierarchy} {member ancestor parent other : String} {stack parents met : List String}
  {s s' : Climb}

/-! ## Steps -/

theorem steps_found : Steps h ancestor (.climbs stack (ancestor :: parents) met) (.halted true) := by
  simp [Steps, next?]

theorem steps_skip (hne : parent ≠ ancestor) (hmet : parent ∈ met) :
    Steps h ancestor (.climbs stack (parent :: parents) met) (.climbs stack parents met) := by
  simp [Steps, next?, hne, hmet]

theorem steps_enter (hne : parent ≠ ancestor) (hnew : parent ∉ met) :
    Steps h ancestor (.climbs stack (parent :: parents) met)
      (.climbs (parent :: stack) parents (parent :: met)) := by
  simp [Steps, next?, hne, hnew]

theorem steps_take : Steps h ancestor (.climbs (member :: stack) [] met)
    (.climbs stack (h.parentsOf member) met) := rfl

theorem steps_exhausted : Steps h ancestor (.climbs [] [] met) (.halted false) := rfl

/-- A climb takes a step until it halts. -/
theorem exists_steps (h : Hierarchy) (ancestor : String) (stack parents met : List String) :
    ∃ s', Steps h ancestor (.climbs stack parents met) s' := by
  cases parents with
  | nil =>
    cases stack with
    | nil => exact ⟨_, steps_exhausted⟩
    | cons member stack => exact ⟨_, steps_take⟩
  | cons parent parents =>
    by_cases hparent : parent = ancestor
    · exact hparent ▸ ⟨_, steps_found⟩
    · by_cases hmet : parent ∈ met
      · exact ⟨_, steps_skip hparent hmet⟩
      · exact ⟨_, steps_enter hparent hmet⟩

/-- A climb takes one step at most. -/
theorem Steps.eq {s'' : Climb} (hstep : Steps h ancestor s s') (hstep' : Steps h ancestor s s'') : s' = s'' :=
  Option.some.inj (hstep.symm.trans hstep')

/-! ## What a step keeps -/

namespace Underway

theorem begin (h : Hierarchy) (member ancestor : String) : Underway h member ancestor [member] [] [] where
  above := nofun
  stacked _ hother := .inl (List.mem_singleton.1 hother)
  apart := List.not_mem_nil
  followed _ hother := .inl (hother.elim (fun heq => heq ▸ List.mem_singleton_self _) nofun)

/-- The next member is taken from the stack. -/
theorem take (hu : Underway h member ancestor (other :: stack) [] met) :
    Underway h member ancestor stack (h.parentsOf other) met where
  above parent hparent := by
    rcases List.mem_append.1 hparent with hparent | hparent
    · have hleads : Graph.Leads id h.parentsOf other parent := ⟨parent, hparent, rfl⟩
      rcases hu.stacked other List.mem_cons_self with rfl | hmet
      · exact .single hleads
      · exact (hu.above other hmet).tail hleads
    · exact hu.above parent hparent
  stacked above habove := hu.stacked above (List.mem_cons_of_mem _ habove)
  apart := hu.apart
  followed above habove := by
    rcases hu.followed above habove with hstack | hmet
    · rcases List.mem_cons.1 hstack with rfl | hstack
      · exact .inr (List.subset_append_left _ _)
      · exact .inl hstack
    · exact .inr (List.subset_append_of_subset_right _ hmet)

/-- A parent that was met before is passed over. -/
theorem skip (hu : Underway h member ancestor stack (parent :: parents) met) (hmet : parent ∈ met) :
    Underway h member ancestor stack parents met where
  above other hother := hu.above other (List.mem_cons_of_mem _ hother)
  stacked := hu.stacked
  apart := hu.apart
  followed other hother := by
    refine (hu.followed other hother).imp_right fun hsub => List.Subset.trans hsub ?_
    exact List.cons_subset.2 ⟨List.mem_append_right _ hmet, List.Subset.refl _⟩

/-- A parent that is met for the first time goes on the stack. -/
theorem enter (hu : Underway h member ancestor stack (parent :: parents) met) (hne : parent ≠ ancestor) :
    Underway h member ancestor (parent :: stack) parents (parent :: met) where
  above other hother := hu.above other (List.perm_middle.mem_iff.1 hother)
  stacked other hother := by
    rcases List.mem_cons.1 hother with rfl | hother
    · exact .inr List.mem_cons_self
    · exact (hu.stacked other hother).imp_right (List.mem_cons_of_mem _)
  apart hmem := (List.mem_cons.1 hmem).elim (fun heq => hne heq.symm) hu.apart
  followed other hother := by
    by_cases hparent : other = parent
    · exact .inl (hparent ▸ List.mem_cons_self)
    · have hold : other = member ∨ other ∈ met :=
        hother.imp_right fun hmem => (List.mem_cons.1 hmem).resolve_left hparent
      refine (hu.followed other hold).imp (List.mem_cons_of_mem _) fun hsub => ?_
      exact List.Subset.trans hsub List.perm_middle.symm.subset

/-- Once nothing is left to be looked at, everything above the start was met. -/
theorem mem_met (hu : Underway h member ancestor [] [] met)
    (habove : Relation.TransGen (Graph.Leads id h.parentsOf) member parent) : parent ∈ met := by
  have hfollow : ∀ other, other = member ∨ other ∈ met → h.parentsOf other ⊆ met := fun other hother =>
    (hu.followed other hother).resolve_left List.not_mem_nil
  induction habove with
  | single hleads =>
    obtain ⟨parent, hparent, rfl⟩ := hleads
    exact hfollow _ (.inl rfl) hparent
  | tail _ hleads ih =>
    obtain ⟨parent, hparent, rfl⟩ := hleads
    exact hfollow _ (.inr ih) hparent

end Underway

theorem sound_begin (h : Hierarchy) (member ancestor : String) :
    Sound h member ancestor (begin member ancestor) := by
  unfold begin
  split
  · next heq => exact ⟨fun _ => .inl heq, fun _ => rfl⟩
  · next hne => exact ⟨hne, .begin h member ancestor⟩

/-- A step of a climb keeps it right. -/
theorem Sound.step (hs : Sound h member ancestor s) (hstep : Steps h ancestor s s') :
    Sound h member ancestor s' := by
  cases s with
  | halted found => cases hstep
  | climbs stack parents met =>
    obtain ⟨hne, hu⟩ := hs
    cases parents with
    | nil =>
      cases stack with
      | nil =>
        cases steps_exhausted.eq hstep
        refine ⟨nofun, fun habove => ?_⟩
        exact absurd (hu.mem_met (habove.resolve_left hne)) hu.apart
      | cons other stack =>
        cases steps_take.eq hstep
        exact ⟨hne, hu.take⟩
    | cons parent parents =>
      by_cases hparent : parent = ancestor
      · subst hparent
        cases steps_found.eq hstep
        exact ⟨fun _ => .inr (hu.above parent List.mem_cons_self), fun _ => rfl⟩
      · by_cases hmet : parent ∈ met
        · cases (steps_skip hparent hmet).eq hstep
          exact ⟨hne, hu.skip hmet⟩
        · cases (steps_enter hparent hmet).eq hstep
          exact ⟨hne, hu.enter hparent⟩

/-- Where a climb halts, its answer is right. -/
theorem halted_of_reaches (hreaches : Relation.ReflTransGen (Steps h ancestor) (begin member ancestor) s)
    (hstop : s.next? h ancestor = none) :
    ∃ found, s = .halted found ∧
      (found = true ↔ member = ancestor ∨ Relation.TransGen (Graph.Leads id h.parentsOf) member ancestor) := by
  have hs : Sound h member ancestor s := by
    clear hstop
    induction hreaches with
    | refl => exact sound_begin h member ancestor
    | tail _ hstep ih => exact ih.step hstep
  cases s with
  | halted found => exact ⟨found, rfl, hs⟩
  | climbs stack parents met =>
    obtain ⟨s', hstep⟩ := exists_steps h ancestor stack parents met
    cases hstop.symm.trans hstep

/-! ## Termination -/

theorem Terminates.of_steps (ht : Terminates h ancestor s') (hstep : Steps h ancestor s s') :
    Terminates h ancestor s :=
  .intro _ fun _ hstep' => hstep.eq hstep' ▸ ht

theorem terminates_halted (found : Bool) : Terminates h ancestor (.halted found) :=
  .intro _ fun _ hstep => nomatch hstep

/-- Following parents comes to an end if the climb with the members on the stack does, and every climb that has
met one more of the parents. -/
theorem terminates_of_parents (hparents : parents ⊆ h.allParents)
    (hstack : Terminates h ancestor (.climbs stack [] met))
    (hmore : ∀ parent ∈ h.allParents, parent ∉ met → ∀ stack parents, parents ⊆ h.allParents →
      Terminates h ancestor (.climbs stack parents (parent :: met))) :
    Terminates h ancestor (.climbs stack parents met) := by
  induction parents with
  | nil => exact hstack
  | cons parent parents ih =>
    obtain ⟨hparent, hparents⟩ := List.cons_subset.1 hparents
    by_cases hfound : parent = ancestor
    · exact hfound ▸ (terminates_halted true).of_steps steps_found
    · by_cases hmet : parent ∈ met
      · exact (ih hparents).of_steps (steps_skip hfound hmet)
      · exact (hmore parent hparent hmet _ _ hparents).of_steps (steps_enter hfound hmet)

/-- Every climb terminates. Each member goes on the stack once, so the induction is on the members that were not
met, and among climbs that have met the same ones on the stack. -/
theorem terminates_climbs (hparents : parents ⊆ h.allParents) :
    Terminates h ancestor (.climbs stack parents met) := by
  induction hunseen : (Graph.unseen h.allParents met).length using Nat.strong_induction_on
    generalizing stack parents met with
  | h n ih =>
    have hmore : ∀ parent ∈ h.allParents, parent ∉ met → ∀ stack parents, parents ⊆ h.allParents →
        Terminates h ancestor (.climbs stack parents (parent :: met)) := by
      intro parent hparent hnew stack parents hparents
      exact ih _ (hunseen ▸ Graph.unseen_cons_lt hparent hnew) hparents rfl
    induction stack generalizing parents with
    | nil => exact terminates_of_parents hparents ((terminates_halted false).of_steps steps_exhausted) hmore
    | cons member stack ihstack =>
      have hnext := ihstack (h.parentsOf_subset member)
      exact terminates_of_parents hparents (hnext.of_steps steps_take) hmore

theorem terminates_begin (h : Hierarchy) (member ancestor : String) :
    Terminates h ancestor (begin member ancestor) := by
  unfold begin
  split
  · exact terminates_halted true
  · exact terminates_climbs (List.nil_subset _)

end Climb

/-! ## The order of members -/

variable {d : HierarchyDefinition} {h : Hierarchy} {member ancestor : String}

theorem length_allParents (h : Hierarchy) :
    h.parents.foldl (fun n entry => n + entry.2.length) 0 = h.allParents.length := by
  have hfold : ∀ (parents : List (String × List String)) (n : Nat),
      parents.foldl (fun n entry => n + entry.2.length) n = n + (parents.flatMap Prod.snd).length := by
    intro parents n
    induction parents generalizing n with
    | nil => rfl
    | cons entry parents ih => rw [List.foldl_cons, ih, List.flatMap_cons, List.length_append, Nat.add_assoc]
  rw [hfold, Nat.zero_add]
  rfl

/-- What is above a member is what chains of links lead up to, also where the links make cycles. -/
theorem mem_above : ancestor ∈ h.above member ↔
    Relation.TransGen (Graph.Leads id h.parentsOf) member ancestor := by
  unfold above
  rw [length_allParents]
  exact Graph.mem_walk_iff_reaches (fun other => h.parentsOf_subset other) (Nat.lt_succ_self _) member

theorem isMember_iff : h.isMember member ancestor = true ↔
    member = ancestor ∨ Relation.TransGen (Graph.Leads id h.parentsOf) member ancestor := by
  rw [isMember, Bool.or_eq_true, beq_iff_eq, List.contains_iff_mem, mem_above]

/-- In a hierarchy that is accepted, whether one member stands at or below another one is answered for all names,
declared or not: it does if it is that one or links lead up to it. The climb for it terminates, and its answer is
the one that is given. So the members are in an order. -/
theorem isMember_order (hcompile : compile d = .ok h) :
    (∀ member ancestor,
      (h.isMember member ancestor = true ↔
        member = ancestor ∨ Relation.TransGen d.Below member ancestor) ∧
      Climb.Terminates h ancestor (.begin member ancestor) ∧
      ∀ s, Relation.ReflTransGen (Climb.Steps h ancestor) (.begin member ancestor) s →
        s.next? h ancestor = none → s = .halted (h.isMember member ancestor)) ∧
    (∀ a, h.isMember a a = true) ∧
    (∀ a b c, h.isMember a b = true → h.isMember b c = true → h.isMember a c = true) ∧
    ∀ a b, h.isMember a b = true → h.isMember b a = true → a = b := by
  obtain ⟨hacyclic, rfl⟩ := compile_eq_ok_iff.1 hcompile
  have hmember : ∀ {a b}, (ofDefinition d).isMember a b = true ↔ a = b ∨ Relation.TransGen d.Below a b := by
    intro a b
    rw [isMember_iff, leads_parentsOf]
  refine ⟨fun member ancestor => ⟨hmember, Climb.terminates_begin _ member ancestor, ?_⟩, ?_, ?_, ?_⟩
  · intro s hreaches hstop
    obtain ⟨found, rfl, hfound⟩ := Climb.halted_of_reaches hreaches hstop
    exact congrArg Climb.halted (Bool.eq_iff_iff.2 (hfound.trans isMember_iff.symm))
  · exact fun a => hmember.2 (.inl rfl)
  · intro a b c hab hbc
    rw [hmember] at hab hbc ⊢
    rcases hab with rfl | hab
    · exact hbc
    · rcases hbc with rfl | hbc
      · exact .inr hab
      · exact .inr (hab.trans hbc)
  · intro a b hab hba
    rcases hmember.1 hab with heq | hab
    · exact heq
    · rcases hmember.1 hba with heq | hba
      · exact heq.symm
      · exact absurd (hab.trans hba) (hacyclic a)

end Provenance.Hierarchy

namespace Provenance.Sample

/-- A town that belongs to two districts of one country. -/
def districts : HierarchyDefinition :=
  ⟨"districts", [⟨"north", "town"⟩, ⟨"south", "town"⟩, ⟨"country", "north"⟩, ⟨"country", "south"⟩,
    ⟨"north", "town"⟩]⟩

/-- The town belongs to the country, but neither the other way round nor does a place that no link names. -/
theorem isMember_districts :
    let h := Hierarchy.ofDefinition districts
    Hierarchy.compile districts = .ok h ∧ h.isMember "town" "country" = true ∧
      h.isMember "country" "town" = false ∧ h.isMember "moon" "country" = false ∧
      Relation.TransGen districts.Below "town" "country" := by
  intro h
  have hcompile : Hierarchy.compile districts = .ok h := rfl
  have hmember : h.isMember "town" "country" = true := rfl
  obtain ⟨hiff, -⟩ := Hierarchy.isMember_order hcompile
  have hbelow := ((hiff "town" "country").1.1 hmember).resolve_left (by decide)
  exact ⟨hcompile, hmember, rfl, rfl, hbelow⟩

end Provenance.Sample

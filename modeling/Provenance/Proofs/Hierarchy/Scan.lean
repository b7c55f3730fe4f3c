import Mathlib.Logic.Function.Basic
import Provenance.Proofs.Hierarchy

/-!
# The scan for a cycle

`Graph.search` bounds how deep it goes and keeps lists of what it is done with. A scan has no bound: it keeps
the members on its path on a stack, each with the number of its parents that were followed, and one table of
marks that all its starts share. It takes one step at a time (`Scan.next?`). Whatever the search of a hierarchy
gives, the scan comes to as well (`Scan.reaches_cyclicMember?`), as long as the marks say what is on the path
and what the search is done with (`Scan.Coherent`).
-/

namespace Provenance.Hierarchy

/-- What a scan knows about a member that it has met: it is on the path, or no cycle can be reached from it. -/
inductive Mark where
  | onPath
  | done
deriving DecidableEq

/-- A scan in the middle of its work, or at its end with the member that it found. -/
inductive Scan where
  /-- The members to start from that are left, those on the path with the number of their parents that were
  followed, the innermost first, and the marks. -/
  | looks (starts : List String) (stack : List (String × Nat)) (marks : String → Option Mark)
  | halted (found : Option String)

namespace Scan

/-- The scan of a hierarchy before its first step: all members that have parents are to be started from. -/
def begin (h : Hierarchy) : Scan := .looks (h.parents.map Prod.fst) [] fun _ => none

/-- The scan after one step, unless it has halted. -/
def next? (h : Hierarchy) : Scan → Option Scan
  | .halted _ => none
  | .looks [] [] _ => some (.halted none)
  | .looks (start :: starts) [] marks =>
    match marks start with
    | some _ => some (.looks starts [] marks)
    | none => some (.looks starts [(start, 0)] (Function.update marks start (some .onPath)))
  | .looks starts ((member, i) :: stack) marks =>
    match (h.parentsOf member)[i]? with
    | none => some (.looks starts stack (Function.update marks member (some .done)))
    | some parent =>
      match marks parent with
      | some .onPath => some (.halted (some parent))
      | some .done => some (.looks starts ((member, i + 1) :: stack) marks)
      | none =>
        some (.looks starts ((parent, 0) :: (member, i + 1) :: stack)
          (Function.update marks parent (some .onPath)))

/-- One step of a scan. -/
def Steps (h : Hierarchy) (s s' : Scan) : Prop := s.next? h = some s'

/-- Every sequence of steps of a scan comes to an end. -/
def Terminates (h : Hierarchy) (s : Scan) : Prop := Acc (fun s' s => Steps h s s') s

/-- The marks say which members are on the path and which ones the search is done with. -/
structure Coherent (path done : List String) (marks : String → Option Mark) : Prop where
  onPath : ∀ member, marks member = some .onPath ↔ member ∈ path
  done : ∀ member, marks member = some .done ↔ member ∈ done

variable {h : Hierarchy} {path pending starts done : List String} {stack : List (String × Nat)}
  {marks : String → Option Mark} {member parent : String} {i : Nat} {s s' : Scan}
  {result : Except (List String) (List String)} {after : (String → Option Mark) → Scan}

/-! ## Marks -/

theorem Coherent.begin : Coherent [] [] fun _ => none where
  onPath _ := by simp
  done _ := by simp

/-- What is neither on the path nor done with was not met. -/
theorem Coherent.unmarked (hc : Coherent path done marks) (apart : member ∉ path) (new : member ∉ done) :
    marks member = none := by
  cases hmark : marks member with
  | none => rfl
  | some mark =>
    cases mark with
    | onPath => exact absurd ((hc.onPath member).1 hmark) apart
    | done => exact absurd ((hc.done member).1 hmark) new

theorem Coherent.enter (hc : Coherent path done marks) (new : member ∉ done) :
    Coherent (path ++ [member]) done (Function.update marks member (some .onPath)) where
  onPath other := by
    by_cases hother : other = member
    · simp [hother]
    · simp [hother, hc.onPath]
  done other := by
    by_cases hother : other = member
    · simp [hother, new]
    · simp [hother, hc.done]

theorem Coherent.leave (hc : Coherent (path ++ [member]) done marks) (apart : member ∉ path) :
    Coherent path (member :: done) (Function.update marks member (some .done)) where
  onPath other := by
    by_cases hother : other = member
    · simp [hother, apart]
    · simp [hother, hc.onPath]
  done other := by
    by_cases hother : other = member
    · simp [hother]
    · simp [hother, hc.done]

/-! ## Steps -/

theorem steps_leave (hnone : (h.parentsOf member)[i]? = none) :
    Steps h (.looks starts ((member, i) :: stack) marks)
      (.looks starts stack (Function.update marks member (some .done))) := by
  simp [Steps, next?, hnone]

theorem steps_halted (hparent : (h.parentsOf member)[i]? = some parent)
    (hmark : marks parent = some .onPath) :
    Steps h (.looks starts ((member, i) :: stack) marks) (.halted (some parent)) := by
  simp [Steps, next?, hparent, hmark]

theorem steps_skip (hparent : (h.parentsOf member)[i]? = some parent) (hmark : marks parent = some .done) :
    Steps h (.looks starts ((member, i) :: stack) marks) (.looks starts ((member, i + 1) :: stack) marks) := by
  simp [Steps, next?, hparent, hmark]

theorem steps_enter (hparent : (h.parentsOf member)[i]? = some parent) (hmark : marks parent = none) :
    Steps h (.looks starts ((member, i) :: stack) marks)
      (.looks starts ((parent, 0) :: (member, i + 1) :: stack)
        (Function.update marks parent (some .onPath))) := by
  simp [Steps, next?, hparent, hmark]

theorem steps_skipStart (hmark : marks member = some .done) :
    Steps h (.looks (member :: starts) [] marks) (.looks starts [] marks) := by
  simp [Steps, next?, hmark]

theorem steps_start (hmark : marks member = none) :
    Steps h (.looks (member :: starts) [] marks)
      (.looks starts [(member, 0)] (Function.update marks member (some .onPath))) := by
  simp [Steps, next?, hmark]

/-! ## The answer of a scan -/

/-- A scan comes to what a search gives. If the search fails, the scan halts with the end of the closed path. If
it succeeds, the scan goes on after it, with marks that know the path and what the search is done with. -/
def Yields (h : Hierarchy) (s : Scan) (path : List String) (after : (String → Option Mark) → Scan) :
    Except (List String) (List String) → Prop
  | .error closed => Relation.ReflTransGen (Steps h) s (.halted closed.getLast?)
  | .ok done => ∃ marks, Coherent path done marks ∧ Relation.ReflTransGen (Steps h) s (after marks)

theorem Yields.of_reaches (hs : Yields h s' path after result) (hreaches : Relation.ReflTransGen (Steps h) s s') :
    Yields h s path after result := by
  cases result with
  | error closed => exact hreaches.trans hs
  | ok done =>
    obtain ⟨marks, hc, hsteps⟩ := hs
    exact ⟨marks, hc, hreaches.trans hsteps⟩

theorem Yields.head (hs : Yields h s' path after result) (hfirst : Steps h s s') :
    Yields h s path after result :=
  hs.of_reaches (.single hfirst)

/-- A closed path ends with the member that closes it. -/
theorem getLast?_closing : (Graph.closing id path member).getLast? = some member := by
  simp [Graph.closing]

theorem getElem?_of_drop {parents rest : List String} (hpending : parents.drop i = parent :: rest) :
    parents[i]? = some parent ∧ parents.drop (i + 1) = rest := by
  constructor
  · rw [← List.head?_drop, hpending]
    rfl
  · rw [← List.tail_drop, hpending]
    rfl

/-- A scan follows the parents of the innermost member that are left as the search does, and then takes the
member off the stack. The induction is on the search. -/
theorem yields_of_searches (hsearch : Graph.Searches id h.parentsOf path pending done result)
    (hpending : (h.parentsOf member).drop i = pending) (hc : Coherent path done marks) :
    Yields h (.looks starts ((member, i) :: stack) marks) path
      (fun marks => .looks starts stack (Function.update marks member (some .done))) result := by
  induction hsearch generalizing member i stack marks with
  | finished =>
    have hnone := List.getElem?_eq_none (List.drop_eq_nil_iff.1 hpending)
    exact ⟨marks, hc, .single (steps_leave hnone)⟩
  | closes under =>
    have hmark := (hc.onPath _).2 (by simpa using under)
    rw [Yields, getLast?_closing]
    exact .single (steps_halted (getElem?_of_drop hpending).1 hmark)
  | skips _ old _ ih =>
    obtain ⟨hparent, hrest⟩ := getElem?_of_drop hpending
    exact (ih hrest hc).head (steps_skip hparent ((hc.done _).2 old))
  | fails apart new _ ih =>
    obtain ⟨hparent, -⟩ := getElem?_of_drop hpending
    have hmark := hc.unmarked (by simpa using apart) new
    exact Yields.head (ih (i := 0) rfl (hc.enter new)) (steps_enter hparent hmark)
  | returns apart new _ _ ihdeeper ihothers =>
    have hapart := by simpa using apart
    obtain ⟨hparent, hrest⟩ := getElem?_of_drop hpending
    have hmark := hc.unmarked hapart new
    obtain ⟨marks', hc', hdeeper⟩ := ihdeeper (i := 0) rfl (hc.enter new)
    exact (ihothers hrest (hc'.leave hapart)).of_reaches (.head (steps_enter hparent hmark) hdeeper)

/-- A scan starts from the members that are left as the search does, and halts after the last one. -/
theorem yields_of_starts (hsearch : Graph.Searches id h.parentsOf path starts done result) (hpath : path = [])
    (hc : Coherent [] done marks) :
    Yields h (.looks starts [] marks) [] (fun _ => .halted none) result := by
  induction hsearch generalizing marks with
  | finished => exact ⟨marks, hc, .single rfl⟩
  | closes under =>
    subst hpath
    cases under
  | skips _ old _ ih => exact (ih hpath hc).head (steps_skipStart ((hc.done _).2 old))
  | fails _ new deeper _ =>
    subst hpath
    have hmark := hc.unmarked List.not_mem_nil new
    exact Yields.head (yields_of_searches deeper (i := 0) rfl (hc.enter new)) (steps_start hmark)
  | returns _ new deeper _ _ ihothers =>
    subst hpath
    have hmark := hc.unmarked List.not_mem_nil new
    obtain ⟨marks', hc', hdeeper⟩ := yields_of_searches deeper (i := 0) rfl (hc.enter new)
    exact (ihothers rfl (hc'.leave List.not_mem_nil)).of_reaches (.head (steps_start hmark) hdeeper)

/-- The scan of a hierarchy halts with the member that stands above itself, if there is one. -/
theorem reaches_cyclicMember? (h : Hierarchy) :
    Relation.ReflTransGen (Steps h) (begin h) (.halted h.cyclicMember?) := by
  have hyields := yields_of_starts h.searches_members rfl .begin
  unfold cyclicMember?
  cases hsearch : Graph.search id h.parentsOf (h.parents.length + 1) [] (h.parents.map Prod.fst) [] with
  | error closed =>
    rw [hsearch] at hyields
    exact hyields
  | ok done =>
    rw [hsearch] at hyields
    obtain ⟨_, -, hsteps⟩ := hyields
    exact hsteps

/-! ## Termination -/

/-- A scan takes one step at most, so it terminates if it halts at all. -/
theorem terminates_of_reaches {found : Option String}
    (hreaches : Relation.ReflTransGen (Steps h) s (.halted found)) : Terminates h s := by
  induction hreaches using Relation.ReflTransGen.head_induction_on with
  | refl => exact .intro _ fun _ hstep => nomatch hstep
  | head hfirst _ ih =>
    refine .intro _ fun _ hstep => ?_
    cases hfirst.symm.trans hstep
    exact ih

/-- However a scan comes to a stop, it gives the same answer. -/
theorem eq_of_reaches {found : Option String}
    (hreaches : Relation.ReflTransGen (Steps h) s (.halted found))
    (hreaches' : Relation.ReflTransGen (Steps h) s s') (hstop : s'.next? h = none) : s' = .halted found := by
  have hunique : Relator.RightUnique (Steps h) := fun _ _ _ hstep hstep' =>
    Option.some.inj (hstep.symm.trans hstep')
  rcases Relation.ReflTransGen.total_of_right_unique hunique hreaches hreaches' with hsteps | hsteps
  · rcases hsteps.cases_head with heq | ⟨_, hstep, -⟩
    · exact heq.symm
    · cases hstep
  · rcases hsteps.cases_head with heq | ⟨_, hstep, -⟩
    · exact heq
    · cases hstop.symm.trans hstep

end Scan

variable {d : HierarchyDefinition} {e : Error}

theorem compile_of_cyclicMember? (d : HierarchyDefinition) :
    compile d = (match (ofDefinition d).cyclicMember? with
      | some member => .error (.invalid (.cyclicHierarchy d.name member))
      | none => .ok (ofDefinition d)) :=
  rfl

theorem exists_of_compile_error (herror : compile d = .error e) :
    ∃ member, e = .invalid (.cyclicHierarchy d.name member) ∧ Relation.TransGen d.Below member member := by
  rw [compile_of_cyclicMember?] at herror
  split at herror
  · next member hmember =>
    cases herror
    exact ⟨member, rfl, leads_parentsOf ▸ transGen_of_cyclicMember? hmember⟩
  · cases herror

theorem exists_compile_error_iff :
    (∃ e, compile d = .error e) ↔ ∃ member, Relation.TransGen d.Below member member := by
  constructor
  · rintro ⟨e, herror⟩
    obtain ⟨member, -, hcycle⟩ := exists_of_compile_error herror
    exact ⟨member, hcycle⟩
  · rw [← leads_parentsOf, ← exists_cyclicMember?_iff]
    rintro ⟨member, hmember⟩
    exact ⟨_, by rw [compile_of_cyclicMember?, hmember]⟩

/-- A hierarchy is rejected exactly if a member stands above itself, and the error names such a member. The scan
for it terminates on all definitions, and its answer decides. -/
theorem compile_rejects_cycles (d : HierarchyDefinition) :
    let h := ofDefinition d
    ((∃ e, compile d = .error e) ↔ ∃ member, Relation.TransGen d.Below member member) ∧
    (∀ e, compile d = .error e →
      ∃ member, e = .invalid (.cyclicHierarchy d.name member) ∧ Relation.TransGen d.Below member member) ∧
    Scan.Terminates h (.begin h) ∧
    ∀ s, Relation.ReflTransGen (Scan.Steps h) (.begin h) s → s.next? h = none →
      ∃ found, s = .halted found ∧
        compile d = (match found with
          | some member => .error (.invalid (.cyclicHierarchy d.name member))
          | none => .ok h) := by
  have hreaches := Scan.reaches_cyclicMember? (ofDefinition d)
  refine ⟨exists_compile_error_iff, fun _ => exists_of_compile_error, Scan.terminates_of_reaches hreaches, ?_⟩
  intro s hsteps hstop
  exact ⟨_, Scan.eq_of_reaches hreaches hsteps hstop, compile_of_cyclicMember? d⟩

end Provenance.Hierarchy

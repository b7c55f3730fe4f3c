import Mathlib.Data.List.Chain
import Mathlib.Data.List.Perm.Subperm
import Mathlib.Logic.Relation
import Provenance.Graph.Search
import Provenance.Proofs.Traverse

/-!
# The search for cycles

The search is told step by step, without a bound on its depth (`Searches`). A graph in which arrows lead to
finitely many keys bounds the length of its path, so the bounded search is such a search
(`searches_search`). If it fails, then with a closed path that can be reached from its start
(`Searches.closedPath`). If it does not, then every way on from the keys that it is done with comes to an end
(`Searches.acc`), so no cycle can be reached.
-/

/-- Each member of a chain but the last is related to one. -/
theorem List.IsChain.exists_of_mem_dropLast {α : Type} {R : α → α → Prop} {xs : List α} {x : α}
    (h : xs.IsChain R) (hx : x ∈ xs.dropLast) : ∃ y, R x y := by
  induction xs with
  | nil => cases hx
  | cons first rest ih =>
    cases rest with
    | nil => cases hx
    | cons second rest =>
      obtain ⟨hfirst, hrest⟩ := List.isChain_cons_cons.1 h
      rcases List.mem_cons.1 hx with rfl | hx
      · exact ⟨second, hfirst⟩
      · exact ih hrest hx

namespace Provenance.Graph

variable {Node Key : Type} {key : Node → Key} {next : Key → List Node}

/-- One arrow of the graph leads from a key to another one. -/
def Leads (key : Node → Key) (next : Key → List Node) (a b : Key) : Prop := ∃ node ∈ next a, key node = b

/-- A path that closes: each node follows the one before it, and of its keys the first comes again at the end
and no other one does. -/
structure ClosedPath (key : Node → Key) (next : Key → List Node) (path : List Node) : Prop where
  two_le : 2 ≤ path.length
  closes : path.head?.map key = path.getLast?.map key
  chain : path.IsChain fun a b => b ∈ next (key a)
  nodup : (path.dropLast.map key).Nodup

/-- The path of a search meets no key twice, and what is pending follows its end. All of it can be reached
from a start. -/
structure Trace (key : Node → Key) (next : Key → List Node) (start : Key) (path pending : List Node) :
    Prop where
  chain : ∀ node ∈ pending, (path ++ [node]).IsChain fun a b => b ∈ next (key a)
  nodup : (path.map key).Nodup
  reached : ∀ node ∈ path ++ pending, Relation.ReflTransGen (Leads key next) start (key node)

namespace Trace

variable {start : Key} {path rest pending : List Node} {node : Node} {keys : List Key}

theorem first (key : Node → Key) (next : Key → List Node) (start : Node) :
    Trace key next (key start) [start] (next (key start)) where
  chain node hnode := by simpa using hnode
  nodup := by simp
  reached node hnode := by
    rcases List.mem_cons.1 hnode with rfl | hnode
    · exact .refl
    · exact .single ⟨node, hnode, rfl⟩

/-- Nothing is on the way yet. -/
theorem single (key : Node → Key) (next : Key → List Node) (start : Node) :
    Trace key next (key start) [] [start] where
  chain _ _ := List.isChain_singleton _
  nodup := .nil
  reached node hnode := by
    cases List.mem_singleton.1 hnode
    exact .refl

theorem mono {pending' : List Node} (h : Trace key next start path pending) (hsub : pending' ⊆ pending) :
    Trace key next start path pending' where
  chain node hnode := h.chain node (hsub hnode)
  nodup := h.nodup
  reached node hnode := by
    apply h.reached
    rw [List.mem_append] at hnode ⊢
    exact hnode.imp_right fun hnode => hsub hnode

theorem others (h : Trace key next start path (node :: rest)) : Trace key next start path rest :=
  h.mono (List.subset_cons_self _ _)

theorem one (h : Trace key next start path pending) (hnode : node ∈ pending) :
    Trace key next start path [node] :=
  h.mono fun _ hother => List.mem_singleton.1 hother ▸ hnode

theorem deeper (h : Trace key next start path (node :: rest)) (hapart : key node ∉ path.map key) :
    Trace key next start (path ++ [node]) (next (key node)) where
  chain other hother := by
    refine List.isChain_append.2 ⟨h.chain node List.mem_cons_self, List.isChain_singleton _, ?_⟩
    simpa using hother
  nodup := by
    rw [List.map_append]
    exact List.nodup_append.2 ⟨h.nodup, by simp, by simpa using hapart⟩
  reached other hother := by
    have hnode : Relation.ReflTransGen (Leads key next) start (key node) := h.reached node (by simp)
    simp only [List.mem_append, List.mem_singleton] at hother
    rcases hother with (hother | rfl) | hother
    · exact h.reached other (List.mem_append_left _ hother)
    · exact hnode
    · exact hnode.tail ⟨other, hother, rfl⟩

/-- A path that meets no key twice is not longer than there are keys to meet. -/
theorem length_le (h : Trace key next start path pending) (hkeys : ∀ a b, Leads key next a b → b ∈ keys) :
    path.length ≤ keys.length + 1 := by
  have hsub : path.map key ⊆ start :: keys := by
    intro k hk
    obtain ⟨node, hnode, rfl⟩ := List.mem_map.1 hk
    rcases (h.reached node (List.mem_append_left _ hnode)).cases_tail with heq | ⟨b, -, hstep⟩
    · exact heq ▸ List.mem_cons_self
    · exact List.mem_cons_of_mem _ (hkeys b _ hstep)
  simpa using (List.subperm_of_subset h.nodup hsub).length_le

/-- A path that something follows is not longer than there are keys that arrows lead from. -/
theorem length_le_of_from (h : Trace key next start path [node])
    (hkeys : ∀ a b, Leads key next a b → a ∈ keys) : path.length ≤ keys.length := by
  have hsub : path.map key ⊆ keys := by
    intro k hk
    obtain ⟨earlier, hearlier, rfl⟩ := List.mem_map.1 hk
    have hchain := h.chain node (List.mem_singleton_self node)
    obtain ⟨later, hlater⟩ := hchain.exists_of_mem_dropLast (by rwa [List.dropLast_concat])
    exact hkeys _ _ ⟨later, hlater, rfl⟩
  simpa using (List.subperm_of_subset h.nodup hsub).length_le

end Trace

variable [DecidableEq Key]

/-- What a search gives that goes through what is pending at the end of a path, one node after the other and
each as deep as it can. -/
inductive Searches (key : Node → Key) (next : Key → List Node) :
    List Node → List Node → List Key → Except (List Node) (List Key) → Prop
  | finished {path : List Node} {done : List Key} : Searches key next path [] done (.ok done)
  /-- The path closes with the node. -/
  | closes {path rest : List Node} {node : Node} {done : List Key} (under : key node ∈ path.map key) :
      Searches key next path (node :: rest) done (.error (closing key path node))
  | skips {path rest : List Node} {node : Node} {done : List Key} {result : Except (List Node) (List Key)}
      (apart : key node ∉ path.map key) (old : key node ∈ done)
      (others : Searches key next path rest done result) :
      Searches key next path (node :: rest) done result
  | fails {path rest : List Node} {node : Node} {done : List Key} {closed : List Node}
      (apart : key node ∉ path.map key) (new : key node ∉ done)
      (deeper : Searches key next (path ++ [node]) (next (key node)) done (.error closed)) :
      Searches key next path (node :: rest) done (.error closed)
  | returns {path rest : List Node} {node : Node} {done done' : List Key}
      {result : Except (List Node) (List Key)} (apart : key node ∉ path.map key) (new : key node ∉ done)
      (deeper : Searches key next (path ++ [node]) (next (key node)) done (.ok done'))
      (others : Searches key next path rest (key node :: done') result) :
      Searches key next path (node :: rest) done result

variable {start : Key} {path pending closed : List Node} {node : Node} {keys done done' : List Key}
  {depth : Nat}

theorem search_cons {rest : List Node} :
    search key next (depth + 1) path (node :: rest) done =
      if key node ∈ path.map key then .error (closing key path node)
      else if key node ∈ done then search key next (depth + 1) path rest done
      else
        search key next depth (path ++ [node]) (next (key node)) done >>= fun done =>
          search key next (depth + 1) path rest (key node :: done) := by
  conv_lhs => rw [search, List.foldlM_cons]
  split
  · rfl
  split
  · rfl
  · cases search key next depth (path ++ [node]) (next (key node)) done <;> rfl

/-- A search whose depth suffices for every path that something may follow is not cut short, whichever starts
the nodes that are pending were reached from. -/
theorem searches_search_of_bound {bound : Nat}
    (hbound : ∀ start path node, Trace key next start path [node] → path.length ≤ bound)
    (h : ∀ node ∈ pending, ∃ start, Trace key next start path [node])
    (hdepth : bound + 1 ≤ path.length + depth) :
    Searches key next path pending done (search key next depth path pending done) := by
  induction depth generalizing path pending done with
  | zero =>
    cases pending with
    | nil => exact .finished
    | cons node rest =>
      obtain ⟨start, htrace⟩ := h node List.mem_cons_self
      have hle := hbound start path node htrace
      omega
  | succ depth ih =>
    induction pending generalizing done with
    | nil => exact .finished
    | cons node rest ihrest =>
      have hothers : ∀ done, Searches key next path rest done (search key next (depth + 1) path rest done) :=
        fun done => ihrest fun other hother => h other (List.mem_cons_of_mem _ hother)
      rw [search_cons]
      by_cases hunder : key node ∈ path.map key
      · rw [if_pos hunder]
        exact .closes hunder
      rw [if_neg hunder]
      by_cases hold : key node ∈ done
      · rw [if_pos hold]
        exact .skips hunder hold (hothers done)
      rw [if_neg hold]
      obtain ⟨start, htrace⟩ := h node List.mem_cons_self
      have hdeeper : Searches key next (path ++ [node]) (next (key node)) done _ :=
        ih (fun other hother => ⟨start, (htrace.deeper hunder).one hother⟩) (by simp; omega)
      cases hsearch : search key next depth (path ++ [node]) (next (key node)) done with
      | error closed =>
        rw [hsearch] at hdeeper
        exact .fails hunder hold hdeeper
      | ok done' =>
        rw [hsearch] at hdeeper
        exact .returns hunder hold hdeeper (hothers _)

/-- A search whose depth suffices for a path through all keys is not cut short. -/
theorem searches_search (hkeys : ∀ a b, Leads key next a b → b ∈ keys)
    (h : Trace key next start path pending) (hdepth : keys.length + 2 ≤ path.length + depth) :
    Searches key next path pending done (search key next depth path pending done) :=
  searches_search_of_bound (fun _ _ _ htrace => htrace.length_le hkeys)
    (fun _ hnode => ⟨start, h.one hnode⟩) hdepth

/-- A search from several starts is not cut short if its depth suffices for a path through all keys that arrows
lead from. -/
theorem searches_starts (hkeys : ∀ a b, Leads key next a b → a ∈ keys) (starts : List Node) :
    Searches key next [] starts [] (search key next (keys.length + 1) [] starts []) :=
  searches_search_of_bound (fun _ _ _ htrace => htrace.length_le_of_from hkeys)
    (fun node _ => ⟨key node, .single key next node⟩) (by simp)

/-! ## Failure -/

theorem exists_closing (h : key node ∈ path.map key) :
    ∃ before first after, path = before ++ first :: after ∧ key first = key node ∧
      closing key path node = first :: (after ++ [node]) := by
  induction path with
  | nil => cases h
  | cons first path ih =>
    by_cases hfirst : key first = key node
    · refine ⟨[], first, path, rfl, hfirst, ?_⟩
      simp [closing, hfirst]
    · have hrest : key node ∈ path.map key := by simpa [Ne.symm hfirst] using h
      obtain ⟨before, first', after, rfl, heq, hclosing⟩ := ih hrest
      refine ⟨first :: before, first', after, rfl, heq, ?_⟩
      rw [← hclosing]
      simp [closing, hfirst]

/-- A path that comes back to one of its keys closes there. -/
theorem Trace.closedPath {rest : List Node} (h : Trace key next start path (node :: rest))
    (hunder : key node ∈ path.map key) : ClosedPath key next (closing key path node) := by
  obtain ⟨before, first, after, rfl, hfirst, hclosing⟩ := exists_closing hunder
  have hchain := h.chain node List.mem_cons_self
  have hnodup := h.nodup
  rw [List.append_assoc] at hchain
  rw [List.map_append] at hnodup
  rw [hclosing]
  refine ⟨by simp, ?_, hchain.right_of_append, ?_⟩
  · simp [hfirst, List.getLast?_cons]
  · rw [← List.cons_append, List.dropLast_concat]
    exact (List.nodup_append.1 hnodup).2.1

/-- A search that fails gives a closed path that can be reached from its start. -/
theorem Searches.closedPath (h : Searches key next path pending done (.error closed))
    (htrace : Trace key next start path pending) :
    ClosedPath key next closed ∧
      ∀ node ∈ closed, Relation.ReflTransGen (Leads key next) start (key node) := by
  generalize hresult : Except.error closed = result at h
  induction h with
  | finished => cases hresult
  | @closes path rest node done under =>
    cases hresult
    refine ⟨htrace.closedPath under, fun other hother => ?_⟩
    obtain ⟨before, first, after, rfl, -, hclosing⟩ := exists_closing under
    rw [hclosing] at hother
    apply htrace.reached
    simp only [List.mem_cons, List.mem_append] at hother ⊢
    tauto
  | skips _ _ _ ih => exact ih htrace.others hresult
  | fails apart _ _ ih => exact ih (htrace.deeper apart) hresult
  | returns _ _ _ _ _ ih => exact ih htrace.others hresult

/-- A search from several starts that fails does so from one of them. -/
theorem Searches.exists_start {starts : List Node}
    (h : Searches key next [] starts done (.error closed)) :
    ∃ start ∈ starts, ∃ done', Searches key next [start] (next (key start)) done' (.error closed) := by
  generalize hpath : [] = path at h
  generalize hresult : Except.error closed = result at h
  induction h with
  | finished => cases hresult
  | closes under =>
    subst hpath
    cases under
  | skips _ _ _ ih | returns _ _ _ _ _ ih =>
    obtain ⟨start, hstart, hdeeper⟩ := ih hpath hresult
    exact ⟨start, List.mem_cons_of_mem _ hstart, hdeeper⟩
  | fails _ _ deeper =>
    subst hpath
    cases hresult
    exact ⟨_, List.mem_cons_self, _, deeper⟩

omit [DecidableEq Key] in
/-- The key that a closed path ends with lies on a cycle. -/
theorem ClosedPath.cycle_of_getLast? (h : ClosedPath key next path) (hlast : path.getLast? = some node) :
    Relation.TransGen (Leads key next) (key node) (key node) := by
  obtain ⟨hlength, hcloses, hchain, -⟩ := h
  obtain _ | ⟨first, rest⟩ := path
  · cases hlength
  have hne : rest ≠ [] := by
    rintro rfl
    simp at hlength
  -- Arrows in a row make ways, and one of these leads from the first node to the last.
  have hways : (first :: rest).IsChain fun a b => Relation.TransGen (Leads key next) (key a) (key b) :=
    hchain.imp fun a b hnext => .single ⟨b, hnext, rfl⟩
  have htrans : IsTrans Node fun a b => Relation.TransGen (Leads key next) (key a) (key b) :=
    ⟨fun _ _ _ => Relation.TransGen.trans⟩
  have hmem : node ∈ rest := by
    rw [List.getLast?_cons, List.getLast?_eq_some_getLast hne] at hlast
    exact Option.some.inj hlast ▸ List.getLast_mem hne
  have hway := List.rel_of_pairwise_cons hways.pairwise hmem
  rw [hlast] at hcloses
  simp only [List.head?_cons, Option.map_some, Option.some.injEq] at hcloses
  rwa [hcloses] at hway

omit [DecidableEq Key] in
theorem ClosedPath.ne_nil (h : ClosedPath key next path) : path ≠ [] := by
  rintro rfl
  simpa using h.two_le

omit [DecidableEq Key] in
theorem ClosedPath.exists_cycle (h : ClosedPath key next path) :
    ∃ node ∈ path, Relation.TransGen (Leads key next) (key node) (key node) :=
  ⟨_, List.getLast_mem h.ne_nil, h.cycle_of_getLast? (List.getLast?_eq_some_getLast h.ne_nil)⟩

/-! ## Success -/

/-- Every way on from what a search is done with comes to an end. -/
theorem Searches.acc (h : Searches key next path pending done (.ok done'))
    (hdone : ∀ k ∈ done, Acc (Function.swap (Leads key next)) k) :
    done ⊆ done' ∧ (∀ k ∈ done', Acc (Function.swap (Leads key next)) k) ∧
      ∀ node ∈ pending, key node ∈ done' := by
  generalize hresult : Except.ok done' = result at h
  induction h generalizing done' with
  | finished =>
    cases hresult
    exact ⟨List.Subset.refl _, hdone, nofun⟩
  | closes | fails => cases hresult
  | skips _ old _ ih =>
    obtain ⟨hsub, hacc, hrest⟩ := ih hdone hresult
    refine ⟨hsub, hacc, fun other hother => ?_⟩
    rcases List.mem_cons.1 hother with rfl | hother
    · exact hsub old
    · exact hrest other hother
  | @returns path rest node done done₁ result _ _ _ _ ihdeeper ihrest =>
    obtain ⟨hsub₁, hacc₁, hnext⟩ := ihdeeper hdone rfl
    -- All that follows the node is done, and so is the node.
    have hnode : Acc (Function.swap (Leads key next)) (key node) := by
      refine .intro _ ?_
      rintro _ ⟨other, hother, rfl⟩
      exact hacc₁ _ (hnext other hother)
    have hdone₁ : ∀ k ∈ key node :: done₁, Acc (Function.swap (Leads key next)) k := by
      intro k hk
      rcases List.mem_cons.1 hk with rfl | hk
      · exact hnode
      · exact hacc₁ k hk
    obtain ⟨hsub, hacc, hrest⟩ := ihrest hdone₁ hresult
    refine ⟨fun k hk => hsub (List.mem_cons_of_mem _ (hsub₁ hk)), hacc, fun other hother => ?_⟩
    rcases List.mem_cons.1 hother with rfl | hother
    · exact hsub List.mem_cons_self
    · exact hrest other hother

omit [DecidableEq Key] in
/-- No cycle can be reached from where every way comes to an end. -/
theorem not_cyclic_of_acc {R : Key → Key → Prop} {a b : Key} (h : Acc (Function.swap R) a)
    (hreach : Relation.ReflTransGen R a b) : ¬Relation.TransGen R b b := by
  induction h generalizing b with
  | intro a _ ih =>
    rcases hreach.cases_head with rfl | ⟨c, hstep, hreach⟩
    · intro hcycle
      obtain ⟨c, hstep, hback⟩ := Relation.TransGen.head'_iff.1 hcycle
      exact ih c hstep hback hcycle
    · exact ih c hstep hreach

/-- A search from all keys that arrows lead from fails, if and only if there is a cycle. -/
theorem Searches.eq_error_iff_of_starts {starts : List Node} {result : Except (List Node) (List Key)}
    (h : Searches key next [] starts [] result) (hkeys : ∀ a b, Leads key next a b → a ∈ starts.map key) :
    (∃ closed, result = .error closed) ↔ ∃ k, Relation.TransGen (Leads key next) k k := by
  cases result with
  | error closed =>
    obtain ⟨start, -, done', hsearch⟩ := h.exists_start
    obtain ⟨hclosed, -⟩ := hsearch.closedPath (.first key next start)
    obtain ⟨node, -, hcycle⟩ := hclosed.exists_cycle
    exact ⟨fun _ => ⟨_, hcycle⟩, fun _ => ⟨closed, rfl⟩⟩
  | ok done =>
    obtain ⟨-, hacc, hdone⟩ := h.acc nofun
    constructor
    · rintro ⟨_, ⟨⟩⟩
    · rintro ⟨k, hcycle⟩
      obtain ⟨b, hstep, -⟩ := Relation.TransGen.head'_iff.1 hcycle
      obtain ⟨start, hstart, rfl⟩ := List.mem_map.1 (hkeys k b hstep)
      exact absurd hcycle (not_cyclic_of_acc (hacc _ (hdone start hstart)) .refl)

/-- A search from a start fails, if and only if a cycle can be reached from there. -/
theorem Searches.eq_error_iff {start : Node} {result : Except (List Node) (List Key)}
    (h : Searches key next [start] (next (key start)) [] result) :
    (∃ closed, result = .error closed) ↔
      ∃ k, Relation.ReflTransGen (Leads key next) (key start) k ∧
        Relation.TransGen (Leads key next) k k := by
  cases result with
  | error closed =>
    obtain ⟨hclosed, hreached⟩ := h.closedPath (.first key next start)
    obtain ⟨node, hnode, hcycle⟩ := hclosed.exists_cycle
    exact ⟨fun _ => ⟨_, hreached node hnode, hcycle⟩, fun _ => ⟨closed, rfl⟩⟩
  | ok done =>
    obtain ⟨-, hacc, hdone⟩ := h.acc nofun
    have hstart : Acc (Function.swap (Leads key next)) (key start) := by
      refine .intro _ ?_
      rintro _ ⟨node, hnode, rfl⟩
      exact hacc _ (hdone node hnode)
    constructor
    · rintro ⟨_, ⟨⟩⟩
    · rintro ⟨k, hreach, hcycle⟩
      exact absurd hcycle (not_cyclic_of_acc hstart hreach)

end Provenance.Graph

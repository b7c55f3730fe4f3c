/-!
# Searches of a graph

A graph is given by what follows each key; nodes with one key are one point of the graph. A search for a
cycle goes as deep as it can before it turns to the next node, and remembers the keys that it is done with. It
fails with the first path that closes. A walk goes from a start to everything that can be reached from it,
level by level: first what one arrow leads to, then what two arrows lead to. Each key is reached once, by the
first arrow that leads to it.
-/

namespace Provenance.Graph

variable {Node Arrow Key : Type} [DecidableEq Key]

/-! ## Cycles -/

section Cycle

variable (key : Node → Key) (next : Key → List Node)

/-- The part of a path from the first node with the key of `node` on, closed by that node. -/
def closing (path : List Node) (node : Node) : List Node :=
  path.dropWhile (fun earlier => key earlier ≠ key node) ++ [node]

/-- Searches what follows the end of a path, one node of `pending` after the other. `done` holds the keys
from which the search found no cycle. A path has at most `depth` more nodes. -/
def search : Nat → List Node → List Node → List Key → Except (List Node) (List Key)
  | 0, _, _, done => .ok done
  | depth + 1, path, pending, done =>
    pending.foldlM
      (fun done node =>
        if key node ∈ path.map key then .error (closing key path node)
        else if key node ∈ done then .ok done
        else do
          let done ← search depth (path ++ [node]) (next (key node)) done
          pure (key node :: done))
      done

end Cycle

/-! ## Walks -/

section Walk

variable (key : Arrow → Key) (next : Key → List Arrow)

/-- The arrows that lead to keys not seen before, each key's first one, and the keys seen with them. -/
def discover : List Arrow → List Key → List Arrow × List Key
  | [], seen => ([], seen)
  | arrow :: rest, seen =>
    if key arrow ∈ seen then discover rest seen
    else
      let (found, seen) := discover rest (key arrow :: seen)
      (arrow :: found, seen)

/-- The walk from arrows at a level on, each arrow with its level. At most `levels` levels are walked. -/
def walk : Nat → Nat → List Arrow → List Key → List (Arrow × Nat)
  | 0, _, _, _ => []
  | levels + 1, level, arrows, seen =>
    let (found, seen) := discover key arrows seen
    found.map (fun arrow => (arrow, level)) ++
      walk levels (level + 1) (found.flatMap fun arrow => next (key arrow)) seen

end Walk

end Provenance.Graph

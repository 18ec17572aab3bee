import Mathlib.Data.Prod.Lex
import Mathlib.Data.String.Basic
import TrustMap.Library.GuardedSearch
import TrustMap.Mapnode.Replay.TrustView

/-!
`ReplayTrustView.ShortestPath`: Dijkstra's algorithm with stale queue entries, a cutoff on the cost
and a bound on the heights of the target chain. The edges of a node are visited in some order.
-/

namespace TrustMap.Mapnode.Replay

open Checks

/-- `replayQueueItem`. -/
structure QueueItem where
  key : ReplayBlockKey
  cost : UInt64
  deriving DecidableEq

/-- The order of `Less`: by cost, then by chain, then by height. -/
def rank (cost : UInt64) (key : ReplayBlockKey) : ℕ ×ₗ String ×ₗ ℕ :=
  toLex (cost.toNat, toLex (key.chain, key.height.toNat))

/-- `heap.Pop`: a first item in the order of `Less`, and the others. -/
def popLeast : List QueueItem → Option (QueueItem × List QueueItem) :=
  popLeastBy fun item => rank item.cost item.key

/-- What a search may visit: costs up to the cutoff, and on the target chain only heights from a
bound on. -/
structure SearchBounds where
  cutoff : UInt64
  targetChain : String
  minTargetHeight : UInt64

/-- The bounds `ShortestPath` computes. -/
def searchBounds (lower : Lowercase) (profile : CostProfile) (cutoff : UInt64) (targetChain : String)
    (targetHeight : UInt64) : SearchBounds :=
  let steps := cutoff / profile.directStepCost
  ⟨cutoff, canonicalChain lower targetChain, if steps < targetHeight then targetHeight - steps else 0⟩

/-- `nodeOK`. -/
def SearchBounds.nodeOK (bounds : SearchBounds) (key : ReplayBlockKey) : Bool :=
  key.chain ≠ bounds.targetChain || bounds.minTargetHeight ≤ key.height

/-- `replaySearchScratch` after `begin`; entries of older generations are not seen. -/
structure SearchState where
  distances : ReplayBlockKey → Option UInt64
  predecessors : ReplayBlockKey → Option ReplayBlockKey
  queue : List QueueItem

namespace ReplayTrustView

/-- The edges out of a node. -/
def neighbours (view : ReplayTrustView) (key : ReplayBlockKey) : List AdjacencyRow :=
  view.adjacency.rows.filter (·.fromKey = key)

/-- The body of the loop over the edges of an item. -/
def relaxEdge (view : ReplayTrustView) (bounds : SearchBounds) (item : QueueItem) (s : SearchState)
    (row : AdjacencyRow) : Except ReplayError SearchState := do
  let candidate ← checkedAdd item.cost row.edge.weight
  if bounds.cutoff < candidate ∨ bounds.nodeOK row.toKey = false then return s
  require (row.toKey ∈ view.nodeKeys) .nodeMissing
  if (s.distances row.toKey).any (· ≤ candidate) then return s
  return {
    distances := Function.update s.distances row.toKey (some candidate)
    predecessors := Function.update s.predecessors row.toKey (some item.key)
    queue := ⟨row.toKey, candidate⟩ :: s.queue }

/-- The loop of `reconstructPathLocked` over the predecessors, with a bound on its steps. -/
def collectNodes (predecessors : ReplayBlockKey → Option ReplayBlockKey) (start : ReplayBlockKey) :
    ℕ → ReplayBlockKey → List ReplayBlockKey → Except ReplayError (List ReplayBlockKey)
  | 0, _, _ => .error .predecessorMissing
  | fuel + 1, current, nodes =>
      if current = start then .ok nodes
      else
        match predecessors current with
        | none => .error .predecessorMissing
        | some prior => collectNodes predecessors start fuel prior (prior :: nodes)

/-- `reconstructPathLocked`. Every edge costs something, so that the cost bounds the steps. -/
def reconstructPathLocked (view : ReplayTrustView) (start goal : ReplayBlockKey) (cost : UInt64)
    (s : SearchState) : Except ReplayError (Option ReplayPath) := do
  let nodes ← collectNodes s.predecessors start (cost.toNat + 1) goal [goal]
  match reconstructPath view.edge cost nodes with
  | none => .error .edgeMissing
  | some path => .ok (some path)

/-- The orders of the loops over the adjacency map of a node, for each of the steps of a search. -/
structure IterationOrder (view : ReplayTrustView) where
  edges : ℕ → ReplayBlockKey → List AdjacencyRow
  perm : ∀ step key, (edges step key).Perm (view.neighbours key)

/-- The order of the rows. -/
def rowOrder (view : ReplayTrustView) : view.IterationOrder :=
  ⟨fun _ => view.neighbours, fun _ _ => List.Perm.refl _⟩

/-- The loop of `ShortestPath`, with a bound on the items it takes from the queue. -/
def searchLoopIn (view : ReplayTrustView) (order : view.IterationOrder) (bounds : SearchBounds)
    (start goal : ReplayBlockKey) :
    ℕ → SearchState → Option (Except ReplayError (Option ReplayPath))
  | 0, _ => none
  | fuel + 1, s =>
      match popLeast s.queue with
      | none => some (.ok none)
      | some (item, rest) =>
          let s := { s with queue := rest }
          if s.distances item.key ≠ some item.cost then view.searchLoopIn order bounds start goal fuel s
          else if bounds.cutoff < item.cost then some (.ok none)
          else if bounds.nodeOK item.key = false then view.searchLoopIn order bounds start goal fuel s
          else if item.key = goal then some (view.reconstructPathLocked start goal item.cost s)
          else
            match (order.edges fuel item.key).foldlM (view.relaxEdge bounds item) s with
            | .error e => some (.error e)
            | .ok s => view.searchLoopIn order bounds start goal fuel s

/-- The state before the loop. -/
def searchStart (start : ReplayBlockKey) : SearchState where
  distances := Function.update (fun _ => none) start (some 0)
  predecessors := fun _ => none
  queue := [⟨start, 0⟩]

/-- `ShortestPath` where the edges of a node are visited in a given order. There is no path if none
was found; the bound on the items is never reached. -/
def shortestPathIn (lower : Lowercase) (view : ReplayTrustView) (order : view.IterationOrder)
    (start goal : ReplayBlockKey) (cutoff : UInt64) (targetChain : String) (targetHeight : UInt64) :
    Except ReplayError (Option ReplayPath) := do
  let start := canonicalKey lower start
  let goal := canonicalKey lower goal
  if start = goal then return some ⟨0, [start], []⟩
  require (start ∈ view.nodeKeys) .nodeMissing
  require (goal ∈ view.nodeKeys) .nodeMissing
  let bounds := searchBounds lower view.profile cutoff targetChain targetHeight
  (view.searchLoopIn order bounds start goal (view.adjacency.rows.length + 2)
    (searchStart start)).getD (.error .nodeMissing)

/-- `ShortestPath` in the order of the rows. -/
def shortestPath (lower : Lowercase) (view : ReplayTrustView) (start goal : ReplayBlockKey)
    (cutoff : UInt64) (targetChain : String) (targetHeight : UInt64) :
    Except ReplayError (Option ReplayPath) :=
  view.shortestPathIn lower view.rowOrder start goal cutoff targetChain targetHeight

end ReplayTrustView

end TrustMap.Mapnode.Replay

import Adaptite.Base.Table

set_option autoImplicit false

/-!
# The dependency graph of a reactor

The maps, counters and tracking stack of `ReactorInner`, and the operations that
change them. A hash map is an association list with distinct keys; the order in
which one is iterated is a parameter (`Enumeration`). Counters that advance by
one at a time (`u64` ids, versions and totals) are natural numbers; the
saturating subtractions of the source are the truncated ones of `ℕ`.
-/
namespace Adaptite

abbrev NodeId : Type := ℕ

inductive NodeKind where
  | source | signal | event | thunk | memo | effect
deriving DecidableEq, Repr

def NodeKind.all : List NodeKind := [.source, .signal, .event, .thunk, .memo, .effect]

/-- Node metadata. The creation site of the source only ever reaches messages. -/
structure NodeMeta where
  version : ℕ
  kind : NodeKind
deriving DecidableEq

/-- The maintained half of the graph statistics. `truncated` is not in the
source: it remembers whether a saturating subtraction ever fell short. -/
structure GraphCounters where
  liveNodesByKind : NodeKind → ℕ := fun _ => 0
  liveEdges : ℕ := 0
  peakNodes : ℕ := 0
  peakEdges : ℕ := 0
  nodesCreated : ℕ := 0
  nodesDisposed : ℕ := 0
  edgesAdded : ℕ := 0
  edgesRemoved : ℕ := 0
  truncated : Bool := false

namespace GraphCounters

def nodeCreated (c : GraphCounters) (kind : NodeKind) (liveNodes : ℕ) : GraphCounters :=
  { c with
    liveNodesByKind := Function.update c.liveNodesByKind kind (c.liveNodesByKind kind + 1)
    nodesCreated := c.nodesCreated + 1
    peakNodes := max c.peakNodes liveNodes }

def nodeDisposed (c : GraphCounters) (kind : NodeKind) : GraphCounters :=
  { c with
    liveNodesByKind := Function.update c.liveNodesByKind kind (c.liveNodesByKind kind - 1)
    nodesDisposed := c.nodesDisposed + 1
    truncated := c.truncated || c.liveNodesByKind kind < 1 }

def edgeAdded (c : GraphCounters) : GraphCounters :=
  { c with
    liveEdges := c.liveEdges + 1
    edgesAdded := c.edgesAdded + 1
    peakEdges := max c.peakEdges (c.liveEdges + 1) }

def removeEdges (c : GraphCounters) (count : ℕ) : GraphCounters :=
  { c with
    liveEdges := c.liveEdges - count
    edgesRemoved := c.edgesRemoved + count
    truncated := c.truncated || c.liveEdges < count }

end GraphCounters

abbrev Edges : Type := AList fun _ : NodeId => ℕ
abbrev IdSet : Type := AList fun _ : NodeId => Unit

/-- `stack` lists the running observers innermost first. -/
structure Graph where
  nextNode : NodeId := 1
  nodeMeta : AList fun _ : NodeId => NodeMeta := ∅
  dependencies : AList fun _ : NodeId => Edges := ∅
  dependents : AList fun _ : NodeId => IdSet := ∅
  observedNodes : ℕ := 0
  observers : IdSet := ∅
  stack : List NodeId := []
  activeComputations : List NodeId := []
  counters : GraphCounters := {}

/-- The iteration order of the hash maps: any rearrangement of the keys, which
may depend on the whole graph and so on the history of the maps. -/
structure Enumeration where
  order : Graph → List NodeId → List NodeId
  perm : ∀ g l, (order g l).Perm l

def Enumeration.insertion : Enumeration := ⟨fun _ l => l, fun _ l => List.Perm.refl l⟩

namespace Graph

def edgesOf (g : Graph) (observer : NodeId) : Edges := (g.dependencies.lookup observer).getD ∅

def observersOf (g : Graph) (observable : NodeId) : IdSet :=
  (g.dependents.lookup observable).getD ∅

def nodeVersion (g : Graph) (n : NodeId) : Option ℕ := (g.nodeMeta.lookup n).map NodeMeta.version

/-- An absent node compares equal to a never-written one. -/
def version (g : Graph) (n : NodeId) : ℕ := (g.nodeVersion n).getD 0

def nodeKind (g : Graph) (n : NodeId) : Option NodeKind := (g.nodeMeta.lookup n).map NodeMeta.kind

def dependencyCount (g : Graph) (n : NodeId) : ℕ := (g.edgesOf n).size
def observerCount (g : Graph) (n : NodeId) : ℕ := (g.observersOf n).size
def isObserved (g : Graph) (n : NodeId) : Bool := 0 < g.observerCount n

/-- The recount of the source's drift tests: edges by observer, edges by observable. -/
def walkEdgeCounts (g : Graph) : ℕ × ℕ :=
  (g.dependencies.total AList.size, g.dependents.total AList.size)

def walkObservedNodes (g : Graph) : ℕ := g.dependents.total fun o => if o.size = 0 then 0 else 1

def allocateNode (g : Graph) (kind : NodeKind) : Graph :=
  let nodes := g.nodeMeta.insert g.nextNode ⟨0, kind⟩
  { g with
    nextNode := g.nextNode + 1
    nodeMeta := nodes
    counters := g.counters.nodeCreated kind nodes.size }

def registerObserver (g : Graph) (n : NodeId) : Graph :=
  { g with observers := g.observers.insert n () }

def unregisterObserver (g : Graph) (n : NodeId) : Graph :=
  { g with observers := g.observers.erase n }

def bumpVersion (g : Graph) (n : NodeId) : Graph :=
  match g.nodeMeta.lookup n with
  | none => g
  | some m => { g with nodeMeta := g.nodeMeta.insert n { m with version := m.version + 1 } }

/-- The path of a read that would close a cycle: the running observers from the
offending node inwards, then that node again. -/
def cycleCheck (g : Graph) (observable : NodeId) : Option (List NodeId) :=
  if observable ∈ g.activeComputations then
    some (g.stack.reverse.dropWhile (· ≠ observable) ++ [observable])
  else none

/-- The edge insertion of `try_observe`; the flag says that `observable` gained
its first observer. -/
def recordEdge (g : Graph) (observer observable : NodeId) : Graph × Bool :=
  let edges := g.edgesOf observer
  let existing := edges.lookup observable
  let watchers := g.observersOf observable
  let becameObserved := watchers.size = 0
  ({ g with
      dependencies := g.dependencies.insert observer (edges.insert observable (g.version observable))
      dependents := g.dependents.insert observable (watchers.insert observer ())
      observedNodes := if becameObserved then g.observedNodes + 1 else g.observedNodes
      counters := if existing.isNone then g.counters.edgeAdded else g.counters }, becameObserved)

/-- `try_observe`: an error carries the cycle the read would close. -/
def tryObserve (g : Graph) (untracked : Bool) (observable : NodeId) :
    Except (List NodeId) (Graph × Bool) :=
  match g.cycleCheck observable with
  | some path => .error path
  | none =>
    if untracked then .ok (g, false)
    else
      match g.stack with
      | [] => .ok (g, false)
      | observer :: _ => .ok (g.recordEdge observer observable)

def decObserved (g : Graph) : Graph :=
  { g with
    observedNodes := g.observedNodes - 1
    counters := { g.counters with truncated := g.counters.truncated || g.observedNodes < 1 } }

/-- One turn of the loop over the dropped dependencies: the observable forgets
the observer, and is collected when that was its last one. -/
def forgetObserver (observer : NodeId) (acc : Graph × List NodeId) (observable : NodeId) :
    Graph × List NodeId :=
  match acc.1.dependents.lookup observable with
  | none => acc
  | some watchers =>
    let left := watchers.erase observer
    let g := { acc.1 with dependents := acc.1.dependents.insert observable left }
    if left.size = 0 then (g.decObserved, acc.2 ++ [observable]) else (g, acc.2)

/-- Drops every edge of `observer`; returns the nodes left without observers. -/
def clearObserverDependencies (env : Enumeration) (g : Graph) (observer : NodeId)
    (retainTable : Bool) : Graph × List NodeId :=
  match g.dependencies.lookup observer with
  | none => (g, [])
  | some edges =>
    if edges.size = 0 then
      (if retainTable then g else { g with dependencies := g.dependencies.erase observer }, [])
    else
      let observed := env.order g edges.keys
      let cleared := { g with
        dependencies :=
          if retainTable then g.dependencies.insert observer ∅ else g.dependencies.erase observer
        counters := g.counters.removeEdges observed.length }
      observed.foldl (forgetObserver observer) (cleared, [])

def removeDependency (n : NodeId) (g : Graph) (observer : NodeId) : Graph :=
  match g.dependencies.lookup observer with
  | none => g
  | some edges =>
    let left := edges.erase n
    { g with
      dependencies :=
        if left.size = 0 then g.dependencies.erase observer else g.dependencies.insert observer left }

/-- `dispose` from the node's own dependents to its registration. -/
def unlink (env : Enumeration) (g : Graph) (n : NodeId) : Graph :=
  let watchers := g.observersOf n
  let incoming := env.order g watchers.keys
  let g := { g with dependents := g.dependents.erase n }
  let g := if watchers.size = 0 then g else g.decObserved
  let g := { g with counters := g.counters.removeEdges incoming.length }
  let g := incoming.foldl (removeDependency n) g
  g.unregisterObserver n

/-- The second half of `dispose`: the node's own dependents, registration and metadata. -/
def retire (env : Enumeration) (g : Graph) (n : NodeId) : Graph :=
  let g := g.unlink env n
  match g.nodeMeta.lookup n with
  | none => g
  | some m =>
    { g with nodeMeta := g.nodeMeta.erase n, counters := g.counters.nodeDisposed m.kind }

def dispose (env : Enumeration) (g : Graph) (n : NodeId) : Graph × List NodeId :=
  let cleared := g.clearObserverDependencies env n false
  (cleared.1.retire env n, cleared.2)

/-- `retire` of a node whose disposal panics at the table of hooks: what is removed is not
counted. -/
def retireUncounted (env : Enumeration) (g : Graph) (n : NodeId) : Graph :=
  { g.unlink env n with nodeMeta := g.nodeMeta.erase n }

/-- The drop of the last handle of a node while the table of hooks is borrowed: its disposal
panics where it first comes to that table, which is where it notes that a dependency has no
observer left, and otherwise where it unregisters the node's own hooks. -/
def disposeBorrowed (env : Enumeration) (g : Graph) (n : NodeId) : Graph :=
  let cleared := (g.unregisterObserver n).clearObserverDependencies env n false
  if cleared.2.isEmpty then cleared.1.retireUncounted env n else cleared.1

/-- `dispose` of a node with hooks that own the last handle of another one:
`unregister_observation_hooks` drops them while it borrows the table, and the panic leaves
`dispose` too before the node is counted. -/
def disposeTorn (env : Enumeration) (g : Graph) (n owned : NodeId) : Graph :=
  ((g.clearObserverDependencies env n false).1.retireUncounted env n).disposeBorrowed env owned

/-- The opening of `run_in_context`, for an observer that is not already running. -/
def enterContext (env : Enumeration) (g : Graph) (observer : NodeId) : Graph × List NodeId :=
  let started := { g with activeComputations := observer :: g.activeComputations }
  let cleared := started.clearObserverDependencies env observer true
  ({ cleared.1 with stack := observer :: cleared.1.stack }, cleared.2)

def exitContext (g : Graph) : Graph :=
  match g.stack with
  | [] => g
  | n :: rest => { g with stack := rest, activeComputations := g.activeComputations.erase n }

end Graph

end Adaptite

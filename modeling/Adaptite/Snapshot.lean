import Adaptite.Base.Sorted
import Adaptite.LiveEdges

set_option autoImplicit false

namespace Adaptite

open Sorted

variable {V : Type} {env env' : Enumeration} {w : World V}

structure GraphNode where
  id : NodeId
  kind : NodeKind
  version : ℕ
  state : Option State
  dependencies : ℕ
  observers : ℕ
deriving DecidableEq

structure GraphEdge where
  observer : NodeId
  observable : NodeId
  version : ℕ
deriving DecidableEq

def GraphEdge.key (e : GraphEdge) : ℕ ×ₗ ℕ ×ₗ ℕ :=
  toLex (e.observer, toLex (e.observable, e.version))

structure GraphStats where
  liveNodes : ℕ
  liveEdges : ℕ
  observedNodes : ℕ
  queuedEffects : ℕ
  pendingJobs : ℕ
  flushDepth : ℕ
  flushEpoch : ℕ
  peakNodes : ℕ
  peakEdges : ℕ
  nodesCreated : ℕ
  nodesDisposed : ℕ
  edgesAdded : ℕ
  edgesRemoved : ℕ
  flushes : ℕ
  liveNodesByKind : NodeKind → ℕ

structure GraphSnapshot where
  nodes : List GraphNode
  edges : List GraphEdge
  stats : GraphStats

namespace GraphSnapshot

/-- `nodes` is a public field that a consumer may reorder or filter. -/
def node (s : GraphSnapshot) (id : NodeId) : Option GraphNode :=
  match binarySearchByKey GraphNode.id id s.nodes with
  | .ok index => s.nodes[index]?
  | .error _ => s.nodes.find? fun x => x.id = id

end GraphSnapshot

namespace World

/-- The hook of an observer is a thunk, a memo or an effect. -/
def nodeState (w : World V) (n : NodeId) : Option State :=
  if n ∈ w.graph.observers then
    ((w.computed n).map ComputedInner.state).or ((w.effects n).map EffectInner.state)
  else none

def graphStats (w : World V) : GraphStats where
  liveNodes := w.graph.nodeMeta.size
  liveEdges := w.graph.counters.liveEdges
  observedNodes := w.graph.observedNodes
  queuedEffects := w.queuedEffects
  pendingJobs := w.flush.pendingJobs.length
  flushDepth := w.flush.flushDepth
  flushEpoch := w.flush.flushEpoch
  peakNodes := w.graph.counters.peakNodes
  peakEdges := w.graph.counters.peakEdges
  nodesCreated := w.graph.counters.nodesCreated
  nodesDisposed := w.graph.counters.nodesDisposed
  edgesAdded := w.graph.counters.edgesAdded
  edgesRemoved := w.graph.counters.edgesRemoved
  flushes := w.flush.flushes
  liveNodesByKind := w.graph.counters.liveNodesByKind

def graphNode (w : World V) (n : NodeId) (entry : NodeMeta) : GraphNode where
  id := n
  kind := entry.kind
  version := entry.version
  state := w.nodeState n
  dependencies := w.graph.dependencyCount n
  observers := w.graph.observerCount n

def outgoing (env : Enumeration) (w : World V) (n : NodeId) : List GraphEdge :=
  (env.order w.graph (w.graph.edgesOf n).keys).filterMap fun d =>
    ((w.graph.edgesOf n).lookup d).map fun version => ⟨n, d, version⟩

def graphSnapshot (env : Enumeration) (w : World V) : GraphSnapshot :=
  let ids := env.order w.graph w.graph.nodeMeta.keys
  { nodes := sortBy GraphNode.id
      (ids.filterMap fun n => (w.graph.nodeMeta.lookup n).map (w.graphNode n))
    edges := sortBy GraphEdge.key (ids.flatMap (w.outgoing env))
    stats := w.graphStats }

end World

namespace GraphSnapshot

variable {s : GraphSnapshot} {n : NodeId} {x : GraphNode}

/-- A node that is answered is there, and where none is, no node has this id. -/
theorem node_spec (s : GraphSnapshot) (n : NodeId) :
    (∃ x, s.node n = some x ∧ x ∈ s.nodes ∧ x.id = n) ∨
      s.node n = none ∧ ∀ x ∈ s.nodes, x.id ≠ n := by
  unfold node
  cases hb : binarySearchByKey GraphNode.id n s.nodes with
  | ok i =>
    obtain ⟨x, hx, hn⟩ := binarySearchByKey_sound hb
    exact .inl ⟨x, hx, List.mem_of_getElem? hx, hn⟩
  | error i =>
    dsimp only
    cases hf : s.nodes.find? (fun x => x.id = n) with
    | none => exact .inr ⟨rfl, fun x hx => by simpa using List.find?_eq_none.mp hf x hx⟩
    | some x =>
      exact .inl ⟨x, rfl, List.mem_of_find?_eq_some hf, by simpa using List.find?_some hf⟩

end GraphSnapshot

namespace World

variable {n : NodeId} {e : GraphEdge}

theorem perm_nodes (env : Enumeration) (w : World V) : (w.graphSnapshot env).nodes.Perm
    (w.graph.nodeMeta.entries.map fun e => w.graphNode e.1 e.2) := by
  refine (perm_sortBy _ _).trans (((env.perm _ _).filterMap _).trans ?_)
  rw [AList.filterMap_keys]

theorem perm_outgoing (env : Enumeration) (w : World V) (n : NodeId) : (w.outgoing env n).Perm
    ((w.graph.edgesOf n).entries.map fun e => ⟨n, e.1, e.2⟩) := by
  refine ((env.perm _ _).filterMap _).trans ?_
  rw [AList.filterMap_keys fun d version => (⟨n, d, version⟩ : GraphEdge)]

theorem perm_edges (env : Enumeration) (w : World V) : (w.graphSnapshot env).edges.Perm
    (w.graph.nodeMeta.keys.flatMap fun n =>
      (w.graph.edgesOf n).entries.map fun e => ⟨n, e.1, e.2⟩) :=
  (perm_sortBy _ _).trans ((env.perm _ _).flatMap fun n _ => perm_outgoing env w n)

theorem mem_edges : e ∈ (w.graphSnapshot env).edges ↔ e.observer ∈ w.graph.nodeMeta ∧
    (w.graph.edgesOf e.observer).lookup e.observable = some e.version := by
  rw [(perm_edges env w).mem_iff, List.mem_flatMap]
  constructor
  · rintro ⟨n, hn, he⟩
    obtain ⟨d, hd, rfl⟩ := List.mem_map.mp he
    exact ⟨AList.mem_keys.mpr hn, AList.mem_lookup_iff.mpr hd⟩
  · rintro ⟨hn, he⟩
    exact ⟨e.observer, AList.mem_keys.mp hn,
      List.mem_map.mpr ⟨⟨e.observable, e.version⟩, AList.mem_lookup_iff.mp he, rfl⟩⟩

theorem nodup_ids (env : Enumeration) (w : World V) :
    ((w.graphSnapshot env).nodes.map GraphNode.id).Nodup := by
  refine ((perm_nodes env w).map GraphNode.id).nodup_iff.mpr ?_
  rw [List.map_map]
  exact w.graph.nodeMeta.keys_nodup

theorem nodup_edges (env : Enumeration) (w : World V) : (w.graphSnapshot env).edges.Nodup := by
  refine (perm_edges env w).nodup_iff.mpr (List.nodup_flatMap.mpr ⟨fun n _ => ?_, ?_⟩)
  · refine List.Nodup.map_on (fun a _ b _ h => ?_) (w.graph.edgesOf n).nodupKeys.nodup
    cases a
    cases b
    cases h
    rfl
  · refine w.graph.nodeMeta.keys_nodup.imp fun {a b} hab e ha hb => hab ?_
    obtain ⟨_, -, rfl⟩ := List.mem_map.mp ha
    obtain ⟨_, -, h⟩ := List.mem_map.mp hb
    exact (congrArg GraphEdge.observer h).symm

theorem key_injective : Function.Injective GraphEdge.key := by
  rintro ⟨o, d, v⟩ ⟨o', d', v'⟩ h
  cases h
  rfl

theorem nodup_keys (env : Enumeration) (w : World V) :
    ((w.graphSnapshot env).edges.map GraphEdge.key).Nodup :=
  (nodup_edges env w).map key_injective

theorem node_of_perm {l : List GraphNode} (h : l.Perm (w.graphSnapshot env).nodes) (n : NodeId) :
    ({ w.graphSnapshot env with nodes := l } : GraphSnapshot).node n =
      (w.graph.nodeMeta.lookup n).map (w.graphNode n) := by
  have hmem : ∀ x, x ∈ l ↔ ∃ e ∈ w.graph.nodeMeta.entries, w.graphNode e.1 e.2 = x := fun x => by
    rw [(h.trans (perm_nodes env w)).mem_iff, List.mem_map]
  rcases GraphSnapshot.node_spec { w.graphSnapshot env with nodes := l } n with
    ⟨x, hx, hl, hn⟩ | ⟨hx, hl⟩
  · rw [hx]
    obtain ⟨e, he, rfl⟩ := (hmem x).mp hl
    have hlookup : w.graph.nodeMeta.lookup n = some e.2 :=
      hn ▸ AList.mem_lookup_iff.mpr he
    rw [hlookup]
    subst hn
    rfl
  · rw [hx]
    cases hlookup : w.graph.nodeMeta.lookup n with
    | none => rfl
    | some m =>
      exact absurd rfl (hl _ ((hmem _).mpr ⟨⟨n, m⟩, AList.mem_lookup_iff.mp hlookup, rfl⟩))

/-- The walk goes through hash maps, but a snapshot is the same in whatever order they are
iterated: it lists the nodes that are there and their edges, each once and in order. It can be
searched as it is, and where a consumer brings its list into another order, or leaves nodes
out, the answer for a node is still what that list has. -/
theorem snapshot_lists_the_graph (env env' : Enumeration) (w : World V) :
    w.graphSnapshot env' = w.graphSnapshot env ∧
    ((w.graphSnapshot env).nodes.Pairwise fun a b => a.id < b.id) ∧
    ((w.graphSnapshot env).edges.Pairwise fun a b => a.key < b.key) ∧
    (∀ e, e ∈ (w.graphSnapshot env).edges ↔ e.observer ∈ w.graph.nodeMeta ∧
      (w.graph.edgesOf e.observer).lookup e.observable = some e.version) ∧
    (∀ n ∈ w.graph.nodeMeta,
      ∃ i, binarySearchByKey GraphNode.id n (w.graphSnapshot env).nodes = .ok i) ∧
    (∀ (l : List GraphNode), l.Perm (w.graphSnapshot env).nodes →
      ∀ n, ({ w.graphSnapshot env with nodes := l } : GraphSnapshot).node n =
        (w.graph.nodeMeta.lookup n).map (w.graphNode n)) ∧
    ∀ (l : List GraphNode) n,
      ({ w.graphSnapshot env with nodes := l } : GraphSnapshot).node n = none ↔
        ∀ x ∈ l, x.id ≠ n := by
  have hids : ∀ env : Enumeration, ((env.order w.graph w.graph.nodeMeta.keys).filterMap fun n =>
      (w.graph.nodeMeta.lookup n).map (w.graphNode n)).map GraphNode.id |>.Nodup := fun env =>
    ((perm_sortBy GraphNode.id _).map GraphNode.id).nodup_iff.mp (nodup_ids env w)
  have hkeys : ∀ env : Enumeration, (((env.order w.graph w.graph.nodeMeta.keys).flatMap
      (w.outgoing env)).map GraphEdge.key).Nodup := fun env =>
    ((perm_sortBy GraphEdge.key _).map GraphEdge.key).nodup_iff.mp (nodup_keys env w)
  refine ⟨?_, pairwise_sortBy (hids env), pairwise_sortBy (hkeys env), fun e => mem_edges,
    fun n hn => ?_, fun l hl n => node_of_perm hl n, fun l n => ?_⟩
  · have horder : (env'.order w.graph w.graph.nodeMeta.keys).Perm
        (env.order w.graph w.graph.nodeMeta.keys) := (env'.perm _ _).trans (env.perm _ _).symm
    have hnodes : (w.graphSnapshot env').nodes = (w.graphSnapshot env).nodes :=
      sortBy_congr (horder.filterMap _) (hids env')
    have hedges : (w.graphSnapshot env').edges = (w.graphSnapshot env).edges :=
      sortBy_congr (horder.flatMap fun n _ =>
        (perm_outgoing env' w n).trans (perm_outgoing env w n).symm) (hkeys env')
    exact congrArg₂ (fun nodes edges => (⟨nodes, edges, w.graphStats⟩ : GraphSnapshot))
      hnodes hedges
  · obtain ⟨m, hm⟩ := Option.isSome_iff_exists.mp (AList.lookup_isSome.mpr hn)
    have hmem : w.graphNode n m ∈ (w.graphSnapshot env).nodes :=
      (perm_nodes env w).mem_iff.mpr
        (List.mem_map.mpr ⟨⟨n, m⟩, AList.mem_lookup_iff.mp hm, rfl⟩)
    exact binarySearchByKey_complete (pairwise_sortBy (hids env)) hmem
  · rcases GraphSnapshot.node_spec { w.graphSnapshot env with nodes := l } n with
      ⟨x, hx, hl, hn⟩ | ⟨hx, hl⟩
    · rw [hx]
      exact ⟨fun h => absurd h (Option.some_ne_none x), fun h => absurd hn (h x hl)⟩
    · exact ⟨fun _ => hl, fun _ => hx⟩

end World

end Adaptite

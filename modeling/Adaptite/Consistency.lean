import Adaptite.GraphEdges
import Adaptite.Base.Runs

set_option autoImplicit false

namespace Adaptite

namespace Graph

def nodesOfKind (g : Graph) (kind : NodeKind) : ℕ :=
  g.nodeMeta.total fun m => if m.kind = kind then 1 else 0

structure Indexed (g : Graph) : Prop where
  inverse : ∀ o d, d ∈ g.edgesOf o ↔ o ∈ g.observersOf d
  irrefl : ∀ n, n ∉ g.edgesOf n
  outgoing : g.counters.liveEdges = g.walkEdgeCounts.1
  incoming : g.walkEdgeCounts.1 = g.walkEdgeCounts.2
  balance : g.counters.edgesAdded = g.counters.liveEdges + g.counters.edgesRemoved
  observed : g.observedNodes = g.walkObservedNodes
  nodes : g.counters.nodesCreated = g.nodeMeta.size + g.counters.nodesDisposed
  gauges : ∀ kind, g.counters.liveNodesByKind kind = g.nodesOfKind kind
  exact : g.counters.truncated = false
  below : ∀ n ∈ g.nodeMeta, n < g.nextNode

structure Consistent (g : Graph) : Prop extends g.Indexed where
  running : g.activeComputations = g.stack
  nodup : g.stack.Nodup

theorem consistent_empty : ({} : Graph).Consistent := by
  refine ⟨?_, rfl, List.nodup_nil⟩
  constructor <;> simp [edgesOf, observersOf, walkEdgeCounts, walkObservedNodes, nodesOfKind]

theorem mem_observersOf_iff (g : Graph) (d o : NodeId) :
    o ∈ g.observersOf d ↔ ∃ w, g.dependents.lookup d = some w ∧ o ∈ w := by
  unfold observersOf
  cases g.dependents.lookup d <;> simp

/-- Forgetting an observer that is there takes one off the incoming count, and
the observed count follows. -/
theorem forgetObserver_counts (o : NodeId) (acc : Graph × List NodeId) (d : NodeId)
    (hd : o ∈ acc.1.observersOf d) (hw : acc.1.observedNodes = acc.1.walkObservedNodes) :
    let g := (forgetObserver o acc d).1
    g.observedNodes = g.walkObservedNodes ∧ g.walkEdgeCounts.2 + 1 = acc.1.walkEdgeCounts.2 ∧
      g.counters = acc.1.counters := by
  obtain ⟨w, hl, ho⟩ := (mem_observersOf_iff _ _ _).mp hd
  have hsize := AList.size_erase_of_mem ho
  have hedges := AList.total_insert_add AList.size d (w.erase o)
    acc.1.dependents ∅ rfl
  have hnodes := AList.total_insert_add (fun s : IdSet => if s.size = 0 then 0 else 1) d
    (w.erase o) acc.1.dependents ∅ rfl
  simp only [hl, Option.getD_some] at hedges hnodes
  have hpos : w.size ≠ 0 := by omega
  rw [if_neg hpos] at hnodes
  unfold walkObservedNodes at hw
  unfold forgetObserver
  rw [hl]
  dsimp only
  by_cases hz : (w.erase o).size = 0
  · rw [if_pos hz] at hnodes ⊢
    have hone : ¬ acc.1.observedNodes < 1 := by omega
    refine ⟨?_, ?_, ?_⟩
    · change acc.1.observedNodes - 1 = AList.total _ (acc.1.dependents.insert d (w.erase o))
      omega
    · change AList.total _ (acc.1.dependents.insert d (w.erase o)) + 1 = acc.1.dependents.total _
      omega
    · simp [decObserved, hone]
  · rw [if_neg hz] at hnodes ⊢
    refine ⟨?_, ?_, rfl⟩
    · change acc.1.observedNodes = AList.total _ (acc.1.dependents.insert d (w.erase o))
      omega
    · change AList.total _ (acc.1.dependents.insert d (w.erase o)) + 1 = acc.1.dependents.total _
      omega

theorem forgetAll_counts (o : NodeId) (l : List NodeId) (acc : Graph × List NodeId)
    (hn : l.Nodup) (hl : ∀ d ∈ l, o ∈ acc.1.observersOf d)
    (hw : acc.1.observedNodes = acc.1.walkObservedNodes) :
    let g := (l.foldl (forgetObserver o) acc).1
    g.observedNodes = g.walkObservedNodes ∧
      g.walkEdgeCounts.2 + l.length = acc.1.walkEdgeCounts.2 ∧ g.counters = acc.1.counters := by
  induction l generalizing acc with
  | nil => exact ⟨hw, rfl, rfl⟩
  | cons d l ih =>
    rw [List.nodup_cons] at hn
    obtain ⟨h1, h2, h3⟩ := forgetObserver_counts o acc d (hl d (by simp)) hw
    have hrest : ∀ x ∈ l, o ∈ (forgetObserver o acc d).1.observersOf x := by
      intro x hx
      rw [mem_observersOf_forgetObserver]
      refine ⟨hl x (by simp [hx]), ?_⟩
      rintro ⟨rfl, _⟩
      exact hn.1 hx
    obtain ⟨i1, i2, i3⟩ := ih (forgetObserver o acc d) hn.2 hrest h1
    refine ⟨i1, ?_, i3.trans h3⟩
    simp only [List.foldl_cons, List.length_cons]
    omega

variable {env : Enumeration} {g : Graph}

theorem Indexed.clear (h : g.Indexed) (o : NodeId) (retain : Bool) :
    (g.clearObserverDependencies env o retain).1.Indexed := by
  obtain ⟨f1, f2, f3, f4, f5⟩ := clear_frame env g o retain
  have hedges := edgesOf_clear env g o retain
  have hwatch := mem_observersOf_clear env g o retain
  have hinv : ∀ x d, d ∈ (g.clearObserverDependencies env o retain).1.edgesOf x ↔
      x ∈ (g.clearObserverDependencies env o retain).1.observersOf d := by
    intro x d
    rw [hedges, hwatch, ← h.inverse x d]
    by_cases hx : x = o
    · subst hx; simp
    · simp [hx]
  have hirr : ∀ n, n ∉ (g.clearObserverDependencies env o retain).1.edgesOf n := by
    intro n
    rw [hedges]
    split
    · simp
    · exact h.irrefl n
  -- What is left are the counters, which move only when there was an edge to drop.
  suffices hc : let k := (g.clearObserverDependencies env o retain).1
      k.counters.liveEdges = k.walkEdgeCounts.1 ∧ k.walkEdgeCounts.1 = k.walkEdgeCounts.2 ∧
      k.counters.edgesAdded = k.counters.liveEdges + k.counters.edgesRemoved ∧
      k.observedNodes = k.walkObservedNodes ∧ k.counters.nodesCreated = g.counters.nodesCreated ∧
      k.counters.nodesDisposed = g.counters.nodesDisposed ∧
      k.counters.liveNodesByKind = g.counters.liveNodesByKind ∧ k.counters.truncated = false by
    obtain ⟨c1, c2, c3, c4, c5, c6, c7, c8⟩ := hc
    refine ⟨hinv, hirr, c1, c2, c3, c4, ?_, fun k => ?_, c8, ?_⟩
    · rw [c5, c6, f1]; exact h.nodes
    · rw [c7, h.gauges k]; simp [nodesOfKind, f1]
    · rw [f1, f5]; exact h.below
  have hsame : ∀ k : Graph, k.counters = g.counters → k.dependents = g.dependents →
      k.observedNodes = g.observedNodes → k.walkEdgeCounts.1 = g.walkEdgeCounts.1 →
      k.counters.liveEdges = k.walkEdgeCounts.1 ∧ k.walkEdgeCounts.1 = k.walkEdgeCounts.2 ∧
      k.counters.edgesAdded = k.counters.liveEdges + k.counters.edgesRemoved ∧
      k.observedNodes = k.walkObservedNodes ∧ k.counters.nodesCreated = g.counters.nodesCreated ∧
      k.counters.nodesDisposed = g.counters.nodesDisposed ∧
      k.counters.liveNodesByKind = g.counters.liveNodesByKind ∧ k.counters.truncated = false := by
    intro k e1 e2 e3 e4
    have e5 : k.walkEdgeCounts.2 = g.walkEdgeCounts.2 := by simp [walkEdgeCounts, e2]
    have e6 : k.walkObservedNodes = g.walkObservedNodes := by simp [walkObservedNodes, e2]
    rw [e1, e3, e4, e5, e6]
    exact ⟨h.outgoing, h.incoming, h.balance, h.observed, rfl, rfl, rfl, h.exact⟩
  unfold clearObserverDependencies
  split
  · exact hsame g rfl rfl rfl rfl
  · rename_i edges hl
    dsimp only
    split
    · rename_i hz
      cases retain with
      | true => exact hsame g rfl rfl rfl rfl
      | false =>
        refine hsame _ rfl rfl rfl ?_
        have := AList.total_of_lookup AList.size hl
        change AList.total _ (g.dependencies.erase o) = AList.total _ g.dependencies
        omega
    · set observed := env.order g edges.keys with hobs
      have hlen : observed.length = edges.size := by
        rw [hobs, (env.perm g edges.keys).length_eq, AList.length_keys]
      have hnd : observed.Nodup := (env.perm g edges.keys).nodup_iff.mpr edges.keys_nodup
      set start : Graph := { g with
        dependencies := if retain then g.dependencies.insert o ∅ else g.dependencies.erase o
        counters := g.counters.removeEdges observed.length } with hstart
      have hmem : ∀ d ∈ observed, o ∈ start.observersOf d := by
        intro d hd
        rw [hobs, (env.perm g edges.keys).mem_iff, AList.mem_keys.symm] at hd
        have : d ∈ g.edgesOf o := by simpa [edgesOf, hl] using hd
        exact (h.inverse o d).mp this
      obtain ⟨w1, w2, w3⟩ := forgetAll_counts o observed (start, []) hnd hmem h.observed
      have hd := (forgetAll_frame o observed (start, [])).1
      have hout : AList.total AList.size start.dependencies + edges.size =
          g.walkEdgeCounts.1 := by
        have herase := AList.total_of_lookup AList.size hl
        have hinsert := AList.total_insert AList.size o ∅ g.dependencies
        change AList.total _ (if retain then g.dependencies.insert o ∅ else g.dependencies.erase o)
          + _ = g.dependencies.total _
        cases retain with
        | true => simp only [↓reduceIte]; simp only [AList.size_empty] at hinsert; omega
        | false => simp only [Bool.false_eq_true, ↓reduceIte]; omega
      have hout' : (observed.foldl (forgetObserver o) (start, [])).1.walkEdgeCounts.1 + edges.size =
          g.walkEdgeCounts.1 := by
        simp only [walkEdgeCounts, hd]; exact hout
      have hin : (start, ([] : List NodeId)).1.walkEdgeCounts.2 = g.walkEdgeCounts.2 := rfl
      have e1 := h.outgoing
      have e2 := h.incoming
      have e3 := h.balance
      have hfit : ¬ g.counters.liveEdges < observed.length := by omega
      rw [w3]
      refine ⟨?_, ?_, ?_, w1, rfl, rfl, rfl, ?_⟩
      · change g.counters.liveEdges - observed.length = _
        omega
      · omega
      · change g.counters.edgesAdded =
          g.counters.liveEdges - observed.length + (g.counters.edgesRemoved + observed.length)
        omega
      · change (g.counters.truncated || decide (g.counters.liveEdges < observed.length)) = false
        simp [h.exact, hfit]

/-- Each incoming edge removed from its observer takes one off the outgoing count. -/
theorem removeAll_counts (n : NodeId) (l : List NodeId) (g : Graph) (hn : l.Nodup)
    (hl : ∀ o ∈ l, n ∈ g.edgesOf o) :
    (l.foldl (removeDependency n) g).walkEdgeCounts.1 + l.length = g.walkEdgeCounts.1 := by
  induction l generalizing g with
  | nil => rfl
  | cons o l ih =>
    rw [List.nodup_cons] at hn
    have hrest : ∀ x ∈ l, n ∈ (removeDependency n g o).edgesOf x := by
      intro x hx
      rw [edgesOf_removeDependency, if_neg]
      · exact hl x (by simp [hx])
      · rintro rfl; exact hn.1 hx
    have hstep : (removeDependency n g o).walkEdgeCounts.1 + 1 = g.walkEdgeCounts.1 := by
      have hmem := hl o (by simp)
      unfold edgesOf at hmem
      cases hlook : g.dependencies.lookup o with
      | none => simp [hlook] at hmem
      | some edges =>
        simp only [hlook, Option.getD_some] at hmem
        have hsize := AList.size_erase_of_mem hmem
        have herase := AList.total_of_lookup AList.size hlook
        have hinsert := AList.total_insert AList.size o (edges.erase n)
          g.dependencies
        unfold removeDependency walkEdgeCounts
        rw [hlook]
        dsimp only
        by_cases hz : (edges.erase n).size = 0
        · rw [if_pos hz]; omega
        · rw [if_neg hz]; omega
    have := ih (removeDependency n g o) hn.2 hrest
    simp only [List.foldl_cons, List.length_cons]
    omega

theorem nodesOfKind_erase {n : NodeId} {m : NodeMeta} (hm : g.nodeMeta.lookup n = some m)
    (kind : NodeKind) : g.nodesOfKind kind =
      (if m.kind = kind then 1 else 0) + AList.total
        (fun m : NodeMeta => if m.kind = kind then 1 else 0) (g.nodeMeta.erase n) :=
  AList.total_of_lookup (fun m : NodeMeta => if m.kind = kind then 1 else 0) hm

/-- The edges that end at the node go, and are counted, while the node is still listed. -/
theorem Indexed.unlink (h : g.Indexed) (env : Enumeration) (n : NodeId) (hn : g.edgesOf n = ∅) :
    (g.unlink env n).Indexed ∧ (g.unlink env n).counters.nodesCreated = g.counters.nodesCreated ∧
      (g.unlink env n).counters.nodesDisposed = g.counters.nodesDisposed := by
  obtain ⟨f1, f2, f3, f4, f5, f6, f7⟩ := unlink_frame env g n
  set watchers := g.observersOf n with hw
  set incoming := env.order g watchers.keys with hinc
  have hlen : incoming.length = watchers.size := by
    rw [hinc, (env.perm g _).length_eq, AList.length_keys]
  have hnd : incoming.Nodup := (env.perm g _).nodup_iff.mpr watchers.keys_nodup
  have hmem : ∀ x, x ∈ incoming ↔ x ∈ watchers := by
    intro x
    rw [hinc, (env.perm g _).mem_iff, AList.mem_keys]
  have hedges := AList.total_erase_add AList.size n g.dependents ∅ rfl
  have hnodes := AList.total_erase_add (fun s : IdSet => if s.size = 0 then 0 else 1) n
    g.dependents ∅ rfl
  change _ + watchers.size = g.walkEdgeCounts.2 at hedges
  change _ + (if watchers.size = 0 then 0 else 1) = g.walkObservedNodes at hnodes
  have counts : let k := g.unlink env n
      k.counters.liveEdges = k.walkEdgeCounts.1 ∧ k.walkEdgeCounts.1 = k.walkEdgeCounts.2 ∧
      k.counters.edgesAdded = k.counters.liveEdges + k.counters.edgesRemoved ∧
      k.observedNodes = k.walkObservedNodes ∧ k.counters.nodesCreated = g.counters.nodesCreated ∧
      k.counters.nodesDisposed = g.counters.nodesDisposed ∧
      k.counters.liveNodesByKind = g.counters.liveNodesByKind ∧ k.counters.truncated = false := by
    set g₁ : Graph := if watchers.size = 0 then { g with dependents := g.dependents.erase n }
      else ({ g with dependents := g.dependents.erase n } : Graph).decObserved with hg₁
    have hstart : g₁.dependencies = g.dependencies ∧ g₁.nodeMeta = g.nodeMeta ∧
        g₁.dependents = g.dependents.erase n ∧ g₁.observedNodes = g₁.walkObservedNodes ∧
        g₁.counters = g.counters := by
      have ho := h.observed
      rw [hg₁]
      by_cases hz : watchers.size = 0
      · rw [if_pos hz] at hnodes ⊢
        refine ⟨rfl, rfl, rfl, ?_, rfl⟩
        change g.observedNodes = AList.total _ (g.dependents.erase n)
        omega
      · rw [if_neg hz] at hnodes ⊢
        refine ⟨rfl, rfl, rfl, ?_, ?_⟩
        · change g.observedNodes - 1 = AList.total _ (g.dependents.erase n)
          omega
        · have : ¬ g.observedNodes < 1 := by omega
          simp [decObserved, this]
    obtain ⟨s1, s2, s3, s4, s5⟩ := hstart
    set g₂ : Graph := { g₁ with counters := g₁.counters.removeEdges incoming.length } with hg₂
    obtain ⟨deps, hfold⟩ := removeAll_frame g₂ n incoming
    have hcount := removeAll_counts n incoming g₂ hnd (by
      intro o ho
      have : g₂.edgesOf o = g.edgesOf o := by simp [edgesOf, hg₂, s1]
      rw [this]
      exact (h.inverse o n).mpr ((hmem o).mp ho))
    have hout : g₂.walkEdgeCounts.1 = g.walkEdgeCounts.1 := by simp [walkEdgeCounts, hg₂, s1]
    have hin : g₂.walkEdgeCounts.2 = AList.total AList.size
        (g.dependents.erase n) := by simp [walkEdgeCounts, hg₂, s3]
    have e1 := h.outgoing
    have e2 := h.incoming
    have e3 := h.balance
    have hfit : ¬ g.counters.liveEdges < incoming.length := by omega
    have hk : g.unlink env n = (incoming.foldl (removeDependency n) g₂).unregisterObserver n := rfl
    rw [hk]
    rw [hfold] at hcount ⊢
    have hin' : ({ g₂ with dependencies := deps } : Graph).walkEdgeCounts.2 =
      g₂.walkEdgeCounts.2 := rfl
    refine ⟨?_, ?_, ?_, ?_, ?_, ?_, ?_, ?_⟩
    · change (g₁.counters.removeEdges incoming.length).liveEdges =
        ({ g₂ with dependencies := deps } : Graph).walkEdgeCounts.1
      rw [s5]
      change g.counters.liveEdges - incoming.length = _
      omega
    · change ({ g₂ with dependencies := deps } : Graph).walkEdgeCounts.1 =
        ({ g₂ with dependencies := deps } : Graph).walkEdgeCounts.2
      omega
    · change (g₁.counters.removeEdges incoming.length).edgesAdded =
        (g₁.counters.removeEdges incoming.length).liveEdges +
        (g₁.counters.removeEdges incoming.length).edgesRemoved
      rw [s5]
      change g.counters.edgesAdded =
        g.counters.liveEdges - incoming.length + (g.counters.edgesRemoved + incoming.length)
      omega
    · exact s4
    · change g₁.counters.nodesCreated = _; rw [s5]
    · change g₁.counters.nodesDisposed = _; rw [s5]
    · change g₁.counters.liveNodesByKind = _; rw [s5]
    · change (g₁.counters.truncated || decide (g₁.counters.liveEdges < incoming.length)) = false
      rw [s5]
      simp [h.exact, hfit]
  obtain ⟨b2, b3, b4, b5, b6, b7, b8, b9⟩ := counts
  have hinv : ∀ o d, d ∈ (g.unlink env n).edgesOf o ↔ o ∈ (g.unlink env n).observersOf d := by
    intro o d
    rw [f7]
    have ho : (g.unlink env n).observersOf d = if d = n then ∅ else g.observersOf d := by
      unfold observersOf
      rw [f2]
      by_cases hd : d = n
      · subst hd; simp
      · simp [hd]
    rw [ho]
    by_cases hd : d = n
    · subst hd
      simp only [↓reduceIte, AList.notMem_empty, iff_false]
      split
      · simp [AList.mem_erase]
      · rename_i hx
        rw [h.inverse]; exact hx
    · simp only [hd, ↓reduceIte]
      split
      · rw [AList.mem_erase, ← h.inverse]; simp [hd]
      · exact h.inverse o d
  have hirr' : ∀ x, x ∉ (g.unlink env n).edgesOf x := by
    intro x
    rw [f7]
    split
    · rw [AList.mem_erase]; exact fun hx => h.irrefl x hx.2
    · exact h.irrefl x
  refine ⟨⟨hinv, hirr', b2, b3, b4, b5, ?_, fun kind => ?_, b9, ?_⟩, b6, b7⟩
  · rw [b6, b7, f1]; exact h.nodes
  · rw [b8, h.gauges kind]; simp [nodesOfKind, f1]
  · rw [f1, f6]; exact h.below

theorem Indexed.unlist (h : g.Indexed) {n : NodeId} {m : NodeMeta}
    (hm : g.nodeMeta.lookup n = some m) : ({ g with
      nodeMeta := g.nodeMeta.erase n, counters := g.counters.nodeDisposed m.kind } : Graph).Indexed := by
  have hin : n ∈ g.nodeMeta := AList.lookup_isSome.mp (Option.isSome_of_eq_some hm)
  have hsize := AList.size_erase_of_mem hin
  have hn := h.nodes
  refine ⟨h.inverse, h.irrefl, h.outgoing, h.incoming, h.balance, h.observed, ?_, fun kind => ?_,
    ?_, ?_⟩
  · change g.counters.nodesCreated = (g.nodeMeta.erase n).size + (g.counters.nodesDisposed + 1)
    omega
  · have hkind := nodesOfKind_erase hm kind
    change Function.update g.counters.liveNodesByKind m.kind
      (g.counters.liveNodesByKind m.kind - 1) kind = AList.total _ (g.nodeMeta.erase n)
    have hg := h.gauges kind
    by_cases hkk : m.kind = kind
    · rw [if_pos hkk] at hkind
      subst hkk
      rw [Function.update_self]
      omega
    · rw [if_neg hkk] at hkind
      rw [Function.update_of_ne (Ne.symm hkk)]
      omega
  · have hkind := nodesOfKind_erase hm m.kind
    have hg := h.gauges m.kind
    have : ¬ g.counters.liveNodesByKind m.kind < 1 := by simp at hkind; omega
    change (g.counters.truncated || decide (g.counters.liveNodesByKind m.kind < 1)) = false
    rw [h.exact]
    simp [this]
  · exact fun x hx => h.below x (AList.mem_erase.mp hx).2

theorem Indexed.retire (h : g.Indexed) (n : NodeId) (hn : g.edgesOf n = ∅) :
    (g.retire env n).Indexed := by
  have hk := (h.unlink env n hn).1
  unfold Graph.retire
  dsimp only
  split
  · exact hk
  · rename_i m hm
    exact hk.unlist hm

theorem Indexed.dispose (h : g.Indexed) (n : NodeId) : (g.dispose env n).1.Indexed := by
  refine (h.clear n false).retire n ?_
  rw [edgesOf_clear, if_pos rfl]

theorem Consistent.dispose (h : g.Consistent) (n : NodeId) : (g.dispose env n).1.Consistent := by
  obtain ⟨_, _, hs, ha, _⟩ := dispose_frame env g n
  refine ⟨h.toIndexed.dispose n, ?_, ?_⟩
  · rw [ha, hs]; exact h.running
  · rw [hs]; exact h.nodup

/-- The indexes and counters do not look at who is running or registered. -/
theorem Indexed.withRunning (h : g.Indexed) (st act : List NodeId) (obs : IdSet) :
    ({ g with stack := st, activeComputations := act, observers := obs } : Graph).Indexed :=
  ⟨h.inverse, h.irrefl, h.outgoing, h.incoming, h.balance, h.observed, h.nodes, h.gauges,
    h.exact, h.below⟩

theorem Consistent.enterContext (h : g.Consistent) (o : NodeId) (ho : o ∉ g.activeComputations) :
    (g.enterContext env o).1.Consistent := by
  obtain ⟨_, _, hs, ha, _⟩ := enterContext_frame env g o
  let entered : Graph := { g with activeComputations := o :: g.activeComputations }
  have hentered : entered.Indexed :=
    h.toIndexed.withRunning g.stack (o :: g.activeComputations) g.observers
  have hclear : (entered.clearObserverDependencies env o true).1.Indexed := hentered.clear o true
  refine ⟨hclear.withRunning (o :: _) _ _, ?_, ?_⟩
  · rw [ha, hs, h.running]
  · rw [hs, List.nodup_cons]
    exact ⟨h.running ▸ ho, h.nodup⟩

theorem Consistent.exitContext (h : g.Consistent) : g.exitContext.Consistent := by
  unfold Graph.exitContext
  cases hs : g.stack with
  | nil => exact h
  | cons n rest =>
    refine ⟨h.toIndexed.withRunning _ _ _, ?_, ?_⟩
    · change g.activeComputations.erase n = rest
      rw [h.running, hs, List.erase_cons_head]
    · have := h.nodup
      rw [hs, List.nodup_cons] at this
      exact this.2

theorem Consistent.allocateNode (h : g.Consistent) (kind : NodeKind) :
    (g.allocateNode kind).Consistent := by
  have hfresh : g.nextNode ∉ g.nodeMeta := fun hm => Nat.lt_irrefl _ (h.below _ hm)
  refine ⟨⟨h.inverse, h.irrefl, h.outgoing, h.incoming, h.balance, h.observed, ?_, ?_, h.exact,
    ?_⟩, h.running, h.nodup⟩
  · change g.counters.nodesCreated + 1 =
      (g.nodeMeta.insert g.nextNode ⟨0, kind⟩).size + g.counters.nodesDisposed
    rw [AList.size_insert_of_notMem hfresh]
    have := h.nodes
    omega
  · intro k
    change Function.update g.counters.liveNodesByKind kind (g.counters.liveNodesByKind kind + 1) k
      = AList.total _ (g.nodeMeta.insert g.nextNode ⟨0, kind⟩)
    rw [AList.total_insert, AList.erase_of_notMem hfresh]
    have hk := h.gauges k
    change _ = g.nodeMeta.total _ at hk
    by_cases hkk : k = kind
    · subst hkk
      rw [Function.update_self, if_pos rfl]
      omega
    · rw [Function.update_of_ne hkk, if_neg (Ne.symm hkk)]
      omega
  · intro n hn
    change n < g.nextNode + 1
    rcases (AList.mem_insert _).mp hn with rfl | hn
    · exact Nat.lt_succ_self _
    · exact Nat.lt_succ_of_lt (h.below n hn)

theorem Consistent.bumpVersion (h : g.Consistent) (n : NodeId) : (g.bumpVersion n).Consistent := by
  unfold Graph.bumpVersion
  cases hm : g.nodeMeta.lookup n with
  | none => exact h
  | some m =>
    have hin : n ∈ g.nodeMeta := AList.lookup_isSome.mp (Option.isSome_of_eq_some hm)
    refine ⟨⟨h.inverse, h.irrefl, h.outgoing, h.incoming, h.balance, h.observed, ?_, ?_, h.exact,
      ?_⟩, h.running, h.nodup⟩
    · change _ = (g.nodeMeta.insert n { m with version := m.version + 1 }).size + _
      rw [AList.size_insert_of_mem hin]
      exact h.nodes
    · intro k
      change _ = AList.total _ (g.nodeMeta.insert n { m with version := m.version + 1 })
      rw [AList.total_insert]
      exact (h.gauges k).trans (nodesOfKind_erase hm k)
    · intro x hx
      rcases (AList.mem_insert _).mp hx with rfl | hx
      · exact h.below x hin
      · exact h.below x hx

/-- A new edge is counted once on either side, and a repeated read moves no count. -/
theorem Consistent.recordEdge (h : g.Consistent) (o d : NodeId) (hne : o ≠ d) :
    (g.recordEdge o d).1.Consistent := by
  have hedges := fun x => edgesOf_recordEdge g o x d
  have hwatch := observersOf_recordEdge g o d
  have hmem : d ∈ g.edgesOf o ↔ o ∈ g.observersOf d := h.inverse o d
  have hout := AList.total_insert_add AList.size o
    ((g.edgesOf o).insert d (g.version d)) g.dependencies ∅ rfl
  have hin := AList.total_insert_add AList.size d ((g.observersOf d).insert o ()) g.dependents ∅ rfl
  have hnodes := AList.total_insert_add (fun s : IdSet => if s.size = 0 then 0 else 1) d
    ((g.observersOf d).insert o ()) g.dependents ∅ rfl
  change _ + (g.edgesOf o).size = g.walkEdgeCounts.1 + _ at hout
  change _ + (g.observersOf d).size = g.walkEdgeCounts.2 + _ at hin
  change _ + (if (g.observersOf d).size = 0 then 0 else 1) = g.walkObservedNodes + _ at hnodes
  have hpos : ((g.observersOf d).insert o ()).size ≠ 0 := fun hz =>
    AList.size_eq_zero.mp hz o ((AList.mem_insert _).mpr (Or.inl rfl))
  rw [if_neg hpos] at hnodes
  have hsizes : ((g.edgesOf o).insert d (g.version d)).size =
      (g.edgesOf o).size + (if d ∈ g.edgesOf o then 0 else 1) ∧
      ((g.observersOf d).insert o ()).size =
      (g.observersOf d).size + (if d ∈ g.edgesOf o then 0 else 1) := by
    by_cases hd : d ∈ g.edgesOf o
    · rw [if_pos hd]
      exact ⟨AList.size_insert_of_mem hd, AList.size_insert_of_mem (hmem.mp hd)⟩
    · rw [if_neg hd]
      exact ⟨AList.size_insert_of_notMem hd, AList.size_insert_of_notMem (hd ∘ hmem.mpr)⟩
  obtain ⟨hs1, hs2⟩ := hsizes
  rw [hs1] at hout
  rw [hs2] at hin
  have e1 := h.outgoing
  have e2 := h.incoming
  have e3 := h.balance
  have e4 := h.observed
  have hcounters : (g.recordEdge o d).1.counters =
      if d ∈ g.edgesOf o then g.counters else g.counters.edgeAdded := by
    unfold Graph.recordEdge
    by_cases hd : d ∈ g.edgesOf o
    · obtain ⟨v, hv⟩ := Option.isSome_iff_exists.mp (AList.lookup_isSome.mpr hd)
      simp [hd, hv]
    · simp [hd, AList.lookup_eq_none.mpr hd]
  have hlive : (g.recordEdge o d).1.counters.liveEdges = g.counters.liveEdges +
      (if d ∈ g.edgesOf o then 0 else 1) ∧
      (g.recordEdge o d).1.counters.edgesAdded = g.counters.edgesAdded +
      (if d ∈ g.edgesOf o then 0 else 1) ∧
      (g.recordEdge o d).1.counters.edgesRemoved = g.counters.edgesRemoved ∧
      (g.recordEdge o d).1.counters.nodesCreated = g.counters.nodesCreated ∧
      (g.recordEdge o d).1.counters.nodesDisposed = g.counters.nodesDisposed ∧
      (g.recordEdge o d).1.counters.liveNodesByKind = g.counters.liveNodesByKind ∧
      (g.recordEdge o d).1.counters.truncated = g.counters.truncated := by
    rw [hcounters]
    by_cases hd : d ∈ g.edgesOf o
    · simp [hd]
    · simp [hd, GraphCounters.edgeAdded]
  obtain ⟨c1, c2, c3, c4, c5, c6, c7⟩ := hlive
  refine ⟨⟨?_, ?_, ?_, ?_, ?_, ?_, ?_, ?_, ?_, h.below⟩, h.running, h.nodup⟩
  · intro x y
    rw [hedges, hwatch]
    by_cases hx : x = o <;> by_cases hy : y = d <;> simp [hx, hy, h.inverse, AList.mem_insert]
  · intro x
    rw [hedges]
    by_cases hx : x = o
    · subst hx
      rw [if_pos rfl, AList.mem_insert]
      rintro (hxd | hx)
      · exact hne hxd
      · exact h.irrefl x hx
    · rw [if_neg hx]; exact h.irrefl x
  · change (g.recordEdge o d).1.counters.liveEdges =
      AList.total AList.size (g.dependencies.insert o ((g.edgesOf o).insert d (g.version d)))
    omega
  · change AList.total AList.size (g.dependencies.insert o ((g.edgesOf o).insert d (g.version d))) =
      AList.total AList.size (g.dependents.insert d ((g.observersOf d).insert o ()))
    omega
  · omega
  · change (if (g.observersOf d).size = 0 then g.observedNodes + 1 else g.observedNodes) =
      AList.total _ (g.dependents.insert d ((g.observersOf d).insert o ()))
    by_cases hz : (g.observersOf d).size = 0
    · rw [if_pos hz] at hnodes ⊢; omega
    · rw [if_neg hz] at hnodes ⊢; omega
  · rw [c4, c5]; exact h.nodes
  · intro k; rw [c6]; exact h.gauges k
  · rw [c7]; exact h.exact

theorem Consistent.withObservers (h : g.Consistent) (obs : IdSet) :
    ({ g with observers := obs } : Graph).Consistent :=
  ⟨h.toIndexed.withRunning g.stack g.activeComputations obs, h.running, h.nodup⟩

/-- The running observer never reads itself: that is what the cycle check is for. -/
theorem Consistent.tryObserve (h : g.Consistent) (untracked : Bool) (d : NodeId)
    {r : Graph × Bool} (hr : g.tryObserve untracked d = .ok r) : r.1.Consistent := by
  unfold Graph.tryObserve cycleCheck at hr
  by_cases hd : d ∈ g.activeComputations
  · simp [hd] at hr
  · simp only [hd, if_false] at hr
    cases untracked with
    | true => cases hr; exact h
    | false =>
      cases hs : g.stack with
      | nil => simp only [hs] at hr; cases hr; exact h
      | cons o rest =>
        simp only [hs] at hr
        cases hr
        refine h.recordEdge o d ?_
        rintro rfl
        exact hd (by rw [h.running, hs]; exact List.mem_cons_self)

end Graph

/-- What a program can do to the graph maps. `exit` also models unwinding, which
leaves the contexts it passes through one by one. -/
inductive GraphOp where
  | allocate (kind : NodeKind)
  | register (node : NodeId)
  | unregister (node : NodeId)
  | enter (observer : NodeId)
  | exit
  | observe (untracked : Bool) (observable : NodeId)
  | bump (node : NodeId)
  | dispose (node : NodeId)
  | disposeTorn (node owned : NodeId)

/-- A disposal that drops hooks which own the last handle of another node. -/
def GraphOp.isTorn : GraphOp → Bool
  | .disposeTorn _ _ => true
  | _ => false

/-- A refused read and a re-entered computation panic before anything is changed. Only a listed
node has hooks, and they cannot own the node itself. -/
def Graph.apply (env : Enumeration) (g : Graph) : GraphOp → Option Graph
  | .allocate kind => some (g.allocateNode kind)
  | .register node => some (g.registerObserver node)
  | .unregister node => some (g.unregisterObserver node)
  | .enter observer =>
    some (if observer ∈ g.activeComputations then g else (g.enterContext env observer).1)
  | .exit => if g.stack.isEmpty then none else some g.exitContext
  | .observe untracked observable =>
    match g.tryObserve untracked observable with
    | .error _ => some g
    | .ok r => some r.1
  | .bump node => some (g.bumpVersion node)
  | .dispose node => some (g.dispose env node).1
  | .disposeTorn node owned =>
    if node ∈ g.nodeMeta ∧ owned ≠ node then some (g.disposeTorn env node owned) else none

theorem Graph.Consistent.apply {env : Enumeration} {g g' : Graph} (h : g.Consistent)
    (op : GraphOp) (hw : op.isTorn = false) (hop : g.apply env op = some g') : g'.Consistent := by
  cases op with
  | allocate kind => cases hop; exact h.allocateNode kind
  | register node => cases hop; exact h.withObservers _
  | unregister node => cases hop; exact h.withObservers _
  | enter observer =>
    cases hop
    split
    · exact h
    · rename_i ho
      exact h.enterContext observer ho
  | exit =>
    simp only [Graph.apply] at hop
    split at hop
    · cases hop
    · cases hop; exact h.exitContext
  | observe untracked observable =>
    simp only [Graph.apply] at hop
    split at hop
    · cases hop; exact h
    · rename_i r hr
      cases hop
      exact h.tryObserve untracked observable hr
  | bump node => cases hop; exact h.bumpVersion node
  | dispose node => cases hop; exact h.dispose node
  | disposeTorn node owned => cases hw

/-- The graph maps a program can bring about, in any order of operations, as long as no disposal
is torn. -/
def Graph.Reached (env : Enumeration) (g : Graph) : Prop :=
  Runs.Reaches (Graph.apply env) (fun _ op => op.isTorn = false) {} g

theorem Graph.Reached.consistent {env : Enumeration} {g : Graph} (h : g.Reached env) :
    g.Consistent :=
  h.invariant Graph.Consistent Graph.consistent_empty fun _ op _ hs hw hop => hs.apply op hw hop

namespace Graph

section Torn

variable {env : Enumeration} {g g' : Graph}

def SameNodeCounts (g g' : Graph) : Prop :=
  g'.counters.nodesCreated = g.counters.nodesCreated ∧
    g'.counters.nodesDisposed = g.counters.nodesDisposed

theorem SameNodeCounts.trans {g'' : Graph} (h : g.SameNodeCounts g') (h' : g'.SameNodeCounts g'') :
    g.SameNodeCounts g'' := ⟨h'.1.trans h.1, h'.2.trans h.2⟩

end Torn

end Graph

end Adaptite

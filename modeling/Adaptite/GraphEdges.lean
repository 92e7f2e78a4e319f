import Adaptite.Graph

set_option autoImplicit false

namespace Adaptite.Graph

/-- A quantity that no turn of a loop changes is not changed by the loop. -/
theorem foldl_same {α β γ : Type} (f : α → γ) (step : α → β → α)
    (h : ∀ a b, f (step a b) = f a) (l : List β) (a : α) : f (l.foldl step a) = f a := by
  induction l generalizing a with
  | nil => rfl
  | cons b l ih => rw [List.foldl_cons, ih, h]

section Lookup

variable (g : Graph) (n o d : NodeId)

theorem bumpVersion_eq : ∃ m, g.bumpVersion n = { g with nodeMeta := m } ∧
    ∀ x, x ∈ m ↔ x ∈ g.nodeMeta := by
  unfold bumpVersion
  split
  · exact ⟨g.nodeMeta, rfl, fun _ => Iff.rfl⟩
  · rename_i m hm
    refine ⟨_, rfl, fun x => ?_⟩
    rw [AList.mem_insert]
    refine or_iff_right_of_imp fun h => ?_
    rw [h]
    exact AList.lookup_isSome.mp (Option.isSome_of_eq_some hm)

@[simp] theorem edgesOf_bumpVersion : (g.bumpVersion n).edgesOf o = g.edgesOf o := by
  obtain ⟨m, h, _⟩ := bumpVersion_eq g n
  rw [h]; rfl

@[simp] theorem observersOf_bumpVersion : (g.bumpVersion n).observersOf d = g.observersOf d := by
  obtain ⟨m, h, _⟩ := bumpVersion_eq g n
  rw [h]; rfl

@[simp] theorem mem_nodeMeta_bumpVersion : d ∈ (g.bumpVersion n).nodeMeta ↔ d ∈ g.nodeMeta := by
  obtain ⟨m, h, hm⟩ := bumpVersion_eq g n
  rw [h]; exact hm d

@[simp] theorem observers_bumpVersion : (g.bumpVersion n).observers = g.observers := by
  obtain ⟨m, h, _⟩ := bumpVersion_eq g n
  rw [h]

@[simp] theorem stack_bumpVersion : (g.bumpVersion n).stack = g.stack := by
  obtain ⟨m, h, _⟩ := bumpVersion_eq g n
  rw [h]

@[simp] theorem active_bumpVersion :
    (g.bumpVersion n).activeComputations = g.activeComputations := by
  obtain ⟨m, h, _⟩ := bumpVersion_eq g n
  rw [h]

@[simp] theorem nextNode_bumpVersion : (g.bumpVersion n).nextNode = g.nextNode := by
  obtain ⟨m, h, _⟩ := bumpVersion_eq g n
  rw [h]

theorem edgesOf_recordEdge : (g.recordEdge n d).1.edgesOf o =
    if o = n then (g.edgesOf n).insert d (g.version d) else g.edgesOf o := by
  unfold recordEdge edgesOf
  by_cases h : o = n
  · subst h; simp
  · simp [h]

theorem observersOf_recordEdge (x : NodeId) : (g.recordEdge n d).1.observersOf x =
    if x = d then (g.observersOf d).insert n () else g.observersOf x := by
  unfold recordEdge observersOf
  by_cases h : x = d
  · subst h; simp
  · simp [h]

end Lookup

theorem mem_observersOf_forgetObserver (o : NodeId) (acc : Graph × List NodeId) (d x y : NodeId) :
    y ∈ (forgetObserver o acc d).1.observersOf x ↔
      y ∈ acc.1.observersOf x ∧ ¬ (x = d ∧ y = o) := by
  unfold forgetObserver
  split
  · rename_i h
    refine ⟨fun hy => ⟨hy, ?_⟩, fun hy => hy.1⟩
    rintro ⟨rfl, rfl⟩
    simp [observersOf, h] at hy
  · rename_i w h
    have key : ∀ g : Graph, g.dependents = acc.1.dependents.insert d (w.erase o) →
        (y ∈ g.observersOf x ↔ y ∈ acc.1.observersOf x ∧ ¬ (x = d ∧ y = o)) := by
      intro g hg
      unfold observersOf
      rw [hg]
      by_cases hx : x = d
      · subst hx
        simp [h, AList.mem_erase, and_comm]
      · simp [hx]
    dsimp only
    split
    · exact key _ rfl
    · exact key _ rfl

theorem mem_observersOf_forgetAll (o : NodeId) (l : List NodeId) (acc : Graph × List NodeId)
    (x y : NodeId) : y ∈ (l.foldl (forgetObserver o) acc).1.observersOf x ↔
      y ∈ acc.1.observersOf x ∧ ¬ (x ∈ l ∧ y = o) := by
  induction l generalizing acc with
  | nil => simp
  | cons d l ih =>
    rw [List.foldl_cons, ih, mem_observersOf_forgetObserver, List.mem_cons]
    tauto

theorem forgetAll_frame (o : NodeId) (l : List NodeId) (acc : Graph × List NodeId) :
    let g := (l.foldl (forgetObserver o) acc).1
    g.dependencies = acc.1.dependencies ∧ g.nodeMeta = acc.1.nodeMeta ∧
      g.observers = acc.1.observers ∧ g.stack = acc.1.stack ∧
      g.activeComputations = acc.1.activeComputations ∧ g.nextNode = acc.1.nextNode := by
  let kept := fun a : Graph × List NodeId => (a.1.dependencies, a.1.nodeMeta, a.1.observers,
    a.1.stack, a.1.activeComputations, a.1.nextNode)
  have h : ∀ a d, kept (forgetObserver o a d) = kept a := by
    intro a d
    unfold forgetObserver
    split
    · rfl
    · dsimp only; split <;> rfl
  simpa only [kept, Prod.mk.injEq] using foldl_same kept _ h l acc

section Clear

variable (env : Enumeration) (g : Graph) (o : NodeId) (retain : Bool)

theorem clear_frame :
    let g' := (g.clearObserverDependencies env o retain).1
    g'.nodeMeta = g.nodeMeta ∧ g'.observers = g.observers ∧ g'.stack = g.stack ∧
      g'.activeComputations = g.activeComputations ∧ g'.nextNode = g.nextNode := by
  unfold clearObserverDependencies
  split
  · exact ⟨rfl, rfl, rfl, rfl, rfl⟩
  · rename_i edges h
    dsimp only
    split
    · cases retain <;> exact ⟨rfl, rfl, rfl, rfl, rfl⟩
    · obtain ⟨_, h⟩ := forgetAll_frame o (env.order g edges.keys) ({ g with
        dependencies := if retain then g.dependencies.insert o ∅ else g.dependencies.erase o
        counters := g.counters.removeEdges (env.order g edges.keys).length }, [])
      exact h

theorem edgesOf_clear (x : NodeId) :
    (g.clearObserverDependencies env o retain).1.edgesOf x =
      if x = o then ∅ else g.edgesOf x := by
  have dropped : ∀ g' : Graph, (g'.dependencies = g.dependencies.insert o ∅ ∨
      g'.dependencies = g.dependencies.erase o) →
      g'.edgesOf x = if x = o then ∅ else g.edgesOf x := by
    intro g' h
    unfold edgesOf
    by_cases hx : x = o
    · subst hx
      rcases h with h | h <;> simp [h]
    · rcases h with h | h <;> simp [h, hx]
  unfold clearObserverDependencies
  split
  · rename_i h
    by_cases hx : x = o
    · subst hx; simp [edgesOf, h]
    · simp [hx]
  · rename_i edges h
    dsimp only
    split
    · rename_i hs
      cases retain with
      | true =>
        by_cases hx : x = o
        · subst hx
          have : edges = ∅ := AList.ext (List.eq_nil_of_length_eq_zero hs)
          simp [edgesOf, h, this]
        · simp [hx]
      | false => exact dropped _ (Or.inr rfl)
    · have hf := (forgetAll_frame o (env.order g edges.keys) ({ g with
        dependencies := if retain then g.dependencies.insert o ∅ else g.dependencies.erase o
        counters := g.counters.removeEdges (env.order g edges.keys).length }, [])).1
      refine dropped _ ?_
      rw [hf]
      cases retain <;> simp

theorem mem_observersOf_clear (x y : NodeId) :
    y ∈ (g.clearObserverDependencies env o retain).1.observersOf x ↔
      y ∈ g.observersOf x ∧ ¬ (y = o ∧ x ∈ g.edgesOf o) := by
  unfold clearObserverDependencies
  split
  · rename_i h
    simp [edgesOf, h]
  · rename_i edges h
    dsimp only
    split
    · rename_i hs
      have he : x ∉ g.edgesOf o := by
        simpa [edgesOf, h] using AList.size_eq_zero.mp hs x
      have : ∀ g' : Graph, g'.dependents = g.dependents →
          (y ∈ g'.observersOf x ↔ y ∈ g.observersOf x ∧ ¬ (y = o ∧ x ∈ g.edgesOf o)) := by
        intro g' hg
        simp [observersOf, hg, he]
      cases retain <;> exact this _ rfl
    · rw [mem_observersOf_forgetAll]
      have hk : x ∈ env.order g edges.keys ↔ x ∈ g.edgesOf o := by
        rw [(env.perm g edges.keys).mem_iff]
        simp [edgesOf, h, AList.mem_keys]
      rw [hk]
      change y ∈ g.observersOf x ∧ _ ↔ _
      tauto

end Clear

theorem edgesOf_removeDependency (g : Graph) (n o x : NodeId) :
    (removeDependency n g o).edgesOf x = if x = o then (g.edgesOf o).erase n else g.edgesOf x := by
  unfold removeDependency
  split
  · rename_i h
    by_cases hx : x = o
    · subst hx
      simp only [edgesOf, h, Option.getD_none, ↓reduceIte]
      rfl
    · simp [hx]
  · rename_i edges h
    dsimp only
    by_cases hs : (edges.erase n).size = 0
    · have he : edges.erase n = ∅ := AList.ext (List.eq_nil_of_length_eq_zero hs)
      by_cases hx : x = o
      · subst hx; simp [edgesOf, h, he]
      · simp [edgesOf, he, hx]
    · by_cases hx : x = o
      · subst hx; simp [edgesOf, h, hs]
      · simp [edgesOf, hs, hx]

theorem removeDependency_frame (g : Graph) (n o : NodeId) :
    ∃ deps, removeDependency n g o = { g with dependencies := deps } := by
  unfold removeDependency
  split
  · exact ⟨_, rfl⟩
  · exact ⟨_, rfl⟩

theorem removeAll_frame (g : Graph) (n : NodeId) (l : List NodeId) :
    ∃ deps, l.foldl (removeDependency n) g = { g with dependencies := deps } := by
  induction l generalizing g with
  | nil => exact ⟨_, rfl⟩
  | cons o l ih =>
    obtain ⟨deps, h⟩ := removeDependency_frame g n o
    rw [List.foldl_cons, h]
    obtain ⟨deps', h'⟩ := ih { g with dependencies := deps }
    exact ⟨deps', h'⟩

theorem edgesOf_removeAll (g : Graph) (n : NodeId) (l : List NodeId) (x : NodeId) :
    (l.foldl (removeDependency n) g).edgesOf x =
      if x ∈ l then (g.edgesOf x).erase n else g.edgesOf x := by
  induction l generalizing g with
  | nil => simp
  | cons o l ih =>
    rw [List.foldl_cons, ih, edgesOf_removeDependency]
    by_cases hx : x = o
    · subst hx
      have twice : ((g.edgesOf x).erase n).erase n = (g.edgesOf x).erase n :=
        AList.erase_of_notMem fun h => (AList.mem_erase.mp h).1 rfl
      by_cases hl : x ∈ l <;> simp [hl, twice]
    · simp [hx]

section Dispose

variable (env : Enumeration) (g : Graph) (n : NodeId)

theorem unlink_frame :
    let g' := g.unlink env n
    g'.nodeMeta = g.nodeMeta ∧ g'.dependents = g.dependents.erase n ∧
      g'.observers = g.observers.erase n ∧ g'.stack = g.stack ∧
      g'.activeComputations = g.activeComputations ∧ g'.nextNode = g.nextNode ∧
      ∀ x, g'.edgesOf x = if x ∈ g.observersOf n then (g.edgesOf x).erase n else g.edgesOf x := by
  set incoming := env.order g (g.observersOf n).keys with hin
  have hmem : ∀ x, x ∈ incoming ↔ x ∈ g.observersOf n := by
    intro x
    rw [hin, (env.perm g _).mem_iff, AList.mem_keys]
  have core : ∀ g₀ : Graph, g₀.dependencies = g.dependencies → g₀.nodeMeta = g.nodeMeta →
      g₀.dependents = g.dependents.erase n → g₀.observers = g.observers → g₀.stack = g.stack →
      g₀.activeComputations = g.activeComputations → g₀.nextNode = g.nextNode →
      let g₁ := (incoming.foldl (removeDependency n) g₀).unregisterObserver n
      g₁.nodeMeta = g.nodeMeta ∧ g₁.dependents = g.dependents.erase n ∧
        g₁.observers = g.observers.erase n ∧ g₁.stack = g.stack ∧
        g₁.activeComputations = g.activeComputations ∧ g₁.nextNode = g.nextNode ∧
        ∀ x, g₁.edgesOf x =
          if x ∈ g.observersOf n then (g.edgesOf x).erase n else g.edgesOf x := by
    intro g₀ h1 h2 h3 h4 h5 h6 h7 g₁
    obtain ⟨deps, hd⟩ := removeAll_frame g₀ n incoming
    have he := edgesOf_removeAll g₀ n incoming
    have hs : ∀ x, g₀.edgesOf x = g.edgesOf x := fun x => by simp [edgesOf, h1]
    have hg : g₁ = ({ g₀ with dependencies := deps } : Graph).unregisterObserver n :=
      congrArg (fun k => unregisterObserver k n) hd
    refine ⟨?_, ?_, ?_, ?_, ?_, ?_, fun x => ?_⟩
    · rw [hg]; exact h2
    · rw [hg]; exact h3
    · rw [hg]; exact congrArg (AList.erase n) h4
    · rw [hg]; exact h5
    · rw [hg]; exact h6
    · rw [hg]; exact h7
    · have := he x
      simp only [hmem, hs] at this
      exact this
  have start : ∀ g₀ : Graph, g₀ = (if (g.observersOf n).size = 0 then
      { g with dependents := g.dependents.erase n }
      else ({ g with dependents := g.dependents.erase n } : Graph).decObserved) →
      g₀.dependencies = g.dependencies ∧ g₀.nodeMeta = g.nodeMeta ∧
        g₀.dependents = g.dependents.erase n ∧ g₀.observers = g.observers ∧
        g₀.stack = g.stack ∧ g₀.activeComputations = g.activeComputations ∧
        g₀.nextNode = g.nextNode := by
    intro g₀ h
    subst h
    split <;> exact ⟨rfl, rfl, rfl, rfl, rfl, rfl, rfl⟩
  obtain ⟨s1, s2, s3, s4, s5, s6, s7⟩ := start _ rfl
  exact core { (if (g.observersOf n).size = 0 then
      { g with dependents := g.dependents.erase n }
      else ({ g with dependents := g.dependents.erase n } : Graph).decObserved) with
        counters := (if (g.observersOf n).size = 0 then
          { g with dependents := g.dependents.erase n }
          else ({ g with dependents := g.dependents.erase n } : Graph).decObserved).counters.removeEdges
            incoming.length } s1 s2 s3 s4 s5 s6 s7

theorem retire_frame :
    let g' := g.retire env n
    g'.nodeMeta = g.nodeMeta.erase n ∧ g'.dependents = g.dependents.erase n ∧
      g'.observers = g.observers.erase n ∧ g'.stack = g.stack ∧
      g'.activeComputations = g.activeComputations ∧ g'.nextNode = g.nextNode ∧
      ∀ x, g'.edgesOf x = if x ∈ g.observersOf n then (g.edgesOf x).erase n else g.edgesOf x := by
  obtain ⟨k1, k2, k3, k4, k5, k6, k7⟩ := unlink_frame env g n
  unfold retire
  dsimp only
  rw [k1]
  cases hm : g.nodeMeta.lookup n with
  | none =>
    refine ⟨?_, k2, k3, k4, k5, k6, k7⟩
    rw [AList.erase_of_notMem (AList.lookup_eq_none.mp hm)]
    exact k1
  | some m => exact ⟨rfl, k2, k3, k4, k5, k6, k7⟩

theorem dispose_frame :
    let g' := (g.dispose env n).1
    g'.nodeMeta = g.nodeMeta.erase n ∧ g'.observers = g.observers.erase n ∧
      g'.stack = g.stack ∧ g'.activeComputations = g.activeComputations ∧
      g'.nextNode = g.nextNode := by
  obtain ⟨h1, _, h3, h4, h5, h6, _⟩ := retire_frame env (g.clearObserverDependencies env n false).1 n
  obtain ⟨c1, c2, c3, c4, c5⟩ := clear_frame env g n false
  exact ⟨h1.trans (by rw [c1]), h3.trans (by rw [c2]), h4.trans c3, h5.trans c4, h6.trans c5⟩

theorem edgesOf_dispose (x : NodeId) : (g.dispose env n).1.edgesOf x =
    if x = n then ∅ else if x ∈ g.observersOf n then (g.edgesOf x).erase n else g.edgesOf x := by
  have h := (retire_frame env (g.clearObserverDependencies env n false).1 n).2.2.2.2.2.2 x
  have hc := edgesOf_clear env g n false x
  have ho := mem_observersOf_clear env g n false n x
  unfold dispose
  rw [h, hc]
  by_cases hx : x = n
  · subst hx
    have : (∅ : Edges).erase x = ∅ := AList.ext rfl
    simp [this]
  · have ho' : x ∈ (g.clearObserverDependencies env n false).1.observersOf n ↔
        x ∈ g.observersOf n := by
      rw [ho]; simp [hx]
    simp [hx, ho']

end Dispose

section Context

variable (env : Enumeration) (g : Graph) (o : NodeId)

theorem enterContext_frame :
    let g' := (g.enterContext env o).1
    g'.nodeMeta = g.nodeMeta ∧ g'.observers = g.observers ∧ g'.stack = o :: g.stack ∧
      g'.activeComputations = o :: g.activeComputations ∧ g'.nextNode = g.nextNode := by
  obtain ⟨h1, h2, h3, h4, h5⟩ :=
    clear_frame env { g with activeComputations := o :: g.activeComputations } o true
  exact ⟨h1, h2, congrArg _ h3, h4, h5⟩

theorem edgesOf_enterContext (x : NodeId) :
    (g.enterContext env o).1.edgesOf x = if x = o then ∅ else g.edgesOf x :=
  edgesOf_clear env { g with activeComputations := o :: g.activeComputations } o true x

theorem exitContext_of_stack {g : Graph} {o : NodeId} {rest : List NodeId} (h : g.stack = o :: rest) :
    g.exitContext =
      { g with stack := rest, activeComputations := g.activeComputations.erase o } := by
  unfold exitContext
  rw [h]

theorem tryObserve_frame {g : Graph} {untracked : Bool} {d : NodeId} {r : Graph × Bool}
    (h : g.tryObserve untracked d = .ok r) : ∃ ds dts k c, r.1 = { g with
      dependencies := ds, dependents := dts, observedNodes := k, counters := c } := by
  unfold Graph.tryObserve at h
  split at h
  · cases h
  · split at h
    · cases h
      exact ⟨_, _, _, _, rfl⟩
    · split at h
      · cases h
        exact ⟨_, _, _, _, rfl⟩
      · cases h
        exact ⟨_, _, _, _, rfl⟩

theorem exitContext_frame : ∃ st act, g.exitContext =
    { g with stack := st, activeComputations := act } := by
  unfold exitContext
  split
  · exact ⟨_, _, rfl⟩
  · exact ⟨_, _, rfl⟩

end Context

end Adaptite.Graph

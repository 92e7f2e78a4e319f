import Adaptite.Consistency
import Adaptite.Marking
import Adaptite.Steps

set_option autoImplicit false

namespace Adaptite

variable {V : Type}

namespace Graph

structure Sound (g : Graph) : Prop extends g.Consistent where
  ends : ∀ o d, d ∈ g.edgesOf o → d ∈ g.nodeMeta
  known : ∀ o d, d ∈ g.edgesOf o → o < g.nextNode
  entered : ∀ o ∈ g.stack, o < g.nextNode
  registered : ∀ o ∈ g.observers, o ∈ g.nodeMeta

variable {env : Enumeration} {g : Graph}

theorem sound_empty : ({} : Graph).Sound :=
  ⟨consistent_empty, by simp [edgesOf], by simp [edgesOf], by simp, by simp⟩

theorem Sound.allocateNode (h : g.Sound) (kind : NodeKind) : (g.allocateNode kind).Sound := by
  refine ⟨h.toConsistent.allocateNode kind, fun o d hd => ?_, fun o d hd => ?_, fun o ho => ?_,
    fun o ho => ?_⟩
  · exact (AList.mem_insert _).mpr (.inr (h.ends o d hd))
  · exact Nat.lt_succ_of_lt (h.known o d hd)
  · exact Nat.lt_succ_of_lt (h.entered o ho)
  · exact (AList.mem_insert _).mpr (.inr (h.registered o ho))

theorem Sound.withObservers (h : g.Sound) (obs : IdSet) (ho : ∀ o ∈ obs, o ∈ g.nodeMeta) :
    ({ g with observers := obs } : Graph).Sound :=
  ⟨h.toConsistent.withObservers obs, h.ends, h.known, h.entered, ho⟩

theorem Sound.unregisterObserver (h : g.Sound) (n : NodeId) : (g.unregisterObserver n).Sound :=
  h.withObservers _ fun o ho => h.registered o (AList.mem_erase.mp ho).2

theorem Sound.bumpVersion (h : g.Sound) (n : NodeId) : (g.bumpVersion n).Sound := by
  refine ⟨h.toConsistent.bumpVersion n, fun o d hd => ?_, fun o d hd => ?_, fun o ho => ?_,
    fun o ho => ?_⟩
  · rw [edgesOf_bumpVersion] at hd
    exact (mem_nodeMeta_bumpVersion _ _ _).mpr (h.ends o d hd)
  · rw [edgesOf_bumpVersion] at hd
    rw [nextNode_bumpVersion]
    exact h.known o d hd
  · rw [stack_bumpVersion] at ho
    rw [nextNode_bumpVersion]
    exact h.entered o ho
  · rw [observers_bumpVersion] at ho
    exact (mem_nodeMeta_bumpVersion _ _ _).mpr (h.registered o ho)

/-- An edge is only recorded for a node that is there, by one that is running. -/
theorem Sound.tryObserve (h : g.Sound) (untracked : Bool) (d : NodeId) (hd : d ∈ g.nodeMeta)
    {r : Graph × Bool} (hr : g.tryObserve untracked d = .ok r) : r.1.Sound := by
  have hc := h.toConsistent.tryObserve untracked d hr
  unfold Graph.tryObserve at hr
  split at hr
  · cases hr
  · split at hr
    · cases hr
      exact h
    · split at hr
      · cases hr
        exact h
      · rename_i o rest hs
        cases hr
        refine ⟨hc, fun x y hy => ?_, fun x y hy => ?_, h.entered, h.registered⟩
        · rw [edgesOf_recordEdge] at hy
          split at hy
          · rcases (AList.mem_insert _).mp hy with rfl | hy
            · exact hd
            · exact h.ends o y hy
          · exact h.ends x y hy
        · rw [edgesOf_recordEdge] at hy
          split at hy
          · rename_i hx
            exact hx ▸ h.entered o (hs ▸ List.mem_cons_self)
          · exact h.known x y hy

theorem mem_edgesOf_dispose {n o d : NodeId} (hn : ∀ o d, d ∈ g.edgesOf o ↔ o ∈ g.observersOf d) :
    d ∈ (g.dispose env n).1.edgesOf o ↔ o ≠ n ∧ d ≠ n ∧ d ∈ g.edgesOf o := by
  rw [edgesOf_dispose]
  by_cases ho : o = n
  · simp [ho]
  · rw [if_neg ho]
    by_cases hw : o ∈ g.observersOf n
    · rw [if_pos hw, AList.mem_erase]
      simp [ho]
    · rw [if_neg hw]
      refine ⟨fun hd => ⟨ho, ?_, hd⟩, fun hd => hd.2.2⟩
      rintro rfl
      exact hw ((hn o d).mp hd)

theorem Sound.dispose (h : g.Sound) (n : NodeId) : (g.dispose env n).1.Sound := by
  obtain ⟨f1, f2, f3, f4, f5⟩ := dispose_frame env g n
  refine ⟨h.toConsistent.dispose n, fun o d hd => ?_, fun o d hd => ?_, fun o ho => ?_,
    fun o ho => ?_⟩
  · rw [mem_edgesOf_dispose h.inverse] at hd
    rw [f1, AList.mem_erase]
    exact ⟨hd.2.1, h.ends o d hd.2.2⟩
  · rw [mem_edgesOf_dispose h.inverse] at hd
    rw [f5]
    exact h.known o d hd.2.2
  · rw [f3] at ho
    rw [f5]
    exact h.entered o ho
  · rw [f2, AList.mem_erase] at ho
    rw [f1, AList.mem_erase]
    exact ⟨ho.1, h.registered o ho.2⟩

theorem Sound.enterContext (h : g.Sound) (o : NodeId) (ho : o ∉ g.activeComputations)
    (hk : o < g.nextNode) : (g.enterContext env o).1.Sound := by
  obtain ⟨f1, f2, f3, f4, f5⟩ := enterContext_frame env g o
  have hsub : ∀ x d, d ∈ (g.enterContext env o).1.edgesOf x → d ∈ g.edgesOf x := by
    intro x d hd
    rw [edgesOf_enterContext] at hd
    split at hd
    · simp at hd
    · exact hd
  refine ⟨h.toConsistent.enterContext o ho, fun x d hd => ?_, fun x d hd => ?_, fun x hx => ?_,
    fun x hx => ?_⟩
  · rw [f1]; exact h.ends x d (hsub x d hd)
  · rw [f5]; exact h.known x d (hsub x d hd)
  · rw [f3] at hx
    rw [f5]
    rcases List.mem_cons.mp hx with rfl | hx
    · exact hk
    · exact h.entered x hx
  · rw [f1]
    exact h.registered x (f2 ▸ hx)

theorem Sound.exitContext (h : g.Sound) : g.exitContext.Sound := by
  have hc := h.toConsistent.exitContext
  unfold Graph.exitContext at hc ⊢
  cases hs : g.stack with
  | nil => exact h
  | cons n rest =>
    rw [hs] at hc
    refine ⟨hc, h.ends, h.known, fun o ho => h.entered o ?_, h.registered⟩
    rw [hs]
    exact List.mem_cons_of_mem n ho

/-- The same nodes, with their kinds and registrations. -/
structure SameNodes (g g' : Graph) : Prop where
  kinds : ∀ n, g'.nodeKind n = g.nodeKind n
  observers : g'.observers = g.observers
  nextNode : g'.nextNode = g.nextNode

theorem SameNodes.of_eq {g' : Graph} (h1 : g'.nodeMeta = g.nodeMeta)
    (h2 : g'.observers = g.observers) (h3 : g'.nextNode = g.nextNode) : g.SameNodes g' :=
  ⟨fun n => by unfold nodeKind; rw [h1], h2, h3⟩

theorem nodeKind_bumpVersion (g : Graph) (n d : NodeId) :
    (g.bumpVersion n).nodeKind d = g.nodeKind d := by
  unfold bumpVersion nodeKind
  split
  · rfl
  · rename_i m hm
    by_cases hd : d = n
    · subst hd
      simp [hm]
    · simp [AList.lookup_insert_ne hd]

theorem sameNodes_bumpVersion (g : Graph) (n : NodeId) : g.SameNodes (g.bumpVersion n) :=
  ⟨nodeKind_bumpVersion g n, observers_bumpVersion g n, nextNode_bumpVersion g n⟩

theorem sameNodes_tryObserve {untracked : Bool} {d : NodeId} {r : Graph × Bool}
    (hr : g.tryObserve untracked d = .ok r) : g.SameNodes r.1 := by
  obtain ⟨_, _, _, _, he⟩ := tryObserve_frame hr
  rw [he]
  exact .of_eq rfl rfl rfl

theorem sameNodes_enterContext (o : NodeId) : g.SameNodes (g.enterContext env o).1 := by
  obtain ⟨f1, f2, _, _, f5⟩ := enterContext_frame env g o
  exact .of_eq f1 f2 f5

theorem sameNodes_exitContext : g.SameNodes g.exitContext := by
  obtain ⟨st, act, h⟩ := exitContext_frame g
  rw [h]
  exact .of_eq rfl rfl rfl

theorem nodeKind_allocateNode (g : Graph) (kind : NodeKind) (n : NodeId) :
    (g.allocateNode kind).nodeKind n = if n = g.nextNode then some kind else g.nodeKind n := by
  unfold allocateNode nodeKind
  by_cases hn : n = g.nextNode
  · subst hn
    simp
  · simp [hn]

theorem mem_of_nodeKind {n : NodeId} {k : NodeKind} (h : g.nodeKind n = some k) :
    n ∈ g.nodeMeta := by
  unfold nodeKind at h
  rw [Option.map_eq_some_iff] at h
  obtain ⟨m, hm, _⟩ := h
  exact AList.lookup_isSome.mp (Option.isSome_of_eq_some hm)

theorem nodeKind_dispose (g : Graph) (n d : NodeId) :
    (g.dispose env n).1.nodeKind d = if d = n then none else g.nodeKind d := by
  obtain ⟨f1, _⟩ := dispose_frame env g n
  unfold nodeKind
  rw [f1]
  by_cases hd : d = n
  · subst hd
    simp
  · simp [hd, AList.lookup_erase_ne hd]

end Graph

structure World.WellFormed (w : World V) : Prop where
  graph : w.graph.Sound
  signals : ∀ n, (w.signals n).isSome → w.graph.nodeKind n = some .signal
  computed : ∀ n, (w.computed n).isSome →
    (w.graph.nodeKind n = some .thunk ∨ w.graph.nodeKind n = some .memo) ∧ n ∈ w.graph.observers
  events : ∀ n, (w.events n).isSome → w.graph.nodeKind n = some .event
  effects : ∀ e x, w.effects e = some x → e < w.graph.nextNode ∧ x.owner < w.nextFrame ∧
    (w.graph.nodeKind e = some .effect ∧ (x.disposed = false → e ∈ w.graph.observers) ∨
      w.graph.nodeKind e = none ∧ x.disposed = true)
  hooks : ∀ n, (w.hooks n).isSome → n < w.graph.nextNode
  frames : ∀ f x, w.frames f = some x → f < w.nextFrame ∧ ∀ q, x.parent = some q → q < f
  owners : ∀ f, some f ∈ w.owners → f < w.nextFrame

/-- The same things behind the handles; an effect may only have been disposed, and
frames keep their parents. -/
structure World.SameNodes (w w' : World V) : Prop where
  signals : ∀ n, (w'.signals n).isSome → (w.signals n).isSome
  computed : ∀ n, (w'.computed n).isSome → (w.computed n).isSome
  events : ∀ n, (w'.events n).isSome → (w.events n).isSome
  effects : ∀ e x', w'.effects e = some x' →
    ∃ x, w.effects e = some x ∧ x'.owner = x.owner ∧ (x.disposed = true → x'.disposed = true)
  hooks : ∀ n, (w'.hooks n).isSome → (w.hooks n).isSome
  frames : ∀ f x', w'.frames f = some x' → ∃ x, w.frames f = some x ∧ x'.parent = x.parent
  nextFrame : w'.nextFrame = w.nextFrame
  owners : w'.owners = w.owners

variable {env : Enumeration} {w w' : World V}

theorem World.SameNodes.of_eq (h1 : w'.signals = w.signals) (h2 : w'.computed = w.computed)
    (h3 : w'.events = w.events) (h4 : w'.effects = w.effects) (h5 : w'.hooks = w.hooks)
    (h6 : w'.frames = w.frames) (h7 : w'.nextFrame = w.nextFrame) (h8 : w'.owners = w.owners) :
    w.SameNodes w' :=
  ⟨fun _ => h1 ▸ id, fun _ => h2 ▸ id, fun _ => h3 ▸ id, fun _ x h => ⟨x, h4 ▸ h, rfl, id⟩,
    fun _ => h5 ▸ id, fun _ x h => ⟨x, h6 ▸ h, rfl⟩, h7, h8⟩

theorem World.SameNodes.refl (w : World V) : w.SameNodes w := .of_eq rfl rfl rfl rfl rfl rfl rfl rfl

theorem World.SameNodes.trans {a b c : World V} (h : a.SameNodes b) (h' : b.SameNodes c) :
    a.SameNodes c := by
  refine ⟨fun n hn => h.signals n (h'.signals n hn), fun n hn => h.computed n (h'.computed n hn),
    fun n hn => h.events n (h'.events n hn), fun e z hz => ?_,
    fun n hn => h.hooks n (h'.hooks n hn), fun f z hz => ?_, h'.nextFrame.trans h.nextFrame,
    h'.owners.trans h.owners⟩
  · obtain ⟨y, hy, o1, d1⟩ := h'.effects e z hz
    obtain ⟨x, hx, o2, d2⟩ := h.effects e y hy
    exact ⟨x, hx, o1.trans o2, fun hd => d1 (d2 hd)⟩
  · obtain ⟨y, hy, p1⟩ := h'.frames f z hz
    obtain ⟨x, hx, p2⟩ := h.frames f y hy
    exact ⟨x, hx, p1.trans p2⟩

theorem isSome_update_map {α : Type} (f : ℕ → Option α) (i j : ℕ) (g : α → α) :
    (Function.update f i ((f i).map g) j).isSome = (f j).isSome := by
  by_cases h : j = i
  · subst h; simp
  · simp [Function.update_of_ne h]

theorem World.sameNodes_modifyEffect (w : World V) (e : NodeId) (g : EffectInner V → EffectInner V)
    (h : ∀ x, w.effects e = some x → (g x).owner = x.owner ∧
      (x.disposed = true → (g x).disposed = true)) :
    w.SameNodes (w.modifyEffect e g) := by
  refine ⟨fun _ => id, fun _ => id, fun _ => id, fun i y hy => ?_, fun _ => id,
    fun _ x hx => ⟨x, hx, rfl⟩, rfl, rfl⟩
  unfold World.modifyEffect at hy
  by_cases hi : i = e
  · subst hi
    simp only [Function.update_self, Option.map_eq_some_iff] at hy
    obtain ⟨x, hx, rfl⟩ := hy
    exact ⟨x, hx, h x hx⟩
  · simp only [Function.update_of_ne hi] at hy
    exact ⟨y, hy, rfl, id⟩

theorem World.sameNodes_modifyComputed (w : World V) (n : NodeId)
    (g : ComputedInner V → ComputedInner V) : w.SameNodes (w.modifyComputed n g) := by
  refine ⟨fun _ => id, fun i hi => ?_, fun _ => id, fun _ x hx => ⟨x, hx, rfl, id⟩, fun _ => id,
    fun _ x hx => ⟨x, hx, rfl⟩, rfl, rfl⟩
  unfold World.modifyComputed at hi
  rwa [isSome_update_map] at hi

theorem World.sameNodes_modifyHooks (w : World V) (n : NodeId)
    (g : ObservationHooks V → ObservationHooks V) : w.SameNodes (w.modifyHooks n g) := by
  refine ⟨fun _ => id, fun _ => id, fun _ => id, fun _ x hx => ⟨x, hx, rfl, id⟩, fun i hi => ?_,
    fun _ x hx => ⟨x, hx, rfl⟩, rfl, rfl⟩
  unfold World.modifyHooks at hi
  rwa [isSome_update_map] at hi

theorem World.sameNodes_modifyEvent (w : World V) (n : NodeId) (g : EventInner V → EventInner V) :
    w.SameNodes (w.modifyEvent n g) := by
  refine ⟨fun _ => id, fun _ => id, fun i hi => ?_, fun _ x hx => ⟨x, hx, rfl, id⟩, fun _ => id,
    fun _ x hx => ⟨x, hx, rfl⟩, rfl, rfl⟩
  unfold World.modifyEvent at hi
  rwa [isSome_update_map] at hi

theorem World.sameNodes_setValue (w : World V) (n : NodeId) (v : V) :
    w.SameNodes (w.setValue n v) := by
  refine ⟨fun i hi => ?_, fun _ => id, fun _ => id, fun _ x hx => ⟨x, hx, rfl, id⟩, fun _ => id,
    fun _ x hx => ⟨x, hx, rfl⟩, rfl, rfl⟩
  unfold World.setValue at hi
  rwa [isSome_update_map] at hi

theorem World.sameNodes_modifyFrame (w : World V) (f : FrameId) (g : OwnerFrame V → OwnerFrame V)
    (h : ∀ x, w.frames f = some x → (g x).parent = x.parent) : w.SameNodes (w.modifyFrame f g) := by
  refine ⟨fun _ => id, fun _ => id, fun _ => id, fun _ x hx => ⟨x, hx, rfl, id⟩, fun _ => id,
    fun i y hy => ?_, rfl, rfl⟩
  unfold World.modifyFrame at hy
  by_cases hi : i = f
  · subst hi
    simp only [Function.update_self, Option.map_eq_some_iff] at hy
    obtain ⟨x, hx, rfl⟩ := hy
    exact ⟨x, hx, h x hx⟩
  · simp only [Function.update_of_ne hi] at hy
    exact ⟨y, hy, rfl⟩

theorem World.graph_unlatch (w : World V) (e : NodeId) : (w.unlatch e).graph = w.graph := by
  unfold World.unlatch
  split
  · rfl
  · split <;> rfl

theorem World.sameNodes_unlatch (w : World V) (e : NodeId) : w.SameNodes (w.unlatch e) := by
  unfold World.unlatch
  split
  · exact .refl w
  · split
    · exact (World.sameNodes_modifyEffect w e (fun x => { x with scheduled := false })
        fun _ _ => ⟨rfl, id⟩).trans (.of_eq rfl rfl rfl rfl rfl rfl rfl rfl)
    · exact .refl w

theorem World.Raised.sameNodes (h : w.Raised w') : w.SameNodes w' := by
  have hf := h.frame
  refine ⟨fun n hn => ?_, fun n hn => ?_, fun n hn => ?_, fun e y hy => ?_, fun n hn => ?_,
    fun f x hx => ⟨x, ?_, rfl⟩, by rw [hf], by rw [hf]⟩
  · rw [hf] at hn; exact hn
  · obtain ⟨y, hy⟩ := Option.isSome_iff_exists.mp hn
    obtain ⟨x, hx, _⟩ := rel_right (hy ▸ h.computed n)
    rw [hx]; rfl
  · rw [hf] at hn; exact hn
  · obtain ⟨x, hx, hxy⟩ := rel_right (hy ▸ h.effects e)
    exact ⟨x, hx, by rw [hxy.1], fun hd => by rw [hxy.1]; exact hd⟩
  · rw [hf] at hn; exact hn
  · rw [hf] at hx; exact hx

theorem World.noteObservation_frame (w : World V) (n : NodeId) (b : Bool) :
    w.SameNodes (w.noteObservation n b) ∧ ∃ hs f, w.noteObservation n b =
      { w with hooks := hs, flush := f } := by
  unfold World.noteObservation
  split
  · exact ⟨.refl w, _, _, rfl⟩
  · split
    · exact ⟨.refl w, _, _, rfl⟩
    · split
      · exact ⟨World.sameNodes_modifyHooks w n _, _, _, rfl⟩
      · exact ⟨(World.sameNodes_modifyHooks w n _).trans (.of_eq rfl rfl rfl rfl rfl rfl rfl rfl), _, _, rfl⟩

theorem World.observed_frame (w : World V) (n : NodeId) (r : Graph × Bool) : ∃ hs f,
    w.observed n r = { w with graph := r.1, hooks := hs, flush := f } := by
  unfold World.observed
  dsimp only
  split
  · exact (({ w with graph := r.1 } : World V).noteObservation_frame n true).2
  · exact ⟨_, _, rfl⟩

theorem World.noteUnobserved_frame (w : World V) (l : List NodeId) :
    w.SameNodes (w.noteUnobserved l) ∧ ∃ hs f, w.noteUnobserved l =
      { w with hooks := hs, flush := f } := by
  induction l generalizing w with
  | nil => exact ⟨.refl w, _, _, rfl⟩
  | cons n l ih =>
    obtain ⟨h1, hs, f, e1⟩ := w.noteObservation_frame n false
    obtain ⟨h2, hs', f', e2⟩ := ih (w.noteObservation n false)
    refine ⟨h1.trans h2, hs', f', ?_⟩
    change (w.noteObservation n false).noteUnobserved l = _
    rw [e2, e1]

namespace World.WellFormed

theorem empty : ({} : World V).WellFormed :=
  ⟨Graph.sound_empty, by simp, by simp, by simp, by simp, by simp, by simp, by simp⟩

theorem kept (h : w.WellFormed) (hg : w'.graph.Sound) (hn : w.graph.SameNodes w'.graph)
    (hs : w.SameNodes w') : w'.WellFormed := by
  refine ⟨hg, fun n hx => ?_, fun n hx => ?_, fun n hx => ?_, fun e x hx => ?_, fun n hx => ?_,
    fun f x hx => ?_, fun f hf => ?_⟩
  · rw [hn.kinds]
    exact h.signals n (hs.signals n hx)
  · rw [hn.kinds, hn.observers]
    exact h.computed n (hs.computed n hx)
  · rw [hn.kinds]
    exact h.events n (hs.events n hx)
  · obtain ⟨y, hy, ho, hd⟩ := hs.effects e x hx
    obtain ⟨h1, h1', h2⟩ := h.effects e y hy
    rw [hn.kinds, hn.observers, hn.nextNode, hs.nextFrame, ho]
    refine ⟨h1, h1', h2.imp (And.imp id fun ho hl => ho ?_) (And.imp id hd)⟩
    rw [Bool.eq_false_iff] at hl ⊢
    exact fun hyd => hl (hd hyd)
  · rw [hn.nextNode]
    exact h.hooks n (hs.hooks n hx)
  · obtain ⟨y, hy, hp⟩ := hs.frames f x hx
    rw [hs.nextFrame, hp]
    exact h.frames f y hy
  · rw [hs.nextFrame]
    exact h.owners f (hs.owners ▸ hf)

theorem same (h : w.WellFormed) (hg : w'.graph = w.graph) (hs : w.SameNodes w') :
    w'.WellFormed := h.kept (hg ▸ h.graph) (.of_eq (by rw [hg]) (by rw [hg]) (by rw [hg])) hs

theorem fresh (h : w.WellFormed) : w.graph.nodeKind w.graph.nextNode = none := by
  cases hk : w.graph.nodeKind w.graph.nextNode with
  | none => rfl
  | some k => exact absurd (h.graph.below _ (Graph.mem_of_nodeKind hk)) (Nat.lt_irrefl _)

theorem allocate (h : w.WellFormed) (kind : NodeKind) :
    ({ w with graph := w.graph.allocateNode kind } : World V).WellFormed := by
  have hk : ∀ n, n < w.graph.nextNode ∨ (w.graph.nodeKind n).isSome →
      (w.graph.allocateNode kind).nodeKind n = w.graph.nodeKind n := by
    intro n hn
    rw [Graph.nodeKind_allocateNode, if_neg]
    rintro rfl
    rcases hn with hn | hn
    · exact Nat.lt_irrefl _ hn
    · rw [h.fresh] at hn
      simp at hn
  refine ⟨h.graph.allocateNode kind, fun n hx => ?_, fun n hx => ?_, fun n hx => ?_,
    fun e x hx => ?_, fun n hx => Nat.lt_succ_of_lt (h.hooks n hx), h.frames, h.owners⟩
  · have := h.signals n hx
    exact (hk n (.inr (by rw [this]; rfl))).trans this
  · obtain ⟨h1, h2⟩ := h.computed n hx
    have hsome : (w.graph.nodeKind n).isSome := by rcases h1 with h1 | h1 <;> rw [h1] <;> rfl
    exact ⟨(hk n (.inr hsome)).symm ▸ h1, h2⟩
  · have := h.events n hx
    exact (hk n (.inr (by rw [this]; rfl))).trans this
  · obtain ⟨h1, h1', h2⟩ := h.effects e x hx
    exact ⟨Nat.lt_succ_of_lt h1, h1', (hk e (.inl h1)).symm ▸ h2⟩

theorem raised (h : w.WellFormed) (hr : w.Raised w') : w'.WellFormed := h.same hr.graph hr.sameNodes

theorem trigger (h : w.WellFormed) (n : NodeId) : (w.trigger env n).WellFormed := by
  have hb : (w.bumpVersion n).WellFormed :=
    h.kept (h.graph.bumpVersion n) (Graph.sameNodes_bumpVersion _ n) (.of_eq rfl rfl rfl rfl rfl rfl rfl rfl)
  exact hb.raised (marks_trigger env w n).raised

theorem write (h : w.WellFormed) (n : NodeId) (v : V) : (w.write env n v).WellFormed := by
  exact trigger (w := w.setValue n v) (h.same rfl (World.sameNodes_setValue w n v)) n

theorem noteZombie (h : w.WellFormed) (n : NodeId) : (w.noteZombie n).WellFormed := by
  unfold World.noteZombie
  split
  · split
    · exact h
    · exact h.same rfl (.of_eq rfl rfl rfl rfl rfl rfl rfl rfl)
  · exact h

theorem graph_noteZombie (w : World V) (n : NodeId) : (w.noteZombie n).graph = w.graph := by
  unfold World.noteZombie
  split
  · split <;> rfl
  · rfl

theorem observed (h : w.WellFormed) {n : NodeId} (untracked : Bool) {r : Graph × Bool}
    (live : n ∈ w.graph.nodeMeta) (hr : w.graph.tryObserve untracked n = .ok r) :
    (w.observed n r).WellFormed := by
  have hw : ({ w with graph := r.1 } : World V).WellFormed :=
    h.kept (h.graph.tryObserve untracked n live hr) (Graph.sameNodes_tryObserve hr)
      (.of_eq rfl rfl rfl rfl rfl rfl rfl rfl)
  unfold World.observed
  dsimp only
  split
  · obtain ⟨hs, _, _, he⟩ := ({ w with graph := r.1 } : World V).noteObservation_frame n true
    exact hw.same (by rw [he]) hs
  · exact hw

theorem disposeNode (h : w.WellFormed) (n : NodeId) (hs : w.signals n = none)
    (hc : w.computed n = none) (he : w.events n = none)
    (hx : ∀ x, w.effects n = some x → x.disposed = true) : (w.disposeNode env n).WellFormed := by
  obtain ⟨f1, f2, f3, f4, f5⟩ := Graph.dispose_frame env w.graph n
  have hk : ∀ d, d ≠ n → (w.graph.dispose env n).1.nodeKind d = w.graph.nodeKind d :=
    fun d hd => by rw [Graph.nodeKind_dispose, if_neg hd]
  have ho : ∀ d, d ≠ n → (d ∈ (w.graph.dispose env n).1.observers ↔ d ∈ w.graph.observers) :=
    fun d hd => by rw [f2, AList.mem_erase]; simp [hd]
  have hw : ({ w with graph := (w.graph.dispose env n).1 } : World V).WellFormed := by
    refine ⟨h.graph.dispose n, fun d hd => ?_, fun d hd => ?_, fun d hd => ?_, fun e x hex => ?_,
      fun d hd => ?_, h.frames, h.owners⟩
    · have hne : d ≠ n := by rintro rfl; simp [hs] at hd
      exact (hk d hne).trans (h.signals d hd)
    · have hne : d ≠ n := by rintro rfl; simp [hc] at hd
      obtain ⟨h1, h2⟩ := h.computed d hd
      exact ⟨(hk d hne).symm ▸ h1, (ho d hne).mpr h2⟩
    · have hne : d ≠ n := by rintro rfl; simp [he] at hd
      exact (hk d hne).trans (h.events d hd)
    · obtain ⟨h1, h1', h2⟩ := h.effects e x hex
      refine ⟨f5.symm ▸ h1, h1', ?_⟩
      by_cases hne : e = n
      · subst hne
        exact .inr ⟨by rw [Graph.nodeKind_dispose, if_pos rfl], hx x hex⟩
      · exact (hk e hne).symm ▸ h2.imp (And.imp id fun h hl => (ho e hne).mpr (h hl)) id
    · exact f5.symm ▸ h.hooks d hd
  obtain ⟨hu, _, _, e1⟩ := ({ w with graph := (w.graph.dispose env n).1 } : World V).noteUnobserved_frame
    (w.graph.dispose env n).2
  refine (hw.same (by rw [e1]) hu).same ?_ (World.sameNodes_modifyHooks _ n _)
  rfl

theorem modifyEffect (h : w.WellFormed) (e : NodeId) (g : EffectInner V → EffectInner V)
    (hg : ∀ x, w.effects e = some x → (g x).owner = x.owner ∧
      (x.disposed = true → (g x).disposed = true)) :
    (w.modifyEffect e g).WellFormed := h.same rfl (World.sameNodes_modifyEffect w e g hg)

theorem unlatch (h : w.WellFormed) (e : NodeId) : (w.unlatch e).WellFormed :=
  h.same (World.graph_unlatch w e) (World.sameNodes_unlatch w e)

theorem unregister (h : w.WellFormed) (n : NodeId) (hc : w.computed n = none)
    (hx : ∀ x, w.effects n = some x → x.disposed = true) :
    ({ w with graph := w.graph.unregisterObserver n } : World V).WellFormed := by
  have ho : ∀ d, d ≠ n → d ∈ w.graph.observers → d ∈ (w.graph.unregisterObserver n).observers :=
    fun d hd hm => AList.mem_erase.mpr ⟨hd, hm⟩
  refine ⟨h.graph.unregisterObserver n, h.signals, fun d hd => ?_, h.events, fun e x he => ?_, h.hooks,
    h.frames, h.owners⟩
  · have hne : d ≠ n := by rintro rfl; simp [hc] at hd
    exact ⟨(h.computed d hd).1, ho d hne (h.computed d hd).2⟩
  · obtain ⟨h1, h1', h2⟩ := h.effects e x he
    refine ⟨h1, h1', h2.imp (And.imp id fun hreg hl => ?_) id⟩
    refine ho e ?_ (hreg hl)
    rintro rfl
    rw [hx x he] at hl
    cases hl

theorem none_of_kind {α : Type} {f : NodeId → Option α} {n : NodeId} {P : Option NodeKind → Prop}
    (h : (f n).isSome → P (w.graph.nodeKind n)) (hn : ¬ P (w.graph.nodeKind n)) : f n = none := by
  cases hf : f n with
  | none => rfl
  | some a => exact absurd (h (by rw [hf]; rfl)) hn

theorem unhook (h : w.WellFormed) (e : NodeId) (hd : w.Closed e) : (w.unhook env e).WellFormed := by
  obtain ⟨x, hx, hxd⟩ := hd
  have hkind := (h.effects e x hx).2.2.imp And.left And.left
  have hdead : ∀ y, w.effects e = some y → y.disposed = true := by
    intro y hy
    rw [hx] at hy
    cases hy
    exact hxd
  have hs : w.signals e = none := none_of_kind (P := (· = some .signal)) (h.signals e)
    (by rcases hkind with hk | hk <;> rw [hk] <;> decide)
  have hc : w.computed e = none :=
    none_of_kind (P := fun k => k = some .thunk ∨ k = some .memo) (fun hc => (h.computed e hc).1)
      (by rcases hkind with hk | hk <;> rw [hk] <;> decide)
  have he : w.events e = none := none_of_kind (P := (· = some .event)) (h.events e)
    (by rcases hkind with hk | hk <;> rw [hk] <;> decide)
  exact (h.unregister e hc hdead).disposeNode e hs hc he hdead

theorem dropNode (h : w.WellFormed) (n : NodeId) (other : w.effects n = none) :
    (w.dropNode env n).WellFormed := by
  have hsub : ∀ {α : Type} (f : NodeId → Option α) (d : NodeId),
      (Function.update f n none d).isSome → d ≠ n ∧ (f d).isSome := by
    intro α f d hd
    by_cases hne : d = n
    · subst hne; simp at hd
    · rw [Function.update_of_ne hne] at hd
      exact ⟨hne, hd⟩
  have hcleared : ({ w with
      signals := Function.update w.signals n none
      computed := Function.update w.computed n none
      events := Function.update w.events n none } : World V).WellFormed := by
    exact h.same rfl ⟨fun d hd => (hsub _ d hd).2, fun d hd => (hsub _ d hd).2,
      fun d hd => (hsub _ d hd).2, fun _ x hx => ⟨x, hx, rfl, id⟩, fun _ => id,
      fun _ x hx => ⟨x, hx, rfl⟩, rfl, rfl⟩
  have hnone : ∀ x, w.effects n = some x → x.disposed = true := by simp [other]
  exact (hcleared.unregister n (Function.update_self ..) hnone).disposeNode n
    (Function.update_self ..) (Function.update_self ..) (Function.update_self ..) hnone

/-- A new node: its metadata, its registration, and what its handle refers to. -/
theorem create (h : w.WellFormed) (kind : NodeKind) (w' : World V) (observes : Bool)
    (hg : w'.graph = if observes then (w.graph.allocateNode kind).registerObserver w.graph.nextNode
      else w.graph.allocateNode kind)
    (hs : ∀ n, (w'.signals n).isSome → n = w.graph.nextNode ∧ kind = .signal ∨ (w.signals n).isSome)
    (hc : ∀ n, (w'.computed n).isSome → n = w.graph.nextNode ∧ (kind = .thunk ∨ kind = .memo) ∧
      observes = true ∨ (w.computed n).isSome)
    (he : ∀ n, (w'.events n).isSome → n = w.graph.nextNode ∧ kind = .event ∨ (w.events n).isSome)
    (hx : ∀ n x, w'.effects n = some x → n = w.graph.nextNode ∧ kind = .effect ∧ observes = true ∧
      x.owner < w.nextFrame ∨ w.effects n = some x)
    (hh : ∀ n, (w'.hooks n).isSome → n = w.graph.nextNode ∨ (w.hooks n).isSome)
    (hf : w'.frames = w.frames ∧ w'.nextFrame = w.nextFrame ∧ w'.owners = w.owners) :
    w'.WellFormed := by
  obtain ⟨hf1, hf2, hf3⟩ := hf
  have hall := h.allocate kind
  have hsound : w'.graph.Sound := by
    rw [hg]
    split
    · refine hall.graph.withObservers _ fun o ho => ?_
      rcases (AList.mem_insert _).mp ho with rfl | ho
      · exact (AList.mem_insert _).mpr (.inl rfl)
      · exact hall.graph.registered o ho
    · exact hall.graph
  have hmeta : w'.graph.nodeKind = (w.graph.allocateNode kind).nodeKind := by
    rw [hg]; split <;> rfl
  have hnext : w'.graph.nextNode = w.graph.nextNode + 1 := by rw [hg]; split <;> rfl
  have hnew : w'.graph.nodeKind w.graph.nextNode = some kind := by
    rw [hmeta, Graph.nodeKind_allocateNode, if_pos rfl]
  have hreg : observes = true → w.graph.nextNode ∈ w'.graph.observers := by
    intro ho
    rw [hg, if_pos ho]
    exact (AList.mem_insert _).mpr (.inl rfl)
  have hold : ∀ n ∈ w.graph.observers, n ∈ w'.graph.observers := by
    intro n hn
    rw [hg]
    split
    · exact (AList.mem_insert _).mpr (.inr hn)
    · exact hn
  refine ⟨hsound, fun n hn => ?_, fun n hn => ?_, fun n hn => ?_, fun n x hn => ?_,
    fun n hn => ?_, by rw [hf1, hf2]; exact h.frames, by rw [hf2, hf3]; exact h.owners⟩
  · rcases hs n hn with ⟨rfl, rfl⟩ | hn
    · exact hnew
    · rw [hmeta]; exact hall.signals n hn
  · rcases hc n hn with ⟨rfl, hk, ho⟩ | hn
    · rw [hnew, Option.some_inj, Option.some_inj]
      exact ⟨hk, hreg ho⟩
    · rw [hmeta]; exact ⟨(hall.computed n hn).1, hold n (hall.computed n hn).2⟩
  · rcases he n hn with ⟨rfl, rfl⟩ | hn
    · exact hnew
    · rw [hmeta]; exact hall.events n hn
  · rw [hf2]
    rcases hx n x hn with ⟨rfl, rfl, ho, hw⟩ | hn
    · exact ⟨hnext ▸ Nat.lt_succ_self _, hw, .inl ⟨hnew, fun _ => hreg ho⟩⟩
    · obtain ⟨h1, h1', h2⟩ := hall.effects n x hn
      rw [hmeta, hnext]
      exact ⟨h1, h1', h2.imp (And.imp id fun hr hl => hold n (hr hl)) id⟩
  · rw [hnext]
    rcases hh n hn with rfl | hn
    · exact Nat.lt_succ_self _
    · exact Nat.lt_succ_of_lt (h.hooks n hn)

theorem update_some {α : Type} {f : NodeId → Option α} {a : Option α} {n i : NodeId}
    (h : (Function.update f i a n).isSome) : n = i ∨ (f n).isSome := by
  by_cases hn : n = i
  · exact .inl hn
  · rw [Function.update_of_ne hn] at h
    exact .inr h

theorem newFrame (h : w.WellFormed) (handler : Option (Payload V → Prog V)) :
    (w.newFrame handler).WellFormed := by
  refine ⟨h.graph, h.signals, h.computed, h.events, fun e x hx => ?_, h.hooks, fun f x hx => ?_,
    fun f hf => Nat.lt_succ_of_lt (h.owners f hf)⟩
  · obtain ⟨h1, h1', h2⟩ := h.effects e x hx
    exact ⟨h1, Nat.lt_succ_of_lt h1', h2⟩
  · unfold World.newFrame at hx
    by_cases hf : f = w.nextFrame
    · subst hf
      simp only [Function.update_self, Option.some.injEq] at hx
      subst hx
      refine ⟨Nat.lt_succ_self _, fun q hq => h.owners q ?_⟩
      unfold World.currentOwner at hq
      rw [Option.join_eq_some_iff] at hq
      exact List.mem_of_head? hq
    · simp only [Function.update_of_ne hf] at hx
      exact ⟨Nat.lt_succ_of_lt (h.frames f x hx).1, (h.frames f x hx).2⟩

theorem step (hs : Step env w w') (h : w.WellFormed) : w'.WellFormed := by
  cases hs with
  | thread u o t p ho =>
    exact ⟨h.graph, h.signals, h.computed, h.events, h.effects, h.hooks, h.frames,
      fun f hf => (ho f hf).elim (h.owners f) id⟩
  | remark | queues | deliveries | flush | schedule | newSubscription | endSubscription =>
    exact h.same rfl (.of_eq rfl rfl rfl rfl rfl rfl rfl rfl)
  | newFrame handler => exact h.newFrame handler
  | adopt f child =>
    refine h.same rfl (World.sameNodes_modifyFrame w f _ fun x _ => ?_)
    dsimp only
    split <;> rfl
  | frame f g hg => exact h.same rfl (World.sameNodes_modifyFrame w f g fun x _ => (hg x).1)
  | observed n r live hr _ =>
    refine (h.noteZombie n).observed (0 < w.untracked) ?_ ?_
    · rw [graph_noteZombie]; exact live
    · rw [graph_noteZombie]; exact hr
  | write n v => exact h.write n v
  | trigger n => exact h.trigger n
  | scheduleEffect e => exact h.raised (.scheduleEffect w e)
  | event n f => exact h.same rfl (World.sameNodes_modifyEvent w n f)
  | newSignal v same =>
    exact h.create .signal _ false rfl (fun n hn => (update_some hn).imp (⟨·, rfl⟩) id)
      (fun _ => .inr) (fun _ => .inr) (fun _ _ => .inr) (fun _ => .inr) ⟨rfl, rfl, rfl⟩
  | newComputed compute equals =>
    refine h.create (if equals.isSome then .memo else .thunk) _ true rfl (fun _ => .inr)
      (fun n hn => (update_some hn).imp (⟨·, ?_, rfl⟩) id) (fun _ => .inr) (fun _ _ => .inr)
      (fun _ => .inr) ⟨rfl, rfl, rfl⟩
    cases equals
    · exact .inl rfl
    · exact .inr rfl
  | newSource watch =>
    exact h.create .source _ false rfl (fun _ => .inr) (fun _ => .inr) (fun _ => .inr)
      (fun _ _ => .inr) (fun n hn => update_some hn) ⟨rfl, rfl, rfl⟩
  | newEvent =>
    exact h.create .event _ false rfl (fun _ => .inr) (fun _ => .inr)
      (fun n hn => (update_some hn).imp (⟨·, rfl⟩) id) (fun _ _ => .inr) (fun _ => .inr)
      ⟨rfl, rfl, rfl⟩
  | dropNode n idle other => exact h.dropNode n other

theorem createStep (hs : CreateStep w w') (h : w.WellFormed) : w'.WellFormed := by
  cases hs with
  | effect body external =>
    refine (h.newFrame none).create .effect _ true rfl (fun _ => .inr) (fun _ => .inr)
      (fun _ => .inr) (fun n x hx => ?_) (fun _ => .inr) ⟨rfl, rfl, rfl⟩
    simp only [World.newEffect] at hx
    by_cases hn : n = w.graph.nextNode
    · subst hn
      rw [Function.update_self] at hx
      cases hx
      exact .inl ⟨rfl, rfl, rfl, Nat.lt_succ_self _⟩
    · rw [Function.update_of_ne hn] at hx
      exact .inr hx

theorem closeStep (hs : CloseStep env w w') (h : w.WellFormed) : w'.WellFormed := by
  cases hs with
  | closing e =>
    exact (h.modifyEffect e (fun x => { x with disposed := true })
      fun _ _ => ⟨rfl, fun _ => rfl⟩).unlatch e
  | unhook e hd => exact h.unhook e hd

theorem store (h : w.WellFormed) (n : NodeId) (v : V) : (w.store n v).WellFormed := by
  unfold World.store
  split
  · exact h
  · have hs : (w.modifyComputed n fun x => { x with value := some v }).WellFormed :=
      h.same rfl (World.sameNodes_modifyComputed w n _)
    split
    · exact hs.kept (hs.graph.bumpVersion n) (Graph.sameNodes_bumpVersion _ n)
        (.of_eq rfl rfl rfl rfl rfl rfl rfl rfl)
    · exact hs

theorem computeStep (hs : ComputeStep env w w') (h : w.WellFormed) : w'.WellFormed := by
  cases hs with
  | observed n r live hr =>
    refine (h.noteZombie n).observed (0 < w.untracked) ?_ ?_
    · rw [graph_noteZombie]; exact live
    · rw [graph_noteZombie]; exact hr
  | saw => exact h.same rfl (.of_eq rfl rfl rfl rfl rfl rfl rfl rfl)
  | setState n s => exact h.same rfl (World.sameNodes_modifyComputed w n _)
  | store n v => exact h.store n v

theorem contextStep (hs : ContextStep env w w') (h : w.WellFormed) : w'.WellFormed := by
  cases hs with
  | enter o ho known =>
    have hk : o < w.graph.nextNode := by
      rcases known with hk | ⟨x, hx, _⟩
      · rcases (h.computed o hk).1 with hk | hk <;>
          exact h.graph.below o (Graph.mem_of_nodeKind hk)
      · exact (h.effects o x hx).1
    have hg : ({ w with graph := (w.graph.enterContext env o).1, untracked := 0 } : World V).WellFormed :=
      h.kept (h.graph.enterContext o ho hk) (Graph.sameNodes_enterContext o)
        (.of_eq rfl rfl rfl rfl rfl rfl rfl rfl)
    obtain ⟨hu, _, _, e1⟩ := ({ w with
      graph := (w.graph.enterContext env o).1, untracked := 0 } : World V).noteUnobserved_frame
      (w.graph.enterContext env o).2
    exact (hg.same (by rw [e1]) hu).same rfl (.of_eq rfl rfl rfl rfl rfl rfl rfl rfl)
  | leave u =>
    exact h.kept h.graph.exitContext Graph.sameNodes_exitContext (.of_eq rfl rfl rfl rfl rfl rfl rfl rfl)

theorem runStep (hs : RunStep w w') (h : w.WellFormed) : w'.WellFormed := by
  cases hs with
  | popEffect e f r _ _ =>
    exact unlatch (w := { w with flush := f, runs := r })
      (h.same rfl (.of_eq rfl rfl rfl rfl rfl rfl rfl rfl)) e
  | ready e f r _ _ =>
    exact unlatch (w := { w with lane := w.lane.erase e, flush := f, runs := r })
      (h.same rfl (.of_eq rfl rfl rfl rfl rfl rfl rfl rfl)) e
  | popHooks n f | callHooks n k f =>
    have hf : ({ w with flush := f } : World V).WellFormed :=
      h.same rfl (.of_eq rfl rfl rfl rfl rfl rfl rfl rfl)
    have hs : (({ w with flush := f } : World V).modifyHooks n ObservationHooks.settle).WellFormed :=
      hf.same rfl (World.sameNodes_modifyHooks _ n _)
    exact hs.same rfl (.of_eq rfl rfl rfl rfl rfl rfl rfl rfl)
  | popUser => exact h.same rfl (.of_eq rfl rfl rfl rfl rfl rfl rfl rfl)
  | effect e g hg =>
    refine h.modifyEffect e g fun x hx => ?_
    obtain ⟨_, _, h3, h4, _⟩ := hg x hx
    exact ⟨h3, fun hd => h4.trans hd⟩

theorem anyStep (hs : AnyStep env w w') (h : w.WellFormed) : w'.WellFormed := by
  cases hs with
  | plain hs => exact .step hs h
  | create hs => exact .createStep hs h
  | close hs => exact .closeStep hs h
  | compute hs => exact .computeStep hs h
  | context hs => exact .contextStep hs h
  | run hs => exact .runStep hs h
  | caught r e p => exact h.same rfl (.of_eq rfl rfl rfl rfl rfl rfl rfl rfl)

end World.WellFormed

theorem Visited.wellFormed (h : Visited env w) : w.WellFormed := by
  induction h with
  | refl => exact .empty
  | tail _ hs ih => exact .anyStep hs ih

/-- What holds at first and is kept by every step holds in every world visited. -/
theorem Visited.invariant (h : Visited env w) (P : World V → Prop) (base : P {})
    (keep : ∀ a b, a.WellFormed → b.WellFormed → AnyStep env a b → P a → P b) : P w := by
  induction h with
  | refl => exact base
  | tail hv hs ih =>
    exact keep _ _ (Visited.wellFormed hv) (Visited.wellFormed (hv.tail hs)) hs ih

end Adaptite

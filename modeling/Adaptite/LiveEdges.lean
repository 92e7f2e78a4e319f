import Adaptite.Latches
import Adaptite.Preservation

set_option autoImplicit false

namespace Adaptite

open Unwinding

variable {V : Type} {env : Enumeration} {w w' : World V}

def Event.isZombie : Event V → Bool
  | .zombie _ _ => true
  | _ => false

/-- A tracked read was made by an observer that is gone. -/
def World.Haunted (w : World V) : Prop := ∃ e ∈ w.log, e.isZombie = true

instance (w : World V) : Decidable w.Haunted := inferInstanceAs (Decidable (∃ e ∈ w.log, _))

/-- Edges start at nodes that have metadata, unless a read went wrong. -/
def World.Rooted (w : World V) : Prop :=
  w.Haunted ∨ ∀ o d, d ∈ w.graph.edgesOf o → o ∈ w.graph.nodeMeta

/-- Edges only go, and with them at most the node that they start at. -/
def Graph.Shrinks (g g' : Graph) : Prop :=
  ∀ o d, d ∈ g'.edgesOf o → d ∈ g.edgesOf o ∧ (o ∈ g.nodeMeta → o ∈ g'.nodeMeta)

namespace Graph.Shrinks

variable {g g' g'' : Graph}

theorem refl (g : Graph) : g.Shrinks g := fun _ _ hd => ⟨hd, id⟩

theorem bumpVersion (g : Graph) (n : NodeId) : g.Shrinks (g.bumpVersion n) := fun o _ hd =>
  ⟨(Graph.edgesOf_bumpVersion g n o) ▸ hd, (Graph.mem_nodeMeta_bumpVersion g n o).mpr⟩

theorem dispose (hg : g.Sound) (n : NodeId) : g.Shrinks (g.dispose env n).1 := by
  obtain ⟨f1, _⟩ := Graph.dispose_frame env g n
  intro o d hd
  obtain ⟨h1, _, h3⟩ := (Graph.mem_edgesOf_dispose hg.inverse).mp hd
  exact ⟨h3, fun ho => f1 ▸ AList.mem_erase.mpr ⟨h1, ho⟩⟩

theorem enterContext (g : Graph) (o : NodeId) : g.Shrinks (g.enterContext env o).1 := by
  obtain ⟨f1, _⟩ := Graph.enterContext_frame env g o
  intro x d hd
  rw [Graph.edgesOf_enterContext] at hd
  split at hd
  · simp at hd
  · exact ⟨hd, fun hx => f1 ▸ hx⟩

theorem disposeNode (hg : w.graph.Sound) (n : NodeId) :
    w.graph.Shrinks (w.disposeNode env n).graph := by
  obtain ⟨_, _, _, e⟩ := ({ w with graph := (w.graph.dispose env n).1 } : World V).noteUnobserved_frame
    (w.graph.dispose env n).2
  unfold World.disposeNode
  dsimp only
  rw [e]
  exact dispose hg n

end Graph.Shrinks

theorem graph_enter (env : Enumeration) (w : World V) (o : NodeId) :
    (w.enter env o).graph = (w.graph.enterContext env o).1 := by
  obtain ⟨_, _, _, e⟩ := ({ w with
    graph := (w.graph.enterContext env o).1, untracked := 0 } : World V).noteUnobserved_frame
    (w.graph.enterContext env o).2
  unfold World.enter
  dsimp only
  rw [e]
  rfl

theorem AnyStep.shrinks (hw : w.WellFormed) (hs : AnyStep env w w') :
    w.graph.Shrinks w'.graph ∨ ∃ n r, w.graph.tryObserve (0 < w.untracked) n = .ok r ∧
      w' = (w.noteZombie n).observed n r := by
  have trigger : ∀ (u : World V) (n : NodeId), u.graph.Shrinks (u.trigger env n).graph := by
    intro u n
    rw [(marks_trigger env u n).raised.graph]
    exact .bumpVersion u.graph n
  have unlatch : ∀ (u : World V) (e : NodeId), u.graph.Shrinks (u.unlatch e).graph := by
    intro u e
    rw [World.graph_unlatch]
    exact .refl u.graph
  have allocate : ∀ kind, w.graph.Shrinks (w.graph.allocateNode kind) :=
    fun _ _ _ hd => ⟨hd, fun ho => (AList.mem_insert _).mpr (.inr ho)⟩
  have same := Graph.Shrinks.refl w.graph
  cases hs with
  | plain hs =>
    cases hs with
    | thread | remark | newFrame | adopt | frame | queues | deliveries | newSubscription
    | endSubscription | event | flush | schedule => exact .inl same
    | observed n r live hr plain => exact .inr ⟨n, r, hr, rfl⟩
    | write n v => exact .inl (trigger (w.setValue n v) n)
    | trigger n => exact .inl (trigger w n)
    | scheduleEffect e =>
      rw [(World.Raised.scheduleEffect w e).graph]
      exact .inl same
    | newComputed => exact .inl fun o d hd => allocate _ o d hd
    | newSignal | newSource | newEvent => exact .inl (allocate _)
    | dropNode n idle other =>
      exact .inl (Graph.Shrinks.disposeNode (w := { w with
        graph := w.graph.unregisterObserver n
        signals := Function.update w.signals n none
        computed := Function.update w.computed n none
        events := Function.update w.events n none }) (hw.graph.unregisterObserver n) n)
  | create hs =>
    cases hs with
    | effect => exact .inl fun o d hd => allocate _ o d hd
  | close hs =>
    cases hs with
    | closing e => exact .inl (unlatch _ e)
    | unhook e hd =>
      exact .inl (Graph.Shrinks.disposeNode (w := { w with graph := w.graph.unregisterObserver e })
        (hw.graph.unregisterObserver e) e)
  | compute hs =>
    cases hs with
    | observed n r live hr => exact .inr ⟨n, r, hr, rfl⟩
    | saw | setState => exact .inl same
    | store n v =>
      unfold World.store
      split
      · exact .inl same
      · split
        · exact .inl (.bumpVersion w.graph n)
        · exact .inl same
  | context hs =>
    cases hs with
    | enter o ho known => exact .inl (graph_enter env w o ▸ .enterContext w.graph o)
    | leave u =>
      obtain ⟨_, _, e⟩ := Graph.exitContext_frame w.graph
      unfold World.leave
      rw [e]
      exact .inl same
  | run hs =>
    cases hs with
    | popEffect e | ready e => exact .inl (unlatch _ e)
    | popHooks | callHooks | popUser | effect => exact .inl same
  | caught r e p => exact .inl same

/-- A read is made by the observer at the top of the stack. -/
theorem edges_observed {n : NodeId} {r : Graph × Bool}
    (hr : w.graph.tryObserve (0 < w.untracked) n = .ok r) {o d : NodeId}
    (hd : d ∈ ((w.noteZombie n).observed n r).graph.edgesOf o) :
    d ∈ w.graph.edgesOf o ∨ w.tracker = some o ∧ d = n := by
  obtain ⟨_, _, hg⟩ := (w.noteZombie n).observed_frame n r
  rw [hg] at hd
  change d ∈ r.1.edgesOf o at hd
  unfold Graph.tryObserve at hr
  split at hr
  · cases hr
  · split at hr
    · cases hr
      exact .inl hd
    · rename_i htracked
      split at hr
      · cases hr
        exact .inl hd
      · rename_i o' rest hs
        cases hr
        rw [Graph.edgesOf_recordEdge] at hd
        split at hd
        · rename_i ho
          subst ho
          rcases (AList.mem_insert _).mp hd with rfl | hd
          · refine .inr ⟨?_, rfl⟩
            unfold World.tracker
            rw [if_neg (by simpa using htracked), hs]
            rfl
          · exact .inl hd
        · exact .inl hd

theorem World.Rooted.step (hw : w.WellFormed) (hs : AnyStep env w w') (h : w.Rooted) :
    w'.Rooted := by
  have hgrows := World.Grows.anyStep hw hs
  rcases h with ⟨e, he, hz⟩ | hroot
  · exact .inl ⟨e, hgrows.log.subset he, hz⟩
  rcases hs.shrinks hw with hshrinks | ⟨n, r, hr, rfl⟩
  · refine .inr fun o d hd => ?_
    obtain ⟨h1, h2⟩ := hshrinks o d hd
    exact h2 (hroot o d h1)
  · obtain ⟨_, _, he⟩ := (w.noteZombie n).observed_frame n r
    obtain ⟨_, _, _, _, hg⟩ := Graph.tryObserve_frame hr
    by_cases hz : ((w.noteZombie n).observed n r).Haunted
    · exact .inl hz
    refine .inr fun o d hd => ?_
    have hmeta : o ∈ ((w.noteZombie n).observed n r).graph.nodeMeta ↔ o ∈ w.graph.nodeMeta := by
      rw [he, hg]
    rw [hmeta]
    rcases edges_observed hr hd with hd | ⟨ht, _⟩
    · exact hroot o d hd
    · by_contra ho
      refine hz ⟨.zombie o n, ?_, rfl⟩
      rw [he]
      change _ ∈ (w.noteZombie n).log
      unfold World.noteZombie
      rw [ht]
      simp only [ho, if_false]
      exact List.mem_cons_self

namespace Graph

variable {g : Graph}

/-- The nodes in the list were left without observers, the others as they were. -/
def Reports (g g' : Graph) (unobserved : List NodeId) : Prop :=
  ∀ d, g'.isObserved d = if d ∈ unobserved then false else g.isObserved d

theorem isObserved_congr {g' : Graph} {d : NodeId} (h : g'.observersOf d = g.observersOf d) :
    g'.isObserved d = g.isObserved d := by
  unfold isObserved observerCount
  rw [h]

theorem reports_forgetObserver (o d : NodeId) {acc : Graph × List NodeId}
    (h : g.Reports acc.1 acc.2) : g.Reports (forgetObserver o acc d).1 (forgetObserver o acc d).2 := by
  unfold forgetObserver
  split
  · exact h
  · rename_i watchers hw
    have hself : ∀ k : Graph, k.dependents = acc.1.dependents.insert d (watchers.erase o) →
        k.isObserved d = decide (0 < (watchers.erase o).size) ∧
          ∀ i, i ≠ d → k.isObserved i = acc.1.isObserved i := by
      intro k hk
      unfold isObserved observerCount observersOf
      rw [hk]
      exact ⟨by rw [AList.lookup_insert]; rfl, fun i hi => by rw [AList.lookup_insert_ne hi]⟩
    have hbefore : acc.1.isObserved d = decide (0 < watchers.size) := by
      unfold isObserved observerCount observersOf
      rw [hw]
      rfl
    have hle : (watchers.erase o).size ≤ watchers.size := by
      by_cases ho : o ∈ watchers
      · have := AList.size_erase_of_mem ho
        omega
      · rw [AList.erase_of_notMem ho]
    dsimp only
    split
    · rename_i hz
      intro i
      obtain ⟨h1, h2⟩ := hself (decObserved
        { acc.1 with dependents := acc.1.dependents.insert d (watchers.erase o) }) rfl
      by_cases hi : i = d
      · subst hi
        rw [h1, hz]
        simp
      · rw [h2 i hi, h i]
        simp [hi]
    · rename_i hz
      intro i
      obtain ⟨h1, h2⟩ := hself
        { acc.1 with dependents := acc.1.dependents.insert d (watchers.erase o) } rfl
      by_cases hi : i = d
      · subst hi
        have hpos : acc.1.isObserved i = true := by
          rw [hbefore, decide_eq_true_eq]
          omega
        have hi' := h i
        rw [hpos] at hi'
        have hlt : 0 < (watchers.erase o).size := Nat.pos_of_ne_zero hz
        rw [h1, decide_eq_true hlt]
        exact hi'
      · rw [h2 i hi, h i]

theorem reports_clear (env : Enumeration) (o : NodeId) (retain : Bool) :
    g.Reports (g.clearObserverDependencies env o retain).1
      (g.clearObserverDependencies env o retain).2 := by
  have none : ∀ k : Graph, k.dependents = g.dependents → g.Reports k [] := by
    intro k hk d
    unfold isObserved observerCount observersOf
    rw [hk]
    simp
  unfold clearObserverDependencies
  split
  · exact none g rfl
  · dsimp only
    split
    · split
      · exact none g rfl
      · exact none _ rfl
    · have hfold : ∀ (l : List NodeId) (acc : Graph × List NodeId), g.Reports acc.1 acc.2 →
          g.Reports (l.foldl (forgetObserver o) acc).1 (l.foldl (forgetObserver o) acc).2 := by
        intro l
        induction l with
        | nil => exact fun _ h => h
        | cons d l ih => exact fun acc h => ih _ (reports_forgetObserver o d h)
      exact hfold _ _ (none _ rfl)

theorem reports_enterContext (env : Enumeration) (o : NodeId) :
    g.Reports (g.enterContext env o).1 (g.enterContext env o).2 :=
  reports_clear (g := { g with activeComputations := o :: g.activeComputations }) env o true

theorem reports_dispose (env : Enumeration) (n d : NodeId) (hd : d ≠ n) :
    (g.dispose env n).1.isObserved d =
      if d ∈ (g.dispose env n).2 then false else g.isObserved d := by
  refine (isObserved_congr ?_).trans (reports_clear (g := g) env n false d)
  have h := (retire_frame env (g.clearObserverDependencies env n false).1 n).2.1
  unfold dispose observersOf
  rw [h, AList.lookup_erase_ne hd]

end Graph

/-- The delivery of a change, where a queued one is not queued again. -/
def ObservationHooks.note (observed : Bool) (h : ObservationHooks V) : ObservationHooks V :=
  if h.cancelled then h else { h with observed := observed, queued := true }

theorem hooks_noteObservation (w : World V) (n : NodeId) (b : Bool) :
    (w.noteObservation n b).hooks =
      Function.update w.hooks n ((w.hooks n).map (ObservationHooks.note b)) := by
  unfold World.noteObservation ObservationHooks.note
  cases hh : w.hooks n with
  | none =>
    dsimp only
    rw [Option.map_none, ← hh, Function.update_eq_self]
  | some h =>
    dsimp only
    by_cases hc : h.cancelled = true
    · rw [if_pos hc, Option.map_some, if_pos hc, ← hh, Function.update_eq_self]
    · rw [if_neg hc, Option.map_some, if_neg hc]
      by_cases hq : h.queued = true
      · rw [if_pos hq]
        unfold World.modifyHooks
        rw [hh, Option.map_some, hq]
      · rw [if_neg hq]
        unfold World.modifyHooks World.schedule
        rw [hh, Option.map_some]

theorem note_note (b : Bool) (h : ObservationHooks V) : (h.note b).note b = h.note b := by
  unfold ObservationHooks.note
  by_cases hc : h.cancelled = true
  · simp only [hc, if_true]
  · simp only [hc, Bool.false_eq_true, if_false]

theorem hooks_noteUnobserved (w : World V) (l : List NodeId) (i : NodeId) :
    (w.noteUnobserved l).hooks i =
      if i ∈ l then (w.hooks i).map (ObservationHooks.note false) else w.hooks i := by
  induction l generalizing w with
  | nil => rfl
  | cons n l ih =>
    change ((w.noteObservation n false).noteUnobserved l).hooks i = _
    rw [ih, hooks_noteObservation]
    by_cases hi : i = n
    · subst hi
      rw [Function.update_self, Option.map_map, if_pos List.mem_cons_self]
      split
      · exact congrArg (fun f => (w.hooks i).map f) (funext (note_note false))
      · rfl
    · rw [Function.update_of_ne hi]
      simp [hi]

/-- What the hooks of a node believe: they know whether the node is observed, and
unless a delivery is on its way they have been told. -/
def World.WatchesAt (w : World V) (n : NodeId) : Prop :=
  ∀ h, w.hooks n = some h → h.cancelled = false →
    h.observed = w.graph.isObserved n ∧ (h.queued = false → h.delivered = h.observed)

def World.Watching (w : World V) : Prop := ∀ n, w.WatchesAt n

theorem note_spec {b : Bool} {h k : ObservationHooks V} (hk : h.note b = k)
    (hc : k.cancelled = false) : h.cancelled = false ∧ k.observed = b ∧ k.queued = true := by
  unfold ObservationHooks.note at hk
  split at hk
  · rename_i hcc
    rw [← hk, hcc] at hc
    cases hc
  · rename_i hcc
    rw [← hk]
    exact ⟨by simpa using hcc, rfl, rfl⟩

theorem World.WatchesAt.congr {n : NodeId} (h : w.WatchesAt n) (hh : w'.hooks n = w.hooks n)
    (hg : w'.graph.isObserved n = w.graph.isObserved n) : w'.WatchesAt n :=
  fun k hk hc => hg ▸ h k (hh ▸ hk) hc

theorem World.WatchesAt.noted {n : NodeId} {b : Bool}
    (hh : w'.hooks n = (w.hooks n).map (ObservationHooks.note b)) (hb : w'.graph.isObserved n = b) :
    w'.WatchesAt n := by
  intro k hk hc
  rw [hh, Option.map_eq_some_iff] at hk
  obtain ⟨k', _, hn⟩ := hk
  obtain ⟨_, ho, hq⟩ := note_spec hn hc
  exact ⟨ho.trans hb.symm, fun hq' => absurd (hq.symm.trans hq') (by decide)⟩

namespace World.Watching

theorem same (h : w.Watching) (hh : w'.hooks = w.hooks) (hg : w'.graph = w.graph) : w'.Watching :=
  fun n => (h n).congr (by rw [hh]) (by rw [hg])

theorem raised (h : w.Watching) (hr : w.Raised w') : w'.Watching :=
  h.same (by rw [hr.frame]) hr.graph

theorem bumpVersion (h : w.Watching) (n : NodeId) : (w.bumpVersion n).Watching :=
  fun d => (h d).congr rfl (Graph.isObserved_congr (Graph.observersOf_bumpVersion w.graph n d))

theorem modifyHooks (h : w.Watching) (n : NodeId) (f : ObservationHooks V → ObservationHooks V)
    (hf : ∀ k, w.hooks n = some k → (f k).cancelled = false → k.cancelled = false ∧
      (f k).observed = k.observed ∧ ((f k).queued = false → (f k).delivered = (f k).observed)) :
    (w.modifyHooks n f).Watching := by
  intro i
  by_cases hi : i = n
  · subst hi
    intro k hk hc
    unfold World.modifyHooks at hk
    simp only [Function.update_self, Option.map_eq_some_iff] at hk
    obtain ⟨k', hk', rfl⟩ := hk
    obtain ⟨h1, h2, h3⟩ := hf k' hk' hc
    exact ⟨h2.trans (h i k' hk' h1).1, h3⟩
  · exact (h i).congr (Function.update_of_ne hi _ _) rfl

theorem noteUnobserved (h : w.Watching) {g : Graph} {l : List NodeId} {n : NodeId}
    (hr : g.isObserved n = if n ∈ l then false else w.graph.isObserved n) :
    (({ w with graph := g } : World V).noteUnobserved l).WatchesAt n := by
  obtain ⟨_, _, _, e⟩ := ({ w with graph := g } : World V).noteUnobserved_frame l
  have hg : (({ w with graph := g } : World V).noteUnobserved l).graph = g := by rw [e]
  have hh := hooks_noteUnobserved ({ w with graph := g } : World V) l n
  by_cases hn : n ∈ l
  · rw [if_pos hn] at hr hh
    exact .noted (w := w) hh (hg.symm ▸ hr)
  · rw [if_neg hn] at hr hh
    exact (h n).congr hh (hg.symm ▸ hr)

theorem disposeNode (h : w.Watching) (n : NodeId) : (w.disposeNode env n).Watching := by
  intro d
  by_cases hd : d = n
  · subst hd
    intro k hk hc
    unfold World.disposeNode World.modifyHooks at hk
    simp only [Function.update_self, Option.map_eq_some_iff] at hk
    obtain ⟨_, _, rfl⟩ := hk
    cases hc
  · exact (h.noteUnobserved (Graph.reports_dispose env n d hd)).congr
      (Function.update_of_ne hd _ _) rfl

theorem enter (h : w.Watching) (o : NodeId) : (w.enter env o).Watching := fun d =>
  (noteUnobserved (w := { w with untracked := 0 }) h (Graph.reports_enterContext env o d)).congr
    rfl rfl

theorem noteObservation (h : w.Watching) {g : Graph} {n : NodeId} {b : Bool}
    (hn : g.isObserved n = b) (hr : ∀ d, d ≠ n → g.isObserved d = w.graph.isObserved d) :
    (({ w with graph := g } : World V).noteObservation n b).Watching := by
  intro d
  obtain ⟨_, _, _, e⟩ := ({ w with graph := g } : World V).noteObservation_frame n b
  have hg : (({ w with graph := g } : World V).noteObservation n b).graph = g := by rw [e]
  have hh := hooks_noteObservation ({ w with graph := g } : World V) n b
  by_cases hd : d = n
  · subst hd
    exact .noted (w := w) (by rw [hh, Function.update_self]) (hg.symm ▸ hn)
  · exact (h d).congr (by rw [hh, Function.update_of_ne hd]) (hg.symm ▸ hr d hd)

theorem isObserved_recordEdge (g : Graph) (o n d : NodeId) :
    (g.recordEdge o n).1.isObserved d = if d = n then true else g.isObserved d := by
  have hobs := Graph.observersOf_recordEdge g o n d
  by_cases hd : d = n
  · subst hd
    rw [if_pos rfl] at hobs ⊢
    unfold Graph.isObserved Graph.observerCount
    rw [hobs, decide_eq_true_eq]
    refine Nat.pos_of_ne_zero fun hz => ?_
    exact AList.size_eq_zero.mp hz o ((AList.mem_insert _).mpr (.inl rfl))
  · rw [if_neg hd] at hobs ⊢
    exact Graph.isObserved_congr hobs

theorem observed (h : w.Watching) (n : NodeId) {u : Bool} {r : Graph × Bool}
    (hr : w.graph.tryObserve u n = .ok r) : ((w.noteZombie n).observed n r).Watching := by
  have hz : (w.noteZombie n).Watching := by
    refine h.same ?_ (World.WellFormed.graph_noteZombie w n)
    unfold World.noteZombie
    split
    · split <;> rfl
    · rfl
  have hg := World.WellFormed.graph_noteZombie w n
  unfold Graph.tryObserve at hr
  split at hr
  · cases hr
  · split at hr
    · cases hr
      exact hz.same rfl hg.symm
    · split at hr
      · cases hr
        exact hz.same rfl hg.symm
      · rename_i o rest hs
        cases hr
        have hat := isObserved_recordEdge w.graph o n
        unfold World.observed
        dsimp only
        split
        · refine hz.noteObservation ((hat n).trans (if_pos rfl)) fun d hd => ?_
          rw [hat d, if_neg hd, hg]
        · rename_i hb
          intro d
          refine (hz d).congr rfl ?_
          change (w.graph.recordEdge o n).1.isObserved d = _
          rw [hat d, hg]
          split
          · rename_i hd
            subst hd
            unfold Graph.recordEdge at hb
            unfold Graph.isObserved Graph.observerCount
            rw [eq_comm, decide_eq_true_eq]
            exact Nat.pos_of_ne_zero fun hz => hb (by simp [hz])
          · rfl

theorem step (hw : w.WellFormed) (hs : AnyStep env w w') (h : w.Watching) : w'.Watching := by
  cases hs with
  | plain hs =>
    cases hs with
    | thread | remark | newFrame | adopt | frame | queues | deliveries | newSubscription
    | endSubscription | event | flush | schedule => exact h.same rfl rfl
    | observed n r live hr plain => exact h.observed n hr
    | write n v =>
      have hv : (w.setValue n v).Watching := h.same rfl rfl
      exact raised (hv.bumpVersion n)
        (marks_trigger env (w.setValue n v) n).raised
    | trigger n => exact (h.bumpVersion n).raised (marks_trigger env w n).raised
    | scheduleEffect e => exact h.raised (.scheduleEffect w e)
    | newSignal | newComputed | newEvent => exact fun n => (h n).congr rfl rfl
    | newSource watch =>
      intro n
      by_cases hn : n = w.graph.nextNode
      · subst hn
        intro k hk _
        simp only [World.newSource, Function.update_self, Option.map_eq_some_iff] at hk
        obtain ⟨_, _, rfl⟩ := hk
        refine ⟨?_, fun _ => rfl⟩
        have hnone : ∀ o, o ∉ w.graph.observersOf w.graph.nextNode := by
          intro o ho
          have := hw.graph.ends o _ ((hw.graph.inverse o _).mpr ho)
          exact Nat.lt_irrefl _ (hw.graph.below _ this)
        change false = w.graph.isObserved w.graph.nextNode
        unfold Graph.isObserved Graph.observerCount
        rw [AList.size_eq_zero.mpr hnone]
        rfl
      · exact (h n).congr (Function.update_of_ne hn _ _) rfl
    | dropNode n idle other =>
      exact disposeNode (w := { w with
          graph := w.graph.unregisterObserver n
          signals := Function.update w.signals n none
          computed := Function.update w.computed n none
          events := Function.update w.events n none }) (fun d => (h d).congr rfl rfl) n
  | create hs =>
    cases hs with
    | effect => exact fun n => (h n).congr rfl rfl
  | close hs =>
    cases hs with
    | closing e =>
      refine h.same ?_ (World.graph_unlatch _ e)
      unfold World.closing
      rw [unlatch_frame]
      rfl
    | unhook e hd =>
      exact disposeNode (w := { w with graph := w.graph.unregisterObserver e })
        (fun n => (h n).congr rfl rfl) e
  | compute hs =>
    cases hs with
    | observed n r live hr => exact h.observed n hr
    | saw | setState => exact h.same rfl rfl
    | store n v =>
      unfold World.store
      split
      · exact h
      · split
        · exact bumpVersion (h.same rfl rfl) n
        · exact h.same rfl rfl
  | context hs =>
    cases hs with
    | enter o ho known => exact h.enter o
    | leave u =>
      obtain ⟨_, _, e⟩ := Graph.exitContext_frame w.graph
      refine fun n => (h n).congr rfl ?_
      unfold World.leave
      rw [e]
      rfl
  | run hs =>
    cases hs with
    | popEffect e | ready e =>
      refine h.same ?_ (World.graph_unlatch _ e)
      rw [unlatch_frame]
    | popHooks n f hp | callHooks n _ f hp =>
      have hs : (({ w with flush := f } : World V).modifyHooks n ObservationHooks.settle).Watching := ?_
      · exact hs.same rfl rfl
      refine modifyHooks (w := { w with flush := f }) (h.same rfl rfl) n _ fun k hk hc => ?_
      unfold ObservationHooks.settle at hc ⊢
      exact ⟨hc, rfl, fun _ => by rw [hc]; rfl⟩
    | popUser | effect => exact h.same rfl rfl
  | caught r e p => exact h.same rfl rfl

end World.Watching

theorem Visited.watching (h : Visited env w) : w.Watching :=
  h.invariant World.Watching (by intro n k hk; simp at hk) fun _ _ ha _ hs hr => hr.step ha hs

section Haunted

end Haunted

end Adaptite

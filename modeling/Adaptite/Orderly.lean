import Adaptite.Preservation

set_option autoImplicit false

namespace Adaptite

open Unwinding

variable {V : Type} {env : Enumeration} {a b c w : World V}

namespace Flush

variable {J : Type} {f g h : Flush J}

/-- The queue of `g` is that of `f` later on: jobs are taken in front and added behind. -/
def Follows (f g : Flush J) : Prop :=
  ∃ s, g.started = f.started ++ s ∧ f.pendingJobs <+: s ++ g.pendingJobs

theorem Follows.of_eq (h1 : g.started = f.started) (h2 : g.pendingJobs = f.pendingJobs) :
    f.Follows g := ⟨[], by simpa using h1, by simp [h2]⟩

theorem Follows.refl (f : Flush J) : f.Follows f := .of_eq rfl rfl

theorem Follows.trans (hfg : f.Follows g) (hgh : g.Follows h) : f.Follows h := by
  obtain ⟨s, hs, u, hu⟩ := hfg
  obtain ⟨s', hs', u', hu'⟩ := hgh
  refine ⟨s ++ s', by rw [hs', hs, List.append_assoc], u ++ u', ?_⟩
  rw [List.append_assoc, ← hu', ← List.append_assoc, ← List.append_assoc, hu, List.append_assoc]

theorem Follows.same (h : f.SameQueue g) : f.Follows g := .of_eq h.2.2 h.1

theorem Follows.schedule (f : Flush J) (job : J) : f.Follows (f.schedule job) := by
  unfold Flush.schedule ensureFlushScheduled
  split <;> exact ⟨[], by simp, [job], by simp⟩

theorem Follows.popJob {job : J} (h : f.popJob = some (job, g)) : f.Follows g := by
  unfold Flush.popJob at h
  split at h
  · cases h
  · rename_i hp
    cases h
    exact ⟨[job], rfl, [], by simp [hp]⟩

end Flush

theorem flush_noteObservation (w : World V) (n : NodeId) (o : Bool) :
    w.flush.Follows (w.noteObservation n o).flush := by
  unfold World.noteObservation
  split
  · exact .refl _
  · split
    · exact .refl _
    · split
      · exact .refl _
      · exact .schedule w.flush _

theorem flush_noteUnobserved (w : World V) (l : List NodeId) :
    w.flush.Follows (w.noteUnobserved l).flush := by
  induction l generalizing w with
  | nil => exact .refl _
  | cons n l ih => exact (flush_noteObservation w n false).trans (ih _)

theorem flush_scheduleEffect (w : World V) (e : NodeId) :
    w.flush.Follows (w.scheduleEffect e).flush := by
  unfold World.scheduleEffect
  split
  · exact .refl _
  · split
    · exact .refl _
    · split
      · exact .refl _
      · exact .schedule w.flush _

theorem MarkStep.flush (h : MarkStep a b) : a.flush.Follows b.flush := by
  cases h with
  | effect e m => exact flush_scheduleEffect _ e
  | _ => exact .refl _

theorem Marks.flush (h : Marks a b) : a.flush.Follows b.flush := by
  induction h with
  | refl => exact .refl _
  | tail _ hs ih => exact ih.trans hs.flush

/-- What the log gained speaks of no run that began before. -/
def World.Logs (a b : World V) : Prop :=
  ∃ l, b.log = l ++ a.log ∧ ∀ r e p, .caught r e p ∈ l → a.runs ≤ r

structure World.Orderly (a b : World V) : Prop where
  stack : b.graph.stack = a.graph.stack
  active : b.graph.activeComputations = a.graph.activeComputations
  closed : ∀ e, b.Closed e → e ∈ b.graph.nodeMeta → a.Closed e ∧ e ∈ a.graph.nodeMeta
  runs : a.runs ≤ b.runs
  logs : a.Logs b
  flush : a.flush.Follows b.flush

theorem World.Logs.same (h : b.log = a.log) : a.Logs b := ⟨[], h, by simp⟩

theorem World.Logs.remarks (l : List (Event V)) (h : b.log = l ++ a.log)
    (hl : ∀ e ∈ l, e.isRemark = true) : a.Logs b := by
  refine ⟨l, h, fun r e p hm => ?_⟩
  have := hl _ hm
  cases this

theorem World.Logs.trans (h : a.Logs b) (h' : b.Logs c) (hr : a.runs ≤ b.runs) : a.Logs c := by
  obtain ⟨l, hl, hc⟩ := h
  obtain ⟨l', hl', hc'⟩ := h'
  refine ⟨l' ++ l, by rw [hl', hl, List.append_assoc], fun r e p hm => ?_⟩
  rcases List.mem_append.mp hm with hm | hm
  · exact hr.trans (hc' r e p hm)
  · exact hc r e p hm

namespace World.Orderly

theorem refl (a : World V) : a.Orderly a :=
  ⟨rfl, rfl, fun _ hc hm => ⟨hc, hm⟩, le_refl _, .same rfl, .refl _⟩

theorem trans (h : a.Orderly b) (h' : b.Orderly c) : a.Orderly c := by
  refine ⟨h'.stack.trans h.stack, h'.active.trans h.active, fun e hc hm => ?_,
    h.runs.trans h'.runs, h.logs.trans h'.logs h.runs, h.flush.trans h'.flush⟩
  obtain ⟨hc, hm⟩ := h'.closed e hc hm
  exact h.closed e hc hm

theorem same (hg : b.graph = a.graph) (he : b.effects = a.effects) (hr : b.runs = a.runs)
    (hl : a.Logs b) (hf : a.flush.Follows b.flush) : a.Orderly b := by
  refine ⟨by rw [hg], by rw [hg], fun e hc hm => ⟨?_, by rwa [hg] at hm⟩, hr.ge, hl, hf⟩
  obtain ⟨x, hx, hd⟩ := hc
  exact ⟨x, he ▸ hx, hd⟩

theorem graph {g : Graph} (h1 : g.stack = a.graph.stack)
    (h2 : g.activeComputations = a.graph.activeComputations)
    (h3 : ∀ n, n ∈ g.nodeMeta → n ∈ a.graph.nodeMeta) : a.Orderly { a with graph := g } :=
  ⟨h1, h2, fun _ hc hm => ⟨hc, h3 _ hm⟩, le_refl _, .same rfl, .refl _⟩

theorem bumpVersion (a : World V) (n : NodeId) : a.Orderly (a.bumpVersion n) :=
  graph (Graph.stack_bumpVersion _ _) (Graph.active_bumpVersion _ _)
    fun i => (Graph.mem_nodeMeta_bumpVersion _ _ i).mp

theorem closed_of_update {e : NodeId} {g : EffectInner V → EffectInner V}
    (hg : ∀ x, a.effects e = some x → (g x).disposed = x.disposed)
    (he : b.effects = Function.update a.effects e ((a.effects e).map g)) {i : NodeId}
    (h : b.Closed i) : a.Closed i := by
  obtain ⟨y, hy, hd⟩ := h
  rw [he] at hy
  by_cases hi : i = e
  · subst hi
    simp only [Function.update_self, Option.map_eq_some_iff] at hy
    obtain ⟨x, hx, rfl⟩ := hy
    exact ⟨x, hx, (hg x hx).symm.trans hd⟩
  · simp only [Function.update_of_ne hi] at hy
    exact ⟨y, hy, hd⟩

theorem modifyEffect (a : World V) (e : NodeId) (g : EffectInner V → EffectInner V)
    (hg : ∀ x, a.effects e = some x → (g x).disposed = x.disposed) :
    a.Orderly (a.modifyEffect e g) :=
  ⟨rfl, rfl, fun _ hc hm => ⟨closed_of_update hg rfl hc, hm⟩, le_refl _, .same rfl, .refl _⟩

theorem raised (h : a.Raised b) (hf : a.flush.Follows b.flush) : a.Orderly b := by
  refine ⟨by rw [h.graph], by rw [h.graph], fun e hc hm => ⟨?_, by rwa [h.graph] at hm⟩,
    by rw [h.frame], .same (by rw [h.frame]), hf⟩
  obtain ⟨y, hy, hd⟩ := hc
  obtain ⟨x, hx, hxy⟩ := rel_right (hy ▸ h.effects e)
  exact ⟨x, hx, by rw [hxy.1] at hd; exact hd⟩

theorem trigger (a : World V) (n : NodeId) : a.Orderly (a.trigger env n) :=
  (bumpVersion a n).trans
    (raised (marks_trigger env a n).raised (marks_trigger env a n).flush)

theorem unlatch (a : World V) (e : NodeId) : a.Orderly (a.unlatch e) := by
  refine ⟨by rw [World.graph_unlatch], by rw [World.graph_unlatch], fun i hc hm => ⟨?_, ?_⟩,
    by rw [unlatch_frame], .same (by rw [unlatch_frame]), by rw [unlatch_frame]; exact .refl _⟩
  · exact closed_of_update (g := fun x => { x with scheduled := false }) (fun _ _ => rfl)
      (effects_unlatch _ _) hc
  · rwa [World.graph_unlatch] at hm

theorem noteUnobserved (a : World V) (l : List NodeId) : a.Orderly (a.noteUnobserved l) := by
  obtain ⟨_, _, f, he⟩ := a.noteUnobserved_frame l
  have hf := flush_noteUnobserved a l
  rw [he] at hf ⊢
  exact same rfl rfl rfl (.same rfl) hf

theorem noteObservation (a : World V) (n : NodeId) (o : Bool) :
    a.Orderly (a.noteObservation n o) := by
  obtain ⟨_, _, f, he⟩ := a.noteObservation_frame n o
  have hf := flush_noteObservation a n o
  rw [he] at hf ⊢
  exact same rfl rfl rfl (.same rfl) hf

theorem observed (a : World V) (n : NodeId) {u : Bool} {r : Graph × Bool}
    (h : a.graph.tryObserve u n = .ok r) : a.Orderly ((a.noteZombie n).observed n r) := by
  have hz : a.Orderly (a.noteZombie n) := by
    unfold World.noteZombie
    split
    · split
      · exact refl a
      · exact same rfl rfl rfl ⟨[_], rfl, by simp⟩ (.refl _)
    · exact refl a
  have hg : (a.noteZombie n).Orderly { a.noteZombie n with graph := r.1 } := by
    obtain ⟨_, _, _, _, he⟩ := Graph.tryObserve_frame h
    rw [← World.WellFormed.graph_noteZombie a n] at he
    rw [he]
    exact graph rfl rfl fun _ => id
  unfold World.observed
  dsimp only
  split
  · exact (hz.trans hg).trans (noteObservation _ n true)
  · exact hz.trans hg

theorem modifyHooks (a : World V) (n : NodeId) (f : ObservationHooks V → ObservationHooks V) :
    a.Orderly (a.modifyHooks n f) := same rfl rfl rfl (.same rfl) (.refl _)

theorem disposeNode (a : World V) (n : NodeId) : a.Orderly (a.disposeNode env n) := by
  obtain ⟨f1, _, f3, f4, _⟩ := Graph.dispose_frame env a.graph n
  have hg : a.Orderly { a with graph := (a.graph.dispose env n).1 } :=
    graph f3 f4 fun i hi => (AList.mem_erase.mp (f1 ▸ hi)).2
  exact (hg.trans (noteUnobserved _ _)).trans (modifyHooks _ n _)

/-- A node is allocated, and no effect that is disposed bears its id. -/
theorem allocate (hw : a.WellFormed) (kind : NodeKind) (h1 : b.graph.stack = a.graph.stack)
    (h2 : b.graph.activeComputations = a.graph.activeComputations)
    (h3 : b.graph.nodeMeta = (a.graph.allocateNode kind).nodeMeta)
    (he : ∀ e, b.Closed e → a.Closed e) (hr : b.runs = a.runs) (hl : b.log = a.log)
    (hf : b.flush = a.flush) : a.Orderly b := by
  refine ⟨h1, h2, fun e hc hm => ⟨he e hc, ?_⟩, hr.ge, .same hl, hf ▸ .refl _⟩
  obtain ⟨x, hx, _⟩ := he e hc
  rw [h3] at hm
  exact ((AList.mem_insert _).mp hm).resolve_left (hw.effects e x hx).1.ne

theorem step (hw : a.WellFormed) (h : Step env a b) : a.Orderly b := by
  cases h with
  | thread | newFrame | adopt | frame | queues | newSubscription | endSubscription | event =>
    exact same rfl rfl rfl (.same rfl) (.refl _)
  | remark e he => exact same rfl rfl rfl (.remarks [e] rfl (by simpa using he)) (.refl _)
  | deliveries d l hl => exact same rfl rfl rfl (.remarks l rfl hl) (.refl _)
  | flush f hf => exact same rfl rfl rfl (.same rfl) (.same hf)
  | schedule p => exact same rfl rfl rfl (.same rfl) (.schedule _ _)
  | observed n r _ hr _ => exact observed a n hr
  | write n v =>
    exact (same rfl rfl rfl (.same rfl) (.refl _) : a.Orderly (a.setValue n v)).trans (trigger _ n)
  | trigger n => exact trigger a n
  | scheduleEffect e => exact raised (.scheduleEffect a e) (flush_scheduleEffect a e)
  | newSignal | newSource | newEvent =>
    exact allocate hw _ rfl rfl rfl (fun _ => id) rfl rfl rfl
  | newComputed compute equals => exact allocate hw _ rfl rfl rfl (fun _ => id) rfl rfl rfl
  | dropNode n _ _ =>
    refine (graph (g := a.graph.unregisterObserver n) rfl rfl fun _ => id).trans ?_
    exact (same rfl rfl rfl (.same rfl) (.refl _) : World.Orderly
      { a with graph := a.graph.unregisterObserver n } { a with
        graph := a.graph.unregisterObserver n
        signals := Function.update a.signals n none
        computed := Function.update a.computed n none
        events := Function.update a.events n none }).trans (disposeNode _ n)

theorem createStep (hw : a.WellFormed) (h : CreateStep a b) : a.Orderly b := by
  cases h with
  | effect body external =>
    refine allocate hw .effect rfl rfl rfl (fun e hc => ?_) rfl rfl rfl
    obtain ⟨x, hx, hd⟩ := hc
    simp only [World.newEffect] at hx
    by_cases he : e = a.graph.nextNode
    · subst he
      rw [Function.update_self] at hx
      cases hx
      cases hd
    · rw [Function.update_of_ne he] at hx
      exact ⟨x, hx, hd⟩

theorem computeStep (h : ComputeStep env a b) : a.Orderly b := by
  cases h with
  | observed n r _ hr => exact observed a n hr
  | saw o n v _ _ _ => exact same rfl rfl rfl ⟨[.saw o n v], rfl, by simp⟩ (.refl _)
  | setState n s => exact same rfl rfl rfl (.same rfl) (.refl _)
  | store n v =>
    unfold World.store
    split
    · exact refl a
    · have hs : a.Orderly (a.modifyComputed n fun x => { x with value := some v }) :=
        same rfl rfl rfl (.same rfl) (.refl _)
      split
      · exact hs.trans (bumpVersion _ n)
      · exact hs

theorem runStep (h : RunStep a b) : a.Orderly b := by
  have taken : ∀ (f : Flush (Job V)) (l : List NodeId) (r : ℕ), a.flush.Follows f → a.runs ≤ r →
      a.Orderly { a with lane := l, flush := f, runs := r } :=
    fun f l r hf hr => ⟨rfl, rfl, fun _ hc hm => ⟨hc, hm⟩, hr, .same rfl, hf⟩
  cases h with
  | popEffect e f r hp hr => exact (taken f a.lane r (.popJob hp) hr).trans (unlatch _ e)
  | popHooks n f hp => exact (taken f a.lane a.runs (.popJob hp) (le_refl _)).trans (modifyHooks _ n _)
  | callHooks n k f hp =>
    refine ((taken f a.lane a.runs (.popJob hp) (le_refl _)).trans
      (modifyHooks _ n ObservationHooks.settle)).trans ?_
    exact same rfl rfl rfl ⟨[.hooked n k.observed], rfl, by simp⟩ (.refl _)
  | popUser p f hp => exact taken f a.lane a.runs (.popJob hp) (le_refl _)
  | ready e f r hf hr => exact (taken f _ r (.same hf) hr).trans (unlatch _ e)
  | effect e g hg => exact modifyEffect a e g fun x hx => (hg x hx).2.2.2.1

theorem close {e : NodeId} (h : (a.closing e).Orderly b) (he : e ∉ b.graph.nodeMeta) :
    a.Orderly b := by
  have hu : (a.modifyEffect e fun x => { x with disposed := true }).Orderly b :=
    (unlatch _ e).trans h
  refine ⟨hu.stack, hu.active, fun i hc hm => ?_, hu.runs, hu.logs, hu.flush⟩
  obtain ⟨⟨x, hx, hd⟩, hi⟩ := hu.closed i hc hm
  have hne : i ≠ e := fun heq => he (heq ▸ hm)
  unfold World.modifyEffect at hx
  simp only [Function.update_of_ne hne] at hx
  exact ⟨⟨x, hx, hd⟩, hi⟩

theorem unhook (a : World V) (e : NodeId) : a.Orderly (a.unhook env e) :=
  (graph (g := a.graph.unregisterObserver e) rfl rfl fun _ => id).trans (disposeNode _ e)

theorem notMem_unhook (a : World V) (e : NodeId) : e ∉ (a.unhook env e).graph.nodeMeta := by
  unfold World.unhook World.disposeNode
  obtain ⟨_, _, _, he⟩ := ({ a with graph := ((a.graph.unregisterObserver e).dispose env e).1 } :
    World V).noteUnobserved_frame ((a.graph.unregisterObserver e).dispose env e).2
  dsimp only
  rw [he]
  change e ∉ ((a.graph.unregisterObserver e).dispose env e).1.nodeMeta
  rw [(Graph.dispose_frame env _ e).1, AList.mem_erase]
  exact fun h => h.1 rfl

theorem enter_frame (env : Enumeration) (a : World V) (o : NodeId) : ∃ hs f, a.enter env o = { a with
    graph := (a.graph.enterContext env o).1, untracked := 0, hooks := hs, flush := f,
    log := .began o :: a.log } ∧ a.flush.Follows f := by
  have hf := flush_noteUnobserved ({ a with
    graph := (a.graph.enterContext env o).1, untracked := 0 } : World V)
    (a.graph.enterContext env o).2
  obtain ⟨_, hs, f, he⟩ := ({ a with
    graph := (a.graph.enterContext env o).1, untracked := 0 } : World V).noteUnobserved_frame
    (a.graph.enterContext env o).2
  refine ⟨hs, f, ?_, by rw [he] at hf; exact hf⟩
  unfold World.enter
  dsimp only
  rw [he]
  rfl

theorem context {o : NodeId} (h : (a.enter env o).Orderly b) (u : ℕ) : a.Orderly (b.leave u) := by
  obtain ⟨hs, f, he, hf⟩ := enter_frame env a o
  rw [he] at h
  obtain ⟨f1, _, f3, f4, _⟩ := Graph.enterContext_frame env a.graph o
  have hst : b.graph.stack = o :: a.graph.stack := h.stack.trans f3
  have hg := Graph.exitContext_of_stack hst
  have hl : a.Logs { a with log := .began o :: a.log } := ⟨[.began o], rfl, by simp⟩
  refine ⟨?_, ?_, fun e hc hm => ?_, h.runs, ?_, hf.trans h.flush⟩
  · change b.graph.exitContext.stack = _
    rw [hg]
  · change b.graph.exitContext.activeComputations = _
    rw [hg]
    change b.graph.activeComputations.erase o = _
    rw [h.active]
    change (a.graph.enterContext env o).1.activeComputations.erase o = _
    rw [f4, List.erase_cons_head]
  · change e ∈ b.graph.exitContext.nodeMeta at hm
    rw [hg] at hm
    obtain ⟨hc, hm⟩ := h.closed e hc hm
    exact ⟨hc, f1 ▸ hm⟩
  · exact hl.trans h.logs (le_refl a.runs)

/-- A handler is called by the run that was given its id. -/
theorem caught (h : a.Orderly b) {r : ℕ} (e : NodeId) (p : Payload V) (hr : a.runs ≤ r) :
    a.Orderly (b.push (.caught r e p)) := by
  refine ⟨h.stack, h.active, h.closed, h.runs, ?_, h.flush⟩
  obtain ⟨l, hl, hc⟩ := h.logs
  refine ⟨.caught r e p :: l, congrArg _ hl, fun r' e' p' hm => ?_⟩
  rcases List.mem_cons.mp hm with heq | hm
  · cases heq
    exact hr
  · exact hc r' e' p' hm

end World.Orderly

end Adaptite

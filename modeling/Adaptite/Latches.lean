import Adaptite.WellFormed

set_option autoImplicit false

namespace Adaptite

open Unwinding

variable {V : Type} {env : Enumeration} {a b w w' : World V}

structure World.Latched (w : World V) : Prop where
  lane : ∀ e x, w.effects e = some x → x.external = true → x.disposed = false →
    x.scheduled = true → e ∈ w.lane
  queue : ∀ e x, w.effects e = some x → x.external = false → x.disposed = false →
    x.scheduled = true → .effect e ∈ w.flush.pendingJobs
  hooks : ∀ n h, w.hooks n = some h → h.queued = true → .hooks n ∈ w.flush.pendingJobs

theorem World.latched_empty : ({} : World V).Latched := ⟨by simp, by simp, by simp⟩

/-- No latch is set that was not set before, and no ticket is lost. -/
structure World.Loosens (a b : World V) : Prop where
  effects : ∀ e y, b.effects e = some y → y.disposed = false → y.scheduled = true →
    ∃ x, a.effects e = some x ∧ x.external = y.external ∧ x.disposed = false ∧ x.scheduled = true
  hooks : ∀ n h, b.hooks n = some h → h.queued = true → ∃ k, a.hooks n = some k ∧ k.queued = true
  lane : ∀ e ∈ a.lane, e ∈ b.lane
  queue : ∀ j ∈ a.flush.pendingJobs, j ∈ b.flush.pendingJobs

theorem World.Latched.loosen (ha : a.Latched) (h : a.Loosens b) : b.Latched := by
  refine ⟨fun e y hy hx hd hs => ?_, fun e y hy hx hd hs => ?_, fun n k hk hq => ?_⟩
  · obtain ⟨x, h1, h2, h3, h4⟩ := h.effects e y hy hd hs
    exact h.lane e (ha.lane e x h1 (h2.trans hx) h3 h4)
  · obtain ⟨x, h1, h2, h3, h4⟩ := h.effects e y hy hd hs
    exact h.queue _ (ha.queue e x h1 (h2.trans hx) h3 h4)
  · obtain ⟨k', h1, h2⟩ := h.hooks n k hk hq
    exact h.queue _ (ha.hooks n k' h1 h2)

theorem World.Loosens.of_eq (h1 : b.effects = a.effects) (h2 : b.hooks = a.hooks)
    (h3 : b.lane = a.lane) (h4 : ∀ j ∈ a.flush.pendingJobs, j ∈ b.flush.pendingJobs) :
    a.Loosens b :=
  ⟨fun _ y hy hd hs => ⟨y, h1 ▸ hy, rfl, hd, hs⟩, fun _ h hh hq => ⟨h, h2 ▸ hh, hq⟩,
    fun _ he => h3 ▸ he, h4⟩

theorem World.Loosens.same (h1 : b.effects = a.effects) (h2 : b.hooks = a.hooks)
    (h3 : b.lane = a.lane) (h4 : b.flush.pendingJobs = a.flush.pendingJobs) : a.Loosens b :=
  .of_eq h1 h2 h3 fun _ hj => h4 ▸ hj

theorem World.Loosens.modifyEffect (e : NodeId) (g : EffectInner V → EffectInner V)
    (h : ∀ x, a.effects e = some x → (g x).disposed = false → (g x).scheduled = true →
      (g x).external = x.external ∧ x.disposed = false ∧ x.scheduled = true) :
    a.Loosens (a.modifyEffect e g) := by
  refine ⟨fun i y hy hd hs => ?_, fun _ h hh hq => ⟨h, hh, hq⟩, fun _ => id, fun _ => id⟩
  unfold World.modifyEffect at hy
  by_cases hi : i = e
  · subst hi
    simp only [Function.update_self, Option.map_eq_some_iff] at hy
    obtain ⟨x, hx, rfl⟩ := hy
    obtain ⟨h1, h2, h3⟩ := h x hx hd hs
    exact ⟨x, hx, h1.symm, h2, h3⟩
  · simp only [Function.update_of_ne hi] at hy
    exact ⟨y, hy, rfl, hd, hs⟩

theorem World.Loosens.modifyHooks (n : NodeId) (g : ObservationHooks V → ObservationHooks V)
    (h : ∀ k, (g k).queued = true → k.queued = true) : a.Loosens (a.modifyHooks n g) := by
  refine ⟨fun _ y hy hd hs => ⟨y, hy, rfl, hd, hs⟩, fun i k hk hq => ?_, fun _ => id, fun _ => id⟩
  unfold World.modifyHooks at hk
  by_cases hi : i = n
  · subst hi
    simp only [Function.update_self, Option.map_eq_some_iff] at hk
    obtain ⟨k', hk', rfl⟩ := hk
    exact ⟨k', hk', h k' hq⟩
  · simp only [Function.update_of_ne hi] at hk
    exact ⟨k, hk, hq⟩

theorem scheduled_unlatch {e i : NodeId} {y : EffectInner V}
    (hy : (w.unlatch e).effects i = some y) (hs : y.scheduled = true) :
    i ≠ e ∧ w.effects i = some y := by
  rw [effects_unlatch] at hy
  by_cases hi : i = e
  · subst hi
    rw [Function.update_self, Option.map_eq_some_iff] at hy
    obtain ⟨x, _, rfl⟩ := hy
    cases hs
  · rw [Function.update_of_ne hi] at hy
    exact ⟨hi, hy⟩

theorem World.Loosens.unlatch (a : World V) (e : NodeId) : a.Loosens (a.unlatch e) := by
  refine ⟨fun i y hy hd hs => ?_, fun n h hh hq => ⟨h, ?_, hq⟩, fun i hi => ?_, fun j hj => ?_⟩
  · exact ⟨y, (scheduled_unlatch hy hs).2, rfl, hd, hs⟩
  · rw [unlatch_frame] at hh; exact hh
  · rw [unlatch_frame]; exact hi
  · rw [unlatch_frame]; exact hj

theorem mem_schedule {J : Type} (f : Flush J) (job j : J) :
    j ∈ (f.schedule job).pendingJobs ↔ j ∈ f.pendingJobs ∨ j = job := by
  unfold Flush.schedule
  rw [(Flush.ensureFlushScheduled_queue _).1]
  simp

namespace World.Latched

theorem same (h : w.Latched) (h1 : w'.effects = w.effects) (h2 : w'.hooks = w.hooks)
    (h3 : w'.lane = w.lane) (h4 : w'.flush.pendingJobs = w.flush.pendingJobs) : w'.Latched :=
  h.loosen (.same h1 h2 h3 h4)

theorem scheduleEffect (h : w.Latched) (e : NodeId) : (w.scheduleEffect e).Latched := by
  cases hx : w.effects e with
  | none => rw [scheduleEffect_of_none w e hx]; exact h
  | some x =>
    by_cases hb : (x.disposed || x.scheduled) = true
    · rw [scheduleEffect_of_busy w e hx hb]; exact h
    · simp only [Bool.or_eq_true, not_or, Bool.not_eq_true] at hb
      rw [scheduleEffect_of_idle w e hx hb.1 hb.2]
      refine ⟨fun i y hy hex hd hs => ?_, fun i y hy hex hd hs => ?_, fun n k hk hq => ?_⟩
      · dsimp only at hy ⊢
        by_cases hi : i = e
        · subst hi
          rw [Function.update_self] at hy
          cases hy
          rw [if_pos hex]
          simp
        · rw [Function.update_of_ne hi] at hy
          have := h.lane i y hy hex hd hs
          split
          · exact List.mem_append_left _ this
          · exact this
      · dsimp only at hy ⊢
        by_cases hi : i = e
        · subst hi
          rw [Function.update_self] at hy
          cases hy
          rw [if_neg (by simpa using hex), mem_schedule]
          exact .inr rfl
        · rw [Function.update_of_ne hi] at hy
          have := h.queue i y hy hex hd hs
          split
          · exact this
          · exact (mem_schedule _ _ _).mpr (.inl this)
      · dsimp only at hk ⊢
        have := h.hooks n k hk hq
        split
        · exact this
        · exact (mem_schedule _ _ _).mpr (.inl this)

theorem markStep (h : w.Latched) (hs : MarkStep w w') : w'.Latched := by
  cases hs with
  | computed n x mark hx lt => exact h.same rfl rfl rfl rfl
  | effect e mark hc =>
    exact scheduleEffect (h.loosen (.modifyEffect e (fun x => { x with state := x.state.raise mark })
      fun x hx hd hs => ⟨rfl, hd, hs⟩)) e

theorem marks (h : w.Latched) (hs : Marks w w') : w'.Latched := by
  induction hs with
  | refl => exact h
  | tail _ step ih => exact ih.markStep step

theorem trigger (h : w.Latched) (n : NodeId) : (w.trigger env n).Latched :=
  marks (h.same rfl rfl rfl rfl : (w.bumpVersion n).Latched)
    (marks_trigger env w n)

theorem noteObservation (h : w.Latched) (n : NodeId) (b : Bool) :
    (w.noteObservation n b).Latched := by
  unfold World.noteObservation
  split
  · exact h
  · split
    · exact h
    · split
      · exact h.loosen (.modifyHooks n (fun k => { k with observed := b }) fun _ hk => hk)
      · refine ⟨h.lane, fun e x hx he hd hs => (mem_schedule _ _ _).mpr (.inl (h.queue e x hx he hd hs)),
          fun i k hk hq => ?_⟩
        unfold World.modifyHooks World.schedule at hk
        by_cases hi : i = n
        · subst hi
          exact (mem_schedule _ _ _).mpr (.inr rfl)
        · simp only [Function.update_of_ne hi] at hk
          exact (mem_schedule _ _ _).mpr (.inl (h.hooks i k hk hq))

theorem noteUnobserved (h : w.Latched) (l : List NodeId) : (w.noteUnobserved l).Latched := by
  induction l generalizing w with
  | nil => exact h
  | cons n l ih => exact ih (h.noteObservation n false)

theorem disposeNode (h : w.Latched) (n : NodeId) : (w.disposeNode env n).Latched := by
  have hu : (({ w with graph := (w.graph.dispose env n).1 } : World V).noteUnobserved
      (w.graph.dispose env n).2).Latched :=
    noteUnobserved (w := { w with graph := (w.graph.dispose env n).1 }) (h.same rfl rfl rfl rfl) _
  exact hu.loosen (.modifyHooks n (fun h => { h with cancelled := true }) fun _ hk => hk)

theorem observed (h : w.Latched) (n : NodeId) (r : Graph × Bool) :
    ((w.noteZombie n).observed n r).Latched := by
  have hz : (w.noteZombie n).Latched := by
    unfold World.noteZombie
    split
    · split
      · exact h
      · exact h.same rfl rfl rfl rfl
    · exact h
  have hg : ({ w.noteZombie n with graph := r.1 } : World V).Latched :=
    hz.same rfl rfl rfl rfl
  unfold World.observed
  dsimp only
  split
  · exact hg.noteObservation n true
  · exact hg

theorem step (hs : Step env w w') (h : w.Latched) : w'.Latched := by
  cases hs with
  | thread | remark | newFrame | adopt | frame | queues | deliveries | newSubscription
  | endSubscription | event | newSignal | newComputed | newEvent =>
    exact h.same rfl rfl rfl rfl
  | observed n r _ _ _ => exact h.observed n r
  | write n v =>
    exact trigger (w := w.setValue n v) (h.same rfl rfl rfl rfl) n
  | trigger n => exact h.trigger n
  | scheduleEffect e => exact h.scheduleEffect e
  | flush f hf => exact h.same rfl rfl rfl hf.1
  | schedule p =>
    exact h.loosen (.of_eq rfl rfl rfl fun j hj => (mem_schedule w.flush _ j).mpr (.inl hj))
  | newSource watch =>
    refine h.loosen ⟨fun _ y hy hd hs => ⟨y, hy, rfl, hd, hs⟩, fun n k hk hq => ?_, fun _ => id,
      fun _ => id⟩
    simp only [World.newSource] at hk
    by_cases hn : n = w.graph.nextNode
    · subst hn
      rw [Function.update_self, Option.map_eq_some_iff] at hk
      obtain ⟨p, _, rfl⟩ := hk
      cases hq
    · rw [Function.update_of_ne hn] at hk
      exact ⟨k, hk, hq⟩
  | dropNode n _ _ =>
    exact disposeNode (w := { w with
      graph := w.graph.unregisterObserver n
      signals := Function.update w.signals n none
      computed := Function.update w.computed n none
      events := Function.update w.events n none })
      (h.same rfl rfl rfl rfl) n

theorem createStep (hs : CreateStep w w') (h : w.Latched) : w'.Latched := by
  cases hs with
  | effect body external =>
    refine h.loosen ⟨fun e y hy hd hs => ?_, fun _ k hk hq => ⟨k, hk, hq⟩, fun _ => id, fun _ => id⟩
    simp only [World.newEffect] at hy
    by_cases he : e = w.graph.nextNode
    · subst he
      rw [Function.update_self] at hy
      cases hy
      cases hs
    · rw [Function.update_of_ne he] at hy
      exact ⟨y, hy, rfl, hd, hs⟩

theorem closeStep (hs : CloseStep env w w') (h : w.Latched) : w'.Latched := by
  cases hs with
  | closing e =>
    refine (h.loosen (.modifyEffect e (fun x => { x with disposed := true })
      fun x hx hd hs => ?_)).loosen (.unlatch _ e)
    cases hd
  | unhook e _ =>
    exact disposeNode (w := { w with graph := w.graph.unregisterObserver e })
      (h.same rfl rfl rfl rfl) e

theorem computeStep (hs : ComputeStep env w w') (h : w.Latched) : w'.Latched := by
  cases hs with
  | observed n r _ _ => exact h.observed n r
  | saw | setState => exact h.same rfl rfl rfl rfl
  | store n v =>
    unfold World.store
    split
    · exact h
    · split <;> exact h.same rfl rfl rfl rfl

theorem contextStep (hs : ContextStep env w w') (h : w.Latched) : w'.Latched := by
  cases hs with
  | enter o _ _ =>
    have hu : (({ w with graph := (w.graph.enterContext env o).1, untracked := 0 } :
        World V).noteUnobserved (w.graph.enterContext env o).2).Latched :=
      noteUnobserved (w := { w with graph := (w.graph.enterContext env o).1, untracked := 0 })
        (h.same rfl rfl rfl rfl) _
    exact hu.same rfl rfl rfl rfl
  | leave => exact h.same rfl rfl rfl rfl

theorem mem_of_popJob {J : Type} {f f' : Flush J} {job : J} (h : f.popJob = some (job, f')) :
    (∀ j ∈ f.pendingJobs, j ≠ job → j ∈ f'.pendingJobs) ∧ f.pendingJobs = job :: f'.pendingJobs := by
  unfold Flush.popJob at h
  cases hl : f.pendingJobs with
  | nil => simp [hl] at h
  | cons j rest =>
    simp only [hl, Option.some.injEq, Prod.mk.injEq] at h
    obtain ⟨rfl, rfl⟩ := h
    refine ⟨fun i hi hne => ?_, rfl⟩
    exact (List.mem_cons.mp hi).resolve_left hne

theorem runStep (hs : RunStep w w') (h : w.Latched) : w'.Latched := by
  cases hs with
  | popEffect e f r hp _ =>
    obtain ⟨hl, hq⟩ := mem_of_popJob hp
    refine ⟨fun i y hy hx hd hs => ?_, fun i y hy hx hd hs => ?_, fun n k hk hu => ?_⟩
    · obtain ⟨hne, hy⟩ := scheduled_unlatch hy hs
      rw [unlatch_frame]
      exact h.lane i y hy hx hd hs
    · obtain ⟨hne, hy⟩ := scheduled_unlatch hy hs
      rw [unlatch_frame]
      refine hl _ (h.queue i y hy hx hd hs) fun heq => hne ?_
      cases heq
      rfl
    · rw [unlatch_frame] at hk ⊢
      exact hl _ (h.hooks n k hk hu) (by rintro ⟨⟩)
  | popHooks n f hp | callHooks n _ f hp =>
    obtain ⟨hl, hq⟩ := mem_of_popJob hp
    refine ⟨h.lane, fun i y hy hx hd hs => hl _ (h.queue i y hy hx hd hs) (by rintro ⟨⟩),
      fun i k hk hu => ?_⟩
    change Function.update w.hooks n _ i = _ at hk
    by_cases hi : i = n
    · subst hi
      simp only [Function.update_self, Option.map_eq_some_iff] at hk
      obtain ⟨_, _, rfl⟩ := hk
      cases hu
    · simp only [Function.update_of_ne hi] at hk
      refine hl _ (h.hooks i k hk hu) fun heq => hi ?_
      cases heq
      rfl
  | popUser p f hp =>
    obtain ⟨hl, hq⟩ := mem_of_popJob hp
    exact ⟨h.lane, fun i y hy hx hd hs => hl _ (h.queue i y hy hx hd hs) (by rintro ⟨⟩),
      fun i k hk hu => hl _ (h.hooks i k hk hu) (by rintro ⟨⟩)⟩
  | ready e f r hf _ =>
    refine ⟨fun i y hy hx hd hs => ?_, fun i y hy hx hd hs => ?_, fun n k hk hu => ?_⟩
    · obtain ⟨hne, hy⟩ := scheduled_unlatch hy hs
      rw [unlatch_frame]
      exact (List.mem_erase_of_ne hne).mpr (h.lane i y hy hx hd hs)
    · obtain ⟨hne, hy⟩ := scheduled_unlatch hy hs
      rw [unlatch_frame]
      exact hf.1.symm ▸ h.queue i y hy hx hd hs
    · rw [unlatch_frame] at hk ⊢
      exact hf.1.symm ▸ h.hooks n k hk hu
  | effect e g hg =>
    refine h.loosen (.modifyEffect e g fun x hx hd hs => ?_)
    obtain ⟨_, h2, _, h4, h5⟩ := hg x hx
    exact ⟨h2, h4 ▸ hd, h5 ▸ hs⟩

end World.Latched

theorem Visited.latched (h : Visited env w) : w.Latched :=
  h.invariant World.Latched World.latched_empty fun _ _ _ _ hs ha => by
    cases hs with
    | plain hs => exact ha.step hs
    | create hs => exact ha.createStep hs
    | close hs => exact ha.closeStep hs
    | compute hs => exact ha.computeStep hs
    | context hs => exact ha.contextStep hs
    | run hs => exact ha.runStep hs
    | caught r e p => exact ha.same rfl rfl rfl rfl

end Adaptite

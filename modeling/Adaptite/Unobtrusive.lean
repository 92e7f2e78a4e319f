import Adaptite.GraphEdges
import Adaptite.Instrumented

set_option autoImplicit false

namespace Adaptite

open Unwinding

variable {V α β : Type} {env : Enumeration}

namespace Traced

variable {m : Traced V} {n e : NodeId}

def core (m : Traced V) : World V × List (World V) := (m.world, m.steps)

/-- `f` does to the world what `g` does, and makes no step. -/
def Mirrors (f : Traced V → Traced V) (g : World V → World V) : Prop :=
  ∀ m : Traced V, (f m).core = (g m.world, m.steps)

theorem core_emit (r : Report) (m : Traced V) : (m.emit r).core = m.core := rfl

theorem core_record (f : WorkStats → WorkStats) (m : Traced V) : (m.record f).core = m.core := rfl

theorem core_emitAbout (m : Traced V) (n : NodeId) (r : Report) :
    (m.emitAbout n r).core = m.core := by
  unfold emitAbout
  split
  · exact core_emit r m
  · rfl

theorem world_of_core {m m' : Traced V} (h : m.core = m'.core) : m.world = m'.world :=
  congrArg Prod.fst h

theorem steps_of_core {m m' : Traced V} (h : m.core = m'.core) : m.steps = m'.steps :=
  congrArg Prod.snd h

theorem mirrors_id_of_core {f : Traced V → Traced V} (h : ∀ m, (f m).core = m.core) :
    Mirrors f id := h

theorem mirrors_onWorld (f : World V → World V) : Mirrors (onWorld f) f := fun _ => rfl

theorem Mirrors.comp {f f' : Traced V → Traced V} {g g' : World V → World V} (h : Mirrors f g)
    (h' : Mirrors f' g') : Mirrors (fun m => f' (f m)) fun w => g' (g w) := by
  intro m
  rw [h' (f m)]
  have hworld : (f m).world = g m.world := congrArg Prod.fst (h m)
  have hsteps : (f m).steps = m.steps := congrArg Prod.snd (h m)
  rw [hworld, hsteps]

theorem mirrors_foldl {f : Traced V → β → Traced V} {g : World V → β → World V}
    (h : ∀ b, Mirrors (fun m => f m b) fun w => g w b) (l : List β) :
    Mirrors (fun m => l.foldl f m) fun w => l.foldl g w := by
  induction l with
  | nil => exact fun _ => rfl
  | cons b l ih => exact (h b).comp ih

theorem core_ite (b : Prop) [Decidable b] {r r' : Traced V} (h : r.core = r'.core) :
    (if b then r else r').core = r'.core := by
  split
  · exact h
  · rfl

theorem Mirrors.of_core {f : Traced V → Traced V} {g : World V → World V} (h : Mirrors f g)
    {r : Traced V} {w : World V} {steps : List (World V)} (hr : r.core = (w, steps)) :
    (f r).core = (g w, steps) := by
  have hworld : r.world = w := congrArg Prod.fst hr
  have hsteps : r.steps = steps := congrArg Prod.snd hr
  rw [h r, hworld, hsteps]

theorem mirrors_scheduleEffect (e : NodeId) :
    Mirrors (fun m : Traced V => m.scheduleEffect e) fun w => w.scheduleEffect e := by
  intro m
  change (m.scheduleEffect e).core = (m.world.scheduleEffect e, m.steps)
  unfold scheduleEffect World.scheduleEffect
  cases hx : m.world.effects e with
  | none => rfl
  | some x =>
    dsimp only
    cases hskip : x.disposed || x.scheduled with
    | true => exact core_ite _ (core_emitAbout _ e _)
    | false =>
      -- What the latch and the reports leave is the world with the latch.
      simp only [Bool.false_eq_true, if_false]
      have hlatched : (if ((m.onWorld fun w => w.latch e).record
            (.increment .effectsQueued)).enabled then
          ((m.onWorld fun w => w.latch e).record (.increment .effectsQueued)).emitAbout e
            (.event (.effectScheduled e true))
          else (m.onWorld fun w => w.latch e).record (.increment .effectsQueued)).core =
          (m.world.latch e, m.steps) := core_ite _ (core_emitAbout _ e _)
      cases hext : x.external with
      | true =>
        exact (mirrors_onWorld fun w : World V => { w with lane := w.lane ++ [e] }).of_core hlatched
      | false => exact (mirrors_onWorld fun w : World V => w.schedule (.effect e)).of_core hlatched

theorem mirrors_markEffect (e : NodeId) (mark : Mark) (cause : Option InvalidationCause) :
    Mirrors (fun m : Traced V => m.markEffect e mark cause) fun w => w.markEffect e mark := by
  intro m
  refine (mirrors_scheduleEffect e).of_core ?_
  refine (mirrors_onWorld fun w : World V =>
    w.modifyEffect e fun x => { x with state := x.state.raise mark }).of_core ?_
  cases cause with
  | none => rfl
  | some cause => exact core_emitAbout m e _

theorem mirrors_markComputed {next : Traced V → NodeId → Traced V} {plain : World V → NodeId → World V}
    (hnext : ∀ n, Mirrors (fun m => next m n) fun w => plain w n) (n : NodeId)
    (x : ComputedInner V) (mark : Mark) (cause : Option InvalidationCause) :
    Mirrors (fun m => markComputed next m n x mark cause)
      fun w => World.markComputed plain w n x mark := by
  intro m
  change (markComputed next m n x mark cause).core = (World.markComputed plain m.world n x mark, m.steps)
  have hmark : ∀ t : Traced V, t.core = (m.world, m.steps) →
      (if x.state.rank < mark.toState.rank then
        if x.state = .clean then next (t.onWorld fun w => w.setState n mark.toState) n
        else t.onWorld fun w => w.setState n mark.toState
      else t).core = (World.markComputed plain m.world n x mark, m.steps) := by
    intro t ht
    unfold World.markComputed
    by_cases hrank : x.state.rank < mark.toState.rank
    · rw [if_pos hrank, if_pos hrank]
      have hset := (mirrors_onWorld fun w : World V => w.setState n mark.toState).of_core ht
      by_cases hclean : x.state = .clean
      · rw [if_pos hclean, if_pos hclean]
        exact (hnext n).of_core hset
      · rw [if_neg hclean, if_neg hclean]
        exact hset
    · rw [if_neg hrank, if_neg hrank]
      exact ht
  unfold markComputed
  cases cause with
  | none => exact hmark m rfl
  | some cause => exact hmark _ (core_emitAbout m n _)

theorem mirrors_deliverMark {next : Traced V → NodeId → Traced V} {plain : World V → NodeId → World V}
    (hnext : ∀ n, Mirrors (fun m => next m n) fun w => plain w n) (mark : Mark)
    (cause : Option InvalidationCause) (d : NodeId) :
    Mirrors (fun m => (deliverMark next mark cause m d).1)
      fun w => World.deliverMark plain mark w d := by
  intro m
  change (deliverMark next mark cause m d).1.core =
    (World.deliverMark plain mark m.world d, m.steps)
  unfold deliverMark World.deliverMark
  split
  · cases m.world.computed d with
    | none => exact mirrors_markEffect d mark cause m
    | some x => exact mirrors_markComputed hnext d x mark cause m
  · rfl

theorem mirrors_deliverCounted {next : Traced V → NodeId → Traced V}
    {plain : World V → NodeId → World V}
    (hnext : ∀ n, Mirrors (fun m => next m n) fun w => plain w n) (mark : Mark)
    (cause : Option InvalidationCause) (depth : ℕ) (d : NodeId) :
    Mirrors (fun m => deliverCounted next mark cause depth m d)
      fun w => World.deliverMark plain mark w d := by
  intro m
  change (deliverCounted next mark cause depth m d).core = _
  unfold deliverCounted
  rw [core_ite _ (core_record _ _)]
  exact mirrors_deliverMark hnext mark cause d m

theorem mirrors_markDependents (levels : ℕ) (mark : Mark) (cause : Option InvalidationCause)
    (n : NodeId) : Mirrors (fun m : Traced V => markDependents env levels mark cause m n)
      fun w => World.markDependents env levels mark w n := by
  induction levels generalizing mark n with
  | zero => exact fun _ => rfl
  | succ levels ih =>
    intro m
    change (markDependents env (levels + 1) mark cause m n).core =
      (World.markDependents env (levels + 1) mark m.world n, m.steps)
    unfold markDependents World.markDependents
    have hnext := fun n => ih .check n
    generalize env.order m.world.graph (m.world.graph.observersOf n).keys = dependents
    dsimp only
    split
    · rename_i hempty
      rw [List.isEmpty_iff.mp hempty]
      rfl
    · split
      · exact mirrors_foldl (mirrors_deliverCounted hnext mark cause _) dependents _
      · exact mirrors_foldl (mirrors_deliverMark hnext mark cause) dependents m

theorem mirrors_trigger (n : NodeId) :
    Mirrors (fun m : Traced V => m.trigger env n) fun w => w.trigger env n := by
  intro m
  change (m.trigger env n).core = (m.world.trigger env n, m.steps)
  unfold trigger World.trigger
  have hmark : ∀ (cause : Option InvalidationCause) (r : Traced V),
      r.core = (m.world.bumpVersion n, m.steps) →
      (markDependents env (r.world.graph.nextNode + 1) .dirty cause r n).core =
      (World.markDependents env (m.world.graph.nextNode + 1) .dirty (m.world.bumpVersion n) n,
        m.steps) := by
    intro cause r hr
    have hnext : r.world.graph.nextNode = m.world.graph.nextNode := by
      have hworld : r.world = m.world.bumpVersion n := congrArg Prod.fst hr
      rw [hworld]
      exact Graph.nextNode_bumpVersion _ n
    rw [hnext]
    exact (mirrors_markDependents _ _ cause n).of_core hr
  dsimp only
  refine hmark _ _ ?_
  split <;> rfl

theorem mirrors_write (n : NodeId) (v : V) :
    Mirrors (fun m : Traced V => m.write env n v) fun w => w.write env n v :=
  (mirrors_onWorld fun w : World V => w.setValue n v).comp (mirrors_trigger n)

theorem core_reportSuppressed (m : Traced V) (n : NodeId) : (m.reportSuppressed n).core = m.core :=
  core_ite _ (core_emitAbout _ n _)

theorem core_reportVerification (m : Traced V) (n : NodeId) (recomputed : Bool) :
    (m.reportVerification n recomputed).core = m.core :=
  core_ite _ (core_emitAbout _ n _)

theorem mirrors_disposeNode (n : NodeId) :
    Mirrors (fun m : Traced V => m.disposeNode env n) fun w => w.disposeNode env n := by
  intro m
  change (m.disposeNode env n).core = _
  unfold disposeNode
  dsimp only
  split <;> rfl

theorem mirrors_created (f : World V → World V) : Mirrors (created f) f := by
  intro m
  unfold created
  dsimp only
  split
  · exact core_ite _ (core_emit _ _)
  · rfl

theorem mirrors_enter (o : NodeId) :
    Mirrors (fun m : Traced V => m.enter env o) fun w => w.enter env o := fun _ => rfl

theorem mirrors_observed (n : NodeId) (r : Graph × Bool) :
    Mirrors (fun m : Traced V => m.observed n r) fun w => (w.noteZombie n).observed n r :=
  fun _ => rfl

theorem core_skipRun (m : Traced V) (e : NodeId) : (m.skipRun e).core = m.core := by
  unfold skipRun
  rw [core_record]
  exact core_ite _ (core_emit _ m)

theorem core_startRun (m : Traced V) (e : NodeId) : (m.startRun e).core = m.core := by
  unfold startRun
  rw [core_record]
  exact core_ite _ (core_emitAbout m e _)

theorem core_endRun (reported : Bool) (epoch : ℕ) (m : Traced V) (e : NodeId) :
    (m.endRun reported epoch e).core = m.core :=
  core_ite _ (core_emit _ m)

theorem mirrors_closing (e : NodeId) :
    Mirrors (fun m : Traced V => m.closing e) fun w => w.closing e := by
  intro m
  refine (mirrors_onWorld fun w : World V => w.unlatch e).of_core ?_
  rw [core_record]
  exact core_ite _ (core_emit _ _)

theorem mirrors_unhook (e : NodeId) :
    Mirrors (fun m : Traced V => m.unhook env e) fun w => w.unhook env e :=
  (mirrors_onWorld fun w : World V => { w with graph := w.graph.unregisterObserver e }).comp
    (mirrors_disposeNode e)

theorem mirrors_dropLast (n : NodeId) :
    Mirrors (fun m : Traced V => m.dropLast env n) fun w => w.dropNode env n :=
  (mirrors_onWorld fun w : World V =>
    { w with
      graph := w.graph.unregisterObserver n
      signals := Function.update w.signals n none
      computed := Function.update w.computed n none
      events := Function.update w.events n none }).comp (mirrors_disposeNode n)

theorem core_reportStart (m : Traced V) : m.reportStart.core = m.core := core_ite _ rfl

theorem core_reportFinish (epoch : ℕ) (m : Traced V) : (m.reportFinish epoch).core = m.core := by
  unfold reportFinish
  refine core_ite _ ?_
  dsimp only
  split <;> rfl

theorem mirrors_beginFlush :
    Mirrors (fun m : Traced V => m.beginFlush) fun w => { w with flush := w.flush.beginFlush.1 } := by
  intro m
  exact core_ite _ (core_reportStart _)

theorem mirrors_endFlush :
    Mirrors (fun m : Traced V => m.endFlush) fun w => { w with flush := w.flush.leaveDrain } := by
  intro m
  change m.endFlush.core = _
  unfold endFlush
  dsimp only
  split
  · rfl
  · exact core_reportFinish _ _

theorem mirrors_enterDrain :
    Mirrors (fun m : Traced V => m.enterDrain)
      fun w => { w with flush := w.flush.openDrain.enterDrain } := by
  intro m
  exact (mirrors_onWorld fun w : World V => { w with flush := w.flush.enterDrain }).of_core
    (core_reportStart _)

theorem mirrors_leaveDrain (epoch : ℕ) :
    Mirrors (fun m : Traced V => m.leaveDrain epoch)
      fun w => { w with flush := w.flush.leaveDrain.rearm } := by
  intro m
  exact (mirrors_onWorld fun w : World V => { w with flush := w.flush.rearm }).of_core
    (core_reportFinish epoch _)

/-- What the function does, and how it ends, the diagnostics do not decide. -/
abbrev Blind (x : Tracing V α) : Prop := Act.Agree core x x

theorem Mirrors.blind {f : Traced V → Traced V} {g : World V → World V} (h : Mirrors f g) :
    Blind (Act.modify f) := by
  refine Act.Agree.modify fun m m' hm => ?_
  rw [h m, h m', world_of_core hm, steps_of_core hm]

theorem blind_report {f : Traced V → Traced V} (h : ∀ m, (f m).core = m.core) :
    Blind (Act.modify f) := (mirrors_id_of_core h).blind

theorem blind_alter (f : World V → World V) : Blind (alter f) := (mirrors_onWorld f).blind

theorem blind_look : Blind (look : Tracing V (World V)) := Act.Agree.gets fun _ _ h => world_of_core h

theorem blind_lift (x : Run V α) : Blind (lift x) := by
  intro m m' hm
  have hsteps := steps_of_core hm
  unfold lift
  rw [world_of_core hm]
  cases x m'.world with
  | ok a w => exact congrArg (fun l => Res.ok a (w, l)) hsteps
  | panic e w => exact congrArg (fun l => Res.panic e (w, l)) hsteps
  | stuck => rfl

theorem blind_untrack {body : Tracing V α} (h : Blind body) : Blind (untrack body) :=
  (blind_alter _).bind fun _ => h.guarded (blind_alter _)

theorem blind_withOwner (entry : Option FrameId) {body : Tracing V α} (h : Blind body) :
    Blind (withOwner entry body) := (blind_alter _).bind fun _ => h.guarded (blind_alter _)

theorem blind_inTeardown {body : Tracing V α} (h : Blind body) : Blind (inTeardown body) :=
  (blind_alter _).bind fun _ => h.guarded (blind_alter _)

theorem blind_externalFlush {body : Tracing V α} (h : Blind body) : Blind (externalFlush body) :=
  mirrors_beginFlush.blind.bind fun _ => h.guarded mirrors_endFlush.blind

theorem blind_runInContext (o : NodeId) {body : Tracing V α} (h : Blind body) :
    Blind (runInContext env o body) := by
  refine blind_look.bind fun w => ?_
  split
  · exact .raise _
  · refine (mirrors_enter o).blind.bind fun _ => ?_
    have hbody : Blind (body >>= fun a => alter (fun w => w.push (.finished o)) >>= fun _ => pure a) :=
      h.bind fun a => (blind_alter _).bind fun _ => .pure a
    exact hbody.guarded (blind_alter _)

theorem blind_observeLive (n : NodeId) : Blind (observeLive n : Tracing V Unit) := by
  refine blind_look.bind fun w => ?_
  split
  · refine blind_look.bind fun w => ?_
    split
    · exact .raise _
    · exact (mirrors_observed n _).blind
  · exact .stop

theorem blind_observeEvent (n : NodeId) : Blind (observeEvent n : Tracing V Unit) := by
  refine blind_look.bind fun w => ?_
  split
  · exact blind_observeLive n
  · exact .stop

theorem blind_scheduleEffect (e : NodeId) :
    Blind (Act.modify fun m => m.scheduleEffect e : Tracing V Unit) :=
  (mirrors_scheduleEffect e).blind

theorem blind_captureAll {f : β → Tracing V Unit} (h : ∀ b, Blind (f b)) (l : List β) :
    Blind (captureAll f l) := by
  induction l with
  | nil => exact .pure none
  | cons b l ih =>
    refine (h b).attempt.bind fun r => ih.bind fun later => ?_
    cases r with
    | error p => exact .pure (some p)
    | ok u => exact .pure later

theorem blind_setSignal (n : NodeId) (v : V) : Blind (setSignal env n v) := by
  refine blind_look.bind fun w => ?_
  split
  · exact .stop
  · split
    · exact (blind_report fun m => core_reportSuppressed m n).bind fun _ => .pure none
    · exact (mirrors_write n v).blind.bind fun _ => .pure _

theorem blind_updateSignal (n : NodeId) (f : V → V) : Blind (updateSignal env n f) := by
  refine blind_look.bind fun w => ?_
  split
  · exact .stop
  · exact (mirrors_write n _).blind.bind fun _ => .pure _

theorem blind_create (f : World V → World V) : Blind (create f) :=
  blind_look.bind fun _ => (mirrors_created f).blind.bind fun _ => .pure _

theorem blind_dropNode (n : NodeId) : Blind (dropNode env n : Tracing V Unit) := by
  refine blind_look.bind fun w => ?_
  split
  · exact .stop
  · exact (mirrors_dropLast n).blind

theorem blind_withSource (n : NodeId) {body : Tracing V Unit} (h : Blind body) :
    Blind (withSource n body) := by
  refine blind_look.bind fun w => ?_
  split
  · exact h
  · exact .stop

theorem blind_settleRerun (e : NodeId) : Blind (settleRerun e : Tracing V Unit) := by
  refine blind_look.bind fun w => ?_
  split
  · exact .stop
  · refine (blind_alter _).bind fun _ => ?_
    split
    · exact blind_scheduleEffect e
    · exact .pure ()

theorem blind_recover (e : NodeId) : Blind (recover e : Tracing V Unit) := by
  refine blind_look.bind fun w => ?_
  split
  · exact .stop
  · split
    · exact .pure ()
    · exact ((mirrors_onWorld fun w : World V =>
        w.modifyEffect e fun x => { x with state := .dirty }).comp (mirrors_scheduleEffect e)).blind

structure BlindCalls (c : TracedCalls V) : Prop where
  exec : ∀ p, Blind (c.exec p)
  refresh : ∀ n, Blind (c.refresh n)
  dispose : ∀ o, Blind (c.dispose o)
  drain : Blind c.drain

namespace BlindCalls

variable {c : TracedCalls V}

theorem ignoring (h : BlindCalls c) (p : Prog V) : Blind (c.exec p >>= fun _ => pure ()) :=
  (h.exec p).bind fun _ => .pure ()

theorem anyChanged (h : BlindCalls c) (l : List (NodeId × ℕ)) : Blind (anyChanged c l) := by
  induction l with
  | nil => exact .pure false
  | cons entry l ih =>
    obtain ⟨d, version⟩ := entry
    have hrefresh : Blind (refreshNode c d) := by
      refine (blind_lift _).bind fun _ => blind_look.bind fun w => ?_
      split
      · exact h.refresh d
      · exact .pure ()
    refine hrefresh.bind fun _ => blind_look.bind fun w => ?_
    split
    · exact .pure true
    · exact ih

theorem dependenciesChanged (h : BlindCalls c) (o : NodeId) :
    Blind (dependenciesChanged c env o) := blind_look.bind fun _ => h.anyChanged _

theorem recomputeInner (h : BlindCalls c) (n : NodeId) (x : ComputedInner V) :
    Blind (recomputeInner c env n x) := by
  refine (blind_alter _).bind fun _ => ?_
  refine ((blind_runInContext n (h.exec _)).onUnwind (blind_alter _)).bind fun next => ?_
  exact blind_look.bind fun w => (blind_alter _).bind fun _ => .pure _

theorem recompute_paths (h : BlindCalls c) (n : NodeId) (x : ComputedInner V) :
    Act.Agree core (recomputeInSpan c env n x)
      (Traced.recomputeInner c env n x >>= fun _ => pure ()) := by
  refine Act.Agree.gets_bind fun w => Act.Agree.skip_bind (fun m => rfl) ?_
  have hspan : Act.Agree core ((Traced.recomputeInner c env n x).onUnwind
      (Act.modify fun m => m.abandonSpan w.flush.flushEpoch n)) (Traced.recomputeInner c env n x) :=
    (h.recomputeInner n x).onUnwind_skip fun m => rfl
  exact hspan.bind fun changed => Act.Agree.skip fun m => rfl

theorem recompute (h : BlindCalls c) (n : NodeId) : Blind (recompute c env n) := by
  refine blind_look.bind fun w => ?_
  split
  · exact .pure ()
  · rename_i x hx
    have hpaths : Act.Agree core (recomputeInSpan c env n x)
        (Traced.recomputeInner c env n x >>= fun _ => pure ()) := h.recompute_paths n x
    refine Act.Agree.ask fun a b => ?_
    cases a <;> cases b
    · exact hpaths.symm.trans hpaths
    · exact hpaths.symm
    · exact hpaths
    · exact hpaths.trans hpaths.symm

theorem refreshes (h : BlindCalls c) (n : NodeId) : Blind (Traced.refresh c env n) := by
  refine blind_look.bind fun w => ?_
  split
  · exact .pure ()
  · split
    · exact .pure ()
    · refine (h.dependenciesChanged n).bind fun changed => ?_
      refine (blind_report fun m => core_reportVerification m n changed).bind fun _ => ?_
      split
      · exact h.recompute n
      · exact blind_alter _
    · exact h.recompute n

theorem getNode (h : BlindCalls c) (n : NodeId) : Blind (getNode c n) := by
  refine blind_look.bind fun w => ?_
  split
  · exact (blind_observeLive n).bind fun _ => blind_lift _
  · refine (blind_lift _).bind fun _ => (h.refresh n).bind fun _ => ?_
    exact (blind_observeLive n).bind fun _ => blind_lift _
  · exact .stop

theorem peekNode (h : BlindCalls c) (n : NodeId) : Blind (peekNode c n) := by
  refine blind_look.bind fun w => ?_
  split
  · exact blind_lift _
  · exact (blind_lift _).bind fun _ => (h.refresh n).bind fun _ => blind_lift _
  · exact .stop

theorem adoptIntoCurrent (h : BlindCalls c) (child : Owned) : Blind (adoptIntoCurrent c child) := by
  refine blind_look.bind fun w => ?_
  split
  · exact .pure ()
  · split
    · exact .stop
    · split
      · exact h.dispose child
      · exact blind_alter _

theorem tearDown (h : BlindCalls c) (frame : OwnerFrame V) : Blind (tearDown c frame) := by
  refine blind_untrack (blind_withOwner none (blind_inTeardown ?_))
  refine (blind_captureAll h.ignoring _).bind fun first => ?_
  exact (blind_captureAll h.dispose _).bind fun later => .pure _

theorem resetFrame (h : BlindCalls c) (f : FrameId) : Blind (resetFrame c f) := by
  refine blind_look.bind fun w => ?_
  split
  · exact .stop
  · refine (blind_alter _).bind fun _ => (h.tearDown _).bind fun first => ?_
    split
    · exact .pure ()
    · refine blind_look.bind fun w => ?_
      split
      · exact .pure ()
      · exact .raise _

theorem disposeFrame (h : BlindCalls c) (f : FrameId) : Blind (disposeFrame c f) := by
  refine blind_look.bind fun w => ?_
  split
  · exact .stop
  · split
    · exact .pure ()
    · exact (blind_alter _).bind fun _ => h.resetFrame f

theorem onCleanup (h : BlindCalls c) (cleanup : Prog V) : Blind (onCleanup c cleanup) := by
  refine blind_look.bind fun w => ?_
  split
  · split <;> exact .raise _
  · split
    · exact .stop
    · split
      · exact h.ignoring cleanup
      · exact blind_alter _

theorem dropFrame (h : BlindCalls c) (f : FrameId) : Blind (dropFrame c f) := by
  refine blind_look.bind fun w => ?_
  split
  · exact .stop
  · split
    · exact .pure ()
    · exact (blind_alter _).bind fun _ => (blind_alter _).bind fun _ =>
        (h.disposeFrame f).guarded (blind_alter _)

theorem openScope (h : BlindCalls c) (handler : Option (Payload V → Prog V)) (body : Prog V) :
    Blind (openScope c handler body) := by
  refine blind_look.bind fun w => (blind_alter _).bind fun _ => ?_
  refine ((blind_withOwner _ (h.exec body)).onUnwind (h.dropFrame _)).bind fun v => ?_
  exact (h.adoptIntoCurrent _).bind fun _ => .pure _

theorem runIn (h : BlindCalls c) (f : FrameId) (body : Prog V) : Blind (runIn c f body) := by
  refine blind_look.bind fun w => ?_
  split
  · exact .stop
  · exact blind_withOwner _ (h.exec body)

theorem newEffect (h : BlindCalls c) (body : Body V) (external : Bool) :
    Blind (newEffect c body external) := by
  refine blind_look.bind fun w => (mirrors_created _).blind.bind fun _ => ?_
  refine (h.adoptIntoCurrent _).bind fun _ => ?_
  exact (blind_scheduleEffect _).bind fun _ => .pure _

theorem disposeEffect (h : BlindCalls c) (e : NodeId) : Blind (disposeEffect c env e) := by
  refine blind_look.bind fun w => ?_
  split
  · exact .stop
  · split
    · exact .pure ()
    · refine (mirrors_closing e).blind.bind fun _ => ?_
      exact (h.disposeFrame _).guarded (mirrors_unhook e).blind

theorem runBody (h : BlindCalls c) (body : Body V) : Blind (runBody c body) := by
  cases body with
  | user body => exact h.ignoring body
  | drainQueue event queue handler =>
    refine (blind_observeEvent event).bind fun _ => blind_look.bind fun w => ?_
    refine (blind_alter _).bind fun _ => blind_untrack (Act.Agree.sequence (fun v => ?_) _)
    exact (blind_alter _).bind fun _ => h.ignoring (handler v)

theorem shouldRun (h : BlindCalls c) (e : NodeId) (s : State) : Blind (shouldRun c env e s) := by
  cases s with
  | clean => exact .pure false
  | check => exact (h.dependenciesChanged e).onUnwind (blind_recover e)
  | dirty => exact .pure true

theorem runWindow (h : BlindCalls c) (e : NodeId) (x : EffectInner V) :
    Blind (runWindow c env e x) := by
  refine (blind_alter _).bind fun _ => Act.Agree.guarded ?_ (blind_alter _)
  refine Act.Agree.onUnwind ?_ (blind_alter _)
  refine (h.resetFrame x.owner).bind fun _ => blind_look.bind fun w => ?_
  split
  · exact .pure ()
  · refine (blind_withOwner _ (blind_runInContext e (h.runBody x.body))).bind fun _ => ?_
    exact blind_settleRerun e

theorem reportedRun (h : BlindCalls c) (e : NodeId) (x : EffectInner V) :
    Blind (reportedRun c env e x) := by
  have hrun : ∀ (reported : Bool) (epoch : ℕ), Act.Agree core
      (Act.modify (fun m => m.startRun e) >>= fun _ =>
        (Traced.runWindow c env e x).guarded (Act.modify fun m => m.endRun reported epoch e))
      (Traced.runWindow c env e x) := by
    intro reported epoch
    refine Act.Agree.skip_bind (fun m => core_startRun m e) ?_
    exact (h.runWindow e x).guarded_skip fun m => core_endRun reported epoch m e
  refine blind_look.bind fun w => Act.Agree.ask fun a b => ?_
  exact (hrun a _).trans (hrun b _).symm

theorem runScheduledInner (h : BlindCalls c) (e : NodeId) : Blind (runScheduledInner c env e) := by
  refine blind_look.bind fun w => ?_
  split
  · exact .stop
  · refine (blind_alter _).bind fun _ => ?_
    split
    · exact .pure ()
    · split
      · exact blind_alter _
      · refine (blind_alter _).bind fun _ => (h.shouldRun e _).bind fun run => ?_
        refine blind_look.bind fun w => ?_
        split
        · exact .pure ()
        · split
          · exact (blind_lift _).bind fun _ => h.reportedRun e _
          · exact blind_report fun m => core_skipRun m e

theorem runScheduled (h : BlindCalls c) (e : NodeId) : Blind (runScheduled c env e) := by
  refine blind_look.bind fun w => ?_
  split
  · exact .stop
  · refine (blind_alter _).bind fun _ => ?_
    split
    · exact h.runScheduledInner e
    · refine (h.runScheduledInner e).attempt.bind fun r => ?_
      split
      · exact .pure ()
      · refine (h.disposeEffect e).bind fun _ => (blind_alter _).bind fun _ => ?_
        exact h.ignoring _

theorem runReady (h : BlindCalls c) (e : NodeId) : Blind (runReady c env e) := by
  refine blind_look.bind fun w => ?_
  split
  · refine (blind_alter _).bind fun _ => ?_
    split
    · exact h.runScheduled e
    · exact blind_externalFlush (h.runScheduled e)
  · exact .stop

theorem newSubscription (h : BlindCalls c) (cancel : Cancel) : Blind (newSubscription c cancel) :=
  blind_look.bind fun _ => (blind_alter _).bind fun _ =>
    (h.adoptIntoCurrent _).bind fun _ => .pure _

theorem subscribe (h : BlindCalls c) (n : NodeId) (s : Subscriber V) : Blind (subscribe c n s) := by
  refine blind_look.bind fun w => ?_
  split
  · exact .stop
  · exact (blind_alter _).bind fun _ => h.newSubscription _

theorem on (h : BlindCalls c) (n : NodeId) (handler : V → Prog V) : Blind (on c n handler) := by
  refine blind_look.bind fun w => (blind_alter _).bind fun _ => ?_
  refine (h.subscribe n _).bind fun direct => (h.newEffect _ _).bind fun effect => ?_
  exact h.newSubscription _

theorem unsubscribe (h : BlindCalls c) (s : SubscriptionId) : Blind (unsubscribe c s) := by
  refine blind_look.bind fun w => ?_
  split
  · exact .stop
  · split
    · refine (blind_alter _).bind fun _ => ?_
      split
      · exact .pure ()
      · rename_i cancel hcancel
        cases cancel with
        | subscriber n id => exact blind_alter _
        | drain direct effect => exact (h.dispose _).bind fun _ => h.dispose _
    · exact .pure ()

theorem callSubscriber (h : BlindCalls c) (v : V) (s : Subscriber V) :
    Blind (callSubscriber c v s) := by
  refine (blind_alter _).bind fun _ => ?_
  cases s with
  | immediate handler => exact h.ignoring _
  | feeder q => exact blind_alter _

theorem emitEvent (h : BlindCalls c) (n : NodeId) (v : V) : Blind (emitEvent c env n v) := by
  refine blind_look.bind fun w => ?_
  split
  · exact .stop
  · refine (blind_alter _).bind fun _ => Act.Agree.bind ?_ fun _ => (mirrors_trigger n).blind
    refine Act.Agree.guarded ?_ (blind_alter _)
    exact blind_untrack (Act.Agree.sequence (h.callSubscriber v) _)

theorem runHooks (h : BlindCalls c) (n : NodeId) : Blind (runHooks c n) := by
  refine blind_look.bind fun w => ?_
  split
  · exact .stop
  · refine (blind_alter _).bind fun _ => ?_
    split
    · exact .pure ()
    · exact (blind_alter _).bind fun _ => h.ignoring _

theorem runJob (h : BlindCalls c) (job : Job V) : Blind (runJob c env job) := by
  cases job with
  | effect e => exact h.runScheduled e
  | hooks n => exact h.runHooks n
  | user job => exact h.ignoring job

theorem drains (h : BlindCalls c) : Blind (Traced.drain c env) := by
  refine blind_look.bind fun w => ?_
  split
  · exact .pure ()
  · exact (blind_alter _).bind fun _ => (h.runJob _).bind fun _ => h.drain

theorem flushJobs (h : BlindCalls c) : Blind (flushJobs c) := by
  refine blind_look.bind fun w => ?_
  split
  · exact blind_alter _
  · exact mirrors_enterDrain.blind.bind fun _ => h.drain.guarded (mirrors_leaveDrain _).blind

theorem runMicrotask (h : BlindCalls c) : Blind (runMicrotask c) := by
  refine blind_look.bind fun w => ?_
  split
  · exact .stop
  · exact (blind_alter _).bind fun _ => h.flushJobs

theorem disposeOwned (h : BlindCalls c) (o : Owned) : Blind (disposeOwned c env o) := by
  cases o with
  | effect e => exact h.disposeEffect e
  | scope f => exact h.disposeFrame f
  | subscription s => exact h.unsubscribe s

theorem operate (h : BlindCalls c) (op : Call V) (f : op.Closure → Prog V) :
    Blind (operate c env op f) := by
  cases op with
  | panic v => exact .raise _
  | catchUnwind => exact (h.exec _).attempt
  | untrack => exact blind_untrack (h.exec _)
  | get n => exact h.getNode n
  | peek n => exact h.peekNode n
  | set n v => exact blind_setSignal n v
  | replace n v => exact blind_updateSignal n fun _ => v
  | update n g => exact (blind_updateSignal n g).bind fun _ => .pure ()
  | observe n => exact blind_withSource n (blind_observeLive n)
  | trigger n => exact blind_withSource n (mirrors_trigger n).blind
  | signal v same => exact blind_create _
  | thunk => exact blind_create _
  | memo equals => exact blind_create _
  | source => exact blind_create _
  | sourceWithHooks => exact blind_create _
  | event => exact blind_create _
  | effect => exact h.newEffect _ _
  | effectWith => exact h.newEffect _ _
  | disposeEffect e => exact h.disposeEffect e
  | drop n => exact blind_dropNode n
  | scope => exact h.openScope _ _
  | scopeCatch => exact h.openScope _ _
  | disposeScope frame => exact h.disposeFrame frame
  | owner => exact blind_lift _
  | runIn frame => exact h.runIn frame _
  | unowned => exact blind_withOwner _ (h.exec _)
  | onCleanup => exact h.onCleanup _
  | emit n v => exact h.emitEvent n v
  | subscribe n => exact h.subscribe n _
  | on n => exact h.on n f
  | unsubscribe s => exact h.unsubscribe s
  | schedule => exact blind_alter _
  | flushNow => exact h.flushJobs
  | runMicrotask => exact h.runMicrotask
  | externalFlush => exact blind_externalFlush (h.exec _)
  | runReady e => exact h.runReady e
  | dropReady e => exact blind_lift _

end BlindCalls

theorem blind_pass : Blind (Act.modify pass : Tracing V Unit) := by
  refine Act.Agree.modify fun m m' hm => ?_
  change (m.world, m.world :: m.steps) = (m'.world, m'.world :: m'.steps)
  rw [world_of_core hm, steps_of_core hm]

theorem blind_perform {c : TracedCalls V} (h : BlindCalls c) (op : Call V) (f : op.Closure → Prog V) :
    Blind (perform c env op f) := by
  refine blind_pass.bind fun _ => (blind_lift _).bind fun _ => ?_
  exact (h.operate op f).guarded blind_pass

theorem blind_calls (depth : ℕ) : BlindCalls (calls env depth : TracedCalls V) := by
  induction depth with
  | zero => exact ⟨fun _ => .stop, fun _ => .stop, fun _ => .stop, .stop⟩
  | succ depth ih =>
    exact ⟨fun p => Program.agree_run (fun op f => blind_perform ih op f) p,
      fun n => ih.refreshes n, fun o => ih.disposeOwned o, ih.drains⟩

/-- Two runs of a program from the same world, with whatever subscriptions, installed and
dropped whenever: they go through the same worlds, operation by operation, and end alike,
with the same answer or the same panic in the same world. -/
theorem diagnostics_are_unobtrusive (env : Enumeration) (depth : ℕ) (p : Prog V) (w : World V)
    (steps : List (World V)) (d d' : Diagnostics) :
    (exec env depth p ⟨w, d, steps⟩).mapState core = (exec env depth p ⟨w, d', steps⟩).mapState core :=
  (blind_calls depth).exec p _ _ rfl

/-- A subscriber that is installed when an operation begins hears what the dormant run
keeps to itself. -/
example :
    let heard (d : Diagnostics) : Option ℕ :=
      match exec .insertion 5 (.signal 0 fun s => .set s 1 (.ret 0) : Prog ℕ) ⟨{}, d, []⟩ with
      | .ok _ m => some (m.diagnostics.received 1).length
      | _ => none
    heard {} = some 0 ∧ heard { plan := fun k => if k = 0 then [.subscribe] else [] } = some 2 := by
  decide +kernel

end Traced

end Adaptite

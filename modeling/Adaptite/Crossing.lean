import Adaptite.Preservation

set_option autoImplicit false

namespace Adaptite

open Unwinding

variable {V α : Type}

structure Cells where
  stack : List NodeId
  activeComputations : List NodeId
  untracked : ℕ
  owners : List (Option FrameId)
  teardown : ℕ
  panicking : Bool
  flushDepth : ℕ

def World.cells (w : World V) : Cells where
  stack := w.graph.stack
  activeComputations := w.graph.activeComputations
  untracked := w.untracked
  owners := w.owners
  teardown := w.teardown
  panicking := w.panicking
  flushDepth := w.flush.flushDepth

/-- What `run_in_context` makes of the cells. -/
def Cells.entered (x : Cells) (o : NodeId) : Cells :=
  { x with stack := o :: x.stack, activeComputations := o :: x.activeComputations, untracked := 0 }

def Cells.left (x : Cells) (untracked : ℕ) : Cells :=
  { x with
    stack := x.stack.tail
    activeComputations := x.stack.head?.elim x.activeComputations x.activeComputations.erase
    untracked }

theorem Cells.left_entered (x : Cells) (o : NodeId) : (x.entered o).left x.untracked = x := by
  unfold left entered
  dsimp only [List.head?_cons, Option.elim_some, List.tail_cons]
  rw [List.erase_cons_head]

def EffectInner.title (x : EffectInner V) : FrameId × Bool := (x.owner, x.disposed)

/-- The same owner frames, and the same effects under them. -/
structure World.Kin (a b : World V) : Prop where
  frames : b.frames = a.frames
  nextFrame : b.nextFrame = a.nextFrame
  nextNode : a.graph.nextNode ≤ b.graph.nextNode
  effects : ∀ e, (b.effects e).map EffectInner.title = (a.effects e).map EffectInner.title

structure World.Still (a b : World V) : Prop extends World.Kin a b where
  cells : b.cells = a.cells

/-- A frame that has a cleanup more, or a handle. -/
structure OwnerFrame.Tended (x y : OwnerFrame V) : Prop where
  parent : y.parent = x.parent
  children : y.children = x.children
  disposed : y.disposed = x.disposed
  handled : x.handled = true → y.handled = true

section Changes

variable {env : Enumeration} {w a b c : World V}

theorem World.Kin.same (h1 : b.frames = a.frames) (h2 : b.nextFrame = a.nextFrame)
    (h3 : b.graph.nextNode = a.graph.nextNode) (h4 : b.effects = a.effects) : a.Kin b :=
  ⟨h1, h2, h3.ge, fun e => by rw [h4]⟩

theorem World.Kin.trans (h : a.Kin b) (h' : b.Kin c) : a.Kin c :=
  ⟨h'.frames.trans h.frames, h'.nextFrame.trans h.nextFrame, h.nextNode.trans h'.nextNode,
    fun e => (h'.effects e).trans (h.effects e)⟩

theorem World.Still.same (h1 : b.frames = a.frames) (h2 : b.nextFrame = a.nextFrame)
    (h3 : b.graph.nextNode = a.graph.nextNode) (h4 : b.effects = a.effects)
    (h5 : b.cells = a.cells) : a.Still b :=
  ⟨.same h1 h2 h3 h4, h5⟩

theorem World.Still.refl (a : World V) : a.Still a := .same rfl rfl rfl rfl rfl

theorem World.Still.trans (h : a.Still b) (h' : b.Still c) : a.Still c :=
  ⟨h.toKin.trans h'.toKin, h'.cells.trans h.cells⟩

theorem flushDepth_schedule {J : Type} (f : Flush J) (job : J) :
    (f.schedule job).flushDepth = f.flushDepth := by
  unfold Flush.schedule Flush.ensureFlushScheduled
  split <;> rfl

theorem flushDepth_rearm {J : Type} (f : Flush J) : f.rearm.flushDepth = f.flushDepth := by
  unfold Flush.rearm Flush.ensureFlushScheduled
  split
  · rfl
  · split <;> rfl

theorem flushDepth_beginFlush {J : Type} (f : Flush J) :
    f.beginFlush.1.flushDepth = f.flushDepth + 1 := by
  unfold Flush.beginFlush
  split <;> rfl

theorem flushDepth_popJob {J : Type} {f f' : Flush J} {job : J} (h : f.popJob = some (job, f')) :
    f'.flushDepth = f.flushDepth := by
  unfold Flush.popJob at h
  split at h
  · cases h
  · cases h
    rfl

theorem still_flush (w : World V) (f : Flush (Job V)) (h : f.flushDepth = w.flush.flushDepth) :
    w.Still { w with flush := f } := by
  refine .same rfl rfl rfl rfl ?_
  unfold World.cells
  rw [h]

theorem still_schedule (w : World V) (job : Job V) : w.Still (w.schedule job) :=
  still_flush w _ (flushDepth_schedule w.flush job)

theorem still_noteObservation (w : World V) (n : NodeId) (observed : Bool) :
    w.Still (w.noteObservation n observed) := by
  unfold World.noteObservation
  split
  · exact .refl w
  · split
    · exact .refl w
    · split
      · exact .same rfl rfl rfl rfl rfl
      · exact World.Still.trans (b := w.modifyHooks n _) (.same rfl rfl rfl rfl rfl)
          (still_schedule _ _)

theorem still_noteUnobserved (w : World V) (l : List NodeId) : w.Still (w.noteUnobserved l) := by
  induction l generalizing w with
  | nil => exact .refl w
  | cons n l ih => exact (still_noteObservation w n false).trans (ih _)

theorem still_disposeNode (w : World V) (n : NodeId) : w.Still (w.disposeNode env n) := by
  obtain ⟨_, _, h3, h4, h5⟩ := Graph.dispose_frame env w.graph n
  have hgraph : w.Still { w with graph := (w.graph.dispose env n).1 } := by
    refine .same rfl rfl h5 rfl ?_
    unfold World.cells
    dsimp only
    rw [h3, h4]
  exact (hgraph.trans (still_noteUnobserved _ (w.graph.dispose env n).2)).trans
    (.same rfl rfl rfl rfl rfl)

theorem still_modifyEffect (w : World V) (e : NodeId) (g : EffectInner V → EffectInner V)
    (h : ∀ x, w.effects e = some x → (g x).title = x.title) : w.Still (w.modifyEffect e g) := by
  refine ⟨⟨rfl, rfl, le_refl _, fun i => ?_⟩, rfl⟩
  unfold World.modifyEffect
  by_cases hi : i = e
  · subst hi
    dsimp only
    rw [Function.update_self]
    cases hx : w.effects i with
    | none => rfl
    | some x => exact congrArg some (h x hx)
  · dsimp only
    rw [Function.update_of_ne hi]

theorem still_unlatch (w : World V) (e : NodeId) : w.Still (w.unlatch e) := by
  unfold World.unlatch
  split
  · exact .refl w
  · split
    · have heffect := still_modifyEffect w e (fun x => { x with scheduled := false }) fun _ _ => rfl
      exact heffect.trans (.same rfl rfl rfl rfl rfl)
    · exact .refl w

theorem still_latch (w : World V) (e : NodeId) : w.Still (w.latch e) := by
  have heffect := still_modifyEffect w e (fun x => { x with scheduled := true }) fun _ _ => rfl
  exact heffect.trans (.same rfl rfl rfl rfl rfl)

theorem still_scheduleEffect (w : World V) (e : NodeId) : w.Still (w.scheduleEffect e) := by
  unfold World.scheduleEffect
  split
  · exact .refl w
  · split
    · exact .refl w
    · split
      · exact (still_latch w e).trans (.same rfl rfl rfl rfl rfl)
      · exact (still_latch w e).trans (still_schedule _ _)

theorem still_markEffect (w : World V) (e : NodeId) (mark : Mark) :
    w.Still (w.markEffect e mark) := by
  have heffect := still_modifyEffect w e (fun x => { x with state := x.state.raise mark })
    fun _ _ => rfl
  exact heffect.trans (still_scheduleEffect _ e)

theorem still_marks (h : Marks a b) : a.Still b := by
  induction h with
  | refl => exact .refl a
  | tail _ hs ih =>
    refine ih.trans ?_
    cases hs with
    | computed n x mark hx lt => exact .same rfl rfl rfl rfl rfl
    | effect e mark hc => exact still_markEffect _ e mark

theorem still_bumpVersion (w : World V) (n : NodeId) : w.Still (w.bumpVersion n) := by
  unfold World.bumpVersion Graph.bumpVersion
  split
  · exact .same rfl rfl rfl rfl rfl
  · exact .same rfl rfl rfl rfl rfl

theorem still_trigger (w : World V) (n : NodeId) : w.Still (w.trigger env n) :=
  (still_bumpVersion w n).trans (still_marks (marks_trigger env w n))

theorem still_write (w : World V) (n : NodeId) (v : V) : w.Still (w.write env n v) :=
  World.Still.trans (b := w.setValue n v) (.same rfl rfl rfl rfl rfl) (still_trigger _ n)

theorem still_store (w : World V) (n : NodeId) (v : V) : w.Still (w.store n v) := by
  unfold World.store
  split
  · exact .refl w
  · split
    · exact World.Still.trans (b := w.modifyComputed n _) (.same rfl rfl rfl rfl rfl)
        (still_bumpVersion _ n)
    · exact .same rfl rfl rfl rfl rfl

theorem still_noteZombie (w : World V) (n : NodeId) : w.Still (w.noteZombie n) := by
  unfold World.noteZombie
  split
  · split
    · exact .refl w
    · exact .same rfl rfl rfl rfl rfl
  · exact .refl w

theorem still_noteSaw (w : World V) (n : NodeId) (v : V) : w.Still (w.noteSaw n v) := by
  unfold World.noteSaw
  split
  · exact .same rfl rfl rfl rfl rfl
  · exact .refl w

theorem still_observed {n : NodeId} {u : Bool} {r : Graph × Bool}
    (h : w.graph.tryObserve u n = .ok r) : w.Still ((w.noteZombie n).observed n r) := by
  have hgraph : (w.noteZombie n).Still { w.noteZombie n with graph := r.1 } := by
    obtain ⟨_, _, _, _, he⟩ := Graph.tryObserve_frame h
    rw [← World.WellFormed.graph_noteZombie (w := w) (n := n)] at he
    rw [he]
    exact .same rfl rfl rfl rfl rfl
  refine (still_noteZombie w n).trans (hgraph.trans ?_)
  unfold World.observed
  dsimp only
  split
  · exact still_noteObservation _ _ _
  · exact .refl _

theorem still_unhook (w : World V) (e : NodeId) : w.Still (w.unhook env e) :=
  World.Still.trans (b := { w with graph := w.graph.unregisterObserver e })
    (.same rfl rfl rfl rfl rfl) (still_disposeNode _ e)

theorem still_dropNode (w : World V) (n : NodeId) : w.Still (w.dropNode env n) :=
  World.Still.trans (b := { w with
    graph := w.graph.unregisterObserver n
    signals := Function.update w.signals n none
    computed := Function.update w.computed n none
    events := Function.update w.events n none }) (.same rfl rfl rfl rfl rfl) (still_disposeNode _ n)

theorem still_create (h1 : b.frames = a.frames) (h2 : b.nextFrame = a.nextFrame)
    (h3 : b.graph.nextNode = a.graph.nextNode + 1) (h4 : b.effects = a.effects)
    (h5 : b.cells = a.cells) : a.Still b :=
  ⟨⟨h1, h2, h3.symm ▸ Nat.le_succ _, fun e => by rw [h4]⟩, h5⟩

theorem enter_still (w : World V) (o : NodeId) :
    w.Kin (w.enter env o) ∧ (w.enter env o).cells = w.cells.entered o := by
  obtain ⟨_, _, h3, h4, h5⟩ := Graph.enterContext_frame env w.graph o
  have hnote := still_noteUnobserved ({ w with
    graph := (w.graph.enterContext env o).1, untracked := 0 } : World V)
    (w.graph.enterContext env o).2
  have hkin : w.Kin { w with graph := (w.graph.enterContext env o).1, untracked := 0 } :=
    .same rfl rfl h5 rfl
  have hcells : ({ w with
      graph := (w.graph.enterContext env o).1, untracked := 0 } : World V).cells =
      w.cells.entered o := by
    unfold World.cells Cells.entered
    dsimp only
    rw [h3, h4]
  exact ⟨(hkin.trans hnote.toKin).trans (.same rfl rfl rfl rfl), hnote.cells.trans hcells⟩

theorem leave_still (w : World V) (untracked : ℕ) :
    w.Kin (w.leave untracked) ∧ (w.leave untracked).cells = w.cells.left untracked := by
  unfold World.leave Graph.exitContext World.cells Cells.left
  dsimp only
  split
  · rename_i hs
    rw [hs]
    exact ⟨.same rfl rfl rfl rfl, rfl⟩
  · rename_i hs
    rw [hs]
    exact ⟨.same rfl rfl rfl rfl, rfl⟩

end Changes

/-- A relation that allows for what keeps still and for what guards do, and where the calls back
keep to it, for the registration of a cleanup. -/
structure Carries (env : Enumeration) (T : World V → World V → Prop) : Prop where
  refl : ∀ w, T w w
  trans : ∀ a b c, T a b → T b c → T a c
  still : ∀ {a b}, a.Still b → T a b
  tend : ∀ (w : World V) (f : FrameId) (g : OwnerFrame V → OwnerFrame V),
    (∀ x : OwnerFrame V, x.Tended (g x)) → T w (w.modifyFrame f g)
  untrack : ∀ {α : Type} {body : Run V α}, Act.Moves T body → Act.Moves T (untrack body)
  withOwner : ∀ {α : Type} (entry : Option FrameId) {body : Run V α},
    Act.Moves T body → Act.Moves T (withOwner entry body)
  inTeardown : ∀ {α : Type} {body : Run V α}, Act.Moves T body → Act.Moves T (inTeardown body)
  context : ∀ {α : Type} (o : NodeId) {body : Run V α},
    Act.Moves T body → Act.Moves T (runInContext env o body)
  externalFlush : ∀ {α : Type} {body : Run V α},
    Act.Moves T body → Act.Moves T (externalFlush body)
  drained : ∀ {body : Run V Unit}, Act.Moves T body → Act.Moves T (Act.modify (fun w =>
    { w with flush := w.flush.openDrain.enterDrain }) >>= fun _ =>
      body.guarded (Act.modify fun w => { w with flush := w.flush.leaveDrain.rearm }))

/-- The calls that make, empty or dispose an owner frame. -/
structure Owning (env : Enumeration) (T : World V → World V → Prop) (c : Calls V) : Prop where
  openScope : ∀ handler body, Act.Moves T (openScope c handler body)
  newEffect : ∀ body external, Act.Moves T (newEffect c body external)
  subscribed : ∀ s, Act.Moves T (adoptIntoCurrent c (.subscription s))
  reset : ∀ f, Act.Moves T (resetFrame c f)
  disposeFrame : ∀ f, Act.Moves T (disposeFrame c f)
  disposeEffect : ∀ e, Act.Moves T (disposeEffect c env e)

namespace Carries

variable {env : Enumeration} {T : World V → World V → Prop} {c : Calls V}

section Reads

theorem assertNoCycle (k : Carries env T) (n : NodeId) :
    Act.Moves T (assertNoCycle n : Run V Unit) := by
  intro w
  refine .get_bind ?_
  split
  · exact .raise (k.refl w) _
  · exact .pure (k.refl w) ()

theorem observeLive (k : Carries env T) (n : NodeId) :
    Act.Moves T (observeLive n : Run V Unit) := by
  intro w
  refine .get_bind ?_
  split
  · refine .get_bind ?_
    split
    · exact .raise (k.refl w) _
    · rename_i r hr
      exact .modify (k.still (still_observed hr))
  · exact .stop

theorem refreshNode (k : Carries env T) (m : Meets T c) (n : NodeId) :
    Act.Moves T (refreshNode c n) := by
  intro w
  refine (k.assertNoCycle n w).bind k.trans fun _ t _ => .get_bind ?_
  split
  · exact m.refresh n t
  · exact .pure (k.refl t) ()

theorem anyChanged (k : Carries env T) (m : Meets T c) (l : List (NodeId × ℕ)) :
    Act.Moves T (anyChanged c l) := by
  induction l with
  | nil => exact .pure k.refl false
  | cons d l ih =>
    intro w
    refine (k.refreshNode m d.1 w).bind k.trans fun _ t _ => .get_bind ?_
    split
    · exact .pure (k.refl t) true
    · exact ih t

theorem dependenciesChanged (k : Carries env T) (m : Meets T c) (o : NodeId) :
    Act.Moves T (dependenciesChanged c env o) :=
  fun w => .get_bind (k.anyChanged m _ w)

theorem recompute (k : Carries env T) (m : Meets T c) (n : NodeId) :
    Act.Moves T (recompute c env n) := by
  have hstate : ∀ (w : World V) state, T w (w.setState n state) := fun w state =>
    k.still (.same rfl rfl rfl rfl rfl)
  intro w
  refine .get_bind ?_
  split
  · exact .pure (k.refl w) ()
  · refine .modify_bind k.trans (hstate w _) (.bind k.trans (.onUnwind k.trans ?_ fun t _ => ?_) ?_)
    · exact k.context n (m.exec _) _
    · exact .modify (hstate t _)
    · exact fun v t _ => .modify (k.still (still_store t n v))

theorem refresh (k : Carries env T) (m : Meets T c) (n : NodeId) :
    Act.Moves T (refresh c env n) := by
  intro w
  refine .get_bind ?_
  split
  · exact .pure (k.refl w) ()
  · split
    · exact .pure (k.refl w) ()
    · refine (k.dependenciesChanged m n w).bind k.trans fun changed t _ => ?_
      split
      · exact k.recompute m n t
      · exact .modify (k.still (.same rfl rfl rfl rfl rfl))
    · exact k.recompute m n w

theorem readCached (k : Carries env T) (n : NodeId) : Act.Moves T (readCached n : Run V V) := by
  intro w
  refine .get_bind ?_
  split
  · exact .modify_bind k.trans (k.still (still_noteSaw w n _)) (.pure (k.refl _) _)
  · exact .raise (k.refl w) _

theorem getNode (k : Carries env T) (m : Meets T c) (n : NodeId) : Act.Moves T (getNode c n) := by
  have hread : Act.Moves T (Adaptite.observeLive n >>= fun _ => Adaptite.readCached n) :=
    (k.observeLive n).bind k.trans fun _ => k.readCached n
  intro w
  refine .get_bind ?_
  split
  · exact hread w
  · exact (k.assertNoCycle n w).bind k.trans fun _ t _ =>
      (m.refresh n t).bind k.trans fun _ u _ => hread u
  · exact .stop

theorem peekCached (k : Carries env T) (n : NodeId) : Act.Moves T (peekCached n : Run V V) := by
  intro w
  refine .get_bind ?_
  split
  · exact .pure (k.refl w) _
  · exact .raise (k.refl w) _

theorem peekNode (k : Carries env T) (m : Meets T c) (n : NodeId) :
    Act.Moves T (peekNode c n) := by
  intro w
  refine .get_bind ?_
  split
  · exact k.peekCached n w
  · exact (k.assertNoCycle n w).bind k.trans fun _ t _ =>
      (m.refresh n t).bind k.trans fun _ u _ => k.peekCached n u
  · exact .stop

theorem setSignal (k : Carries env T) (n : NodeId) (v : V) :
    Act.Moves T (setSignal env n v) := by
  intro w
  refine .get_bind ?_
  split
  · exact .stop
  · split
    · exact .pure (k.refl w) _
    · exact .modify_bind k.trans (k.still (still_write w n v)) (.pure (k.refl _) _)

theorem updateSignal (k : Carries env T) (n : NodeId) (f : V → V) :
    Act.Moves T (updateSignal env n f) := by
  intro w
  refine .get_bind ?_
  split
  · exact .stop
  · exact .modify_bind k.trans (k.still (still_write w n _)) (.pure (k.refl _) _)

end Reads

section Owners

theorem execUnit (k : Carries env T) (m : Meets T c) (p : Prog V) :
    Act.Moves T (c.exec p >>= fun _ => (pure () : Run V Unit)) :=
  (m.exec p).bind k.trans fun _ => .pure k.refl ()

theorem captureAll {β : Type} (k : Carries env T) {f : β → Run V Unit}
    (h : ∀ b, Act.Moves T (f b)) (l : List β) : Act.Moves T (captureAll f l) := by
  induction l with
  | nil => exact .pure k.refl none
  | cons b l ih =>
    intro w
    refine .bind k.trans (h b w).attempt fun r t _ => .bind k.trans (ih t) fun later u _ => ?_
    split <;> exact .pure (k.refl u) _

theorem tearDown (k : Carries env T) (m : Meets T c) (frame : OwnerFrame V) :
    Act.Moves T (tearDown c frame) := by
  refine k.untrack (k.withOwner none (k.inTeardown ?_))
  refine (k.captureAll (k.execUnit m) _).bind k.trans fun first => ?_
  exact (k.captureAll m.dispose _).bind k.trans fun later => .pure k.refl _

theorem onCleanup (k : Carries env T) (m : Meets T c) (p : Prog V) :
    Act.Moves T (onCleanup c p) := by
  intro w
  refine .get_bind ?_
  split
  · split <;> exact .raise (k.refl w) _
  · split
    · exact .stop
    · split
      · exact k.execUnit m p w
      · exact .modify (k.tend w _ _ fun x => ⟨rfl, rfl, rfl, id⟩)

theorem owner (k : Carries env T) : Act.Moves T (owner : Run V (Option FrameId)) := by
  intro w
  refine .get_bind ?_
  split
  · exact .pure (k.refl w) _
  · exact .modify_bind k.trans (k.tend w _ _ fun x => ⟨rfl, rfl, rfl, fun _ => rfl⟩)
      (.pure (k.refl _) _)

theorem runIn (k : Carries env T) (m : Meets T c) (f : FrameId) (body : Prog V) :
    Act.Moves T (runIn c f body) := by
  intro w
  refine .get_bind ?_
  split
  · exact .stop
  · exact k.withOwner _ (m.exec body) w

end Owners

section Effects

theorem observeEvent (k : Carries env T) (n : NodeId) :
    Act.Moves T (observeEvent n : Run V Unit) := by
  intro w
  refine .get_bind ?_
  split
  · exact k.observeLive n w
  · exact .stop

theorem runBody (k : Carries env T) (m : Meets T c) (body : Body V) :
    Act.Moves T (runBody c body) := by
  cases body with
  | user p => exact k.execUnit m p
  | drainQueue event queue handler =>
    intro w
    refine (k.observeEvent event w).bind k.trans fun _ t _ => .get_bind ?_
    refine .modify_bind k.trans (k.still (.same rfl rfl rfl rfl rfl)) ?_
    refine k.untrack (.sequence k.refl k.trans _ _ fun v _ u => ?_) _
    exact .modify_bind k.trans (k.still (.same rfl rfl rfl rfl rfl)) (k.execUnit m _ _)

theorem effect (k : Carries env T) (w : World V) (e : NodeId) (g : EffectInner V → EffectInner V)
    (h : ∀ x, w.effects e = some x → (g x).title = x.title) : T w (w.modifyEffect e g) :=
  k.still (still_modifyEffect w e g h)

theorem checkDivergence (k : Carries env T) (e : NodeId) :
    Act.Moves T (checkDivergence e : Run V Unit) := by
  intro w
  refine .get_bind ?_
  split
  · exact .stop
  · rename_i x hx
    refine .modify_bind k.trans (k.effect w e _ fun y hy => ?_) ?_
    · cases hx.symm.trans hy
      unfold EffectInner.countRun
      split <;> rfl
    · split
      · exact .raise (k.refl _) _
      · exact .pure (k.refl _) ()

theorem shouldRun (k : Carries env T) (m : Meets T c) (e : NodeId) (s : State) :
    Act.Moves T (shouldRun c env e s) := by
  cases s with
  | clean => exact .pure k.refl false
  | dirty => exact .pure k.refl true
  | check =>
    intro w
    refine .onUnwind k.trans (k.dependenciesChanged m e w) fun t _ => .get_bind ?_
    split
    · exact .stop
    · split
      · exact .pure (k.refl t) ()
      · exact .modify (k.trans _ _ _ (k.effect t e (fun x => { x with state := .dirty })
          fun _ _ => rfl) (k.still (still_scheduleEffect _ e)))

theorem settleRerun (k : Carries env T) (e : NodeId) :
    Act.Moves T (settleRerun e : Run V Unit) := by
  intro w
  refine .get_bind ?_
  split
  · exact .stop
  · refine .modify_bind k.trans (k.effect w e _ fun _ _ => rfl) ?_
    split
    · exact .modify (k.still (still_scheduleEffect _ e))
    · exact .pure (k.refl _) ()

theorem runWindow (k : Carries env T) (o : Owning env T c) (m : Meets T c) (e : NodeId)
    (x : EffectInner V) : Act.Moves T (runWindow c env e x) := by
  intro w
  refine .modify_bind k.trans (k.effect w e _ fun _ _ => rfl) (.guarded k.trans ?_ fun t _ =>
    .modify (k.effect t e _ fun _ _ => rfl))
  refine .onUnwind k.trans ?_ fun t _ => .modify (k.still (.same rfl rfl rfl rfl rfl))
  refine (o.reset x.owner _).bind k.trans fun _ t _ => .get_bind ?_
  split
  · exact .pure (k.refl t) ()
  · refine (k.withOwner _ (k.context e (k.runBody m x.body)) t).bind k.trans fun _ u _ => ?_
    exact k.settleRerun e u

theorem runScheduledInner (k : Carries env T) (o : Owning env T c) (m : Meets T c) (e : NodeId) :
    Act.Moves T (runScheduledInner c env e) := by
  intro w
  refine .get_bind ?_
  split
  · exact .stop
  · refine .modify_bind k.trans (k.still (still_unlatch w e)) ?_
    split
    · exact .pure (k.refl _) ()
    · split
      · exact .modify (k.effect _ e _ fun _ _ => rfl)
      · refine .modify_bind k.trans (k.effect _ e _ fun _ _ => rfl)
          ((k.shouldRun m e _ _).bind k.trans fun run t _ => .get_bind ?_)
        split
        · exact .pure (k.refl t) ()
        · split
          · exact (k.checkDivergence e t).bind k.trans fun _ u _ => k.runWindow o m e _ u
          · exact .pure (k.refl t) ()

theorem runScheduled (k : Carries env T) (o : Owning env T c) (m : Meets T c) (e : NodeId) :
    Act.Moves T (runScheduled c env e) := by
  intro w
  refine .get_bind ?_
  split
  · exact .stop
  · refine .modify_bind k.trans (k.still (.same rfl rfl rfl rfl rfl)) ?_
    split
    · exact k.runScheduledInner o m e _
    · refine (k.runScheduledInner o m e _).attempt.bind k.trans fun r t _ => ?_
      split
      · exact .pure (k.refl t) ()
      · refine (o.disposeEffect e t).bind k.trans fun _ u _ => ?_
        exact .modify_bind k.trans (k.still (.same rfl rfl rfl rfl rfl)) (k.execUnit m _ _)

theorem runReady (k : Carries env T) (o : Owning env T c) (m : Meets T c) (e : NodeId) :
    Act.Moves T (runReady c env e) := by
  intro w
  refine .get_bind ?_
  split
  · refine .modify_bind k.trans (k.still (.same rfl rfl rfl rfl rfl)) ?_
    split
    · exact k.runScheduled o m e _
    · exact k.externalFlush (k.runScheduled o m e) _
  · exact .stop

theorem dropReady (k : Carries env T) (e : NodeId) :
    Act.Moves T (dropReady e : Run V Unit) := by
  intro w
  refine .get_bind ?_
  split
  · have herase : w.Still { w with lane := w.lane.erase e } := .same rfl rfl rfl rfl rfl
    exact .modify (k.still (herase.trans (still_unlatch _ e)))
  · exact .stop

end Effects

section Flushes

theorem runHooks (k : Carries env T) (m : Meets T c) (n : NodeId) :
    Act.Moves T (runHooks c n) := by
  intro w
  refine .get_bind ?_
  split
  · exact .stop
  · refine .modify_bind k.trans (k.still (.same rfl rfl rfl rfl rfl)) ?_
    split
    · exact .pure (k.refl _) ()
    · exact .modify_bind k.trans (k.still (.same rfl rfl rfl rfl rfl)) (k.execUnit m _ _)

theorem runJob (k : Carries env T) (o : Owning env T c) (m : Meets T c) (job : Job V) :
    Act.Moves T (runJob c env job) := by
  cases job with
  | effect e => exact k.runScheduled o m e
  | hooks n => exact k.runHooks m n
  | user p => exact k.execUnit m p

theorem drain (k : Carries env T) (o : Owning env T c) (m : Meets T c) :
    Act.Moves T (drain c env) := by
  intro w
  refine .get_bind ?_
  split
  · exact .pure (k.refl w) ()
  · rename_i job f hp
    exact .modify_bind k.trans (k.still (still_flush w f (flushDepth_popJob hp)))
      ((k.runJob o m job _).bind k.trans fun _ t _ => m.drain t)

theorem flushJobs (k : Carries env T) (m : Meets T c) : Act.Moves T (flushJobs c) := by
  intro w
  refine .get_bind ?_
  split
  · exact .modify (k.still (still_flush w _ rfl))
  · exact k.drained m.drain w

theorem runMicrotask (k : Carries env T) (m : Meets T c) : Act.Moves T (runMicrotask c) := by
  intro w
  refine .get_bind ?_
  split
  · exact .stop
  · exact .modify_bind k.trans (k.still (still_flush w _ rfl)) (k.flushJobs m _)

end Flushes

section Events

theorem newSubscription (k : Carries env T) (o : Owning env T c) (cancel : Cancel) :
    Act.Moves T (newSubscription c cancel) := by
  intro w
  refine .get_bind (.modify_bind k.trans (k.still (.same rfl rfl rfl rfl rfl)) ?_)
  exact (o.subscribed _ _).bind k.trans fun _ t _ => .pure (k.refl t) _

theorem subscribe (k : Carries env T) (o : Owning env T c) (n : NodeId) (s : Subscriber V) :
    Act.Moves T (subscribe c n s) := by
  intro w
  refine .get_bind ?_
  split
  · exact .stop
  · exact .modify_bind k.trans (k.still (.same rfl rfl rfl rfl rfl)) (k.newSubscription o _ _)

theorem on (k : Carries env T) (o : Owning env T c) (n : NodeId) (handler : V → Prog V) :
    Act.Moves T (on c n handler) := by
  intro w
  refine .get_bind (.modify_bind k.trans (k.still (.same rfl rfl rfl rfl rfl)) ?_)
  refine (k.subscribe o n _ _).bind k.trans fun direct t _ => ?_
  exact (o.newEffect _ _ t).bind k.trans fun e u _ => k.newSubscription o _ u

theorem unsubscribe (k : Carries env T) (m : Meets T c) (s : SubscriptionId) :
    Act.Moves T (unsubscribe c s) := by
  intro w
  refine .get_bind ?_
  split
  · exact .stop
  · split
    · refine .modify_bind k.trans (k.still (.same rfl rfl rfl rfl rfl)) ?_
      split
      · exact .pure (k.refl _) ()
      · rename_i cancel _
        cases cancel with
        | subscriber n id => exact .modify (k.still (.same rfl rfl rfl rfl rfl))
        | drain direct e => exact (m.dispose _ _).bind k.trans fun _ t _ => m.dispose _ t
    · exact .pure (k.refl w) ()

theorem emit (k : Carries env T) (m : Meets T c) (n : NodeId) (v : V) :
    Act.Moves T (emit c env n v) := by
  intro w
  refine .get_bind ?_
  split
  · exact .stop
  · refine .modify_bind k.trans (k.still (.same rfl rfl rfl rfl rfl)) (.bind k.trans ?_
      fun _ t _ => .modify (k.still (still_trigger t n)))
    refine .guarded k.trans (k.untrack (.sequence k.refl k.trans _ _ fun s _ u => ?_) _)
      fun t _ => .modify (k.still (.same rfl rfl rfl rfl rfl))
    refine .modify_bind k.trans (k.still (.same rfl rfl rfl rfl rfl)) ?_
    cases s with
    | immediate handler => exact k.execUnit m _ _
    | feeder q => exact .modify (k.still (.same rfl rfl rfl rfl rfl))

end Events

section Interface

theorem create (k : Carries env T) {f : World V → World V} (h : ∀ w : World V, w.Still (f w)) :
    Act.Moves T (create f) :=
  fun w => .get_bind (.modify_bind k.trans (k.still (h w)) (.pure (k.refl _) _))

theorem dropNode (k : Carries env T) (n : NodeId) :
    Act.Moves T (dropNode env n : Run V Unit) := by
  intro w
  refine .get_bind ?_
  split
  · exact .stop
  · exact .modify (k.still (still_dropNode w n))

theorem withSource (n : NodeId) {body : Run V Unit} (h : Act.Moves T body) :
    Act.Moves T (withSource n body) := by
  intro w
  refine .get_bind ?_
  split
  · exact h w
  · exact .stop

theorem disposeOwned (k : Carries env T) (o : Owning env T c) (m : Meets T c) (owned : Owned) :
    Act.Moves T (disposeOwned c env owned) := by
  cases owned with
  | effect e => exact o.disposeEffect e
  | scope f => exact o.disposeFrame f
  | subscription s => exact k.unsubscribe m s

theorem operate (k : Carries env T) (o : Owning env T c) (m : Meets T c) (op : Call V)
    (f : op.Closure → Prog V) : Act.Moves T (operate c env op f) := by
  cases op with
  | panic v => exact fun w => .raise (k.refl w) _
  | catchUnwind => exact fun w => (m.exec _ w).attempt
  | untrack => exact k.untrack (m.exec _)
  | get n => exact k.getNode m n
  | peek n => exact k.peekNode m n
  | set n v => exact k.setSignal n v
  | replace n v => exact k.updateSignal n fun _ => v
  | update n g => exact (k.updateSignal n g).bind k.trans fun _ => .pure k.refl ()
  | observe n => exact withSource n (k.observeLive n)
  | trigger n => exact withSource n fun w => .modify (k.still (still_trigger w n))
  | signal v same => exact k.create fun _ => still_create rfl rfl rfl rfl rfl
  | thunk => exact k.create fun _ => still_create rfl rfl rfl rfl rfl
  | memo equals => exact k.create fun _ => still_create rfl rfl rfl rfl rfl
  | source => exact k.create fun _ => still_create rfl rfl rfl rfl rfl
  | sourceWithHooks => exact k.create fun _ => still_create rfl rfl rfl rfl rfl
  | event => exact k.create fun _ => still_create rfl rfl rfl rfl rfl
  | effect => exact o.newEffect _ _
  | effectWith => exact o.newEffect _ _
  | disposeEffect e => exact o.disposeEffect e
  | drop n => exact k.dropNode n
  | scope => exact o.openScope _ _
  | scopeCatch => exact o.openScope _ _
  | disposeScope frame => exact o.disposeFrame frame
  | owner => exact k.owner
  | runIn frame => exact k.runIn m frame _
  | unowned => exact k.withOwner none (m.exec _)
  | onCleanup => exact k.onCleanup m _
  | emit n v => exact k.emit m n v
  | subscribe n => exact k.subscribe o n _
  | on n => exact k.on o n _
  | unsubscribe s => exact k.unsubscribe m s
  | schedule => exact fun w => .modify (k.still (still_schedule w _))
  | flushNow => exact k.flushJobs m
  | runMicrotask => exact k.runMicrotask m
  | externalFlush => exact k.externalFlush (m.exec _)
  | runReady e => exact k.runReady o m e
  | dropReady e => exact k.dropReady e

theorem noteImpure (k : Carries env T) (op : Call V) : Act.Moves T (noteImpure op) := by
  intro w
  refine .modify ?_
  split
  · split
    · exact k.refl w
    · exact k.still (.same rfl rfl rfl rfl rfl)
  · exact k.refl w

theorem exec (k : Carries env T) (o : Owning env T c) (m : Meets T c) (p : Prog V) :
    Act.Moves T (p.run (perform c env)) :=
  Program.moves_run k.refl k.trans (fun op f => (k.noteImpure op).bind k.trans fun _ =>
    k.operate o m op f) p

/-- By induction on the depth of the calls. Of the calls one level down, something more than
that they keep to the relation may be shown along the way. -/
theorem calls (k : Carries env T) {Q : Calls V → Prop} (base : Q (Adaptite.calls env 0))
    (step : ∀ depth, Meets T (Adaptite.calls env depth) → Q (Adaptite.calls env depth) →
      Owning env T (Adaptite.calls env depth) ∧ Q (Adaptite.calls env (depth + 1)))
    (depth : ℕ) : Meets T (Adaptite.calls env depth) ∧ Q (Adaptite.calls env depth) := by
  induction depth with
  | zero => exact ⟨⟨fun _ _ => .stop, fun _ _ => .stop, fun _ _ => .stop, fun _ => .stop⟩, base⟩
  | succ depth ih =>
    obtain ⟨m, q⟩ := ih
    obtain ⟨o, q'⟩ := step depth m q
    exact ⟨⟨k.exec o m, k.refresh m, k.disposeOwned o m, k.drain o m⟩, q'⟩

end Interface

end Carries

end Adaptite

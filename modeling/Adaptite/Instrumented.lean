import Adaptite.Base.Agreement
import Adaptite.Diagnostics

set_option autoImplicit false

/-!
# The library, called while it may be watched

The functions of the library once more, with what they do for diagnostics: where the
source asks whether a subscription is active, so does the function here. What touches
the world only is taken over with `lift`.
-/
namespace Adaptite

open Unwinding

variable {V α : Type}

abbrev Tracing (V α : Type) : Type := Act (Traced V) (Payload V) α

structure TracedCalls (V : Type) where
  exec : Prog V → Tracing V V
  refresh : NodeId → Tracing V Unit
  dispose : Owned → Tracing V Unit
  drain : Tracing V Unit

namespace Traced

def look : Tracing V (World V) := Act.gets Traced.world

def alter (f : World V → World V) : Tracing V Unit := Act.modify (onWorld f)

def isEnabled : Tracing V Bool := Act.gets Traced.enabled

def lift (x : Run V α) : Tracing V α := fun m =>
  match x m.world with
  | .ok a w => .ok a { m with world := w }
  | .panic e w => .panic e { m with world := w }
  | .stuck => .stuck

def untrack (body : Tracing V α) : Tracing V α :=
  alter (fun w => { w with untracked := w.untracked + 1 }) >>= fun _ =>
    body.guarded (alter fun w => { w with untracked := w.untracked - 1 })

def runInContext (env : Enumeration) (o : NodeId) (body : Tracing V α) : Tracing V α :=
  look >>= fun w =>
    if o ∈ w.graph.activeComputations then Act.raise (.reentered o)
    else
      Act.modify (fun m => m.enter env o) >>= fun _ =>
        (body >>= fun a => alter (fun w => w.push (.finished o)) >>= fun _ => pure a).guarded
          (alter fun u => u.leave w.untracked)

def observe (n : NodeId) : Tracing V Unit :=
  look >>= fun w =>
    match w.graph.tryObserve (0 < w.untracked) n with
    | .error path => Act.raise (.cycle path)
    | .ok r => Act.modify fun m => m.observed n r

def observeLive (n : NodeId) : Tracing V Unit :=
  look >>= fun w => if n ∈ w.graph.nodeMeta then observe n else Act.stop

def refreshNode (c : TracedCalls V) (n : NodeId) : Tracing V Unit :=
  lift (assertNoCycle n) >>= fun _ => look >>= fun w =>
    if n ∈ w.graph.observers then c.refresh n else pure ()

def anyChanged (c : TracedCalls V) : List (NodeId × ℕ) → Tracing V Bool
  | [] => pure false
  | (d, version) :: rest =>
    refreshNode c d >>= fun _ => look >>= fun w =>
      if w.graph.version d ≠ version then pure true else anyChanged c rest

def dependenciesChanged (c : TracedCalls V) (env : Enumeration) (o : NodeId) : Tracing V Bool :=
  look >>= fun w => anyChanged c (recorded env w o)

/-- `recompute_inner`, with whether the value counts as a change. -/
def recomputeInner (c : TracedCalls V) (env : Enumeration) (n : NodeId) (x : ComputedInner V) :
    Tracing V Bool :=
  alter (fun w => w.setState n .clean) >>= fun _ =>
    (runInContext env n (c.exec (x.compute x.value))).onUnwind
        (alter fun w => w.setState n .dirty) >>= fun next =>
      look >>= fun w => alter (fun w => w.store n next) >>= fun _ =>
        pure ((w.computed n).any fun x => x.changedBy next)

/-- The span of a recomputation is closed on both exits. -/
def recomputeInSpan (c : TracedCalls V) (env : Enumeration) (n : NodeId) (x : ComputedInner V) :
    Tracing V Unit :=
  look >>= fun w => Act.modify (fun m => m.openSpan n) >>= fun _ =>
    (recomputeInner c env n x).onUnwind
        (Act.modify fun m => m.abandonSpan w.flush.flushEpoch n) >>= fun changed =>
      Act.modify fun m => m.completeSpan w.flush.flushEpoch n changed

def recompute (c : TracedCalls V) (env : Enumeration) (n : NodeId) : Tracing V Unit :=
  look >>= fun w =>
    match w.computed n with
    | none => pure ()
    | some x =>
      isEnabled >>= fun enabled =>
        if enabled then recomputeInSpan c env n x
        else recomputeInner c env n x >>= fun _ => pure ()

def refresh (c : TracedCalls V) (env : Enumeration) (n : NodeId) : Tracing V Unit :=
  look >>= fun w =>
    match w.computed n with
    | none => pure ()
    | some x =>
      match x.state with
      | .clean => pure ()
      | .check =>
        dependenciesChanged c env n >>= fun changed =>
          Act.modify (fun m => m.reportVerification n changed) >>= fun _ =>
            if changed then recompute c env n else alter fun w => w.setState n .clean
      | .dirty => recompute c env n

def getNode (c : TracedCalls V) (n : NodeId) : Tracing V V :=
  look >>= fun w =>
    match w.signals n, w.computed n with
    | some _, _ => observeLive n >>= fun _ => lift (readCached n)
    | none, some _ =>
      lift (assertNoCycle n) >>= fun _ => c.refresh n >>= fun _ =>
        observeLive n >>= fun _ => lift (readCached n)
    | none, none => Act.stop

def peekNode (c : TracedCalls V) (n : NodeId) : Tracing V V :=
  look >>= fun w =>
    match w.signals n, w.computed n with
    | some _, _ => lift (peekCached n)
    | none, some _ =>
      lift (assertNoCycle n) >>= fun _ => c.refresh n >>= fun _ => lift (peekCached n)
    | none, none => Act.stop

def write (env : Enumeration) (m : Traced V) (n : NodeId) (v : V) : Traced V :=
  (m.onWorld fun w => w.setValue n v).trigger env n

def setSignal (env : Enumeration) (n : NodeId) (v : V) : Tracing V (Option V) :=
  look >>= fun w =>
    match w.signals n with
    | none => Act.stop
    | some s =>
      if s.same s.value v then
        Act.modify (fun m => m.reportSuppressed n) >>= fun _ => pure none
      else Act.modify (fun m => m.write env n v) >>= fun _ => pure (some s.value)

def updateSignal (env : Enumeration) (n : NodeId) (f : V → V) : Tracing V V :=
  look >>= fun w =>
    match w.signals n with
    | none => Act.stop
    | some s => Act.modify (fun m => m.write env n (f s.value)) >>= fun _ => pure s.value

def withOwner (entry : Option FrameId) (body : Tracing V α) : Tracing V α :=
  alter (fun w => { w with owners := entry :: w.owners }) >>= fun _ =>
    body.guarded (alter fun w => { w with owners := w.owners.tail })

def inTeardown (body : Tracing V α) : Tracing V α :=
  alter (fun w => { w with teardown := w.teardown + 1 }) >>= fun _ =>
    body.guarded (alter fun w => { w with teardown := w.teardown - 1 })

def adoptIntoCurrent (c : TracedCalls V) (child : Owned) : Tracing V Unit :=
  look >>= fun w =>
    match w.currentOwner with
    | none => pure ()
    | some f =>
      match w.frames f with
      | none => Act.stop
      | some frame =>
        if frame.disposed then c.dispose child else alter fun w => w.adopt f child

def captureAll {β : Type} (f : β → Tracing V Unit) : List β → Tracing V (Option (Payload V))
  | [] => pure none
  | b :: rest =>
    (f b).attempt >>= fun r => captureAll f rest >>= fun later =>
      match r with
      | .error p => pure (some p)
      | .ok _ => pure later

def tearDown (c : TracedCalls V) (frame : OwnerFrame V) : Tracing V (Option (Payload V)) :=
  untrack (withOwner none (inTeardown
    (captureAll (fun p => c.exec p >>= fun _ => pure ()) frame.cleanups.reverse >>= fun first =>
      captureAll c.dispose frame.children.reverse >>= fun later => pure (first <|> later))))

def resetFrame (c : TracedCalls V) (f : FrameId) : Tracing V Unit :=
  look >>= fun w =>
    match w.frames f with
    | none => Act.stop
    | some frame =>
      alter (fun w => w.modifyFrame f fun frame =>
        { frame with cleanups := [], children := [], sweptAt := 0 }) >>= fun _ =>
      tearDown c frame >>= fun first =>
        match first with
        | none => pure ()
        | some p => look >>= fun w => if w.panicking then pure () else Act.raise p

def disposeFrame (c : TracedCalls V) (f : FrameId) : Tracing V Unit :=
  look >>= fun w =>
    match w.frames f with
    | none => Act.stop
    | some frame =>
      if frame.disposed then pure ()
      else
        alter (fun w => w.modifyFrame f fun frame => { frame with disposed := true }) >>=
          fun _ => resetFrame c f

def onCleanup (c : TracedCalls V) (cleanup : Prog V) : Tracing V Unit :=
  look >>= fun w =>
    match w.currentOwner with
    | none => if 0 < w.teardown then Act.raise .cleanupInTeardown else Act.raise .cleanupOutsideOwner
    | some f =>
      match w.frames f with
      | none => Act.stop
      | some frame =>
        if frame.disposed then c.exec cleanup >>= fun _ => pure ()
        else alter fun w => w.modifyFrame f fun frame =>
          { frame with cleanups := frame.cleanups ++ [cleanup] }

def dropFrame (c : TracedCalls V) (f : FrameId) : Tracing V Unit :=
  look >>= fun w =>
    match w.frames f with
    | none => Act.stop
    | some frame =>
      if frame.handled then pure ()
      else
        alter (fun w => w.modifyFrame f fun frame => { frame with dropped := true }) >>= fun _ =>
        alter (fun w => { w with panicking := true }) >>= fun _ =>
          (disposeFrame c f).guarded (alter fun u => { u with panicking := w.panicking })

def openScope (c : TracedCalls V) (handler : Option (Payload V → Prog V)) (body : Prog V) :
    Tracing V (FrameId × V) :=
  look >>= fun w =>
    alter (fun w => w.newFrame handler) >>= fun _ =>
      (withOwner (some w.nextFrame) (c.exec body)).onUnwind (dropFrame c w.nextFrame) >>=
        fun v => adoptIntoCurrent c (.scope w.nextFrame) >>= fun _ => pure (w.nextFrame, v)

def runIn (c : TracedCalls V) (f : FrameId) (body : Prog V) : Tracing V V :=
  look >>= fun w =>
    match w.frames f with
    | none => Act.stop
    | some _ => withOwner (some f) (c.exec body)

def newEffect (c : TracedCalls V) (body : Body V) (external : Bool) : Tracing V NodeId :=
  look >>= fun w =>
    Act.modify (created fun w => w.newEffect body external) >>= fun _ =>
    adoptIntoCurrent c (.effect w.graph.nextNode) >>= fun _ =>
    Act.modify (fun m => m.scheduleEffect w.graph.nextNode) >>= fun _ => pure w.graph.nextNode

def disposeEffect (c : TracedCalls V) (env : Enumeration) (e : NodeId) : Tracing V Unit :=
  look >>= fun w =>
    match w.effects e with
    | none => Act.stop
    | some x =>
      if x.disposed then pure ()
      else
        Act.modify (fun m => m.closing e) >>= fun _ =>
          (disposeFrame c x.owner).guarded (Act.modify fun m => m.unhook env e)

def observeEvent (n : NodeId) : Tracing V Unit :=
  look >>= fun w => if (w.events n).isSome then observeLive n else Act.stop

def runBody (c : TracedCalls V) : Body V → Tracing V Unit
  | .user body => c.exec body >>= fun _ => pure ()
  | .drainQueue event queue handler =>
    observeEvent event >>= fun _ => look >>= fun w =>
      alter (fun w => w.takeQueue queue) >>= fun _ =>
        untrack (Act.sequence (w.queues queue) fun v =>
          alter (fun w => w.push (.delivered queue v)) >>= fun _ =>
            c.exec (handler v) >>= fun _ => pure ())

/-- `RecoverOnUnwind`. -/
def recover (e : NodeId) : Tracing V Unit :=
  look >>= fun w =>
    match w.effects e with
    | none => Act.stop
    | some x =>
      if x.disposed then pure ()
      else Act.modify fun m =>
        (m.onWorld fun w => w.modifyEffect e fun x => { x with state := .dirty }).scheduleEffect e

def shouldRun (c : TracedCalls V) (env : Enumeration) (e : NodeId) : State → Tracing V Bool
  | .dirty => pure true
  | .check => (dependenciesChanged c env e).onUnwind (recover e)
  | .clean => pure false

def settleRerun (e : NodeId) : Tracing V Unit :=
  look >>= fun w =>
    match w.effects e with
    | none => Act.stop
    | some x =>
      alter (fun w => w.modifyEffect e fun x => { x with rerunAfterCurrent := false }) >>=
        fun _ =>
          if x.rerunAfterCurrent && !x.disposed then Act.modify fun m => m.scheduleEffect e
          else pure ()

def runWindow (c : TracedCalls V) (env : Enumeration) (e : NodeId) (x : EffectInner V) :
    Tracing V Unit :=
  alter (fun w => w.modifyEffect e fun x => { x with running := true }) >>= fun _ =>
    ((resetFrame c x.owner >>= fun _ => look >>= fun w =>
      if ((w.effects e).map fun x => x.disposed).getD true then pure ()
      else
        withOwner (some x.owner) (runInContext env e (runBody c x.body)) >>= fun _ =>
          settleRerun e).onUnwind (alter fun w => w.push (.broke e))).guarded
      (alter fun w => w.modifyEffect e fun x => { x with running := false })

/-- From `EffectRunStarted` to `EffectRunFinished`, which is only reported by a guard
that was made while a subscription was active. -/
def reportedRun (c : TracedCalls V) (env : Enumeration) (e : NodeId) (x : EffectInner V) :
    Tracing V Unit :=
  look >>= fun w => isEnabled >>= fun reported =>
    Act.modify (fun m => m.startRun e) >>= fun _ =>
      (runWindow c env e x).guarded
        (Act.modify fun m => m.endRun reported w.flush.flushEpoch e)

def runScheduledInner (c : TracedCalls V) (env : Enumeration) (e : NodeId) : Tracing V Unit :=
  look >>= fun w =>
    match w.effects e with
    | none => Act.stop
    | some x =>
      alter (fun w => w.unlatch e) >>= fun _ =>
      if x.disposed then pure ()
      else if x.running || decide (e ∈ w.graph.activeComputations) then
        alter fun w => w.modifyEffect e fun x => { x with rerunAfterCurrent := true }
      else
        alter (fun w => w.modifyEffect e fun x => { x with state := .clean }) >>= fun _ =>
        shouldRun c env e x.state >>= fun run => look >>= fun w =>
          if ((w.effects e).map fun x => x.disposed).getD true then pure ()
          else if run then lift (checkDivergence e) >>= fun _ => reportedRun c env e x
          else Act.modify fun m => m.skipRun e

def runScheduled (c : TracedCalls V) (env : Enumeration) (e : NodeId) : Tracing V Unit :=
  look >>= fun w =>
    match w.effects e with
    | none => Act.stop
    | some x =>
      alter (fun w => { w with runs := w.runs + 1 }) >>= fun _ =>
      match errorHandlerFor w w.nextFrame x.owner with
      | none => runScheduledInner c env e
      | some handler =>
        (runScheduledInner c env e).attempt >>= fun r =>
          match r with
          | .ok _ => pure ()
          | .error p =>
            disposeEffect c env e >>= fun _ =>
            alter (fun u => u.push (.caught w.runs e p)) >>= fun _ =>
            c.exec (handler p) >>= fun _ => pure ()

def externalFlush (body : Tracing V α) : Tracing V α :=
  Act.modify beginFlush >>= fun _ => body.guarded (Act.modify endFlush)

def runReady (c : TracedCalls V) (env : Enumeration) (e : NodeId) : Tracing V Unit :=
  look >>= fun w =>
    if e ∈ w.lane then
      alter (fun w => { w with lane := w.lane.erase e }) >>= fun _ =>
        if 0 < w.flush.flushDepth then runScheduled c env e
        else externalFlush (runScheduled c env e)
    else Act.stop

def newSubscription (c : TracedCalls V) (cancel : Cancel) : Tracing V SubscriptionId :=
  look >>= fun w =>
    alter (fun w => w.newSubscription cancel) >>= fun _ =>
      adoptIntoCurrent c (.subscription w.nextSubscription) >>= fun _ => pure w.nextSubscription

def subscribe (c : TracedCalls V) (n : NodeId) (s : Subscriber V) : Tracing V SubscriptionId :=
  look >>= fun w =>
    match w.events n with
    | none => Act.stop
    | some event =>
      alter (fun w => w.modifyEvent n fun event =>
        { nextSubscriber := event.nextSubscriber + 1
          subscribers := event.subscribers ++ [(event.nextSubscriber, s)] }) >>= fun _ =>
        newSubscription c (.subscriber n event.nextSubscriber)

def on (c : TracedCalls V) (n : NodeId) (handler : V → Prog V) : Tracing V SubscriptionId :=
  look >>= fun w =>
    alter (fun w => { w with nextQueue := w.nextQueue + 1 }) >>= fun _ =>
    subscribe c n (.feeder w.nextQueue) >>= fun direct =>
    newEffect c (.drainQueue n w.nextQueue handler) false >>= fun effect =>
      newSubscription c (.drain direct effect)

def runCancel (c : TracedCalls V) : Cancel → Tracing V Unit
  | .subscriber n id => alter fun w => w.modifyEvent n fun event =>
      { event with subscribers := event.subscribers.filter fun s => s.1 ≠ id }
  | .drain direct effect => c.dispose (.subscription direct) >>= fun _ => c.dispose (.effect effect)

def unsubscribe (c : TracedCalls V) (s : SubscriptionId) : Tracing V Unit :=
  look >>= fun w =>
    match w.subscriptions s with
    | none => Act.stop
    | some sub =>
      if sub.active then
        alter (fun w => w.endSubscription s) >>= fun _ =>
          match sub.cancel with
          | none => pure ()
          | some cancel => runCancel c cancel
      else pure ()

def callSubscriber (c : TracedCalls V) (v : V) (s : Subscriber V) : Tracing V Unit :=
  alter World.nextDelivery >>= fun _ =>
    match s with
    | .immediate handler => c.exec (handler v) >>= fun _ => pure ()
    | .feeder q => alter fun w => w.feed q v

def emitEvent (c : TracedCalls V) (env : Enumeration) (n : NodeId) (v : V) : Tracing V Unit :=
  look >>= fun w =>
    match w.events n with
    | none => Act.stop
    | some event =>
      let subscribers := event.subscribers.map Prod.snd
      alter (fun w => w.beginDelivery n v subscribers) >>= fun _ =>
        (untrack (Act.sequence subscribers (callSubscriber c v))).guarded
          (alter World.endDelivery) >>= fun _ =>
        Act.modify fun m => m.trigger env n

def runHooks (c : TracedCalls V) (n : NodeId) : Tracing V Unit :=
  look >>= fun w =>
    match w.hooks n with
    | none => Act.stop
    | some h =>
      alter (fun w => w.modifyHooks n fun h => { h with queued := false }) >>= fun _ =>
        if h.cancelled || h.delivered = h.observed then pure ()
        else
          alter (fun w => (w.modifyHooks n fun h => { h with delivered := h.observed }).push
              (.hooked n h.observed)) >>= fun _ =>
              c.exec (if h.observed then h.onWatch else h.onUnwatch) >>= fun _ => pure ()

def runJob (c : TracedCalls V) (env : Enumeration) : Job V → Tracing V Unit
  | .effect e => runScheduled c env e
  | .hooks n => runHooks c n
  | .user job => c.exec job >>= fun _ => pure ()

def drain (c : TracedCalls V) (env : Enumeration) : Tracing V Unit :=
  look >>= fun w =>
    match w.flush.popJob with
    | none => pure ()
    | some (job, flush) =>
      alter (fun w => { w with flush := flush }) >>= fun _ =>
        runJob c env job >>= fun _ => c.drain

def flushJobs (c : TracedCalls V) : Tracing V Unit :=
  look >>= fun w =>
    if w.flush.pendingJobs.isEmpty then
      alter fun w => { w with flush := w.flush.skipDrain }
    else
      Act.modify enterDrain >>= fun _ =>
        c.drain.guarded (Act.modify (leaveDrain w.flush.openDrain.flushEpoch))

def runMicrotask (c : TracedCalls V) : Tracing V Unit :=
  look >>= fun w =>
    if w.flush.microtasks = 0 then Act.stop
    else alter (fun w => { w with flush := w.flush.takeMicrotask }) >>= fun _ => flushJobs c

def disposeOwned (c : TracedCalls V) (env : Enumeration) : Owned → Tracing V Unit
  | .effect e => disposeEffect c env e
  | .scope f => disposeFrame c f
  | .subscription s => unsubscribe c s

def create (f : World V → World V) : Tracing V NodeId :=
  look >>= fun w => Act.modify (created f) >>= fun _ => pure w.graph.nextNode

def dropLast (env : Enumeration) (m : Traced V) (n : NodeId) : Traced V :=
  (m.onWorld fun w =>
    { w with
      graph := w.graph.unregisterObserver n
      signals := Function.update w.signals n none
      computed := Function.update w.computed n none
      events := Function.update w.events n none }).disposeNode env n

def dropNode (env : Enumeration) (n : NodeId) : Tracing V Unit :=
  look >>= fun w =>
    if n ∈ w.graph.activeComputations ∨ (w.effects n).isSome ∨ n ∉ w.graph.nodeMeta then Act.stop
    else Act.modify fun m => m.dropLast env n

def withSource (n : NodeId) (body : Tracing V Unit) : Tracing V Unit :=
  look >>= fun w => if w.graph.nodeKind n = some .source then body else Act.stop

def operate (c : TracedCalls V) (env : Enumeration) :
    (op : Call V) → (op.Closure → Prog V) → Tracing V op.Answer
  | .panic v, _ => Act.raise (.user v)
  | .catchUnwind, f => (c.exec (f ())).attempt
  | .untrack, f => untrack (c.exec (f ()))
  | .get n, _ => getNode c n
  | .peek n, _ => peekNode c n
  | .set n v, _ => setSignal env n v
  | .replace n v, _ => updateSignal env n fun _ => v
  | .update n f, _ => updateSignal env n f >>= fun _ => pure ()
  | .observe n, _ => withSource n (observeLive n)
  | .trigger n, _ => withSource n (Act.modify fun m => m.trigger env n)
  | .signal v same, _ => create fun w => w.newSignal v same
  | .thunk, f => create fun w => w.newComputed (fun _ => f ()) none
  | .memo equals, f => create fun w => w.newComputed f (some equals)
  | .source, _ => create fun w => w.newSource none
  | .sourceWithHooks, f => create fun w =>
      w.newSource (some { onWatch := f true, onUnwatch := f false })
  | .event, _ => create World.newEvent
  | .effect, f => newEffect c (.user (f ())) false
  | .effectWith, f => newEffect c (.user (f ())) true
  | .disposeEffect e, _ => disposeEffect c env e
  | .drop n, _ => dropNode env n
  | .scope, f => openScope c none (f ())
  | .scopeCatch, f => openScope c (some fun p => f (some p)) (f none)
  | .disposeScope frame, _ => disposeFrame c frame
  | .owner, _ => lift owner
  | .runIn frame, f => runIn c frame (f ())
  | .unowned, f => withOwner none (c.exec (f ()))
  | .onCleanup, f => onCleanup c (f ())
  | .emit n v, _ => emitEvent c env n v
  | .subscribe n, f => subscribe c n (.immediate f)
  | .on n, f => on c n f
  | .unsubscribe s, _ => unsubscribe c s
  | .schedule, f => alter fun w => w.schedule (.user (f ()))
  | .flushNow, _ => flushJobs c
  | .runMicrotask, _ => runMicrotask c
  | .externalFlush, f => externalFlush (c.exec (f ()))
  | .runReady e, _ => runReady c env e
  | .dropReady e, _ => lift (dropReady e)

/-- Before and after an operation, a subscription can be installed or dropped. -/
def perform (c : TracedCalls V) (env : Enumeration) (op : Call V) (f : op.Closure → Prog V) :
    Tracing V op.Answer :=
  Act.modify pass >>= fun _ => lift (noteImpure op) >>= fun _ =>
    (operate c env op f).guarded (Act.modify pass)

def calls (env : Enumeration) : ℕ → TracedCalls V
  | 0 => ⟨fun _ => Act.stop, fun _ => Act.stop, fun _ => Act.stop, Act.stop⟩
  | depth + 1 =>
    let c := calls env depth
    ⟨fun p => p.run (perform c env), refresh c env, disposeOwned c env, drain c env⟩

def exec (env : Enumeration) (depth : ℕ) (p : Prog V) : Tracing V V := (calls env depth).exec p

end Traced

end Adaptite

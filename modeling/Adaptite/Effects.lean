import Adaptite.Owners

set_option autoImplicit false

namespace Adaptite

open Unwinding

variable {V : Type}

def maxRunsPerFlush : ℕ := 100

def World.newEffect (w : World V) (body : Body V) (external : Bool) : World V :=
  let id := w.graph.nextNode
  let w' := w.newFrame none
  { w' with
    graph := (w.graph.allocateNode .effect).registerObserver id
    effects := Function.update w.effects id (some { body, external, owner := w.nextFrame }) }

def newEffect (c : Calls V) (body : Body V) (external : Bool) : Run V NodeId :=
  Act.get >>= fun w =>
    Act.modify (fun w => w.newEffect body external) >>= fun _ =>
    adoptIntoCurrent c (.effect w.graph.nextNode) >>= fun _ =>
    Act.modify (fun u => u.scheduleEffect w.graph.nextNode) >>= fun _ => pure w.graph.nextNode

def World.closing (w : World V) (e : NodeId) : World V :=
  (w.modifyEffect e fun x => { x with disposed := true }).unlatch e

/-- The guard of `EffectInner::dispose`. -/
def World.unhook (env : Enumeration) (w : World V) (e : NodeId) : World V :=
  ({ w with graph := w.graph.unregisterObserver e } : World V).disposeNode env e

def disposeEffect (c : Calls V) (env : Enumeration) (e : NodeId) : Run V Unit :=
  Act.get >>= fun w =>
    match w.effects e with
    | none => Act.stop
    | some x =>
      if x.disposed then pure ()
      else
        Act.modify (fun w => w.closing e) >>= fun _ =>
          (disposeFrame c x.owner).guarded (Act.modify fun w => w.unhook env e)

/-- The count of `check_divergence`, and whether it is over the limit. -/
def EffectInner.countRun (x : EffectInner V) (drainEpoch : ℕ) : EffectInner V × Bool :=
  if x.lastDrainEpoch = some drainEpoch then
    let exceeded := decide (maxRunsPerFlush < x.runsThisDrain + 1)
    ({ x with runsThisDrain := x.runsThisDrain + 1, cutOff := exceeded }, exceeded)
  else ({ x with lastDrainEpoch := some drainEpoch, runsThisDrain := 1, cutOff := false }, false)

def checkDivergence (e : NodeId) : Run V Unit :=
  Act.get >>= fun w =>
    match w.effects e with
    | none => Act.stop
    | some x =>
      let r := x.countRun w.flush.drainEpoch
      Act.modify (fun w => w.modifyEffect e fun _ => r.1) >>= fun _ =>
        if r.2 then Act.raise (.diverged e) else pure ()

def World.takeQueue (w : World V) (q : ℕ) : World V :=
  { w with queues := Function.update w.queues q [] }

def World.feed (w : World V) (q : ℕ) (v : V) : World V :=
  { w with queues := Function.update w.queues q (w.queues q ++ [v]) }

/-- `Event::observe`, through a handle. -/
def observeEvent (n : NodeId) : Run V Unit :=
  Act.get >>= fun w => if (w.events n).isSome then observeLive n else Act.stop

def runBody (c : Calls V) : Body V → Run V Unit
  | .user body => c.exec body >>= fun _ => pure ()
  | .drainQueue event queue handler =>
    observeEvent event >>= fun _ => Act.get >>= fun w =>
      Act.modify (fun w => w.takeQueue queue) >>= fun _ =>
        untrack (Act.sequence (w.queues queue) fun v =>
          Act.modify (fun w => w.push (.delivered queue v)) >>= fun _ =>
            c.exec (handler v) >>= fun _ => pure ())

/-- Whether a queued run has anything to do. A verification that unwinds marks
the effect again and queues it again (`RecoverOnUnwind`). -/
def shouldRun (c : Calls V) (env : Enumeration) (e : NodeId) : State → Run V Bool
  | .dirty => pure true
  | .check =>
    (dependenciesChanged c env e).onUnwind (Act.get >>= fun w =>
      match w.effects e with
      | none => Act.stop
      | some x =>
        if x.disposed then pure ()
        else Act.modify fun w =>
          (w.modifyEffect e fun x => { x with state := .dirty }).scheduleEffect e)
  | .clean => pure false

/-- A run requested while this one was in progress is queued now. -/
def settleRerun (e : NodeId) : Run V Unit :=
  Act.get >>= fun w =>
    match w.effects e with
    | none => Act.stop
    | some x =>
      Act.modify (fun w => w.modifyEffect e fun x => { x with rerunAfterCurrent := false }) >>=
        fun _ =>
          if x.rerunAfterCurrent && !x.disposed then Act.modify fun w => w.scheduleEffect e
          else pure ()

/-- The run window: teardown of the previous run, then the body. That one of them
unwound is remembered. -/
def runWindow (c : Calls V) (env : Enumeration) (e : NodeId) (x : EffectInner V) : Run V Unit :=
  Act.modify (fun w => w.modifyEffect e fun x => { x with running := true }) >>= fun _ =>
    ((resetFrame c x.owner >>= fun _ => Act.get >>= fun w =>
      if ((w.effects e).map fun x => x.disposed).getD true then pure ()
      else
        withOwner (some x.owner) (runInContext env e (runBody c x.body)) >>= fun _ =>
          settleRerun e).onUnwind (Act.modify fun w => w.push (.broke e))).guarded
      (Act.modify fun w => w.modifyEffect e fun x => { x with running := false })

def runScheduledInner (c : Calls V) (env : Enumeration) (e : NodeId) : Run V Unit :=
  Act.get >>= fun w =>
    match w.effects e with
    | none => Act.stop
    | some x =>
      Act.modify (fun w => w.unlatch e) >>= fun _ =>
      if x.disposed then pure ()
      else if x.running || decide (e ∈ w.graph.activeComputations) then
        Act.modify fun w => w.modifyEffect e fun x => { x with rerunAfterCurrent := true }
      else
        Act.modify (fun w => w.modifyEffect e fun x => { x with state := .clean }) >>= fun _ =>
        shouldRun c env e x.state >>= fun run => Act.get >>= fun w =>
          if ((w.effects e).map fun x => x.disposed).getD true then pure ()
          else if run then checkDivergence e >>= fun _ => runWindow c env e x
          else pure ()

/-- Under an error boundary a panic disposes the effect and goes to the handler;
without one it leaves the flush. -/
def runScheduled (c : Calls V) (env : Enumeration) (e : NodeId) : Run V Unit :=
  Act.get >>= fun w =>
    match w.effects e with
    | none => Act.stop
    | some x =>
      Act.modify (fun w => { w with runs := w.runs + 1 }) >>= fun _ =>
      match errorHandlerFor w w.nextFrame x.owner with
      | none => runScheduledInner c env e
      | some handler =>
        (runScheduledInner c env e).attempt >>= fun r =>
          match r with
          | .ok _ => pure ()
          | .error p =>
            disposeEffect c env e >>= fun _ =>
            Act.modify (fun u => u.push (.caught w.runs e p)) >>= fun _ =>
            c.exec (handler p) >>= fun _ => pure ()

def beginFlush : Run V Unit := Act.modify fun w => { w with flush := w.flush.beginFlush.1 }

def endFlush : Run V Unit := Act.modify fun w => { w with flush := w.flush.leaveDrain }

def externalFlush {α : Type} (body : Run V α) : Run V α :=
  (beginFlush >>= fun _ => body).guarded endFlush

/-- `EffectRun::run`: outside any flush, this run is a flush of its own. -/
def runReady (c : Calls V) (env : Enumeration) (e : NodeId) : Run V Unit :=
  Act.get >>= fun w =>
    if e ∈ w.lane then
      Act.modify (fun w => { w with lane := w.lane.erase e }) >>= fun _ =>
        if 0 < w.flush.flushDepth then runScheduled c env e
        else externalFlush (runScheduled c env e)
    else Act.stop

/-- The drop of an `EffectRun` that was not run. -/
def dropReady (e : NodeId) : Run V Unit :=
  Act.get >>= fun w =>
    if e ∈ w.lane then
      Act.modify fun w => ({ w with lane := w.lane.erase e } : World V).unlatch e
    else Act.stop

end Adaptite

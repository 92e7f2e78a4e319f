import Adaptite.Effects

set_option autoImplicit false

/-!
# The library, called

Events, observation hooks and the drain loop, and then `perform`, which says
what each operation of the interface does. The recursion of the library through
consumer code is bounded by a number of nested calls.
-/
namespace Adaptite

open Unwinding

variable {V : Type}

def World.modifyEvent (w : World V) (n : NodeId) (f : EventInner V → EventInner V) : World V :=
  { w with events := Function.update w.events n ((w.events n).map f) }

def World.newSubscription (w : World V) (cancel : Cancel) : World V :=
  { w with
    subscriptions := Function.update w.subscriptions w.nextSubscription
      (some { cancel := some cancel })
    nextSubscription := w.nextSubscription + 1 }

def World.endSubscription (w : World V) (s : SubscriptionId) : World V :=
  { w with
    subscriptions := Function.update w.subscriptions s (some { active := false, cancel := none }) }

/-- `Subscription::new`. -/
def newSubscription (c : Calls V) (cancel : Cancel) : Run V SubscriptionId :=
  Act.get >>= fun w =>
    Act.modify (fun w => w.newSubscription cancel) >>= fun _ =>
      adoptIntoCurrent c (.subscription w.nextSubscription) >>= fun _ => pure w.nextSubscription

def subscribe (c : Calls V) (n : NodeId) (s : Subscriber V) : Run V SubscriptionId :=
  Act.get >>= fun w =>
    match w.events n with
    | none => Act.stop
    | some event =>
      Act.modify (fun w => w.modifyEvent n fun event =>
        { nextSubscriber := event.nextSubscriber + 1
          subscribers := event.subscribers ++ [(event.nextSubscriber, s)] }) >>= fun _ =>
        newSubscription c (.subscriber n event.nextSubscriber)

/-- `Reactor::on`. -/
def on (c : Calls V) (n : NodeId) (handler : V → Prog V) : Run V SubscriptionId :=
  Act.get >>= fun w =>
    Act.modify (fun w => { w with nextQueue := w.nextQueue + 1 }) >>= fun _ =>
    subscribe c n (.feeder w.nextQueue) >>= fun direct =>
    newEffect c (.drainQueue n w.nextQueue handler) false >>= fun effect =>
      newSubscription c (.drain direct effect)

def runCancel (c : Calls V) : Cancel → Run V Unit
  | .subscriber n id => Act.modify fun w => w.modifyEvent n fun event =>
      { event with subscribers := event.subscribers.filter fun s => s.1 ≠ id }
  | .drain direct effect => c.dispose (.subscription direct) >>= fun _ => c.dispose (.effect effect)

def unsubscribe (c : Calls V) (s : SubscriptionId) : Run V Unit :=
  Act.get >>= fun w =>
    match w.subscriptions s with
    | none => Act.stop
    | some sub =>
      if sub.active then
        Act.modify (fun w => w.endSubscription s) >>= fun _ =>
          match sub.cancel with
          | none => pure ()
          | some cancel => runCancel c cancel
      else pure ()

def feeders (l : List (Subscriber V)) : List ℕ :=
  l.filterMap fun
    | .feeder q => some q
    | .immediate _ => none

/-- An emission begins; it overtakes an enclosing one of the same event whose
value has not reached the queue yet. -/
def World.beginDelivery (w : World V) (n : NodeId) (v : V) (l : List (Subscriber V)) : World V :=
  let waiting := w.deliveries.flatMap fun d => if d.event = n then feeders d.remaining else []
  let began := (feeders l).map fun q => Event.emitBegan q v
  let overtaken := (feeders l).filter (fun q => decide (q ∈ waiting)) |>.map Event.overtaken
  { w with
    deliveries := { event := n, value := v, remaining := l } :: w.deliveries
    log := overtaken ++ began.reverse ++ w.log }

def World.nextDelivery (w : World V) : World V :=
  { w with deliveries := match w.deliveries with
      | [] => []
      | d :: rest => { d with remaining := d.remaining.tail } :: rest }

def World.endDelivery (w : World V) : World V := { w with deliveries := w.deliveries.tail }

def callSubscriber (c : Calls V) (v : V) (s : Subscriber V) : Run V Unit :=
  Act.modify World.nextDelivery >>= fun _ =>
    match s with
    | .immediate handler => c.exec (handler v) >>= fun _ => pure ()
    | .feeder q => Act.modify fun w => w.feed q v

/-- `Event::emit`. -/
def emit (c : Calls V) (env : Enumeration) (n : NodeId) (v : V) : Run V Unit :=
  Act.get >>= fun w =>
    match w.events n with
    | none => Act.stop
    | some event =>
      let subscribers := event.subscribers.map Prod.snd
      Act.modify (fun w => w.beginDelivery n v subscribers) >>= fun _ =>
        (untrack (Act.sequence subscribers (callSubscriber c v))).guarded
          (Act.modify World.endDelivery) >>= fun _ =>
        Act.modify fun w => w.trigger env n

/-- A queued delivery of `note_observation_change`. -/
def runHooks (c : Calls V) (n : NodeId) : Run V Unit :=
  Act.get >>= fun w =>
    match w.hooks n with
    | none => Act.stop
    | some h =>
      Act.modify (fun w => w.modifyHooks n fun h => { h with queued := false }) >>= fun _ =>
        if h.cancelled || h.delivered = h.observed then pure ()
        else
          Act.modify (fun w => (w.modifyHooks n fun h => { h with delivered := h.observed }).push
              (.hooked n h.observed)) >>= fun _ =>
              c.exec (if h.observed then h.onWatch else h.onUnwatch) >>= fun _ => pure ()

def runJob (c : Calls V) (env : Enumeration) : Job V → Run V Unit
  | .effect e => runScheduled c env e
  | .hooks n => runHooks c n
  | .user job => c.exec job >>= fun _ => pure ()

/-- The loop of `flush_jobs`. -/
def drain (c : Calls V) (env : Enumeration) : Run V Unit :=
  Act.get >>= fun w =>
    match w.flush.popJob with
    | none => pure ()
    | some (job, flush) =>
      Act.modify (fun w => { w with flush := flush }) >>= fun _ =>
        runJob c env job >>= fun _ => c.drain

def flushJobs (c : Calls V) : Run V Unit :=
  Act.get >>= fun w =>
    if w.flush.pendingJobs.isEmpty then
      Act.modify fun w => { w with flush := w.flush.skipDrain }
    else
      Act.modify (fun w => { w with flush := w.flush.openDrain.enterDrain }) >>= fun _ =>
        c.drain.guarded (Act.modify fun w => { w with flush := w.flush.leaveDrain.rearm })

def runMicrotask (c : Calls V) : Run V Unit :=
  Act.get >>= fun w =>
    if w.flush.microtasks = 0 then Act.stop
    else Act.modify (fun w => { w with flush := w.flush.takeMicrotask }) >>= fun _ => flushJobs c

def disposeOwned (c : Calls V) (env : Enumeration) : Owned → Run V Unit
  | .effect e => disposeEffect c env e
  | .scope f => disposeFrame c f
  | .subscription s => unsubscribe c s

def World.newSignal (w : World V) (v : V) (same : V → V → Bool) : World V :=
  { w with
    graph := w.graph.allocateNode .signal
    signals := Function.update w.signals w.graph.nextNode (some { value := v, same }) }

def World.newComputed (w : World V) (compute : Option V → Prog V) (equals : Option (V → V → Bool)) :
    World V :=
  let kind := if equals.isSome then NodeKind.memo else NodeKind.thunk
  { w with
    graph := (w.graph.allocateNode kind).registerObserver w.graph.nextNode
    computed := Function.update w.computed w.graph.nextNode (some { compute, equals }) }

def World.newSource (w : World V) (hooks : Option (ObservationHooks V)) : World V :=
  { w with
    graph := w.graph.allocateNode .source
    hooks := Function.update w.hooks w.graph.nextNode hooks }

def World.newEvent (w : World V) : World V :=
  { w with
    graph := w.graph.allocateNode .event
    events := Function.update w.events w.graph.nextNode (some {}) }

/-- A creation that is one step, with the id of the new node. -/
def create (f : World V → World V) : Run V NodeId :=
  Act.get >>= fun w => Act.modify f >>= fun _ => pure w.graph.nextNode

def World.dropNode (env : Enumeration) (w : World V) (n : NodeId) : World V :=
  ({ w with
      graph := w.graph.unregisterObserver n
      signals := Function.update w.signals n none
      computed := Function.update w.computed n none
      events := Function.update w.events n none } : World V).disposeNode env n

/-- A running node is kept alive by its run, and an effect has handles of its own kind. -/
def dropNode (env : Enumeration) (n : NodeId) : Run V Unit :=
  Act.get >>= fun w =>
    if n ∈ w.graph.activeComputations ∨ (w.effects n).isSome ∨ n ∉ w.graph.nodeMeta then Act.stop
    else Act.modify fun w => w.dropNode env n

/-- Only the id of a live source can be had from a handle. -/
def withSource (n : NodeId) (body : Run V Unit) : Run V Unit :=
  Act.get >>= fun w => if w.graph.nodeKind n = some .source then body else Act.stop

def Call.isRead : Call V → Bool
  | .get _ | .peek _ | .untrack | .panic _ => true
  | _ => false

/-- Whether the innermost computation is a thunk or a memo. -/
def World.computing (w : World V) : Option NodeId :=
  w.graph.stack.head?.filter fun o => (w.computed o).isSome

/-- A compute should only read: anything else it does is remembered. -/
def noteImpure (op : Call V) : Run V Unit :=
  Act.modify fun w =>
    match w.computing with
    | some o => if op.isRead then w else w.push (.impure o)
    | none => w

/-- What an operation does; `perform` adds the remark on impure computes. -/
def operate (c : Calls V) (env : Enumeration) :
    (op : Call V) → (op.Closure → Prog V) → Run V op.Answer
  | .panic v, _ => Act.raise (.user v)
  | .catchUnwind, f => (c.exec (f ())).attempt
  | .untrack, f => untrack (c.exec (f ()))
  | .get n, _ => getNode c n
  | .peek n, _ => peekNode c n
  | .set n v, _ => setSignal env n v
  | .replace n v, _ => updateSignal env n fun _ => v
  | .update n f, _ => updateSignal env n f >>= fun _ => pure ()
  | .observe n, _ => withSource n (observeLive n)
  | .trigger n, _ => withSource n (Act.modify fun w => w.trigger env n)
  | .signal v same, _ => create fun w => w.newSignal v same
  | .thunk, f => create fun w => w.newComputed (fun _ => f ()) none
  | .memo equals, f => create fun w => w.newComputed f (some equals)
  | .source, _ => create fun w => w.newSource none
  | .sourceWithHooks, f => create fun w =>
      w.newSource (some { onWatch := f true, onUnwatch := f false })
  | .event, _ => create World.newEvent
  | .effect, f => newEffect c (.user (f ())) false
  | .effectWith, f => newEffect c (.user (f ())) true
  | .disposeEffect e, _ => disposeEffect c env e
  | .drop n, _ => dropNode env n
  | .scope, f => openScope c none (f ())
  | .scopeCatch, f => openScope c (some fun p => f (some p)) (f none)
  | .disposeScope frame, _ => disposeFrame c frame
  | .owner, _ => owner
  | .runIn frame, f => runIn c frame (f ())
  | .unowned, f => withOwner none (c.exec (f ()))
  | .onCleanup, f => onCleanup c (f ())
  | .emit n v, _ => emit c env n v
  | .subscribe n, f => subscribe c n (.immediate f)
  | .on n, f => on c n f
  | .unsubscribe s, _ => unsubscribe c s
  | .schedule, f => Act.modify fun w => w.schedule (.user (f ()))
  | .flushNow, _ => flushJobs c
  | .runMicrotask, _ => runMicrotask c
  | .externalFlush, f => externalFlush (c.exec (f ()))
  | .runReady e, _ => runReady c env e
  | .dropReady e, _ => dropReady e

def perform (c : Calls V) (env : Enumeration) (op : Call V) (f : op.Closure → Prog V) :
    Run V op.Answer :=
  noteImpure op >>= fun _ => operate c env op f

def calls (env : Enumeration) : ℕ → Calls V
  | 0 => ⟨fun _ => Act.stop, fun _ => Act.stop, fun _ => Act.stop, Act.stop⟩
  | depth + 1 =>
    let c := calls env depth
    ⟨fun p => p.run (perform c env), refresh c env, disposeOwned c env, drain c env⟩

/-- The host program `p` on a world, with a bound on the nesting of calls. -/
def exec (env : Enumeration) (depth : ℕ) (p : Prog V) : Run V V := (calls env depth).exec p

end Adaptite

import Adaptite.Flush
import Adaptite.Program

set_option autoImplicit false

/-!
# The state of a reactor and of the thread that uses it

The nodes behind the handles, the owner frames, the subscriptions, and the
thread-local cells of the library. `deliveries` and `log` are not in the source:
the emissions in progress, and what happened so far, latest first.
-/
namespace Adaptite

open Unwinding

inductive State where
  | clean | check | dirty
deriving DecidableEq, Repr

inductive Mark where
  | check | dirty
deriving DecidableEq, Repr

def State.rank : State → ℕ
  | clean => 0
  | check => 1
  | dirty => 2

def Mark.toState : Mark → State
  | check => .check
  | dirty => .dirty

/-- A mark only ever raises a state. -/
def State.raise (s : State) (mark : Mark) : State :=
  if s.rank < mark.toState.rank then mark.toState else s

structure SignalInner (V : Type) where
  value : V
  same : V → V → Bool

/-- A thunk has no comparator. -/
structure ComputedInner (V : Type) where
  compute : Option V → Prog V
  equals : Option (V → V → Bool)
  value : Option V := none
  state : State := .dirty

/-- The body of an effect: a consumer's closure, or the one `on` builds. -/
inductive Body (V : Type) where
  | user (body : Prog V)
  | drainQueue (event : NodeId) (queue : ℕ) (handler : V → Prog V)

/-- `cutOff` is not in the source: the last run was ended by `check_divergence`. -/
structure EffectInner (V : Type) where
  body : Body V
  external : Bool
  owner : FrameId
  state : State := .dirty
  scheduled : Bool := false
  rerunAfterCurrent : Bool := false
  running : Bool := false
  disposed : Bool := false
  lastDrainEpoch : Option ℕ := none
  runsThisDrain : ℕ := 0
  cutOff : Bool := false

/-- An immediate subscriber, or the one that feeds the queue of an `on`. -/
inductive Subscriber (V : Type) where
  | immediate (handler : V → Prog V)
  | feeder (queue : ℕ)

/-- Subscribers in the order of their ids, which is the order of registration. -/
structure EventInner (V : Type) where
  nextSubscriber : ℕ := 1
  subscribers : List (ℕ × Subscriber V) := []

structure ObservationHooks (V : Type) where
  onWatch : Prog V
  onUnwatch : Prog V
  observed : Bool := false
  delivered : Bool := false
  queued : Bool := false
  cancelled : Bool := false

inductive Owned where
  | effect (node : NodeId)
  | scope (frame : FrameId)
  | subscription (id : SubscriptionId)
deriving DecidableEq

/-- `handled` says that an `Owner` handle to the frame was given out, and `dropped` that there is
no reference to it any more, so that a weak one is of no use. -/
structure OwnerFrame (V : Type) where
  parent : Option FrameId
  errorHandler : Option (Payload V → Prog V) := none
  children : List Owned := []
  sweptAt : ℕ := 0
  cleanups : List (Prog V) := []
  disposed : Bool := false
  handled : Bool := false
  dropped : Bool := false

/-- What cancelling a subscription does. -/
inductive Cancel where
  | subscriber (event : NodeId) (id : ℕ)
  | drain (direct : SubscriptionId) (effect : NodeId)

structure SubscriptionInner where
  active : Bool := true
  cancel : Option Cancel

inductive Job (V : Type) where
  | effect (node : NodeId)
  | hooks (node : NodeId)
  | user (job : Prog V)

/-- An emission in progress, with the subscribers still to be called. -/
structure Delivery (V : Type) where
  event : NodeId
  value : V
  remaining : List (Subscriber V)

inductive Event (V : Type) where
  | began (observer : NodeId)
  | finished (observer : NodeId)
  | saw (observer observable : NodeId) (value : V)
  | zombie (observer observable : NodeId)
  | impure (observer : NodeId)
  | broke (effect : NodeId)
  | caught (run : ℕ) (effect : NodeId) (payload : Payload V)
  | hooked (source : NodeId) (observed : Bool)
  | emitBegan (queue : ℕ) (value : V)
  | overtaken (queue : ℕ)
  | delivered (queue : ℕ) (value : V)

structure World (V : Type) where
  graph : Graph := {}
  flush : Flush (Job V) := {}
  signals : NodeId → Option (SignalInner V) := fun _ => none
  computed : NodeId → Option (ComputedInner V) := fun _ => none
  effects : NodeId → Option (EffectInner V) := fun _ => none
  events : NodeId → Option (EventInner V) := fun _ => none
  hooks : NodeId → Option (ObservationHooks V) := fun _ => none
  frames : FrameId → Option (OwnerFrame V) := fun _ => none
  nextFrame : FrameId := 0
  subscriptions : SubscriptionId → Option SubscriptionInner := fun _ => none
  nextSubscription : SubscriptionId := 0
  queues : ℕ → List V := fun _ => []
  nextQueue : ℕ := 0
  queuedEffects : ℕ := 0
  untracked : ℕ := 0
  owners : List (Option FrameId) := []
  teardown : ℕ := 0
  panicking : Bool := false
  lane : List NodeId := []
  runs : ℕ := 0
  deliveries : List (Delivery V) := []
  log : List (Event V) := []

namespace World

variable {V : Type}

def push (w : World V) (e : Event V) : World V := { w with log := e :: w.log }

def modifyComputed (w : World V) (n : NodeId) (f : ComputedInner V → ComputedInner V) : World V :=
  { w with computed := Function.update w.computed n ((w.computed n).map f) }

def modifyEffect (w : World V) (e : NodeId) (f : EffectInner V → EffectInner V) : World V :=
  { w with effects := Function.update w.effects e ((w.effects e).map f) }

def modifyFrame (w : World V) (f : FrameId) (g : OwnerFrame V → OwnerFrame V) : World V :=
  { w with frames := Function.update w.frames f ((w.frames f).map g) }

def modifyHooks (w : World V) (n : NodeId) (f : ObservationHooks V → ObservationHooks V) :
    World V :=
  { w with hooks := Function.update w.hooks n ((w.hooks n).map f) }

def setState (w : World V) (n : NodeId) (state : State) : World V :=
  w.modifyComputed n fun x => { x with state := state }

def bumpVersion (w : World V) (n : NodeId) : World V :=
  { w with graph := w.graph.bumpVersion n }

def schedule (w : World V) (job : Job V) : World V := { w with flush := w.flush.schedule job }

/-- `note_observation_change`: a delivery is queued unless one is already. -/
def noteObservation (w : World V) (n : NodeId) (observed : Bool) : World V :=
  match w.hooks n with
  | none => w
  | some h =>
    if h.cancelled then w
    else if h.queued then w.modifyHooks n fun h => { h with observed := observed }
    else
      (w.modifyHooks n fun h => { h with observed := observed, queued := true }).schedule (.hooks n)

def noteUnobserved (w : World V) (unobserved : List NodeId) : World V :=
  unobserved.foldl (fun w n => w.noteObservation n false) w

/-- `Reactor::dispose`. -/
def disposeNode (env : Enumeration) (w : World V) (n : NodeId) : World V :=
  let r := w.graph.dispose env n
  (({ w with graph := r.1 } : World V).noteUnobserved r.2).modifyHooks n fun h =>
    { h with cancelled := true }

/-- The opening of `run_in_context`. -/
def enter (env : Enumeration) (w : World V) (o : NodeId) : World V :=
  let r := w.graph.enterContext env o
  ({ w with graph := r.1, untracked := 0 } : World V).noteUnobserved r.2 |>.push (.began o)

/-- The drop of the guard of `run_in_context`. -/
def leave (w : World V) (untracked : ℕ) : World V :=
  { w with graph := w.graph.exitContext, untracked := untracked }

/-- The successful end of `try_observe`, after `recordEdge` or without an edge. -/
def observed (w : World V) (n : NodeId) (r : Graph × Bool) : World V :=
  let w := { w with graph := r.1 }
  if r.2 then w.noteObservation n true else w

/-- Whether a read made now is tracked, and by whom. -/
def tracker (w : World V) : Option NodeId := if 0 < w.untracked then none else w.graph.stack.head?

/-- A node that is gone from `meta` may still be on the tracking stack. -/
def noteZombie (w : World V) (n : NodeId) : World V :=
  match w.tracker with
  | some o => if o ∈ w.graph.nodeMeta then w else w.push (.zombie o n)
  | none => w

def noteSaw (w : World V) (n : NodeId) (v : V) : World V :=
  match w.tracker with
  | some o => w.push (.saw o n v)
  | none => w

def latch (w : World V) (e : NodeId) : World V :=
  { w.modifyEffect e fun x => { x with scheduled := true } with
    queuedEffects := w.queuedEffects + 1 }

def unlatch (w : World V) (e : NodeId) : World V :=
  match w.effects e with
  | none => w
  | some x =>
    if x.scheduled then
      { w.modifyEffect e fun x => { x with scheduled := false } with
        queuedEffects := w.queuedEffects - 1 }
    else w

/-- `EffectInner::schedule`: the ready run goes to the lane of the consumer, or
to the job queue. -/
def scheduleEffect (w : World V) (e : NodeId) : World V :=
  match w.effects e with
  | none => w
  | some x =>
    if x.disposed || x.scheduled then w
    else if x.external then
      { w.latch e with lane := w.lane ++ [e] }
    else (w.latch e).schedule (.effect e)

/-- `EffectInner::mark`. -/
def markEffect (w : World V) (e : NodeId) (mark : Mark) : World V :=
  (w.modifyEffect e fun x => { x with state := x.state.raise mark }).scheduleEffect e

/-- `mark_computed`; `next` marks the dependents of a node that was clean. -/
def markComputed (next : World V → NodeId → World V) (w : World V) (n : NodeId)
    (x : ComputedInner V) (mark : Mark) : World V :=
  if x.state.rank < mark.toState.rank then
    if x.state = .clean then next (w.setState n mark.toState) n else w.setState n mark.toState
  else w

/-- An observer whose hook is gone loses its registration. -/
def deliverMark (next : World V → NodeId → World V) (mark : Mark) (w : World V) (d : NodeId) :
    World V :=
  if d ∈ w.graph.observers then
    match w.computed d with
    | some x => markComputed next w d x mark
    | none => w.markEffect d mark
  else { w with graph := w.graph.unregisterObserver d }

/-- Every nested call turns a clean computed node stale, so as many levels as
there are nodes are enough. -/
def markDependents (env : Enumeration) : ℕ → Mark → World V → NodeId → World V
  | 0, _, w, _ => w
  | levels + 1, mark, w, n =>
    (env.order w.graph (w.graph.observersOf n).keys).foldl
      (deliverMark (markDependents env levels .check) mark) w

def trigger (env : Enumeration) (w : World V) (n : NodeId) : World V :=
  markDependents env (w.graph.nextNode + 1) .dirty (w.bumpVersion n) n

end World

/-- A computation on the thread: it may unwind with a payload. -/
abbrev Run (V α : Type) : Type := Act (World V) (Payload V) α

/-- What the library calls back into: consumer code, and its own recursion. -/
structure Calls (V : Type) where
  exec : Prog V → Run V V
  refresh : NodeId → Run V Unit
  dispose : Owned → Run V Unit
  drain : Run V Unit

end Adaptite

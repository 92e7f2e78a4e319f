import Adaptite.Base.Runs
import Adaptite.Effects

set_option autoImplicit false

/-!
# Emissions step by step

One event on one thread, with its immediate subscribers and any number of subscriptions made with
`on`. The code of a subscriber or a handler is not modelled, only the operations on the event that
it performs: any, in any order. A flush takes the runs of draining effects in any order, and other
jobs between them. The one panic is that of `check_divergence`.
-/
namespace Adaptite

/-- An entry of the map of subscribers, which is in the order of registration: an immediate
subscriber, or the one that feeds the queue of a draining subscription. -/
inductive EventSubscriber where
  | handler (id : ℕ)
  | feeder (drain : ℕ)
deriving DecidableEq

abbrev Emission (V : Type) : Type := ℕ × V

/-- `emitting` carries the rest of the snapshot, `draining` the rest of what was drained. `calling`
is a subscriber, or a job of a flush. -/
inductive EventFrame (V : Type) where
  | emitting (emission : Emission V) (rest : List EventSubscriber)
  | flushing
  | calling
  | draining (drain : ℕ) (rest : List (Emission V))
  | handling

/-- A subscription made with `on`, and its effect, which an event marks Dirty only. Not in the
source are `begun`, the emissions that began while it was subscribed, `received`, what its feeder
was called with, `delivered`, what its handler was called with, and `overtaken`: an emission began
before the feeder was called for an earlier one. -/
structure DrainCell (V : Type) where
  active : Bool := true
  queue : List (Emission V) := []
  observing : Bool := false
  dirty : Bool := true
  scheduled : Bool := true
  running : Bool := false
  rerunAfterCurrent : Bool := false
  lastDrainEpoch : Option ℕ := none
  runsThisDrain : ℕ := 0
  begun : List (Emission V) := []
  received : List (Emission V) := []
  delivered : List (Emission V) := []
  overtaken : Bool := false

/-- Not in the source is `cutOff`: `check_divergence` has panicked. -/
structure EventHost (V : Type) where
  subscribers : List EventSubscriber := []
  nextSubscriber : ℕ := 0
  drains : ℕ → Option (DrainCell V) := fun _ => none
  nextEmission : ℕ := 0
  frames : List (EventFrame V) := []
  drainEpoch : ℕ := 0
  unwinding : Bool := false
  cutOff : Bool := false

/-- `run` is the job of a draining effect, and `job` another one. `next` is a step of the library,
and `finish` the return of a subscriber, a handler, a job or a flush. `unwind` takes a panic out of
a call, and `catchUnwind` is a `catch_unwind` that it meets. -/
inductive EventOp (V : Type) where
  | emit (value : V)
  | subscribe
  | on
  | unsubscribe (subscriber : EventSubscriber)
  | flush
  | job
  | run (drain : ℕ)
  | next
  | finish
  | unwind
  | catchUnwind

namespace EventFrame

variable {V : Type}

/-- The emission has still to be fed to the draining subscription. -/
def pending (d : ℕ) : EventFrame V → Option (Emission V)
  | emitting emission rest => if .feeder d ∈ rest then some emission else none
  | _ => none

/-- What the draining effect has taken from its queue and not yet delivered. -/
def inHand (d : ℕ) : EventFrame V → List (Emission V)
  | draining i rest => if i = d then rest else []
  | _ => []

def isEmitting : EventFrame V → Bool
  | emitting _ _ => true
  | _ => false

def isFlushing : EventFrame V → Bool
  | flushing => true
  | _ => false

def isCode : EventFrame V → Bool
  | calling | handling => true
  | _ => false

end EventFrame

namespace DrainCell

variable {V : Type}

def begin (x : DrainCell V) (emission : Emission V) (overtakes : Bool) : DrainCell V :=
  if x.active then
    { x with begun := x.begun ++ [emission], overtaken := x.overtaken || overtakes }
  else x

/-- The subscriber that `on` registers. -/
def feed (x : DrainCell V) (emission : Emission V) : DrainCell V :=
  { x with queue := x.queue ++ [emission], received := x.received ++ [emission] }

/-- `EffectInner::mark`, where the effect observes the event. -/
def mark (x : DrainCell V) : DrainCell V :=
  if x.active && x.observing then { x with dirty := true, scheduled := true } else x

def drain (x : DrainCell V) : DrainCell V :=
  { x with
    scheduled := false
    dirty := false
    running := true
    observing := true
    queue := [] }

/-- The count of `check_divergence`, and whether it is over the limit. -/
def countRun (x : DrainCell V) (drainEpoch : ℕ) : DrainCell V × Bool :=
  if x.lastDrainEpoch = some drainEpoch then
    ({ x with runsThisDrain := x.runsThisDrain + 1 },
      decide (maxRunsPerFlush < x.runsThisDrain + 1))
  else ({ x with lastDrainEpoch := some drainEpoch, runsThisDrain := 1 }, false)

def deliver (x : DrainCell V) (emission : Emission V) : DrainCell V :=
  { x with delivered := x.delivered ++ [emission] }

def settle (x : DrainCell V) : DrainCell V :=
  { x with
    running := false
    rerunAfterCurrent := false
    scheduled := x.scheduled || x.rerunAfterCurrent && x.active }

def cancel (x : DrainCell V) : DrainCell V :=
  { x with active := false, scheduled := false }

end DrainCell

namespace EventHost

variable {V : Type}

/-- Code is running: the program's own, a subscriber's, a handler's or a job's. -/
def calling (s : EventHost V) : Bool := !s.unwinding && s.frames.head?.all EventFrame.isCode

def flushing (s : EventHost V) : Bool := !s.unwinding && s.frames.head?.any EventFrame.isFlushing

def idle (s : EventHost V) : Bool :=
  (List.range s.nextSubscriber).all fun d => (s.drains d).all fun x => !x.scheduled

/-- The emissions that have still to be fed to the subscription, latest first. -/
def pending (s : EventHost V) (d : ℕ) : List (Emission V) :=
  s.frames.filterMap (EventFrame.pending d)

def inHand (s : EventHost V) (d : ℕ) : List (Emission V) :=
  s.frames.flatMap (EventFrame.inHand d)

def setDrain (s : EventHost V) (d : ℕ) (x : DrainCell V) : EventHost V :=
  { s with drains := Function.update s.drains d (some x) }

/-- `Event::emit` takes its snapshot of the subscribers. -/
def emit (s : EventHost V) (value : V) : EventHost V :=
  { s with
    nextEmission := s.nextEmission + 1
    drains := fun d =>
      (s.drains d).map fun x => x.begin (s.nextEmission, value) !(s.pending d).isEmpty
    frames := .emitting (s.nextEmission, value) s.subscribers :: s.frames }

/-- `Event::subscribe`. -/
def subscribe (s : EventHost V) : EventHost V :=
  { s with
    subscribers := s.subscribers ++ [.handler s.nextSubscriber]
    nextSubscriber := s.nextSubscriber + 1 }

/-- `Reactor::on`. -/
def on (s : EventHost V) : EventHost V :=
  { s.setDrain s.nextSubscriber {} with
    subscribers := s.subscribers ++ [.feeder s.nextSubscriber]
    nextSubscriber := s.nextSubscriber + 1 }

/-- `Subscription::unsubscribe`. -/
def unsubscribe (s : EventHost V) (subscriber : EventSubscriber) : EventHost V :=
  let t := { s with subscribers := s.subscribers.filter fun i => i ≠ subscriber }
  match subscriber with
  | .handler _ => t
  | .feeder d =>
    match s.drains d with
    | none => t
    | some x => t.setDrain d x.cancel

/-- `flush_jobs`: only an outermost flush opens a drain. -/
def flush (s : EventHost V) : EventHost V :=
  { s with
    frames := .flushing :: s.frames
    drainEpoch := if s.frames.any EventFrame.isFlushing then s.drainEpoch else s.drainEpoch + 1 }

/-- `run_scheduled`, of the draining effect. -/
def run (s : EventHost V) (d : ℕ) : Option (EventHost V) :=
  match s.drains d with
  | none => none
  | some x =>
    if x.scheduled = false then none
    else if x.running then
      some (s.setDrain d { x with scheduled := false, rerunAfterCurrent := true })
    else if x.dirty then
      let r := x.countRun s.drainEpoch
      if r.2 then
        some { s.setDrain d { r.1 with scheduled := false, dirty := false } with
          unwinding := true
          cutOff := true }
      else some { s.setDrain d r.1.drain with frames := .draining d x.queue :: s.frames }
    else some (s.setDrain d { x with scheduled := false })

/-- The library calls the next subscriber or handler, or marks the observers of the event. -/
def next (s : EventHost V) : Option (EventHost V) :=
  match s.frames with
  | .emitting emission (.handler _ :: rest) :: frames =>
    some { s with frames := .calling :: .emitting emission rest :: frames }
  | .emitting emission (.feeder d :: rest) :: frames =>
    let t := { s with frames := .emitting emission rest :: frames }
    match s.drains d with
    | none => some t
    | some x => some (t.setDrain d (x.feed emission))
  | .emitting _ [] :: frames =>
    some { s with drains := fun d => (s.drains d).map DrainCell.mark, frames }
  | .draining d (emission :: rest) :: frames =>
    let t := { s with frames := .handling :: .draining d rest :: frames }
    match s.drains d with
    | none => some t
    | some x => some (t.setDrain d (x.deliver emission))
  | .draining d [] :: frames =>
    let t := { s with frames }
    match s.drains d with
    | none => some t
    | some x => some (t.setDrain d x.settle)
  | _ => none

/-- The panic leaves the call on top, and the window of a run is closed on its way. -/
def unwind (s : EventHost V) : Option (EventHost V) :=
  match s.frames with
  | [] => none
  | .draining d _ :: frames =>
    let t := { s with frames }
    match s.drains d with
    | none => some t
    | some x => some (t.setDrain d { x with running := false })
  | _ :: frames => some { s with frames }

def step (s : EventHost V) : EventOp V → Option (EventHost V)
  | .emit value => if s.calling then some (s.emit value) else none
  | .subscribe => if s.calling then some s.subscribe else none
  | .on => if s.calling then some s.on else none
  | .unsubscribe subscriber => if s.calling then some (s.unsubscribe subscriber) else none
  | .flush => if s.calling then some s.flush else none
  | .job => if s.flushing then some { s with frames := .calling :: s.frames } else none
  | .run d => if s.flushing then s.run d else none
  | .next => if s.unwinding then none else s.next
  | .finish =>
    if s.calling && !s.frames.isEmpty || s.flushing && s.idle then
      some { s with frames := s.frames.tail }
    else none
  | .unwind => if s.unwinding then s.unwind else none
  | .catchUnwind =>
    if s.unwinding && s.frames.head?.all EventFrame.isCode then some { s with unwinding := false }
    else none

abbrev Reached (s : EventHost V) : Prop :=
  Runs.Reaches step (fun _ _ => true = true) {} s

/-- The reactor is flushed: no code is running but the program's own, and no run is queued. -/
def Flushed (s : EventHost V) : Prop :=
  s.frames = [] ∧ ∀ d x, s.drains d = some x → x.scheduled = false

end EventHost

end Adaptite

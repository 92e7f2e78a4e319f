import Adaptite.Base.Runs
import Adaptite.Effects
import Adaptite.Net

set_option autoImplicit false

/-!
# Reads, writes and flushes step by step

`NetHost` is a thread that uses the signals, thunks, memos and effects of one reactor.
A frame is a call that is still on the stack. The code of a compute, a body, a cleanup
or a closure is not modelled, only the operations it performs: any, in any order.
Effects are scheduled on the reactor's own lane and are not disposed; destructors run no
code.
-/
namespace Adaptite

/-- A call on the stack. `reading`: the node is being brought up to date for a `with` or a
`with_peek`. `verifying` is `dependencies_changed` before its next entry, `awaiting` the
same while it refreshes one. A frame with an open context remembers the untracked depth
that its guard restores. -/
inductive NetFrame where
  | reading (node : NodeId) (tracked : Bool)
  | verifying (node : NodeId) (rest : EdgeTable)
  | awaiting (node dependency : NodeId) (version : ℕ) (rest : EdgeTable)
  | computing (node : NodeId) (untracked : ℕ)
  | resetting (effect : NodeId)
  | running (effect : NodeId) (untracked : ℕ)
  | holding (node : NodeId)
  | untracking
  | flushing
deriving DecidableEq

namespace NetFrame

/-- Consumer code runs in this frame; in the others the library goes on by itself. -/
def isCode : NetFrame → Bool
  | computing _ _ | resetting _ | running _ _ | holding _ | untracking => true
  | _ => false

/-- The run window of the effect is open in this frame. -/
def isWindow (e : NodeId) : NetFrame → Bool
  | resetting i | running i _ => i = e
  | _ => false

end NetFrame

/-- `ran`, `started` and `saw` are not in the source: the computes and bodies that were
entered since the last write, those that were ever entered, and what each one has read
with a tracked read in its last run, latest first, with the version at which it did. -/
structure NetHost (V : Type) where
  net : Net V := {}
  frames : List NetFrame := []
  unwinding : Bool := false
  rerunAfterCurrent : NodeId → Bool := fun _ => false
  ran : List NodeId := []
  started : List NodeId := []
  saw : NodeId → List (NodeId × ℕ × V) := fun _ => []

/-- The operations up to `flushNow` are called by running code; `finish` is the return of
the running code, with the value of a compute; `next` is a step of the library; `unwind`
leaves the innermost frame. -/
inductive NetStep (V : Type) where
  | signal (value : V) (same : V → V → Bool)
  | thunk (compute : Script V)
  | memo (compute : Option V → Script V) (equals : Equals V)
  | effect (body : Script V)
  | read (node : NodeId) (tracked : Bool)
  | set (signal : NodeId) (value : V)
  | update (signal : NodeId) (f : V → V)
  | untrack
  | flushNow
  | finish (value : V)
  | next
  | panic
  | catchUnwind
  | unwind

/-- Whether a new value counts as a change; a comparator may panic. -/
def NetComputed.differs {V : Type} (x : NetComputed V) (value : V) : Except V Bool :=
  match x.equals, x.value with
  | some equals, some current => (equals current value).map not
  | _, _ => .ok true

namespace Net

variable {V : Type}

/-- `EffectInner::schedule`. -/
def scheduleEffect (net : Net V) (e : NodeId) : Net V :=
  match net.effects e with
  | none => net
  | some x =>
    if x.scheduled then net
    else
      { net.modifyEffect e fun x => { x with scheduled := true } with
        pendingJobs := net.pendingJobs ++ [e] }

def unlatch (net : Net V) (e : NodeId) : Net V :=
  net.modifyEffect e fun x => { x with scheduled := false }

def newEffect (net : Net V) (body : Script V) : Net V :=
  ({ net with
      nextNode := net.nextNode + 1
      effects := Function.update net.effects net.nextNode (some { body }) } :
    Net V).scheduleEffect net.nextNode

/-- A memo borrows its previous value while it computes the next. -/
def occupy (net : Net V) (n : NodeId) (x : NetComputed V) : Net V :=
  if x.equals.isSome then net.borrow n else net

def vacate (net : Net V) (n : NodeId) (x : NetComputed V) : Net V :=
  if x.equals.isSome then net.giveBack n else net

def beginCompute (net : Net V) (n : NodeId) (x : NetComputed V) : Net V :=
  ((net.setState n .clean).occupy n x).enter n

/-- The compute of a memo or a thunk has returned. -/
def endCompute (net : Net V) (n : NodeId) (x : NetComputed V) (untracked : ℕ) : Net V :=
  (net.leave untracked).vacate n x

/-- The new value is stored, and counts as a change or does not. -/
def accept (net : Net V) (n : NodeId) (value : V) (changed : Bool) : Net V :=
  if changed then (net.store n value).bumpVersion n else net.store n value

/-- The count of `check_divergence`. -/
def countRun (net : Net V) (e : NodeId) : Net V :=
  net.modifyEffect e fun x =>
    { x with
      lastDrainEpoch := some net.drainEpoch
      runsThisDrain := if x.lastDrainEpoch = some net.drainEpoch then x.runsThisDrain + 1 else 1 }

def openFlush (net : Net V) : Net V :=
  { net with
    drainEpoch := if net.flushDepth = 0 then net.drainEpoch + 1 else net.drainEpoch
    flushDepth := net.flushDepth + 1 }

def closeFlush (net : Net V) : Net V := { net with flushDepth := net.flushDepth - 1 }

end Net

namespace NetHost

variable {V : Type}

/-- Consumer code is in control, or would be if it caught the panic. -/
def inCode (s : NetHost V) : Bool :=
  match s.frames with
  | [] => true
  | frame :: _ => frame.isCode

def calling (s : NetHost V) : Bool := !s.unwinding && s.inCode

def push (s : NetHost V) (frame : NetFrame) : NetHost V := { s with frames := frame :: s.frames }

def raise (s : NetHost V) : NetHost V := { s with unwinding := true }

def begin (s : NetHost V) (n : NodeId) (net : Net V) (frame : NetFrame) : NetHost V :=
  { s with
    net
    frames := frame :: s.frames
    ran := n :: s.ran
    started := n :: s.started
    saw := Function.update s.saw n [] }

/-- `recompute_inner`, up to the compute. -/
def recompute (s : NetHost V) (n : NodeId) : NetHost V :=
  match s.net.computed n with
  | none => s
  | some x =>
    if n ∈ s.net.activeComputations then { s.raise with net := s.net.setState n .dirty }
    else s.begin n (s.net.beginCompute n x) (.computing n s.net.untracked)

/-- The hook of a signal or an effect refreshes nothing. -/
def refresh (s : NetHost V) (n : NodeId) : NetHost V :=
  match s.net.computed n with
  | none => s
  | some x =>
    match x.state with
    | .clean => s
    | .check => s.push (.verifying n (s.net.dependencies n))
    | .dirty => s.recompute n

def read (s : NetHost V) (n : NodeId) (tracked : Bool) : NetHost V :=
  match s.net.signals n, s.net.computed n with
  | some _, _ => s.push (.reading n tracked)
  | none, some _ =>
    if (s.net.cycleCheck n).isSome then s.raise else (s.push (.reading n tracked)).refresh n
  | none, none => s.raise

def noteSaw (s : NetHost V) (n : NodeId) (v : V) : NetHost V :=
  if 0 < s.net.untracked then s
  else
    match s.net.stack with
    | [] => s
    | o :: _ => { s with saw := Function.update s.saw o ((n, s.net.version n, v) :: s.saw o) }

/-- The node is up to date: it is observed, and its value is lent to the closure. -/
def lend (layout : Layout) (s : NetHost V) (n : NodeId) (tracked : Bool) : NetHost V :=
  if tracked && (s.net.cycleCheck n).isSome then s.raise
  else
    let net := if tracked then s.net.recordEdge layout n else s.net
    match s.net.cached n with
    | none => { s.raise with net }
    | some v =>
      let s := if tracked then s.noteSaw n v else s
      ({ s with net := net.borrow n } : NetHost V).push (.holding n)

def write (s : NetHost V) (n : NodeId) (v : V) : NetHost V :=
  { s with net := (s.net.setValue n v).trigger n, ran := [] }

/-- `RefCell::replace`, then `trigger`. -/
def overwrite (s : NetHost V) (n : NodeId) (f : V → V) : NetHost V :=
  match s.net.signals n with
  | none => s.raise
  | some x => if 0 < s.net.borrows n then s.raise else s.write n (f x.value)

/-- `Signal::set`: an equal value is not written. -/
def set (s : NetHost V) (n : NodeId) (v : V) : NetHost V :=
  match s.net.signals n with
  | none => s.raise
  | some x => if x.same x.value v then s else s.overwrite n fun _ => v

/-- The end of `recompute_inner`: the comparator may panic, and the old value may still be
borrowed. -/
def conclude (s : NetHost V) (rest : List NetFrame) (n : NodeId) (x : NetComputed V)
    (untracked : ℕ) (v : V) : NetHost V :=
  let net := s.net.endCompute n x untracked
  match x.differs v with
  | .error _ => { s.raise with net, frames := rest }
  | .ok changed =>
    if 0 < net.borrows n then { s.raise with net, frames := rest }
    else { s with net := net.accept n v changed, frames := rest }

/-- `check_divergence`, then the teardown of the previous run. -/
def attempt (s : NetHost V) (e : NodeId) : NetHost V :=
  let net := s.net.countRun e
  if ((net.effects e).map fun x => decide (maxRunsPerFlush < x.runsThisDrain)).getD false then
    { s.raise with net }
  else ({ s with net } : NetHost V).push (.resetting e)

/-- A dependency has changed: a thunk or a memo recomputes, an effect runs. -/
def changed (s : NetHost V) (n : NodeId) : NetHost V :=
  match s.net.computed n with
  | some _ => s.recompute n
  | none => s.attempt n

def runScheduled (s : NetHost V) (e : NodeId) : NetHost V :=
  match s.net.effects e with
  | none => s
  | some x =>
    let s := { s with net := s.net.unlatch e }
    if s.frames.any (NetFrame.isWindow e) then
      { s with rerunAfterCurrent := Function.update s.rerunAfterCurrent e true }
    else
      let s := { s with net := s.net.modifyEffect e fun x => { x with state := .clean } }
      match x.state with
      | .dirty => s.attempt e
      | .check => s.push (.verifying e (s.net.dependencies e))
      | .clean => s

def enterBody (s : NetHost V) (rest : List NetFrame) (e : NodeId) : NetHost V :=
  let s := { s with frames := rest }
  if e ∈ s.net.activeComputations then s.raise
  else s.begin e (s.net.enter e) (.running e s.net.untracked)

/-- A run requested while this one was in progress is queued now. -/
def settle (s : NetHost V) (rest : List NetFrame) (e : NodeId) (untracked : ℕ) : NetHost V :=
  let net := s.net.leave untracked
  { s with
    net := if s.rerunAfterCurrent e then net.scheduleEffect e else net
    frames := rest
    rerunAfterCurrent := Function.update s.rerunAfterCurrent e false }

def finish (s : NetHost V) (v : V) : Option (NetHost V) :=
  match s.frames with
  | .computing n untracked :: rest =>
    (s.net.computed n).map fun x => s.conclude rest n x untracked v
  | .resetting e :: rest => some (s.enterBody rest e)
  | .running e untracked :: rest => some (s.settle rest e untracked)
  | .holding n :: rest => some { s with net := s.net.giveBack n, frames := rest }
  | .untracking :: rest =>
    some { s with net := { s.net with untracked := s.net.untracked - 1 }, frames := rest }
  | _ => none

def next (layout : Layout) (s : NetHost V) : Option (NetHost V) :=
  match s.frames with
  | .flushing :: rest =>
    match s.net.pendingJobs with
    | [] => some { s with net := s.net.closeFlush, frames := rest }
    | e :: jobs =>
      some (({ s with net := { s.net with pendingJobs := jobs } } : NetHost V).runScheduled e)
  | .verifying n [] :: rest => some { s with net := s.net.setState n .clean, frames := rest }
  | .verifying n ((d, version) :: entries) :: rest =>
    if (s.net.cycleCheck d).isSome then some s.raise
    else
      some (({ s with frames := .awaiting n d version entries :: rest } : NetHost V).refresh d)
  | .awaiting n d version entries :: rest =>
    if s.net.version d ≠ version then some (({ s with frames := rest } : NetHost V).changed n)
    else some { s with frames := .verifying n entries :: rest }
  | .reading n tracked :: rest => some (({ s with frames := rest } : NetHost V).lend layout n tracked)
  | _ => none

/-- `RecoverOnUnwind`, of the verification of an effect. -/
def recover (s : NetHost V) (rest : List NetFrame) (n : NodeId) : NetHost V :=
  { s with
    net := (s.net.modifyEffect n fun x => { x with state := .dirty }).scheduleEffect n
    frames := rest }

def unwind (s : NetHost V) : Option (NetHost V) :=
  match s.frames with
  | [] => none
  | .computing n untracked :: rest =>
    (s.net.computed n).map fun x =>
      { s with net := (s.net.endCompute n x untracked).setState n .dirty, frames := rest }
  | .running _ untracked :: rest => some { s with net := s.net.leave untracked, frames := rest }
  | .verifying n _ :: rest | .awaiting n _ _ _ :: rest => some (s.recover rest n)
  | .holding n :: rest => some { s with net := s.net.giveBack n, frames := rest }
  | .untracking :: rest =>
    some { s with net := { s.net with untracked := s.net.untracked - 1 }, frames := rest }
  | .flushing :: rest => some { s with net := s.net.closeFlush, frames := rest }
  | .reading _ _ :: rest | .resetting _ :: rest => some { s with frames := rest }

/-- `flush_now`. -/
def flushNow (s : NetHost V) : NetHost V :=
  if s.net.pendingJobs.isEmpty then s
  else ({ s with net := s.net.openFlush } : NetHost V).push .flushing

def step (layout : Layout) (s : NetHost V) : NetStep V → Option (NetHost V)
  | .signal v same => if s.calling then some { s with net := s.net.newSignal v same } else none
  | .thunk p =>
    if s.calling then some { s with net := s.net.newComputed (fun _ => p) none } else none
  | .memo f equals =>
    if s.calling then some { s with net := s.net.newComputed f (some equals) } else none
  | .effect p => if s.calling then some { s with net := s.net.newEffect p } else none
  | .read n tracked => if s.calling then some (s.read n tracked) else none
  | .set n v => if s.calling then some (s.set n v) else none
  | .update n f => if s.calling then some (s.overwrite n f) else none
  | .untrack =>
    if s.calling then
      some (({ s with net := { s.net with untracked := s.net.untracked + 1 } } :
        NetHost V).push .untracking)
    else none
  | .flushNow => if s.calling then some s.flushNow else none
  | .finish v => if s.calling then s.finish v else none
  | .next => if s.unwinding then none else s.next layout
  | .panic => if s.calling then some s.raise else none
  | .catchUnwind => if s.unwinding && s.inCode then some { s with unwinding := false } else none
  | .unwind => if s.unwinding then s.unwind else none

end NetHost

end Adaptite

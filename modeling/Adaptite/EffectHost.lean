import Adaptite.Base.Runs
import Adaptite.Effects

set_option autoImplicit false

/-!
# Scheduling, running and discarding effects

`EffectHost` is a thread that uses the effects of one reactor: bodies, computes,
cleanups, handlers, jobs and diagnostic subscribers call into the library at any point
and panic at any point. A frame is a call that is still on the stack; the code running in it is
not modelled, only the operations it performs. Which effects a write reaches is not
decided here: `mark` delivers one mark.
-/
namespace Adaptite

/-- `EffectInner`. `boundary` says that an error boundary encloses the effect, and
`registered` that its node still has its metadata. -/
structure EffectCell where
  external : Bool
  boundary : Bool
  state : State := .dirty
  scheduled : Bool := false
  rerunAfterCurrent : Bool := false
  running : Bool := false
  disposed : Bool := false
  registered : Bool := true
  lastDrainEpoch : Option ℕ := none
  runsThisDrain : ℕ := 0

/-- The count of `check_divergence`. -/
def EffectCell.countRun (x : EffectCell) (drainEpoch : ℕ) : EffectCell :=
  { x with
    lastDrainEpoch := some drainEpoch
    runsThisDrain := if x.lastDrainEpoch = some drainEpoch then x.runsThisDrain + 1 else 1 }

inductive EffectJob where
  | run (effect : NodeId)
  | other
deriving DecidableEq

/-- A call on the stack. The frames of a delivery are named after what is reported;
one that a guard makes remembers whether the guard is dropped by unwinding, and whether
the thread was panicking then. `reported` says that the start of the run was reported. -/
inductive RunFrame where
  | flushOpening
  | draining (busy : Bool)
  | flushClosing (unwound shielded : Bool)
  | externalOpening (run : Option NodeId)
  | external
  | externalClosing (unwound shielded : Bool)
  | invalidating (effect : NodeId) (mark : Mark)
  | scheduling (effect : NodeId)
  | coalescing
  | handing
  | catching (effect : NodeId)
  | caught
  | handling
  | verifying (effect : NodeId)
  | recovering
  | skipping
  | starting (effect : NodeId)
  | resetting (effect : NodeId) (reported : Bool)
  | body (effect : NodeId) (reported : Bool)
  | settling (effect : NodeId) (reported : Bool)
  | finishing (unwound : Bool)
  | disposing (effect : NodeId)
  | tearing (effect : NodeId)
  | dropping
deriving DecidableEq

namespace RunFrame

/-- Consumer code runs in this frame; in the others the library goes on by itself. -/
def isCode : RunFrame → Bool
  | draining busy => busy
  | catching _ | caught | recovering | settling _ _ => false
  | _ => true

/-- A panic waits below this frame: `std::thread::panicking`. -/
def isUnwinding : RunFrame → Bool
  | dropping | recovering => true
  | flushClosing unwound _ | externalClosing unwound _ | finishing unwound => unwound
  | _ => false

/-- The flush of this frame has taken its depth and not given it back. -/
def isOpen : RunFrame → Bool
  | draining _ | externalOpening _ | external => true
  | _ => false

def holds (e : NodeId) : RunFrame → Bool
  | externalOpening (some i) | invalidating i _ | scheduling i | catching i | verifying i
  | starting i | resetting i _ | body i _ | settling i _ | disposing i
  | tearing i => i = e
  | _ => false

end RunFrame

/-- `attempted` and `entered` are not in the source: the runs that reached
`check_divergence` and the bodies that were entered since the last outermost flush was
opened. -/
structure EffectHost where
  nextNode : ℕ := 1
  effects : NodeId → Option EffectCell := fun _ => none
  flush : Flush EffectJob := {}
  lane : List NodeId := []
  queuedEffects : ℕ := 0
  diagnosticsActive : Bool := false
  openStats : ℕ := 0
  stack : List RunFrame := []
  unwinding : Bool := false
  attempted : List NodeId := []
  entered : List NodeId := []

/-- The operations up to `diagnostics` are called by running code; `finish` is the
return of the running code, with the answer of a verification; `next` is a step of the
library; `destroy` starts a destructor that the unwinding runs, `unwind` leaves the
innermost frame. -/
inductive EffectOp where
  | effect (external boundary : Bool)
  | mark (effect : NodeId) (mark : Mark)
  | schedule
  | flushNow
  | microtask
  | externalFlush
  | run (effect : NodeId)
  | discard (effect : NodeId)
  | dispose (effect : NodeId)
  | release (effect : NodeId)
  | diagnostics (active : Bool)
  | finish (changed : Bool)
  | next
  | panic
  | catchUnwind
  | destroy
  | unwind

namespace EffectHost

def modify (s : EffectHost) (e : NodeId) (f : EffectCell → EffectCell) : EffectHost :=
  { s with effects := Function.update s.effects e ((s.effects e).map f) }

theorem modify_eq_some {s : EffectHost} {e i : NodeId} {f : EffectCell → EffectCell}
    {y : EffectCell} : (s.modify e f).effects i = some y ↔
      i = e ∧ (∃ x, s.effects e = some x ∧ y = f x) ∨ i ≠ e ∧ s.effects i = some y := by
  change Function.update s.effects e ((s.effects e).map f) i = some y ↔ _
  by_cases hi : i = e
  · subst hi
    rw [Function.update_self, Option.map_eq_some_iff]
    simp [eq_comm]
  · rw [Function.update_of_ne hi]
    simp [hi]

def push (s : EffectHost) (frame : RunFrame) : EffectHost := { s with stack := frame :: s.stack }

/-- Consumer code is in control, or would be if it caught the panic. -/
def inCode (s : EffectHost) : Bool :=
  match s.stack with
  | [] => true
  | frame :: _ => frame.isCode

def calling (s : EffectHost) : Bool := !s.unwinding && s.inCode

def latch (s : EffectHost) (e : NodeId) : EffectHost :=
  { s.modify e fun x => { x with scheduled := true } with queuedEffects := s.queuedEffects + 1 }

def unlatch (s : EffectHost) (e : NodeId) : EffectHost :=
  match s.effects e with
  | none => s
  | some x =>
    if x.scheduled then
      { s.modify e fun x => { x with scheduled := false } with
        queuedEffects := s.queuedEffects - 1 }
    else s

/-- The end of `schedule`: an `EffectRun` goes to the scheduler of the effect, or a job to
the queue. -/
def handOver (s : EffectHost) (e : NodeId) : EffectHost :=
  match s.effects e with
  | none => s
  | some x =>
    if x.external then ({ s with lane := s.lane ++ [e] } : EffectHost).push .handing
    else { s with flush := s.flush.schedule (.run e) }

def schedule (s : EffectHost) (e : NodeId) : EffectHost :=
  match s.effects e with
  | none => s
  | some x =>
    if x.disposed || x.scheduled then
      if s.diagnosticsActive && x.registered then s.push .coalescing else s
    else if s.diagnosticsActive && x.registered then (s.latch e).push (.scheduling e)
    else (s.latch e).handOver e

/-- `EffectInner::mark`, after its report. -/
def raise (s : EffectHost) (e : NodeId) (mark : Mark) : EffectHost :=
  (s.modify e fun x => { x with state := x.state.raise mark }).schedule e

def deliverMark (s : EffectHost) (e : NodeId) (mark : Mark) : EffectHost :=
  match s.effects e with
  | none => s
  | some x =>
    if s.diagnosticsActive && x.registered then s.push (.invalidating e mark) else s.raise e mark

def newEffect (s : EffectHost) (external boundary : Bool) : EffectHost :=
  ({ s with
      nextNode := s.nextNode + 1
      effects := Function.update s.effects s.nextNode (some { external, boundary }) } :
    EffectHost).schedule s.nextNode

def dispose (s : EffectHost) (e : NodeId) : EffectHost :=
  match s.effects e with
  | none => s
  | some x =>
    if x.disposed then s
    else
      let s := s.modify e fun x => { x with disposed := true }
      if s.diagnosticsActive then s.push (.disposing e) else (s.unlatch e).push (.tearing e)

/-- The guard of `EffectInner::dispose`. -/
def unhook (s : EffectHost) (e : NodeId) : EffectHost :=
  s.modify e fun x => { x with registered := false }

/-- An outermost flush is opened: nothing has run in it. -/
def fresh (s : EffectHost) : EffectHost :=
  if s.flush.flushDepth = 0 then { s with attempted := [], entered := [] } else s

def flushJobs (s : EffectHost) : EffectHost :=
  if s.flush.pendingJobs.isEmpty then { s with flush := s.flush.skipDrain }
  else if s.diagnosticsActive then
    { s.fresh with
      flush := s.flush.openDrain
      openStats := s.openStats + 1
      stack := .flushOpening :: s.stack }
  else { s.fresh with flush := s.flush.openDrain.enterDrain, stack := .draining false :: s.stack }

/-- The drop of `FlushGuard`, up to the delivery of `FlushFinished`. -/
def closeDrain (s : EffectHost) (rest : List RunFrame) (unwound : Bool) : EffectHost :=
  if s.diagnosticsActive && 0 < s.openStats then
    { s with
      flush := s.flush.leaveDrain
      openStats := s.openStats - 1
      stack := .flushClosing unwound (unwound || rest.any RunFrame.isUnwinding) :: rest
      unwinding := false }
  else { s with flush := s.flush.leaveDrain.rearm, stack := rest, unwinding := unwound }

/-- `begin_flush`, for `external_flush` or for the run of one effect. -/
def beginFlush (s : EffectHost) (run : Option NodeId) : EffectHost :=
  if s.flush.beginFlush.2 && s.diagnosticsActive then
    { s.fresh with
      flush := s.flush.beginFlush.1
      openStats := s.openStats + 1
      stack := .externalOpening run :: s.stack }
  else { s.fresh with flush := s.flush.beginFlush.1, stack := .external :: s.stack }

def endFlush (s : EffectHost) (rest : List RunFrame) (unwound : Bool) : EffectHost :=
  if s.flush.leaveDrain.flushDepth = 0 && s.diagnosticsActive && 0 < s.openStats then
    { s with
      flush := s.flush.leaveDrain
      openStats := s.openStats - 1
      stack := .externalClosing unwound (unwound || rest.any RunFrame.isUnwinding) :: rest
      unwinding := false }
  else { s with flush := s.flush.leaveDrain, stack := rest, unwinding := unwound }

/-- The run window opens before the teardown of the previous run. -/
def openWindow (s : EffectHost) (e : NodeId) (reported : Bool) : EffectHost :=
  (s.modify e fun x => { x with running := true }).push (.resetting e reported)

/-- The drop of the run window, then of the guard that reports the end of the run. -/
def closeWindow (s : EffectHost) (rest : List RunFrame) (e : NodeId) (reported unwound : Bool) :
    EffectHost :=
  let s := s.modify e fun x => { x with running := false }
  if reported && s.diagnosticsActive then
    { s with stack := .finishing unwound :: rest, unwinding := false }
  else { s with stack := rest, unwinding := unwound }

/-- `check_divergence`, then the report of the start. -/
def attempt (s : EffectHost) (e : NodeId) : EffectHost :=
  match s.effects e with
  | none => s
  | some x =>
    let counted := x.countRun s.flush.drainEpoch
    let s := { s.modify e fun _ => counted with attempted := e :: s.attempted }
    if maxRunsPerFlush < counted.runsThisDrain then { s with unwinding := true }
    else if s.diagnosticsActive then s.push (.starting e)
    else s.openWindow e false

def skip (s : EffectHost) : EffectHost := if s.diagnosticsActive then s.push .skipping else s

def verified (s : EffectHost) (e : NodeId) (changed : Bool) : EffectHost :=
  match s.effects e with
  | none => s
  | some x => if x.disposed then s else if changed then s.attempt e else s.skip

/-- `RecoverOnUnwind`. -/
def recover (s : EffectHost) (rest : List RunFrame) (e : NodeId) : EffectHost :=
  match s.effects e with
  | none => { s with stack := rest }
  | some x =>
    if x.disposed then { s with stack := rest }
    else
      (({ s with stack := .recovering :: rest, unwinding := false } : EffectHost).modify e
        fun x => { x with state := .dirty }).schedule e

/-- `is_computation_active`. -/
def active (s : EffectHost) (e : NodeId) : Bool :=
  s.stack.any fun frame => frame = .body e true || frame = .body e false

def runScheduledInner (s : EffectHost) (e : NodeId) (x : EffectCell) : EffectHost :=
  let s := s.unlatch e
  if x.disposed then s
  else if x.running || s.active e then s.modify e fun x => { x with rerunAfterCurrent := true }
  else
    let s := s.modify e fun x => { x with state := .clean }
    match x.state with
    | .dirty => s.attempt e
    | .check => s.push (.verifying e)
    | .clean => s.skip

/-- `run_scheduled`, of an effect that has not been freed. -/
def runScheduled (s : EffectHost) (e : NodeId) : EffectHost :=
  match s.effects e with
  | none => s
  | some x =>
    if x.boundary then (s.push (.catching e)).runScheduledInner e x else s.runScheduledInner e x

/-- `EffectRun::run`, whose token is gone from the lane. Outside any flush it opens one, and
runs the effect once the opening has been reported. -/
def ready (s : EffectHost) (e : NodeId) : EffectHost :=
  match s.effects e with
  | none => s
  | some _ =>
    if 0 < s.flush.flushDepth then s.runScheduled e
    else if s.diagnosticsActive then s.beginFlush (some e)
    else (s.beginFlush (some e)).runScheduled e

/-- After the teardown of the previous run, which may have disposed the effect. -/
def afterReset (s : EffectHost) (rest : List RunFrame) (e : NodeId) (reported : Bool) :
    EffectHost :=
  match s.effects e with
  | none => s
  | some x =>
    if x.disposed then s.closeWindow rest e reported false
    else { s with stack := .body e reported :: rest, entered := e :: s.entered }

/-- A run requested while this one was in progress is queued now. -/
def settle (s : EffectHost) (e : NodeId) : EffectHost :=
  match s.effects e with
  | none => s
  | some x =>
    let s := s.modify e fun x => { x with rerunAfterCurrent := false }
    if x.rerunAfterCurrent && !x.disposed then s.schedule e else s

def finish (s : EffectHost) (changed : Bool) : Option EffectHost :=
  match s.stack with
  | .flushOpening :: rest =>
    some { s with flush := s.flush.enterDrain, stack := .draining false :: rest }
  | .draining _ :: rest => some { s with stack := .draining false :: rest }
  | .flushClosing unwound _ :: rest =>
    some { s with flush := s.flush.rearm, stack := rest, unwinding := unwound }
  | .externalOpening none :: rest => some { s with stack := .external :: rest }
  | .externalOpening (some e) :: rest =>
    some (({ s with stack := .external :: rest } : EffectHost).runScheduled e)
  | .external :: rest => some (s.endFlush rest false)
  | .externalClosing unwound _ :: rest | .finishing unwound :: rest =>
    some { s with stack := rest, unwinding := unwound }
  | .invalidating e mark :: rest => some (({ s with stack := rest } : EffectHost).raise e mark)
  | .scheduling e :: rest => some (({ s with stack := rest } : EffectHost).handOver e)
  | .coalescing :: rest | .handing :: rest | .skipping :: rest | .handling :: rest =>
    some { s with stack := rest }
  | .verifying e :: rest => some (({ s with stack := rest } : EffectHost).verified e changed)
  | .starting e :: rest => some (({ s with stack := rest } : EffectHost).openWindow e true)
  | .resetting e reported :: rest => some (s.afterReset rest e reported)
  | .body e reported :: rest =>
    some (({ s with stack := .settling e reported :: rest } : EffectHost).settle e)
  | .disposing e :: rest => some (({ s with stack := .tearing e :: rest } : EffectHost).unlatch e)
  | .tearing e :: rest => some (({ s with stack := rest } : EffectHost).unhook e)
  | .dropping :: rest => some { s with stack := rest, unwinding := true }
  | _ => none

def next (s : EffectHost) : Option EffectHost :=
  match s.stack with
  | .draining false :: rest =>
    match s.flush.popJob with
    | some (.run e, f) => some (({ s with flush := f } : EffectHost).runScheduled e)
    | some (.other, f) => some { s with flush := f, stack := .draining true :: rest }
    | none => some (s.closeDrain rest false)
  | .catching _ :: rest => some { s with stack := rest }
  | .caught :: rest => some { s with stack := .handling :: rest }
  | .recovering :: rest => some { s with stack := rest, unwinding := true }
  | .settling e reported :: rest => some (s.closeWindow rest e reported false)
  | _ => none

/-- A panic leaves the innermost frame. It must not leave a destructor, nor a guard that
the unwinding of another panic runs. -/
def unwind (s : EffectHost) : Option EffectHost :=
  match s.stack with
  | .draining _ :: rest => some (s.closeDrain rest true)
  | .flushClosing unwound shielded :: rest =>
    if shielded then some { s with flush := s.flush.rearm, stack := rest, unwinding := unwound }
    else some { s with stack := rest }
  | .externalOpening _ :: rest | .external :: rest => some (s.endFlush rest true)
  | .externalClosing unwound shielded :: rest =>
    some { s with stack := rest, unwinding := if shielded then unwound else true }
  | .catching e :: rest =>
    some (({ s with stack := .caught :: rest, unwinding := false } : EffectHost).dispose e)
  | .verifying e :: rest => some (s.recover rest e)
  | .resetting e reported :: rest | .body e reported :: rest | .settling e reported :: rest =>
    some (s.closeWindow rest e reported true)
  | .finishing unwound :: rest => if unwound then none else some { s with stack := rest }
  | .tearing e :: rest => some (({ s with stack := rest } : EffectHost).unhook e)
  | .recovering :: _ | .dropping :: _ | [] => none
  | _ :: rest => some { s with stack := rest }

def step (s : EffectHost) : EffectOp → Option EffectHost
  | .effect external boundary => if s.calling then some (s.newEffect external boundary) else none
  | .mark e mark => if s.calling then some (s.deliverMark e mark) else none
  | .schedule => if s.calling then some { s with flush := s.flush.schedule .other } else none
  | .flushNow => if s.calling then some s.flushJobs else none
  | .microtask =>
    if s.calling && 0 < s.flush.microtasks then
      some (({ s with flush := s.flush.takeMicrotask } : EffectHost).flushJobs)
    else none
  | .externalFlush => if s.calling then some (s.beginFlush none) else none
  | .run e =>
    if s.calling && s.lane.contains e then
      some (({ s with lane := s.lane.erase e } : EffectHost).ready e)
    else none
  | .discard e =>
    if s.calling && s.lane.contains e then
      some (({ s with lane := s.lane.erase e } : EffectHost).unlatch e)
    else none
  | .dispose e => if s.calling then some (s.dispose e) else none
  | .release e =>
    if s.calling && ((s.effects e).map fun x => x.disposed).getD false &&
        s.stack.all (fun frame => !frame.holds e) then
      some { s with effects := Function.update s.effects e none }
    else none
  | .diagnostics active =>
    if s.calling then
      some { s with diagnosticsActive := active, openStats := if active then s.openStats else 0 }
    else none
  | .finish changed => if s.calling then s.finish changed else none
  | .next => if s.unwinding then none else s.next
  | .panic => if s.calling then some { s with unwinding := true } else none
  | .catchUnwind => if s.unwinding && s.inCode then some { s with unwinding := false } else none
  | .destroy =>
    if s.unwinding && s.inCode then
      some { s with stack := .dropping :: s.stack, unwinding := false }
    else none
  | .unwind => if s.unwinding then s.unwind else none

end EffectHost

end Adaptite

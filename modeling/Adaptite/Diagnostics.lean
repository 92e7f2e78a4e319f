import Adaptite.Interp
import Adaptite.Spans

set_option autoImplicit false

/-!
# A world with diagnostic subscribers

What the library does for its diagnostics besides its work: the events, the totals of a
flush, and the updates of the world that have a path for a subscribed reactor next to
the dormant one. Subscribers only note what they receive; at any moment at which
consumer code may run they can be installed and dropped, as the plan of the run says.
-/
namespace Adaptite

structure InvalidationCause where
  node : NodeId
  version : ℕ

/-- Every event of the source; those of `DiagnosticEvent` are the ones that are counted. -/
inductive Report where
  | event (e : DiagnosticEvent)
  | nodeCreated (node : NodeId) (kind : NodeKind)
  | nodeDisposed (node : NodeId) (kind : NodeKind) (dependencies observers : ℕ)
  | computedInvalidated (node : NodeId) (kind : NodeKind) (cause : InvalidationCause)
      (level : Mark) (flushEpoch : ℕ) (stateChanged : Bool)
  | effectInvalidated (effect : NodeId) (cause : InvalidationCause) (level : Mark)

/-- The totals of a flush, with those that no event stands for. -/
structure WorkStats where
  stats : FlushStats := {}
  marked : Mark → ℕ := fun _ => 0
  maxPropagationDepth : ℕ := 0
  edgesAdded : ℕ := 0
  edgesRemoved : ℕ := 0
  effectsPending : ℕ := 0

namespace WorkStats

def increment (c : Counter) (s : WorkStats) : WorkStats := { s with stats := s.stats.increment c }

def addEdges (count : ℕ) (s : WorkStats) : WorkStats :=
  { s with edgesAdded := saturatingU32 (s.edgesAdded + count) }

def removeEdges (count : ℕ) (s : WorkStats) : WorkStats :=
  { s with edgesRemoved := saturatingU32 (s.edgesRemoved + count) }

def mark (mark : Mark) (depth : ℕ) (s : WorkStats) : WorkStats :=
  { s with
    marked := Function.update s.marked mark (saturatingU32 (s.marked mark + 1))
    maxPropagationDepth := max s.maxPropagationDepth depth }

end WorkStats

/-- `FlushAccounting`, the innermost open flush first. -/
structure Workload where
  pending : WorkStats := {}
  opened : List WorkStats := []

namespace Workload

def record (a : Workload) (f : WorkStats → WorkStats) : Workload :=
  match a.opened with
  | [] => { a with pending := f a.pending }
  | stats :: rest => { a with opened := f stats :: rest }

def openFlush (a : Workload) (jobsAtStart : ℕ) : Workload where
  pending := {}
  opened :=
    { a.pending with
      stats := { a.pending.stats with jobsAtStart := saturatingU32 jobsAtStart } } :: a.opened

def closeFlush (a : Workload) (jobsAtFinish effectsPending : ℕ) : Option (WorkStats × Workload) :=
  match a.opened with
  | [] => none
  | stats :: rest =>
    some ({ stats with
      stats := { stats.stats with jobsAtFinish := saturatingU32 jobsAtFinish }
      effectsPending := saturatingU32 effectsPending }, { a with opened := rest })

end Workload

inductive Subscribing where
  | subscribe
  | unsubscribe (token : ℕ)

/-- `plan` and `moments` are not in the source: what is installed and dropped at which
moment, and how many moments have passed. -/
structure Diagnostics where
  plan : ℕ → List Subscribing := fun _ => []
  moments : ℕ := 0
  nextDiagnostic : ℕ := 1
  diagnostics : List ℕ := []
  received : ℕ → List Report := fun _ => []
  flushes : Workload := {}
  markDepth : ℕ := 0

namespace Diagnostics

def active (d : Diagnostics) : Bool := !d.diagnostics.isEmpty

/-- `subscribe_diagnostics`, and the drop of a `DiagnosticSubscription`. -/
def change (d : Diagnostics) : Subscribing → Diagnostics
  | .subscribe =>
    { d with
      nextDiagnostic := d.nextDiagnostic + 1
      diagnostics := d.diagnostics ++ [d.nextDiagnostic] }
  | .unsubscribe token =>
    let left := d.diagnostics.filter fun candidate => candidate ≠ token
    { d with diagnostics := left, flushes := if left.isEmpty then {} else d.flushes }

def pass (d : Diagnostics) : Diagnostics :=
  { (d.plan d.moments).foldl change d with moments := d.moments + 1 }

def emit (d : Diagnostics) (r : Report) : Diagnostics :=
  if d.active then
    pass { d with received := fun token =>
      if token ∈ d.diagnostics then r :: d.received token else d.received token }
  else d

def record (d : Diagnostics) (f : WorkStats → WorkStats) : Diagnostics :=
  if d.active then { d with flushes := d.flushes.record f } else d

end Diagnostics

/-- `steps` is not in the source: the worlds after each operation so far, latest first. -/
structure Traced (V : Type) where
  world : World V := {}
  diagnostics : Diagnostics := {}
  steps : List (World V) := []

namespace Traced

variable {V : Type}

def enabled (m : Traced V) : Bool := m.diagnostics.active

def onWorld (f : World V → World V) (m : Traced V) : Traced V := { m with world := f m.world }

def emit (r : Report) (m : Traced V) : Traced V :=
  { m with diagnostics := m.diagnostics.emit r }

def record (f : WorkStats → WorkStats) (m : Traced V) : Traced V :=
  { m with diagnostics := m.diagnostics.record f }

def setMarkDepth (depth : ℕ) (m : Traced V) : Traced V :=
  { m with diagnostics := { m.diagnostics with markDepth := depth } }

/-- `node_origin` finds the node. -/
def hasOrigin (m : Traced V) (n : NodeId) : Bool := n ∈ m.world.graph.nodeMeta

def flushEpoch (m : Traced V) : ℕ := m.world.flush.flushEpoch

def kindOf (x : ComputedInner V) : NodeKind := if x.equals.isSome then .memo else .thunk

/-- An event that is about a node which may be gone. -/
def emitAbout (m : Traced V) (n : NodeId) (r : Report) : Traced V :=
  if m.hasOrigin n then m.emit r else m

/-- `EffectInner::schedule`. -/
def scheduleEffect (m : Traced V) (e : NodeId) : Traced V :=
  match m.world.effects e with
  | none => m
  | some x =>
    let skipped := x.disposed || x.scheduled
    let m := if skipped then m else m.onWorld fun w => w.latch e
    let m := m.record (.increment (if skipped then .effectsCoalesced else .effectsQueued))
    let m := if m.enabled then m.emitAbout e (.event (.effectScheduled e !skipped)) else m
    if skipped then m
    else if x.external then m.onWorld fun w => { w with lane := w.lane ++ [e] }
    else m.onWorld fun w => w.schedule (.effect e)

/-- `EffectInner::mark`. -/
def markEffect (m : Traced V) (e : NodeId) (mark : Mark) (cause : Option InvalidationCause) :
    Traced V :=
  let m :=
    match cause with
    | some cause => m.emitAbout e (.effectInvalidated e cause mark)
    | none => m
  (m.onWorld fun w => w.modifyEffect e fun x => { x with state := x.state.raise mark }).scheduleEffect e

/-- `mark_computed`; `next` marks the dependents of a node that was clean. -/
def markComputed (next : Traced V → NodeId → Traced V) (m : Traced V) (n : NodeId)
    (x : ComputedInner V) (mark : Mark) (cause : Option InvalidationCause) : Traced V :=
  let stateChanged := x.state.rank < mark.toState.rank
  let m :=
    match cause with
    | some cause =>
      m.emitAbout n (.computedInvalidated n (kindOf x) cause mark m.flushEpoch stateChanged)
    | none => m
  if x.state.rank < mark.toState.rank then
    let m := m.onWorld fun w => w.setState n mark.toState
    if x.state = .clean then next m n else m
  else m

/-- `deliver_mark`: whether a live observer received it. -/
def deliverMark (next : Traced V → NodeId → Traced V) (mark : Mark)
    (cause : Option InvalidationCause) (m : Traced V) (d : NodeId) : Traced V × Bool :=
  if d ∈ m.world.graph.observers then
    match m.world.computed d with
    | some x => (markComputed next m d x mark cause, true)
    | none => (m.markEffect d mark cause, true)
  else (m.onWorld fun w => { w with graph := w.graph.unregisterObserver d }, false)

/-- A delivery on the path that keeps the depth and counts. -/
def deliverCounted (next : Traced V → NodeId → Traced V) (mark : Mark)
    (cause : Option InvalidationCause) (depth : ℕ) (m : Traced V) (d : NodeId) : Traced V :=
  let r := deliverMark next mark cause m d
  if r.2 then r.1.record (.mark mark depth) else r.1

def markDependents (env : Enumeration) :
    ℕ → Mark → Option InvalidationCause → Traced V → NodeId → Traced V
  | 0, _, _, m, _ => m
  | levels + 1, mark, cause, m, n =>
    let next := markDependents env levels .check cause
    let dependents := env.order m.world.graph (m.world.graph.observersOf n).keys
    if dependents.isEmpty then m
    else if m.enabled then
      let depth := m.diagnostics.markDepth + 1
      let marked := dependents.foldl (deliverCounted next mark cause depth) (m.setMarkDepth depth)
      marked.setMarkDepth (marked.diagnostics.markDepth - 1)
    else dependents.foldl (fun m d => (deliverMark next mark cause m d).1) m

def trigger (env : Enumeration) (m : Traced V) (n : NodeId) : Traced V :=
  let m := m.onWorld fun w => w.bumpVersion n
  let cause : Option InvalidationCause :=
    if m.enabled && m.hasOrigin n then some ⟨n, m.world.graph.version n⟩ else none
  let m :=
    match cause with
    | some _ => (m.emit (.event (.reactiveWrite n))).record (.increment .rootWrites)
    | none => m
  markDependents env (m.world.graph.nextNode + 1) .dirty cause m n

/-- `report_suppressed_write`. -/
def reportSuppressed (m : Traced V) (n : NodeId) : Traced V :=
  if m.enabled then
    (m.record (.increment .writesSuppressed)).emitAbout n (.event (.writeSuppressed n))
  else m

/-- `report_verification`. -/
def reportVerification (m : Traced V) (n : NodeId) (recomputed : Bool) : Traced V :=
  if m.enabled then
    (m.record (.increment .computedVerified)).emitAbout n (.event (.computedVerified n recomputed))
  else m

/-- `RecomputeSpan::open`. -/
def openSpan (m : Traced V) (n : NodeId) : Traced V :=
  (m.record (.increment .computedRecomputed)).emit
    (.event (.computedRecomputeStarted n m.flushEpoch))

/-- `RecomputeSpan::completed`, and the drop. -/
def completeSpan (epoch : ℕ) (m : Traced V) (n : NodeId) (changed : Bool) : Traced V :=
  (m.record (.increment (if changed then .computedChanged else .computedSuppressed))).emit
    (.event (.computedRecomputeFinished n epoch changed .completed))

def abandonSpan (epoch : ℕ) (m : Traced V) (n : NodeId) : Traced V :=
  m.emit (.event (.computedRecomputeFinished n epoch false .panicked))

/-- `Reactor::dispose`. -/
def disposeNode (env : Enumeration) (m : Traced V) (n : NodeId) : Traced V :=
  let held :=
    if m.enabled then some (m.world.graph.dependencyCount n, m.world.graph.observerCount n) else none
  let removed := m.world.graph.dependencyCount n + m.world.graph.observerCount n
  let kind := m.world.graph.nodeKind n
  let m := (m.onWorld fun w => w.disposeNode env n).record (.removeEdges removed)
  match kind, held with
  | some kind, some (dependencies, observers) => m.emit (.nodeDisposed n kind dependencies observers)
  | _, _ => m

/-- The event of `allocate_node`, after a creation. -/
def created (f : World V → World V) (m : Traced V) : Traced V :=
  let n := m.world.graph.nextNode
  let m := m.onWorld f
  match m.world.graph.nodeKind n with
  | some kind => if m.enabled then m.emit (.nodeCreated n kind) else m
  | none => m

/-- The opening of `run_in_context`. -/
def enter (env : Enumeration) (m : Traced V) (o : NodeId) : Traced V :=
  let removed := m.world.graph.dependencyCount o
  (m.onWorld fun w => w.enter env o).record (.removeEdges removed)

/-- The successful end of `try_observe`. -/
def observed (m : Traced V) (n : NodeId) (r : Graph × Bool) : Traced V :=
  let added := r.1.counters.edgesAdded - m.world.graph.counters.edgesAdded
  (m.onWorld fun w => (w.noteZombie n).observed n r).record (.addEdges added)

def skipRun (m : Traced V) (e : NodeId) : Traced V :=
  let m := if m.enabled then m.emit (.event (.effectRunSkipped e)) else m
  m.record (.increment .effectsSkipped)

/-- The opening of an effect run: whether the guard will report its end. -/
def startRun (m : Traced V) (e : NodeId) : Traced V :=
  let m := if m.enabled then m.emitAbout e (.event (.effectRunStarted e m.flushEpoch)) else m
  m.record (.increment .effectsRun)

def endRun (reported : Bool) (epoch : ℕ) (m : Traced V) (e : NodeId) : Traced V :=
  if reported then m.emit (.event (.effectRunFinished e epoch)) else m

/-- The opening of `EffectInner::dispose`. -/
def closing (m : Traced V) (e : NodeId) : Traced V :=
  let m := m.onWorld fun w => w.modifyEffect e fun x => { x with disposed := true }
  let m := if m.enabled then m.emit (.event (.effectDisposed e)) else m
  (m.record (.increment .effectsDisposed)).onWorld fun w => w.unlatch e

def unhook (env : Enumeration) (m : Traced V) (e : NodeId) : Traced V :=
  (m.onWorld fun w => { w with graph := w.graph.unregisterObserver e }).disposeNode env e

/-- `FlushStarted`, with the totals that belong to the flush. -/
def reportStart (m : Traced V) : Traced V :=
  if m.enabled then
    let jobs := m.world.flush.pendingJobs.length
    let m : Traced V :=
      { m with diagnostics := { m.diagnostics with flushes := m.diagnostics.flushes.openFlush jobs } }
    m.emit (.event (.flushStarted m.flushEpoch jobs))
  else m

/-- `FlushFinished`, unless the subscriber arrived after the flush was opened. -/
def reportFinish (epoch : ℕ) (m : Traced V) : Traced V :=
  if m.enabled then
    let jobs := m.world.flush.pendingJobs.length
    match m.diagnostics.flushes.closeFlush jobs m.world.queuedEffects with
    | none => m
    | some (stats, flushes) =>
      let m : Traced V := { m with diagnostics := { m.diagnostics with flushes } }
      m.emit (.event (.flushFinished epoch jobs stats.stats))
  else m

/-- `begin_flush`. -/
def beginFlush (m : Traced V) : Traced V :=
  let r := m.world.flush.beginFlush
  let m := m.onWorld fun w => { w with flush := r.1 }
  if r.2 then m.reportStart else m

/-- `end_flush`. -/
def endFlush (m : Traced V) : Traced V :=
  let m := m.onWorld fun w => { w with flush := w.flush.leaveDrain }
  if 0 < m.world.flush.flushDepth then m else m.reportFinish m.world.flush.openFlushEpoch

/-- The opening of `flush_jobs`. -/
def enterDrain (m : Traced V) : Traced V :=
  (m.onWorld fun w => { w with flush := w.flush.openDrain }).reportStart.onWorld fun w =>
    { w with flush := w.flush.enterDrain }

/-- The drop of `FlushGuard`. -/
def leaveDrain (epoch : ℕ) (m : Traced V) : Traced V :=
  ((m.onWorld fun w => { w with flush := w.flush.leaveDrain }).reportFinish epoch).onWorld fun w =>
    { w with flush := w.flush.rearm }

/-- The end of an operation of the library, at which other code may run. -/
def pass (m : Traced V) : Traced V :=
  { m with diagnostics := m.diagnostics.pass, steps := m.world :: m.steps }

end Traced

end Adaptite

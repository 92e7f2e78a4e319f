import Adaptite.Base.Brackets
import Adaptite.Base.Runs
import Adaptite.Flush
import Adaptite.Graph

set_option autoImplicit false

/-!
# Diagnostic events and the totals of a flush

`SpanHost` is a thread that uses one reactor with diagnostic subscribers that
only note what they receive. A call is a span that is still on the stack; the
code running in it is not modelled, only the operations of the library that
emit an event or count towards `FlushStats`.
-/
namespace Adaptite

open Brackets

/-- The fields of `FlushStats` that count a kind of event. -/
inductive Counter where
  | rootWrites
  | writesSuppressed
  | effectsQueued
  | effectsCoalesced
  | effectsRun
  | effectsSkipped
  | effectsDisposed
  | computedVerified
  | computedRecomputed
  | computedChanged
  | computedSuppressed
deriving DecidableEq

def u32Max : ℕ := 2 ^ 32 - 1

def saturatingU32 (n : ℕ) : ℕ := min n u32Max

structure FlushStats where
  count : Counter → ℕ := fun _ => 0
  jobsAtStart : ℕ := 0
  jobsAtFinish : ℕ := 0

/-- `saturating_add` of one. -/
def FlushStats.increment (stats : FlushStats) (c : Counter) : FlushStats :=
  { stats with count := Function.update stats.count c (saturatingU32 (stats.count c + 1)) }

/-- `FlushAccounting`, the innermost open flush first. -/
structure Accounting where
  pending : FlushStats := {}
  opened : List FlushStats := []

namespace Accounting

def record (a : Accounting) (c : Counter) : Accounting :=
  match a.opened with
  | [] => { a with pending := a.pending.increment c }
  | stats :: rest => { a with opened := stats.increment c :: rest }

def openFlush (a : Accounting) (jobsAtStart : ℕ) : Accounting where
  pending := {}
  opened := { a.pending with jobsAtStart := saturatingU32 jobsAtStart } :: a.opened

def closeFlush (a : Accounting) (jobsAtFinish : ℕ) : Option (FlushStats × Accounting) :=
  match a.opened with
  | [] => none
  | stats :: rest =>
    some ({ stats with jobsAtFinish := saturatingU32 jobsAtFinish }, { a with opened := rest })

/-- The totals that the next unit of work is added to. -/
def current (a : Accounting) : FlushStats := a.opened.headD a.pending

end Accounting

inductive ComputeOutcome where
  | completed
  | panicked

inductive Span where
  | flush (epoch : ℕ)
  | effectRun (effect : NodeId) (epoch : ℕ)
  | recompute (node : NodeId) (epoch : ℕ)
deriving DecidableEq

inductive DiagnosticEvent where
  | effectScheduled (effect : NodeId) (queued : Bool)
  | effectRunSkipped (effect : NodeId)
  | effectDisposed (effect : NodeId)
  | computedVerified (node : NodeId) (recomputed : Bool)
  | reactiveWrite (node : NodeId)
  | writeSuppressed (node : NodeId)
  | flushStarted (epoch pendingJobs : ℕ)
  | flushFinished (epoch remainingJobs : ℕ) (stats : FlushStats)
  | effectRunStarted (effect : NodeId) (epoch : ℕ)
  | effectRunFinished (effect : NodeId) (epoch : ℕ)
  | computedRecomputeStarted (node : NodeId) (epoch : ℕ)
  | computedRecomputeFinished (node : NodeId) (epoch : ℕ) (changed : Bool)
      (outcome : ComputeOutcome)

namespace DiagnosticEvent

def bracket : DiagnosticEvent → Option (Bracket Span)
  | flushStarted epoch _ => some (.opened (.flush epoch))
  | flushFinished epoch _ _ => some (.closed (.flush epoch))
  | effectRunStarted effect epoch => some (.opened (.effectRun effect epoch))
  | effectRunFinished effect epoch => some (.closed (.effectRun effect epoch))
  | computedRecomputeStarted node epoch => some (.opened (.recompute node epoch))
  | computedRecomputeFinished node epoch _ _ => some (.closed (.recompute node epoch))
  | _ => none

/-- The field of `FlushStats` that an event accounts for. -/
def counter : DiagnosticEvent → Option Counter
  | reactiveWrite _ => some .rootWrites
  | writeSuppressed _ => some .writesSuppressed
  | effectScheduled _ queued => some (if queued then .effectsQueued else .effectsCoalesced)
  | effectRunStarted _ _ => some .effectsRun
  | effectRunSkipped _ => some .effectsSkipped
  | effectDisposed _ => some .effectsDisposed
  | computedVerified _ _ => some .computedVerified
  | computedRecomputeStarted _ _ => some .computedRecomputed
  | computedRecomputeFinished _ _ changed .completed =>
    some (if changed then .computedChanged else .computedSuppressed)
  | _ => none

end DiagnosticEvent

/-- `external` holds the epoch of the flush it opened, if it did not join one.
`running` and `recomputing` remember whether their guard reports. -/
inductive SpanCall where
  | flushing (epoch : ℕ)
  | external (epoch : Option ℕ)
  | running (effect : NodeId) (epoch : ℕ) (enabled : Bool)
  | recomputing (node : NodeId) (epoch : ℕ) (instrumented : Bool)
  | disposing (effect : NodeId)

/-- `origin` tells the nodes whose metadata exists, and `received` what has been
delivered to each subscriber. -/
structure SpanHost (J : Type) where
  flush : Flush J := {}
  flushes : Accounting := {}
  nextDiagnostic : ℕ := 1
  diagnostics : List ℕ := []
  nextNode : NodeId := 1
  origin : NodeId → Bool := fun _ => false
  disposed : NodeId → Bool := fun _ => false
  scheduled : NodeId → Bool := fun _ => false
  calls : List SpanCall := []
  received : ℕ → List DiagnosticEvent := fun _ => []

/-- `orphan` says that the owner adopting a new effect is already disposed.
`finish` and `unwind` leave the innermost call. -/
inductive SpanOp (J : Type) where
  | subscribe
  | unsubscribe (token : ℕ)
  | schedule (job : J)
  | flushNow
  | microtask
  | popJob
  | externalFlush
  | createNode
  | createEffect (orphan : Bool)
  | dispose (node : NodeId)
  | scheduleEffect (effect : NodeId)
  | unlatch (effect : NodeId)
  | startRun (effect : NodeId)
  | skipRun (effect : NodeId)
  | disposeEffect (effect : NodeId)
  | verify (node : NodeId) (changed : Bool)
  | recompute (node : NodeId)
  | write (node : NodeId)
  | suppressWrite (node : NodeId)
  | finish (changed : Bool)
  | unwind

namespace SpanHost

variable {J : Type}

/-- `diagnostics_active`. -/
def active (s : SpanHost J) : Bool := !s.diagnostics.isEmpty

def emit (s : SpanHost J) (event : DiagnosticEvent) : SpanHost J :=
  { s with
    received := fun token =>
      if token ∈ s.diagnostics then s.received token ++ [event] else s.received token }

def emitIf (s : SpanHost J) (p : Bool) (event : DiagnosticEvent) : SpanHost J :=
  if p then s.emit event else s

/-- `record_flush`. -/
def record (s : SpanHost J) (c : Counter) : SpanHost J :=
  if s.active then { s with flushes := s.flushes.record c } else s

def push (s : SpanHost J) (call : SpanCall) : SpanHost J := { s with calls := call :: s.calls }

def subscribe (s : SpanHost J) : SpanHost J :=
  { s with
    nextDiagnostic := s.nextDiagnostic + 1
    diagnostics := s.diagnostics ++ [s.nextDiagnostic] }

def unsubscribe (s : SpanHost J) (token : ℕ) : SpanHost J :=
  let diagnostics := s.diagnostics.filter fun candidate => candidate ≠ token
  { s with
    diagnostics := diagnostics
    flushes := if diagnostics.isEmpty then {} else s.flushes }

/-- The slot and the event of a flush that has just opened. -/
def announce (s : SpanHost J) (epoch : ℕ) : SpanHost J :=
  let jobs := s.flush.pendingJobs.length
  if s.active then
    { s with flushes := s.flushes.openFlush jobs }.emit (.flushStarted epoch jobs)
  else s

/-- No event without a slot: the subscriber was not here when the flush opened. -/
def conclude (s : SpanHost J) (epoch : ℕ) : SpanHost J :=
  let jobs := s.flush.pendingJobs.length
  if s.active then
    match s.flushes.closeFlush jobs with
    | some (stats, flushes) =>
      { s with flushes := flushes }.emit (.flushFinished epoch jobs stats)
    | none => s
  else s

def flushJobs (s : SpanHost J) : SpanHost J :=
  if s.flush.pendingJobs.isEmpty then { s with flush := s.flush.skipDrain }
  else
    let epoch := s.flush.openDrain.flushEpoch
    let s := { s with flush := s.flush.openDrain }.announce epoch
    { s with flush := s.flush.enterDrain }.push (.flushing epoch)

def beginFlush (s : SpanHost J) : SpanHost J :=
  let (flush, outermost) := s.flush.beginFlush
  let s := { s with flush := flush }
  if outermost then (s.announce flush.flushEpoch).push (.external (some flush.flushEpoch))
  else s.push (.external none)

def endFlush (s : SpanHost J) : SpanHost J :=
  let s := { s with flush := s.flush.leaveDrain }
  if 0 < s.flush.flushDepth then s else s.conclude s.flush.openFlushEpoch

/-- The drop of `FlushGuard`. -/
def dropFlushGuard (s : SpanHost J) (epoch : ℕ) : SpanHost J :=
  let s := { s with flush := s.flush.leaveDrain }.conclude epoch
  { s with flush := s.flush.rearm }

/-- `EffectInner::schedule`, up to the hand-over of the run. -/
def scheduleEffect (s : SpanHost J) (effect : NodeId) : SpanHost J :=
  let skipped := s.disposed effect || s.scheduled effect
  let s := if s.disposed effect then s
    else { s with scheduled := Function.update s.scheduled effect true }
  let s := s.record (if skipped then .effectsCoalesced else .effectsQueued)
  s.emitIf (s.origin effect) (.effectScheduled effect !skipped)

def unlatch (s : SpanHost J) (effect : NodeId) : SpanHost J :=
  { s with scheduled := Function.update s.scheduled effect false }

/-- The first statements of `EffectInner::dispose`. -/
def retireEffect (s : SpanHost J) (effect : NodeId) : SpanHost J :=
  let s := { s with disposed := Function.update s.disposed effect true }
  ((s.emit (.effectDisposed effect)).record .effectsDisposed).unlatch effect

/-- `EffectInner::dispose`, up to the teardown of the owner. -/
def disposeEffect (s : SpanHost J) (effect : NodeId) : SpanHost J :=
  if s.disposed effect then s else (s.retireEffect effect).push (.disposing effect)

def setOrigin (s : SpanHost J) (node : NodeId) (known : Bool) : SpanHost J :=
  { s with origin := Function.update s.origin node known }

def allocateNode (s : SpanHost J) : SpanHost J :=
  { s.setOrigin s.nextNode true with nextNode := s.nextNode + 1 }

/-- `EffectHandle::new`: an owner that is already disposed disposes the effect at
once, before its first schedule. -/
def createEffect (s : SpanHost J) (orphan : Bool) : SpanHost J :=
  let effect := s.nextNode
  let s := { s.allocateNode with
    disposed := Function.update s.disposed effect false
    scheduled := Function.update s.scheduled effect false }
  let s := if orphan then (s.retireEffect effect).setOrigin effect false else s
  s.scheduleEffect effect

/-- `run_scheduled_inner`, from the count of the run to the opening of its window. -/
def startRun (s : SpanHost J) (effect : NodeId) : SpanHost J :=
  let epoch := s.flush.flushEpoch
  let enabled := s.active
  let s := s.emitIf (s.origin effect) (.effectRunStarted effect epoch)
  (s.record .effectsRun).push (.running effect epoch enabled)

/-- `report_verification`, behind the check at its call site. -/
def reportVerification (s : SpanHost J) (node : NodeId) (changed : Bool) : SpanHost J :=
  (s.record .computedVerified).emitIf (s.origin node) (.computedVerified node changed)

/-- The opening of a recomputation: a `RecomputeSpan`, or the dormant path. -/
def recompute (s : SpanHost J) (node : NodeId) : SpanHost J :=
  let epoch := s.flush.flushEpoch
  if s.active then
    ((s.record .computedRecomputed).emit (.computedRecomputeStarted node epoch)).push
      (.recomputing node epoch true)
  else s.push (.recomputing node epoch false)

/-- The event of `trigger`, which knows a cause when somebody listens. -/
def write (s : SpanHost J) (node : NodeId) : SpanHost J :=
  if s.active && s.origin node then (s.emit (.reactiveWrite node)).record .rootWrites else s

def reportSuppressedWrite (s : SpanHost J) (node : NodeId) : SpanHost J :=
  (s.record .writesSuppressed).emitIf (s.origin node) (.writeSuppressed node)

/-- `RecomputeSpan::completed`, if the computation returned, and its drop. -/
def closeRecompute (s : SpanHost J) (node : NodeId) (epoch : ℕ) (outcome : Option Bool) :
    SpanHost J :=
  match outcome with
  | some changed =>
    (s.record (if changed then .computedChanged else .computedSuppressed)).emit
      (.computedRecomputeFinished node epoch changed .completed)
  | none => s.emit (.computedRecomputeFinished node epoch false .panicked)

/-- The innermost call is left, by a panic or with the outcome of a recomputation. -/
def leave (s : SpanHost J) (outcome : Option Bool) : Option (SpanHost J) :=
  match s.calls with
  | [] => none
  | call :: rest =>
    let s := { s with calls := rest }
    match call with
    | .flushing epoch => some (s.dropFlushGuard epoch)
    | .external _ => some s.endFlush
    | .running effect epoch enabled => some (s.emitIf enabled (.effectRunFinished effect epoch))
    | .recomputing node epoch instrumented =>
      some (if instrumented then s.closeRecompute node epoch outcome else s)
    | .disposing effect => some (s.setOrigin effect false)

def popJob (s : SpanHost J) : Option (SpanHost J) :=
  match s.calls with
  | .flushing _ :: _ => s.flush.popJob.map fun p => { s with flush := p.2 }
  | _ => none

/-- The loop of `flush_jobs` returns with an empty queue only. -/
def canFinish (s : SpanHost J) : Bool :=
  match s.calls with
  | .flushing _ :: _ => s.flush.pendingJobs.isEmpty
  | _ => true

def step (s : SpanHost J) : SpanOp J → Option (SpanHost J)
  | .subscribe => some s.subscribe
  | .unsubscribe token => some (s.unsubscribe token)
  | .schedule job => some { s with flush := s.flush.schedule job }
  | .flushNow => some s.flushJobs
  | .microtask =>
    if 0 < s.flush.microtasks then some { s with flush := s.flush.takeMicrotask }.flushJobs
    else none
  | .popJob => s.popJob
  | .externalFlush => some s.beginFlush
  | .createNode => some s.allocateNode
  | .createEffect orphan =>
    some (s.createEffect orphan)
  | .dispose node => some (s.setOrigin node false)
  | .scheduleEffect effect => some (s.scheduleEffect effect)
  | .unlatch effect => some (s.unlatch effect)
  | .startRun effect => if s.disposed effect then none else some (s.startRun effect)
  | .skipRun effect =>
    if s.disposed effect then none
    else some ((s.emit (.effectRunSkipped effect)).record .effectsSkipped)
  | .disposeEffect effect => some (s.disposeEffect effect)
  | .verify node changed => some (s.reportVerification node changed)
  | .recompute node => some (s.recompute node)
  | .write node => some (s.write node)
  | .suppressWrite node => some (s.reportSuppressedWrite node)
  | .finish changed => if s.canFinish then s.leave (some changed) else none
  | .unwind => s.leave none

end SpanHost

end Adaptite

import Mathlib.Data.Nat.Notation
import Mathlib.Tactic.Common

set_option autoImplicit false

/-!
# The job queue of a reactor

The queue, the flag that says a microtask flush has been requested, and the
bookkeeping around a drain. `accepted` and `started` are not in the source:
they record the jobs handed to `schedule` and taken by a drain, in order.
-/
namespace Adaptite

structure Flush (J : Type) where
  pendingJobs : List J := []
  flushScheduled : Bool := false
  microtasks : ℕ := 0
  flushEpoch : ℕ := 0
  openFlushEpoch : ℕ := 0
  drainEpoch : ℕ := 0
  flushDepth : ℕ := 0
  flushes : ℕ := 0
  accepted : List J := []
  started : List J := []

namespace Flush

variable {J : Type}

def ensureFlushScheduled (f : Flush J) : Flush J :=
  if f.flushScheduled then f
  else { f with flushScheduled := true, microtasks := f.microtasks + 1 }

def schedule (f : Flush J) (job : J) : Flush J :=
  ensureFlushScheduled
    { f with pendingJobs := f.pendingJobs ++ [job], accepted := f.accepted ++ [job] }

/-- `flush_jobs` finds the queue empty. -/
def skipDrain (f : Flush J) : Flush J := { f with flushScheduled := false }

/-- The opening of `flush_jobs`, up to the `FlushStarted` event. -/
def openDrain (f : Flush J) : Flush J :=
  { f with
    drainEpoch := if f.flushDepth = 0 then f.drainEpoch + 1 else f.drainEpoch
    flushEpoch := f.flushEpoch + 1
    flushes := f.flushes + 1 }

def enterDrain (f : Flush J) : Flush J := { f with flushDepth := f.flushDepth + 1 }

def popJob (f : Flush J) : Option (J × Flush J) :=
  match f.pendingJobs with
  | [] => none
  | job :: rest => some (job, { f with pendingJobs := rest, started := f.started ++ [job] })

/-- The first statement of the drop of `FlushGuard`, and of `end_flush`. -/
def leaveDrain (f : Flush J) : Flush J := { f with flushDepth := f.flushDepth - 1 }

/-- The last statements of the drop of `FlushGuard`. -/
def rearm (f : Flush J) : Flush J :=
  if f.pendingJobs.isEmpty then { f with flushScheduled := false }
  else ensureFlushScheduled { f with flushScheduled := false }

/-- `begin_flush`; the flag says that this flush is the outermost one. -/
def beginFlush (f : Flush J) : Flush J × Bool :=
  if 0 < f.flushDepth then (f.enterDrain, false)
  else
    ({ f.enterDrain with
        drainEpoch := f.drainEpoch + 1
        flushEpoch := f.flushEpoch + 1
        openFlushEpoch := f.flushEpoch + 1
        flushes := f.flushes + 1 }, true)

def takeMicrotask (f : Flush J) : Flush J := { f with microtasks := f.microtasks - 1 }

def InOrder (f : Flush J) : Prop := f.accepted = f.started ++ f.pendingJobs

/-- Waiting jobs have requested a microtask flush, and a request is backed by a
queued microtask unless a drain is still going to answer it. -/
structure Armed (f : Flush J) (draining : Prop) : Prop where
  requested : f.pendingJobs ≠ [] → f.flushScheduled = true
  backed : f.flushScheduled = true → 0 < f.microtasks ∨ draining

variable {f : Flush J} {p q : Prop}

theorem Armed.mono (h : f.Armed p) (hpq : p → q) : f.Armed q :=
  ⟨h.requested, fun hf => (h.backed hf).imp id hpq⟩

theorem Armed.same {f' : Flush J} (h : f.Armed p) (h1 : f'.pendingJobs = f.pendingJobs)
    (h2 : f'.flushScheduled = f.flushScheduled) (h3 : f'.microtasks = f.microtasks) :
    f'.Armed p := by
  refine ⟨?_, ?_⟩
  · rw [h1, h2]; exact h.requested
  · rw [h2, h3]; exact h.backed

theorem ensureFlushScheduled_requested (f : Flush J) :
    f.ensureFlushScheduled.flushScheduled = true := by
  unfold ensureFlushScheduled
  by_cases hf : f.flushScheduled = true <;> simp [hf]

theorem Armed.schedule (h : f.Armed p) (job : J) : (f.schedule job).Armed p := by
  refine ⟨fun _ => ensureFlushScheduled_requested _, fun _ => ?_⟩
  unfold Flush.schedule ensureFlushScheduled
  by_cases hf : f.flushScheduled = true
  · simpa [hf] using h.backed hf
  · simp [hf]

theorem Armed.skipDrain (h : f.pendingJobs = []) : f.skipDrain.Armed p :=
  ⟨fun hp => absurd h hp, fun hf => by simp [Flush.skipDrain] at hf⟩

theorem Armed.popJob {job : J} {f' : Flush J} (h : f.Armed p)
    (hp : f.popJob = some (job, f')) : f'.Armed p := by
  unfold Flush.popJob at hp
  cases hl : f.pendingJobs with
  | nil => simp [hl] at hp
  | cons j rest =>
    simp only [hl, Option.some.injEq, Prod.mk.injEq] at hp
    obtain ⟨_, rfl⟩ := hp
    exact ⟨fun _ => h.requested (by simp [hl]), h.backed⟩

/-- The guard leaves a queue that needs nobody else, whatever it found. -/
theorem armed_rearm (f : Flush J) : f.rearm.Armed p := by
  unfold rearm
  by_cases hl : f.pendingJobs = []
  · exact ⟨by simp [hl], by simp [hl]⟩
  · have : f.pendingJobs.isEmpty = false := by simp [hl]
    refine ⟨fun _ => ?_, fun _ => ?_⟩ <;> simp [this, ensureFlushScheduled]

theorem ensureFlushScheduled_queue (f : Flush J) :
    f.ensureFlushScheduled.pendingJobs = f.pendingJobs ∧
      f.ensureFlushScheduled.accepted = f.accepted ∧
      f.ensureFlushScheduled.started = f.started := by
  unfold ensureFlushScheduled
  split <;> exact ⟨rfl, rfl, rfl⟩

theorem InOrder.schedule (h : f.InOrder) (job : J) : (f.schedule job).InOrder := by
  obtain ⟨h1, h2, h3⟩ := ensureFlushScheduled_queue
    { f with pendingJobs := f.pendingJobs ++ [job], accepted := f.accepted ++ [job] }
  unfold InOrder Flush.schedule
  rw [h1, h2, h3, ← List.append_assoc, ← h]

theorem InOrder.popJob {job : J} {f' : Flush J} (h : f.InOrder)
    (hp : f.popJob = some (job, f')) : f'.InOrder := by
  unfold Flush.popJob at hp
  cases hl : f.pendingJobs with
  | nil => simp [hl] at hp
  | cons j rest =>
    simp only [hl, Option.some.injEq, Prod.mk.injEq] at hp
    obtain ⟨rfl, rfl⟩ := hp
    unfold InOrder at h ⊢
    rw [h, hl]
    simp

theorem InOrder.rearm (h : f.InOrder) : f.rearm.InOrder := by
  unfold Flush.rearm
  split
  · exact h
  · obtain ⟨h1, h2, h3⟩ := ensureFlushScheduled_queue { f with flushScheduled := false }
    unfold InOrder
    rw [h1, h2, h3]
    exact h

end Flush

end Adaptite

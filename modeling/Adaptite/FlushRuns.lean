import Adaptite.Base.Runs
import Adaptite.Flush

set_option autoImplicit false

/-!
# Flushes, nested and unwinding

`FlushHost` is a thread that uses one reactor: host code, jobs and diagnostic
subscribers call into the queue at any point and panic at any point. A frame is
one call of the library that is still on the stack; the code running in it is
not modelled, only the operations it performs.
-/
namespace Adaptite

inductive FlushEvent where
  | flushStarted (epoch pendingJobs : ℕ)
  | flushFinished (epoch remainingJobs : ℕ)

/-- `left` counts the subscribers still to be called, the running one included.
A closing frame remembers whether its guard is dropped by unwinding, and whether
the thread was panicking when the event was emitted from the drop. -/
inductive Frame where
  | opening (epoch left : ℕ)
  | draining (epoch : ℕ) (busy : Bool)
  | closing (left : ℕ) (unwound shielded : Bool)
  | externalOpening (left : ℕ)
  | external
  | externalClosing (left : ℕ) (unwound shielded : Bool)
  | dropping

/-- An activation of `flush_jobs`. -/
def Frame.isFlush : Frame → Bool
  | opening _ _ | draining _ _ | closing _ _ _ => true
  | _ => false

/-- A panic waits below this frame: `std::thread::panicking`. -/
def Frame.isUnwinding : Frame → Bool
  | dropping => true
  | closing _ unwound _ | externalClosing _ unwound _ => unwound
  | _ => false

structure FlushHost (J : Type) where
  flush : Flush J := {}
  subscribers : ℕ := 0
  openStats : ℕ := 0
  stack : List Frame := []
  unwinding : Bool := false
  emitted : List FlushEvent := []

/-- The first group is called by running code; `destroy` starts a destructor
that the unwinding runs, `unwind` leaves the innermost frame. -/
inductive FlushOp (J : Type) where
  | schedule (job : J)
  | flushNow
  | microtask
  | externalFlush
  | subscribe
  | unsubscribe
  | finish
  | next
  | panic
  | catchUnwind
  | destroy
  | unwind

namespace FlushHost

variable {J : Type}

def calling (s : FlushHost J) : Bool :=
  !s.unwinding && match s.stack with
    | .draining _ busy :: _ => busy
    | _ => true

/-- No activation of `flush_jobs` is on the stack. -/
def idle (s : FlushHost J) : Bool := s.stack.all fun frame => !frame.isFlush

def flushJobs (s : FlushHost J) : FlushHost J :=
  if s.flush.pendingJobs.isEmpty then { s with flush := s.flush.skipDrain }
  else
    let f := s.flush.openDrain
    if s.subscribers = 0 then
      { s with flush := f.enterDrain, stack := .draining f.flushEpoch false :: s.stack }
    else
      { s with
        flush := f
        openStats := s.openStats + 1
        emitted := s.emitted ++ [.flushStarted f.flushEpoch f.pendingJobs.length]
        stack := .opening f.flushEpoch s.subscribers :: s.stack }

/-- The drop of `FlushGuard`, up to the delivery of `FlushFinished`. -/
def closeDrain (s : FlushHost J) (rest : List Frame) (epoch : ℕ) (unwound : Bool) : FlushHost J :=
  let f := s.flush.leaveDrain
  if s.subscribers = 0 || s.openStats = 0 then
    { s with flush := f.rearm, stack := rest, unwinding := unwound }
  else
    { s with
      flush := f
      openStats := s.openStats - 1
      emitted := s.emitted ++ [.flushFinished epoch f.pendingJobs.length]
      stack := .closing s.subscribers unwound (unwound || rest.any Frame.isUnwinding) :: rest
      unwinding := false }

def beginFlush (s : FlushHost J) : FlushHost J :=
  let (f, outermost) := s.flush.beginFlush
  if !outermost || s.subscribers = 0 then { s with flush := f, stack := .external :: s.stack }
  else
    { s with
      flush := f
      openStats := s.openStats + 1
      emitted := s.emitted ++ [.flushStarted f.flushEpoch f.pendingJobs.length]
      stack := .externalOpening s.subscribers :: s.stack }

def endFlush (s : FlushHost J) (rest : List Frame) (unwound : Bool) : FlushHost J :=
  let f := s.flush.leaveDrain
  if 0 < f.flushDepth || s.subscribers = 0 || s.openStats = 0 then
    { s with flush := f, stack := rest, unwinding := unwound }
  else
    { s with
      flush := f
      openStats := s.openStats - 1
      emitted := s.emitted ++ [.flushFinished f.openFlushEpoch f.pendingJobs.length]
      stack := .externalClosing s.subscribers unwound (unwound || rest.any Frame.isUnwinding) :: rest
      unwinding := false }

def finish (s : FlushHost J) : Option (FlushHost J) :=
  match s.stack with
  | .opening epoch left :: rest =>
    if 1 < left then some { s with stack := .opening epoch (left - 1) :: rest }
    else some { s with flush := s.flush.enterDrain, stack := .draining epoch false :: rest }
  | .draining epoch _ :: rest => some { s with stack := .draining epoch false :: rest }
  | .closing left unwound shielded :: rest =>
    if 1 < left then some { s with stack := .closing (left - 1) unwound shielded :: rest }
    else some { s with flush := s.flush.rearm, stack := rest, unwinding := unwound }
  | .externalOpening left :: rest =>
    if 1 < left then some { s with stack := .externalOpening (left - 1) :: rest }
    else some { s with stack := .external :: rest }
  | .external :: rest => some (s.endFlush rest false)
  | .externalClosing left unwound shielded :: rest =>
    if 1 < left then some { s with stack := .externalClosing (left - 1) unwound shielded :: rest }
    else some { s with stack := rest, unwinding := unwound }
  | .dropping :: rest => some { s with stack := rest, unwinding := true }
  | [] => none

/-- A panic leaves the innermost frame. A destructor must not be left by one. -/
def unwind (s : FlushHost J) : Option (FlushHost J) :=
  match s.stack with
  | .opening _ _ :: rest => some { s with stack := rest }
  | .draining epoch _ :: rest => some (s.closeDrain rest epoch true)
  | .closing _ unwound shielded :: rest =>
    if shielded then some { s with flush := s.flush.rearm, stack := rest, unwinding := unwound }
    else some { s with stack := rest }
  | .externalOpening _ :: rest | .external :: rest => some (s.endFlush rest true)
  | .externalClosing _ unwound shielded :: rest =>
    some { s with stack := rest, unwinding := if shielded then unwound else true }
  | .dropping :: _ | [] => none

def next (s : FlushHost J) : Option (FlushHost J) :=
  match s.stack with
  | .draining epoch false :: rest =>
    match s.flush.popJob with
    | some (_, f) => some { s with flush := f, stack := .draining epoch true :: rest }
    | none => some (s.closeDrain rest epoch false)
  | _ => none

def step (s : FlushHost J) : FlushOp J → Option (FlushHost J)
  | .schedule job => if s.calling then some { s with flush := s.flush.schedule job } else none
  | .flushNow => if s.calling then some s.flushJobs else none
  | .microtask =>
    if s.calling && 0 < s.flush.microtasks then
      some ({ s with flush := s.flush.takeMicrotask } : FlushHost J).flushJobs
    else none
  | .externalFlush => if s.calling then some s.beginFlush else none
  | .subscribe => if s.calling then some { s with subscribers := s.subscribers + 1 } else none
  | .unsubscribe =>
    if s.calling then
      some { s with
        subscribers := s.subscribers - 1
        openStats := if s.subscribers - 1 = 0 then 0 else s.openStats }
    else none
  | .finish => if s.calling then s.finish else none
  | .next => if s.unwinding then none else s.next
  | .panic => if s.calling then some { s with unwinding := true } else none
  | .catchUnwind => if s.unwinding then some { s with unwinding := false } else none
  | .destroy =>
    if s.unwinding then some { s with stack := .dropping :: s.stack, unwinding := false } else none
  | .unwind => if s.unwinding then s.unwind else none

/-- A subscriber's panic is about to leave `flush_jobs` past its guard, from the
`FlushStarted` delivery or from the `FlushFinished` delivery of a drop that is
not unwinding, while the request of a flush stands, no microtask is queued to
answer it and no other `flush_jobs` is on the stack. -/
def strands (s : FlushHost J) : FlushOp J → Bool
  | .unwind =>
    match s.stack with
    | .opening _ _ :: rest | .closing _ _ false :: rest =>
      s.flush.flushScheduled && s.flush.microtasks = 0 && rest.all fun frame => !frame.isFlush
    | _ => false
  | _ => false

/-- The wakeup is there in a state without a drain. -/
def Woken (s : FlushHost J) : Prop :=
  s.idle = true → s.flush.pendingJobs ≠ [] → 0 < s.flush.microtasks

def Draining (s : FlushHost J) : Prop := ∃ frame ∈ s.stack, frame.isFlush = true

def Armed (s : FlushHost J) : Prop := s.flush.Armed s.Draining

theorem idle_iff (s : FlushHost J) : s.idle = true ↔ ¬ s.Draining := by
  unfold idle Draining
  simp

theorem Armed.woken {s : FlushHost J} (h : s.Armed) : s.Woken := by
  intro hidle hjobs
  rcases h.backed (h.requested hjobs) with hm | hd
  · exact hm
  · exact absurd hd (s.idle_iff.mp hidle)

section Steps

variable {s t : FlushHost J}

theorem armed_flushJobs (h : s.flush.pendingJobs ≠ [] → s.flush.flushScheduled = true) :
    s.flushJobs.Armed := by
  unfold flushJobs
  by_cases hl : s.flush.pendingJobs = []
  · simp only [hl, List.isEmpty_nil, ↓reduceIte]
    exact Flush.Armed.skipDrain hl
  · have : s.flush.pendingJobs.isEmpty = false := by simp [hl]
    simp only [this, Bool.false_eq_true, ↓reduceIte]
    split
    · exact ⟨h, fun _ => Or.inr ⟨_, List.mem_cons_self, rfl⟩⟩
    · exact ⟨h, fun _ => Or.inr ⟨_, List.mem_cons_self, rfl⟩⟩

/-- Whether or not an event is delivered, the guard is still going to re-arm or has done so. -/
theorem Armed.closeDrain (h : s.Armed) (rest : List Frame) (epoch : ℕ) (unwound : Bool) :
    (s.closeDrain rest epoch unwound).Armed := by
  unfold FlushHost.closeDrain
  dsimp only
  split
  · exact Flush.armed_rearm _
  · exact ⟨h.requested, fun _ => Or.inr ⟨_, List.mem_cons_self, rfl⟩⟩

theorem draining_cons {frame : Frame} {rest : List Frame} (hf : frame.isFlush = false)
    (h : ∃ f ∈ frame :: rest, f.isFlush = true) : ∃ f ∈ rest, f.isFlush = true := by
  obtain ⟨f, hm, hff⟩ := h
  rcases List.mem_cons.mp hm with rfl | hm
  · rw [hf] at hff; cases hff
  · exact ⟨f, hm, hff⟩

theorem Armed.endFlush (h : s.Armed) {frame : Frame} {rest : List Frame}
    (hs : s.stack = frame :: rest) (hf : frame.isFlush = false) (unwound : Bool) :
    (s.endFlush rest unwound).Armed := by
  have hrest : s.flush.Armed (∃ f ∈ rest, f.isFlush = true) := by
    refine Flush.Armed.mono h fun hd => ?_
    unfold Draining at hd
    rw [hs] at hd
    exact draining_cons hf hd
  unfold FlushHost.endFlush
  dsimp only
  split
  · exact Flush.Armed.same hrest rfl rfl rfl
  · refine Flush.Armed.same (hrest.mono ?_) rfl rfl rfl
    rintro ⟨f, hm, hff⟩
    exact ⟨f, List.mem_cons_of_mem _ hm, hff⟩

theorem Armed.beginFlush (h : s.Armed) : s.beginFlush.Armed := by
  have hqueue : s.flush.beginFlush.1.pendingJobs = s.flush.pendingJobs ∧
      s.flush.beginFlush.1.flushScheduled = s.flush.flushScheduled ∧
      s.flush.beginFlush.1.microtasks = s.flush.microtasks := by
    unfold Flush.beginFlush
    split <;> exact ⟨rfl, rfl, rfl⟩
  obtain ⟨h1, h2, h3⟩ := hqueue
  have hpush : ∀ frame : Frame, s.flush.beginFlush.1.Armed
      (∃ f ∈ frame :: s.stack, f.isFlush = true) := by
    intro frame
    refine Flush.Armed.same (Flush.Armed.mono h ?_) h1 h2 h3
    rintro ⟨f, hm, hff⟩
    exact ⟨f, List.mem_cons_of_mem _ hm, hff⟩
  unfold FlushHost.beginFlush
  dsimp only
  split
  · exact hpush _
  · exact hpush _

/-- Replacing the innermost frame by one that still counts keeps what is owed. -/
theorem Armed.swap (h : s.Armed) {old new : Frame} {rest : List Frame} (hs : s.stack = old :: rest)
    (hn : old.isFlush = true → new.isFlush = true) :
    s.flush.Armed (∃ f ∈ new :: rest, f.isFlush = true) := by
  refine Flush.Armed.mono h ?_
  rintro ⟨f, hm, hf⟩
  rw [hs] at hm
  rcases List.mem_cons.mp hm with rfl | hm
  · exact ⟨new, List.mem_cons_self, hn hf⟩
  · exact ⟨f, List.mem_cons_of_mem _ hm, hf⟩

theorem Armed.pop (h : s.Armed) {frame : Frame} {rest : List Frame} (hs : s.stack = frame :: rest)
    (hf : frame.isFlush = false) : s.flush.Armed (∃ f ∈ rest, f.isFlush = true) := by
  refine Flush.Armed.mono h fun hd => draining_cons hf ?_
  rw [← hs]
  exact hd

theorem Armed.finish (h : s.Armed) (ht : s.finish = some t) : t.Armed := by
  unfold FlushHost.finish at ht
  split at ht
  · rename_i hs
    split at ht
    · cases ht; exact h.swap hs fun _ => rfl
    · cases ht; exact Flush.Armed.same (h.swap hs fun _ => rfl) rfl rfl rfl
  · rename_i hs
    cases ht; exact h.swap hs fun _ => rfl
  · rename_i hs
    split at ht
    · cases ht; exact h.swap hs fun _ => rfl
    · cases ht; exact Flush.armed_rearm _
  · rename_i hs
    split at ht
    · cases ht; exact h.swap hs fun hf => hf
    · cases ht; exact h.swap hs fun hf => hf
  · rename_i hs
    cases ht; exact h.endFlush hs rfl false
  · rename_i hs
    split at ht
    · cases ht; exact h.swap hs fun hf => hf
    · cases ht; exact h.pop hs rfl
  · rename_i hs
    cases ht; exact h.pop hs rfl
  · cases ht

theorem Armed.next (h : s.Armed) (ht : s.next = some t) : t.Armed := by
  unfold FlushHost.next at ht
  split at ht
  · rename_i epoch rest hs
    cases hp : s.flush.popJob with
    | none => simp only [hp] at ht; cases ht; exact h.closeDrain _ _ _
    | some r =>
      simp only [hp] at ht
      cases ht
      exact Flush.Armed.popJob (h.swap hs fun _ => rfl) hp
  · cases ht

/-- Leaving a drain before its guard is the step that has to be watched. -/
theorem Armed.escape (h : s.Armed) {rest : List Frame}
    (ok : (s.flush.flushScheduled && s.flush.microtasks = 0 &&
      rest.all fun frame => !frame.isFlush) = false) :
    s.flush.Armed (∃ f ∈ rest, f.isFlush = true) := by
  refine ⟨h.requested, fun hf => ?_⟩
  by_cases hm : s.flush.microtasks = 0
  · right
    simpa [hf, hm] using ok
  · exact Or.inl (Nat.pos_of_ne_zero hm)

theorem Armed.unwind (h : s.Armed) (ok : s.strands .unwind = false) (ht : s.unwind = some t) :
    t.Armed := by
  unfold FlushHost.unwind at ht
  split at ht
  · rename_i hs
    cases ht
    simp only [strands, hs] at ok
    exact h.escape ok
  · cases ht; exact h.closeDrain _ _ _
  · rename_i _ shielded _ hs
    cases shielded with
    | true => simp only [↓reduceIte] at ht; cases ht; exact Flush.armed_rearm _
    | false =>
      simp only [Bool.false_eq_true, ↓reduceIte] at ht
      cases ht
      simp only [strands, hs] at ok
      exact h.escape ok
  · rename_i hs
    cases ht; exact h.endFlush hs rfl true
  · rename_i hs
    cases ht; exact h.endFlush hs rfl true
  · rename_i hs
    cases ht; exact h.pop hs rfl
  · cases ht
  · cases ht

theorem Armed.step (h : s.Armed) (op : FlushOp J) (ok : s.strands op = false)
    (ht : s.step op = some t) : t.Armed := by
  cases op <;> simp only [FlushHost.step] at ht <;> split at ht <;> try cases ht
  case schedule => exact Flush.Armed.schedule h _
  case flushNow => exact armed_flushJobs h.requested
  case microtask => exact armed_flushJobs h.requested
  case externalFlush => exact h.beginFlush
  case subscribe => exact h
  case unsubscribe => exact h
  case finish => exact h.finish ht
  case next => exact h.next ht
  case panic => exact h
  case catchUnwind => exact h
  case destroy =>
    refine Flush.Armed.mono h ?_
    rintro ⟨f, hm, hf⟩
    exact ⟨f, List.mem_cons_of_mem _ hm, hf⟩
  case unwind => exact h.unwind ok ht

theorem inOrder_flushJobs (h : s.flush.InOrder) : s.flushJobs.flush.InOrder := by
  unfold flushJobs
  split
  · exact h
  · dsimp only
    split <;> exact h

theorem inOrder_closeDrain (h : s.flush.InOrder) (rest : List Frame) (epoch : ℕ)
    (unwound : Bool) : (s.closeDrain rest epoch unwound).flush.InOrder := by
  unfold closeDrain
  dsimp only
  split
  · exact Flush.InOrder.rearm (f := s.flush.leaveDrain) h
  · exact h

theorem inOrder_beginFlush (h : s.flush.InOrder) : s.beginFlush.flush.InOrder := by
  have hb : s.flush.beginFlush.1.InOrder := by
    unfold Flush.beginFlush
    split <;> exact h
  unfold beginFlush
  dsimp only
  split <;> exact hb

theorem inOrder_endFlush (h : s.flush.InOrder) (rest : List Frame) (unwound : Bool) :
    (s.endFlush rest unwound).flush.InOrder := by
  unfold endFlush
  dsimp only
  split <;> exact h

theorem inOrder_finish (h : s.flush.InOrder) (ht : s.finish = some t) : t.flush.InOrder := by
  unfold finish at ht
  split at ht <;> try split at ht
  all_goals cases ht
  all_goals first
    | exact h
    | exact h.rearm
    | exact inOrder_endFlush h _ _

theorem inOrder_unwind (h : s.flush.InOrder) (ht : s.unwind = some t) : t.flush.InOrder := by
  unfold unwind at ht
  split at ht <;> try split at ht
  all_goals cases ht
  all_goals first
    | exact h
    | exact h.rearm
    | exact inOrder_closeDrain h _ _ _
    | exact inOrder_endFlush h _ _

theorem inOrder_step (h : s.flush.InOrder) (op : FlushOp J) (ht : s.step op = some t) :
    t.flush.InOrder := by
  cases op <;> simp only [step] at ht <;> split at ht <;> try cases ht
  case schedule => exact h.schedule _
  case flushNow => exact inOrder_flushJobs h
  case microtask => exact inOrder_flushJobs h
  case externalFlush => exact inOrder_beginFlush h
  case subscribe => exact h
  case unsubscribe => exact h
  case finish => exact inOrder_finish h ht
  case next =>
    unfold next at ht
    split at ht
    · cases hp : s.flush.popJob with
      | none => simp only [hp] at ht; cases ht; exact inOrder_closeDrain h _ _ _
      | some r => simp only [hp] at ht; cases ht; exact h.popJob hp
    · cases ht
  case panic => exact h
  case catchUnwind => exact h
  case destroy => exact h
  case unwind => exact inOrder_unwind h ht

/-- After a stranding step the next job waits for a flush that never comes. -/
theorem strands_loses {op : FlushOp J} (hs : s.strands op = true) (ht : s.step op = some t)
    (job : J) : ∃ u, Runs.run step t [.catchUnwind, .schedule job] = some u ∧ ¬ u.Woken := by
  have left : ∃ rest, t = { s with stack := rest } ∧ s.unwinding = true ∧
      s.flush.flushScheduled = true ∧ s.flush.microtasks = 0 ∧
      rest.all (fun frame => !frame.isFlush) = true := by
    cases op with
    | unwind =>
      simp only [step] at ht
      split at ht
      · rename_i hu
        unfold unwind at ht
        simp only [strands] at hs
        split at hs
        · rename_i rest hst
          simp only [hst] at ht
          cases ht
          simp only [Bool.and_eq_true, decide_eq_true_eq] at hs
          exact ⟨rest, rfl, hu, hs.1.1, hs.1.2, hs.2⟩
        · rename_i rest hst
          simp only [hst, Bool.false_eq_true, ↓reduceIte] at ht
          cases ht
          simp only [Bool.and_eq_true, decide_eq_true_eq] at hs
          exact ⟨rest, rfl, hu, hs.1.1, hs.1.2, hs.2⟩
        · cases hs
      · cases ht
    | _ => simp [strands] at hs
  obtain ⟨rest, rfl, hu, hf, hm, hrest⟩ := left
  have hcall : ({ s with stack := rest, unwinding := false } : FlushHost J).calling = true := by
    unfold calling
    cases rest with
    | nil => rfl
    | cons frame rest =>
      cases frame with
      | draining _ _ => simp [Frame.isFlush] at hrest
      | _ => rfl
  have hqueue : s.flush.schedule job =
      { s.flush with
        pendingJobs := s.flush.pendingJobs ++ [job], accepted := s.flush.accepted ++ [job] } := by
    simp [Flush.schedule, Flush.ensureFlushScheduled, hf]
  refine ⟨{ s with stack := rest, unwinding := false, flush := s.flush.schedule job }, ?_, ?_⟩
  · simp [Runs.run, step, hu, hcall]
  · intro hw
    have := hw hrest (by simp [hqueue])
    simp [hqueue, hm] at this

end Steps

def Reached (s : FlushHost J) : Prop := Runs.Reaches step (fun _ _ => true = true) {} s

def ReachedUnstranded (s : FlushHost J) : Prop :=
  Runs.Reaches step (fun s op => (!s.strands op) = true) {} s

/-- A `FlushStarted` subscriber that panics in the microtask flush of a waiting job. -/
theorem panicking_subscriber_loses_wakeup : ∃ s : FlushHost ℕ, s.Reached ∧ s.stack = [] ∧
    s.unwinding = false ∧ s.flush.pendingJobs = [0] ∧ s.flush.microtasks = 0 := by
  let ops : List (FlushOp ℕ) :=
    [.subscribe, .schedule 0, .microtask, .panic, .unwind, .catchUnwind]
  refine ⟨(Runs.run step {} ops).getD {}, ?_, rfl, rfl, rfl, rfl⟩
  exact Runs.Reaches.run (fun _ _ => true) ops .init rfl rfl

/-- As long as no step strands the request, waiting jobs have a microtask flush
coming whenever no drain is running; a step that strands it loses the next job.
Jobs are started in the order they were accepted, none is dropped, in any run. -/
theorem wakeup_kept_iff_not_stranded (J : Type) :
    (∀ s : FlushHost J, s.ReachedUnstranded → s.Woken) ∧
      (∀ (s t : FlushHost J) (op : FlushOp J), s.strands op = true → s.step op = some t →
        ∀ job, ∃ u, Runs.run step t [.catchUnwind, .schedule job] = some u ∧ ¬ u.Woken) ∧
      ∀ s : FlushHost J, s.Reached → s.flush.accepted = s.flush.started ++ s.flush.pendingJobs := by
  refine ⟨fun s hs => ?_, fun s t op h ht job => strands_loses h ht job, fun s hs => ?_⟩
  · have init : ({} : FlushHost J).Armed := by
      refine ⟨fun h => absurd rfl h, fun h => ?_⟩
      cases h
    refine (hs.invariant Armed init fun _ op _ h ok ht => h.step op ?_ ht).woken
    simpa using ok
  · exact hs.invariant (fun s => s.flush.InOrder) rfl fun _ op _ h _ ht => inOrder_step h op ht

/-- A job of a microtask flush schedules another and panics; the guard re-arms. -/
theorem wakeup_kept_by_guard : ∃ s : FlushHost ℕ, s.flush.pendingJobs = [1] ∧
    s.flush.started = [0] ∧ s.Woken ∧
    s.flush.accepted = s.flush.started ++ s.flush.pendingJobs := by
  let ops : List (FlushOp ℕ) :=
    [.schedule 0, .microtask, .next, .schedule 1, .panic, .unwind, .catchUnwind]
  refine ⟨(Runs.run step {} ops).getD {}, rfl, rfl, ?_, ?_⟩
  · refine (wakeup_kept_iff_not_stranded ℕ).1 _ ?_
    exact Runs.Reaches.run (fun (s : FlushHost ℕ) op => !s.strands op) ops .init rfl rfl
  · refine (wakeup_kept_iff_not_stranded ℕ).2.2 _ ?_
    exact Runs.Reaches.run (fun _ _ => true) ops .init rfl rfl

end FlushHost

end Adaptite

import Adaptite.Base.Runs
import Adaptite.World
import Mathlib.Logic.Function.Basic

set_option autoImplicit false

/-!
# Owner frames step by step

`OwnerHost` is a thread with its owner frames, scopes' and effects'. A call is one that is
still on the stack. The code of a cleanup, of the disposal of a child, of a destructor, of a
verification or of a body is not modelled, only the operations that it performs: any, in any
order, on any frame that exists.
-/
namespace Adaptite

/-- What this thread's owner tree is holding. `truncated` is not in the source: a saturating
subtraction was asked for more than there was. -/
structure OwnershipStats where
  liveOwners : ℕ := 0
  cleanupRegistrations : ℕ := 0
  ownedChildren : ℕ := 0
  ownersCreated : ℕ := 0
  ownersDisposed : ℕ := 0
  cleanupsRegistered : ℕ := 0
  cleanupsRun : ℕ := 0
  truncated : Bool := false
deriving DecidableEq

namespace OwnershipStats

/-- `OwnerTally::new`. -/
def created (c : OwnershipStats) : OwnershipStats :=
  { c with liveOwners := c.liveOwners + 1, ownersCreated := c.ownersCreated + 1 }

/-- The drop of an `OwnerTally`. -/
def dropped (c : OwnershipStats) : OwnershipStats :=
  { c with
    liveOwners := c.liveOwners - 1
    truncated := c.truncated || decide (c.liveOwners < 1) }

def cleanupRegistered (c : OwnershipStats) : OwnershipStats :=
  { c with
    cleanupRegistrations := c.cleanupRegistrations + 1
    cleanupsRegistered := c.cleanupsRegistered + 1 }

def cleanupsTaken (c : OwnershipStats) (count : ℕ) : OwnershipStats :=
  { c with
    cleanupRegistrations := c.cleanupRegistrations - count
    cleanupsRun := c.cleanupsRun + count
    truncated := c.truncated || decide (c.cleanupRegistrations < count) }

def cleanupRunImmediately (c : OwnershipStats) : OwnershipStats :=
  { c with
    cleanupsRegistered := c.cleanupsRegistered + 1
    cleanupsRun := c.cleanupsRun + 1 }

def childAdopted (c : OwnershipStats) : OwnershipStats :=
  { c with ownedChildren := c.ownedChildren + 1 }

def childrenTaken (c : OwnershipStats) (count : ℕ) : OwnershipStats :=
  { c with
    ownedChildren := c.ownedChildren - count
    truncated := c.truncated || decide (c.ownedChildren < count) }

def ownerDisposed (c : OwnershipStats) : OwnershipStats :=
  { c with ownersDisposed := c.ownersDisposed + 1 }

end OwnershipStats

/-- Children and cleanups are in registration order. `effect`: the frame is that of an
effect. -/
structure OwnerFrameState where
  children : List ℕ := []
  sweptAt : ℕ := 0
  cleanups : List ℕ := []
  disposed : Bool := false
  effect : Bool := false
deriving DecidableEq

/-- A call on the stack. `verifying` is a run of an effect before its window opens,
`resetting` the window during the teardown and `running` during the body. `tearing` is
`OwnerFrame::reset` with what it has not yet come to, next first, and the first panic that it
captured. `releasing` is the drop of a child that has been disposed, `freeing` the end of
`adopt`, where the children that it released are dropped, `immediate` a cleanup or a child of
a frame that is disposed already. `dropping` is the drop of a frame, and `destructor` one that
a panic runs on its way. -/
inductive OwnerCall (P : Type) where
  | verifying (frame : FrameId)
  | resetting (frame : FrameId)
  | running (frame : FrameId) (execution : ℕ)
  | tearing (frame : FrameId) (reset : ℕ) (cleanups children : List ℕ) (first : Option P)
  | cleaning (cleanup : ℕ)
  | disposing (child : ℕ)
  | releasing (child : ℕ)
  | freeing (frame : FrameId)
  | immediate
  | dropping (frame : FrameId)
  | destructor (payload : P)
deriving DecidableEq

inductive OwnerItem where
  | cleanup (id : ℕ)
  | child (id : ℕ)
deriving DecidableEq

/-- Who has registered a cleanup or a child: on which frame, and in which execution of the
body of the effect whose frame it is. -/
structure OwnerOrigin where
  frame : FrameId
  execution : Option ℕ
deriving DecidableEq

/-- The operations up to `run` are called by running code. `finish` is the return of running
code, `proceed` that of a verification which has found a change, and `next` a step of the
library; `destructor` runs the code of a drop while a panic is on its way. -/
inductive OwnerStep (P : Type) where
  | create (effect : Bool)
  | adopt (frame : FrameId)
  | addCleanup (frame : FrameId)
  | reset (frame : FrameId)
  | dispose (frame : FrameId)
  | drop (frame : FrameId)
  | discardEffect (frame : FrameId)
  | discardChild (child : ℕ)
  | run (frame : FrameId)
  | panic (payload : P)
  | finish
  | proceed
  | next
  | catchUnwind
  | unwind
  | destructor
deriving DecidableEq

namespace OwnerCall

variable {P : Type}

def isCode : OwnerCall P → Bool
  | resetting _ | tearing _ _ _ _ _ | dropping _ => false
  | _ => true

def uses (f : FrameId) : OwnerCall P → Bool
  | verifying g | resetting g | running g _ | tearing g _ _ _ _ | freeing g | dropping g => g = f
  | _ => false

/-- The run window of the effect is open in this call. -/
def isWindow (f : FrameId) : OwnerCall P → Bool
  | resetting g | running g _ => g = f
  | _ => false

def isDestructor : OwnerCall P → Bool
  | destructor _ => true
  | _ => false

def execution (f : FrameId) : OwnerCall P → Option ℕ
  | running g k => if g = f then some k else none
  | _ => none

end OwnerCall

/-- `discarded` is `EffectInner::disposed`, and `gone` what `is_disposed_owned` says of a
child. What follows `stats` is not in the source: how often the body of an effect was entered,
who has registered a cleanup or a child, which cleanups were run, which children were disposed
by a teardown and which were released by a sweep, latest first; and of every reset what it has
taken, what it has come to and which panics it has captured, latest first, and whether the
thread was unwinding when it began. -/
structure OwnerHost (P : Type) where
  frames : FrameId → Option OwnerFrameState := fun _ => none
  nextFrame : FrameId := 0
  nextCleanup : ℕ := 0
  nextChild : ℕ := 0
  nextReset : ℕ := 0
  gone : ℕ → Bool := fun _ => false
  discarded : FrameId → Bool := fun _ => false
  calls : List (OwnerCall P) := []
  unwinding : Option P := none
  stats : OwnershipStats := {}
  executions : FrameId → ℕ := fun _ => 0
  cleanupBy : ℕ → OwnerOrigin := fun _ => ⟨0, none⟩
  childBy : ℕ → OwnerOrigin := fun _ => ⟨0, none⟩
  ran : List ℕ := []
  attempted : List ℕ := []
  released : List ℕ := []
  taken : ℕ → List OwnerItem := fun _ => []
  done : ℕ → List OwnerItem := fun _ => []
  panics : ℕ → List P := fun _ => []
  outset : ℕ → Bool := fun _ => false

namespace OwnerHost

variable {P : Type}

/-- Consumer code is in control, or would be if it caught the panic. -/
def inCode (s : OwnerHost P) : Bool :=
  match s.calls with
  | [] => true
  | call :: _ => call.isCode

def calling (s : OwnerHost P) : Bool := s.unwinding.isNone && s.inCode

/-- `std::thread::panicking`, of a call that is not itself being left. -/
def panicking (calls : List (OwnerCall P)) : Bool := calls.any OwnerCall.isDestructor

def push (s : OwnerHost P) (call : OwnerCall P) : OwnerHost P := { s with calls := call :: s.calls }

def setFrame (s : OwnerHost P) (f : FrameId) (x : OwnerFrameState) : OwnerHost P :=
  { s with frames := Function.update s.frames f (some x) }

/-- The execution of the body of the effect that is in progress, if any. -/
def origin (s : OwnerHost P) (f : FrameId) : OwnerOrigin :=
  ⟨f, s.calls.findSome? (OwnerCall.execution f)⟩

/-- `OwnerFrame::new`. -/
def create (s : OwnerHost P) (effect : Bool) : OwnerHost P :=
  { s with
    frames := Function.update s.frames s.nextFrame (some { effect })
    nextFrame := s.nextFrame + 1
    stats := s.stats.created }

/-- `release_disposed_children`: what stays and what is released. -/
def sweep (gone : ℕ → Bool) (x : OwnerFrameState) : OwnerFrameState × List ℕ :=
  if x.children.length < 8 ∨ x.children.length < x.sweptAt * 2 then (x, [])
  else
    let kept := x.children.filter fun c => !gone c
    ({ x with children := kept, sweptAt := kept.length }, x.children.filter gone)

/-- `OwnerFrame::adopt`, of a new child. -/
def adopt (s : OwnerHost P) (f : FrameId) (x : OwnerFrameState) : OwnerHost P :=
  let c := s.nextChild
  let s := { s with
    nextChild := c + 1
    childBy := Function.update s.childBy c (s.origin f) }
  if x.disposed then { s with attempted := c :: s.attempted }.push .immediate
  else
    let (y, released) := sweep s.gone x
    let s := { s.setFrame f { y with children := y.children ++ [c] } with
      stats := (s.stats.childrenTaken released.length).childAdopted
      released := released ++ s.released }
    if released.isEmpty then s else s.push (.freeing f)

/-- `OwnerFrame::add_cleanup`, of a new cleanup. -/
def addCleanup (s : OwnerHost P) (f : FrameId) (x : OwnerFrameState) : OwnerHost P :=
  let c := s.nextCleanup
  let s := { s with
    nextCleanup := c + 1
    cleanupBy := Function.update s.cleanupBy c (s.origin f) }
  if x.disposed then
    { s with ran := c :: s.ran, stats := s.stats.cleanupRunImmediately }.push .immediate
  else
    { s.setFrame f { x with cleanups := x.cleanups ++ [c] } with
      stats := s.stats.cleanupRegistered }

/-- `OwnerFrame::reset`, up to its loops. -/
def reset (s : OwnerHost P) (f : FrameId) (x : OwnerFrameState) : OwnerHost P :=
  let r := s.nextReset
  { s.setFrame f { x with children := [], sweptAt := 0, cleanups := [] } with
    nextReset := r + 1
    stats := (s.stats.cleanupsTaken x.cleanups.length).childrenTaken x.children.length
    taken := Function.update s.taken r
      (x.cleanups.reverse.map OwnerItem.cleanup ++ x.children.reverse.map OwnerItem.child)
    outset := Function.update s.outset r (panicking s.calls) }.push
      (.tearing f r x.cleanups.reverse x.children.reverse none)

/-- `OwnerFrame::dispose`. -/
def dispose (s : OwnerHost P) (f : FrameId) (x : OwnerFrameState) : OwnerHost P :=
  if x.disposed then s
  else { s with stats := s.stats.ownerDisposed }.reset f { x with disposed := true }

def vanish (s : OwnerHost P) (f : FrameId) : OwnerHost P :=
  { s with frames := Function.update s.frames f none, stats := s.stats.dropped }

/-- `run_scheduled_inner`, up to the verification: an effect that is disposed or has a run in
progress does not run. -/
def run (s : OwnerHost P) (f : FrameId) : OwnerHost P :=
  if s.discarded f || s.calls.any (OwnerCall.isWindow f) then s else s.push (.verifying f)

def finish (s : OwnerHost P) : Option (OwnerHost P) :=
  match s.calls with
  | .disposing c :: rest => some { s with calls := .releasing c :: rest }
  | .destructor p :: rest => some { s with calls := rest, unwinding := some p }
  | .resetting _ :: _ | .tearing _ _ _ _ _ :: _ | .dropping _ :: _ | [] => none
  | _ :: rest => some { s with calls := rest }

/-- The run window opens, and the teardown of the previous run begins. -/
def proceed (s : OwnerHost P) : Option (OwnerHost P) :=
  match s.calls with
  | .verifying f :: rest =>
    if s.discarded f then none
    else (s.frames f).map fun x => ({ s with calls := .resetting f :: rest } : OwnerHost P).reset f x
  | _ => none

def next (s : OwnerHost P) : Option (OwnerHost P) :=
  match s.calls with
  | .tearing f r (c :: cleanups) children first :: rest =>
    some { s with
      calls := .cleaning c :: .tearing f r cleanups children first :: rest
      ran := c :: s.ran
      done := Function.update s.done r (.cleanup c :: s.done r) }
  | .tearing f r [] (c :: children) first :: rest =>
    some { s with
      calls := .disposing c :: .tearing f r [] children first :: rest
      attempted := c :: s.attempted
      done := Function.update s.done r (.child c :: s.done r) }
  | .tearing _ _ [] [] first :: rest =>
    some { s with calls := rest, unwinding := if panicking rest then none else first }
  | .resetting f :: rest =>
    if s.discarded f then some { s with calls := rest }
    else
      some { s with
        calls := .running f (s.executions f + 1) :: rest
        executions := Function.update s.executions f (s.executions f + 1) }
  | .dropping f :: rest => some (({ s with calls := rest } : OwnerHost P).vanish f)
  | _ => none

/-- `capture_panic`, in the loop that is next on the stack. -/
def capture (s : OwnerHost P) (p : P) (calls : List (OwnerCall P)) : OwnerHost P :=
  match calls with
  | .tearing f r cleanups children first :: rest =>
    { s with
      calls := .tearing f r cleanups children (first.or (some p)) :: rest
      unwinding := none
      panics := Function.update s.panics r (p :: s.panics r) }
  | _ => { s with calls }

/-- A panic leaves the innermost call. One that leaves a destructor which a panic runs aborts
the process. -/
def unwind (s : OwnerHost P) (p : P) : Option (OwnerHost P) :=
  match s.calls with
  | [] | .destructor _ :: _ => none
  | .cleaning _ :: rest => some (s.capture p rest)
  | .disposing c :: rest =>
    let t := s.capture p rest
    some { t with calls := .releasing c :: t.calls }
  | .dropping f :: rest => some (({ s with calls := rest } : OwnerHost P).vanish f)
  | _ :: rest => some { s with calls := rest }

def step (s : OwnerHost P) : OwnerStep P → Option (OwnerHost P)
  | .create effect => if s.calling then some (s.create effect) else none
  | .adopt f => if s.calling then (s.frames f).map (s.adopt f) else none
  | .addCleanup f => if s.calling then (s.frames f).map (s.addCleanup f) else none
  | .reset f =>
    if s.calling then (s.frames f).bind fun x => if x.effect then none else some (s.reset f x)
    else none
  | .dispose f =>
    if s.calling then
      (s.frames f).bind fun x => if x.effect && !s.discarded f then none else some (s.dispose f x)
    else none
  | .drop f =>
    if s.calling && !s.calls.any (OwnerCall.uses f) then
      (s.frames f).bind fun x =>
        if x.effect && !s.discarded f then none else some ((s.push (.dropping f)).dispose f x)
    else none
  | .discardEffect f =>
    if s.calling then some { s with discarded := Function.update s.discarded f true } else none
  | .discardChild c =>
    if s.calling then some { s with gone := Function.update s.gone c true } else none
  | .run f =>
    if s.calling then (s.frames f).bind fun x => if x.effect then some (s.run f) else none
    else none
  | .panic p => if s.calling then some { s with unwinding := some p } else none
  | .finish => if s.unwinding.isNone then s.finish else none
  | .proceed => if s.unwinding.isNone then s.proceed else none
  | .next => if s.unwinding.isNone then s.next else none
  | .catchUnwind => if s.unwinding.isSome && s.inCode then some { s with unwinding := none } else none
  | .unwind => s.unwinding.bind s.unwind
  | .destructor =>
    if s.inCode then
      s.unwinding.map fun p => { s with calls := .destructor p :: s.calls, unwinding := none }
    else none

end OwnerHost

end Adaptite

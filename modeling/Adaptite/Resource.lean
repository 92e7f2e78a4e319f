import Adaptite.Base.Runs
import Mathlib.Data.Nat.Notation
import Mathlib.Logic.Function.Basic
import Mathlib.Tactic.Common

set_option autoImplicit false

/-!
# Resources

One resource, its driving effect and the tasks it spawned, on one thread. An
activation is a run of the effect, a disposal or a task's poll that is still on
the stack. User code runs in any of them, so that between two steps of the
innermost one any other operation may land.
-/
namespace Adaptite

/-- A fetch is being called from the moment its generation is taken until its
future is spawned. -/
inductive Fetch where
  | unstarted
  | calling
  | pending
  | aborted
  | finished
  | failed
deriving DecidableEq

/-- `teardown` and `disposing` carry the abort cleanups still to be run. -/
inductive Activation where
  | verifying
  | teardown (handles : List ℕ)
  | body
  | fetching (generation : ℕ)
  | spawned (generation : ℕ)
  | registered
  | disposing (handles : List ℕ)
  | polling (generation : ℕ)
  | ready (generation : ℕ)

/-- The run window of the effect is open: `RunWindow`. -/
def Activation.isWindow : Activation → Bool
  | teardown _ | body | fetching _ | spawned _ | registered => true
  | _ => false

def Activation.isPoll : Activation → Bool
  | polling _ | ready _ => true
  | _ => false

/-- `cleanups` are the aborts registered in the effect's owner, oldest first,
`jobs` its entries in the reactor's queue, and `published` the generations of
the values written so far. -/
structure Resource (T : Type) where
  value : Option T := none
  loading : Bool := false
  generation : ℕ := 0
  scheduled : Bool := true
  rerunAfterCurrent : Bool := false
  running : Bool := false
  disposed : Bool := false
  cleanups : List ℕ := []
  jobs : ℕ := 1
  fetches : ℕ → Fetch := fun _ => .unstarted
  stack : List Activation := []
  published : List ℕ := []

/-- `invalidate` is a mark that reaches the driving effect, from a changed input
or from `refetch`. `diverge` is the panic of `check_divergence`. -/
inductive ResourceOp (T : Type) where
  | invalidate
  | flush
  | verified (changed : Bool)
  | diverge
  | runCleanup
  | enterBody
  | startFetch
  | spawn
  | register
  | finishRun
  | unwind
  | dispose
  | endDispose
  | poll (generation : ℕ)
  | suspend
  | complete (result : T)
  | settle

namespace Resource

variable {T : Type}

def InFlight (s : Resource T) (k : ℕ) : Prop := s.fetches k = .calling ∨ s.fetches k = .pending

/-- `EffectInner::schedule`. -/
def schedule (s : Resource T) : Resource T :=
  if s.disposed || s.scheduled then s else { s with scheduled := true, jobs := s.jobs + 1 }

/-- `run_scheduled_inner`, up to the verification. -/
def runScheduled (s : Resource T) : Resource T :=
  let s := { s with scheduled := false }
  if s.disposed then s
  else if s.running then { s with rerunAfterCurrent := true }
  else { s with stack := .verifying :: s.stack }

def setFetch (s : Resource T) (k : ℕ) (fetch : Fetch) : Resource T :=
  { s with fetches := Function.update s.fetches k fetch }

/-- The cleanup registered by the driving effect. A task that has ended is not
changed by its abort handle. -/
def abort (s : Resource T) (k : ℕ) : Resource T :=
  { s with
    loading := false
    fetches := if s.fetches k = .pending then Function.update s.fetches k .aborted else s.fetches }

/-- The verification has answered; on `changed` the window opens and
`OwnerFrame::reset` takes the cleanups. -/
def openWindow (s : Resource T) (rest : List Activation) (changed : Bool) : Resource T :=
  if s.disposed || !changed then { s with stack := rest }
  else
    { s with
      running := true
      cleanups := []
      stack := .teardown s.cleanups.reverse :: rest }

def closeWindow (s : Resource T) (rest : List Activation) : Resource T :=
  { s with running := false, stack := rest }

/-- `OwnerFrame::add_cleanup` of the abort of `k`. -/
def addCleanup (s : Resource T) (k : ℕ) : Resource T :=
  if s.disposed then s.abort k else { s with cleanups := s.cleanups ++ [k] }

def finishRun (s : Resource T) (rest : List Activation) : Resource T :=
  let rerun := s.rerunAfterCurrent && !s.disposed
  let s := { s with rerunAfterCurrent := false }
  (if rerun then s.schedule else s).closeWindow rest

/-- `EffectInner::dispose`, up to the teardown of the owner. -/
def dispose (s : Resource T) : Resource T :=
  if s.disposed then s
  else
    { s with
      disposed := true
      scheduled := false
      cleanups := []
      stack := .disposing s.cleanups.reverse :: s.stack }

/-- The future of `k` has returned `result`. -/
def complete (s : Resource T) (rest : List Activation) (k : ℕ) (result : T) : Resource T :=
  let s := s.setFetch k .finished
  if s.generation = k then
    { s with
      value := some result
      published := s.published ++ [k]
      stack := .ready k :: rest }
  else { s with stack := rest }

/-- A panic leaves the innermost activation. Teardown catches those of the cleanups
and raises the first again when all have run. -/
def unwind (s : Resource T) : Option (Resource T) :=
  match s.stack with
  | .verifying :: rest => some { s.schedule with stack := rest }
  | .teardown [] :: rest | .body :: rest | .registered :: rest => some (s.closeWindow rest)
  | .fetching k :: rest => some ((s.setFetch k .failed).closeWindow rest)
  | .disposing [] :: rest | .ready _ :: rest => some { s with stack := rest }
  | .polling k :: rest => some { s.setFetch k .failed with stack := rest }
  | _ => none

def runCleanup (s : Resource T) : Option (Resource T) :=
  match s.stack with
  | .teardown (k :: handles) :: rest => some { s.abort k with stack := .teardown handles :: rest }
  | .disposing (k :: handles) :: rest => some { s.abort k with stack := .disposing handles :: rest }
  | _ => none

def step (s : Resource T) (op : ResourceOp T) : Option (Resource T) :=
  match op, s.stack with
  | .invalidate, _ => some s.schedule
  | .flush, _ => if 0 < s.jobs then some { s with jobs := s.jobs - 1 }.runScheduled else none
  | .verified changed, .verifying :: rest => some (s.openWindow rest changed)
  | .diverge, .verifying :: rest => some { s with stack := rest }
  | .runCleanup, _ => s.runCleanup
  | .enterBody, .teardown [] :: rest =>
    some (if s.disposed then s.closeWindow rest else { s with stack := .body :: rest })
  | .startFetch, .body :: rest =>
    let k := s.generation + 1
    some { s.setFetch k .calling with
      generation := k
      loading := true
      stack := .fetching k :: rest }
  | .spawn, .fetching k :: rest => some { s.setFetch k .pending with stack := .spawned k :: rest }
  | .register, .spawned k :: rest => some { s.addCleanup k with stack := .registered :: rest }
  | .finishRun, .registered :: rest => some (s.finishRun rest)
  | .unwind, _ => s.unwind
  | .dispose, _ => some s.dispose
  | .endDispose, .disposing [] :: rest => some { s with stack := rest }
  | .poll k, [] =>
    if s.fetches k = .pending || s.fetches k = .aborted then some { s with stack := [.polling k] }
    else none
  | .suspend, .polling _ :: rest => some { s with stack := rest }
  | .complete result, .polling k :: rest => some (s.complete rest k result)
  | .settle, .ready _ :: rest => some { s with loading := false, stack := rest }
  | _, _ => none

/-- The runtime never polls an aborted task again, and the resource is disposed
between polls. -/
def admits (s : Resource T) : ResourceOp T → Bool
  | .poll k => s.fetches k ≠ .aborted
  | .dispose => s.stack.all fun activation => !activation.isPoll
  | _ => true

/-- The states of a resource in any interleaving. -/
def Reached (s : Resource T) : Prop :=
  Runs.Reaches step (fun s op => s.admits op = true) {} s

end Resource

end Adaptite

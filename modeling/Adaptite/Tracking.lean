import Adaptite.Consistency

set_option autoImplicit false

/-!
# What a computation records

`TrackHost` is a thread that uses one reactor. Only what decides which reads are
recorded is modelled: the graph maps, the depth of `untrack`, and the calls on the
stack. The code of a compute, a body, a comparator, a cleanup or a handler is any
operations in any order; whether a node is stale, and what a comparator says, is left
open. Nodes are disposed by their handles and owners.
-/
namespace Adaptite

/-- What the guards of `run_in_context` and `untrack` save and restore. -/
structure Context where
  stack : List NodeId := []
  activeComputations : List NodeId := []
  untracked : ℕ := 0
deriving DecidableEq

/-- A call on the stack. `reading`: a computed node is brought up to date for a `with` or
a `with_peek`. `computing` is the closure that `run_in_context` calls, with the depth the
guard restores; `accepting` is the rest of the recomputation. `untracking` is an `untrack`:
of the consumer, or of the library around a comparator, a teardown, or the handlers of an
event or a `watch`. -/
inductive TrackCall where
  | reading (node : NodeId) (tracked : Bool)
  | computing (node : NodeId) (untracked : ℕ)
  | accepting (node : NodeId)
  | untracking
deriving DecidableEq

def TrackCall.node : TrackCall → Option NodeId
  | reading n _ | computing n _ | accepting n => some n
  | untracking => none

/-- `entry` is not in the source: the context the call was made in. -/
structure TrackFrame where
  call : TrackCall
  entry : Context
deriving DecidableEq

/-- `reads` is not in the source: what each node has read with a tracked read in its
last computation, latest first, with the version at which it did. -/
structure TrackHost where
  graph : Graph := {}
  untracked : ℕ := 0
  frames : List TrackFrame := []
  reads : NodeId → List (NodeId × ℕ) := fun _ => []

/-- `run` starts a recomputation or the run of an effect, `write` stands for all that
moves a version; `finish` is the return of the innermost call, and `unwind` leaves it. -/
inductive TrackOp where
  | create (kind : NodeKind)
  | read (node : NodeId) (tracked : Bool)
  | run (node : NodeId)
  | untrack
  | write (node : NodeId)
  | dispose (node : NodeId)
  | finish (changed : Bool)
  | unwind

def NodeKind.isComputed : NodeKind → Bool
  | thunk | memo => true
  | _ => false

def NodeKind.isObserver : NodeKind → Bool
  | thunk | memo | effect => true
  | _ => false

namespace TrackHost

def context (s : TrackHost) : Context :=
  ⟨s.graph.stack, s.graph.activeComputations, s.untracked⟩

def push (s : TrackHost) (call : TrackCall) (entry : Context) : TrackHost :=
  { s with frames := ⟨call, entry⟩ :: s.frames }

/-- Whose computation a read belongs to, by the calls on the stack alone. -/
def reader : List TrackFrame → Option NodeId
  | [] => none
  | f :: rest =>
    match f.call with
    | .computing n _ => some n
    | .untracking => none
    | .reading _ _ | .accepting _ => reader rest

def noteRead (s : TrackHost) (n : NodeId) : TrackHost :=
  match reader s.frames with
  | none => s
  | some o => { s with reads := Function.update s.reads o ((n, s.graph.version n) :: s.reads o) }

/-- `observe`; a read that would close a cycle panics, and changes nothing. -/
def observe (s : TrackHost) (n : NodeId) : TrackHost :=
  match s.graph.tryObserve (0 < s.untracked) n with
  | .error _ => s
  | .ok r => { s.noteRead n with graph := r.1 }

/-- The opening of `run_in_context`. -/
def enter (env : Enumeration) (s : TrackHost) (n : NodeId) : TrackHost :=
  ({ s with
      graph := (s.graph.enterContext env n).1
      untracked := 0
      reads := Function.update s.reads n [] } : TrackHost).push (.computing n s.untracked) s.context

/-- What the guards of a call do when it is left, in either way. -/
def dropGuards (s : TrackHost) : TrackCall → TrackHost
  | .computing _ untracked => { s with graph := s.graph.exitContext, untracked }
  | .untracking => { s with untracked := s.untracked - 1 }
  | .reading _ _ | .accepting _ => s

/-- What follows where a call returns to. A tracked read ends with its `observe`; an
effect has no value to accept. -/
def proceed (s : TrackHost) (changed : Bool) : TrackCall → TrackHost
  | .reading n tracked => if tracked then s.observe n else s
  | .computing n _ =>
    if (s.graph.nodeKind n).any NodeKind.isComputed then s.push (.accepting n) s.context else s
  | .accepting n => if changed then { s with graph := s.graph.bumpVersion n } else s
  | .untracking => s

/-- The node is on no stack, or is an effect, whose disposal nothing holds up. -/
def disposable (s : TrackHost) (n : NodeId) : Bool :=
  s.graph.nodeKind n = some .effect || s.frames.all fun f => f.call.node ≠ some n

/-- A node that is read is alive, since it is read through a handle. An effect that is
disposed does not run, and one node is not computed twice at a time. -/
def step (env : Enumeration) (s : TrackHost) : TrackOp → Option TrackHost
  | .create kind =>
    let graph := s.graph.allocateNode kind
    some { s with graph := if kind.isObserver then graph.registerObserver s.graph.nextNode else graph }
  | .read n tracked =>
    match s.graph.nodeKind n with
    | none => none
    | some kind =>
      if kind.isComputed then
        some (if (s.graph.cycleCheck n).isSome then s else s.push (.reading n tracked) s.context)
      else some (if tracked then s.observe n else s)
  | .run n =>
    if (s.graph.nodeKind n).any NodeKind.isObserver then
      some (if n ∈ s.graph.activeComputations then s else s.enter env n)
    else none
  | .untrack =>
    some (({ s with untracked := s.untracked + 1 } : TrackHost).push .untracking s.context)
  | .write n => some { s with graph := s.graph.bumpVersion n }
  | .dispose n => if s.disposable n then some { s with graph := (s.graph.dispose env n).1 } else none
  | .finish changed =>
    match s.frames with
    | [] => none
    | f :: rest => some ((({ s with frames := rest } : TrackHost).dropGuards f.call).proceed changed f.call)
  | .unwind =>
    match s.frames with
    | [] => none
    | f :: rest => some (({ s with frames := rest } : TrackHost).dropGuards f.call)

/-- The states that any operations in any order lead to. -/
def Reached (env : Enumeration) (s : TrackHost) : Prop :=
  Runs.Reaches (step env) (fun _ _ => true = true) {} s

end TrackHost

end Adaptite

import Adaptite.Interp
import Mathlib.Logic.Relation

set_option autoImplicit false

/-!
# What one step of the library can do

`Step` lists the updates of the world that the library makes, each with what is
known where it is made; `CreateStep` and `CloseStep` list those of the creation and
the disposal of an effect, `ComputeStep` and `ContextStep` those of a tracked
computation, and `RunStep` those that only a flush or an effect run makes.
-/
namespace Adaptite

open Unwinding

variable {V : Type}

def Event.isRemark : Event V → Bool
  | .zombie _ _ | .caught _ _ _ | .hooked _ _ | .began _ | .saw _ _ _ => false
  | _ => true

/-- An update of an effect that leaves its identity and its latch alone. -/
def EffectInner.Similar (x y : EffectInner V) : Prop :=
  y.body = x.body ∧ y.external = x.external ∧ y.owner = x.owner ∧ y.disposed = x.disposed ∧
    y.scheduled = x.scheduled

def OwnerFrame.Similar (x y : OwnerFrame V) : Prop :=
  y.parent = x.parent ∧ y.errorHandler = x.errorHandler ∧ (x.disposed = true → y.disposed = true)

/-- The queue is the same, whatever the epochs and the request of a flush. -/
def Flush.SameQueue {J : Type} (f g : Flush J) : Prop :=
  g.pendingJobs = f.pendingJobs ∧ g.accepted = f.accepted ∧ g.started = f.started

/-- The effect `e` is disposed, which cannot be undone. -/
def World.Closed (w : World V) (e : NodeId) : Prop :=
  ∃ x, w.effects e = some x ∧ x.disposed = true

inductive Step (env : Enumeration) : World V → World V → Prop where
  | thread (w : World V) (u : ℕ) (o : List (Option FrameId)) (t : ℕ) (p : Bool)
      (h : ∀ f, some f ∈ o → some f ∈ w.owners ∨ f < w.nextFrame) :
      Step env w { w with untracked := u, owners := o, teardown := t, panicking := p }
  | remark (w : World V) (e : Event V) (h : e.isRemark = true) : Step env w (w.push e)
  | observed (w : World V) (n : NodeId) (r : Graph × Bool) (live : n ∈ w.graph.nodeMeta)
      (h : w.graph.tryObserve (0 < w.untracked) n = .ok r)
      (plain : w.graph.nodeKind n = some .source ∨ (w.events n).isSome = true) :
      Step env w ((w.noteZombie n).observed n r)
  | write (w : World V) (n : NodeId) (v : V) : Step env w (w.write env n v)
  | trigger (w : World V) (n : NodeId) : Step env w (w.trigger env n)
  | newFrame (w : World V) (h : Option (Payload V → Prog V)) : Step env w (w.newFrame h)
  | adopt (w : World V) (f : FrameId) (child : Owned) : Step env w (w.adopt f child)
  | frame (w : World V) (f : FrameId) (g : OwnerFrame V → OwnerFrame V)
      (h : ∀ x : OwnerFrame V, x.Similar (g x)) : Step env w (w.modifyFrame f g)
  | scheduleEffect (w : World V) (e : NodeId) : Step env w (w.scheduleEffect e)
  | queues (w : World V) (q : ℕ → List V) (k : ℕ) :
      Step env w { w with queues := q, nextQueue := k }
  | deliveries (w : World V) (d : List (Delivery V)) (l : List (Event V))
      (h : ∀ e ∈ l, e.isRemark = true) :
      Step env w { w with deliveries := d, log := l ++ w.log }
  | flush (w : World V) (f : Flush (Job V)) (h : w.flush.SameQueue f) :
      Step env w { w with flush := f }
  | schedule (w : World V) (p : Prog V) : Step env w (w.schedule (.user p))
  | newSubscription (w : World V) (cancel : Cancel) : Step env w (w.newSubscription cancel)
  | endSubscription (w : World V) (s : SubscriptionId) : Step env w (w.endSubscription s)
  | event (w : World V) (n : NodeId) (f : EventInner V → EventInner V) :
      Step env w (w.modifyEvent n f)
  | newSignal (w : World V) (v : V) (same : V → V → Bool) : Step env w (w.newSignal v same)
  | newComputed (w : World V) (compute : Option V → Prog V) (equals : Option (V → V → Bool)) :
      Step env w (w.newComputed compute equals)
  | newSource (w : World V) (watch : Option (Prog V × Prog V)) :
      Step env w (w.newSource (watch.map fun p => { onWatch := p.1, onUnwatch := p.2 }))
  | newEvent (w : World V) : Step env w w.newEvent
  | dropNode (w : World V) (n : NodeId) (idle : n ∉ w.graph.activeComputations)
      (other : w.effects n = none) : Step env w (w.dropNode env n)

inductive CreateStep (w : World V) : World V → Prop where
  | effect (body : Body V) (external : Bool) : CreateStep w (w.newEffect body external)

inductive CloseStep (env : Enumeration) (w : World V) : World V → Prop where
  | closing (e : NodeId) : CloseStep env w (w.closing e)
  | unhook (e : NodeId) (h : w.Closed e) : CloseStep env w (w.unhook env e)

inductive ComputeStep (env : Enumeration) (w : World V) : World V → Prop where
  | observed (n : NodeId) (r : Graph × Bool) (live : n ∈ w.graph.nodeMeta)
      (h : w.graph.tryObserve (0 < w.untracked) n = .ok r) :
      ComputeStep env w ((w.noteZombie n).observed n r)
  | saw (o n : NodeId) (v : V) (tracked : w.tracker = some o)
      (edge : (w.graph.edgesOf o).lookup n = some (w.graph.version n))
      (value : w.cached n = some v) : ComputeStep env w (w.push (.saw o n v))
  | setState (n : NodeId) (s : State) : ComputeStep env w (w.setState n s)
  | store (n : NodeId) (v : V) : ComputeStep env w (w.store n v)

/-- What may be entered: a computed node, or an effect that is not disposed. -/
def World.Runnable (w : World V) (o : NodeId) : Prop :=
  (w.computed o).isSome = true ∨ ∃ x, w.effects o = some x ∧ x.disposed = false

inductive ContextStep (env : Enumeration) (w : World V) : World V → Prop where
  | enter (o : NodeId) (h : o ∉ w.graph.activeComputations) (known : w.Runnable o) :
      ContextStep env w (w.enter env o)
  | leave (u : ℕ) : ContextStep env w (w.leave u)

/-- The end of a queued delivery of hooks that was not cancelled. -/
def ObservationHooks.settle (h : ObservationHooks V) : ObservationHooks V :=
  { h with queued := false, delivered := if h.cancelled then h.delivered else h.observed }

/-- A run takes its ticket, from the queue or from the lane, and gives the latch back. -/
inductive RunStep (w : World V) : World V → Prop where
  | popEffect (e : NodeId) (f : Flush (Job V)) (r : ℕ) (h : w.flush.popJob = some (.effect e, f))
      (le : w.runs ≤ r) : RunStep w (({ w with flush := f, runs := r } : World V).unlatch e)
  | popHooks (n : NodeId) (f : Flush (Job V)) (h : w.flush.popJob = some (.hooks n, f))
      (skip : ∀ k, w.hooks n = some k → k.cancelled = true ∨ k.delivered = k.observed) :
      RunStep w (({ w with flush := f } : World V).modifyHooks n ObservationHooks.settle)
  | callHooks (n : NodeId) (k : ObservationHooks V) (f : Flush (Job V))
      (h : w.flush.popJob = some (.hooks n, f)) (hk : w.hooks n = some k)
      (live : k.cancelled = false) (due : k.delivered ≠ k.observed) :
      RunStep w ((({ w with flush := f } : World V).modifyHooks n ObservationHooks.settle).push
        (.hooked n k.observed))
  | popUser (p : Prog V) (f : Flush (Job V)) (h : w.flush.popJob = some (.user p, f)) :
      RunStep w { w with flush := f }
  | ready (e : NodeId) (f : Flush (Job V)) (r : ℕ) (h : w.flush.SameQueue f) (le : w.runs ≤ r) :
      RunStep w (({ w with lane := w.lane.erase e, flush := f, runs := r } : World V).unlatch e)
  | effect (e : NodeId) (g : EffectInner V → EffectInner V)
      (h : ∀ x, w.effects e = some x → x.Similar (g x)) : RunStep w (w.modifyEffect e g)

inductive AnyStep (env : Enumeration) (w : World V) : World V → Prop where
  | plain {w' : World V} (h : Step env w w') : AnyStep env w w'
  | create {w' : World V} (h : CreateStep w w') : AnyStep env w w'
  | close {w' : World V} (h : CloseStep env w w') : AnyStep env w w'
  | compute {w' : World V} (h : ComputeStep env w w') : AnyStep env w w'
  | context {w' : World V} (h : ContextStep env w w') : AnyStep env w w'
  | run {w' : World V} (h : RunStep w w') : AnyStep env w w'
  | caught (r : ℕ) (e : NodeId) (p : Payload V) : AnyStep env w (w.push (.caught r e p))

/-- The worlds that the steps of the library can lead to, in whatever order. -/
def Visited (env : Enumeration) (w : World V) : Prop := Relation.ReflTransGen (AnyStep env) {} w

/-- The drop of the last handle of a node while the table of hooks is borrowed. -/
def World.dropBorrowed (env : Enumeration) (w : World V) (n : NodeId) : World V :=
  { w with
    graph := w.graph.disposeBorrowed env n
    signals := Function.update w.signals n none
    computed := Function.update w.computed n none
    events := Function.update w.events n none }

/-- The drop of the last handle of a source whose hooks own the last handle of another node: they
are cancelled, and then dropped while the table is borrowed. -/
def World.dropTorn (env : Enumeration) (w : World V) (n owned : NodeId) : World V :=
  let cleared := w.graph.clearObserverDependencies env n false
  let w := ({ w with graph := cleared.1.retireUncounted env n } : World V).noteUnobserved cleared.2
  (w.modifyHooks n fun h => { h with cancelled := true }).dropBorrowed env owned

/-- A disposal is torn if no queued delivery keeps the hooks alive, and if nothing else keeps alive
the node that they own. -/
inductive TornStep (env : Enumeration) (w : World V) : World V → Prop where
  | dropTorn (n owned : NodeId) (h : ObservationHooks V) (hooked : w.hooks n = some h)
      (live : n ∈ w.graph.nodeMeta) (alone : h.queued = false) (other : owned ≠ n)
      (idle : owned ∉ w.graph.activeComputations) (handle : w.effects owned = none) :
      TornStep env w (w.dropTorn env n owned)

/-- The worlds that a run can lead to, with the number of disposals that were torn on the way. -/
inductive Ran (env : Enumeration) : ℕ → World V → Prop where
  | init : Ran env 0 {}
  | step {k : ℕ} {w w' : World V} (before : Ran env k w) (h : AnyStep env w w') : Ran env k w'
  | torn {k : ℕ} {w w' : World V} (before : Ran env k w) (h : TornStep env w w') :
      Ran env (k + 1) w'

theorem Ran.visited {env : Enumeration} {k : ℕ} {w : World V} (h : Ran env k w) (hk : k = 0) :
    Visited env w := by
  induction h with
  | init => exact .refl
  | step _ hs ih => exact (ih hk).tail hs
  | torn _ _ _ => cases hk

theorem Visited.ran {env : Enumeration} {w : World V} (h : Visited env w) : Ran env 0 w := by
  induction h with
  | refl => exact .init
  | tail _ hs ih => exact ih.step hs

end Adaptite

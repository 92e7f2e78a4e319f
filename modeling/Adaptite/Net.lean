import Adaptite.Base.Program
import Adaptite.World
import Mathlib.Logic.Function.Basic

set_option autoImplicit false

/-!
# Signals, thunks and memos

The part of a reactor that answers reads, in more detail than a `World` has: the
hash maps keep their entries in the order in which they are iterated, a closure
given to `with` holds a borrow of the value, and a comparator may panic. Nodes are
never disposed.
-/
namespace Adaptite

open Unwinding

inductive Fault (V : Type) where
  | user (value : V)
  | cycle (path : List NodeId)
  | unlisted (node : NodeId)
  | reentered (observer : NodeId)
  | uncached (node : NodeId)
  | busy (node : NodeId)
  | absent (node : NodeId)
  | diverged (effect : NodeId)
deriving DecidableEq

/-- What a closure can ask of the library. `withValue` is `with`, and `get` is
`with(T::clone)`. -/
inductive Ask (V : Type) where
  | panic (value : V)
  | catchUnwind
  | untrack
  | withValue (node : NodeId)
  | withPeek (node : NodeId)
  | set (signal : NodeId) (value : V)
  | replace (signal : NodeId) (value : V)
  | update (signal : NodeId) (f : V → V)

namespace Ask

variable {V : Type}

@[reducible] def Closure : Ask V → Type
  | catchUnwind | untrack => Unit
  | withValue _ | withPeek _ => V
  | _ => Empty

@[reducible] def Answer : Ask V → Type
  | panic _ => Empty
  | catchUnwind => Except (Fault V) V
  | untrack | withValue _ | withPeek _ | replace _ _ => V
  | set _ _ => Option V
  | update _ _ => Unit

def isWrite : Ask V → Bool
  | set _ _ | replace _ _ | update _ _ => true
  | _ => false

end Ask

@[reducible] def asking (V : Type) : Signature where
  Op := Ask V
  Closure := Ask.Closure
  Answer := Ask.Answer

abbrev Script (V : Type) : Type := Program (asking V) V

namespace Script

variable {V : Type}

def panic (v : V) : Script V := .call (.panic v) nofun nofun
def get (n : NodeId) (k : V → Script V) : Script V := .call (.withValue n) (fun v => .ret v) k
def peek (n : NodeId) (k : V → Script V) : Script V := .call (.withPeek n) (fun v => .ret v) k
def set (n : NodeId) (v : V) (k : Script V) : Script V := .call (.set n v) nofun fun _ => k

def ReadOnly (p : Script V) : Prop := p.Only fun op => Ask.isWrite op = false

end Script

/-- A comparator sees the two values only, and may panic. -/
abbrev Equals (V : Type) : Type := V → V → Except V Bool

structure NetSignal (V : Type) where
  value : V
  same : V → V → Bool

/-- A thunk has no comparator. -/
structure NetComputed (V : Type) where
  compute : Option V → Script V
  equals : Option (Equals V)
  value : Option V := none
  state : State := .dirty

structure NetEffect (V : Type) where
  body : Script V
  state : State := .dirty
  scheduled : Bool := false
  lastDrainEpoch : Option ℕ := none
  runsThisDrain : ℕ := 0

/-- The hash map of an observer, in the order in which it is iterated. -/
abbrev EdgeTable : Type := List (NodeId × ℕ)

/-- How a hash map arranges its entries after an insertion, which may depend on
the whole history. A map that is not modified keeps its order. -/
structure Layout where
  edges : ℕ → EdgeTable → EdgeTable
  nodes : ℕ → List NodeId → List NodeId
  edges_perm : ∀ t l, (edges t l).Perm l
  nodes_perm : ∀ t l, (nodes t l).Perm l

def Layout.insertion : Layout :=
  ⟨fun _ l => l, fun _ l => l, fun _ l => List.Perm.refl l, fun _ l => List.Perm.refl l⟩

/-- What `cycle_check` found: the observer stack, outermost first, and the node. -/
structure Raised (V : Type) where
  stack : List NodeId
  node : NodeId
  fault : Fault V

/-- `stack` lists the running observers innermost first. `clock` counts the
insertions. `raised`, `seen` and `past` are not in the source: the errors of
`cycle_check`, what computes have read since the last write, latest first, and the
value that a node had at each of its versions. -/
structure Net (V : Type) where
  nextNode : ℕ := 1
  version : NodeId → ℕ := fun _ => 0
  dependencies : NodeId → EdgeTable := fun _ => []
  dependents : NodeId → List NodeId := fun _ => []
  stack : List NodeId := []
  activeComputations : List NodeId := []
  untracked : ℕ := 0
  signals : NodeId → Option (NetSignal V) := fun _ => none
  computed : NodeId → Option (NetComputed V) := fun _ => none
  effects : NodeId → Option (NetEffect V) := fun _ => none
  borrows : NodeId → ℕ := fun _ => 0
  pendingJobs : List NodeId := []
  drainEpoch : ℕ := 0
  flushDepth : ℕ := 0
  clock : ℕ := 0
  raised : List (Raised V) := []
  seen : List (NodeId × V) := []
  past : NodeId → ℕ → Option V := fun _ _ => none

namespace Net

variable {V : Type}

def modifyComputed (net : Net V) (n : NodeId) (f : NetComputed V → NetComputed V) : Net V :=
  { net with computed := Function.update net.computed n ((net.computed n).map f) }

def modifyEffect (net : Net V) (e : NodeId) (f : NetEffect V → NetEffect V) : Net V :=
  { net with effects := Function.update net.effects e ((net.effects e).map f) }

def setState (net : Net V) (n : NodeId) (state : State) : Net V :=
  net.modifyComputed n fun x => { x with state := state }

def setValue (net : Net V) (n : NodeId) (v : V) : Net V :=
  { net with
    signals := Function.update net.signals n
      ((net.signals n).map fun s => { s with value := v })
    seen := [] }

def store (net : Net V) (n : NodeId) (v : V) : Net V :=
  net.modifyComputed n fun x => { x with value := some v }

def cached (net : Net V) (n : NodeId) : Option V :=
  match net.signals n with
  | some s => some s.value
  | none => (net.computed n).bind NetComputed.value

def bumpVersion (net : Net V) (n : NodeId) : Net V :=
  { net with
    version := Function.update net.version n (net.version n + 1)
    past := Function.update net.past n
      (Function.update (net.past n) (net.version n + 1) (net.cached n)) }

def borrow (net : Net V) (n : NodeId) : Net V :=
  { net with borrows := Function.update net.borrows n (net.borrows n + 1) }

def giveBack (net : Net V) (n : NodeId) : Net V :=
  { net with borrows := Function.update net.borrows n (net.borrows n - 1) }

/-- `cycle_check`. The `expect` of the source is the `unlisted` fault. -/
def cycleCheck (net : Net V) (n : NodeId) : Option (Fault V) :=
  if n ∈ net.activeComputations then
    match net.stack.reverse.findIdx? (fun m => m == n) with
    | none => some (.unlisted n)
    | some start => some (.cycle (net.stack.reverse.drop start ++ [n]))
  else none

def note (net : Net V) (n : NodeId) (fault : Fault V) : Net V :=
  { net with raised := ⟨net.stack.reverse, n, fault⟩ :: net.raised }

/-- `HashMap::insert`: a new key may rearrange the map, an old one is overwritten. -/
def insertEdge (layout : Layout) (net : Net V) (o n : NodeId) : Net V :=
  let edges := net.dependencies o
  { net with
    dependencies := Function.update net.dependencies o
      (if n ∈ edges.map Prod.fst then
        edges.map fun e => if e.1 = n then (n, net.version n) else e
      else layout.edges net.clock ((n, net.version n) :: edges))
    clock := net.clock + 1 }

/-- `HashSet::insert`. -/
def insertDependent (layout : Layout) (net : Net V) (n o : NodeId) : Net V :=
  { net with
    dependents := Function.update net.dependents n
      (if o ∈ net.dependents n then net.dependents n
      else layout.nodes net.clock (o :: net.dependents n))
    clock := net.clock + 1 }

/-- The successful end of `try_observe`. -/
def recordEdge (layout : Layout) (net : Net V) (n : NodeId) : Net V :=
  if 0 < net.untracked then net
  else
    match net.stack with
    | [] => net
    | o :: _ => (net.insertEdge layout o n).insertDependent layout n o

/-- `clear_observer_dependencies`. -/
def clearDependencies (net : Net V) (o : NodeId) : Net V :=
  { net with
    dependencies := Function.update net.dependencies o []
    dependents := fun d =>
      if d ∈ (net.dependencies o).map Prod.fst then (net.dependents d).filter (· ≠ o)
      else net.dependents d }

/-- The opening of `run_in_context`, for an observer that is not already running. -/
def enter (net : Net V) (o : NodeId) : Net V :=
  let cleared := net.clearDependencies o
  { cleared with
    activeComputations := o :: net.activeComputations
    stack := o :: net.stack
    untracked := 0 }

/-- The drop of the guard of `run_in_context`. -/
def leave (net : Net V) (untracked : ℕ) : Net V :=
  match net.stack with
  | [] => { net with untracked }
  | o :: rest =>
    { net with
      stack := rest
      activeComputations := net.activeComputations.erase o
      untracked }

/-- `EffectInner::mark`, with the scheduling on the reactor's own lane. -/
def markEffect (net : Net V) (e : NodeId) (mark : Mark) : Net V :=
  match net.effects e with
  | none => net
  | some x =>
    let raised := net.modifyEffect e fun x =>
      { x with state := x.state.raise mark, scheduled := true }
    if x.scheduled then raised else { raised with pendingJobs := net.pendingJobs ++ [e] }

/-- `mark_computed`; `next` marks the dependents of a node that was clean. -/
def markComputed (next : Net V → NodeId → Net V) (net : Net V) (n : NodeId) (x : NetComputed V)
    (mark : Mark) : Net V :=
  if x.state.rank < mark.toState.rank then
    if x.state = .clean then next (net.setState n mark.toState) n
    else net.setState n mark.toState
  else net

def deliverMark (next : Net V → NodeId → Net V) (mark : Mark) (net : Net V) (d : NodeId) :
    Net V :=
  match net.computed d with
  | some x => markComputed next net d x mark
  | none => net.markEffect d mark

/-- Every nested call turns a clean computed node stale, so as many levels as
there are nodes are enough. -/
def markDependents : ℕ → Mark → Net V → NodeId → Net V
  | 0, _, net, _ => net
  | levels + 1, mark, net, n =>
    (net.dependents n).foldl (deliverMark (markDependents levels .check) mark) net

def trigger (net : Net V) (n : NodeId) : Net V :=
  markDependents (net.nextNode + 1) .dirty (net.bumpVersion n) n

/-- Inside a compute, a value that is read is remembered. -/
def noteSeen (net : Net V) (n : NodeId) (v : V) : Net V :=
  if net.stack.isEmpty then net else { net with seen := (n, v) :: net.seen }

end Net

/-- A computation on a net: it may unwind with a fault. -/
abbrev Pull (V α : Type) : Type := Act (Net V) (Fault V) α

namespace Pull

variable {V α : Type}

def untrack (body : Pull V α) : Pull V α :=
  Act.modify (fun net => { net with untracked := net.untracked + 1 }) >>= fun _ =>
    body.guarded (Act.modify fun net => { net with untracked := net.untracked - 1 })

/-- A shared borrow of the value of `n`, held while `body` runs. -/
def borrowing (n : NodeId) (body : Pull V α) : Pull V α :=
  Act.modify (fun net => net.borrow n) >>= fun _ =>
    body.guarded (Act.modify fun net => net.giveBack n)

def runInContext (o : NodeId) (body : Pull V α) : Pull V α :=
  Act.get >>= fun net =>
    if o ∈ net.activeComputations then Act.raise (.reentered o)
    else
      Act.modify (fun net => net.enter o) >>= fun _ =>
        body.guarded (Act.modify fun t => t.leave net.untracked)

def assertNoCycle (n : NodeId) : Pull V Unit :=
  Act.get >>= fun net =>
    match net.cycleCheck n with
    | some fault => Act.modify (fun net => net.note n fault) >>= fun _ => Act.raise fault
    | none => pure ()

/-- `observe`, the panicking variant of `try_observe`. -/
def observe (layout : Layout) (n : NodeId) : Pull V Unit :=
  assertNoCycle n >>= fun _ => Act.modify fun net => net.recordEdge layout n

/-- Only thunks and memos have a hook that does something. -/
def refreshNode (next : NodeId → Pull V Unit) (n : NodeId) : Pull V Unit :=
  assertNoCycle n >>= fun _ => next n

def anyChanged (next : NodeId → Pull V Unit) : EdgeTable → Pull V Bool
  | [] => pure false
  | (d, version) :: rest =>
    refreshNode next d >>= fun _ => Act.get >>= fun net =>
      if net.version d ≠ version then pure true else anyChanged next rest

def dependenciesChanged (next : NodeId → Pull V Unit) (o : NodeId) : Pull V Bool :=
  Act.get >>= fun net => anyChanged next (net.dependencies o)

/-- The rest of a read, once the node is up to date and observed. -/
def readCached (n : NodeId) (body : V → Pull V α) : Pull V α :=
  borrowing n (Act.get >>= fun net =>
    match net.cached n with
    | some v => Act.modify (fun net => net.noteSeen n v) >>= fun _ => body v
    | none => Act.raise (.uncached n))

/-- `with` and `with_peek` of a signal, a thunk or a memo. -/
def read (layout : Layout) (next : NodeId → Pull V Unit) (tracked : Bool) (n : NodeId)
    (body : V → Pull V α) : Pull V α :=
  Act.get >>= fun net =>
    match net.signals n, net.computed n with
    | some _, _ =>
      (if tracked then observe layout n else pure ()) >>= fun _ => readCached n body
    | none, some _ =>
      assertNoCycle n >>= fun _ => next n >>= fun _ =>
        (if tracked then observe layout n else pure ()) >>= fun _ => readCached n body
    | none, none => Act.raise (.absent n)

/-- `RefCell::replace`, then `trigger`. -/
def overwrite (n : NodeId) (f : V → V) : Pull V V :=
  Act.get >>= fun net =>
    match net.signals n with
    | none => Act.raise (.absent n)
    | some s =>
      if 0 < net.borrows n then Act.raise (.busy n)
      else Act.modify (fun net => (net.setValue n (f s.value)).trigger n) >>= fun _ => pure s.value

/-- `Signal::set`: an equal value is not written. -/
def set (n : NodeId) (v : V) : Pull V (Option V) :=
  Act.get >>= fun net =>
    match net.signals n with
    | none => Act.raise (.absent n)
    | some s =>
      if s.same s.value v then pure none
      else overwrite n (fun _ => v) >>= fun previous => pure (some previous)

def perform (layout : Layout) (next : NodeId → Pull V Unit) :
    (op : Ask V) → (op.Closure → Pull V V) → Pull V op.Answer
  | .panic v, _ => Act.raise (.user v)
  | .catchUnwind, f => (f ()).attempt
  | .untrack, f => untrack (f ())
  | .withValue n, f => read layout next true n f
  | .withPeek n, f => read layout next false n f
  | .set n v, _ => set n v
  | .replace n v, _ => overwrite n fun _ => v
  | .update n f, _ => overwrite n f >>= fun _ => pure ()

/-- A script, given how its reads bring a node up to date. -/
def exec (layout : Layout) (next : NodeId → Pull V Unit) (p : Script V) : Pull V V :=
  p.interp (perform layout next)

/-- Whether the new value of `n` counts as a change. -/
def changed (n : NodeId) (value : V) : Pull V Bool :=
  Act.get >>= fun net =>
    match net.computed n with
    | none => pure false
    | some x =>
      match x.equals, x.value with
      | some equals, some current =>
        match equals current value with
        | .ok same => pure !same
        | .error v => Act.raise (.user v)
      | _, _ => pure true

/-- The new value is stored unless the old one is still borrowed. -/
def replaceValue (n : NodeId) (value : V) : Pull V Unit :=
  Act.get >>= fun net =>
    if 0 < net.borrows n then Act.raise (.busy n) else Act.modify fun net => net.store n value

/-- A compute that unwinds leaves its node dirty, so that the next read retries. -/
def recompute (layout : Layout) (next : NodeId → Pull V Unit) (n : NodeId) : Pull V Unit :=
  Act.get >>= fun net =>
    match net.computed n with
    | none => pure ()
    | some x =>
      Act.modify (fun net => net.setState n .clean) >>= fun _ =>
        ((if x.equals.isSome then borrowing n else id)
          (runInContext n (exec layout next (x.compute x.value)))).onUnwind
            (Act.modify fun net => net.setState n .dirty) >>= fun value =>
          changed n value >>= fun changed =>
            replaceValue n value >>= fun _ =>
              if changed then Act.modify fun net => net.bumpVersion n else pure ()

/-- The hook of a signal or an effect refreshes nothing. -/
def refresh (layout : Layout) (next : NodeId → Pull V Unit) (n : NodeId) : Pull V Unit :=
  Act.get >>= fun net =>
    match net.computed n with
    | none => pure ()
    | some x =>
      match x.state with
      | .clean => pure ()
      | .check =>
        dependenciesChanged next n >>= fun changed =>
          if changed then recompute layout next n else Act.modify fun net => net.setState n .clean
      | .dirty => recompute layout next n

/-- `refresh` with a bound on the nesting of calls. -/
def refreshing (layout : Layout) : ℕ → NodeId → Pull V Unit
  | 0, _ => Act.stop
  | depth + 1, n => refresh layout (refreshing layout depth) n

end Pull

/-- A read from outside a compute: `get`, `get` in an `untrack`, or `peek`. -/
inductive ReadMode where
  | tracked | untracked | peek
deriving DecidableEq

/-- What the host does between two states with no computation on the stack. `hold`
and `release` are the two ends of a `with`, whose closure is the steps between. -/
inductive NetOp (V : Type) where
  | signal (value : V) (same : V → V → Bool)
  | thunk (compute : Script V)
  | memo (compute : Option V → Script V) (equals : Equals V)
  | read (mode : ReadMode) (node : NodeId)
  | hold (mode : ReadMode) (node : NodeId)
  | release (node : NodeId)
  | set (signal : NodeId) (value : V)
  | replace (signal : NodeId) (value : V)
  | update (signal : NodeId) (f : V → V)

namespace Net

variable {V : Type}

def newSignal (net : Net V) (value : V) (same : V → V → Bool) : Net V :=
  { net with
    nextNode := net.nextNode + 1
    signals := Function.update net.signals net.nextNode (some { value, same })
    past := Function.update net.past net.nextNode (Function.update (net.past net.nextNode)
      (net.version net.nextNode) (some value)) }

def newComputed (net : Net V) (compute : Option V → Script V) (equals : Option (Equals V)) :
    Net V :=
  { net with
    nextNode := net.nextNode + 1
    computed := Function.update net.computed net.nextNode (some { compute, equals }) }

end Net

namespace Pull

variable {V : Type}

def readAs (layout : Layout) (next : NodeId → Pull V Unit) (n : NodeId) : ReadMode → Pull V V
  | .tracked => read layout next true n pure
  | .untracked => untrack (read layout next true n pure)
  | .peek => read layout next false n pure

/-- One step of the host, with the value that a read returns. -/
def step (layout : Layout) (depth : ℕ) : NetOp V → Pull V (Option V)
  | .signal v same => Act.modify (fun net => net.newSignal v same) >>= fun _ => pure none
  | .thunk p => Act.modify (fun net => net.newComputed (fun _ => p) none) >>= fun _ => pure none
  | .memo f equals => Act.modify (fun net => net.newComputed f (some equals)) >>= fun _ => pure none
  | .read mode n => readAs layout (refreshing layout depth) n mode >>= fun v => pure (some v)
  | .hold mode n => readAs layout (refreshing layout depth) n mode >>= fun v =>
      Act.modify (fun net => net.borrow n) >>= fun _ => pure (some v)
  | .release n => Act.modify (fun net => net.giveBack n) >>= fun _ => pure none
  | .set n v => set n v >>= fun _ => pure none
  | .replace n v => overwrite n (fun _ => v) >>= fun _ => pure none
  | .update n f => overwrite n f >>= fun _ => pure none

end Pull

/-- The nets that admitted steps lead to, whether they return or unwind. -/
inductive Net.Reached {V : Type} (layout : Layout) (admits : NetOp V → Prop) : Net V → Prop where
  | init : Net.Reached layout admits {}
  | returned {net t : Net V} (before : Net.Reached layout admits net) (op : NetOp V)
      (ok : admits op) (depth : ℕ) (a : Option V)
      (h : Pull.step layout depth op net = .ok a t) : Net.Reached layout admits t
  | unwound {net t : Net V} (before : Net.Reached layout admits net) (op : NetOp V)
      (ok : admits op) (depth : ℕ) (e : Fault V)
      (h : Pull.step layout depth op net = .panic e t) : Net.Reached layout admits t

end Adaptite

import Adaptite.World

set_option autoImplicit false

namespace Adaptite

open Unwinding

variable {V α : Type}

def untrack (body : Run V α) : Run V α :=
  Act.modify (fun w => { w with untracked := w.untracked + 1 }) >>= fun _ =>
    body.guarded (Act.modify fun w => { w with untracked := w.untracked - 1 })

def runInContext (env : Enumeration) (o : NodeId) (body : Run V α) : Run V α :=
  Act.get >>= fun w =>
    if o ∈ w.graph.activeComputations then Act.raise (.reentered o)
    else
      Act.modify (fun w => w.enter env o) >>= fun _ =>
        (body >>= fun a => Act.modify (fun w => w.push (.finished o)) >>= fun _ => pure a).guarded
          (Act.modify fun u => u.leave w.untracked)

def assertNoCycle (n : NodeId) : Run V Unit :=
  Act.get >>= fun w =>
    match w.graph.cycleCheck n with
    | some path => Act.raise (.cycle path)
    | none => pure ()

def observe (n : NodeId) : Run V Unit :=
  Act.get >>= fun w =>
    match w.graph.tryObserve (0 < w.untracked) n with
    | .error path => Act.raise (.cycle path)
    | .ok r => Act.modify fun w => (w.noteZombie n).observed n r

/-- The handle that is read through keeps the node in `meta`. -/
def observeLive (n : NodeId) : Run V Unit :=
  Act.get >>= fun w => if n ∈ w.graph.nodeMeta then observe n else Act.stop

def refreshNode (c : Calls V) (n : NodeId) : Run V Unit :=
  assertNoCycle n >>= fun _ => Act.get >>= fun w =>
    if n ∈ w.graph.observers then c.refresh n else pure ()

def recorded (env : Enumeration) (w : World V) (o : NodeId) : List (NodeId × ℕ) :=
  (env.order w.graph (w.graph.edgesOf o).keys).map fun d =>
    (d, ((w.graph.edgesOf o).lookup d).getD 0)

def anyChanged (c : Calls V) : List (NodeId × ℕ) → Run V Bool
  | [] => pure false
  | (d, version) :: rest =>
    refreshNode c d >>= fun _ => Act.get >>= fun w =>
      if w.graph.version d ≠ version then pure true else anyChanged c rest

def dependenciesChanged (c : Calls V) (env : Enumeration) (o : NodeId) : Run V Bool :=
  Act.get >>= fun w => anyChanged c (recorded env w o)

/-- Whether a new value counts as a change: there is none yet, there is no
comparator, or the comparator tells them apart. -/
def ComputedInner.changedBy (x : ComputedInner V) (next : V) : Bool :=
  match x.value, x.equals with
  | some current, some equals => !equals current next
  | _, _ => true

/-- The end of `recompute_inner`. -/
def World.store (w : World V) (n : NodeId) (next : V) : World V :=
  match w.computed n with
  | none => w
  | some x =>
    let stored := w.modifyComputed n fun x => { x with value := some next }
    if x.changedBy next then stored.bumpVersion n else stored

/-- A compute that unwinds leaves its node dirty, so that the next read retries. -/
def recompute (c : Calls V) (env : Enumeration) (n : NodeId) : Run V Unit :=
  Act.get >>= fun w =>
    match w.computed n with
    | none => pure ()
    | some x =>
      Act.modify (fun w => w.setState n .clean) >>= fun _ =>
        (runInContext env n (c.exec (x.compute x.value))).onUnwind
            (Act.modify fun w => w.setState n .dirty) >>= fun next =>
          Act.modify fun w => w.store n next

/-- The hook of an effect refreshes nothing. -/
def refresh (c : Calls V) (env : Enumeration) (n : NodeId) : Run V Unit :=
  Act.get >>= fun w =>
    match w.computed n with
    | none => pure ()
    | some x =>
      match x.state with
      | .clean => pure ()
      | .check =>
        dependenciesChanged c env n >>= fun changed =>
          if changed then recompute c env n else Act.modify fun w => w.setState n .clean
      | .dirty => recompute c env n

def World.cached (w : World V) (n : NodeId) : Option V :=
  match w.signals n with
  | some s => some s.value
  | none => (w.computed n).bind fun x => x.value

def readCached (n : NodeId) : Run V V :=
  Act.get >>= fun w =>
    match w.cached n with
    | some v => Act.modify (fun w => w.noteSaw n v) >>= fun _ => pure v
    | none => Act.raise (.uncached n)

/-- `get` of a signal, a thunk or a memo. -/
def getNode (c : Calls V) (n : NodeId) : Run V V :=
  Act.get >>= fun w =>
    match w.signals n, w.computed n with
    | some _, _ => observeLive n >>= fun _ => readCached n
    | none, some _ =>
      assertNoCycle n >>= fun _ => c.refresh n >>= fun _ => observeLive n >>= fun _ => readCached n
    | none, none => Act.stop

def peekCached (n : NodeId) : Run V V :=
  Act.get >>= fun w =>
    match w.cached n with
    | some v => pure v
    | none => Act.raise (.uncached n)

def peekNode (c : Calls V) (n : NodeId) : Run V V :=
  Act.get >>= fun w =>
    match w.signals n, w.computed n with
    | some _, _ => peekCached n
    | none, some _ => assertNoCycle n >>= fun _ => c.refresh n >>= fun _ => peekCached n
    | none, none => Act.stop

def World.setValue (w : World V) (n : NodeId) (v : V) : World V :=
  { w with signals := Function.update w.signals n ((w.signals n).map fun s => { s with value := v }) }

def World.write (env : Enumeration) (w : World V) (n : NodeId) (v : V) : World V :=
  (w.setValue n v).trigger env n

/-- `Signal::set`: an equal value is not written. -/
def setSignal (env : Enumeration) (n : NodeId) (v : V) : Run V (Option V) :=
  Act.get >>= fun w =>
    match w.signals n with
    | none => Act.stop
    | some s =>
      if s.same s.value v then pure none
      else Act.modify (fun w => w.write env n v) >>= fun _ => pure (some s.value)

/-- `Signal::update`, and `Signal::replace` where `f` is constant. -/
def updateSignal (env : Enumeration) (n : NodeId) (f : V → V) : Run V V :=
  Act.get >>= fun w =>
    match w.signals n with
    | none => Act.stop
    | some s => Act.modify (fun w => w.write env n (f s.value)) >>= fun _ => pure s.value

end Adaptite

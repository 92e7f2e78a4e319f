import Adaptite.Base.Program
import Adaptite.Graph

set_option autoImplicit false

/-!
# Programs that use a reactor

Everything a consumer hands to the library is a closure: the body of an effect,
a compute, a cleanup, a handler. Here it is a `Prog`: it calls operations of the
public interface and goes on with their answers. A handle is the id it wraps.
-/
namespace Adaptite

open Unwinding

abbrev FrameId : Type := ℕ
abbrev SubscriptionId : Type := ℕ

/-- The panics a consumer can meet: its own, and those the library raises. -/
inductive Payload (V : Type) where
  | user (value : V)
  | cycle (path : List NodeId)
  | reentered (observer : NodeId)
  | diverged (effect : NodeId)
  | uncached (node : NodeId)
  | cleanupInTeardown
  | cleanupOutsideOwner

/-- The operations. `drop` releases the last handle of a node that is not an
effect; `runReady` and `dropReady` consume an `EffectRun`. -/
inductive Call (V : Type) where
  | panic (value : V)
  | catchUnwind
  | untrack
  | get (node : NodeId)
  | peek (node : NodeId)
  | set (signal : NodeId) (value : V)
  | replace (signal : NodeId) (value : V)
  | update (signal : NodeId) (f : V → V)
  | observe (source : NodeId)
  | trigger (source : NodeId)
  | signal (value : V) (same : V → V → Bool)
  | thunk
  | memo (equals : V → V → Bool)
  | source
  | sourceWithHooks
  | event
  | effect
  | effectWith
  | disposeEffect (effect : NodeId)
  | drop (node : NodeId)
  | scope
  | scopeCatch
  | disposeScope (frame : FrameId)
  | owner
  | runIn (frame : FrameId)
  | unowned
  | onCleanup
  | emit (event : NodeId) (value : V)
  | subscribe (event : NodeId)
  | on (event : NodeId)
  | unsubscribe (subscription : SubscriptionId)
  | schedule
  | flushNow
  | runMicrotask
  | externalFlush
  | runReady (effect : NodeId)
  | dropReady (effect : NodeId)

namespace Call

variable {V : Type}

/-- The closures an operation takes, by the arguments they are called with. -/
@[reducible] def Closure : Call V → Type
  | catchUnwind | untrack | thunk | effect | effectWith | scope | runIn _ | unowned | onCleanup
  | schedule | externalFlush => Unit
  | memo _ => Option V
  | sourceWithHooks => Bool
  | scopeCatch => Option (Payload V)
  | subscribe _ | on _ => V
  | _ => Empty

@[reducible] def Answer : Call V → Type
  | panic _ => Empty
  | catchUnwind => Except (Payload V) V
  | get _ | peek _ | replace _ _ | untrack | runIn _ | unowned | externalFlush => V
  | set _ _ => Option V
  | signal _ _ | thunk | memo _ | source | sourceWithHooks | event | effect | effectWith => NodeId
  | scope | scopeCatch => FrameId × V
  | owner => Option FrameId
  | subscribe _ | on _ => SubscriptionId
  | _ => Unit

end Call

/-- The public interface of the library over values of type `V`. -/
@[reducible] def library (V : Type) : Signature where
  Op := Call V
  Closure := Call.Closure
  Answer := Call.Answer

abbrev Prog (V : Type) : Type := Program (library V) V

namespace Prog

variable {V : Type}

def panic (v : V) : Prog V := .call (.panic v) nofun nofun
def get (n : NodeId) (k : V → Prog V) : Prog V := .call (.get n) nofun k
def set (n : NodeId) (v : V) (k : Prog V) : Prog V := .call (.set n v) nofun fun _ => k
def signal [BEq V] (v : V) (k : NodeId → Prog V) : Prog V := .call (.signal v BEq.beq) nofun k
def memo [BEq V] (compute : Prog V) (k : NodeId → Prog V) : Prog V :=
  .call (.memo BEq.beq) (fun _ => compute) k
def effect (body : Prog V) (k : NodeId → Prog V) : Prog V := .call .effect (fun _ => body) k
def sourceWithHooks (hooks : Bool → Prog V) (k : NodeId → Prog V) : Prog V :=
  .call .sourceWithHooks hooks k
def observe (n : NodeId) (k : Prog V) : Prog V := .call (.observe n) nofun fun _ => k
def effectWith (body : Prog V) (k : NodeId → Prog V) : Prog V := .call .effectWith (fun _ => body) k
def disposeEffect (e : NodeId) (k : Prog V) : Prog V := .call (.disposeEffect e) nofun fun _ => k
def scopeCatch (body : Prog V) (handler : Payload V → Prog V) (k : Prog V) : Prog V :=
  .call .scopeCatch (fun p => p.elim body handler) fun _ => k
def onCleanup (cleanup k : Prog V) : Prog V := .call .onCleanup (fun _ => cleanup) fun _ => k
def flushNow (k : Prog V) : Prog V := .call .flushNow nofun fun _ => k
def runReady (e : NodeId) (k : Prog V) : Prog V := .call (.runReady e) nofun fun _ => k
def dropReady (e : NodeId) (k : Prog V) : Prog V := .call (.dropReady e) nofun fun _ => k

end Prog

end Adaptite

import Adaptite.Base.Runs
import Mathlib.Data.Nat.Notation
import Mathlib.Tactic.Common

set_option autoImplicit false

/-!
# A draining subscription

One subscription made with `on`: the subscriber that feeds its queue, the effect
that drains it and the handle over both. Consumer code runs in every call that
is on the stack, so that any operation may land between two steps of a call.
-/
namespace Adaptite

/-- What `on` hands to the owner, in this order. -/
inductive Part where
  | direct
  | effect
  | outer
deriving DecidableEq

/-- `emitting` remembers whether its snapshot still has the feeder to call,
`running` whether an error boundary encloses the effect, and `teardown` the
children its owner has taken and not yet disposed. -/
inductive DrainCall (V : Type) where
  | emitting (value : V) (waiting : Bool)
  | running (bounded : Bool)
  | disposing
  | teardown (parts : List Part)

/-- The owner that was current when `on` was called. -/
inductive DrainOwner where
  | unowned
  | alive
  | dead
deriving DecidableEq

/-- `registered` is the presence of the feeder among the subscribers, `direct`
and `active` are the flags of the two subscriptions, and `handle` is the handle of the
effect that the cancel closure of `on` owns. `fed` is not in the source: the values
pushed to the queue, each with whether the effect was alive. -/
structure Draining (V : Type) where
  owner : DrainOwner
  registered : Bool := false
  direct : Bool := true
  handle : Bool := true
  disposed : Bool := false
  active : Bool := true
  running : Bool := false
  children : List Part := []
  queue : List V := []
  calls : List (DrainCall V) := []
  fed : List (V × Bool) := []

/-- `reset` is a run of the effect that owns the subscription, or with `final`
the disposal of its owner; `startRun` says whether a boundary encloses the run.
`unsubscribeBorrowed` is made by the drop of a subscriber that is being removed. -/
inductive DrainOp (V : Type) where
  | emit (value : V)
  | feed
  | endEmit
  | unwindEmit
  | startRun (bounded : Bool)
  | takeQueue
  | endRun
  | panicRun
  | unsubscribe
  | unsubscribeBorrowed
  | reset (final : Bool)
  | teardownNext
  | endTeardown
  | endDispose
  | sweep

namespace Draining

variable {V : Type}

/-- `SubscriptionInner::unsubscribe` of the feeder's own subscription. -/
def unsubscribeDirect (s : Draining V) : Draining V :=
  if s.direct then { s with direct := false, registered := false } else s

/-- `EffectInner::dispose`, up to the teardown of the effect's own frame. -/
def disposeEffect (s : Draining V) : Draining V :=
  if s.disposed then s else { s with disposed := true, calls := .disposing :: s.calls }

/-- `SubscriptionInner::unsubscribe` with the cancel closure of `on`. -/
def unsubscribe (s : Draining V) : Draining V :=
  if s.active then { s with active := false }.unsubscribeDirect.disposeEffect else s

/-- The effect is kept alive by its owner and by its run. -/
def held (s : Draining V) : Bool :=
  decide (.effect ∈ s.children) || s.calls.any fun call =>
    match call with
    | .running _ => true
    | .teardown parts => decide (.effect ∈ parts)
    | _ => false

/-- The drop of the effect, if that was the last reference to it. -/
def release (s : Draining V) : Draining V := if s.handle || s.held then s else s.disposeEffect

/-- `SubscriptionInner::unsubscribe` while the map of subscribers is borrowed: the cancel
closure panics where it comes to that map, and drops its handle of the effect. -/
def unsubscribeBorrowed (s : Draining V) : Draining V :=
  if s.active then
    if s.direct then { s with active := false, direct := false, handle := false }.release
    else { s with active := false }.disposeEffect
  else s

def disposeOwned (s : Draining V) : Part → Draining V
  | .direct => s.unsubscribeDirect
  | .effect => s.disposeEffect
  | .outer => s.unsubscribe

def isDisposedOwned (s : Draining V) : Part → Bool
  | .direct => !s.direct
  | .effect => s.disposed
  | .outer => !s.active

/-- `adopt_into_current`. -/
def adopt (s : Draining V) (part : Part) : Draining V :=
  match s.owner with
  | .unowned => s
  | .alive => { s with children := s.children ++ [part] }
  | .dead => s.disposeOwned part

/-- `Reactor::on`. -/
def on (V : Type) (owner : DrainOwner) : Draining V :=
  ((({ owner, registered := true } : Draining V).adopt .direct).adopt .effect).adopt .outer

/-- `Event::emit` takes its snapshot of the subscribers. -/
def emit (s : Draining V) (value : V) : Draining V :=
  { s with calls := .emitting value s.registered :: s.calls }

def feed (s : Draining V) : Option (Draining V) :=
  match s.calls with
  | .emitting value true :: rest =>
    some { s with
      queue := s.queue ++ [value]
      fed := s.fed ++ [(value, !s.disposed)]
      calls := .emitting value false :: rest }
  | _ => none

/-- `run_scheduled`; a run that is requested during a run is deferred. -/
def startRun (s : Draining V) (bounded : Bool) : Draining V :=
  if s.disposed || s.running then s
  else { s with running := true, calls := .running bounded :: s.calls }

/-- The handler panics out of the run; a boundary disposes the effect. -/
def panicRun (s : Draining V) : Option (Draining V) :=
  match s.calls with
  | .running bounded :: rest =>
    let s := { s with running := false, calls := rest }
    some (if bounded then s.disposeEffect else s.release)
  | _ => none

/-- `OwnerFrame::reset`, or `OwnerFrame::dispose` if it is `final`. -/
def reset (s : Draining V) (final : Bool) : Draining V :=
  if s.owner = .alive then
    { s with
      owner := if final then .dead else .alive
      children := []
      calls := .teardown s.children.reverse :: s.calls }
  else s

def step (s : Draining V) (op : DrainOp V) : Option (Draining V) :=
  match op, s.calls with
  | .emit value, _ => some (s.emit value)
  | .feed, _ => s.feed
  | .endEmit, .emitting _ false :: rest => some { s with calls := rest }
  | .unwindEmit, .emitting _ _ :: rest => some { s with calls := rest }
  | .startRun bounded, _ => some (s.startRun bounded)
  | .takeQueue, .running _ :: _ => some { s with queue := [] }
  | .endRun, .running _ :: rest => some { s with running := false, calls := rest }.release
  | .panicRun, _ => s.panicRun
  | .unsubscribe, _ => some s.unsubscribe
  | .unsubscribeBorrowed, _ => some s.unsubscribeBorrowed
  | .reset final, _ => some (s.reset final)
  | .teardownNext, .teardown (part :: parts) :: rest =>
    some ({ s with calls := .teardown parts :: rest }.disposeOwned part).release
  | .endTeardown, .teardown [] :: rest => some { s with calls := rest }
  | .endDispose, .disposing :: rest => some { s with calls := rest }
  | .sweep, _ => some { s with children := s.children.filter fun part => !s.isDisposedOwned part }
  | _, _ => none

/-- An error boundary is about to dispose the effect of a subscription that is
active, or an emission calls the feeder of one that has been cancelled, or one that is
active is cancelled by the drop of a subscriber that is being removed. -/
def splits (s : Draining V) (op : DrainOp V) : Bool :=
  match op, s.calls with
  | .panicRun, .running true :: _ => s.active
  | .feed, .emitting _ true :: _ => !s.active
  | .unsubscribeBorrowed, _ => s.active
  | _, _ => false

/-- The feeder, the effect and the handle agree, and nothing was fed in vain. -/
structure Together (s : Draining V) : Prop where
  feeder : s.registered = true ↔ s.disposed = false
  handle : s.disposed = false ↔ s.active = true
  taken : ∀ p ∈ s.fed, p.2 = true

/-- As long as the subscription is active, the owner holds all of it or none, and
takes it down through the handle. -/
structure Joined (s : Draining V) : Prop where
  handle : s.handle = true
  registered : s.registered = s.active
  direct : s.direct = s.active
  disposed : s.disposed = !s.active
  children : s.active = true → s.children = [] ∨ s.children = [.direct, .effect, .outer]
  teardown : s.active = true → ∀ parts, .teardown parts ∈ s.calls →
    parts = [] ∨ parts = [.outer, .effect, .direct]
  taken : ∀ p ∈ s.fed, p.2 = true

section Steps

variable {s t : Draining V}

theorem Joined.together (h : s.Joined) : s.Together := by
  refine ⟨?_, ?_, h.taken⟩ <;> rw [h.disposed]
  · rw [h.registered]
    cases s.active <;> simp
  · cases s.active <;> simp

theorem joined_on (owner : DrainOwner) : (on V owner).Joined := by
  cases owner <;> constructor <;> simp [on, adopt, disposeOwned, unsubscribeDirect, disposeEffect,
    Draining.unsubscribe]

theorem release_of_handle (h : s.handle = true) : s.release = s := by
  unfold release
  rw [h]
  rfl

structure Over (s : Draining V) : Prop where
  handle : s.handle = true
  registered : s.registered = false
  direct : s.direct = false
  disposed : s.disposed = true
  active : s.active = false

theorem Joined.over (h : s.Joined) (ha : s.active = false) : s.Over :=
  ⟨h.handle, h.registered.trans ha, h.direct.trans ha, by rw [h.disposed, ha]; rfl, ha⟩

theorem Over.joined (h : s.Over) (ht : ∀ p ∈ s.fed, p.2 = true) : s.Joined where
  handle := h.handle
  registered := h.registered.trans h.active.symm
  direct := h.direct.trans h.active.symm
  disposed := by rw [h.disposed, h.active]; rfl
  children ha := by simp [h.active] at ha
  teardown ha := by simp [h.active] at ha
  taken := ht

theorem Over.disposeOwned (h : s.Over) (part : Part) : s.disposeOwned part = s := by
  cases part with
  | direct => exact if_neg (by simp [h.direct])
  | effect => exact if_pos h.disposed
  | outer => exact if_neg (by simp [h.active])

theorem Joined.unsubscribe (h : s.Joined) :
    s.unsubscribe.Over ∧ s.unsubscribe.fed = s.fed := by
  unfold Draining.unsubscribe
  split
  next ha =>
    have hd : s.direct = true := h.direct.trans ha
    have hdis : s.disposed = false := by rw [h.disposed, ha]; rfl
    unfold unsubscribeDirect disposeEffect
    simp only [hd, ↓reduceIte, hdis, Bool.false_eq_true]
    exact ⟨⟨h.handle, rfl, rfl, rfl, rfl⟩, trivial⟩
  next ha => exact ⟨h.over (by simpa using ha), rfl⟩

/-- A step that changes neither the subscription nor what its owner holds. -/
theorem Joined.same (h : s.Joined) (hh : t.handle = s.handle)
    (hr : t.registered = s.registered) (hd : t.direct = s.direct)
    (hdis : t.disposed = s.disposed) (ha : t.active = s.active) (hc : t.children = s.children)
    (hcalls : ∀ parts, .teardown parts ∈ t.calls → .teardown parts ∈ s.calls)
    (hf : ∀ p ∈ t.fed, p.2 = true) : t.Joined where
  handle := hh.trans h.handle
  registered := by rw [hr, ha]; exact h.registered
  direct := by rw [hd, ha]; exact h.direct
  disposed := by rw [hdis, ha]; exact h.disposed
  children := by rw [ha, hc]; exact h.children
  teardown hact parts hp := h.teardown (ha ▸ hact) parts (hcalls parts hp)
  taken := hf

theorem Joined.reset (h : s.Joined) (final : Bool) : (s.reset final).Joined := by
  unfold Draining.reset
  split
  · refine ⟨h.handle, h.registered, h.direct, h.disposed, fun _ => Or.inl rfl,
      fun ha parts hp => ?_, h.taken⟩
    rcases List.mem_cons.mp hp with hp | hp
    · cases hp
      rcases h.children ha with hc | hc <;> simp [hc]
    · exact h.teardown ha parts hp
  · exact h

theorem Joined.teardownNext (h : s.Joined) {part : Part} {parts : List Part}
    {rest : List (DrainCall V)} (hc : s.calls = .teardown (part :: parts) :: rest) :
    ({ s with calls := .teardown parts :: rest }.disposeOwned part).release.Joined := by
  rcases Bool.eq_false_or_eq_true s.active with ha | ha
  case inr =>
    have hover : ({ s with calls := .teardown parts :: rest } : Draining V).Over :=
      { h.over ha with }
    rw [hover.disposeOwned, release_of_handle hover.handle]
    exact hover.joined h.taken
  case inl =>
    -- the handle comes first, and takes the other two along
    have hparts := h.teardown ha (part :: parts) (hc ▸ List.mem_cons_self)
    obtain ⟨rfl, rfl⟩ : part = .outer ∧ parts = [.effect, .direct] := by simpa using hparts
    have hd : s.direct = true := h.direct.trans ha
    have hdis : s.disposed = false := by rw [h.disposed, ha]; rfl
    have hh := h.handle
    rw [release_of_handle (by simp [Draining.disposeOwned, Draining.unsubscribe, ha,
      unsubscribeDirect, hd, disposeEffect, hdis, hh])]
    refine Over.joined ?_ ?_
    · constructor <;> simp [Draining.disposeOwned, Draining.unsubscribe, ha, unsubscribeDirect, hd,
        disposeEffect, hdis, hh]
    · simpa [Draining.disposeOwned, Draining.unsubscribe, ha, unsubscribeDirect, hd, disposeEffect,
        hdis] using h.taken

theorem Joined.panicRun (h : s.Joined) (hn : s.splits .panicRun = false)
    (ht : s.panicRun = some t) : t.Joined := by
  unfold Draining.panicRun at ht
  split at ht
  next bounded rest hc =>
    cases ht
    have hleft : ({ s with running := false, calls := rest } : Draining V).Joined :=
      h.same rfl rfl rfl rfl rfl rfl (fun _ hp => hc ▸ List.mem_cons_of_mem _ hp) h.taken
    cases bounded with
    | false =>
      rw [if_neg Bool.false_ne_true, release_of_handle hleft.handle]
      exact hleft
    | true =>
      have ha : s.active = false := by simpa [splits, hc] using hn
      have hdis := (h.over ha).disposed
      unfold disposeEffect
      simpa [hdis] using hleft
  · cases ht

theorem Joined.feed (h : s.Joined) (hn : s.splits .feed = false) (ht : s.feed = some t) :
    t.Joined := by
  unfold Draining.feed at ht
  split at ht
  next value rest hc =>
    cases ht
    have ha : s.active = true := by simpa [splits, hc] using hn
    refine h.same rfl rfl rfl rfl rfl rfl (fun parts hp => ?_) fun p hp => ?_
    · rw [hc]
      exact List.mem_cons_of_mem _ (List.mem_of_ne_of_mem (by simp) hp)
    · rcases List.mem_append.mp hp with hp | hp
      · exact h.taken p hp
      · rw [List.mem_singleton.mp hp, h.disposed, ha]
        rfl
  · cases ht

theorem Joined.sweep (h : s.Joined) :
    ({ s with children := s.children.filter fun part => !s.isDisposedOwned part } :
      Draining V).Joined := by
  refine ⟨h.handle, h.registered, h.direct, h.disposed, fun ha => ?_, h.teardown, h.taken⟩
  have hkeep : (s.children.filter fun part => !s.isDisposedOwned part) = s.children := by
    refine List.filter_eq_self.mpr fun part _ => ?_
    have hd : s.direct = true := h.direct.trans ha
    have hdis : s.disposed = false := by rw [h.disposed, show s.active = true from ha]; rfl
    cases part <;> simp [isDisposedOwned, hd, hdis, show s.active = true from ha]
  rw [show ({ s with children := _ } : Draining V).children = _ from hkeep]
  exact h.children ha

theorem Joined.step (h : s.Joined) {op : DrainOp V} (hn : s.splits op = false)
    (ht : s.step op = some t) : t.Joined := by
  have hpop : ∀ {call rest}, s.calls = call :: rest → ∀ parts, .teardown parts ∈ rest →
      .teardown parts ∈ s.calls := fun hc _ hp => hc ▸ List.mem_cons_of_mem _ hp
  unfold Draining.step at ht
  split at ht
  all_goals try cases ht
  next => exact h.same rfl rfl rfl rfl rfl rfl (fun _ hp => by simpa [Draining.emit] using hp) h.taken
  next => exact h.feed hn ht
  next hc => exact h.same rfl rfl rfl rfl rfl rfl (hpop hc) h.taken
  next hc => exact h.same rfl rfl rfl rfl rfl rfl (hpop hc) h.taken
  next =>
    unfold Draining.startRun
    split
    · exact h
    · exact h.same rfl rfl rfl rfl rfl rfl (fun _ hp => by simpa using hp) h.taken
  next => exact h.same rfl rfl rfl rfl rfl rfl (fun _ hp => hp) h.taken
  next hc =>
    rw [release_of_handle (by exact h.handle)]
    exact h.same rfl rfl rfl rfl rfl rfl (hpop hc) h.taken
  next => exact h.panicRun hn ht
  next =>
    obtain ⟨hover, hfed⟩ := h.unsubscribe
    exact hover.joined (hfed ▸ h.taken)
  next =>
    have ha : s.active = false := by simpa [splits] using hn
    unfold Draining.unsubscribeBorrowed
    rw [if_neg (by simp [ha])]
    exact h
  next => exact h.reset _
  next hc => exact h.teardownNext hc
  next hc => exact h.same rfl rfl rfl rfl rfl rfl (hpop hc) h.taken
  next hc => exact h.same rfl rfl rfl rfl rfl rfl (hpop hc) h.taken
  next => exact h.sweep

theorem Joined.split (h : s.Joined) {op : DrainOp V} (hn : s.splits op = true)
    (ht : s.step op = some t) : ¬ t.Together := by
  intro htog
  unfold splits at hn
  split at hn
  next rest hc =>
    have hdis : s.disposed = false := by rw [h.disposed, hn]; rfl
    simp only [Draining.step, Draining.panicRun, hc, Option.some.injEq, ↓reduceIte,
      disposeEffect, hdis, Bool.false_eq_true] at ht
    subst ht
    simpa [hn] using htog.handle
  next value rest hc =>
    have hover := h.over (by simpa using hn)
    simp only [Draining.step, Draining.feed, hc, Option.some.injEq] at ht
    subst ht
    have hfed := htog.taken (value, !s.disposed) (List.mem_append_right _ (List.mem_singleton_self _))
    simp [hover.disposed] at hfed
  next =>
    have hreg : s.registered = true := h.registered.trans hn
    have hdis : s.disposed = false := by rw [h.disposed, hn]; rfl
    simp only [Draining.step, Draining.unsubscribeBorrowed, hn, h.direct, ↓reduceIte,
      Option.some.injEq] at ht
    subst ht
    unfold release at htog
    split at htog
    · -- the effect outlives the handle
      simpa [hdis] using htog.handle
    · -- the feeder outlives the effect
      have hgone := htog.feeder
      simp [disposeEffect, hdis, hreg] at hgone
  · cases hn

/-- The feeder is registered, the effect is alive and the handle is active all at
once, in every run without a split; and a split is one indeed. -/
theorem halves_live_and_die_together (V : Type) (owner : DrainOwner) (s : Draining V)
    (h : Runs.Reaches step (fun s op => !s.splits op) (on V owner) s) :
    s.Together ∧ ∀ op t, s.splits op = true → s.step op = some t → ¬ t.Together := by
  have hj : s.Joined := h.invariant Joined (joined_on owner) fun _ _ _ hs hn ht =>
    hs.step (by simpa using hn) ht
  exact ⟨hj.together, fun op t hn ht => hj.split hn ht⟩

/-- A boundary contains the panic of a handler. -/
theorem boundary_leaves_the_feeder :
    ∃ s : Draining ℕ, Runs.run step (on ℕ .unowned) [.emit 0, .feed, .endEmit, .startRun true,
      .takeQueue, .panicRun, .endDispose, .emit 1, .feed, .endEmit] = some s ∧ s.calls = [] ∧
      s.disposed = true ∧ s.registered = true ∧ s.active = true ∧ s.queue = [1] :=
  ⟨_, rfl, rfl, rfl, rfl, rfl, rfl⟩

theorem halves_die_with_their_owner :
    ∃ s : Draining ℕ, s.active = false ∧ s.Together := by
  let ops : List (DrainOp ℕ) := [.emit 0, .feed, .endEmit, .startRun true, .takeQueue,
    .reset true, .teardownNext, .endDispose, .teardownNext, .teardownNext, .endTeardown,
    .panicRun]
  refine ⟨(Runs.run step (on ℕ .alive) ops).getD (on ℕ .alive), rfl, ?_⟩
  exact (halves_live_and_die_together ℕ .alive _
    (Runs.Reaches.run (fun (s : Draining ℕ) op => !s.splits op) ops .init rfl rfl)).1

end Steps

end Draining

end Adaptite

import Adaptite.Base.Runs
import Adaptite.World

set_option autoImplicit false

/-!
# Watches

A watch is a memo of the source and an effect that reads it and calls the handler. The memo is
private to the watch, so that only the effect refreshes it. The source is pure: it runs to its
end, or panics, before anything else happens. Everything else that the program does comes down to
writes, of what the source reads, and to jobs of the effect, in any order.
-/
namespace Adaptite

/-- `PartialEq`. -/
structure PartialEq (V : Type) where
  eq : V → V → Bool
  symm : ∀ a b, eq a b = true → eq b a = true
  trans : ∀ a b c, eq a b = true → eq b c = true → eq a c = true

/-- A call of the handler. It is `upset` when a run of the effect has failed since the last call
that completed. -/
structure HandlerCall (V : Type) where
  new : V
  old : Option V
  upset : Bool
  completed : Bool := false

/-- What `dependencies_changed` answers for the memo: its dependencies may panic. -/
inductive Verdict where
  | unchanged
  | changed
  | panics

/-- `recorded` is the edge from the effect to the memo, `handling` the value that a running handler
was called with. `upset` and `calls`, latest first, are not in the source. -/
structure Watch (σ V : Type) where
  signals : σ
  gatedState : State := .dirty
  gatedValue : Option V := none
  gatedVersion : ℕ := 0
  recorded : Option ℕ := none
  state : State := .dirty
  scheduled : Bool := true
  jobs : ℕ := 1
  rerunAfterCurrent : Bool := false
  handling : Option V := none
  previous : Option V := none
  upset : Bool := false
  calls : List (HandlerCall V) := []

/-- `write` changes what the source reads and marks the memo, or does not reach it. `run` is the
job of the effect, in a drain that has or has not exhausted its runs. -/
inductive WatchOp (σ : Type) where
  | write (signals : σ) (mark : Option Mark)
  | run (verdict : Verdict) (exhausted : Bool)
  | finishHandler
  | panicHandler

namespace Watch

variable {σ V P : Type}

/-- `EffectInner::schedule`. -/
def schedule (s : Watch σ V) : Watch σ V :=
  if s.scheduled then s else { s with scheduled := true, jobs := s.jobs + 1 }

/-- `EffectInner::mark`, where the effect has read the memo. -/
def markEffect (s : Watch σ V) (mark : Mark) : Watch σ V :=
  if s.recorded.isSome then { s with state := s.state.raise mark }.schedule else s

/-- `mark_computed`, of the memo. -/
def markGated (s : Watch σ V) (mark : Mark) : Watch σ V :=
  if s.gatedState.rank < mark.toState.rank then
    let t := { s with gatedState := mark.toState }
    if s.gatedState = .clean then t.markEffect .check else t
  else s

def write (s : Watch σ V) (signals : σ) (mark : Option Mark) : Watch σ V :=
  let s := { s with signals }
  match mark with
  | none => s
  | some mark => s.markGated mark

/-- `MemoInner::recompute_inner`; the error is the state in which the panic leaves. -/
def recompute (source : σ → Except P V) (p : PartialEq V) (s : Watch σ V) :
    Except (Watch σ V) (Watch σ V) :=
  match source s.signals with
  | .error _ => .error { s with gatedState := .dirty }
  | .ok next =>
    let changed := s.gatedValue.all fun current => !p.eq current next
    .ok { s with
      gatedState := .clean
      gatedValue := some next
      gatedVersion := if changed then s.gatedVersion + 1 else s.gatedVersion }

/-- `MemoInner::refresh`. -/
def refresh (source : σ → Except P V) (p : PartialEq V) (verdict : Verdict) (s : Watch σ V) :
    Except (Watch σ V) (Watch σ V) :=
  match s.gatedState, verdict with
  | .clean, _ => .ok s
  | .check, .unchanged => .ok { s with gatedState := .clean }
  | .check, .panics => .error s
  | .check, .changed | .dirty, _ => s.recompute source p

def fail (s : Watch σ V) : Watch σ V := { s with upset := true }

/-- The body of the effect, up to the call of the handler. -/
def enterBody (source : σ → Except P V) (p : PartialEq V) (verdict : Verdict) (s : Watch σ V) :
    Watch σ V :=
  match { s with recorded := none }.refresh source p verdict with
  | .error t => t.fail
  | .ok t =>
    match t.gatedValue with
    | none => t
    | some new =>
      { t with
        recorded := some t.gatedVersion
        handling := some new
        calls := { new, old := t.previous, upset := t.upset } :: t.calls }

/-- `check_divergence`, then the body. -/
def attempt (source : σ → Except P V) (p : PartialEq V) (verdict : Verdict) (exhausted : Bool)
    (s : Watch σ V) : Watch σ V :=
  if exhausted then s.fail else s.enterBody source p verdict

/-- `run_scheduled_inner`. -/
def runScheduled (source : σ → Except P V) (p : PartialEq V) (verdict : Verdict)
    (exhausted : Bool) (s : Watch σ V) : Watch σ V :=
  let s := { s with scheduled := false }
  if s.handling.isSome then { s with rerunAfterCurrent := true }
  else
    let t := { s with state := .clean }
    match s.state, s.recorded with
    | .clean, _ | .check, none => t
    | .dirty, _ => t.attempt source p verdict exhausted
    | .check, some version =>
      match t.refresh source p verdict with
      | .error u => { u.fail with state := .dirty }.schedule
      | .ok u => if u.gatedVersion = version then u else u.attempt source p verdict exhausted

def finishHandler (s : Watch σ V) (new : V) : Watch σ V :=
  let t := { s with
    handling := none
    previous := some new
    upset := false
    rerunAfterCurrent := false
    calls := s.calls.modifyHead fun c => { c with completed := true } }
  if s.rerunAfterCurrent then t.schedule else t

def step (source : σ → Except P V) (p : PartialEq V) (s : Watch σ V) :
    WatchOp σ → Option (Watch σ V)
  | .write signals mark => some (s.write signals mark)
  | .run verdict exhausted =>
    if 0 < s.jobs then
      some ({ s with jobs := s.jobs - 1 }.runScheduled source p verdict exhausted)
    else none
  | .finishHandler => s.handling.map s.finishHandler
  | .panicHandler => s.handling.map fun _ => { s.fail with handling := none }

/-- The states of a watch after any writes and jobs. -/
abbrev Reached (source : σ → Except P V) (p : PartialEq V) (s : Watch σ V) : Prop :=
  ∃ signals, Runs.Reaches (step source p) (fun _ _ => true = true) { signals } s

/-- The value that the last completed of the calls was made with. -/
def lastHandled (calls : List (HandlerCall V)) : Option V :=
  (calls.find? HandlerCall.completed).map HandlerCall.new

/-- Each call gets what the last completed call before it was made with. -/
def Chained : List (HandlerCall V) → Prop
  | [] => True
  | c :: calls => c.old = lastHandled calls ∧ Chained calls

/-- What the handler was last called with is the value of the memo, up to equality, and a run of
the effect would verify that. -/
structure Holds (p : PartialEq V) (s : Watch σ V) (v : V) : Prop where
  verified : s.state ≠ .dirty
  recorded : s.recorded = some s.gatedVersion
  value : ∃ w, s.gatedValue = some w ∧ (w = v ∨ p.eq v w = true)

/-- Each call continues the chain, and unless it is upset brings a real change. -/
structure Told (p : PartialEq V) (s : Watch σ V) : Prop where
  chained : Chained s.calls
  previous : s.previous = lastHandled s.calls
  changes : ∀ c ∈ s.calls, c.upset = false → ∀ v, c.old = some v → p.eq v c.new = false

/-- The memo holds what a running handler was called with, and what the last one has handled,
unless a run has failed. -/
structure Attuned (p : PartialEq V) (s : Watch σ V) : Prop where
  handling : ∀ v, s.handling = some v → s.Holds p v ∧
    ∃ c calls, s.calls = c :: calls ∧ c.new = v ∧ c.completed = false
  calm : s.handling = none → s.upset = false → ∀ v, s.previous = some v → s.Holds p v

/-- What the handler knows of the watch is left alone. -/
structure SameCalls (s t : Watch σ V) : Prop where
  handling : t.handling = s.handling
  previous : t.previous = s.previous
  upset : t.upset = s.upset
  calls : t.calls = s.calls

variable {source : σ → Except P V} {p : PartialEq V} {s t : Watch σ V} {v w : V}
  {verdict : Verdict} {exhausted : Bool}

section Told

theorem Told.same (h : s.Told p) (hp : t.previous = s.previous) (hc : t.calls = s.calls) :
    t.Told p := by
  constructor
  · rw [hc]
    exact h.chained
  · rw [hp, hc]
    exact h.previous
  · rw [hc]
    exact h.changes

theorem Attuned.keep (h : s.Attuned p) (hs : s.SameCalls t)
    (hh : ∀ v, s.Holds p v → t.Holds p v) : t.Attuned p := by
  constructor
  · intro v hv
    rw [hs.handling] at hv
    rw [hs.calls]
    exact ⟨hh v (h.handling v hv).1, (h.handling v hv).2⟩
  · intro hn hu v hv
    rw [hs.handling] at hn
    rw [hs.upset] at hu
    rw [hs.previous] at hv
    exact hh v (h.calm hn hu v hv)

theorem attuned_of_upset (hn : s.handling = none) (hu : s.upset = true) : s.Attuned p :=
  ⟨fun v hv => by simp [hn] at hv, fun _ hf => by simp [hu] at hf⟩

theorem sameCalls_schedule (s : Watch σ V) : s.SameCalls s.schedule := by
  unfold schedule
  split <;> exact ⟨rfl, rfl, rfl, rfl⟩

theorem Holds.schedule (h : s.Holds p v) : s.schedule.Holds p v := by
  unfold Watch.schedule
  split <;> exact ⟨h.verified, h.recorded, h.value⟩

theorem sameCalls_markEffect (s : Watch σ V) (mark : Mark) : s.SameCalls (s.markEffect mark) := by
  unfold markEffect
  split
  · obtain ⟨h1, h2, h3, h4⟩ := sameCalls_schedule { s with state := s.state.raise mark }
    exact ⟨h1, h2, h3, h4⟩
  · exact ⟨rfl, rfl, rfl, rfl⟩

theorem raise_check (h : s.state ≠ .dirty) : s.state.raise .check ≠ .dirty := by
  cases hs : s.state with
  | dirty => exact absurd hs h
  | _ => decide

theorem Holds.markEffect (h : s.Holds p v) : (s.markEffect .check).Holds p v := by
  unfold Watch.markEffect
  split
  · exact Holds.schedule ⟨raise_check h.verified, h.recorded, h.value⟩
  · exact h

theorem sameCalls_write (s : Watch σ V) (signals : σ) (mark : Option Mark) :
    s.SameCalls (s.write signals mark) := by
  cases mark with
  | none => exact ⟨rfl, rfl, rfl, rfl⟩
  | some mark =>
    unfold write markGated
    dsimp only
    split
    · split
      · obtain ⟨h1, h2, h3, h4⟩ :=
          sameCalls_markEffect { s with signals, gatedState := mark.toState } .check
        exact ⟨h1, h2, h3, h4⟩
      · exact ⟨rfl, rfl, rfl, rfl⟩
    · exact ⟨rfl, rfl, rfl, rfl⟩

theorem Holds.write (h : s.Holds p v) (signals : σ) (mark : Option Mark) :
    (s.write signals mark).Holds p v := by
  cases mark with
  | none => exact ⟨h.verified, h.recorded, h.value⟩
  | some mark =>
    unfold Watch.write markGated
    dsimp only
    split
    · split
      · exact Holds.markEffect ⟨h.verified, h.recorded, h.value⟩
      · exact ⟨h.verified, h.recorded, h.value⟩
    · exact ⟨h.verified, h.recorded, h.value⟩

/-- What a refresh of the memo does: the version counts the changes of its value. -/
structure Refreshed (p : PartialEq V) (s t : Watch σ V) : Prop where
  calls : s.SameCalls t
  state : t.state = s.state
  recorded : t.recorded = s.recorded
  clean : t.gatedState = .clean
  value : t.gatedVersion = s.gatedVersion ∧ (t.gatedValue = s.gatedValue ∨
      ∃ x y, s.gatedValue = some x ∧ t.gatedValue = some y ∧ p.eq x y = true) ∨
    t.gatedVersion = s.gatedVersion + 1 ∧
      ∃ y, t.gatedValue = some y ∧ ∀ x, s.gatedValue = some x → p.eq x y = false

theorem recompute_ok (h : s.recompute source p = .ok t) : s.Refreshed p t := by
  unfold recompute at h
  cases hs : source s.signals with
  | error e => simp [hs] at h
  | ok next =>
    simp only [hs, Except.ok.injEq] at h
    subst h
    refine ⟨⟨rfl, rfl, rfl, rfl⟩, rfl, rfl, rfl, ?_⟩
    cases hv : s.gatedValue with
    | none => exact .inr ⟨by simp, next, rfl, fun x hx => by simp at hx⟩
    | some x =>
      cases he : p.eq x next with
      | true => exact .inl ⟨by simp [he], .inr ⟨x, next, rfl, rfl, he⟩⟩
      | false =>
        exact .inr ⟨by simp [he], next, rfl, fun y hy => by rwa [← Option.some.inj hy]⟩

theorem refresh_of_clean (h : s.gatedState = .clean) :
    s.refresh source p verdict = .ok s := by
  unfold refresh
  rw [h]

theorem refresh_ok (h : s.refresh source p verdict = .ok t) : s.Refreshed p t := by
  unfold refresh at h
  split at h
  next hc =>
    cases h
    exact ⟨⟨rfl, rfl, rfl, rfl⟩, rfl, rfl, hc, .inl ⟨rfl, .inl rfl⟩⟩
  · cases h
    exact ⟨⟨rfl, rfl, rfl, rfl⟩, rfl, rfl, rfl, .inl ⟨rfl, .inl rfl⟩⟩
  · cases h
  · exact recompute_ok h
  · exact recompute_ok h

theorem recompute_error (h : s.recompute source p = .error t) : s.SameCalls t := by
  unfold recompute at h
  cases hs : source s.signals with
  | ok next => simp [hs] at h
  | error e =>
    simp only [hs, Except.error.injEq] at h
    subst h
    exact ⟨rfl, rfl, rfl, rfl⟩

theorem refresh_error (h : s.refresh source p verdict = .error t) : s.SameCalls t := by
  unfold refresh at h
  split at h
  · cases h
  · cases h
  · cases h
    exact ⟨rfl, rfl, rfl, rfl⟩
  · exact recompute_error h
  · exact recompute_error h

/-- A run enters the body. A handler that was not upset gets what the verification has found. -/
theorem Told.enterBody (h : s.Told p) (hn : s.handling = none) (hd : s.state ≠ .dirty)
    (hc : s.upset = false → ∀ v, s.previous = some v →
      s.gatedState = .clean ∧ ∃ w, s.gatedValue = some w ∧ p.eq v w = false) :
    (s.enterBody source p verdict).Told p ∧ (s.enterBody source p verdict).Attuned p := by
  unfold Watch.enterBody
  cases hr : ({ s with recorded := none } : Watch σ V).refresh source p verdict with
  | error t =>
    have hsame := refresh_error hr
    exact ⟨h.same hsame.previous hsame.calls, attuned_of_upset (hsame.handling.trans hn) rfl⟩
  | ok t =>
    have hfresh := refresh_ok hr
    have hsame := hfresh.calls
    have htold : t.Told p := h.same hsame.previous hsame.calls
    -- after a verification the memo is clean, and the body reads what was verified
    have hread : t.upset = false → ∀ v, t.previous = some v →
        ∃ w, t.gatedValue = some w ∧ p.eq v w = false := by
      intro hu v hv
      obtain ⟨hclean, w, hw, he⟩ :=
        hc (hsame.upset.symm.trans hu) v (hsame.previous.symm.trans hv)
      rw [refresh_of_clean (s := { s with recorded := none }) hclean, Except.ok.injEq] at hr
      subst hr
      exact ⟨w, hw, he⟩
    dsimp only
    split
    next hnone =>
      refine ⟨htold, ⟨fun v hv => ?_, fun _ hu v hv => ?_⟩⟩
      · simp [hsame.handling.trans hn] at hv
      · obtain ⟨w, hw, -⟩ := hread hu v hv
        simp [hnone] at hw
    next new hnew =>
      refine ⟨⟨⟨htold.previous, htold.chained⟩, htold.previous, ?_⟩, ⟨fun v hv => ?_, fun hnone => ?_⟩⟩
      · intro c hmem hu v hv
        rcases List.mem_cons.mp hmem with rfl | hmem
        · obtain ⟨w, hw, he⟩ := hread hu v hv
          rw [hnew, Option.some.injEq] at hw
          rwa [← hw] at he
        · exact htold.changes c hmem hu v hv
      · cases hv
        exact ⟨⟨hfresh.state ▸ hd, rfl, new, hnew, .inl rfl⟩, _, _, rfl, rfl, rfl⟩
      · simp at hnone

theorem Told.attempt (h : s.Told p) (hn : s.handling = none) (hd : s.state ≠ .dirty)
    (hc : s.upset = false → ∀ v, s.previous = some v →
      s.gatedState = .clean ∧ ∃ w, s.gatedValue = some w ∧ p.eq v w = false) :
    (s.attempt source p verdict exhausted).Told p ∧
      (s.attempt source p verdict exhausted).Attuned p := by
  unfold Watch.attempt
  split
  · exact ⟨h.same rfl rfl, attuned_of_upset hn rfl⟩
  · exact h.enterBody hn hd hc

/-- Where the refresh has changed the version that the effect has recorded, it has changed the
value that the handler knows. -/
theorem Refreshed.differs (h : s.Refreshed p t) (hh : s.Holds p v)
    (hne : t.gatedVersion ≠ s.gatedVersion) : ∃ w, t.gatedValue = some w ∧ p.eq v w = false := by
  obtain ⟨x, hx, hxv⟩ := hh.value
  obtain ⟨-, y, hy, hdiff⟩ := h.value.resolve_left fun hsame => hne hsame.1
  have hxy := hdiff x hx
  refine ⟨y, hy, ?_⟩
  rcases hxv with rfl | hxv
  · exact hxy
  · by_contra hvy
    rw [Bool.not_eq_false] at hvy
    simp [p.trans x v y (p.symm v x hxv) hvy] at hxy

theorem Refreshed.holds (h : s.Refreshed p t) (hh : s.Holds p v)
    (heq : t.gatedVersion = s.gatedVersion) (hd : t.state ≠ .dirty) : t.Holds p v := by
  obtain ⟨x, hx, hxv⟩ := hh.value
  refine ⟨hd, by rw [h.recorded, hh.recorded, heq], ?_⟩
  rcases h.value with ⟨-, hsame | ⟨y, z, hy, hz, hyz⟩⟩ | ⟨hsucc, -⟩
  · exact ⟨x, hsame.trans hx, hxv⟩
  · rw [hx, Option.some.injEq] at hy
    subst hy
    refine ⟨z, hz, .inr ?_⟩
    rcases hxv with rfl | hxv
    · exact hyz
    · exact p.trans v x z hxv hyz
  · omega

/-- The job of the effect verifies the memo, or runs after a failure. -/
theorem Told.runScheduled (h : s.Told p) (ha : s.Attuned p) :
    (s.runScheduled source p verdict exhausted).Told p ∧
      (s.runScheduled source p verdict exhausted).Attuned p := by
  unfold Watch.runScheduled
  dsimp only
  split
  · exact ⟨h.same rfl rfl, ha.keep ⟨rfl, rfl, rfl, rfl⟩ fun v hv =>
      ⟨hv.verified, hv.recorded, hv.value⟩⟩
  next hn =>
    rw [Bool.not_eq_true, Option.isSome_eq_false_iff, Option.isNone_iff_eq_none] at hn
    have hrest : ∀ v, s.Holds p v →
        ({ s with scheduled := false, state := .clean } : Watch σ V).Holds p v :=
      fun v hv => ⟨by simp, hv.recorded, hv.value⟩
    split
    · exact ⟨h.same rfl rfl, ha.keep ⟨rfl, rfl, rfl, rfl⟩ hrest⟩
    · exact ⟨h.same rfl rfl, ha.keep ⟨rfl, rfl, rfl, rfl⟩ hrest⟩
    next _ hdirty =>
      refine Told.attempt (h.same rfl rfl) hn (by simp) fun hu v hv => ?_
      exact absurd hdirty (ha.calm hn hu v hv).verified
    next version _ hrec =>
      split
      next u hr =>
        have hsame := refresh_error hr
        obtain ⟨h1, h2, h3, h4⟩ := sameCalls_schedule ({ u.fail with state := .dirty } : Watch σ V)
        exact ⟨h.same (h2.trans hsame.previous) (h4.trans hsame.calls),
          attuned_of_upset (h1.trans (hsame.handling.trans hn)) h3⟩
      next u hr =>
        have hfresh := refresh_ok hr
        have hsame := hfresh.calls
        have htold : u.Told p := h.same hsame.previous hsame.calls
        have hstate : u.state ≠ .dirty := by simp [hfresh.state]
        -- the recorded version is that of the value which the handler knows
        have hold : s.upset = false → ∀ v, s.previous = some v →
            s.Holds p v ∧ version = s.gatedVersion := by
          intro hu v hv
          have hcalm := ha.calm hn hu v hv
          exact ⟨hcalm, Option.some.inj (hrec.symm.trans hcalm.recorded)⟩
        split
        next heq =>
          refine ⟨htold, ⟨fun v hv => ?_, fun _ hu v hv => ?_⟩⟩
          · simp [hsame.handling.trans hn] at hv
          · obtain ⟨hv, rfl⟩ := hold (hsame.upset.symm.trans hu) v (hsame.previous.symm.trans hv)
            exact hfresh.holds (hrest v hv) heq hstate
        next hne =>
          refine Told.attempt htold (hsame.handling.trans hn) hstate fun hu v hv => ?_
          obtain ⟨hv, rfl⟩ := hold (hsame.upset.symm.trans hu) v (hsame.previous.symm.trans hv)
          exact ⟨hfresh.clean, hfresh.differs (hrest v hv) hne⟩

theorem Told.finishHandler (h : s.Told p) (ha : s.Attuned p) (hv : s.handling = some v) :
    (s.finishHandler v).Told p ∧ (s.finishHandler v).Attuned p := by
  obtain ⟨hholds, c, calls, hc, rfl, -⟩ := ha.handling v hv
  have hchained := h.chained
  have hchanges := h.changes
  rw [hc] at hchained hchanges
  have htold : ({ s with
      handling := none
      previous := some c.new
      upset := false
      rerunAfterCurrent := false
      calls := { c with completed := true } :: calls } : Watch σ V).Told p := by
    refine ⟨⟨hchained.1, hchained.2⟩, rfl, fun d hd hu w hw => ?_⟩
    rcases List.mem_cons.mp hd with rfl | hd
    · exact hchanges c List.mem_cons_self hu w hw
    · exact hchanges d (List.mem_cons_of_mem _ hd) hu w hw
  have hcalm : ({ s with
      handling := none
      previous := some c.new
      upset := false
      rerunAfterCurrent := false
      calls := { c with completed := true } :: calls } : Watch σ V).Attuned p := by
    refine ⟨fun w hw => by simp at hw, fun _ _ w hw => ?_⟩
    rw [← Option.some.inj hw]
    exact ⟨hholds.verified, hholds.recorded, hholds.value⟩
  unfold Watch.finishHandler
  rw [hc]
  dsimp only [List.modifyHead]
  split
  · have hsame := sameCalls_schedule ({ s with
      handling := none
      previous := some c.new
      upset := false
      rerunAfterCurrent := false
      calls := { c with completed := true } :: calls } : Watch σ V)
    exact ⟨htold.same hsame.previous hsame.calls, hcalm.keep hsame fun w hw => hw.schedule⟩
  · exact ⟨htold, hcalm⟩

theorem Told.step {op : WatchOp σ} (h : s.Told p) (ha : s.Attuned p)
    (ht : s.step source p op = some t) : t.Told p ∧ t.Attuned p := by
  cases op with
  | write signals mark =>
    cases ht
    have hsame := sameCalls_write s signals mark
    exact ⟨h.same hsame.previous hsame.calls, ha.keep hsame fun v hv => hv.write signals mark⟩
  | run verdict exhausted =>
    unfold Watch.step at ht
    dsimp only at ht
    split at ht
    · cases ht
      exact Told.runScheduled (h.same rfl rfl) (ha.keep ⟨rfl, rfl, rfl, rfl⟩ fun v hv =>
        ⟨hv.verified, hv.recorded, hv.value⟩)
    · cases ht
  | finishHandler =>
    obtain ⟨v, hv, rfl⟩ := Option.map_eq_some_iff.mp ht
    exact h.finishHandler ha hv
  | panicHandler =>
    obtain ⟨v, hv, rfl⟩ := Option.map_eq_some_iff.mp ht
    exact ⟨h.same rfl rfl, attuned_of_upset rfl rfl⟩

theorem told_start (signals : σ) :
    ({ signals } : Watch σ V).Told p ∧ ({ signals } : Watch σ V).Attuned p := by
  refine ⟨⟨trivial, rfl, fun c hc => ?_⟩, ⟨fun v hv => ?_, fun _ _ v hv => ?_⟩⟩
  · cases hc
  · cases hv
  · cases hv

theorem Reached.told (h : s.Reached source p) : s.Told p := by
  obtain ⟨signals, h⟩ := h
  have hall := h.invariant (fun s => s.Told p ∧ s.Attuned p) (told_start signals)
    fun _ _ _ hP _ ht => hP.1.step hP.2 ht
  exact hall.1

end Told

theorem Chained.of_append {later earlier : List (HandlerCall V)} {c : HandlerCall V}
    (h : Chained (later ++ c :: earlier)) : c.old = lastHandled earlier := by
  induction later with
  | nil => exact h.1
  | cons d later ih => exact ih h.2

/-- Every call of the handler gets what the last call that completed before it was made with; and
where no run has failed in between, that is another value. -/
theorem handler_sees_changes (h : s.Reached source p) {later earlier : List (HandlerCall V)}
    {c : HandlerCall V} (hc : s.calls = later ++ c :: earlier) :
    c.old = lastHandled earlier ∧
      (c.upset = false → ∀ v, c.old = some v → p.eq v c.new = false) := by
  have htold := h.told
  have hmem : c ∈ s.calls := by
    rw [hc]
    simp
  exact ⟨Chained.of_append (hc ▸ htold.chained), htold.changes c hmem⟩

def numberSource (n : ℕ) : Except Unit ℕ := if n = 13 then .error () else .ok n

def numberEq : PartialEq ℕ where
  eq a b := decide (a = b)
  symm _ _ h := decide_eq_true (of_decide_eq_true h).symm
  trans _ _ _ h h' := decide_eq_true ((of_decide_eq_true h).trans (of_decide_eq_true h'))

/-- Where the steps lead that start at the number one. -/
def watching (ops : List (WatchOp ℕ)) : Watch ℕ ℕ :=
  Runs.after (step numberSource numberEq) { signals := 1 } ops

theorem watching_reached (ops : List (WatchOp ℕ))
    (h : (Runs.run (step numberSource numberEq) ({ signals := 1 } : Watch ℕ ℕ) ops).isSome = true) :
    (watching ops).Reached numberSource numberEq :=
  ⟨1, .after (fun _ _ => true) ops .init (Runs.admitted_true _ _) h⟩

def changing : List (WatchOp ℕ) :=
  [.run .unchanged false, .finishHandler, .write 2 (some .dirty), .run .unchanged false,
    .finishHandler, .write 2 (some .dirty), .run .unchanged false]

def sourcePanics : List (WatchOp ℕ) :=
  [.run .unchanged false, .finishHandler, .write 13 (some .dirty), .run .unchanged false,
    .write 1 none, .run .unchanged false]

def handlerPanics : List (WatchOp ℕ) :=
  [.run .unchanged false, .finishHandler, .write 2 (some .dirty), .run .unchanged false,
    .panicHandler, .write 1 (some .dirty), .run .unchanged false]

theorem second_write_is_a_change :
    (watching changing).calls =
        [{ new := 2, old := some 1, upset := false, completed := true },
          { new := 1, old := none, upset := false, completed := true }] ∧
      numberEq.eq 1 2 = false := by
  have hcalls : (watching changing).calls =
      [{ new := 2, old := some 1, upset := false, completed := true },
        { new := 1, old := none, upset := false, completed := true }] := by rfl
  have hseen := handler_sees_changes (watching_reached changing (by decide +kernel))
    (show (watching changing).calls = [] ++ _ :: _ from hcalls)
  exact ⟨hcalls, hseen.2 rfl 1 rfl⟩

/-- The source panics in a verification, or the handler does, and the number is set back: the
handler is called with the number it has handled last. -/
theorem handler_sees_no_change :
    ((watching sourcePanics).Reached numberSource numberEq ∧
      (watching sourcePanics).calls =
        [{ new := 1, old := some 1, upset := true },
          { new := 1, old := none, upset := false, completed := true }]) ∧
    (watching handlerPanics).Reached numberSource numberEq ∧
      (watching handlerPanics).calls =
        [{ new := 1, old := some 1, upset := true }, { new := 2, old := some 1, upset := false },
          { new := 1, old := none, upset := false, completed := true }] :=
  ⟨⟨watching_reached sourcePanics (by decide +kernel), rfl⟩,
    watching_reached handlerPanics (by decide +kernel), rfl⟩

end Watch

end Adaptite

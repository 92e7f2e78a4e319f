import Adaptite.Base.Runs
import Mathlib.Data.Nat.Notation
import Mathlib.Logic.Function.Basic
import Mathlib.Tactic.Common

set_option autoImplicit false

/-!
# The default reactor of a thread

The free constructors put what they make on the current reactor. The thread keeps it weakly, a
guard of `enter` keeps it alive, and code may drop its guards and its handles in any order. At the
end of the thread its slots are destroyed one by one, while destructors still run.
-/
namespace Adaptite

abbrev ReactorId : Type := ℕ
abbrev GuardId : Type := ℕ

/-- What is logged for the graph. -/
inductive AmbientEvent where
  | reactorNew (reactor : ReactorId)
  | reactorEnter (reactor : ReactorId)
  | reactorExit
  | currentReactorReuse
  | currentReactorInstall
  | currentReactorReinstall (reactor : ReactorId)
deriving DecidableEq

def AmbientEvent.givesDefault : AmbientEvent → Bool
  | reactorEnter _ | currentReactorInstall | currentReactorReinstall _ => true
  | _ => false

/-- `previousDefault` is weak and `previousAnchor` strong. `reactor` is not in the source: what
the guard was made for. -/
structure EnterGuard where
  previousDefault : Option ReactorId
  previousAnchor : Option ReactorId
  reactor : ReactorId
deriving DecidableEq

/-- A slot of the thread is `none` once it is destroyed. `handles` counts what keeps a reactor
alive besides the guards: handles, nodes, and the effects that are to run. The latest guard
is the first of `guards`. Not in the source is `implicit`, the last default that was installed
without being entered. -/
structure AmbientHost where
  nextReactor : ReactorId := 1
  handles : ReactorId → ℕ := fun _ => 0
  currentReactor : Option (Option ReactorId) := some none
  anchoredReactor : Option (Option ReactorId) := some none
  hasHadDefault : Option Bool := some false
  nextGuard : GuardId := 0
  guards : List (GuardId × EnterGuard) := []
  log : List AmbientEvent := []
  implicit : Option ReactorId := none

/-- `elsewhere` makes a reactor on another thread. A node is a handle to its reactor. -/
inductive AmbientOp where
  | new
  | elsewhere
  | clone (reactor : ReactorId)
  | drop (reactor : ReactorId)
  | enter (reactor : ReactorId)
  | exit (guard : GuardId)
  | current
  | tryCurrent
  | destroyCurrent
  | destroyAnchored
  | destroyHasHad
deriving DecidableEq

namespace AmbientHost

/-- `try_with` of `replace`: nothing happens to a slot that is destroyed. -/
def replace {α : Type} (slot : Option α) (v : α) : Option α := slot.map fun _ => v

def strongCount (s : AmbientHost) (r : ReactorId) : ℕ :=
  s.handles r + (if s.anchoredReactor = some (some r) then 1 else 0) +
    s.guards.countP fun g => g.2.previousAnchor = some r

def upgrade (s : AmbientHost) (weak : Option ReactorId) : Option ReactorId :=
  weak.filter fun r => 0 < s.strongCount r

def tryCurrent (s : AmbientHost) : Option ReactorId := (s.currentReactor.map s.upgrade).join

def clone (s : AmbientHost) (r : ReactorId) : AmbientHost :=
  { s with handles := Function.update s.handles r (s.handles r + 1) }

def drop (s : AmbientHost) (r : ReactorId) : AmbientHost :=
  { s with handles := Function.update s.handles r (s.handles r - 1) }

/-- `Reactor::new`. -/
def new (s : AmbientHost) : AmbientHost :=
  { s.clone s.nextReactor with
    nextReactor := s.nextReactor + 1
    log := .reactorNew s.nextReactor :: s.log }

/-- The end of `Reactor::current`, where no reactor is current. -/
def install (s : AmbientHost) : AmbientHost :=
  let installed := s.currentReactor.isSome
  let hadDefault := s.hasHadDefault.getD false
  { s.new with
    currentReactor := replace s.currentReactor (some s.nextReactor)
    hasHadDefault := replace s.hasHadDefault true
    log := (if installed && hadDefault then .currentReactorReinstall s.nextReactor
      else .currentReactorInstall) :: s.new.log
    implicit := some s.nextReactor }

def current (s : AmbientHost) : AmbientHost :=
  match s.tryCurrent with
  | some r => { s.clone r with log := .currentReactorReuse :: s.log }
  | none => s.install

def enter (s : AmbientHost) (r : ReactorId) : AmbientHost :=
  { s with
    currentReactor := replace s.currentReactor (some r)
    anchoredReactor := replace s.anchoredReactor (some r)
    hasHadDefault := replace s.hasHadDefault true
    nextGuard := s.nextGuard + 1
    guards := (s.nextGuard,
      ⟨s.currentReactor.getD none, s.anchoredReactor.getD none, r⟩) :: s.guards
    log := .reactorEnter r :: s.log }

def exit (s : AmbientHost) (i : GuardId) (g : EnterGuard) : AmbientHost :=
  { s with
    currentReactor := replace s.currentReactor g.previousDefault
    anchoredReactor := replace s.anchoredReactor g.previousAnchor
    guards := s.guards.eraseP fun h => h.1 = i
    log := .reactorExit :: s.log }

/-- Code that clones, drops or enters a reactor has a handle to it. -/
def step (s : AmbientHost) : AmbientOp → Option AmbientHost
  | .new => some s.new
  | .elsewhere => some { s with nextReactor := s.nextReactor + 1 }
  | .clone r => if 0 < s.handles r then some (s.clone r) else none
  | .drop r => if 0 < s.handles r then some (s.drop r) else none
  | .enter r => if 0 < s.handles r then some (s.enter r) else none
  | .exit i => (s.guards.find? fun g => g.1 = i).map fun g => s.exit i g.2
  | .current => some s.current
  | .tryCurrent =>
    match s.tryCurrent with
    | some r => some (s.clone r)
    | none => some s
  | .destroyCurrent => some { s with currentReactor := none }
  | .destroyAnchored => some { s with anchoredReactor := none }
  | .destroyHasHad => some { s with hasHadDefault := none }

/-- Any code. -/
abbrev Reached (s : AmbientHost) : Prop := Runs.Reaches step (fun _ _ => True) {} s

/-- The guards are dropped in reverse order, and the thread has not come to its end. -/
def nests (s : AmbientHost) : AmbientOp → Bool
  | .exit i => s.guards.head?.any fun g => g.1 = i
  | .destroyCurrent | .destroyAnchored | .destroyHasHad => false
  | _ => true

def entered (s : AmbientHost) : List ReactorId := s.guards.map fun g => g.2.reactor

variable {s t u : AmbientHost} {op : AmbientOp} {r q : ReactorId}

section Counts

theorem strongCount_of_anchored (h : s.anchoredReactor = some (some r)) : 0 < s.strongCount r := by
  unfold strongCount
  rw [if_pos h]
  omega

theorem strongCount_of_guard {g : GuardId × EnterGuard} (hg : g ∈ s.guards)
    (hr : g.2.previousAnchor = some r) : 0 < s.strongCount r := by
  have hcount : 0 < s.guards.countP fun g => g.2.previousAnchor = some r :=
    List.countP_pos_iff.mpr ⟨g, hg, decide_eq_true hr⟩
  unfold strongCount
  omega

theorem strongCount_eq_zero : s.strongCount r = 0 ↔ s.handles r = 0 ∧
    s.anchoredReactor ≠ some (some r) ∧ ∀ g ∈ s.guards, g.2.previousAnchor ≠ some r := by
  have hcount : (s.guards.countP fun g => g.2.previousAnchor = some r) = 0 ↔
      ∀ g ∈ s.guards, g.2.previousAnchor ≠ some r := by
    rw [List.countP_eq_zero]
    simp only [decide_eq_true_eq, ne_eq]
  unfold strongCount
  rw [← hcount]
  split <;> simp [*]

theorem upgrade_some (h : 0 < s.strongCount r) : s.upgrade (some r) = some r := by
  unfold upgrade
  simp [h]

theorem strongCount_of_upgrade {weak : Option ReactorId} (h : s.upgrade weak = some r) :
    0 < s.strongCount r := by
  unfold upgrade at h
  have := (Option.filter_eq_some_iff.mp h).2
  simpa using this

theorem strongCount_of_tryCurrent (h : s.tryCurrent = some r) : 0 < s.strongCount r := by
  unfold tryCurrent at h
  cases hs : s.currentReactor with
  | none => rw [hs] at h; cases h
  | some weak =>
    rw [hs] at h
    exact strongCount_of_upgrade h

theorem expired_of (hz : s.strongCount r = 0) (hh : t.handles r = s.handles r)
    (ha : t.anchoredReactor = some (some r) → 0 < s.strongCount r)
    (hg : ∀ g ∈ t.guards, g.2.previousAnchor = some r → 0 < s.strongCount r) :
    t.strongCount r = 0 := by
  have hpos : ¬ 0 < s.strongCount r := by omega
  exact strongCount_eq_zero.mpr ⟨hh.trans (strongCount_eq_zero.mp hz).1, fun h => hpos (ha h),
    fun g hm h => hpos (hg g hm h)⟩

theorem handles_clone (h : q ≠ r) : (s.clone q).handles r = s.handles r :=
  Function.update_of_ne h.symm _ _

theorem expired_clone (hz : s.strongCount r = 0) (hq : q ≠ r) : (s.clone q).strongCount r = 0 :=
  expired_of hz (handles_clone hq) (fun h => strongCount_of_anchored h)
    fun _ hg h => strongCount_of_guard hg h

theorem expired_current (hr : r < s.nextReactor) (hz : s.strongCount r = 0) :
    r < s.current.nextReactor ∧ s.current.strongCount r = 0 := by
  unfold current
  cases hc : s.tryCurrent with
  | some q =>
    have hq : q ≠ r := by
      rintro rfl
      have := strongCount_of_tryCurrent hc
      omega
    exact ⟨hr, expired_clone hz hq⟩
  | none =>
    refine ⟨Nat.lt_succ_of_lt hr, ?_⟩
    exact expired_of hz (handles_clone (Nat.ne_of_gt hr)) (fun h => strongCount_of_anchored h)
      fun _ hg h => strongCount_of_guard hg h

theorem expired_enter (hr : r < s.nextReactor) (hz : s.strongCount r = 0) (hq : 0 < s.handles q) :
    (s.enter q).strongCount r = 0 := by
  have hne : q ≠ r := by
    rintro rfl
    have := (strongCount_eq_zero.mp hz).1
    omega
  refine expired_of hz rfl (fun h => ?_) fun g hg h => ?_
  · unfold enter replace at h
    obtain ⟨_, _, h⟩ := Option.map_eq_some_iff.mp h
    exact absurd (Option.some.inj h) hne
  · rcases List.mem_cons.mp hg with rfl | hg
    · cases ha : s.anchoredReactor with
      | none => rw [ha] at h; cases h
      | some a =>
        rw [ha] at h
        exact strongCount_of_anchored (ha.trans (congrArg some h))
    · exact strongCount_of_guard hg h

theorem expired_exit {i : GuardId} {g : GuardId × EnterGuard} (hz : s.strongCount r = 0)
    (hg : g ∈ s.guards) : (s.exit i g.2).strongCount r = 0 := by
  refine expired_of hz rfl (fun h => ?_) fun k hk h => ?_
  · unfold exit replace at h
    obtain ⟨_, _, h⟩ := Option.map_eq_some_iff.mp h
    exact strongCount_of_guard hg h
  · exact strongCount_of_guard (List.mem_of_mem_eraseP hk) h

theorem expired_step (hs : s.step op = some t) (hr : r < s.nextReactor)
    (hz : s.strongCount r = 0) : r < t.nextReactor ∧ t.strongCount r = 0 := by
  have hheld : ∀ {q}, 0 < s.handles q → q ≠ r := by
    rintro q hq rfl
    have := (strongCount_eq_zero.mp hz).1
    omega
  cases op with
  | new =>
    cases hs
    exact ⟨Nat.lt_succ_of_lt hr, expired_clone hz (Nat.ne_of_gt hr)⟩
  | elsewhere =>
    cases hs
    exact ⟨Nat.lt_succ_of_lt hr, hz⟩
  | clone q =>
    obtain ⟨hq, ht⟩ := Option.ite_none_right_eq_some.mp hs
    cases ht
    exact ⟨hr, expired_clone hz (hheld hq)⟩
  | drop q =>
    obtain ⟨hq, ht⟩ := Option.ite_none_right_eq_some.mp hs
    cases ht
    exact ⟨hr, expired_of hz (Function.update_of_ne (hheld hq).symm _ _)
      (fun h => strongCount_of_anchored h) fun _ hg h => strongCount_of_guard hg h⟩
  | enter q =>
    obtain ⟨hq, ht⟩ := Option.ite_none_right_eq_some.mp hs
    cases ht
    exact ⟨hr, expired_enter hr hz hq⟩
  | exit i =>
    obtain ⟨g, hg, rfl⟩ := Option.map_eq_some_iff.mp hs
    exact ⟨hr, expired_exit hz (List.mem_of_find?_eq_some hg)⟩
  | current =>
    cases hs
    exact expired_current hr hz
  | tryCurrent =>
    cases hc : s.tryCurrent with
    | none =>
      unfold step at hs
      rw [hc] at hs
      cases hs
      exact ⟨hr, hz⟩
    | some q =>
      unfold step at hs
      rw [hc] at hs
      cases hs
      refine ⟨hr, expired_clone hz ?_⟩
      rintro rfl
      have := strongCount_of_tryCurrent hc
      omega
  | destroyCurrent | destroyHasHad =>
    cases hs
    exact ⟨hr, hz⟩
  | destroyAnchored =>
    cases hs
    exact ⟨hr, expired_of hz rfl (fun h => by cases h) fun _ hg h => strongCount_of_guard hg h⟩

end Counts

section Guards

variable {i : GuardId} {g : EnterGuard}

theorem current_frame (s : AmbientHost) : s.current.guards = s.guards ∧
    s.current.nextGuard = s.nextGuard ∧ s.current.anchoredReactor = s.anchoredReactor ∧
    s.current.currentReactor.isSome = s.currentReactor.isSome := by
  unfold current
  cases s.tryCurrent with
  | some r => exact ⟨rfl, rfl, rfl, rfl⟩
  | none =>
    refine ⟨rfl, rfl, rfl, ?_⟩
    unfold install replace
    simp

theorem tryCurrent_step (hs : s.step .tryCurrent = some t) : t = s ∨ ∃ r, t = s.clone r := by
  unfold step at hs
  cases hc : s.tryCurrent with
  | none =>
    rw [hc] at hs
    exact .inl (Option.some.inj hs).symm
  | some r =>
    rw [hc] at hs
    exact .inr ⟨r, (Option.some.inj hs).symm⟩

theorem guards_step (hs : s.step op = some t) :
    (t.guards = s.guards ∧ t.nextGuard = s.nextGuard) ∨
    (∃ r, op = .enter r ∧ t = s.enter r) ∨
    ∃ i g, op = .exit i ∧ s.guards.find? (fun g => g.1 = i) = some g ∧ t = s.exit i g.2 := by
  cases op with
  | new | elsewhere | destroyCurrent | destroyAnchored | destroyHasHad =>
    cases hs
    exact .inl ⟨rfl, rfl⟩
  | clone q | drop q =>
    obtain ⟨-, ht⟩ := Option.ite_none_right_eq_some.mp hs
    cases ht
    exact .inl ⟨rfl, rfl⟩
  | enter q =>
    obtain ⟨-, ht⟩ := Option.ite_none_right_eq_some.mp hs
    exact .inr (.inl ⟨q, rfl, (Option.some.inj ht).symm⟩)
  | exit i =>
    obtain ⟨g, hg, rfl⟩ := Option.map_eq_some_iff.mp hs
    exact .inr (.inr ⟨i, g, rfl, hg, rfl⟩)
  | current =>
    cases hs
    exact .inl ⟨(current_frame s).1, (current_frame s).2.1⟩
  | tryCurrent =>
    rcases tryCurrent_step hs with rfl | ⟨r, rfl⟩ <;> exact .inl ⟨rfl, rfl⟩

theorem slots_step (hs : s.step op = some t) :
    (t.currentReactor.isSome = true → s.currentReactor.isSome = true) ∧
      (t.anchoredReactor.isSome = true → s.anchoredReactor.isSome = true) := by
  have hreplace : ∀ {α : Type} (slot : Option α) (v : α),
      (replace slot v).isSome = true → slot.isSome = true := by
    intro α slot v h
    unfold replace at h
    rwa [Option.isSome_map] at h
  cases op with
  | new | elsewhere | destroyHasHad =>
    cases hs
    exact ⟨id, id⟩
  | destroyCurrent =>
    cases hs
    exact ⟨fun h => absurd h Bool.false_ne_true, id⟩
  | destroyAnchored =>
    cases hs
    exact ⟨id, fun h => absurd h Bool.false_ne_true⟩
  | clone q | drop q =>
    obtain ⟨-, ht⟩ := Option.ite_none_right_eq_some.mp hs
    cases ht
    exact ⟨id, id⟩
  | enter q =>
    obtain ⟨-, ht⟩ := Option.ite_none_right_eq_some.mp hs
    cases ht
    exact ⟨hreplace _ _, hreplace _ _⟩
  | exit i =>
    obtain ⟨g, -, rfl⟩ := Option.map_eq_some_iff.mp hs
    exact ⟨hreplace _ _, hreplace _ _⟩
  | current =>
    cases hs
    obtain ⟨-, -, ha, hc⟩ := current_frame s
    exact ⟨fun h => hc ▸ h, fun h => ha ▸ h⟩
  | tryCurrent =>
    rcases tryCurrent_step hs with rfl | ⟨r, rfl⟩ <;> exact ⟨id, id⟩

/-- The guard is still held, and no other has its number. -/
structure Held (i : GuardId) (g : EnterGuard) (s : AmbientHost) : Prop where
  held : (i, g) ∈ s.guards
  only : ∀ h ∈ s.guards, h.1 = i → h.2 = g
  numbered : i < s.nextGuard

theorem Held.step (h : Held i g s) (hop : op ≠ .exit i) (hs : s.step op = some t) :
    Held i g t := by
  rcases guards_step hs with ⟨hg, hn⟩ | ⟨r, rfl, rfl⟩ | ⟨j, k, rfl, -, rfl⟩
  · exact ⟨hg ▸ h.held, hg ▸ h.only, hn ▸ h.numbered⟩
  · refine ⟨List.mem_cons_of_mem _ h.held, fun k hk hi => ?_, Nat.lt_succ_of_lt h.numbered⟩
    rcases List.mem_cons.mp hk with rfl | hk
    · exact absurd hi (Nat.ne_of_gt h.numbered)
    · exact h.only k hk hi
  · refine ⟨?_, fun k hk hi => h.only k (List.mem_of_mem_eraseP hk) hi, h.numbered⟩
    refine (List.mem_eraseP_of_neg ?_).mpr h.held
    have hne : i ≠ j := fun hij => hop (congrArg AmbientOp.exit hij.symm)
    simpa using hne

theorem Held.exits (h : Held i g s) : s.step (.exit i) = some (s.exit i g) := by
  have hfind : ∃ k, s.guards.find? (fun g => g.1 = i) = some k ∧ k.2 = g := by
    cases hf : s.guards.find? (fun g => g.1 = i) with
    | none =>
      have hnone := List.find?_eq_none.mp hf (i, g) h.held
      simp at hnone
    | some k =>
      refine ⟨k, rfl, h.only k (List.mem_of_find?_eq_some hf) ?_⟩
      have := List.find?_some hf
      simpa using this
  obtain ⟨k, hk, rfl⟩ := hfind
  change Option.map _ (s.guards.find? fun g => g.1 = i) = _
  rw [hk]
  rfl

theorem numbered_of_reached (h : s.Reached) : ∀ g ∈ s.guards, g.1 < s.nextGuard := by
  refine h.invariant (fun s => ∀ g ∈ s.guards, g.1 < s.nextGuard) (fun g hg => by cases hg) ?_
  intro s op t hn _ hs g hg
  rcases guards_step hs with ⟨he, hn'⟩ | ⟨r, rfl, rfl⟩ | ⟨j, k, rfl, -, rfl⟩
  · rw [he] at hg
    exact hn' ▸ hn g hg
  · rcases List.mem_cons.mp hg with rfl | hg
    · exact Nat.lt_succ_self _
    · exact Nat.lt_succ_of_lt (hn g hg)
  · exact hn g (List.mem_of_mem_eraseP hg)

theorem Held.enter (h : s.Reached) (r : ReactorId) : Held s.nextGuard
    ⟨s.currentReactor.getD none, s.anchoredReactor.getD none, r⟩ (s.enter r) where
  held := List.mem_cons_self
  only := by
    intro k hk hi
    rcases List.mem_cons.mp hk with rfl | hk
    · rfl
    · exact absurd hi (Nat.ne_of_lt (numbered_of_reached h k hk))
  numbered := Nat.lt_succ_self _

/-- The flag says whether the thread has had a default, for as long as it is there. -/
theorem hasHad_step (hs : s.step op = some t)
    (h : ∀ b, s.hasHadDefault = some b → b = s.log.any AmbientEvent.givesDefault) :
    ∀ b, t.hasHadDefault = some b → b = t.log.any AmbientEvent.givesDefault := by
  have hreplace : ∀ {b : Bool}, replace s.hasHadDefault true = some b → b = true := by
    intro b hb
    obtain ⟨_, _, hb⟩ := Option.map_eq_some_iff.mp hb
    exact hb.symm
  intro b hb
  cases op with
  | new | elsewhere | destroyCurrent | destroyAnchored =>
    cases hs
    exact h b hb
  | destroyHasHad => cases hs; cases hb
  | clone q | drop q =>
    obtain ⟨-, ht⟩ := Option.ite_none_right_eq_some.mp hs
    cases ht
    exact h b hb
  | enter q =>
    obtain ⟨-, ht⟩ := Option.ite_none_right_eq_some.mp hs
    cases ht
    exact hreplace hb
  | exit i =>
    obtain ⟨g, -, rfl⟩ := Option.map_eq_some_iff.mp hs
    exact h b hb
  | current =>
    cases hs
    unfold current at hb ⊢
    cases hc : s.tryCurrent with
    | some r =>
      rw [hc] at hb
      exact h b hb
    | none =>
      rw [hc] at hb
      rw [hreplace hb]
      dsimp only [install]
      split <;> rfl
  | tryCurrent => rcases tryCurrent_step hs with rfl | ⟨r, rfl⟩ <;> exact h b hb

/-- Guards may be dropped in any order, and slots be destroyed under them. Whatever happens
between, the drop of a guard puts back what `enter` found, where there is still a slot, and what
it found anchored stays alive until then. A reactor that has expired is never current again. A
default that is installed is warned about if and only if the thread had one before, and neither
of its slots is gone. -/
theorem guards_put_back_what_they_found (h : s.Reached) :
    (∀ r t, Runs.Reaches step (fun _ op => op ≠ .exit s.nextGuard) (s.enter r) t →
      (∃ u, t.step (.exit s.nextGuard) = some u ∧
        (u.currentReactor = s.currentReactor ∨ u.currentReactor = none) ∧
        (u.anchoredReactor = s.anchoredReactor ∨ u.anchoredReactor = none)) ∧
      ∀ q, s.anchoredReactor = some (some q) → 0 < t.strongCount q) ∧
    (∀ r t, r < s.nextReactor → s.strongCount r = 0 →
      Runs.Reaches step (fun _ _ => True) s t → t.tryCurrent ≠ some r) ∧
    ∀ t, s.step .current = some t →
      ((∃ r, t.log.head? = some (.currentReactorReinstall r)) ↔
        s.tryCurrent = none ∧ s.log.any AmbientEvent.givesDefault = true ∧
          s.currentReactor.isSome = true ∧ s.hasHadDefault.isSome = true) := by
  refine ⟨fun r t hrun => ?_, fun r t hr hz hrun => ?_, fun t ht => ?_⟩
  · obtain ⟨hheld, hslots⟩ := hrun.invariant (fun t =>
      Held s.nextGuard ⟨s.currentReactor.getD none, s.anchoredReactor.getD none, r⟩ t ∧
        (t.currentReactor.isSome = true → s.currentReactor.isSome = true) ∧
        (t.anchoredReactor.isSome = true → s.anchoredReactor.isSome = true))
      ⟨.enter h r, by simp [AmbientHost.enter, replace], by simp [AmbientHost.enter, replace]⟩
      fun a op b ha ok hs => ⟨ha.1.step ok hs, fun hb => ha.2.1 ((slots_step hs).1 hb),
        fun hb => ha.2.2 ((slots_step hs).2 hb)⟩
    have hback : ∀ {slot before : Option (Option ReactorId)},
        (slot.isSome = true → before.isSome = true) →
        replace slot (before.getD none) = before ∨ replace slot (before.getD none) = none := by
      intro slot before hb
      cases slot with
      | none => exact .inr rfl
      | some weak =>
        obtain ⟨v, rfl⟩ := Option.isSome_iff_exists.mp (hb rfl)
        exact .inl rfl
    refine ⟨⟨_, hheld.exits, hback hslots.1, hback hslots.2⟩, fun q hq => ?_⟩
    refine strongCount_of_guard hheld.held ?_
    dsimp only
    rw [hq]
    rfl
  · have hz := (hrun.invariant (fun t => r < t.nextReactor ∧ t.strongCount r = 0) ⟨hr, hz⟩
      fun a op b ha _ hs => expired_step hs ha.1 ha.2).2
    intro hc
    have := strongCount_of_tryCurrent hc
    omega
  · have hflag := h.invariant
      (fun s => ∀ b, s.hasHadDefault = some b → b = s.log.any AmbientEvent.givesDefault)
      (by intro b hb; cases hb; rfl) fun a op b ha _ hs => hasHad_step hs ha
    cases ht
    unfold current
    cases hc : s.tryCurrent with
    | some r => simp
    | none =>
      dsimp only [install]
      cases hcur : s.currentReactor with
      | none => simp
      | some weak =>
        cases hhad : s.hasHadDefault with
        | none => simp
        | some b =>
          rw [← hflag b hhad]
          cases b <;> simp

/-- Reactor 1 is entered and no handle to it is kept. -/
def enteredOnce : AmbientHost := Runs.after step {} [.new, .new, .enter 1, .drop 1]

/-- The guard of reactor 1 is dropped before that of reactor 2, which makes 1 the default again. -/
theorem outer_guard_is_dropped_first : ∃ t u : AmbientHost, t.entered = [2] ∧ t.handles 1 = 0 ∧
    t.step (.exit 1) = some u ∧
    (u.currentReactor = enteredOnce.currentReactor ∨ u.currentReactor = none) ∧
    0 < t.strongCount 1 := by
  have hany : Runs.Reaches step (fun _ _ => true = true) {} enteredOnce :=
    Runs.Reaches.after (fun _ _ => true) _ .init (by decide) (by decide)
  have hrun : Runs.Reaches step (fun _ op => decide (op ≠ .exit 1) = true) (enteredOnce.enter 2)
      (Runs.after step (enteredOnce.enter 2) [.exit 0]) :=
    Runs.Reaches.after (fun _ op => decide (op ≠ AmbientOp.exit 1)) _ .init (by decide) (by decide)
  obtain ⟨⟨u, hu, hc, -⟩, halive⟩ :=
    (guards_put_back_what_they_found (hany.weaken fun _ _ _ => True.intro)).1 2 _
      (hrun.weaken fun _ _ ok => of_decide_eq_true ok)
  exact ⟨_, u, by decide, by decide, hu, hc, halive 1 (by decide)⟩

end Guards

section Nesting

/-- Every guard remembers what the guards outside of it, or the code outside of them all, had
made the default. -/
def Chained (outside : Option ReactorId) : List (GuardId × EnterGuard) → Prop
  | [] => True
  | g :: rest =>
    g.2.previousDefault = (rest.head?.map fun g => g.2.reactor).or outside ∧
      (g.2.previousAnchor = rest.head?.map fun g => g.2.reactor) ∧ Chained outside rest

/-- Between two steps of a run in which guards are dropped in reverse order. -/
structure Nested (s : AmbientHost) : Prop where
  current : s.currentReactor = some (s.entered.head?.or s.implicit)
  anchored : s.anchoredReactor = some s.entered.head?
  chained : Chained s.implicit s.guards
  hasHad : s.hasHadDefault = some (s.log.any AmbientEvent.givesDefault)

theorem nested_empty : ({} : AmbientHost).Nested := ⟨rfl, rfl, True.intro, rfl⟩

theorem Chained.anchors {outside : Option ReactorId} {guards rest : List (GuardId × EnterGuard)}
    {g : GuardId × EnterGuard} (h : Chained outside (g :: guards)) (hr : rest.Sublist guards) :
    ∀ k ∈ rest, ∃ m ∈ g :: guards, m.2.previousAnchor = some k.2.reactor := by
  induction guards generalizing g rest with
  | nil =>
    intro k hk
    rw [List.sublist_nil.mp hr] at hk
    cases hk
  | cons m guards ih =>
    intro k hk
    rcases List.mem_cons.mp (hr.subset hk) with rfl | hk
    · exact ⟨g, List.mem_cons_self, h.2.1⟩
    · obtain ⟨m', hm', he⟩ := ih h.2.2 (List.Sublist.refl guards) k hk
      exact ⟨m', List.mem_cons_of_mem _ hm', he⟩

/-- What is entered is alive: the innermost is in the slot, each other in the guard above it. -/
theorem Nested.alive (h : s.Nested) : ∀ r ∈ s.entered, 0 < s.strongCount r := by
  intro r hr
  obtain ⟨k, hk, rfl⟩ := List.mem_map.mp hr
  have hanchored := h.anchored
  have hchained := h.chained
  unfold entered at hanchored
  cases hg : s.guards with
  | nil => rw [hg] at hk; cases hk
  | cons g guards =>
    rw [hg] at hk hanchored hchained
    rcases List.mem_cons.mp hk with rfl | hk
    · exact strongCount_of_anchored hanchored
    · obtain ⟨m, hm, he⟩ := hchained.anchors (List.Sublist.refl guards) k hk
      exact strongCount_of_guard (hg ▸ hm) he

theorem Nested.tryCurrent (h : s.Nested) :
    s.tryCurrent = s.entered.head?.or (s.upgrade s.implicit) := by
  unfold AmbientHost.tryCurrent
  rw [h.current]
  cases he : s.entered.head? with
  | none => rfl
  | some r => exact upgrade_some (h.alive r (List.mem_of_mem_head? he))

theorem Nested.same (h : s.Nested) (hc : t.currentReactor = s.currentReactor)
    (ha : t.anchoredReactor = s.anchoredReactor) (hg : t.guards = s.guards)
    (hi : t.implicit = s.implicit) (hf : t.hasHadDefault = s.hasHadDefault)
    (hl : t.log.any AmbientEvent.givesDefault = s.log.any AmbientEvent.givesDefault) :
    t.Nested := by
  refine ⟨?_, ?_, ?_, ?_⟩
  · unfold entered
    rw [hc, hg, hi]
    exact h.current
  · unfold entered
    rw [ha, hg]
    exact h.anchored
  · rw [hg, hi]
    exact h.chained
  · rw [hf, hl]
    exact h.hasHad

theorem Nested.installs (h : s.Nested) (hc : s.tryCurrent = none) : s.guards = [] := by
  rw [h.tryCurrent] at hc
  unfold entered at hc
  cases hg : s.guards with
  | nil => rfl
  | cons g guards => rw [hg] at hc; cases hc

theorem Nested.step (h : s.Nested) (hn : s.nests op = true) (hs : s.step op = some t) :
    t.Nested := by
  cases op with
  | new | elsewhere =>
    cases hs
    exact h.same rfl rfl rfl rfl rfl rfl
  | clone q | drop q =>
    obtain ⟨-, ht⟩ := Option.ite_none_right_eq_some.mp hs
    cases ht
    exact h.same rfl rfl rfl rfl rfl rfl
  | enter q =>
    obtain ⟨-, ht⟩ := Option.ite_none_right_eq_some.mp hs
    cases ht
    refine ⟨?_, ?_, ⟨?_, ?_, h.chained⟩, ?_⟩
    · change replace s.currentReactor (some q) = _
      rw [h.current]
      rfl
    · change replace s.anchoredReactor (some q) = _
      rw [h.anchored]
      rfl
    · dsimp only
      rw [h.current, Option.getD_some]
      unfold entered
      rw [List.head?_map]
      rfl
    · dsimp only
      rw [h.anchored, Option.getD_some]
      unfold entered
      rw [List.head?_map]
    · change replace s.hasHadDefault true = _
      rw [h.hasHad]
      rfl
  | exit i =>
    obtain ⟨g, hg, rfl⟩ := Option.map_eq_some_iff.mp hs
    cases hl : s.guards with
    | nil => rw [hl] at hg; cases hg
    | cons k rest =>
      have hk : k.1 = i := by
        unfold nests at hn
        rw [hl] at hn
        simpa using hn
      have hkg : k = g := by
        simpa [hl, hk] using hg
      subst hkg
      have hrest : (s.exit i k.2).guards = rest := by
        change s.guards.eraseP _ = rest
        simp [hl, hk]
      obtain ⟨hdefault, hanchor, hchained⟩ := hl ▸ h.chained
      refine ⟨?_, ?_, hrest.symm ▸ hchained, h.hasHad⟩
      · unfold entered
        rw [hrest, List.head?_map]
        change replace s.currentReactor k.2.previousDefault = _
        rw [h.current, hdefault]
        rfl
      · unfold entered
        rw [hrest, List.head?_map]
        change replace s.anchoredReactor k.2.previousAnchor = _
        rw [h.anchored, hanchor]
        rfl
  | current =>
    cases hs
    unfold AmbientHost.current
    cases hc : s.tryCurrent with
    | some r => exact h.same rfl rfl rfl rfl rfl rfl
    | none =>
      have hg := h.installs hc
      refine ⟨?_, ?_, ?_, ?_⟩
      · change replace s.currentReactor _ = some ((s.guards.map _).head?.or _)
        rw [h.current, hg]
        rfl
      · exact h.anchored
      · change Chained _ s.guards
        rw [hg]
        exact True.intro
      · change replace s.hasHadDefault true = _
        rw [h.hasHad]
        dsimp only [install]
        split <;> rfl
  | tryCurrent =>
    rcases tryCurrent_step hs with rfl | ⟨r, rfl⟩
    · exact h
    · exact h.same rfl rfl rfl rfl rfl rfl
  | destroyCurrent | destroyAnchored | destroyHasHad => cases hn

/-- Where guards are dropped in reverse order, the current reactor is the innermost one entered,
all that are entered are alive, and outside of all guards it is the last default installed, as
long as that lives. What is made under a guard joins the entered reactor and no other, and
without a warning. -/
theorem current_reactor_is_the_innermost_entered
    (h : Runs.Reaches step (fun s op => s.nests op = true) {} s) :
    s.tryCurrent = s.entered.head?.or (s.upgrade s.implicit) ∧
    (∀ r ∈ s.entered, 0 < s.strongCount r) ∧
    s.anchoredReactor = some s.entered.head? ∧
    ∀ t, s.step .current = some t →
      (s.entered ≠ [] → t.nextReactor = s.nextReactor ∧ t.currentReactor = s.currentReactor ∧
        t.log = .currentReactorReuse :: s.log) ∧
      (s.tryCurrent = none → t.tryCurrent = some s.nextReactor ∧
        t.log.head? = some (if s.log.any AmbientEvent.givesDefault
          then .currentReactorReinstall s.nextReactor else .currentReactorInstall)) := by
  have hnested : s.Nested := h.invariant Nested nested_empty
    fun a op b ha ok hs => ha.step ok hs
  refine ⟨hnested.tryCurrent, hnested.alive, hnested.anchored, fun t ht => ?_⟩
  refine ⟨fun he => ?_, fun hc => ?_⟩
  · cases ht
    obtain ⟨r, hr⟩ : ∃ r, s.tryCurrent = some r := by
      cases hl : s.entered with
      | nil => exact absurd hl he
      | cons r rest => exact ⟨r, by rw [hnested.tryCurrent, hl]; rfl⟩
    unfold current
    rw [hr]
    exact ⟨rfl, rfl, rfl⟩
  · cases ht
    unfold current
    rw [hc]
    dsimp only
    constructor
    · unfold AmbientHost.tryCurrent
      change ((replace s.currentReactor (some s.nextReactor)).map s.install.upgrade).join = _
      rw [hnested.current]
      refine upgrade_some ?_
      have hhandle : s.install.handles s.nextReactor = s.handles s.nextReactor + 1 :=
        Function.update_self _ _ _
      unfold strongCount
      omega
    · dsimp only [install]
      rw [hnested.current, hnested.hasHad]
      rfl

/-- Code enters reactor 1, then reactor 2, and keeps no handle to either. -/
theorem entered_reactors_nest : ∃ s : AmbientHost, s.entered = [2, 1] ∧ s.handles 1 = 0 ∧
    s.handles 2 = 0 ∧ s.tryCurrent = some 2 ∧ 0 < s.strongCount 1 := by
  have hreached : Runs.Reaches step (fun s op => s.nests op = true) {}
      (Runs.after step {} [.new, .new, .enter 1, .enter 2, .drop 1, .drop 2]) :=
    Runs.Reaches.after nests _ .init (by decide) (by decide)
  obtain ⟨hc, halive, -⟩ := current_reactor_is_the_innermost_entered hreached
  exact ⟨_, by decide, by decide, by decide, hc.trans (by decide), halive 1 (by decide)⟩

end Nesting

end AmbientHost

end Adaptite

import Adaptite.OwnerBooks
import Adaptite.OwnerLists

set_option autoImplicit false

/-!
# The audit of the owner tree

A build with debug assertions keeps a weak reference to each frame, and `audit_ownership` walks
them to check the gauges. The registry drops what has died as it grows. What is being dropped is
out of its sight, but still counted until its destructor has returned.
-/
namespace Adaptite

inductive OwnershipGauge where
  | liveOwners | cleanupRegistrations | ownedChildren
deriving DecidableEq

structure OwnershipDrift where
  gauge : OwnershipGauge
  reported : ℕ
  actual : ℕ
deriving DecidableEq

/-- `OwnershipAudit`, without the answer of a build that has no registry. -/
inductive OwnershipAudit where
  | consistent
  | drifted (drift : List OwnershipDrift)
deriving DecidableEq

def OwnerCall.dropped {P : Type} : OwnerCall P → Option FrameId
  | dropping f => some f
  | _ => none

/-- Not in the source are `peak`, the most that the gauge of live owners has said, and `scanned`,
how many entries were gone through to make room for new ones. -/
structure AuditHost (P : Type) where
  owners : OwnerHost P := {}
  registry : List FrameId := []
  peak : ℕ := 0
  scanned : ℕ := 0

inductive AuditStep (P : Type) where
  | owner (step : OwnerStep P)
  | audit

namespace AuditHost

open OwnerHost

variable {P : Type}

def dying (s : OwnerHost P) : List FrameId := s.calls.filterMap OwnerCall.dropped

def upgrades (s : OwnerHost P) (f : FrameId) : Bool := (s.frames f).isSome && f ∉ dying s

/-- `ownership::register`. -/
def register (s : AuditHost P) (f : FrameId) : AuditHost P :=
  if 8 ≤ s.registry.length ∧ s.owners.stats.liveOwners * 2 ≤ s.registry.length then
    { s with
      registry := s.registry.filter (upgrades s.owners) ++ [f]
      scanned := s.scanned + s.registry.length }
  else { s with registry := s.registry ++ [f] }

def live (s : AuditHost P) : List FrameId := s.registry.filter (upgrades s.owners)

def check (gauge : OwnershipGauge) (reported actual : ℕ) : List OwnershipDrift :=
  if reported ≠ actual then [⟨gauge, reported, actual⟩] else []

/-- What `audit_ownership` answers. -/
def auditOwnership (s : AuditHost P) : OwnershipAudit :=
  let drift := check .liveOwners s.owners.stats.liveOwners s.live.length ++
    check .cleanupRegistrations s.owners.stats.cleanupRegistrations
      (s.live.map s.owners.pendingCleanups).sum ++
    check .ownedChildren s.owners.stats.ownedChildren (s.live.map s.owners.ownedChildren).sum
  if drift.isEmpty then .consistent else .drifted drift

def step (s : AuditHost P) : AuditStep P → Option (AuditHost P)
  | .owner op => (s.owners.step op).map fun owners =>
    let t := { s with owners, peak := max s.peak owners.stats.liveOwners }
    if owners.nextFrame = s.owners.nextFrame then t else t.register s.owners.nextFrame
  | .audit => if s.owners.calling then some { s with registry := s.live } else none

/-- Any steps, from a thread that has no frames. -/
abbrev Reached (s : AuditHost P) : Prop := Runs.Reaches step (fun _ _ => true = true) {} s

variable {s t : OwnerHost P} {f : FrameId}

section Turns

theorem mem_dying : f ∈ dying s ↔ .dropping f ∈ s.calls := by
  unfold dying
  rw [List.mem_filterMap]
  constructor
  · rintro ⟨call, hc, hd⟩
    cases call <;> cases hd
    exact hc
  · intro hc
    exact ⟨_, hc, rfl⟩

theorem upgrades_iff : upgrades s f = true ↔ (s.frames f).isSome = true ∧ f ∉ dying s := by
  unfold upgrades
  rw [Bool.and_eq_true, decide_eq_true_iff]

theorem nextFrame_turn (ht : Turn s t) :
    t.nextFrame = s.nextFrame ∨ ∃ effect, t = s.create effect := by
  cases ht with
  | created effect ht => exact .inr ⟨effect, ht⟩
  | adopted g x hc hx ht =>
    left
    rw [ht]
    unfold OwnerHost.adopt
    dsimp only
    split
    · rfl
    · split <;> rfl
  | added g x hc hx ht =>
    left
    rw [ht]
    unfold OwnerHost.addCleanup
    dsimp only
    split <;> rfl
  | marked _ _ _ _ _ _ ht
  | pushed _ _ _ _ ht
  | popped _ _ _ _ _ _ ht
  | swapped _ _ _ ht
  | spilled _ _ _ _ ht
  | abandoned _ _ _ _ _ _ _ _ ht
  | taken _ _ _ _ _ _ _ _ ht
  | cleaned _ _ _ _ _ _ _ _ _ ht
  | disposed _ _ _ _ _ _ _ _ ht
  | ended _ _ _ _ _ _ ht
  | caught _ _ _ _ _ _ _ _ _ _ _ _ _ ht
  | entered _ _ _ _ _ ht
  | vanished _ _ _ ht =>
    rw [ht]
    exact .inl rfl

theorem dying_turn (ht : Turn s t) (hf : f ∈ dying s) : f ∈ dying t ∨ t.frames f = none := by
  rw [mem_dying] at hf ⊢
  have hpop : ∀ {call : OwnerCall P} {rest : List (OwnerCall P)}, s.calls = call :: rest →
      call.dropped = none → .dropping f ∈ rest := by
    intro call rest hs hd
    rw [hs] at hf
    rcases List.mem_cons.mp hf with rfl | hf
    · cases hd
    · exact hf
  cases ht with
  | marked unwinding gone discarded hu hg hd ht => exact .inl (ht ▸ hf)
  | pushed call unwinding hc hp ht => exact .inl (ht ▸ List.mem_cons_of_mem _ hf)
  | popped call rest unwinding hs hp hu ht =>
    refine .inl (ht ▸ hpop hs ?_)
    cases call <;> first | rfl | cases hp
  | swapped c rest hs ht => exact .inl (ht ▸ List.mem_cons_of_mem _ (hpop hs rfl))
  | spilled c rest hs hu ht => exact .inl (ht ▸ hpop hs rfl)
  | abandoned g r cleanups children first rest hs hu ht => exact .inl (ht ▸ hpop hs rfl)
  | created effect ht => exact .inl (ht ▸ hf)
  | adopted g x hc hx ht =>
    left
    rw [ht]
    unfold OwnerHost.adopt
    dsimp only
    split
    · exact List.mem_cons_of_mem _ hf
    · split
      · exact hf
      · exact List.mem_cons_of_mem _ hf
  | added g x hc hx ht =>
    left
    rw [ht]
    unfold OwnerHost.addCleanup
    dsimp only
    split
    · exact List.mem_cons_of_mem _ hf
    · exact hf
  | taken g x y calls stats hx ho hu ht =>
    refine .inl (ht ▸ List.mem_cons_of_mem _ ?_)
    cases ho with
    | reset | dispose => exact hf
    | drop => exact List.mem_cons_of_mem _ hf
    | proceed rest hs => exact List.mem_cons_of_mem _ (hpop hs rfl)
  | cleaned g r c cleanups children first rest hs hu ht =>
    exact .inl (ht ▸ List.mem_cons_of_mem _ (List.mem_cons_of_mem _ (hpop hs rfl)))
  | disposed g r c children first rest hs hu ht =>
    exact .inl (ht ▸ List.mem_cons_of_mem _ (List.mem_cons_of_mem _ (hpop hs rfl)))
  | ended g r first rest hs hu ht => exact .inl (ht ▸ hpop hs rfl)
  | caught entry above g r cleanups children first rest p hs he ha hu ht =>
    have hrest := hpop hs (by cases entry <;> first | rfl | cases he)
    have hbelow : .dropping f ∈ rest := by
      rcases List.mem_cons.mp hrest with h | h
      · cases h
      · exact h
    exact .inl (ht ▸ List.mem_append_right _ (List.mem_cons_of_mem _ hbelow))
  | entered g rest hs hd hu ht => exact .inl (ht ▸ List.mem_cons_of_mem _ (hpop hs rfl))
  | vanished g rest hs ht =>
    rw [hs] at hf
    rcases List.mem_cons.mp hf with h | hf
    · cases h
      exact .inr (ht ▸ Function.update_self _ _ _)
    · exact .inl (ht ▸ hf)

/-- What is alive after a step was alive before, or has just been made. -/
theorem upgrades_turn (ht : Turn s t) (hs : t.Sane) (hf : upgrades t f = true) :
    upgrades s f = true ∨ f = s.nextFrame ∧ t.nextFrame = s.nextFrame + 1 := by
  obtain ⟨hsome, hdying⟩ := upgrades_iff.mp hf
  obtain ⟨y, hy⟩ := Option.isSome_iff_exists.mp hsome
  have hkept : (s.frames f).isSome = true → upgrades s f = true := fun hs =>
    upgrades_iff.mpr ⟨hs, fun hd => by
      rcases dying_turn ht hd with h | h
      · exact hdying h
      · cases h.symm.trans hy⟩
  rcases nextFrame_turn ht with hn | ⟨effect, rfl⟩
  · left
    cases ht.entry hy with
    | same x hx | adopted x hx | added x hx => exact hkept (Option.isSome_of_eq_some hx)
    | empty hc hl hw he =>
      rcases he with rfl | ⟨x, hx, -⟩
      · exact absurd (hn ▸ hs.below _ y hy) (Nat.lt_irrefl _)
      · exact hkept (Option.isSome_of_eq_some hx)
  · by_cases hnew : f = s.nextFrame
    · exact .inr ⟨hnew, rfl⟩
    · refine .inl (hkept ?_)
      have hsame : (s.create effect).frames f = s.frames f := Function.update_of_ne hnew _ _
      exact hsame ▸ hsome

end Turns

section Registry

variable {a b : AuditHost P} {w : OwnerFrameState → ℕ}

/-- The registry has what is alive, and is no longer than what has been made room for. -/
structure Registered (a : AuditHost P) : Prop where
  reached : OwnerHost.Reached a.owners
  nodup : a.registry.Nodup
  below : ∀ f ∈ a.registry, f < a.owners.nextFrame
  complete : ∀ f, upgrades a.owners f = true → f ∈ a.registry
  counted : a.owners.stats.liveOwners ≤ a.peak
  bounded : a.registry.length ≤ max 8 (a.peak * 2)
  paid : a.scanned + a.registry.length * 2 ≤ a.owners.nextFrame * 2

theorem registered_empty : ({} : AuditHost P).Registered where
  reached := .init
  nodup := List.nodup_nil
  below := fun f hf => by cases hf
  complete := fun f hf => by cases hf
  counted := Nat.le_refl _
  bounded := Nat.zero_le _
  paid := Nat.le_refl _

theorem Registered.mem_live (h : a.Registered) : f ∈ a.live ↔ upgrades a.owners f = true := by
  unfold live
  rw [List.mem_filter]
  exact ⟨fun hf => hf.2, fun hf => ⟨h.complete f hf, hf⟩⟩

theorem nodup_dying (h : s.Sane) : (dying s).Nodup := by
  refine List.Pairwise.filterMap _ (fun x y hxy f hf g hg => ?_) h.apart
  cases x <;> cases hf
  cases y <;> cases hg
  rintro rfl
  exact absurd (hxy f rfl) (by simp [OwnerCall.uses])

theorem Registered.total_eq (h : a.Registered) (w : OwnerFrameState → ℕ) : a.owners.total w =
    (a.live.map fun f => (a.owners.frames f).elim 0 w).sum +
      ((dying a.owners).map fun f => (a.owners.frames f).elim 0 w).sum := by
  have hs := h.reached.sane
  have hnodup : (a.live ++ dying a.owners).Nodup := by
    refine List.nodup_append.mpr ⟨h.nodup.filter _, nodup_dying hs, fun f hf g hg => ?_⟩
    rintro rfl
    exact (upgrades_iff.mp (h.mem_live.mp hf)).2 hg
  have hexisting : a.owners.existing = (a.live ++ dying a.owners).toFinset := by
    apply Finset.ext
    intro f
    unfold existing
    rw [Finset.mem_filter, Finset.mem_range, List.mem_toFinset, List.mem_append, h.mem_live,
      upgrades_iff]
    constructor
    · rintro ⟨-, hf⟩
      by_cases hd : f ∈ dying a.owners
      · exact .inr hd
      · exact .inl ⟨hf, hd⟩
    · intro hf
      have hsome : (a.owners.frames f).isSome = true := by
        rcases hf with ⟨hf, -⟩ | hd
        · exact hf
        · exact hs.used _ (mem_dying.mp hd) f (by simp [OwnerCall.uses])
      obtain ⟨x, hx⟩ := Option.isSome_iff_exists.mp hsome
      exact ⟨hs.below f x hx, hsome⟩
  rw [total_eq_sum, hexisting, List.sum_toFinset _ hnodup, List.map_append, List.sum_append]

theorem sum_ones {l : List FrameId} (hl : ∀ f ∈ l, (s.frames f).isSome = true) :
    (l.map fun f => (s.frames f).elim 0 fun _ => 1).sum = l.length := by
  induction l with
  | nil => rfl
  | cons f l ih =>
    obtain ⟨x, hx⟩ := Option.isSome_iff_exists.mp (hl f List.mem_cons_self)
    rw [List.map_cons, List.sum_cons, ih fun g hg => hl g (List.mem_cons_of_mem _ hg), hx,
      List.length_cons]
    exact Nat.add_comm _ _

theorem Registered.liveOwners_eq (h : a.Registered) :
    a.owners.stats.liveOwners = a.live.length + (dying a.owners).length := by
  rw [h.reached.balanced.owners, h.total_eq, sum_ones fun f hf =>
    (upgrades_iff.mp (h.mem_live.mp hf)).1, sum_ones fun f hf =>
      h.reached.sane.used _ (mem_dying.mp hf) f (by simp [OwnerCall.uses])]

/-- A frame that is being dropped has been disposed, and holds nothing. -/
theorem sum_dying (hs : s.Sane)
    (hw : ∀ x : OwnerFrameState, x.cleanups = [] ∧ x.children = [] → w x = 0) :
    ((dying s).map fun f => (s.frames f).elim 0 w).sum = 0 := by
  rw [List.sum_eq_zero]
  intro k hk
  obtain ⟨f, hf, rfl⟩ := List.mem_map.mp hk
  cases hx : s.frames f with
  | none => rfl
  | some x => exact hw x (hs.emptied f x hx (hs.dying f (mem_dying.mp hf) x hx))

theorem Registered.cleanups_eq (h : a.Registered) : a.owners.stats.cleanupRegistrations =
    (a.live.map a.owners.pendingCleanups).sum := by
  rw [h.reached.balanced.cleanups, h.total_eq,
    sum_dying h.reached.sane fun x hx => List.length_eq_zero_iff.mpr hx.1]
  rfl

theorem Registered.children_eq (h : a.Registered) : a.owners.stats.ownedChildren =
    (a.live.map a.owners.ownedChildren).sum := by
  rw [h.reached.balanced.children, h.total_eq,
    sum_dying h.reached.sane fun x hx => List.length_eq_zero_iff.mpr hx.2]
  rfl

theorem Registered.keep (h : a.Registered) (ht : Turn a.owners t)
    (hn : t.nextFrame = a.owners.nextFrame) (hr : OwnerHost.Reached t) :
    Registered { a with owners := t, peak := max a.peak t.stats.liveOwners } where
  reached := hr
  nodup := h.nodup
  below f hf := hn ▸ h.below f hf
  complete f hf := by
    rcases upgrades_turn ht hr.sane hf with hf | ⟨-, hnew⟩
    · exact h.complete f hf
    · exact absurd (hn.symm.trans hnew) (Nat.succ_ne_self _).symm
  counted := Nat.le_max_right _ _
  bounded := by
    have hbound := h.bounded
    dsimp only
    omega
  paid := by
    have hpaid := h.paid
    dsimp only
    rw [hn]
    omega

theorem Registered.create (h : a.Registered) (effect : Bool)
    (hr : OwnerHost.Reached (a.owners.create effect)) : Registered (register
      ⟨a.owners.create effect, a.registry, max a.peak (a.owners.create effect).stats.liveOwners,
        a.scanned⟩ a.owners.nextFrame) := by
  have hlive : (a.owners.create effect).stats.liveOwners = a.owners.stats.liveOwners + 1 := rfl
  have hnext : (a.owners.create effect).nextFrame = a.owners.nextFrame + 1 := rfl
  have hcounted := h.counted
  have hbounded := h.bounded
  have hpaid := h.paid
  have hfresh : a.owners.nextFrame ∉ a.registry := fun hf => Nat.lt_irrefl _ (h.below _ hf)
  have hcomplete : ∀ f, upgrades (a.owners.create effect) f = true →
      f ∈ a.registry ∨ f = a.owners.nextFrame := by
    intro f hf
    rcases upgrades_turn (.created effect rfl) hr.sane hf with hf | ⟨hf, -⟩
    · exact .inl (h.complete f hf)
    · exact .inr hf
  -- what stays in the registry was alive before
  have hkept : (a.registry.filter (upgrades (a.owners.create effect))).length ≤
      a.owners.stats.liveOwners := by
    have hsame : a.registry.filter (upgrades (a.owners.create effect)) = a.live := by
      refine List.filter_congr fun f hf => ?_
      unfold upgrades
      have hne : f ≠ a.owners.nextFrame := Nat.ne_of_lt (h.below f hf)
      have hframe : (a.owners.create effect).frames f = a.owners.frames f :=
        Function.update_of_ne hne _ _
      rw [hframe]
      rfl
    rw [hsame, h.liveOwners_eq]
    exact Nat.le_add_right _ _
  have hextend : ∀ {registry : List FrameId}, registry.Sublist a.registry →
      (registry ++ [a.owners.nextFrame]).Nodup ∧
        ∀ f ∈ registry ++ [a.owners.nextFrame], f < a.owners.nextFrame + 1 := by
    intro registry hsub
    refine ⟨List.nodup_append.mpr ⟨h.nodup.sublist hsub, List.nodup_singleton _, ?_⟩, ?_⟩
    · rintro f hf g hg rfl
      exact hfresh (List.mem_singleton.mp hg ▸ hsub.subset hf)
    · intro f hf
      rcases List.mem_append.mp hf with hf | hf
      · exact Nat.lt_succ_of_lt (h.below f (hsub.subset hf))
      · rw [List.mem_singleton.mp hf]
        exact Nat.lt_succ_self _
  unfold register
  dsimp only
  split
  · rename_i hprune
    obtain ⟨hnodup, hbelow⟩ := hextend List.filter_sublist
    refine ⟨hr, hnodup, hbelow, fun f hf => ?_, Nat.le_max_right _ _, ?_, ?_⟩
    · rcases hcomplete f hf with hin | rfl
      · exact List.mem_append_left _ (List.mem_filter.mpr ⟨hin, hf⟩)
      · exact List.mem_append_right _ (List.mem_singleton_self _)
    · dsimp only
      rw [List.length_append, List.length_singleton]
      omega
    · dsimp only
      rw [List.length_append, List.length_singleton, hnext]
      omega
  · rename_i hroom
    obtain ⟨hnodup, hbelow⟩ := hextend (List.Sublist.refl a.registry)
    refine ⟨hr, hnodup, hbelow, fun f hf => ?_, Nat.le_max_right _ _, ?_, ?_⟩
    · rcases hcomplete f hf with hin | rfl
      · exact List.mem_append_left _ hin
      · exact List.mem_append_right _ (List.mem_singleton_self _)
    · dsimp only
      rw [List.length_append, List.length_singleton]
      omega
    · dsimp only
      rw [List.length_append, List.length_singleton, hnext]
      omega

theorem Registered.step (h : a.Registered) {op : AuditStep P} (hs : a.step op = some b) :
    b.Registered := by
  cases op with
  | owner op =>
    obtain ⟨t, ht, rfl⟩ := Option.map_eq_some_iff.mp hs
    have hr : OwnerHost.Reached t := .next op h.reached rfl ht
    have hturn := turn_step ht
    dsimp only
    rcases nextFrame_turn hturn with hn | ⟨effect, rfl⟩
    · rw [if_pos hn]
      exact h.keep hturn hn hr
    · have hn : (a.owners.create effect).nextFrame ≠ a.owners.nextFrame :=
        Nat.succ_ne_self a.owners.nextFrame
      rw [if_neg hn]
      exact h.create effect hr
  | audit =>
    obtain ⟨-, ht⟩ := Option.ite_none_right_eq_some.mp hs
    cases ht
    have hpaid := h.paid
    have hbounded := h.bounded
    have hlen : a.live.length ≤ a.registry.length := List.length_filter_le _ _
    refine ⟨h.reached, h.nodup.filter _, fun f hf => h.below f (List.mem_of_mem_filter hf),
      fun f hf => h.mem_live.mpr hf, h.counted, ?_, ?_⟩
    · dsimp only
      omega
    · dsimp only
      omega

theorem Reached.registered (h : a.Reached) : a.Registered :=
  h.invariant Registered registered_empty fun _ _ _ ha _ hs => ha.step hs

/-- Whatever the code of the thread does, and wherever it asks: the audit finds no drift, except
while frames are being dropped. They are out of its sight, but counted still, so that it reports
their number as a drift of the one gauge that counts them. -/
theorem audit_answers_exactly (h : a.Reached) :
    (dying a.owners).length ≤ a.owners.stats.liveOwners ∧
    a.auditOwnership = if dying a.owners = [] then .consistent
      else .drifted [⟨.liveOwners, a.owners.stats.liveOwners,
        a.owners.stats.liveOwners - (dying a.owners).length⟩] := by
  have hr := h.registered
  have hlive := hr.liveOwners_eq
  have hcheck : ∀ gauge {n m : ℕ}, n = m → check gauge n m = [] := by
    intro gauge n m hnm
    exact if_neg (not_not_intro hnm)
  refine ⟨by omega, ?_⟩
  unfold auditOwnership
  rw [hcheck _ hr.cleanups_eq, hcheck _ hr.children_eq, List.append_nil, List.append_nil]
  split
  · rename_i hnone
    rw [hnone, List.length_nil, Nat.add_zero] at hlive
    rw [hcheck _ hlive]
    rfl
  · rename_i hsome
    have hpos : 0 < (dying a.owners).length := List.length_pos_iff.mpr hsome
    have hne : a.owners.stats.liveOwners ≠ a.live.length := by omega
    have hactual : a.owners.stats.liveOwners - (dying a.owners).length = a.live.length := by omega
    unfold check
    rw [if_pos hne, hactual]
    rfl

/-- The body of a scope unwound, so that its frame is dropped without having been disposed,
and the cleanup asks for the audit. -/
def auditInCleanup : List (AuditStep ℕ) :=
  [.owner (.create false), .owner (.create false), .owner (.addCleanup 0), .owner (.drop 0),
    .owner .next]

theorem audit_counts_dropped_frame : ∃ a : AuditHost ℕ, a.owners.calling = true ∧
    dying a.owners = [0] ∧ a.auditOwnership = .drifted [⟨.liveOwners, 2, 1⟩] := by
  have hreached : Reached (Runs.after step {} auditInCleanup) :=
    Runs.Reaches.after (fun _ _ => true) _ .init (by decide +kernel) (by decide +kernel)
  refine ⟨_, by decide +kernel, by decide +kernel,
    (audit_answers_exactly hreached).2.trans (by decide +kernel)⟩

/-- The registry never misses a frame that is alive, stays within twice the most that there were
at once, and what is gone through to keep it so is at most twice the frames ever made. -/
theorem registry_stays_small (h : a.Reached) :
    (∀ f, upgrades a.owners f = true → f ∈ a.registry) ∧ a.registry.Nodup ∧
      a.registry.length ≤ max 8 (a.peak * 2) ∧ a.scanned ≤ a.owners.nextFrame * 2 := by
  have hr := h.registered
  have hpaid := hr.paid
  exact ⟨hr.complete, hr.nodup, hr.bounded, by omega⟩

/-- Nine frames come and go, so that the registry makes room once. -/
def comingAndGoing : List (AuditStep ℕ) :=
  (List.range 9).flatMap fun f =>
    [.owner (.create false), .owner (.drop f), .owner .next, .owner .next]

theorem registry_makes_room : ∃ a : AuditHost ℕ, a.owners.nextFrame = 9 ∧ a.registry = [8] ∧
    a.scanned = 8 ∧ a.registry.length ≤ max 8 (a.peak * 2) := by
  have hreached : Reached (Runs.after step {} comingAndGoing) :=
    Runs.Reaches.after (fun _ _ => true) _ .init (by decide +kernel) (by decide +kernel)
  exact ⟨_, by decide +kernel, by decide +kernel, by decide +kernel,
    (registry_stays_small hreached).2.2.1⟩

end Registry

end AuditHost

end Adaptite

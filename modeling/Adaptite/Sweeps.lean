import Adaptite.OwnerLists

set_option autoImplicit false

namespace Adaptite

namespace OwnerHost

variable {P : Type}

def undisposed (s : OwnerHost P) (f : FrameId) : ℕ :=
  (s.frames f).elim 0 fun x => (x.children.filter fun c => !s.gone c).length

end OwnerHost

/-- A thread whose run is watched. `most` is not in the source: the most children that a frame
has held undisposed at one moment of the run since it was last reset. -/
structure WatchedHost (P : Type) where
  host : OwnerHost P := {}
  most : FrameId → ℕ := fun _ => 0

namespace WatchedHost

variable {P : Type} {w : WatchedHost P} {op : OwnerStep P}

/-- The watched run after a step that leaves `t`. -/
def watch (w : WatchedHost P) (op : OwnerStep P) (t : OwnerHost P) : WatchedHost P :=
  ⟨t, fun f => if w.host.resets f op then t.undisposed f else max (w.most f) (t.undisposed f)⟩

def step (w : WatchedHost P) (op : OwnerStep P) : Option (WatchedHost P) :=
  (w.host.step op).map (w.watch op)

abbrev Reached (w : WatchedHost P) : Prop := Runs.Reaches step (fun _ _ => true = true) {} w

/-- What is undisposed now counts, and the threshold and the list of a frame are within what is
recorded. -/
structure Bounded (w : WatchedHost P) : Prop where
  counted : ∀ f, w.host.undisposed f ≤ w.most f
  threshold : ∀ f x, w.host.frames f = some x → x.sweptAt ≤ w.most f
  children : ∀ f x, w.host.frames f = some x → x.children.length ≤ max 8 (2 * w.most f)

end WatchedHost

namespace OwnerHost

open OwnerCall

variable {P : Type} {s t : OwnerHost P} {op : OwnerStep P} {f : FrameId} {x y : OwnerFrameState}

section Sweep

theorem sweep_released (gone : ℕ → Bool) (x : OwnerFrameState) :
    ∀ c ∈ (sweep gone x).2, gone c = true := by
  intro c hc
  unfold sweep at hc
  split at hc
  · cases hc
  · exact (List.mem_filter.mp hc).2

/-- After a sweep, as before it, the threshold is a number of undisposed children; and one more
child keeps within the bound. -/
theorem sweep_bounds (gone : ℕ → Bool) (x : OwnerFrameState) :
    ((sweep gone x).1.sweptAt = x.sweptAt ∧
      (sweep gone x).1.children.length + 1 ≤ max 8 (2 * x.sweptAt)) ∨
    (sweep gone x).1.sweptAt = (x.children.filter fun c => !gone c).length ∧
      (sweep gone x).1.children.length + 1 ≤
        max 8 (2 * (x.children.filter fun c => !gone c).length) := by
  unfold sweep
  split
  · rename_i hskip
    refine .inl ⟨rfl, ?_⟩
    dsimp only
    omega
  · refine .inr ⟨rfl, ?_⟩
    dsimp only
    omega

end Sweep

section Steps

theorem empty_of_resets (ht : s.step op = some t) (hr : s.resets f op = true)
    (hy : t.frames f = some y) : y.children = [] ∧ y.sweptAt = 0 := by
  obtain ⟨x, z, calls, stats, -, -, rfl⟩ := resets_step ht hr
  rcases update_eq_some hy with ⟨-, rfl⟩ | ⟨hne, -⟩
  · exact ⟨rfl, rfl⟩
  · exact absurd rfl hne

theorem Turn.released_gone (h : ∀ c ∈ s.released, s.gone c = true) (ht : Turn s t) :
    ∀ c ∈ t.released, t.gone c = true := by
  cases ht with
  | marked unwinding gone discarded hu hg hd ht =>
    subst ht
    exact fun c hc => hg c (h c hc)
  | adopted g x hc hx ht =>
    subst ht
    unfold OwnerHost.adopt
    dsimp only
    split
    · exact h
    · have hboth : ∀ c ∈ (sweep s.gone x).2 ++ s.released, s.gone c = true := by
        intro c hc
        rcases List.mem_append.mp hc with hc | hc
        · exact sweep_released s.gone x c hc
        · exact h c hc
      split
      · exact hboth
      · exact hboth
  | added g x hc hx ht =>
    subst ht
    unfold OwnerHost.addCleanup
    dsimp only
    split
    · exact h
    · exact h
  | pushed call unwinding hc hp ht => exact ht ▸ h
  | popped call rest unwinding hs hp hu ht => exact ht ▸ h
  | swapped c rest hs ht => exact ht ▸ h
  | spilled c rest hs hu ht => exact ht ▸ h
  | abandoned g r cs ch first rest hs hu ht => exact ht ▸ h
  | created effect ht => exact ht ▸ h
  | taken g x z calls stats hx ho hu ht => exact ht ▸ h
  | cleaned g r c cs ch first rest hs hu ht => exact ht ▸ h
  | disposed g r c ch first rest hs hu ht => exact ht ▸ h
  | ended g r first rest hs hu ht => exact ht ▸ h
  | caught entry above g r cs ch first rest p hs he ha hu ht => exact ht ▸ h
  | entered g rest hs hd hu ht => exact ht ▸ h
  | vanished g rest hs ht => exact ht ▸ h

end Steps

theorem Reached.released_gone (h : Reached s) : ∀ c ∈ s.released, s.gone c = true :=
  Runs.Reaches.invariant (fun s => ∀ c ∈ s.released, s.gone c = true) (fun c hc => by cases hc)
    (fun _ _ _ hs _ ht => (turn_step ht).released_gone hs) h

end OwnerHost

namespace WatchedHost

open OwnerHost

variable {P : Type} {w z : WatchedHost P} {s t : OwnerHost P} {op : OwnerStep P} {f : FrameId}

theorem undisposed_of_frame {x : OwnerFrameState} (hx : s.frames f = some x) :
    s.undisposed f = (x.children.filter fun c => !s.gone c).length := by
  unfold OwnerHost.undisposed
  rw [hx]
  rfl

theorem most_watch (w : WatchedHost P) (hr : w.host.resets f op = false) :
    w.most f ≤ (w.watch op t).most f := by
  unfold watch
  dsimp only
  rw [if_neg (Bool.eq_false_iff.mp hr)]
  exact le_max_left _ _

theorem undisposed_watch (w : WatchedHost P) (op : OwnerStep P) (t : OwnerHost P) (f : FrameId) :
    t.undisposed f ≤ (w.watch op t).most f := by
  unfold watch
  dsimp only
  split
  · exact le_rfl
  · exact le_max_right _ _

theorem Bounded.step (h : w.Bounded) (ht : w.host.step op = some t) : (w.watch op t).Bounded := by
  have hframe : ∀ f y, t.frames f = some y →
      y.sweptAt ≤ (w.watch op t).most f ∧ y.children.length ≤ max 8 (2 * (w.watch op t).most f) := by
    intro f y hy
    -- a frame that holds nothing is within any bound
    have hempty : y.children = [] ∧ y.sweptAt = 0 →
        y.sweptAt ≤ (w.watch op t).most f ∧
          y.children.length ≤ max 8 (2 * (w.watch op t).most f) := by
      rintro ⟨hl, hw⟩
      rw [hl, hw]
      exact ⟨Nat.zero_le _, Nat.zero_le _⟩
    cases hr : w.host.resets f op with
    | true => exact hempty (empty_of_resets ht hr hy)
    | false =>
      have hmost := most_watch (t := t) w hr
      cases (turn_step ht).entry hy with
      | same x hx hc hl hw =>
        have hswept := h.threshold f x hx
        have hlen := h.children f x hx
        rw [hl, hw]
        omega
      | added x hx hc hl hw =>
        have hswept := h.threshold f x hx
        have hlen := h.children f x hx
        rw [hl, hw]
        omega
      | empty hc hl hw => exact hempty ⟨hl, hw⟩
      | adopted x hx hc hl hw =>
        have hlen : y.children.length = (sweep w.host.gone x).1.children.length + 1 := by
          rw [hl, List.length_append, List.length_singleton]
        have hswept := h.threshold f x hx
        -- what a sweep keeps is what is undisposed in the state before it
        have hkept := undisposed_of_frame hx
        have hcount := h.counted f
        rcases sweep_bounds w.host.gone x with ⟨hsame, hle⟩ | ⟨hnew, hle⟩
        · rw [hw, hsame]
          omega
        · rw [hw, hnew]
          omega
  exact ⟨undisposed_watch w op t, fun f y hy => (hframe f y hy).1, fun f y hy => (hframe f y hy).2⟩

theorem step_cases (h : w.step op = some z) : ∃ t, w.host.step op = some t ∧ z = w.watch op t := by
  unfold step at h
  cases ht : w.host.step op with
  | none => simp [ht] at h
  | some t =>
    rw [ht] at h
    exact ⟨t, rfl, (Option.some.inj h).symm⟩

theorem Reached.bounded (h : w.Reached) : w.Bounded := by
  refine Runs.Reaches.invariant Bounded ⟨fun _ => Nat.zero_le _, fun f x hx => ?_, fun f x hx => ?_⟩
    (fun w op z hw _ hz => ?_) h
  · cases hx
  · cases hx
  · obtain ⟨t, ht, rfl⟩ := step_cases hz
    exact hw.step ht

theorem Reached.host (h : w.Reached) : OwnerHost.Reached w.host := by
  refine Runs.Reaches.invariant (fun w : WatchedHost P => OwnerHost.Reached w.host) .init
    (fun w op z hw _ hz => ?_) h
  obtain ⟨t, ht, rfl⟩ := step_cases hz
  exact hw.next op rfl ht

/-- A sweep releases only children that are disposed and keeps the others in their order, and a
frame never holds more than eight children or twice the most that it has held undisposed at one
moment of the run since its last reset. -/
theorem sweeps_are_safe_and_bounded (h : w.Reached) :
    (∀ c ∈ w.host.released, w.host.gone c = true) ∧
    (∀ f x, w.host.frames f = some x →
      (∀ c ∈ (sweep w.host.gone x).2, w.host.gone c = true) ∧
      (sweep w.host.gone x).1.children.Sublist x.children ∧
      x.children.Perm ((sweep w.host.gone x).1.children ++ (sweep w.host.gone x).2)) ∧
    (∀ f x, w.host.frames f = some x → x.children.Pairwise (· < ·)) ∧
    (∀ f r cleanups children first, .tearing f r cleanups children first ∈ w.host.calls →
      children.Pairwise (· > ·)) ∧
    ∀ f x, w.host.frames f = some x → x.children.length ≤ max 8 (2 * w.most f) := by
  have hs := h.host
  refine ⟨hs.released_gone, fun f x _ => ?_, fun f x hx => (hs.listed.children f x hx).1,
    fun f r cs ch first hm => (hs.listed.loops f r cs ch first hm).2, h.bounded.children⟩
  exact ⟨sweep_released w.host.gone x, sweep_sublist w.host.gone x, sweep_perm w.host.gone x⟩

theorem bounded_after_a_sweep : ∃ w : WatchedHost ℕ, w.Reached ∧ w.host.released = [1] ∧
    w.host.ownedChildren 0 = 9 ∧ w.most 0 = 9 ∧ (∀ c ∈ w.host.released, w.host.gone c = true) ∧
    w.host.ownedChildren 0 ≤ max 8 (2 * w.most 0) := by
  let w := Runs.after (step (P := ℕ)) {} (sweeping.take 15)
  have hw : w.Reached :=
    Runs.Reaches.after (fun _ _ => true) _ .init (by decide +kernel) (by decide +kernel)
  obtain ⟨hgone, -, -, -, hbound⟩ := sweeps_are_safe_and_bounded hw
  have hsome : (w.host.frames 0).isSome = true := by decide +kernel
  obtain ⟨x, hx⟩ := Option.isSome_iff_exists.mp hsome
  refine ⟨w, hw, by decide +kernel, by decide +kernel, by decide +kernel, hgone, ?_⟩
  unfold OwnerHost.ownedChildren
  rw [hx]
  exact hbound 0 x hx

end WatchedHost

end Adaptite

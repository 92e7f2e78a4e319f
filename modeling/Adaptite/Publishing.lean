import Adaptite.Resource
import Mathlib.Algebra.Order.BigOperators.Group.List
import Mathlib.Algebra.Order.Group.Nat

set_option autoImplicit false

/-!
# Publishing

A fetch in flight is held by the owner's cleanups or by one activation, and there
is room for one: an open window keeps the place of the fetch it will register.
-/
namespace Adaptite

/-- The fetches an activation is about to register or to abort. -/
def Activation.held : Activation → List ℕ
  | teardown handles | disposing handles => handles
  | fetching k | spawned k => [k]
  | _ => []

/-- An open window keeps a place for the fetch it is going to register. -/
def Activation.reserve : Activation → ℕ
  | teardown handles => max 1 handles.length
  | disposing handles => handles.length
  | body | fetching _ | spawned _ => 1
  | _ => 0

def Activation.room : List Activation → ℕ
  | [] => 0
  | a :: stack => a.reserve + room stack

namespace Resource

variable {T : Type}

/-- The fetches that the owner or an activation is going to abort or register. -/
def held (s : Resource T) : List ℕ := s.cleanups ++ s.stack.flatMap Activation.held

def load (s : Resource T) : ℕ := s.cleanups.length + Activation.room s.stack

structure Sound (s : Resource T) : Prop where
  single : s.load ≤ 1
  owned : ∀ k, s.fetches k = .pending → k ∈ s.held
  calling : ∀ k, s.fetches k = .calling ↔ .fetching k ∈ s.stack
  window : s.running = s.stack.any Activation.isWindow
  nested : s.stack.Pairwise fun above below =>
    above.isPoll = false ∧ (above = .verifying ∨ above.isWindow = true → below.isWindow = false)
  released : s.disposed = true → s.cleanups = []
  disposing : ∀ ks, .disposing ks ∈ s.stack → s.disposed = true
  live : ∀ k, .polling k ∈ s.stack → s.fetches k = .pending ∨ s.fetches k = .aborted
  recent : ∀ k, s.fetches k ≠ .unstarted → k ≤ s.generation
  done : ∀ k ∈ s.published, s.fetches k = .finished
  increasing : s.published.Pairwise (· < ·)

variable {s t : Resource T}

theorem held_le_reserve (a : Activation) : a.held.length ≤ a.reserve := by
  cases a with
  | teardown handles => exact le_max_right _ _
  | disposing | fetching | spawned => exact le_rfl
  | _ => exact Nat.zero_le _

theorem held_le_room (l : List Activation) :
    (l.flatMap Activation.held).length ≤ Activation.room l := by
  induction l with
  | nil => exact le_rfl
  | cons a l ih =>
    rw [List.flatMap_cons, List.length_append, Activation.room]
    exact Nat.add_le_add (held_le_reserve a) ih

theorem length_held_le (s : Resource T) : s.held.length ≤ s.load := by
  unfold held load
  rw [List.length_append]
  exact Nat.add_le_add_left (held_le_room s.stack) _

theorem Sound.eq_of_held (h : s.Sound) {j k : ℕ} (hj : j ∈ s.held) (hk : k ∈ s.held) : j = k := by
  have hlen : s.held.length ≤ 1 := s.length_held_le.trans h.single
  cases hl : s.held with
  | nil => simp [hl] at hj
  | cons i l =>
    obtain rfl : l = [] := by simpa [hl] using hlen
    simp only [hl, List.mem_singleton] at hj hk
    rw [hj, hk]

section Tops

variable {a b : Activation} {rest : List Activation}

theorem Sound.leave (h : s.Sound) (hst : s.stack = a :: rest) (ha : a.held = []) {running : Bool}
    (hr : running = (s.running && !a.isWindow)) :
    ({ s with running := running, stack := rest } : Resource T).Sound := by
  obtain ⟨h1, h2, h3, h4, h5, h6, h7, h9, h10, h11, h12⟩ := h
  have hf : ∀ k, a ≠ .fetching k := by
    rintro k rfl
    simp [Activation.held] at ha
  simp only [load, held, hst, Activation.room, List.flatMap_cons, ha,
    List.nil_append, List.mem_cons, List.any_cons, List.pairwise_cons] at h1 h2 h3 h4 h5 h7 h9
  exact
    { single := by unfold load; dsimp only; omega
      owned := h2
      calling := fun k => (h3 k).trans ⟨fun hk => hk.resolve_left (hf k).symm, Or.inr⟩
      window := by
        cases hw : a.isWindow with
        | false => simpa [hw, h4] using hr
        | true =>
          have hrest : rest.any Activation.isWindow = false :=
            List.any_eq_false.mpr fun c hc => by simp [(h5.1 c hc).2 (Or.inr hw)]
          simpa [hw, hrest] using hr
      nested := h5.2
      released := h6
      disposing := fun ks hk => h7 ks (Or.inr hk)
      live := fun k hk => h9 k (Or.inr hk)
      recent := h10
      done := h11
      increasing := h12 }

/-- The innermost activation goes on, without a fetch that is not yet aborted. -/
theorem Sound.goOn (h : s.Sound) (hst : s.stack = a :: rest)
    (hw : b.isWindow = a.isWindow) (ha : a ≠ .verifying ∧ a.isPoll = false)
    (hb : b ≠ .verifying ∧ b.isPoll = false)
    (hr : b.reserve ≤ a.reserve) (hd : ∀ ks, b = .disposing ks → ∃ ks', a = .disposing ks')
    (hh : ∀ k ∈ a.held, s.fetches k = .pending → k ∈ b.held)
    (hf : ∀ k, b = .fetching k ↔ a = .fetching k) :
    ({ s with stack := b :: rest } : Resource T).Sound := by
  obtain ⟨h1, h2, h3, h4, h5, h6, h7, h9, h10, h11, h12⟩ := h
  simp only [load, held, hst, Activation.room, List.flatMap_cons,
    List.mem_append, List.mem_cons, List.any_cons, List.pairwise_cons] at h1 h2 h3 h4 h5 h7 h9
  exact
    { single := by simp only [load, Activation.room]; omega
      owned := fun k hk => by
        simp only [held, List.flatMap_cons, List.mem_append]
        exact (h2 k hk).imp id (Or.imp (hh k · hk) id)
      calling := fun k => by
        rw [h3, List.mem_cons, eq_comm, ← hf k, eq_comm]
      window := by rw [h4, List.any_cons, hw]
      nested := by
        refine List.pairwise_cons.mpr ⟨fun c hc => ⟨hb.2, fun hv => (h5.1 c hc).2 ?_⟩, h5.2⟩
        exact Or.inr (hw ▸ hv.resolve_left hb.1)
      released := h6
      disposing := fun ks hk => by
        rcases List.mem_cons.mp hk with rfl | hk
        · obtain ⟨ks', rfl⟩ := hd ks rfl
          exact h7 ks' (Or.inl rfl)
        · exact h7 ks (Or.inr hk)
      live := fun k hk => by
        rcases List.mem_cons.mp hk with rfl | hk
        · cases hb.2
        · exact h9 k (Or.inr hk)
      recent := h10
      done := h11
      increasing := h12 }

end Tops

theorem Sound.schedule (h : s.Sound) : s.schedule.Sound := by
  unfold Resource.schedule
  split
  · exact h
  · exact { h with }

theorem abort_not_pending (s : Resource T) (k : ℕ) : (s.abort k).fetches k ≠ .pending := by
  unfold Resource.abort
  by_cases hk : s.fetches k = .pending <;> simp [hk]

theorem Sound.abort (h : s.Sound) (k : ℕ) : (s.abort k).Sound := by
  unfold Resource.abort
  by_cases hk : s.fetches k = .pending
  · simp only [hk, ↓reduceIte]
    exact
      { h with
        owned := fun j hj => h.owned j (by grind [Function.update])
        calling := fun j => by rw [← h.calling]; grind [Function.update]
        live := fun j hj => by have := h.live j hj; grind [Function.update]
        recent := fun j hj => h.recent j (by grind [Function.update])
        done := fun j hj => by have := h.done j hj; grind [Function.update] }
  · simp only [hk, ↓reduceIte]
    exact { h with }

theorem Sound.inFlight_held (h : s.Sound) {k : ℕ} (hk : s.InFlight k) : k ∈ s.held := by
  rcases hk with hk | hk
  · refine List.mem_append_right _ (List.mem_flatMap.mpr ⟨_, (h.calling k).mp hk, ?_⟩)
    exact List.mem_singleton_self k
  · exact h.owned k hk

theorem Sound.ended (h : s.Sound) {k : ℕ} {fetch : Fetch}
    (hk : s.fetches k = .pending ∨ s.fetches k = .aborted)
    (hp : .polling k ∉ s.stack) (hf : fetch = .finished ∨ fetch = .failed) :
    (s.setFetch k fetch).Sound := by
  unfold setFetch
  exact
    { h with
      owned := fun j hj => h.owned j (by grind [Function.update])
      calling := fun j => by rw [← h.calling]; grind [Function.update]
      live := fun j hj => by
        have hjk : j ≠ k := fun e => hp (e ▸ hj)
        simpa [Function.update_of_ne hjk] using h.live j hj
      recent := fun j hj => h.recent j (by grind [Function.update])
      done := fun j hj => by have := h.done j hj; grind [Function.update] }

variable {a : Activation} {rest : List Activation} {k : ℕ}

theorem Sound.idle_rest (h : s.Sound) (hst : s.stack = a :: rest)
    (hw : a = .verifying ∨ a.isWindow = true)
    (c : Activation) (hc : c ∈ rest) : c.isWindow = false :=
  ((List.pairwise_cons.mp (hst ▸ h.nested)).1 c hc).2 hw

theorem Sound.openWindow (h : s.Sound) (hst : s.stack = .verifying :: rest) (changed : Bool) :
    (s.openWindow rest changed).Sound := by
  unfold Resource.openWindow
  split
  · exact h.leave hst rfl (by simp [Activation.isWindow])
  next hd =>
    have hlive : s.disposed = false := by
      simp only [Bool.or_eq_true, not_or, Bool.not_eq_true] at hd
      exact hd.1
    have hrest := h.idle_rest hst (Or.inl rfl)
    obtain ⟨h1, h2, h3, h4, h5, h6, h7, h9, h10, h11, h12⟩ := h
    simp only [load, held, hst, Activation.room, List.flatMap_cons,
      List.mem_append, List.mem_cons, List.any_cons, List.pairwise_cons] at h1 h2 h3 h4 h5 h7 h9
    -- no disposal is under way, so that nothing else keeps a place
    have hfree : ∀ l : List Activation, (∀ c ∈ l, c ∈ rest) →
        Activation.room l = 0 := by
      intro l hl
      induction l with
      | nil => rfl
      | cons c l ih =>
        obtain ⟨hc, hl⟩ := List.forall_mem_cons.mp hl
        rw [Activation.room, ih hl]
        have hw := hrest c hc
        cases c with
        | disposing ks => simpa [hlive] using h7 ks (Or.inr hc)
        | verifying | polling | ready => rfl
        | _ => cases hw
    have hfree := hfree rest fun _ hc => hc
    exact
      { single := by
          simp only [load, Activation.room, hfree, Activation.reserve, List.length_nil,
            List.length_reverse] at h1 ⊢
          omega
        owned := fun k hk => by
          simp only [Activation.held, List.not_mem_nil, false_or] at h2
          simpa only [held, List.nil_append, Activation.held, List.flatMap_cons,
            List.mem_append, List.mem_reverse] using h2 k hk
        calling := fun k => by rw [h3]; simp
        window := by simp [Activation.isWindow]
        nested := List.pairwise_cons.mpr ⟨fun c hc => ⟨rfl, fun _ => hrest c hc⟩, h5.2⟩
        released := fun _ => rfl
        disposing := fun ks hk => h7 ks (by grind)
        live := fun k hk => h9 k (by grind)
        recent := h10
        done := h11
        increasing := h12 }

theorem Sound.runScheduled (h : s.Sound) : s.runScheduled.Sound := by
  unfold Resource.runScheduled
  dsimp only
  split
  · exact { h with }
  split
  · exact { h with }
  next hd hr =>
    have hr : s.stack.any Activation.isWindow = false := by rw [← h.window]; simpa using hr
    exact
      { single := by simpa [load, Activation.room, Activation.reserve] using h.single
        owned := fun k hk => by simpa [held, Activation.held] using h.owned k hk
        calling := fun k => by rw [h.calling]; simp
        window := by simpa [Activation.isWindow] using h.window
        nested := List.pairwise_cons.mpr
          ⟨fun c hc => ⟨rfl, fun _ => by simpa using List.any_eq_false.mp hr c hc⟩, h.nested⟩
        released := h.released
        disposing := fun ks hk => h.disposing ks (by simpa using hk)
        live := fun k hk => h.live k (by simpa using hk)
        recent := h.recent
        done := h.done
        increasing := h.increasing }

theorem Sound.dispose (h : s.Sound) : s.dispose.Sound := by
  unfold Resource.dispose
  split
  · exact h
  · exact
      { single := by simpa [load, Activation.room, Activation.reserve, Nat.add_comm] using h.single
        owned := fun k hk => by simpa [held, Activation.held] using h.owned k hk
        calling := fun k => by rw [h.calling]; simp
        window := by simpa [Activation.isWindow] using h.window
        nested := List.pairwise_cons.mpr
          ⟨fun c hc => ⟨rfl, by simp [Activation.isWindow]⟩, h.nested⟩
        released := fun _ => rfl
        disposing := fun _ _ => rfl
        live := fun k hk => h.live k (by simpa using hk)
        recent := h.recent
        done := h.done
        increasing := h.increasing }

theorem Sound.startFetch (h : s.Sound) (hst : s.stack = .body :: rest) :
    ({ s.setFetch (s.generation + 1) .calling with
        generation := s.generation + 1
        loading := true
        stack := .fetching (s.generation + 1) :: rest } : Resource T).Sound := by
  have hfresh : s.fetches (s.generation + 1) = .unstarted := by
    by_contra hne
    exact absurd (h.recent _ hne) (by omega)
  obtain ⟨h1, h2, h3, h4, h5, h6, h7, h9, h10, h11, h12⟩ := h
  simp only [load, held, hst, Activation.room, List.flatMap_cons,
    List.mem_append, List.mem_cons, List.any_cons, List.pairwise_cons] at h1 h2 h3 h4 h5 h7 h9
  unfold setFetch
  exact
    { single := by simpa [load, Activation.room, Activation.reserve] using h1
      owned := fun k hk => by
        have hk' : s.fetches k = .pending := by grind [Function.update]
        have := h2 k hk'
        simp [held, Activation.held] at this ⊢
        grind
      calling := fun k => by
        have := h3 k
        grind [Function.update]
      window := by simpa [Activation.isWindow] using h4
      nested := List.pairwise_cons.mpr
        ⟨fun c hc => ⟨rfl, fun _ => (h5.1 c hc).2 (Or.inr rfl)⟩, h5.2⟩
      released := h6
      disposing := fun ks hk => h7 ks (by grind)
      live := fun k hk => by
        have := h9 k (by grind)
        grind [Function.update]
      recent := fun k hk => by
        have := h10 k
        grind [Function.update]
      done := fun k hk => by
        have := h11 k hk
        grind [Function.update]
      increasing := h12 }

theorem Sound.spawn (h : s.Sound) (hst : s.stack = .fetching k :: rest) :
    ({ s.setFetch k .pending with stack := .spawned k :: rest } : Resource T).Sound := by
  have hk := (h.calling k).mpr (hst ▸ List.mem_cons_self)
  have hrest := h.idle_rest hst (Or.inr rfl)
  obtain ⟨h1, h2, h3, h4, h5, h6, h7, h9, h10, h11, h12⟩ := h
  simp only [load, held, hst, Activation.room, List.flatMap_cons,
    List.mem_append, List.mem_cons, List.any_cons, List.pairwise_cons] at h1 h2 h3 h4 h5 h7 h9
  have hother : ∀ j, .fetching j ∉ rest :=
    fun j hj => by simpa [Activation.isWindow] using hrest _ hj
  unfold setFetch
  exact
    { single := by simpa [load, Activation.room, Activation.reserve] using h1
      owned := fun j hj => by
        simp only [held, Activation.held, List.flatMap_cons, List.mem_append,
          List.mem_singleton] at h2 ⊢
        by_cases hjk : j = k
        · exact Or.inr (Or.inl hjk)
        · exact h2 j (by simpa [hjk] using hj)
      calling := fun j => by
        have := h3 j
        grind [Function.update]
      window := by simpa [Activation.isWindow] using h4
      nested := List.pairwise_cons.mpr ⟨fun c hc => ⟨rfl, fun _ => hrest c hc⟩, h5.2⟩
      released := h6
      disposing := fun ks hk => h7 ks (by grind)
      live := fun j hj => by
        have := h9 j (by grind)
        grind [Function.update]
      recent := fun j hj => by
        have := h10 j
        grind [Function.update]
      done := fun j hj => by
        have := h11 j hj
        grind [Function.update]
      increasing := h12 }

theorem Sound.register (h : s.Sound) (hst : s.stack = .spawned k :: rest) :
    ({ s.addCleanup k with stack := .registered :: rest } : Resource T).Sound := by
  unfold addCleanup
  split
  · refine (h.abort k).goOn hst rfl ⟨by simp, rfl⟩ ⟨by simp, rfl⟩ (by simp [Activation.reserve])
      (by simp) (fun j hj hp => ?_) (by simp)
    obtain rfl := List.mem_singleton.mp hj
    exact absurd hp (s.abort_not_pending j)
  next hd =>
    obtain ⟨h1, h2, h3, h4, h5, h6, h7, h9, h10, h11, h12⟩ := h
    simp only [load, held, hst, Activation.room, List.flatMap_cons,
      List.mem_append, List.mem_cons, List.any_cons, List.pairwise_cons] at h1 h2 h3 h4 h5 h7 h9
    exact
      { single := by simp [load, Activation.room, Activation.reserve] at h1 ⊢; omega
        owned := fun j hj => by
          have := h2 j hj
          simp only [held, Activation.held, List.flatMap_cons, List.mem_append,
            List.mem_singleton] at this ⊢
          grind
        calling := fun j => by
          have := h3 j
          grind
        window := by simpa [Activation.isWindow] using h4
        nested := List.pairwise_cons.mpr
          ⟨fun c hc => ⟨rfl, fun _ => (h5.1 c hc).2 (Or.inr rfl)⟩, h5.2⟩
        released := fun hd' => absurd hd' hd
        disposing := fun ks hk => h7 ks (by grind)
        live := fun j hj => h9 j (by grind)
        recent := h10
        done := h11
        increasing := h12 }

theorem Sound.failFetch (h : s.Sound) (hst : s.stack = .fetching k :: rest) :
    ((s.setFetch k .failed).closeWindow rest).Sound := by
  have hk := (h.calling k).mpr (hst ▸ List.mem_cons_self)
  have hrest := h.idle_rest hst (Or.inr rfl)
  obtain ⟨h1, h2, h3, h4, h5, h6, h7, h9, h10, h11, h12⟩ := h
  simp only [load, held, hst, Activation.room, List.flatMap_cons,
    List.mem_append, List.mem_cons, List.any_cons, List.pairwise_cons] at h1 h2 h3 h4 h5 h7 h9
  have hother : ∀ j, .fetching j ∉ rest :=
    fun j hj => by simpa [Activation.isWindow] using hrest _ hj
  unfold setFetch closeWindow
  exact
    { single := by simp only [load]; omega
      owned := fun j hj => by
        have hjk : j ≠ k := by grind [Function.update]
        have := h2 j (by grind [Function.update])
        simpa [held, Activation.held, hjk] using this
      calling := fun j => by
        have := h3 j
        grind [Function.update]
      window := by
        symm
        exact List.any_eq_false.mpr fun c hc => by simp [hrest c hc]
      nested := h5.2
      released := h6
      disposing := fun ks hk => h7 ks (Or.inr hk)
      live := fun j hj => by
        have := h9 j (by grind)
        grind [Function.update]
      recent := fun j hj => by
        have := h10 j
        grind [Function.update]
      done := fun j hj => by
        have := h11 j hj
        grind [Function.update]
      increasing := h12 }

theorem Sound.poll (h : s.Sound) (hst : s.stack = []) (hk : s.fetches k = .pending) :
    ({ s with stack := [.polling k] } : Resource T).Sound := by
  obtain ⟨h1, h2, h3, h4, h5, h6, h7, h9, h10, h11, h12⟩ := h
  simp only [load, held, hst, List.any_nil] at h1 h2 h3 h4 h7
  exact
    { single := by simpa [load, Activation.room, Activation.reserve] using h1
      owned := fun j hj => by simpa [held, Activation.held] using h2 j hj
      calling := fun j => by rw [h3]; simp
      window := by simpa [Activation.isWindow] using h4
      nested := List.pairwise_singleton _ _
      released := h6
      disposing := by simp
      live := fun j hj => by
        obtain rfl : j = k := by simpa using hj
        exact Or.inl hk
      recent := h10
      done := h11
      increasing := h12 }

theorem Sound.leavePoll (h : s.Sound) (hst : s.stack = .polling k :: rest) :
    ({ s with stack := rest } : Resource T).Sound ∧ rest = [] := by
  refine ⟨h.leave hst rfl (by simp [Activation.isWindow]), ?_⟩
  have hn := (List.pairwise_cons.mp (hst ▸ h.nested)).1
  exact List.eq_nil_iff_forall_not_mem.mpr fun c hc => by
    simpa [Activation.isPoll] using (hn c hc).1

theorem Sound.endPoll (h : s.Sound) (hst : s.stack = .polling k :: rest) {fetch : Fetch}
    (hf : fetch = .finished ∨ fetch = .failed) :
    ({ s.setFetch k fetch with stack := rest } : Resource T).Sound := by
  obtain ⟨hleft, rfl⟩ := h.leavePoll hst
  exact hleft.ended (h.live k (hst ▸ List.mem_cons_self)) (by simp) hf

theorem Sound.complete (h : s.Sound) (hst : s.stack = .polling k :: rest) (result : T) :
    (s.complete rest k result).Sound := by
  have htask := h.live k (hst ▸ List.mem_cons_self)
  have hleft := h.endPoll hst (Or.inl rfl : Fetch.finished = .finished ∨ Fetch.finished = .failed)
  obtain ⟨-, rfl⟩ := h.leavePoll hst
  unfold Resource.complete
  dsimp only
  split
  next hg =>
    have hbelow : ∀ j ∈ s.published, j < k := by
      intro j hj
      have hjd := h.done j hj
      have hle : j ≤ k := hg ▸ h.recent j (by simp [hjd])
      have hne : j ≠ k := by
        rintro rfl
        simp [hjd] at htask
      omega
    exact
      { hleft with
        single := by simpa [load, Activation.room, Activation.reserve] using hleft.single
        owned := fun j hj => by simpa [held, Activation.held] using hleft.owned j hj
        calling := fun j => by simpa using hleft.calling j
        window := by simpa [Activation.isWindow] using hleft.window
        nested := List.pairwise_singleton _ _
        disposing := by simp
        live := by simp
        done := fun j hj => by
          rcases List.mem_append.mp hj with hj | hj
          · exact hleft.done j hj
          · obtain rfl := List.mem_singleton.mp hj
            simp [setFetch]
        increasing := by
          refine List.pairwise_append.mpr ⟨h.increasing, List.pairwise_singleton _ _, ?_⟩
          intro i hi j hj
          obtain rfl := List.mem_singleton.mp hj
          exact hbelow i hi }
  · exact hleft

theorem Sound.unwind (h : s.Sound) (hs : s.unwind = some t) : t.Sound := by
  unfold Resource.unwind at hs
  split at hs
  all_goals try cases hs
  next hst =>
    have hsch : s.schedule.stack = s.stack := by unfold Resource.schedule; split <;> rfl
    exact h.schedule.leave (hsch.trans hst) rfl (by simp [Activation.isWindow])
  next hst => exact h.leave hst rfl (by simp [Activation.isWindow])
  next hst => exact h.leave hst rfl (by simp [Activation.isWindow])
  next hst => exact h.leave hst rfl (by simp [Activation.isWindow])
  next hst => exact h.failFetch hst
  next hst => exact h.leave hst rfl (by simp [Activation.isWindow])
  next hst => exact h.leave hst rfl (by simp [Activation.isWindow])
  next hst => exact h.endPoll hst (Or.inr rfl)

theorem Sound.runCleanup (h : s.Sound) (hs : s.runCleanup = some t) : t.Sound := by
  have hrest : ∀ k handles, ∀ j ∈ k :: handles, (s.abort k).fetches j = .pending → j ∈ handles := by
    intro k handles j hj hp
    rcases List.mem_cons.mp hj with rfl | hj
    · exact absurd hp (s.abort_not_pending j)
    · exact hj
  unfold Resource.runCleanup at hs
  split at hs
  next k handles rest hst =>
    cases hs
    exact (h.abort k).goOn hst rfl ⟨by simp, rfl⟩ ⟨by simp, rfl⟩ (by simp [Activation.reserve])
      (by simp) (hrest k handles) (by simp)
  next k handles rest hst =>
    cases hs
    exact (h.abort k).goOn hst rfl ⟨by simp, rfl⟩ ⟨by simp, rfl⟩ (by simp [Activation.reserve])
      (by simp) (hrest k handles) (by simp)
  · cases hs

theorem Sound.finishRun (h : s.Sound) (hst : s.stack = .registered :: rest) :
    (s.finishRun rest).Sound := by
  unfold Resource.finishRun
  dsimp only
  have h' : ({ s with rerunAfterCurrent := false } : Resource T).Sound := { h with }
  split
  · have hst' : ({ s with rerunAfterCurrent := false } : Resource T).schedule.stack =
        .registered :: rest := by
      unfold Resource.schedule
      split <;> exact hst
    exact h'.schedule.leave hst' rfl (by simp [Activation.isWindow])
  · exact h'.leave hst rfl (by simp [Activation.isWindow])

theorem Sound.enterBody (h : s.Sound) (hst : s.stack = .teardown [] :: rest) :
    (if s.disposed then s.closeWindow rest else { s with stack := .body :: rest }).Sound := by
  split
  · exact h.leave hst rfl (by simp [Activation.isWindow])
  · exact h.goOn hst rfl ⟨by simp, rfl⟩ ⟨by simp, rfl⟩ (by simp [Activation.reserve]) (by simp)
      (by simp [Activation.held]) (by simp)

theorem Sound.step (h : s.Sound) {op : ResourceOp T}
    (ha : ∀ k, op = .poll k → s.fetches k ≠ .aborted) (hs : s.step op = some t) : t.Sound := by
  unfold Resource.step at hs
  split at hs
  all_goals try cases hs
  next => exact h.schedule
  next =>
    split at hs <;> cases hs
    exact Sound.runScheduled { h with }
  next hst => exact h.openWindow hst _
  next hst => exact h.leave hst rfl (by simp [Activation.isWindow])
  next => exact h.runCleanup hs
  next hst => exact h.enterBody hst
  next hst => exact h.startFetch hst
  next hst => exact h.spawn hst
  next hst => exact h.register hst
  next hst => exact h.finishRun hst
  next => exact h.unwind hs
  next =>
    exact h.dispose
  next hst => exact h.leave hst rfl (by simp [Activation.isWindow])
  next hst =>
    split at hs <;> cases hs
    next hk =>
      simp only [Bool.or_eq_true, decide_eq_true_eq] at hk
      exact h.poll hst (hk.resolve_right (ha _ rfl))
  next hst => exact h.leave hst rfl (by simp [Activation.isWindow])
  next hst => exact h.complete hst _
  next rest hst =>
    have hleft : ({ s with stack := rest } : Resource T).Sound :=
      h.leave hst rfl (by simp [Activation.isWindow])
    exact { hleft with }

theorem polled_of_admits {op : ResourceOp T} (ha : s.admits op = true) (k : ℕ)
    (hop : op = .poll k) : s.fetches k ≠ .aborted := by
  subst hop
  simpa [admits] using ha

section Sheltered

def polls (s : Resource T) : Bool := s.stack.any Activation.isPoll

/-- No task is being polled once the resource is disposed. -/
def Sheltered (s : Resource T) : Prop := s.polls = true → s.disposed = false

theorem Sheltered.keep (h : s.Sheltered) (hp : t.polls = true → s.polls = true)
    (hd : t.disposed = s.disposed) : t.Sheltered :=
  fun ht => hd.trans (h (hp ht))

theorem Sheltered.of_polling (h : s.Sheltered) {k : ℕ} {rest : List Activation}
    (hst : s.stack = .polling k :: rest) : s.disposed = false := by
  refine h ?_
  unfold polls
  rw [hst]
  rfl

/-- The innermost activation leaves, or goes on as another that is not a poll. -/
theorem polls_of_rest {a : Activation} {rest : List Activation} (hst : s.stack = a :: rest)
    (ht : t.polls = rest.any Activation.isPoll) : t.polls = true → s.polls = true := by
  intro hu
  unfold polls
  rw [hst, List.any_cons, ← ht, hu]
  exact Bool.or_true _

theorem polls_schedule (s : Resource T) :
    s.schedule.polls = s.polls ∧ s.schedule.disposed = s.disposed := by
  unfold Resource.schedule
  split <;> exact ⟨rfl, rfl⟩

theorem Sheltered.runScheduled (h : s.Sheltered) : s.runScheduled.Sheltered := by
  unfold Resource.runScheduled
  dsimp only
  split_ifs <;> exact h.keep id rfl

theorem Sheltered.unwind (h : s.Sheltered) (hs : s.unwind = some t) : t.Sheltered := by
  unfold Resource.unwind at hs
  split at hs
  all_goals try cases hs
  next hst => exact h.keep (polls_of_rest hst rfl) s.polls_schedule.2
  all_goals next hst => exact h.keep (polls_of_rest hst rfl) rfl

theorem Sheltered.runCleanup (h : s.Sheltered) (hs : s.runCleanup = some t) : t.Sheltered := by
  unfold Resource.runCleanup at hs
  split at hs
  all_goals try cases hs
  all_goals next hst => exact h.keep (polls_of_rest hst rfl) rfl

theorem Sheltered.complete (h : s.Sheltered) {rest : List Activation} {k : ℕ}
    (hst : s.stack = .polling k :: rest) (result : T) : (s.complete rest k result).Sheltered := by
  unfold Resource.complete
  dsimp only
  split <;> exact fun _ => h.of_polling hst

theorem Sheltered.step (h : s.Sheltered) (hsound : s.Sound) {op : ResourceOp T}
    (ha : s.admits op = true) (hs : s.step op = some t) : t.Sheltered := by
  unfold Resource.step at hs
  split at hs
  all_goals try cases hs
  next => exact h.keep (s.polls_schedule.1 ▸ id) s.polls_schedule.2
  next =>
    split at hs <;> cases hs
    exact Sheltered.runScheduled (s := { s with jobs := s.jobs - 1 }) h
  next hst =>
    unfold Resource.openWindow
    split <;> exact h.keep (polls_of_rest hst rfl) rfl
  next hst => exact h.keep (polls_of_rest hst rfl) rfl
  next => exact h.runCleanup hs
  next hst => split <;> exact h.keep (polls_of_rest hst rfl) rfl
  next hst => exact h.keep (polls_of_rest hst rfl) rfl
  next hst => exact h.keep (polls_of_rest hst rfl) rfl
  next hst =>
    unfold addCleanup
    split <;> exact h.keep (polls_of_rest hst rfl) rfl
  next hst =>
    unfold Resource.finishRun
    dsimp only
    split
    · exact h.keep (polls_of_rest hst rfl) (polls_schedule _).2
    · exact h.keep (polls_of_rest hst rfl) rfl
  next => exact h.unwind hs
  next =>
    unfold Resource.dispose
    split
    · exact h
    · intro hp
      -- a disposal comes between polls
      obtain ⟨a, hin, hpoll⟩ := List.any_eq_true.mp hp
      rcases List.mem_cons.mp hin with rfl | hin
      · cases hpoll
      · have hnot := List.all_eq_true.mp ha a hin
        rw [hpoll] at hnot
        cases hnot
  next hst => exact h.keep (polls_of_rest hst rfl) rfl
  next k hst =>
    split at hs <;> cases hs
    next hk =>
      intro _
      -- a disposed resource has let go of every fetch
      rw [Bool.or_eq_true, decide_eq_true_eq, decide_eq_true_eq] at hk
      have hpending := hk.resolve_right (polled_of_admits ha k rfl)
      by_contra hd
      have hheld := hsound.owned k hpending
      unfold held at hheld
      rw [hst, hsound.released (Bool.not_eq_false _ ▸ hd)] at hheld
      cases hheld
  next hst => exact h.keep (polls_of_rest hst rfl) rfl
  next hst => exact h.complete hst _
  next hst => exact h.keep (polls_of_rest hst rfl) rfl

end Sheltered

/-- Only a completion writes the value, and disposal is final. -/
structure Quiet (s t : Resource T) : Prop where
  published : t.published = s.published
  value : t.value = s.value
  disposed : s.disposed = true → t.disposed = true

theorem Quiet.trans {u : Resource T} (h : s.Quiet t) (h' : t.Quiet u) : s.Quiet u :=
  ⟨h'.published.trans h.published, h'.value.trans h.value, fun hd => h'.disposed (h.disposed hd)⟩

theorem quiet_schedule (s : Resource T) : s.Quiet s.schedule := by
  unfold Resource.schedule
  split <;> exact ⟨rfl, rfl, id⟩

theorem quiet_runScheduled (s : Resource T) : s.Quiet s.runScheduled := by
  unfold Resource.runScheduled
  dsimp only
  split_ifs <;> exact ⟨rfl, rfl, id⟩

theorem quiet_openWindow (s : Resource T) (rest : List Activation) (changed : Bool) :
    s.Quiet (s.openWindow rest changed) := by
  unfold Resource.openWindow
  split <;> exact ⟨rfl, rfl, id⟩

theorem quiet_addCleanup (s : Resource T) (k : ℕ) : s.Quiet (s.addCleanup k) := by
  unfold addCleanup
  split <;> exact ⟨rfl, rfl, id⟩

theorem quiet_finishRun (s : Resource T) (rest : List Activation) : s.Quiet (s.finishRun rest) := by
  unfold Resource.finishRun
  dsimp only
  split
  · obtain ⟨h1, h2, h3⟩ := quiet_schedule { s with rerunAfterCurrent := false }
    exact ⟨h1, h2, h3⟩
  · exact ⟨rfl, rfl, id⟩

theorem quiet_dispose (s : Resource T) : s.Quiet s.dispose := by
  unfold Resource.dispose
  split
  · exact ⟨rfl, rfl, id⟩
  · exact ⟨rfl, rfl, fun _ => rfl⟩

theorem quiet_unwind (hs : s.unwind = some t) : s.Quiet t := by
  unfold Resource.unwind at hs
  split at hs <;> cases hs
  next => 
    obtain ⟨h1, h2, h3⟩ := s.quiet_schedule
    exact ⟨h1, h2, h3⟩
  all_goals exact ⟨rfl, rfl, id⟩

theorem quiet_runCleanup (hs : s.runCleanup = some t) : s.Quiet t := by
  unfold Resource.runCleanup at hs
  split at hs <;> cases hs <;> exact ⟨rfl, rfl, id⟩

theorem complete_cases (s : Resource T) (rest : List Activation) (k : ℕ) (result : T) :
    s.Quiet (s.complete rest k result) ∨ s.generation = k ∧
      (s.complete rest k result).published = s.published ++ [k] ∧
      (s.complete rest k result).value = some result := by
  unfold Resource.complete
  dsimp only
  split
  next hg => exact Or.inr ⟨hg, rfl, rfl⟩
  · exact Or.inl ⟨rfl, rfl, id⟩

theorem step_cases {op : ResourceOp T} (hs : s.step op = some t) :
    s.Quiet t ∨ ∃ result rest, op = .complete result ∧ s.stack = .polling s.generation :: rest ∧
      t.published = s.published ++ [s.generation] ∧ t.value = some result := by
  unfold Resource.step at hs
  split at hs
  all_goals try cases hs
  next => exact Or.inl s.quiet_schedule
  next =>
    split at hs <;> cases hs
    obtain ⟨h1, h2, h3⟩ := quiet_runScheduled { s with jobs := s.jobs - 1 }
    exact Or.inl ⟨h1, h2, h3⟩
  next => exact Or.inl (s.quiet_openWindow _ _)
  next => exact Or.inl ⟨rfl, rfl, id⟩
  next => exact Or.inl (quiet_runCleanup hs)
  next =>
    split <;> exact Or.inl ⟨rfl, rfl, id⟩
  next => exact Or.inl ⟨rfl, rfl, id⟩
  next => exact Or.inl ⟨rfl, rfl, id⟩
  next k rest hst =>
    obtain ⟨h1, h2, h3⟩ := s.quiet_addCleanup k
    exact Or.inl ⟨h1, h2, h3⟩
  next => exact Or.inl (s.quiet_finishRun _)
  next => exact Or.inl (quiet_unwind hs)
  next => exact Or.inl s.quiet_dispose
  next => exact Or.inl ⟨rfl, rfl, id⟩
  next =>
    split at hs <;> cases hs
    exact Or.inl ⟨rfl, rfl, id⟩
  next => exact Or.inl ⟨rfl, rfl, id⟩
  next result k rest hst =>
    refine (s.complete_cases rest k result).imp id ?_
    rintro ⟨rfl, hp, hv⟩
    exact ⟨result, rest, rfl, hst, hp, hv⟩
  next => exact Or.inl ⟨rfl, rfl, id⟩

/-- No poll is in progress on a disposed resource, and none can start. -/
theorem Sheltered.quiet_of_disposed (h : s.Sheltered) (hd : s.disposed = true)
    {op : ResourceOp T} (hs : s.step op = some t) : s.Quiet t := by
  rcases step_cases hs with hq | ⟨result, rest, -, hst, -, -⟩
  · exact hq
  · have hlive := h.of_polling hst
    simp [hlive] at hd

theorem sound_empty : ({} : Resource T).Sound := by
  constructor <;> simp [load, held, Activation.room]

theorem Reached.sound (h : s.Reached) : s.Sound ∧ s.Sheltered := by
  refine Runs.Reaches.invariant (fun s => s.Sound ∧ s.Sheltered)
    ⟨sound_empty, fun _ => rfl⟩ ?_ h
  rintro s op t ⟨hsound, hshelter⟩ ha hs
  exact ⟨hsound.step (polled_of_admits ha) hs, hshelter.step hsound ha hs⟩

theorem Reached.quiet_run (h : s.Reached) (hd : s.disposed = true)
    (hrun : Runs.Reaches Resource.step (fun s op => s.admits op = true) s t) : s.Quiet t := by
  have hkept : (t.Sound ∧ t.Sheltered) ∧ s.Quiet t := by
    refine hrun.invariant (fun u => (u.Sound ∧ u.Sheltered) ∧ s.Quiet u)
      ⟨h.sound, rfl, rfl, id⟩ ?_
    rintro u op v ⟨⟨hsound, hshelter⟩, hq⟩ ha hs
    exact ⟨⟨hsound.step (polled_of_admits ha) hs, hshelter.step hsound ha hs⟩,
      hq.trans (hshelter.quiet_of_disposed (hq.disposed hd) hs)⟩
  exact hkept.2

/-- Publishing is safe: fetches do not overlap, the newest one publishes, in
order and at most once, and a disposed resource publishes nothing. -/
theorem publishing_is_safe {s : Resource T} (h : s.Reached) :
    (∀ j k, s.InFlight j → s.InFlight k → j = k) ∧
      (∀ op t, s.admits op = true → s.step op = some t →
        t.published = s.published ∧ t.value = s.value ∨
          ∃ result, op = .complete result ∧ t.value = some result ∧
            t.published = s.published ++ [s.generation] ∧
            s.fetches s.generation ≠ .unstarted ∧
            (∀ k, s.fetches k ≠ .unstarted → k ≤ s.generation) ∧ s.disposed = false) ∧
      s.published.Pairwise (· < ·) ∧
      (s.disposed = true → ∀ t, Runs.Reaches step (fun s op => s.admits op = true) s t →
        t.published = s.published ∧ t.value = s.value) := by
  obtain ⟨hsound, hshelter⟩ := h.sound
  refine ⟨fun j k hj hk => ?_, fun op t _ hs => ?_, hsound.increasing, fun hd t hrun => ?_⟩
  · exact hsound.eq_of_held (hsound.inFlight_held hj) (hsound.inFlight_held hk)
  · rcases step_cases hs with hq | ⟨result, rest, hop, hst, hp, hv⟩
    · exact Or.inl ⟨hq.published, hq.value⟩
    · have htop := hst ▸ List.mem_cons_self
      refine Or.inr ⟨result, hop, hv, hp, ?_, hsound.recent, hshelter.of_polling hst⟩
      rcases hsound.live _ htop with hk | hk <;> simp [hk]
  · have hq := h.quiet_run hd hrun
    exact ⟨hq.published, hq.value⟩

/-- An input change flushed from inside the first poll supersedes that fetch. -/
def supersededRun : List (ResourceOp ℕ) :=
  [.flush, .verified true, .enterBody, .startFetch, .spawn, .register, .finishRun, .poll 1,
    .invalidate, .flush, .verified true, .runCleanup, .enterBody, .startFetch, .spawn, .register,
    .finishRun, .complete 10, .poll 2, .complete 20, .settle, .dispose, .runCleanup, .endDispose]

theorem publishing_is_safe_past_stale_poll :
    ∃ s : Resource ℕ, Runs.run step {} supersededRun = some s ∧ s.published = [2] ∧
      s.published.Pairwise (· < ·) ∧
      ∀ t, Runs.Reaches step (fun s op => s.admits op = true) s t →
        t.published = s.published ∧ t.value = s.value := by
  refine ⟨_, rfl, rfl, ?_⟩
  have hsafe := publishing_is_safe
    (Runs.Reaches.run admits supersededRun (.init : Reached ({} : Resource ℕ)) rfl rfl)
  exact ⟨hsafe.2.2.1, hsafe.2.2.2 rfl⟩

end Resource

end Adaptite

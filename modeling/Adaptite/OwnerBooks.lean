import Adaptite.OwnerTurns
import Mathlib.Algebra.BigOperators.Group.Finset.Piecewise
import Mathlib.Algebra.Order.BigOperators.Group.Finset

set_option autoImplicit false

namespace Adaptite

namespace OwnerHost

open OwnerCall

variable {P : Type} {s t : OwnerHost P} {f : FrameId} {x y : OwnerFrameState}

def total (s : OwnerHost P) (w : OwnerFrameState → ℕ) : ℕ :=
  ∑ f ∈ Finset.range s.nextFrame, (s.frames f).elim 0 w

/-- Ids of frames are given out in order, a disposed frame holds nothing, a call keeps its
frame from being dropped, and nobody uses a frame that is being dropped. -/
structure Sane (s : OwnerHost P) : Prop where
  below : ∀ f x, s.frames f = some x → f < s.nextFrame
  emptied : ∀ f x, s.frames f = some x → x.disposed = true → x.cleanups = [] ∧ x.children = []
  used : ∀ call ∈ s.calls, ∀ f, call.uses f = true → (s.frames f).isSome = true
  dying : ∀ f, .dropping f ∈ s.calls → ∀ x, s.frames f = some x → x.disposed = true
  apart : s.calls.Pairwise fun a b => ∀ f, a = .dropping f → b.uses f = false

section Totals

variable (w : OwnerFrameState → ℕ)

theorem sum_update (frames : FrameId → Option OwnerFrameState) (z : Option OwnerFrameState)
    {n : ℕ} (hf : f < n) :
    ∑ g ∈ Finset.range n, (Function.update frames f z g).elim 0 w + (frames f).elim 0 w =
      ∑ g ∈ Finset.range n, (frames g).elim 0 w + z.elim 0 w := by
  have hmem : f ∈ Finset.range n := Finset.mem_range.mpr hf
  have hupdate : (fun g => (Function.update frames f z g).elim 0 w) =
      Function.update (fun g => (frames g).elim 0 w) f (z.elim 0 w) := by
    funext g
    exact Function.apply_update (fun _ o => Option.elim o 0 w) frames f z g
  rw [hupdate, Finset.sum_update_of_mem hmem, Finset.sum_eq_add_sum_sdiff_singleton_of_mem hmem]
  omega

theorem total_setFrame (hf : s.frames f = some x) (hb : f < s.nextFrame) :
    (s.setFrame f y).total w + w x = s.total w + w y := by
  have h := sum_update w s.frames (some y) hb
  rw [hf] at h
  exact h

theorem total_vanish (hf : s.frames f = some x) (hb : f < s.nextFrame) :
    (s.vanish f).total w + w x = s.total w := by
  have h := sum_update w s.frames none hb
  rw [hf] at h
  exact h

theorem total_create (effect : Bool) :
    (s.create effect).total w = s.total w + w { effect } := by
  unfold total create
  dsimp only
  rw [Finset.sum_range_succ, Function.update_self]
  refine congrArg (· + w { effect }) (Finset.sum_congr rfl fun g hg => ?_)
  rw [Function.update_of_ne (Nat.ne_of_lt (Finset.mem_range.mp hg))]

theorem le_total (hf : s.frames f = some x) (hb : f < s.nextFrame) : w x ≤ s.total w := by
  have h := Finset.single_le_sum (f := fun g => (s.frames g).elim 0 w) (fun _ _ => Nat.zero_le _)
    (Finset.mem_range.mpr hb)
  rwa [hf] at h

end Totals

section Sane

theorem sweep_fields (gone : ℕ → Bool) (x : OwnerFrameState) :
    (sweep gone x).1.cleanups = x.cleanups ∧ (sweep gone x).1.disposed = x.disposed ∧
      (sweep gone x).1.effect = x.effect ∧
      (sweep gone x).1.children.length + (sweep gone x).2.length = x.children.length := by
  unfold sweep
  split
  · exact ⟨rfl, rfl, rfl, rfl⟩
  · refine ⟨rfl, rfl, rfl, ?_⟩
    have h := List.length_eq_length_filter_add (l := x.children) fun c => !gone c
    simp only [Bool.not_not] at h
    exact h.symm

theorem sane_empty : ({} : OwnerHost P).Sane where
  below f x hf := by cases hf
  emptied f x hf := by cases hf
  used call hc := by cases hc
  dying f hf := by cases hf
  apart := .nil

/-- The frames are the same, and the calls are some of those that there were. -/
theorem Sane.sublist (h : s.Sane) (hf : t.frames = s.frames) (hn : t.nextFrame = s.nextFrame)
    (hc : t.calls.Sublist s.calls) : t.Sane where
  below := by rw [hf, hn]; exact h.below
  emptied := by rw [hf]; exact h.emptied
  used call hm := by rw [hf]; exact h.used call (hc.subset hm)
  dying f hm := by rw [hf]; exact h.dying f (hc.subset hm)
  apart := h.apart.sublist hc

/-- A call is made that uses no frame but one that exists. -/
theorem Sane.push (h : s.Sane) {call : OwnerCall P} (hf : t.frames = s.frames)
    (hn : t.nextFrame = s.nextFrame) (hc : t.calls = call :: s.calls)
    (hu : ∀ f, call.uses f = true → (s.frames f).isSome = true)
    (hd : ∀ f, call = .dropping f → (∀ x, s.frames f = some x → x.disposed = true) ∧
      s.calls.any (uses f) = false) : t.Sane where
  below := by rw [hf, hn]; exact h.below
  emptied := by rw [hf]; exact h.emptied
  used c hm := by
    rw [hf]
    rw [hc] at hm
    rcases List.mem_cons.mp hm with rfl | hm
    · exact hu
    · exact h.used c hm
  dying f hm := by
    rw [hf]
    rw [hc] at hm
    rcases List.mem_cons.mp hm with he | hm
    · exact (hd f he.symm).1
    · exact h.dying f hm
  apart := by
    rw [hc]
    refine List.pairwise_cons.mpr ⟨fun b hb f he => ?_, h.apart⟩
    have hany := (hd f he).2
    rw [List.any_eq_false] at hany
    exact Bool.eq_false_iff.mpr (hany b hb)

theorem Sane.setFrame (h : s.Sane) (hf : s.frames f = some x)
    (he : y.disposed = true → y.cleanups = [] ∧ y.children = [])
    (hd : x.disposed = true → y.disposed = true) : (s.setFrame f y).Sane where
  below g z hz := by
    by_cases hg : g = f
    · rw [hg]
      exact h.below f x hf
    · exact h.below g z ((Function.update_of_ne hg _ _).symm.trans hz)
  emptied g z hz := by
    by_cases hg : g = f
    · subst hg
      cases (Function.update_self g _ s.frames).symm.trans hz
      exact he
    · exact h.emptied g z ((Function.update_of_ne hg _ _).symm.trans hz)
  used call hm g hu := by
    change (Function.update s.frames f (some y) g).isSome = true
    by_cases hg : g = f
    · rw [hg, Function.update_self]
      rfl
    · rw [Function.update_of_ne hg]
      exact h.used call hm g hu
  dying g hm z hz := by
    by_cases hg : g = f
    · subst hg
      cases (Function.update_self g _ s.frames).symm.trans hz
      exact hd (h.dying g hm x hf)
    · exact h.dying g hm z ((Function.update_of_ne hg _ _).symm.trans hz)
  apart := h.apart

/-- Neither the lists of a frame nor the calls depend on the rest. -/
theorem Sane.same (h : s.Sane) (hf : t.frames = s.frames) (hn : t.nextFrame = s.nextFrame)
    (hc : t.calls = s.calls) : t.Sane :=
  h.sublist hf hn (hc ▸ List.Sublist.refl _)

theorem Sane.adopt (h : s.Sane) (hf : s.frames f = some x) : (s.adopt f x).Sane := by
  unfold OwnerHost.adopt
  dsimp only
  split
  · exact h.push rfl rfl rfl (fun g hg => by cases hg) fun g hg => by cases hg
  · rename_i hd
    obtain ⟨-, hdis, -⟩ := sweep_fields s.gone x
    have hx : x.disposed = false := Bool.eq_false_iff.mpr hd
    have hset : (s.setFrame f { (sweep s.gone x).1 with
        children := (sweep s.gone x).1.children ++ [s.nextChild] }).Sane := by
      refine h.setFrame hf (fun he => ?_) fun he => ?_
      · change (sweep s.gone x).1.disposed = true at he
        rw [hdis, hx] at he
        cases he
      · rw [hx] at he
        cases he
    split
    · exact hset.same rfl rfl rfl
    · refine hset.push rfl rfl rfl (fun g hg => ?_) fun g hg => by cases hg
      cases of_decide_eq_true hg
      change (Function.update s.frames f _ f).isSome = true
      rw [Function.update_self]
      rfl

theorem Sane.addCleanup (h : s.Sane) (hf : s.frames f = some x) : (s.addCleanup f x).Sane := by
  unfold OwnerHost.addCleanup
  dsimp only
  split
  · exact h.push rfl rfl rfl (fun g hg => by cases hg) fun g hg => by cases hg
  · rename_i hd
    have hset : (s.setFrame f { x with cleanups := x.cleanups ++ [s.nextCleanup] }).Sane :=
      h.setFrame hf (fun he => absurd he hd) fun he => absurd he hd
    exact hset.same rfl rfl rfl

/-- The innermost call is replaced by one that uses no other frame. -/
theorem Sane.swap (h : s.Sane) {call after : OwnerCall P} {rest : List (OwnerCall P)}
    (hs : s.calls = call :: rest) (hf : t.frames = s.frames) (hn : t.nextFrame = s.nextFrame)
    (hc : t.calls = after :: rest) (hu : ∀ g, after.uses g = true → call.uses g = true)
    (hd : ∀ g, after ≠ .dropping g) : t.Sane := by
  have hrest : ({ s with calls := rest } : OwnerHost P).Sane :=
    h.sublist rfl rfl (hs ▸ List.sublist_cons_self call rest)
  refine hrest.push hf hn hc (fun g hg => ?_) fun g hg => absurd hg (hd g)
  exact h.used call (hs ▸ List.mem_cons_self) g (hu g hg)

theorem Sane.taken (h : s.Sane) {calls : List (OwnerCall P)} {stats : OwnershipStats}
    (hf : s.frames f = some x) (ho : s.Opens f x y calls stats) :
    (({ s with calls, stats } : OwnerHost P).reset f y).Sane := by
  have hdis : x.disposed = true → y.disposed = true := by
    intro hx
    cases ho with
    | reset hc he hy => rwa [hy]
    | dispose hc hx' hd hy => rw [hy]
    | drop hc hx' hd hy hn => rw [hy]
    | proceed rest hs hd hy => rwa [hy]
  have hset : (s.setFrame f { y with children := [], sweptAt := 0, cleanups := [] }).Sane :=
    h.setFrame hf (fun _ => ⟨rfl, rfl⟩) hdis
  have hhere : ((s.setFrame f { y with children := [], sweptAt := 0, cleanups := [] }).frames
      f).isSome = true := by
    change (Function.update s.frames f _ f).isSome = true
    rw [Function.update_self]
    rfl
  -- the calls below the teardown first, with the lists already taken
  have hbelow : ({ s.setFrame f { y with children := [], sweptAt := 0, cleanups := [] } with
      calls, stats } : OwnerHost P).Sane := by
    cases ho with
    | reset => exact hset.same rfl rfl rfl
    | dispose => exact hset.same rfl rfl rfl
    | drop hc hx hd hy hn =>
      refine hset.push rfl rfl rfl (fun g hg => ?_) fun g hg => ?_
      · cases of_decide_eq_true hg
        exact hhere
      · cases hg
        refine ⟨fun z hz => ?_, hn⟩
        cases (Function.update_self f _ s.frames).symm.trans hz
        rw [hy]
    | proceed rest hs => exact hset.swap hs rfl rfl rfl (fun g => id) fun g hg => by cases hg
  refine hbelow.push rfl rfl rfl (fun g hg => ?_) fun g hg => by cases hg
  cases of_decide_eq_true hg
  exact hhere

theorem Sane.vanish (h : s.Sane) {rest : List (OwnerCall P)} (hs : s.calls = .dropping f :: rest) :
    (({ s with calls := rest } : OwnerHost P).vanish f).Sane := by
  have hap := h.apart
  rw [hs] at hap
  have hkeep : ∀ g z, Function.update s.frames f none g = some z → s.frames g = some z := by
    intro g z hz
    by_cases hg : g = f
    · rw [hg, Function.update_self] at hz
      cases hz
    · rwa [Function.update_of_ne hg] at hz
  exact {
    below := fun g z hz => h.below g z (hkeep g z hz)
    emptied := fun g z hz => h.emptied g z (hkeep g z hz)
    used := by
      intro call hm g hg
      change (Function.update s.frames f none g).isSome = true
      have hne : g ≠ f := by
        intro he
        have hno := (List.pairwise_cons.mp hap).1 call hm f rfl
        rw [he, hno] at hg
        cases hg
      rw [Function.update_of_ne hne]
      exact h.used call (hs ▸ List.mem_cons_of_mem _ hm) g hg
    dying := fun g hm z hz => h.dying g (hs ▸ List.mem_cons_of_mem _ hm) z (hkeep g z hz)
    apart := (List.pairwise_cons.mp hap).2 }

theorem Sane.create (h : s.Sane) (effect : Bool) : (s.create effect).Sane := by
  have hkeep : ∀ g z, Function.update s.frames s.nextFrame (some { effect }) g = some z →
      s.frames g = some z ∨ g = s.nextFrame ∧ z = { effect } := by
    intro g z hz
    by_cases hg : g = s.nextFrame
    · rw [hg, Function.update_self] at hz
      exact .inr ⟨hg, (Option.some.inj hz).symm⟩
    · rw [Function.update_of_ne hg] at hz
      exact .inl hz
  exact {
    below := by
      intro g z hz
      rcases hkeep g z hz with hz | ⟨rfl, -⟩
      · exact Nat.lt_succ_of_lt (h.below g z hz)
      · exact Nat.lt_succ_self _
    emptied := by
      intro g z hz hd
      rcases hkeep g z hz with hz | ⟨-, rfl⟩
      · exact h.emptied g z hz hd
      · cases hd
    used := by
      intro call hm g hg
      change (Function.update s.frames s.nextFrame _ g).isSome = true
      by_cases hgn : g = s.nextFrame
      · rw [hgn, Function.update_self]
        rfl
      · rw [Function.update_of_ne hgn]
        exact h.used call hm g hg
    dying := by
      intro g hm z hz
      rcases hkeep g z hz with hz | ⟨rfl, -⟩
      · exact h.dying g hm z hz
      -- a frame that is being dropped exists
      · have hsome := h.used _ hm s.nextFrame (decide_eq_true rfl)
        obtain ⟨w, hw⟩ := Option.isSome_iff_exists.mp hsome
        exact absurd (h.below _ w hw) (Nat.lt_irrefl _)
    apart := h.apart }

theorem Sane.turn (h : s.Sane) (ht : Turn s t) : t.Sane := by
  cases ht with
  | marked unwinding gone discarded hu hg hd ht =>
    subst ht
    exact h.same rfl rfl rfl
  | pushed call unwinding hc hp ht =>
    subst ht
    cases hp with
    | verifying f x hf =>
      refine h.push rfl rfl rfl (fun g hg => ?_) fun g hg => by cases hg
      cases of_decide_eq_true hg
      exact Option.isSome_iff_exists.mpr ⟨x, hf⟩
    | destructor p => exact h.push rfl rfl rfl (fun g hg => by cases hg) fun g hg => by cases hg
    | dropping f x hf hx hd hn =>
      refine h.push rfl rfl rfl (fun g hg => ?_) fun g hg => ?_
      · cases of_decide_eq_true hg
        exact Option.isSome_iff_exists.mpr ⟨x, hf⟩
      · cases hg
        exact ⟨fun z hz => Option.some.inj (hf.symm.trans hz) ▸ hx, hn⟩
  | popped call rest unwinding hs hp hu ht =>
    subst ht
    exact h.sublist rfl rfl (hs ▸ List.sublist_cons_self call rest)
  | swapped c rest hs ht =>
    subst ht
    exact h.swap hs rfl rfl rfl (fun g hg => by cases hg) fun g hg => by cases hg
  | spilled c rest hs hu ht =>
    subst ht
    exact h.sublist rfl rfl (hs ▸ List.sublist_cons_self _ rest)
  | abandoned f r cleanups children first rest hs hu ht =>
    subst ht
    exact h.sublist rfl rfl (hs ▸ List.sublist_cons_self _ rest)
  | created effect ht => exact ht ▸ h.create effect
  | adopted f x hc hf ht => exact ht ▸ h.adopt hf
  | added f x hc hf ht => exact ht ▸ h.addCleanup hf
  | taken f x y calls stats hf ho hu ht => exact ht ▸ h.taken hf ho
  | cleaned f r c cleanups children first rest hs hu ht =>
    subst ht
    have hloop : ({ s with calls := .tearing f r cleanups children first :: rest } :
        OwnerHost P).Sane :=
      h.swap hs rfl rfl rfl (fun g => id) fun g hg => by cases hg
    exact hloop.push rfl rfl rfl (fun g hg => by cases hg) fun g hg => by cases hg
  | disposed f r c children first rest hs hu ht =>
    subst ht
    have hloop : ({ s with calls := .tearing f r [] children first :: rest } : OwnerHost P).Sane :=
      h.swap hs rfl rfl rfl (fun g => id) fun g hg => by cases hg
    exact hloop.push rfl rfl rfl (fun g hg => by cases hg) fun g hg => by cases hg
  | ended f r first rest hs hu ht =>
    subst ht
    exact h.sublist rfl rfl (hs ▸ List.sublist_cons_self _ rest)
  | caught entry above f r cleanups children first rest p hs he ha hu ht =>
    subst ht
    have hdown : ({ s with calls := .tearing f r cleanups children first :: rest } :
        OwnerHost P).Sane := h.sublist rfl rfl (hs ▸ List.sublist_cons_self entry _)
    have hloop : ({ s with calls := .tearing f r cleanups children (first.or (some p)) :: rest } :
        OwnerHost P).Sane :=
      hdown.swap rfl rfl rfl rfl (fun g => id) fun g hg => by cases hg
    rcases ha with rfl | ⟨c, -, rfl⟩
    · exact hloop.same rfl rfl rfl
    · exact hloop.push rfl rfl rfl (fun g hg => by cases hg) fun g hg => by cases hg
  | entered f rest hs hd hu ht =>
    subst ht
    exact h.swap hs rfl rfl rfl (fun g => id) fun g hg => by cases hg
  | vanished f rest hs ht => exact ht ▸ h.vanish hs

end Sane

/-- The gauges are sums over the frames, and no subtraction was cut short. -/
structure Balanced (s : OwnerHost P) : Prop where
  owners : s.stats.liveOwners = s.total fun _ => 1
  cleanups : s.stats.cleanupRegistrations = s.total fun x => x.cleanups.length
  children : s.stats.ownedChildren = s.total fun x => x.children.length
  runs : s.stats.cleanupsRegistered = s.stats.cleanupsRun + s.stats.cleanupRegistrations
  exact : s.stats.truncated = false

section Balanced

theorem not_truncated {a : Bool} {n k : ℕ} (ha : a = false) (h : k ≤ n) :
    (a || decide (n < k)) = false := by
  rw [ha, Bool.false_or]
  exact decide_eq_false (Nat.not_lt.mpr h)

theorem balanced_empty : ({} : OwnerHost P).Balanced where
  owners := rfl
  cleanups := rfl
  children := rfl
  runs := rfl
  exact := rfl

theorem Balanced.same (h : s.Balanced) (hf : t.frames = s.frames)
    (hn : t.nextFrame = s.nextFrame) (hs : t.stats = s.stats) : t.Balanced := by
  have ht : ∀ w, t.total w = s.total w := fun w => by
    unfold total
    rw [hf, hn]
  exact {
    owners := by rw [hs, ht]; exact h.owners
    cleanups := by rw [hs, ht]; exact h.cleanups
    children := by rw [hs, ht]; exact h.children
    runs := by rw [hs]; exact h.runs
    exact := by rw [hs]; exact h.exact }

theorem Balanced.create (h : s.Balanced) (effect : Bool) : (s.create effect).Balanced where
  owners := by
    rw [total_create]
    exact congrArg (· + 1) h.owners
  cleanups := by
    rw [total_create]
    exact h.cleanups
  children := by
    rw [total_create]
    exact h.children
  runs := h.runs
  exact := h.exact

theorem Balanced.vanish (h : s.Balanced) (hf : s.frames f = some x) (hb : f < s.nextFrame)
    (hc : x.cleanups = []) (hl : x.children = []) : (s.vanish f).Balanced where
  owners := by
    have hsum := total_vanish (fun _ => 1) hf hb
    have hold := h.owners
    change s.stats.liveOwners - 1 = (s.vanish f).total _
    omega
  cleanups := by
    have hsum := total_vanish (fun x => x.cleanups.length) hf hb
    rw [hc, List.length_nil, Nat.add_zero] at hsum
    rw [hsum]
    exact h.cleanups
  children := by
    have hsum := total_vanish (fun x => x.children.length) hf hb
    rw [hl, List.length_nil, Nat.add_zero] at hsum
    rw [hsum]
    exact h.children
  runs := h.runs
  exact := by
    refine not_truncated h.exact ?_
    rw [h.owners]
    exact le_total (fun _ => 1) hf hb

theorem Balanced.register (h : s.Balanced) (hf : s.frames f = some x) (hb : f < s.nextFrame)
    (hc : y.cleanups.length = x.cleanups.length + 1) (hl : y.children = x.children) :
    ({ s.setFrame f y with stats := s.stats.cleanupRegistered } : OwnerHost P).Balanced where
  owners := by
    have hsum := total_setFrame (y := y) (fun _ => 1) hf hb
    have hold := h.owners
    change s.stats.liveOwners = (s.setFrame f y).total _
    omega
  cleanups := by
    have hsum := total_setFrame (y := y) (fun x => x.cleanups.length) hf hb
    have hold := h.cleanups
    change s.stats.cleanupRegistrations + 1 = (s.setFrame f y).total _
    omega
  children := by
    have hsum := total_setFrame (y := y) (fun x => x.children.length) hf hb
    have hold := h.children
    rw [hl] at hsum
    change s.stats.ownedChildren = (s.setFrame f y).total _
    omega
  runs := by
    have hold := h.runs
    change s.stats.cleanupsRegistered + 1 =
      s.stats.cleanupsRun + (s.stats.cleanupRegistrations + 1)
    omega
  exact := h.exact

theorem Balanced.replace (h : s.Balanced) (hf : s.frames f = some x) (hb : f < s.nextFrame)
    (released : ℕ) (hc : y.cleanups = x.cleanups)
    (hl : y.children.length + released = x.children.length + 1) (hr : released ≤ x.children.length) :
    ({ s.setFrame f y with stats := (s.stats.childrenTaken released).childAdopted } :
      OwnerHost P).Balanced := by
  have hle := le_total (fun x => x.children.length) hf hb
  have hold := h.children
  exact {
    owners := by
      have hsum := total_setFrame (y := y) (fun _ => 1) hf hb
      have hown := h.owners
      change s.stats.liveOwners = (s.setFrame f y).total _
      omega
    cleanups := by
      have hsum := total_setFrame (y := y) (fun x => x.cleanups.length) hf hb
      have hreg := h.cleanups
      rw [hc] at hsum
      change s.stats.cleanupRegistrations = (s.setFrame f y).total _
      omega
    children := by
      have hsum := total_setFrame (y := y) (fun x => x.children.length) hf hb
      change s.stats.ownedChildren - released + 1 = (s.setFrame f y).total _
      omega
    runs := h.runs
    exact := not_truncated h.exact (by omega) }

theorem Balanced.taken (h : s.Balanced) (hf : s.frames f = some x) (hb : f < s.nextFrame)
    (hc : y.cleanups = []) (hl : y.children = []) {stats : OwnershipStats}
    (hs : stats = s.stats ∨ stats = s.stats.ownerDisposed) :
    ({ s.setFrame f y with
      stats := (stats.cleanupsTaken x.cleanups.length).childrenTaken x.children.length } :
      OwnerHost P).Balanced := by
  have hcle := le_total (fun x => x.cleanups.length) hf hb
  have hlle := le_total (fun x => x.children.length) hf hb
  have hreg := h.cleanups
  have hown := h.children
  have hsame : stats.liveOwners = s.stats.liveOwners ∧
      stats.cleanupRegistrations = s.stats.cleanupRegistrations ∧
      stats.ownedChildren = s.stats.ownedChildren ∧
      stats.cleanupsRegistered = s.stats.cleanupsRegistered ∧
      stats.cleanupsRun = s.stats.cleanupsRun ∧ stats.truncated = s.stats.truncated := by
    rcases hs with rfl | rfl
    · exact ⟨rfl, rfl, rfl, rfl, rfl, rfl⟩
    · exact ⟨rfl, rfl, rfl, rfl, rfl, rfl⟩
  obtain ⟨hlive, hpending, howned, hregistered, hrun, htruncated⟩ := hsame
  exact {
    owners := by
      have hsum := total_setFrame (y := y) (fun _ => 1) hf hb
      have hold := h.owners
      change stats.liveOwners = (s.setFrame f y).total _
      omega
    cleanups := by
      have hsum := total_setFrame (y := y) (fun x => x.cleanups.length) hf hb
      rw [hc, List.length_nil, Nat.add_zero] at hsum
      change stats.cleanupRegistrations - x.cleanups.length = (s.setFrame f y).total _
      omega
    children := by
      have hsum := total_setFrame (y := y) (fun x => x.children.length) hf hb
      rw [hl, List.length_nil, Nat.add_zero] at hsum
      change stats.ownedChildren - x.children.length = (s.setFrame f y).total _
      omega
    runs := by
      have hold := h.runs
      change stats.cleanupsRegistered =
        stats.cleanupsRun + x.cleanups.length + (stats.cleanupRegistrations - x.cleanups.length)
      omega
    exact := by
      have hfirst : (stats.cleanupsTaken x.cleanups.length).truncated = false :=
        not_truncated (htruncated.trans h.exact) (by omega)
      refine not_truncated hfirst ?_
      change x.children.length ≤ stats.ownedChildren
      omega }

theorem Balanced.adopt (h : s.Balanced) (hf : s.frames f = some x) (hb : f < s.nextFrame) :
    (s.adopt f x).Balanced := by
  unfold OwnerHost.adopt
  dsimp only
  split
  · exact h.same rfl rfl rfl
  · obtain ⟨hc, -, -, hl⟩ := sweep_fields s.gone x
    have hset := h.replace hf hb (sweep s.gone x).2.length
      (y := { (sweep s.gone x).1 with
        children := (sweep s.gone x).1.children ++ [s.nextChild] })
      hc (by simp only [List.length_append, List.length_singleton]; omega) (by omega)
    split
    · exact hset.same rfl rfl rfl
    · exact hset.same rfl rfl rfl

theorem Balanced.addCleanup (h : s.Balanced) (hf : s.frames f = some x) (hb : f < s.nextFrame) :
    (s.addCleanup f x).Balanced := by
  unfold OwnerHost.addCleanup
  dsimp only
  split
  -- a cleanup that runs at once is registered and run, and never pending
  · exact {
      owners := h.owners
      cleanups := h.cleanups
      children := h.children
      runs := by
        have hold := h.runs
        change s.stats.cleanupsRegistered + 1 =
          s.stats.cleanupsRun + 1 + s.stats.cleanupRegistrations
        omega
      exact := h.exact }
  · have hset := h.register (y := { x with cleanups := x.cleanups ++ [s.nextCleanup] }) hf hb
      List.length_append rfl
    exact hset.same rfl rfl rfl

theorem Opens.lists {calls : List (OwnerCall P)} {stats : OwnershipStats}
    (h : s.Opens f x y calls stats) : y.cleanups = x.cleanups ∧ y.children = x.children ∧
      y.effect = x.effect ∧ (stats = s.stats ∨ stats = s.stats.ownerDisposed) := by
  cases h with
  | reset hc he hy => exact hy ▸ ⟨rfl, rfl, rfl, .inl rfl⟩
  | dispose hc hx hd hy => exact hy ▸ ⟨rfl, rfl, rfl, .inr rfl⟩
  | drop hc hx hd hy hn => exact hy ▸ ⟨rfl, rfl, rfl, .inr rfl⟩
  | proceed rest hs hd hy => exact hy ▸ ⟨rfl, rfl, rfl, .inl rfl⟩

theorem Balanced.turn (h : s.Balanced) (hs : s.Sane) (ht : Turn s t) : t.Balanced := by
  cases ht with
  | marked unwinding gone discarded hu hg hd ht => exact h.same (ht ▸ rfl) (ht ▸ rfl) (ht ▸ rfl)
  | pushed call unwinding hc hp ht => exact h.same (ht ▸ rfl) (ht ▸ rfl) (ht ▸ rfl)
  | popped call rest unwinding hs hp hu ht => exact h.same (ht ▸ rfl) (ht ▸ rfl) (ht ▸ rfl)
  | swapped c rest hs ht => exact h.same (ht ▸ rfl) (ht ▸ rfl) (ht ▸ rfl)
  | spilled c rest hs hu ht => exact h.same (ht ▸ rfl) (ht ▸ rfl) (ht ▸ rfl)
  | abandoned f r cleanups children first rest hs hu ht =>
    exact h.same (ht ▸ rfl) (ht ▸ rfl) (ht ▸ rfl)
  | created effect ht => exact ht ▸ h.create effect
  | adopted f x hc hf ht => exact ht ▸ h.adopt hf (hs.below f x hf)
  | added f x hc hf ht => exact ht ▸ h.addCleanup hf (hs.below f x hf)
  | taken f x y calls stats hf ho hu ht =>
    obtain ⟨hc, hl, -, hstats⟩ := ho.lists
    have hset := h.taken (y := { y with children := [], sweptAt := 0, cleanups := [] }) hf
      (hs.below f x hf) rfl rfl hstats
    subst ht
    refine hset.same rfl rfl ?_
    rw [← hc, ← hl]
    rfl
  | cleaned f r c cleanups children first rest hs hu ht =>
    exact h.same (ht ▸ rfl) (ht ▸ rfl) (ht ▸ rfl)
  | disposed f r c children first rest hs hu ht => exact h.same (ht ▸ rfl) (ht ▸ rfl) (ht ▸ rfl)
  | ended f r first rest hs hu ht => exact h.same (ht ▸ rfl) (ht ▸ rfl) (ht ▸ rfl)
  | caught entry above f r cleanups children first rest p hs he ha hu ht =>
    exact h.same (ht ▸ rfl) (ht ▸ rfl) (ht ▸ rfl)
  | entered f rest hs hd hu ht => exact h.same (ht ▸ rfl) (ht ▸ rfl) (ht ▸ rfl)
  | vanished f rest hc ht =>
    have hmem : OwnerCall.dropping f ∈ s.calls := hc ▸ List.mem_cons_self
    obtain ⟨x, hx⟩ := Option.isSome_iff_exists.mp (hs.used _ hmem f (decide_eq_true rfl))
    obtain ⟨hcl, hch⟩ := hs.emptied f x hx (hs.dying f hmem x hx)
    have hv := h.vanish hx (hs.below f x hx) hcl hch
    subst ht
    exact hv.same rfl rfl rfl

end Balanced

/-- Any steps, from a thread that has no frames. -/
abbrev Reached (s : OwnerHost P) : Prop := Runs.Reaches step (fun _ _ => true = true) {} s

theorem Reached.sane (h : Reached s) : s.Sane :=
  Runs.Reaches.invariant Sane sane_empty (fun _ _ _ hs _ ht => hs.turn (turn_step ht)) h

theorem Reached.balanced (h : Reached s) : s.Balanced := by
  have hboth : s.Sane ∧ s.Balanced :=
    Runs.Reaches.invariant (fun s => s.Sane ∧ s.Balanced) ⟨sane_empty, balanced_empty⟩
      (fun _ _ _ hs _ ht => ⟨hs.1.turn (turn_step ht), hs.2.turn hs.1 (turn_step ht)⟩) h
  exact hboth.2

/-- `OwnerFrame::pending_cleanups`. -/
def pendingCleanups (s : OwnerHost P) (f : FrameId) : ℕ := (s.frames f).elim 0 (·.cleanups.length)

/-- `OwnerFrame::owned_children`. -/
def ownedChildren (s : OwnerHost P) (f : FrameId) : ℕ := (s.frames f).elim 0 (·.children.length)

def existing (s : OwnerHost P) : Finset FrameId :=
  (Finset.range s.nextFrame).filter fun f => (s.frames f).isSome = true

theorem total_eq_sum (s : OwnerHost P) (w : OwnerFrameState → ℕ) :
    s.total w = ∑ f ∈ s.existing, (s.frames f).elim 0 w := by
  unfold total existing
  rw [Finset.sum_filter]
  refine Finset.sum_congr rfl fun f _ => ?_
  cases s.frames f with
  | none => rfl
  | some x => rfl

/-- What the gauges say is what a walk over the frames finds, in every state. -/
theorem gauges_do_not_drift (h : Reached s) :
    (∀ f, f ∈ s.existing ↔ (s.frames f).isSome = true) ∧
      s.stats.liveOwners = s.existing.card ∧
      s.stats.cleanupRegistrations = ∑ f ∈ s.existing, s.pendingCleanups f ∧
      s.stats.ownedChildren = ∑ f ∈ s.existing, s.ownedChildren f ∧
      s.stats.cleanupsRegistered = s.stats.cleanupsRun + s.stats.cleanupRegistrations ∧
      s.stats.truncated = false := by
  have hb := h.balanced
  refine ⟨fun f => ?_, ?_, ?_, ?_, hb.runs, hb.exact⟩
  · unfold existing
    rw [Finset.mem_filter, Finset.mem_range]
    refine ⟨fun hf => hf.2, fun hf => ⟨?_, hf⟩⟩
    obtain ⟨x, hx⟩ := Option.isSome_iff_exists.mp hf
    exact h.sane.below f x hx
  · rw [hb.owners, total_eq_sum, Finset.card_eq_sum_ones]
    refine Finset.sum_congr rfl fun f hf => ?_
    obtain ⟨x, hx⟩ := Option.isSome_iff_exists.mp (Finset.mem_filter.mp hf).2
    rw [hx]
    rfl
  · rw [hb.cleanups, total_eq_sum]
    rfl
  · rw [hb.children, total_eq_sum]
    rfl

/-- A frame adopts eight children and two cleanups. The second child is disposed, and the next
adoption releases it; its destructor adopts again, and then the owner is disposed and its
second cleanup panics. -/
def sweeping : List (OwnerStep ℕ) :=
  [.create false, .adopt 0, .adopt 0, .adopt 0, .adopt 0, .adopt 0, .adopt 0, .adopt 0, .adopt 0,
    .addCleanup 0, .addCleanup 0, .discardChild 1, .adopt 0, .adopt 0, .finish, .create true,
    .adopt 1, .dispose 0, .next, .adopt 1, .panic 5, .unwind]

theorem gauges_after_a_sweep : ∃ s : OwnerHost ℕ, s.Reached ∧ s.calls.length = 1 ∧
    s.stats.liveOwners = 2 ∧ s.existing.card = 2 ∧ s.stats.ownedChildren = 2 ∧
    ∑ f ∈ s.existing, s.ownedChildren f = 2 := by
  let s := Runs.after (step (P := ℕ)) {} sweeping
  have hs : Reached s :=
    Runs.Reaches.after (fun _ _ => true) _ .init (by decide +kernel) (by decide +kernel)
  obtain ⟨-, howners, -, hchildren, -⟩ := gauges_do_not_drift hs
  have hlive : s.stats.liveOwners = 2 := by decide +kernel
  have hheld : s.stats.ownedChildren = 2 := by decide +kernel
  exact ⟨s, hs, by decide +kernel, hlive, howners.symm.trans hlive, hheld,
    hchildren.symm.trans hheld⟩

end OwnerHost

end Adaptite

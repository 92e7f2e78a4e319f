import Adaptite.Publishing

set_option autoImplicit false

namespace Adaptite
namespace Resource

variable {T : Type}

def isPolite (s : Resource T) : ResourceOp T → Bool
  | .poll k => s.fetches k ≠ .aborted
  | _ => true

/-- The steps that leave the flag behind: a panic of the fetch closure, of the newest future while
it is in flight, or of the publication of its result; and the end of a publication in which a
newer fetch has started. -/
def misleads (s : Resource T) : ResourceOp T → Bool
  | .unwind =>
    match s.stack with
    | .fetching _ :: _ => true
    | .polling k :: _ => k = s.generation && s.fetches k = .pending
    | .ready k :: _ => k = s.generation && s.loading
    | _ => false
  | .settle => s.fetches s.generation = .calling || s.fetches s.generation = .pending
  | _ => false

/-- No run of the effect and no poll is in progress. -/
def AtRest (s : Resource T) : Prop := ∀ a ∈ s.stack, a.isWindow = false ∧ a.isPoll = false

/-- The states of a resource in any interleaving without a misleading step. -/
abbrev ReachedTruly (s : Resource T) : Prop :=
  Runs.Reaches step (fun s op => (s.isPolite op && !s.misleads op) = true) {} s

/-- The flag is up while the newest fetch is in flight, and until its result is published. -/
structure Truthful (s : Resource T) : Prop where
  raised : s.InFlight s.generation → s.loading = true
  cleared : s.loading = true → s.InFlight s.generation ∨ .ready s.generation ∈ s.stack

variable {s t : Resource T} {a b : Activation} {rest : List Activation} {k : ℕ}

section Truthful

theorem truthful_empty : ({} : Resource T).Truthful :=
  ⟨fun h => by simp [InFlight] at h, fun h => by simp at h⟩

theorem Truthful.keep (h : s.Truthful) (hl : t.loading = s.loading)
    (hg : t.generation = s.generation) (hf : t.InFlight s.generation ↔ s.InFlight s.generation)
    (hr : .ready s.generation ∈ s.stack → .ready s.generation ∈ t.stack) : t.Truthful := by
  constructor
  · rw [hl, hg, hf]
    exact h.raised
  · rw [hl, hg, hf]
    exact fun ht => (h.cleared ht).imp id hr

theorem Truthful.goOn (h : s.Truthful) (hst : s.stack = a :: rest) (ha : a ≠ .ready s.generation)
    (hl : t.loading = s.loading) (hg : t.generation = s.generation) (hf : t.fetches = s.fetches)
    (ht : rest ⊆ t.stack) : t.Truthful := by
  refine h.keep hl hg (by rw [InFlight, InFlight, hf]) fun hr => ?_
  rw [hst, List.mem_cons] at hr
  exact ht (hr.resolve_left ha.symm)

theorem reserve_le_room {l : List Activation} (ha : a ∈ l) : a.reserve ≤ Activation.room l := by
  induction l with
  | nil => cases ha
  | cons b l ih =>
    rcases List.mem_cons.mp ha with rfl | ha
    · exact Nat.le_add_right _ _
    · exact Nat.le_add_left_of_le (ih ha)

/-- Where the innermost activation holds a fetch, no other is being called. -/
theorem Sound.not_calling (h : s.Sound) (hst : s.stack = a :: rest) (ha : 0 < a.reserve)
    (hf : ∀ j, a ≠ .fetching j) (j : ℕ) : s.fetches j ≠ .calling := by
  intro hj
  have hmem := (h.calling j).mp hj
  rw [hst, List.mem_cons] at hmem
  have hroom : 1 ≤ Activation.room rest := reserve_le_room (hmem.resolve_left (hf j).symm)
  have hone := h.single
  simp only [load, hst, Activation.room] at hone
  omega

theorem fetches_abort (s : Resource T) (k j : ℕ) :
    (s.abort k).fetches j = if j = k ∧ s.fetches k = .pending then .aborted else s.fetches j := by
  unfold Resource.abort
  by_cases hk : s.fetches k = .pending
  · by_cases hj : j = k <;> simp [hk, hj]
  · simp [hk]

theorem Truthful.abort (hsound : s.Sound) (hst : s.stack = a :: rest) (hk : k ∈ a.held)
    (ha : 0 < a.reserve) (hf : ∀ j, a ≠ .fetching j) (l : List Activation) :
    ({ s.abort k with stack := l } : Resource T).Truthful := by
  refine ⟨fun hin => ?_, fun hl => by simp [Resource.abort] at hl⟩
  have hheld : k ∈ s.held := by
    unfold held
    rw [hst]
    simp [hk]
  rcases hin with hin | hin
  · change (s.abort k).fetches s.generation = _ at hin
    rw [fetches_abort] at hin
    split at hin
    · cases hin
    · exact absurd hin (hsound.not_calling hst ha hf _)
  · change (s.abort k).fetches s.generation = _ at hin
    rw [fetches_abort] at hin
    split at hin
    · cases hin
    next hne =>
      obtain rfl := hsound.eq_of_held (hsound.owned _ hin) hheld
      exact absurd ⟨rfl, hin⟩ hne

theorem Truthful.schedule (h : s.Truthful) : s.schedule.Truthful := by
  unfold Resource.schedule
  split
  · exact h
  · exact h.keep rfl rfl Iff.rfl id

theorem Truthful.runScheduled (h : s.Truthful) : s.runScheduled.Truthful := by
  unfold Resource.runScheduled
  dsimp only
  split_ifs
  · exact h.keep rfl rfl Iff.rfl id
  · exact h.keep rfl rfl Iff.rfl id
  · exact h.keep rfl rfl Iff.rfl (List.mem_cons_of_mem _)

theorem Truthful.openWindow (h : s.Truthful) (hst : s.stack = .verifying :: rest)
    (changed : Bool) : (s.openWindow rest changed).Truthful := by
  unfold Resource.openWindow
  split
  · exact h.goOn hst (by simp) rfl rfl rfl (List.Subset.refl _)
  · exact h.goOn hst (by simp) rfl rfl rfl (List.subset_cons_self _ _)

theorem Truthful.enterBody (h : s.Truthful) (hst : s.stack = .teardown [] :: rest) :
    (if s.disposed then s.closeWindow rest else { s with stack := .body :: rest }).Truthful := by
  split
  · exact h.goOn hst (by simp) rfl rfl rfl (List.Subset.refl _)
  · exact h.goOn hst (by simp) rfl rfl rfl (List.subset_cons_self _ _)

theorem Truthful.startFetch : ({ s.setFetch (s.generation + 1) .calling with
      generation := s.generation + 1
      loading := true
      stack := .fetching (s.generation + 1) :: rest } : Resource T).Truthful :=
  ⟨fun _ => rfl, fun _ => .inl (.inl (Function.update_self _ _ _))⟩

theorem Truthful.spawn (h : s.Truthful) (hsound : s.Sound) (hst : s.stack = .fetching k :: rest) :
    ({ s.setFetch k .pending with stack := .spawned k :: rest } : Resource T).Truthful := by
  have hk : s.fetches k = .calling := (hsound.calling k).mpr (hst ▸ List.mem_cons_self)
  refine h.keep rfl rfl ?_ fun hr => ?_
  · simp only [InFlight, setFetch, Function.update_apply]
    by_cases hg : s.generation = k <;> simp [hg, hk]
  · simpa [hst] using hr

theorem Truthful.register (h : s.Truthful) (hsound : s.Sound)
    (hst : s.stack = .spawned k :: rest) :
    ({ s.addCleanup k with stack := .registered :: rest } : Resource T).Truthful := by
  unfold addCleanup
  split
  · exact .abort hsound hst (by simp [Activation.held]) (by simp [Activation.reserve]) (by simp) _
  · exact h.goOn hst (by simp) rfl rfl rfl (List.subset_cons_self _ _)

theorem Truthful.finishRun (h : s.Truthful) (hst : s.stack = .registered :: rest) :
    (s.finishRun rest).Truthful := by
  have hleft : ({ s with rerunAfterCurrent := false, running := false, stack := rest } :
      Resource T).Truthful := h.goOn hst (by simp) rfl rfl rfl (List.Subset.refl _)
  unfold Resource.finishRun closeWindow
  dsimp only
  split
  · unfold Resource.schedule
    dsimp only
    split <;> exact hleft.keep rfl rfl Iff.rfl id
  · exact hleft

theorem Truthful.runCleanup (hsound : s.Sound) (hs : s.runCleanup = some t) : t.Truthful := by
  unfold Resource.runCleanup at hs
  split at hs
  next k handles rest hst =>
    cases hs
    exact .abort hsound hst List.mem_cons_self (by simp [Activation.reserve]) (by simp) _
  next k handles rest hst =>
    cases hs
    exact .abort hsound hst List.mem_cons_self (by simp [Activation.reserve]) (by simp) _
  · cases hs

theorem Truthful.dispose (h : s.Truthful) : s.dispose.Truthful := by
  unfold Resource.dispose
  split
  · exact h
  · exact h.keep rfl rfl Iff.rfl (List.mem_cons_of_mem _)

/-- Some other task ends, or one that is no longer in flight. -/
theorem Truthful.endPoll (h : s.Truthful) (hst : s.stack = .polling k :: rest) {fetch : Fetch}
    (hf : fetch ≠ .calling ∧ fetch ≠ .pending) (hk : k = s.generation → ¬ s.InFlight k) :
    ({ s.setFetch k fetch with stack := rest } : Resource T).Truthful := by
  refine h.keep rfl rfl ?_ fun hr => ?_
  · by_cases hg : s.generation = k
    · have hnot := hk hg.symm
      simp [InFlight, setFetch, hg, hf] at hnot ⊢
      exact hnot
    · simp [InFlight, setFetch, Function.update_of_ne hg]
  · simpa [hst] using hr

theorem Truthful.complete (h : s.Truthful) (hst : s.stack = .polling k :: rest) (result : T) :
    (s.complete rest k result).Truthful := by
  unfold Resource.complete
  dsimp only
  split
  next hg =>
    change s.generation = k at hg
    subst hg
    exact ⟨fun hin => by simp [InFlight, setFetch] at hin, fun _ => .inr List.mem_cons_self⟩
  next hg => exact h.endPoll hst (by simp) fun hk => absurd hk.symm hg

theorem Truthful.unwind (h : s.Truthful) (hsound : s.Sound) (hm : s.misleads .unwind = false)
    (hs : s.unwind = some t) : t.Truthful := by
  unfold misleads at hm
  unfold Resource.unwind at hs
  split at hs
  all_goals try cases hs
  next rest hst =>
    have hsch : s.schedule.stack = .verifying :: rest := by
      unfold Resource.schedule
      split <;> exact hst
    exact h.schedule.goOn hsch (by simp) rfl rfl rfl (List.Subset.refl _)
  next hst => exact h.goOn hst (by simp) rfl rfl rfl (List.Subset.refl _)
  next hst => exact h.goOn hst (by simp) rfl rfl rfl (List.Subset.refl _)
  next hst => exact h.goOn hst (by simp) rfl rfl rfl (List.Subset.refl _)
  next hst => simp [hst] at hm
  next hst => exact h.goOn hst (by simp) rfl rfl rfl (List.Subset.refl _)
  next k rest hst =>
    simp only [hst] at hm
    by_cases hk : k = s.generation
    · have hdown : s.loading = false := by simpa [hk] using hm
      refine ⟨fun hin => ?_, fun hl => ?_⟩
      · exact h.raised hin
      · exact absurd (hdown.symm.trans hl) Bool.false_ne_true
    · exact h.goOn hst (by simp [hk]) rfl rfl rfl (List.Subset.refl _)
  next k rest hst =>
    simp only [hst] at hm
    refine h.endPoll hst (by simp) fun hk => ?_
    have hpending : s.fetches k ≠ .pending := by simpa [hk] using hm
    have hlive := (hsound.live k (hst ▸ List.mem_cons_self)).resolve_left hpending
    simp [InFlight, hlive]

theorem truthful_settle (rest : List Activation) (hm : s.misleads .settle = false) :
    ({ s with loading := false, stack := rest } : Resource T).Truthful := by
  simp only [misleads, Bool.or_eq_false_iff, decide_eq_false_iff_not] at hm
  exact ⟨fun hin => hin.elim (fun hc => absurd hc hm.1) fun hp => absurd hp hm.2,
    fun hl => by simp at hl⟩

/-- A step that does not mislead keeps the flag true to the newest fetch. -/
theorem Truthful.step (h : s.Truthful) (hsound : s.Sound) {op : ResourceOp T}
    (hm : s.misleads op = false) (hs : s.step op = some t) : t.Truthful := by
  unfold Resource.step at hs
  split at hs
  all_goals try cases hs
  next => exact h.schedule
  next =>
    split at hs <;> cases hs
    exact Truthful.runScheduled (h.keep rfl rfl Iff.rfl id)
  next hst => exact h.openWindow hst _
  next hst => exact h.goOn hst (by simp) rfl rfl rfl (List.Subset.refl _)
  next => exact .runCleanup hsound hs
  next hst => exact h.enterBody hst
  next hst => exact .startFetch
  next hst => exact h.spawn hsound hst
  next hst => exact h.register hsound hst
  next hst => exact h.finishRun hst
  next => exact h.unwind hsound hm hs
  next => exact h.dispose
  next hst => exact h.goOn hst (by simp) rfl rfl rfl (List.Subset.refl _)
  next hst =>
    split at hs <;> cases hs
    exact h.keep rfl rfl Iff.rfl fun hr => by simp [hst] at hr
  next hst => exact h.goOn hst (by simp) rfl rfl rfl (List.Subset.refl _)
  next hst => exact h.complete hst _
  next hst => exact truthful_settle _ hm

theorem polite_poll {op : ResourceOp T} (hp : s.isPolite op = true) (k : ℕ)
    (hop : op = .poll k) : s.fetches k ≠ .aborted := by
  subst hop
  simpa [isPolite] using hp

theorem ReachedTruly.truthful (h : s.ReachedTruly) : s.Sound ∧ s.Truthful := by
  refine Runs.Reaches.invariant (fun s => s.Sound ∧ s.Truthful)
    ⟨sound_empty, truthful_empty⟩ ?_ h
  rintro s op t ⟨hsound, htruth⟩ ha hs
  rw [Bool.and_eq_true, Bool.not_eq_true'] at ha
  exact ⟨hsound.step (polite_poll ha.1) hs, htruth.step hsound ha.2 hs⟩

end Truthful

theorem atRest_of_nil (h : s.stack = []) : s.AtRest := by
  intro a ha
  simp [h] at ha

/-- At rest, the flag is up exactly while the newest fetch is in flight. -/
theorem loading_tells_the_truth (h : s.ReachedTruly) (hrest : s.AtRest) :
    s.loading = true ↔ s.fetches s.generation = .pending := by
  obtain ⟨hsound, htruth⟩ := h.truthful
  constructor
  · intro hl
    rcases htruth.cleared hl with (hc | hp) | hr
    · -- a fetch is called inside a run of the effect
      have hw := (hrest _ ((hsound.calling _).mp hc)).1
      simp [Activation.isWindow] at hw
    · exact hp
    · have hpoll := (hrest _ hr).2
      simp [Activation.isPoll] at hpoll
  · exact fun hp => htruth.raised (.inr hp)

/-- The owner is disposed in the middle of a poll of the second fetch. -/
def disposedRun : List (ResourceOp ℕ) :=
  [.flush, .verified true, .enterBody, .startFetch, .spawn, .register, .finishRun, .invalidate,
    .flush, .verified true, .runCleanup, .enterBody, .startFetch, .spawn, .register, .finishRun,
    .poll 2, .dispose, .runCleanup, .endDispose, .suspend]

theorem loading_tells_the_truth_when_disposed :
    ((Runs.after step ({} : Resource ℕ) (disposedRun.take 16)).loading = true ↔
      (Runs.after step ({} : Resource ℕ) (disposedRun.take 16)).fetches 2 = .pending) ∧
    ((Runs.after step ({} : Resource ℕ) disposedRun).loading = true ↔
      (Runs.after step ({} : Resource ℕ) disposedRun).fetches 2 = .pending) ∧
    (Runs.after step ({} : Resource ℕ) (disposedRun.take 16)).loading = true ∧
    (Runs.after step ({} : Resource ℕ) disposedRun).loading = false := by
  have hpart : (Runs.after step ({} : Resource ℕ) (disposedRun.take 16)).ReachedTruly :=
    Runs.Reaches.after (fun (s : Resource ℕ) op => s.isPolite op && !s.misleads op) _ .init
      (by decide +kernel) (by decide +kernel)
  have hwhole : (Runs.after step ({} : Resource ℕ) disposedRun).ReachedTruly :=
    Runs.Reaches.after (fun (s : Resource ℕ) op => s.isPolite op && !s.misleads op) _ .init
      (by decide +kernel) (by decide +kernel)
  exact ⟨loading_tells_the_truth hpart (atRest_of_nil rfl),
    loading_tells_the_truth hwhole (atRest_of_nil rfl), by decide +kernel, by decide +kernel⟩

def closurePanics : List (ResourceOp ℕ) :=
  [.flush, .verified true, .enterBody, .startFetch, .unwind]

def futurePanics : List (ResourceOp ℕ) :=
  [.flush, .verified true, .enterBody, .startFetch, .spawn, .register, .finishRun, .poll 1, .unwind]

/-- At rest, the flag says something else than the newest fetch. -/
def Misled (s : Resource T) : Prop :=
  s.stack.isEmpty = true ∧ ¬ (s.loading = true ↔ s.fetches s.generation = .pending)

instance (s : Resource T) : Decidable s.Misled :=
  inferInstanceAs (Decidable (_ ∧ ¬ (_ ↔ _)))

theorem loading_is_left_behind :
    ((Runs.after step ({} : Resource ℕ) closurePanics).Reached ∧
      (Runs.after step ({} : Resource ℕ) closurePanics).Misled) ∧
    (Runs.after step ({} : Resource ℕ) futurePanics).Reached ∧
      (Runs.after step ({} : Resource ℕ) futurePanics).Misled :=
  ⟨⟨.after admits _ .init (by decide +kernel) (by decide +kernel), by decide +kernel⟩,
    .after admits _ .init (by decide +kernel) (by decide +kernel), by decide +kernel⟩

end Resource

end Adaptite

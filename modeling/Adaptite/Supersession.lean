import Adaptite.Loading
import Adaptite.World

set_option autoImplicit false

/-!
# Superseding a fetch

The cleanup of the driving effect lowers the flag of the fetch it aborts, and the body raises the
flag of the next one. Both writes mark the effect that reads `loading()`.
-/
namespace Adaptite

/-- A resource and an effect that reads its flag and nothing else. `looks` and `superseded` are
not in the source: what the body of the effect has read, latest first, and how many fetches in
flight a run of the driving effect has aborted. -/
structure Spectator (T : Type) where
  resource : Resource T := {}
  state : State := .dirty
  scheduled : Bool := true
  subscribed : Bool := false
  looks : List Bool := []
  superseded : ℕ := 0

/-- `look` is the job of the effect that reads the flag. -/
inductive SpectatorOp (T : Type) where
  | fetch (op : ResourceOp T)
  | look

def Resource.isInput {T : Type} : ResourceOp T → Bool
  | .complete _ | .settle | .unwind | .diverge | .dispose | .endDispose => false
  | _ => true

/-- A run of the driving effect is about to abort a fetch in flight. -/
def Resource.supersedes {T : Type} (s : Resource T) : ResourceOp T → Bool
  | .runCleanup =>
    match s.stack with
    | .teardown (k :: _) :: _ => s.fetches k = .pending
    | _ => false
  | _ => false

namespace Spectator

variable {T : Type}

/-- `EffectInner::mark`, of a mark that comes from a source. -/
def mark (s : Spectator T) : Spectator T :=
  { s with state := s.state.raise .dirty, scheduled := true }

/-- The resource has made a step; a write of another value to the flag marks its observer. -/
def advance (s : Spectator T) (r : Resource T) (superseded : ℕ) : Spectator T :=
  let t := { s with resource := r, superseded }
  if r.loading ≠ s.resource.loading ∧ s.subscribed then t.mark else t

/-- `run_scheduled_inner`; the body is `loading()`. -/
def look (s : Spectator T) : Spectator T :=
  let s := { s with scheduled := false }
  if s.state = .clean then s
  else { s with state := .clean, subscribed := true, looks := s.resource.loading :: s.looks }

def step (s : Spectator T) : SpectatorOp T → Option (Spectator T)
  | .fetch op =>
    (s.resource.step op).map fun r =>
      s.advance r (s.superseded + if s.resource.supersedes op then 1 else 0)
  | .look => if s.scheduled then some s.look else none

def isPolite (s : Spectator T) : SpectatorOp T → Bool
  | .fetch op => s.resource.isPolite op
  | .look => true

/-- Only input changes and refetches, and the flushes that answer them. -/
def isInput (s : Spectator T) : SpectatorOp T → Bool
  | .fetch op => s.resource.isPolite op && Resource.isInput op
  | .look => true

/-- No code is running and no run is queued, as at the end of a flush. -/
def Settled (s : Spectator T) : Prop :=
  s.resource.stack = [] ∧ s.resource.jobs = 0 ∧ s.scheduled = false

abbrev Reached (s : Spectator T) : Prop :=
  Runs.Reaches step (fun s op => s.isPolite op = true) {} s

variable {s t u : Spectator T}

section Observer

/-- The effect is queued unless it is clean, and subscribed once it has run. -/
structure Tended (s : Spectator T) : Prop where
  sound : s.resource.Sound
  queued : s.scheduled = false → s.state = .clean
  looked : s.looks ≠ [] → s.subscribed = true

theorem step_fetch {op : ResourceOp T} (h : s.step (.fetch op) = some t) :
    ∃ r, s.resource.step op = some r ∧
      t = s.advance r (s.superseded + if s.resource.supersedes op then 1 else 0) := by
  obtain ⟨r, hr, rfl⟩ := Option.map_eq_some_iff.mp h
  exact ⟨r, hr, rfl⟩

theorem step_look (h : s.step .look = some t) : s.scheduled = true ∧ t = s.look := by
  change (if s.scheduled then some s.look else none) = some t at h
  split at h
  next hs => exact ⟨hs, (Option.some.inj h).symm⟩
  · cases h

theorem Tended.step {op : SpectatorOp T} (h : s.Tended) (hp : s.isPolite op = true)
    (hs : s.step op = some t) : t.Tended := by
  cases op with
  | fetch op =>
    obtain ⟨r, hr, rfl⟩ := step_fetch hs
    have hsound := h.sound.step (Resource.polite_poll hp) hr
    unfold advance
    dsimp only
    split
    · exact ⟨hsound, fun hq => by simp [mark] at hq, h.looked⟩
    · exact ⟨hsound, h.queued, h.looked⟩
  | look =>
    obtain ⟨-, rfl⟩ := step_look hs
    unfold Spectator.look
    dsimp only
    split
    next hc => exact ⟨h.sound, fun _ => hc, h.looked⟩
    · exact ⟨h.sound, fun _ => rfl, fun _ => rfl⟩

theorem Reached.tended (h : s.Reached) : s.Tended := by
  refine Runs.Reaches.invariant Tended ?_ (fun _ _ _ hP ha hs => hP.step ha hs) h
  exact ⟨Resource.sound_empty, fun hq => by simp at hq, fun hl => by simp at hl⟩

end Observer

end Spectator

/-- The driving effect has aborted the fetch of its last run and not started the next. -/
def Activation.isGap : Activation → Bool
  | teardown [] | body => true
  | _ => false

def Activation.isReady : Activation → Bool
  | ready _ => true
  | _ => false

namespace Resource

variable {T : Type} {r q : Resource T} {op : ResourceOp T} {a b : Activation}
  {rest : List Activation} {k : ℕ}

/-- A fetch is in flight, or is about to be started by the run that has aborted the last one. -/
structure Superseding (r : Resource T) : Prop where
  sound : r.Sound
  truthful : r.Truthful
  alive : r.disposed = false
  newest : ∀ k, r.InFlight k → k = r.generation
  unpublished : ∀ a ∈ r.stack, a.isReady = false
  gap : r.loading = false → ∃ a ∈ r.stack, a.isGap = true

section Superseding

theorem Superseding.keep (h : r.Superseding) (hsound : q.Sound) (htruth : q.Truthful)
    (hd : q.disposed = r.disposed) (hf : ∀ k, q.InFlight k → k = q.generation)
    (hl : q.loading = r.loading) (hu : ∀ a ∈ q.stack, a.isReady = true → a ∈ r.stack)
    (hg : ∀ a ∈ r.stack, a.isGap = true → a ∈ q.stack) : q.Superseding where
  sound := hsound
  truthful := htruth
  alive := hd.trans h.alive
  newest := hf
  unpublished a ha := by
    by_contra hr
    rw [Bool.not_eq_false] at hr
    exact absurd (h.unpublished a (hu a ha hr)) (by simp [hr])
  gap hq := by
    obtain ⟨a, ha, hgap⟩ := h.gap (hl.symm.trans hq)
    exact ⟨a, hg a ha hgap, hgap⟩

theorem Superseding.goOn (h : r.Superseding) (hsound : q.Sound) (htruth : q.Truthful)
    (hst : r.stack = a :: rest) (hq : q.stack = b :: rest) (hd : q.disposed = r.disposed)
    (hf : ∀ k, q.InFlight k → k = q.generation) (hl : q.loading = r.loading)
    (ha : a.isGap = false) (hb : b.isReady = false) : q.Superseding := by
  refine h.keep hsound htruth hd hf hl (fun c hc hr => ?_) fun c hc hg => ?_
  · rw [hq, List.mem_cons] at hc
    rcases hc with rfl | hc
    · simp [hb] at hr
    · simp [hst, hc]
  · rw [hst, List.mem_cons] at hc
    rcases hc with rfl | hc
    · simp [ha] at hg
    · simp [hq, hc]

theorem Superseding.leave (h : r.Superseding) (hsound : q.Sound) (htruth : q.Truthful)
    (hst : r.stack = a :: rest) (hq : q.stack = rest) (hd : q.disposed = r.disposed)
    (hf : ∀ k, q.InFlight k → k = q.generation) (hl : q.loading = r.loading)
    (ha : a.isGap = false) : q.Superseding := by
  refine h.keep hsound htruth hd hf hl (fun c hc hr => ?_) fun c hc hg => ?_
  · simp [hst, hq ▸ hc]
  · rw [hst, List.mem_cons] at hc
    rcases hc with rfl | hc
    · simp [ha] at hg
    · rwa [hq]

theorem schedule_frame (r : Resource T) :
    r.schedule.disposed = r.disposed ∧
      ((∀ k, r.InFlight k → k = r.generation) →
        ∀ k, r.schedule.InFlight k → k = r.schedule.generation) ∧
      r.schedule.loading = r.loading ∧ r.schedule.stack = r.stack := by
  unfold Resource.schedule
  split <;> exact ⟨rfl, id, rfl, rfl⟩

theorem runScheduled_frame (r : Resource T) :
    r.runScheduled.disposed = r.disposed ∧
      ((∀ k, r.InFlight k → k = r.generation) →
        ∀ k, r.runScheduled.InFlight k → k = r.runScheduled.generation) ∧
      r.runScheduled.loading = r.loading ∧ r.stack ⊆ r.runScheduled.stack ∧
      ∀ a ∈ r.runScheduled.stack, a ∈ r.stack ∨ a = .verifying := by
  unfold Resource.runScheduled
  dsimp only
  split_ifs
  · exact ⟨rfl, id, rfl, List.Subset.refl _, fun a ha => .inl ha⟩
  · exact ⟨rfl, id, rfl, List.Subset.refl _, fun a ha => .inl ha⟩
  · exact ⟨rfl, id, rfl, List.subset_cons_self _ _, fun a ha => (List.mem_cons.mp ha).symm⟩

theorem finishRun_frame (r : Resource T) (rest : List Activation) :
    (r.finishRun rest).disposed = r.disposed ∧
      ((∀ k, r.InFlight k → k = r.generation) →
        ∀ k, (r.finishRun rest).InFlight k → k = (r.finishRun rest).generation) ∧
      (r.finishRun rest).loading = r.loading ∧ (r.finishRun rest).stack = rest := by
  unfold Resource.finishRun Resource.schedule
  dsimp only
  split_ifs <;> exact ⟨rfl, id, rfl, rfl⟩

theorem inFlight_of_abort {j : ℕ} (h : (r.abort k).InFlight j) : r.InFlight j := by
  unfold InFlight at h ⊢
  rw [fetches_abort] at h
  split at h
  · simp at h
  · exact h

theorem Sound.nothing_inFlight (h : r.Sound) (hst : r.stack = .body :: rest) (j : ℕ) :
    ¬ r.InFlight j := by
  rintro (hc | hp)
  · exact h.not_calling hst (by simp [Activation.reserve]) (by simp) j hc
  · have hheld := h.owned j hp
    have hone := h.single
    have hrest := held_le_room rest
    have hpos := List.length_pos_of_mem hheld
    simp only [held, load, hst, List.flatMap_cons, Activation.held, Activation.room,
      Activation.reserve, List.length_append, List.nil_append] at hpos hone
    omega

theorem Superseding.runCleanup (h : r.Superseding) (hsound : q.Sound) (htruth : q.Truthful)
    (hs : r.runCleanup = some q) : q.Superseding := by
  unfold Resource.runCleanup at hs
  split at hs
  next k handles rest hst =>
    cases hs
    -- there is room for one fetch
    have hnil : handles = [] := by
      have hone := h.sound.single
      simp only [load, hst, Activation.room, Activation.reserve, List.length_cons] at hone
      exact List.length_eq_zero_iff.mp (by omega)
    refine ⟨hsound, htruth, h.alive, fun j hj => h.newest j (inFlight_of_abort hj), fun a ha => ?_,
      fun _ => ⟨.teardown handles, List.mem_cons_self, by rw [hnil]; rfl⟩⟩
    rcases List.mem_cons.mp ha with rfl | ha
    · rfl
    · exact h.unpublished a (by simp [hst, ha])
  next k handles rest hst =>
    have hdisposed := h.sound.disposing (k :: handles) (by simp [hst])
    simp [h.alive] at hdisposed
  · cases hs

theorem Superseding.step (h : r.Superseding) (hp : r.isPolite op = true)
    (hop : isInput op = true) (hs : r.step op = some q) : q.Superseding := by
  have hmis : r.misleads op = false := by
    cases op <;> first | rfl | cases hop
  have hsound := h.sound.step (polite_poll hp) hs
  have htruth := h.truthful.step h.sound hmis hs
  unfold Resource.step at hs
  split at hs
  all_goals try cases hs
  all_goals try cases hop
  next =>
    obtain ⟨hd, hn, hl, hstack⟩ := schedule_frame r
    exact h.keep hsound htruth hd (hn h.newest) hl (fun a ha _ => hstack ▸ ha)
      fun a ha _ => hstack.symm ▸ ha
  next =>
    split at hs <;> cases hs
    obtain ⟨hd, hn, hl, hsub, hnew⟩ := runScheduled_frame { r with jobs := r.jobs - 1 }
    refine h.keep hsound htruth hd (hn h.newest) hl (fun a ha hr => ?_) fun a ha _ => hsub ha
    refine (hnew a ha).resolve_right fun hv => ?_
    simp [hv, Activation.isReady] at hr
  next changed rest hst =>
    by_cases hc : (r.disposed || !changed) = true
    · have hopen : r.openWindow rest changed = { r with stack := rest } := if_pos hc
      rw [hopen] at hsound htruth ⊢
      exact h.leave hsound htruth hst rfl rfl h.newest rfl rfl
    · have hopen : r.openWindow rest changed =
          { r with
            running := true
            cleanups := []
            stack := .teardown r.cleanups.reverse :: rest } := if_neg hc
      rw [hopen] at hsound htruth ⊢
      exact h.goOn hsound htruth hst rfl rfl h.newest rfl rfl rfl
  next => exact h.runCleanup hsound htruth hs
  next rest hst =>
    rw [if_neg (by simp [h.alive])] at hsound htruth ⊢
    refine ⟨hsound, htruth, h.alive, h.newest, fun a ha => ?_, fun _ => ?_⟩
    · rcases List.mem_cons.mp ha with rfl | ha
      · rfl
      · exact h.unpublished a (by simp [hst, ha])
    · exact ⟨.body, List.mem_cons_self, rfl⟩
  next rest hst =>
    refine ⟨hsound, htruth, h.alive, fun j hj => ?_, fun a ha => ?_, fun hl => by simp at hl⟩
    · by_contra hne
      refine h.sound.nothing_inFlight hst j ?_
      simpa [InFlight, setFetch, Function.update_of_ne hne] using hj
    · rcases List.mem_cons.mp ha with rfl | ha
      · rfl
      · exact h.unpublished a (by simp [hst, ha])
  next k rest hst =>
    refine h.goOn hsound htruth hst rfl rfl (fun j hj => h.newest j ?_) rfl rfl rfl
    by_cases hne : j = k
    · rw [hne]
      exact .inl ((h.sound.calling k).mpr (hst ▸ List.mem_cons_self))
    · simpa [InFlight, setFetch, Function.update_of_ne hne] using hj
  next k rest hst =>
    have hadd : r.addCleanup k = { r with cleanups := r.cleanups ++ [k] } :=
      if_neg (by simp [h.alive])
    rw [hadd] at hsound htruth ⊢
    exact h.goOn hsound htruth hst rfl rfl h.newest rfl rfl rfl
  next rest hst =>
    obtain ⟨hd, hn, hl, hstack⟩ := finishRun_frame r rest
    exact h.leave hsound htruth hst hstack hd (hn h.newest) hl rfl
  next hst =>
    split at hs <;> cases hs
    refine h.keep hsound htruth rfl h.newest rfl (fun a ha hr => ?_) fun a ha _ => ?_
    · rw [List.mem_singleton] at ha
      simp [ha, Activation.isReady] at hr
    · simp [hst] at ha
  next hst => exact h.leave hsound htruth hst rfl rfl h.newest rfl rfl

theorem Superseding.pending_of_loading (h : r.Superseding) {handles : List ℕ}
    (hst : r.stack = .teardown (k :: handles) :: rest) (hl : r.loading = true) :
    r.fetches k = .pending := by
  rcases h.truthful.cleared hl with (hc | hp) | hr
  · exact absurd hc (h.sound.not_calling hst (by simp [Activation.reserve]) (by simp) _)
  · have hheld : k ∈ r.held := by simp [held, hst, Activation.held]
    rwa [h.sound.eq_of_held hheld (h.sound.owned _ hp)]
  · simpa [Activation.isReady] using h.unpublished _ hr

theorem Superseding.lowers (h : r.Superseding) (hs : r.step op = some q)
    (hsup : r.supersedes op = true) : r.loading = true ∧ q.loading = false := by
  cases op with
  | runCleanup =>
    simp only [supersedes] at hsup
    split at hsup
    next k handles rest hst =>
      have hp : r.fetches k = .pending := by simpa using hsup
      have hk := h.newest k (.inr hp)
      refine ⟨h.truthful.raised (hk ▸ .inr hp), ?_⟩
      simp only [Resource.step, Resource.runCleanup, hst, Option.some.injEq] at hs
      rw [← hs]
      rfl
    · cases hsup
  | _ => cases hsup

theorem Superseding.stays (h : r.Superseding) (hop : isInput op = true) (hs : r.step op = some q)
    (hsup : r.supersedes op = false) (hl : r.loading = true) : q.loading = true := by
  unfold Resource.step at hs
  split at hs
  all_goals try cases hs
  all_goals try cases hop
  next => exact (schedule_frame r).2.2.1.trans hl
  next =>
    split at hs <;> cases hs
    exact (runScheduled_frame { r with jobs := r.jobs - 1 }).2.2.1.trans hl
  next =>
    unfold Resource.openWindow
    split <;> exact hl
  next =>
    unfold Resource.runCleanup at hs
    split at hs
    next k handles rest hst =>
      simp [supersedes, hst, h.pending_of_loading hst hl] at hsup
    next k handles rest hst =>
      have hdisposed := h.sound.disposing (k :: handles) (by simp [hst])
      simp [h.alive] at hdisposed
    · cases hs
  next => split <;> exact hl
  next => rfl
  next => exact hl
  next => simpa [addCleanup, h.alive] using hl
  next => exact (finishRun_frame r _).2.2.1.trans hl
  next =>
    split at hs <;> cases hs
    exact hl
  next => exact hl

end Superseding

end Resource

namespace Spectator

variable {T : Type} {s t u : Spectator T} {l : List Bool} {c : ℕ}

/-- The effect has not run, and no fetch has been superseded. -/
structure Still (l : List Bool) (c : ℕ) (u : Spectator T) : Prop where
  superseded : u.superseded = c
  looks : u.looks = l
  state : u.state = .clean
  scheduled : u.scheduled = false
  loading : u.resource.loading = true

/-- A fetch has been superseded, and the effect runs again, or has. -/
structure Woken (l : List Bool) (c : ℕ) (u : Spectator T) : Prop where
  superseded : c < u.superseded
  looks : l.length ≤ u.looks.length
  due : u.state = .dirty ∧ u.scheduled = true ∨ l.length < u.looks.length

structure Attends (l : List Bool) (c : ℕ) (u : Spectator T) : Prop where
  fetch : u.resource.Superseding
  subscribed : u.subscribed = true
  phase : u.Still l c ∨ u.Woken l c

section Attends

theorem raise_dirty (s : State) : s.raise .dirty = .dirty := by
  cases s <;> rfl

theorem Still.advance (h : s.Still l c) (hf : s.resource.Superseding) (hsub : s.subscribed = true)
    {op : ResourceOp T} {r : Resource T} (hop : Resource.isInput op = true)
    (hr : s.resource.step op = some r) :
    (s.advance r (s.superseded + if s.resource.supersedes op then 1 else 0)).Still l c ∨
      (s.advance r (s.superseded + if s.resource.supersedes op then 1 else 0)).Woken l c := by
  cases hsup : s.resource.supersedes op with
  | true =>
    obtain ⟨hup, hdown⟩ := hf.lowers hr hsup
    right
    simp only [Spectator.advance, hup, hdown, hsub, mark, raise_dirty, ne_eq, Bool.false_eq_true,
      not_false_eq_true, and_self, if_true]
    exact ⟨by simp [h.superseded], by simp [h.looks], .inl ⟨rfl, rfl⟩⟩
  | false =>
    have hup := hf.stays hop hr hsup h.loading
    left
    simp only [Spectator.advance, hup, h.loading, ne_eq, not_true, false_and, if_false]
    exact ⟨by simp [h.superseded], h.looks, h.state, h.scheduled, hup⟩

theorem Woken.advance (h : s.Woken l c) (r : Resource T) (m : ℕ) :
    (s.advance r (s.superseded + m)).Woken l c := by
  have hm := Nat.lt_add_right m h.superseded
  unfold Spectator.advance mark
  dsimp only
  split
  · exact ⟨hm, h.looks, .inl ⟨raise_dirty _, rfl⟩⟩
  · exact ⟨hm, h.looks, h.due⟩

theorem Woken.look (h : s.Woken l c) : s.look.Woken l c := by
  unfold Spectator.look
  dsimp only
  split
  next hc =>
    refine ⟨h.superseded, h.looks, .inr (h.due.resolve_left fun hd => ?_)⟩
    simp [hd.1] at hc
  · have hle := h.looks
    refine ⟨h.superseded, ?_, .inr ?_⟩ <;> simp only [List.length_cons] <;> omega

theorem Attends.step {op : SpectatorOp T} (h : s.Attends l c) (hin : s.isInput op = true)
    (hs : s.step op = some t) : t.Attends l c := by
  cases op with
  | fetch op =>
    obtain ⟨r, hr, rfl⟩ := step_fetch hs
    obtain ⟨hp, hop⟩ := Bool.and_eq_true_iff.mp hin
    have hf := h.fetch.step hp hop hr
    refine ⟨?_, ?_, h.phase.elim (fun hw => hw.advance h.fetch h.subscribed hop hr) fun hw =>
      .inr (hw.advance r _)⟩
    · unfold advance
      dsimp only
      split <;> exact hf
    · unfold advance
      dsimp only
      split <;> exact h.subscribed
  | look =>
    obtain ⟨hq, rfl⟩ := step_look hs
    refine ⟨?_, ?_, h.phase.elim (fun hw => ?_) fun hw => .inr hw.look⟩
    · unfold look
      dsimp only
      split <;> exact h.fetch
    · unfold look
      dsimp only
      split
      · exact h.subscribed
      · rfl
    · simp [hw.scheduled] at hq

end Attends

/-- While a fetch is in flight the effect that reads the flag runs again exactly if one has been
superseded, though the flag is up before and after. -/
theorem supersession_reruns_observers (h : s.Reached) (hs : s.Settled) (hlook : s.looks ≠ [])
    (hl : s.resource.loading = true)
    (hf : s.resource.fetches s.resource.generation = .pending)
    (hrun : Runs.Reaches step (fun u op => u.isInput op = true) s t) (ht : t.Settled) :
    t.resource.loading = true ∧ (t.looks = s.looks ↔ t.superseded = s.superseded) := by
  have htended := h.tended
  have hstart : s.Attends s.looks s.superseded := by
    refine ⟨⟨htended.sound, ⟨fun _ => hl, fun _ => .inl (.inr hf)⟩, ?_, ?_, ?_, ?_⟩,
      htended.looked hlook, .inl ⟨rfl, rfl, htended.queued hs.2.2, hs.2.2, hl⟩⟩
    · -- a disposed resource has let go of every fetch
      by_contra hd
      have hheld := htended.sound.owned _ hf
      simp [Resource.held, hs.1, htended.sound.released (by simpa using hd)] at hheld
    · exact fun k hk =>
        htended.sound.eq_of_held (htended.sound.inFlight_held hk) (htended.sound.owned _ hf)
    · simp [hs.1]
    · simp [hl]
  have hend := hrun.invariant (Attends s.looks s.superseded) hstart
    fun _ _ _ hP ha hs => hP.step ha hs
  have hup : t.resource.loading = true := by
    by_contra hdown
    obtain ⟨a, ha, -⟩ := hend.fetch.gap (by simpa using hdown)
    simp [ht.1] at ha
  refine ⟨hup, ?_⟩
  rcases hend.phase with hstill | hwoken
  · exact ⟨fun _ => hstill.superseded, fun _ => hstill.looks⟩
  · have hsup := hwoken.superseded
    have hlen := hwoken.due.resolve_left fun hd => by simp [ht.2.2] at hd
    constructor
    · intro heq
      rw [heq] at hlen
      omega
    · intro heq
      omega

/-- The first fetch is in flight, and the effect has seen that. -/
def fetching : List (SpectatorOp ℕ) :=
  [.fetch .flush, .fetch (.verified true), .fetch .enterBody, .fetch .startFetch, .fetch .spawn,
    .fetch .register, .fetch .finishRun, .look]

/-- The input changes, and the next flush runs the driving effect and then its observer. -/
def supersession : List (SpectatorOp ℕ) :=
  [.fetch .invalidate, .fetch .flush, .fetch (.verified true), .fetch .runCleanup,
    .fetch .enterBody, .fetch .startFetch, .fetch .spawn, .fetch .register, .fetch .finishRun, .look]

def cancelledChange : List (SpectatorOp ℕ) :=
  [.fetch .invalidate, .fetch .flush, .fetch (.verified false)]

theorem fetching_reached : (Runs.after step ({} : Spectator ℕ) fetching).Reached :=
  .after (fun (s : Spectator ℕ) op => s.isPolite op) _ .init (by decide +kernel) (by decide +kernel)

theorem settled_of_empty (h : (s.resource.stack.isEmpty && s.resource.jobs = 0 && !s.scheduled) = true) :
    s.Settled := by
  simpa [Settled, and_assoc] using h

theorem cancelled_change_reruns_nobody :
    (Runs.after step (Runs.after step ({} : Spectator ℕ) fetching) cancelledChange).looks =
      [true] := by
  have hrun : Runs.Reaches step (fun u op => u.isInput op = true)
      (Runs.after step ({} : Spectator ℕ) fetching)
      (Runs.after step (Runs.after step ({} : Spectator ℕ) fetching) cancelledChange) :=
    .after (fun (s : Spectator ℕ) op => s.isInput op) _ .init (by decide +kernel) (by decide +kernel)
  have hseen := supersession_reruns_observers fetching_reached
    (settled_of_empty (by decide +kernel)) (by decide +kernel) (by decide +kernel)
    (by decide +kernel) hrun (settled_of_empty (by decide +kernel))
  exact (hseen.2.mpr (by decide +kernel)).trans (by decide +kernel)

/-- The effect reads the same value twice: it was run again between two flushes at the end of
which the flag is up. -/
theorem supersession_is_seen :
    ∃ s t : Spectator ℕ, s.Reached ∧ s.Settled ∧ s.resource.loading = true ∧ s.looks = [true] ∧
      Runs.Reaches step (fun u op => u.isInput op = true) s t ∧ t.Settled ∧
      t.resource.loading = true ∧ t.looks = [true, true] :=
  ⟨Runs.after step {} fetching, Runs.after step (Runs.after step {} fetching) supersession,
    fetching_reached, settled_of_empty (by decide +kernel), by decide +kernel, by decide +kernel,
    .after (fun (s : Spectator ℕ) op => s.isInput op) _ .init (by decide +kernel)
      (by decide +kernel),
    settled_of_empty (by decide +kernel), by decide +kernel, by decide +kernel⟩

end Spectator

end Adaptite

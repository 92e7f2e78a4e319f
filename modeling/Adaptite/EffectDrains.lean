import Adaptite.EffectParts

set_option autoImplicit false

namespace Adaptite

namespace RunFrame

/-- The run has passed `check_divergence`, and its body is still to be entered. -/
def awaits (e : NodeId) : RunFrame → Bool
  | starting i | resetting i _ => i = e
  | _ => false

def isPrelude : RunFrame → Bool
  | verifying _ | starting _ | resetting _ _ => true
  | _ => false

/-- A flush, from its opening to the end of its work. -/
def isFlush : RunFrame → Bool
  | flushOpening | draining _ | externalOpening _ | external => true
  | _ => false

def isLight (f : RunFrame) : Bool := !f.isOpen && !f.isPrelude

variable {f : RunFrame} {e : NodeId}

theorem isLight_iff : f.isLight = true ↔ f.isOpen = false ∧ f.isPrelude = false := by
  simp [isLight]

theorem awaits_of_not_prelude (h : f.isPrelude = false) : f.awaits e = false := by
  cases f <;> first | rfl | cases h

end RunFrame

def EffectCell.runsIn (x : EffectCell) (drainEpoch : ℕ) : ℕ :=
  if x.lastDrainEpoch = some drainEpoch then x.runsThisDrain else 0

theorem EffectCell.countRun_runs (x : EffectCell) (k : ℕ) :
    (x.countRun k).runsThisDrain = x.runsIn k + 1 := by
  unfold EffectCell.countRun EffectCell.runsIn
  dsimp only
  split <;> rfl

theorem EffectCell.runsIn_countRun (x : EffectCell) (k : ℕ) :
    (x.countRun k).runsIn k = x.runsIn k + 1 := by
  rw [← x.countRun_runs]
  exact if_pos rfl

namespace EffectHost

variable {s t u : EffectHost} {e : NodeId} {f : RunFrame} {rest : List RunFrame}

/-- Every run whose body is still to be entered is made from within an open flush. -/
def Grounded : List RunFrame → Prop
  | [] => True
  | f :: rest => (f.isPrelude = true → 0 < rest.countP RunFrame.isOpen) ∧ Grounded rest

def awaiting (s : EffectHost) (e : NodeId) : ℕ := s.stack.countP (RunFrame.awaits e)

structure Counted (s : EffectHost) : Prop where
  depth : s.flush.flushDepth = s.stack.countP RunFrame.isOpen
  grounded : Grounded s.stack
  most : ∀ e, s.entered.count e + s.awaiting e ≤ maxRunsPerFlush
  within : ∀ e x, s.effects e = some x →
    s.entered.count e + s.awaiting e ≤ x.runsIn s.flush.drainEpoch
  attempts : ∀ e x, s.effects e = some x → s.attempted.count e = x.runsIn s.flush.drainEpoch
  epochs : ∀ e x k, s.effects e = some x → x.lastDrainEpoch = some k → k ≤ s.flush.drainEpoch
  known : ∀ e, s.nextNode ≤ e →
    s.effects e = none ∧ s.attempted.count e = 0 ∧ s.entered.count e + s.awaiting e = 0

/-- No run is counted, and no flush is opened or closed; frames may be called. -/
structure Quiet (s t : EffectHost) : Prop where
  depth : t.flush.flushDepth = s.flush.flushDepth
  epoch : t.flush.drainEpoch = s.flush.drainEpoch
  nextNode : t.nextNode = s.nextNode
  entered : t.entered = s.entered
  attempted : t.attempted = s.attempted
  effects : ∀ e y, t.effects e = some y → ∃ x, s.effects e = some x ∧
    y.lastDrainEpoch = x.lastDrainEpoch ∧ y.runsThisDrain = x.runsThisDrain
  stack : ∃ l, t.stack = l ++ s.stack ∧ ∀ f ∈ l, f.isLight = true

section Quiet

theorem Quiet.of_eq (h1 : t.flush.flushDepth = s.flush.flushDepth)
    (h2 : t.flush.drainEpoch = s.flush.drainEpoch) (h3 : t.nextNode = s.nextNode)
    (h4 : t.entered = s.entered) (h5 : t.attempted = s.attempted) (h6 : t.effects = s.effects)
    (h7 : t.stack = s.stack) : s.Quiet t :=
  ⟨h1, h2, h3, h4, h5, fun _ y hy => ⟨y, h6 ▸ hy, rfl, rfl⟩, [], h7, by simp⟩

theorem Quiet.refl (s : EffectHost) : s.Quiet s := .of_eq rfl rfl rfl rfl rfl rfl rfl

theorem Quiet.trans (h : s.Quiet t) (h' : t.Quiet u) : s.Quiet u := by
  refine ⟨h'.depth.trans h.depth, h'.epoch.trans h.epoch, h'.nextNode.trans h.nextNode,
    h'.entered.trans h.entered, h'.attempted.trans h.attempted, fun e z hz => ?_, ?_⟩
  · obtain ⟨y, hy, h1, h2⟩ := h'.effects e z hz
    obtain ⟨x, hx, h3, h4⟩ := h.effects e y hy
    exact ⟨x, hx, h1.trans h3, h2.trans h4⟩
  · obtain ⟨l, hl, hlight⟩ := h.stack
    obtain ⟨m, hm, hlight'⟩ := h'.stack
    refine ⟨m ++ l, by rw [hm, hl, List.append_assoc], fun f hf => ?_⟩
    rcases List.mem_append.mp hf with hf | hf
    · exact hlight' f hf
    · exact hlight f hf

theorem quiet_push (h : f.isLight = true) : s.Quiet (s.push f) :=
  ⟨rfl, rfl, rfl, rfl, rfl, fun _ y hy => ⟨y, hy, rfl, rfl⟩, [f], rfl, by simpa using h⟩

theorem quiet_modify {f : EffectCell → EffectCell}
    (h : ∀ x, (f x).lastDrainEpoch = x.lastDrainEpoch ∧ (f x).runsThisDrain = x.runsThisDrain) :
    s.Quiet (s.modify e f) := by
  refine ⟨rfl, rfl, rfl, rfl, rfl, fun i y hy => ?_, [], rfl, by simp⟩
  rcases modify_eq_some.mp hy with ⟨rfl, x, hx, rfl⟩ | ⟨_, hy⟩
  · exact ⟨x, hx, h x⟩
  · exact ⟨y, hy, rfl, rfl⟩

theorem schedule_depth {J : Type} (f : Flush J) (job : J) :
    (f.schedule job).flushDepth = f.flushDepth ∧ (f.schedule job).drainEpoch = f.drainEpoch := by
  unfold Flush.schedule Flush.ensureFlushScheduled
  split <;> exact ⟨rfl, rfl⟩

theorem quiet_latch (s : EffectHost) (e : NodeId) : s.Quiet (s.latch e) :=
  (quiet_modify (s := s) (e := e) (f := fun x => { x with scheduled := true })
    fun _ => ⟨rfl, rfl⟩).trans (.of_eq rfl rfl rfl rfl rfl rfl rfl)

theorem quiet_unlatch (s : EffectHost) (e : NodeId) : s.Quiet (s.unlatch e) := by
  unfold unlatch
  split
  · exact .refl s
  · split
    · exact (quiet_modify (s := s) (e := e) (f := fun x => { x with scheduled := false })
        fun _ => ⟨rfl, rfl⟩).trans (.of_eq rfl rfl rfl rfl rfl rfl rfl)
    · exact .refl s

theorem quiet_handling : Handling Quiet where
  refl := .refl
  trans := .trans
  call _ f hf := quiet_push (by cases f <;> first | rfl | cases hf)
  latch := quiet_latch
  lane _ _ _ _ _ := .of_eq rfl rfl rfl rfl rfl rfl rfl
  job _ _ := .of_eq (schedule_depth _ _).1 (schedule_depth _ _).2 rfl rfl rfl rfl rfl

theorem quiet_raise (s : EffectHost) (e : NodeId) (mark : Mark) : s.Quiet (s.raise e mark) :=
  (quiet_modify (f := fun x => { x with state := x.state.raise mark }) fun _ => ⟨rfl, rfl⟩).trans
    (quiet_handling.schedule _ e)

theorem quiet_deliverMark (s : EffectHost) (e : NodeId) (mark : Mark) :
    s.Quiet (s.deliverMark e mark) := by
  unfold deliverMark
  split
  · exact .refl s
  · split
    · exact quiet_push rfl
    · exact quiet_raise s e mark

theorem quiet_dispose (s : EffectHost) (e : NodeId) : s.Quiet (s.dispose e) := by
  unfold dispose
  split
  · exact .refl s
  · split
    · exact .refl s
    · have hd : s.Quiet (s.modify e fun x => { x with disposed := true }) :=
        quiet_modify fun _ => ⟨rfl, rfl⟩
      dsimp only
      split
      · exact hd.trans (quiet_push rfl)
      · exact (hd.trans (quiet_unlatch _ e)).trans (quiet_push rfl)

theorem quiet_skip (s : EffectHost) : s.Quiet s.skip := by
  unfold skip
  split
  · exact quiet_push rfl
  · exact .refl s

theorem quiet_settle (s : EffectHost) (e : NodeId) : s.Quiet (s.settle e) := by
  unfold settle
  split
  · exact .refl s
  · have hm : s.Quiet (s.modify e fun x => { x with rerunAfterCurrent := false }) :=
      quiet_modify fun _ => ⟨rfl, rfl⟩
    dsimp only
    split
    · exact hm.trans (quiet_handling.schedule _ e)
    · exact hm

end Quiet

section Counted

theorem awaiting_append {l : List RunFrame} (h : t.stack = l ++ s.stack)
    (hl : ∀ f ∈ l, f.isLight = true) : t.awaiting e = s.awaiting e := by
  have hz : l.countP (RunFrame.awaits e) = 0 := by
    refine List.countP_eq_zero.mpr fun f hf => ?_
    rw [RunFrame.awaits_of_not_prelude (RunFrame.isLight_iff.mp (hl f hf)).2]
    exact Bool.false_ne_true
  unfold awaiting
  rw [h, List.countP_append, hz, Nat.zero_add]

theorem countP_open_append {l : List RunFrame} (hl : ∀ f ∈ l, f.isLight = true) :
    (l ++ rest).countP RunFrame.isOpen = rest.countP RunFrame.isOpen := by
  have hz : l.countP RunFrame.isOpen = 0 := by
    refine List.countP_eq_zero.mpr fun f hf => ?_
    rw [(RunFrame.isLight_iff.mp (hl f hf)).1]
    exact Bool.false_ne_true
  rw [List.countP_append, hz, Nat.zero_add]

theorem grounded_append {l : List RunFrame} (h : Grounded rest)
    (hl : ∀ f ∈ l, f.isLight = true) : Grounded (l ++ rest) := by
  induction l with
  | nil => exact h
  | cons f l ih =>
    refine ⟨fun hf => ?_, ih fun f hf => hl f (List.mem_cons_of_mem _ hf)⟩
    rw [(RunFrame.isLight_iff.mp (hl f List.mem_cons_self)).2] at hf
    cases hf

theorem Counted.quiet (h : s.Counted) (hq : s.Quiet t) : t.Counted := by
  obtain ⟨l, hl, hlight⟩ := hq.stack
  have haw : ∀ e, t.awaiting e = s.awaiting e := fun e => awaiting_append hl hlight
  have hruns : ∀ e y, t.effects e = some y → ∃ x, s.effects e = some x ∧
      y.lastDrainEpoch = x.lastDrainEpoch ∧
      y.runsIn t.flush.drainEpoch = x.runsIn s.flush.drainEpoch := by
    intro e y hy
    obtain ⟨x, hx, h1, h2⟩ := hq.effects e y hy
    refine ⟨x, hx, h1, ?_⟩
    unfold EffectCell.runsIn
    rw [h1, h2, hq.epoch]
  refine ⟨?_, ?_, fun e => ?_, fun e y hy => ?_, fun e y hy => ?_, fun e y k hy hk => ?_,
    fun e he => ?_⟩
  · rw [hq.depth, hl, countP_open_append hlight]
    exact h.depth
  · rw [hl]
    exact grounded_append h.grounded hlight
  · rw [hq.entered, haw]
    exact h.most e
  · obtain ⟨x, hx, _, hr⟩ := hruns e y hy
    rw [hq.entered, haw, hr]
    exact h.within e x hx
  · obtain ⟨x, hx, _, hr⟩ := hruns e y hy
    rw [hq.attempted, hr]
    exact h.attempts e x hx
  · obtain ⟨x, hx, h1, _⟩ := hruns e y hy
    rw [hq.epoch]
    exact h.epochs e x k hx (h1 ▸ hk)
  · rw [hq.nextNode] at he
    obtain ⟨h1, h2, h3⟩ := h.known e he
    rw [hq.attempted, hq.entered, haw]
    refine ⟨?_, h2, h3⟩
    cases hy : t.effects e with
    | none => rfl
    | some y =>
      obtain ⟨x, hx, _⟩ := hruns e y hy
      rw [h1] at hx
      cases hx

theorem Counted.pop (h : s.Counted) (hs : s.stack = f :: rest) (ho : f.isOpen = false)
    (unwinding : Bool) : ({ s with stack := rest, unwinding } : EffectHost).Counted := by
  have haw : ∀ e, rest.countP (RunFrame.awaits e) ≤ s.awaiting e := by
    intro e
    unfold awaiting
    rw [hs, List.countP_cons]
    exact Nat.le_add_right _ _
  have hg := h.grounded
  rw [hs] at hg
  refine ⟨?_, hg.2, fun e => ?_, fun e x hx => ?_, h.attempts, h.epochs, fun e he => ?_⟩
  · have := h.depth
    rw [hs, List.countP_cons_of_neg (by simp [ho])] at this
    exact this
  · exact (Nat.add_le_add_left (haw e) _).trans (h.most e)
  · exact (Nat.add_le_add_left (haw e) _).trans (h.within e x hx)
  · obtain ⟨h1, h2, h3⟩ := h.known e he
    refine ⟨h1, h2, Nat.le_zero.mp ?_⟩
    exact (Nat.add_le_add_left (haw e) _).trans h3.le

theorem grounded_awaiting {l : List RunFrame} (h : Grounded l)
    (ho : l.countP RunFrame.isOpen = 0) : l.countP (RunFrame.awaits e) = 0 := by
  induction l with
  | nil => rfl
  | cons f l ih =>
    rw [List.countP_cons] at ho
    have hl : l.countP RunFrame.isOpen = 0 := by omega
    have hp : f.isPrelude = false := by
      cases hf : f.isPrelude with
      | false => rfl
      | true =>
        have := h.1 hf
        omega
    rw [List.countP_cons_of_neg (by simp [RunFrame.awaits_of_not_prelude hp])]
    exact ih h.2 hl

/-- A flush is opened: where it is the outermost one, nothing waits to be entered and
no run is counted in the new epoch. -/
theorem Counted.opened (h : s.Counted) (h1 : t.effects = s.effects) (h2 : t.nextNode = s.nextNode)
    (h3 : t.attempted = s.fresh.attempted) (h4 : t.entered = s.fresh.entered)
    (h5 : t.stack = f :: s.stack) (hp : f.isPrelude = false)
    (h6 : t.flush.flushDepth = s.flush.flushDepth + if f.isOpen then 1 else 0)
    (h7 : t.flush.drainEpoch =
      if s.flush.flushDepth = 0 then s.flush.drainEpoch + 1 else s.flush.drainEpoch) :
    t.Counted := by
  have haw : ∀ e, t.awaiting e = s.awaiting e := by
    intro e
    unfold awaiting
    rw [h5, List.countP_cons_of_neg (by simp [RunFrame.awaits_of_not_prelude hp])]
  have hdepth : t.flush.flushDepth = t.stack.countP RunFrame.isOpen := by
    rw [h6, h5, List.countP_cons, h.depth]
  have hground : Grounded t.stack := by
    rw [h5]
    refine ⟨fun hf => ?_, h.grounded⟩
    rw [hp] at hf
    cases hf
  unfold fresh at h3 h4
  by_cases hz : s.flush.flushDepth = 0
  · rw [if_pos hz] at h3 h4 h7
    have hno : ∀ e, t.awaiting e = 0 := fun e =>
      (haw e).trans (grounded_awaiting h.grounded (h.depth ▸ hz))
    have hnew : ∀ e x, t.effects e = some x → x.runsIn t.flush.drainEpoch = 0 := by
      intro e x hx
      rw [h1] at hx
      refine if_neg fun hl => ?_
      have := h.epochs e x _ hx hl
      omega
    refine ⟨hdepth, hground, fun e => ?_, fun e x hx => ?_, fun e x hx => ?_,
      fun e x k hx hk => ?_, fun e he => ?_⟩
    · rw [h4, hno]
      exact Nat.zero_le _
    · rw [h4, hno]
      exact Nat.zero_le _
    · rw [h3, hnew e x hx]
      rfl
    · rw [h1] at hx
      have := h.epochs e x k hx hk
      omega
    · rw [h2] at he
      rw [h1, h3, h4, hno]
      exact ⟨(h.known e he).1, rfl, rfl⟩
  · rw [if_neg hz] at h3 h4 h7
    refine ⟨hdepth, hground, fun e => ?_, fun e x hx => ?_, fun e x hx => ?_,
      fun e x k hx hk => ?_, fun e he => ?_⟩
    · rw [h4, haw]
      exact h.most e
    · rw [h4, haw, h7]
      exact h.within e x (h1 ▸ hx)
    · rw [h3, h7]
      exact h.attempts e x (h1 ▸ hx)
    · rw [h7]
      exact h.epochs e x k (h1 ▸ hx) hk
    · rw [h1, h3, h4, haw]
      exact h.known e (h2 ▸ he)

theorem Counted.flushJobs (h : s.Counted) : s.flushJobs.Counted := by
  unfold EffectHost.flushJobs
  split
  · exact h.quiet (.of_eq rfl rfl rfl rfl rfl rfl rfl)
  · have hfresh : s.fresh.effects = s.effects ∧ s.fresh.nextNode = s.nextNode := by
      unfold fresh
      split <;> exact ⟨rfl, rfl⟩
    split
    · exact h.opened hfresh.1 hfresh.2 rfl rfl rfl rfl rfl rfl
    · exact h.opened hfresh.1 hfresh.2 rfl rfl rfl rfl rfl rfl

theorem beginFlush_opened {J : Type} (f : Flush J) :
    f.beginFlush.1.flushDepth = f.flushDepth + 1 ∧
      f.beginFlush.1.drainEpoch =
        if f.flushDepth = 0 then f.drainEpoch + 1 else f.drainEpoch := by
  unfold Flush.beginFlush
  by_cases hz : f.flushDepth = 0
  · rw [if_neg (by omega), if_pos hz]
    exact ⟨rfl, rfl⟩
  · rw [if_pos (by omega), if_neg hz]
    exact ⟨rfl, rfl⟩

theorem beginFlush_depth (s : EffectHost) (run : Option NodeId) :
    (s.beginFlush run).flush.flushDepth = s.flush.flushDepth + 1 := by
  unfold EffectHost.beginFlush
  split <;> exact (beginFlush_opened s.flush).1

theorem Counted.beginFlush (h : s.Counted) (run : Option NodeId) : (s.beginFlush run).Counted := by
  have hfresh : s.fresh.effects = s.effects ∧ s.fresh.nextNode = s.nextNode := by
    unfold fresh
    split <;> exact ⟨rfl, rfl⟩
  have hflush := beginFlush_opened s.flush
  unfold EffectHost.beginFlush
  split
  · exact h.opened hfresh.1 hfresh.2 rfl rfl rfl rfl hflush.1 hflush.2
  · exact h.opened hfresh.1 hfresh.2 rfl rfl rfl rfl hflush.1 hflush.2

/-- An open frame gives its depth back; a closing frame may take its place. -/
theorem Counted.closed (h : s.Counted) (hs : s.stack = f :: rest) (ho : f.isOpen = true)
    (h1 : t.effects = s.effects) (h2 : t.nextNode = s.nextNode) (h3 : t.attempted = s.attempted)
    (h4 : t.entered = s.entered) {l : List RunFrame} (h5 : t.stack = l ++ rest)
    (hl : ∀ f ∈ l, f.isLight = true) (h6 : t.flush.flushDepth = s.flush.flushDepth - 1)
    (h7 : t.flush.drainEpoch = s.flush.drainEpoch) : t.Counted := by
  have hp : f.isPrelude = false := by
    cases f <;> first | rfl | cases ho
  have haw : ∀ e, t.awaiting e = s.awaiting e := by
    intro e
    unfold awaiting
    rw [hs, List.countP_cons_of_neg (by simp [RunFrame.awaits_of_not_prelude hp])]
    exact awaiting_append (s := { s with stack := rest }) h5 hl
  have hg := h.grounded
  rw [hs] at hg
  refine ⟨?_, ?_, fun e => ?_, fun e x hx => ?_, fun e x hx => ?_, fun e x k hx hk => ?_,
    fun e he => ?_⟩
  · have := h.depth
    rw [hs, List.countP_cons_of_pos ho] at this
    rw [h6, h5, countP_open_append hl]
    omega
  · rw [h5]
    exact grounded_append hg.2 hl
  · rw [h4, haw]
    exact h.most e
  · rw [h4, haw, h7]
    exact h.within e x (h1 ▸ hx)
  · rw [h3, h7]
    exact h.attempts e x (h1 ▸ hx)
  · rw [h7]
    exact h.epochs e x k (h1 ▸ hx) hk
  · rw [h1, h3, h4, haw]
    exact h.known e (h2 ▸ he)

theorem rearm_depth {J : Type} (f : Flush J) :
    f.rearm.flushDepth = f.flushDepth ∧ f.rearm.drainEpoch = f.drainEpoch := by
  unfold Flush.rearm Flush.ensureFlushScheduled
  split
  · exact ⟨rfl, rfl⟩
  · split <;> exact ⟨rfl, rfl⟩

theorem Counted.closeDrain (h : s.Counted) (hs : s.stack = f :: rest)
    (ho : f.isOpen = true) (unwound : Bool) : (s.closeDrain rest unwound).Counted := by
  unfold EffectHost.closeDrain
  split
  · exact h.closed hs ho rfl rfl rfl rfl (l := [_]) rfl (by simp [RunFrame.isLight_iff,
      RunFrame.isOpen, RunFrame.isPrelude]) rfl rfl
  · exact h.closed hs ho rfl rfl rfl rfl (l := []) rfl (by simp) (rearm_depth _).1
      (rearm_depth _).2

theorem Counted.endFlush (h : s.Counted) (hs : s.stack = f :: rest)
    (ho : f.isOpen = true) (unwound : Bool) : (s.endFlush rest unwound).Counted := by
  unfold EffectHost.endFlush
  split
  · exact h.closed hs ho rfl rfl rfl rfl (l := [_]) rfl (by simp [RunFrame.isLight_iff,
      RunFrame.isOpen, RunFrame.isPrelude]) rfl rfl
  · exact h.closed hs ho rfl rfl rfl rfl (l := []) rfl (by simp) rfl rfl

theorem Counted.count (h : s.Counted) {x : EffectCell} (hx : s.effects e = some x)
    (unwinding : Bool) :
    ({ s.modify e fun _ => x.countRun s.flush.drainEpoch with
      attempted := e :: s.attempted, unwinding } : EffectHost).Counted := by
  have hcases : ∀ i y, (s.modify e fun _ => x.countRun s.flush.drainEpoch).effects i = some y →
      (i = e ∧ y = x.countRun s.flush.drainEpoch) ∨ (i ≠ e ∧ s.effects i = some y) := by
    intro i y hy
    rcases modify_eq_some.mp hy with ⟨rfl, _, _, rfl⟩ | hy
    · exact .inl ⟨rfl, rfl⟩
    · exact .inr hy
  refine ⟨h.depth, h.grounded, h.most, fun i y hy => ?_, fun i y hy => ?_, fun i y k hy hk => ?_,
    fun i hi => ?_⟩
  · rcases hcases i y hy with ⟨rfl, rfl⟩ | ⟨_, hy⟩
    · exact ((h.within i x hx).trans (Nat.le_succ _)).trans_eq (x.runsIn_countRun _).symm
    · exact h.within i y hy
  · rcases hcases i y hy with ⟨rfl, rfl⟩ | ⟨hne, hy⟩
    · have hcount : (i :: s.attempted).count i = x.runsIn s.flush.drainEpoch + 1 := by
        rw [List.count_cons_self, h.attempts i x hx]
      exact hcount.trans (x.runsIn_countRun _).symm
    · exact (List.count_cons_of_ne (Ne.symm hne)).trans (h.attempts i y hy)
  · rcases hcases i y hy with ⟨rfl, rfl⟩ | ⟨_, hy⟩
    · cases hk
      exact le_refl _
    · exact h.epochs i y k hy hk
  · obtain ⟨h1, h2, h3⟩ := h.known i hi
    have hne : i ≠ e := by
      rintro rfl
      rw [h1] at hx
      cases hx
    refine ⟨?_, ?_, h3⟩
    · change Function.update s.effects e _ i = none
      rw [Function.update_of_ne hne]
      exact h1
    · exact (List.count_cons_of_ne (Ne.symm hne)).trans h2

theorem Counted.await (h : s.Counted) {x : EffectCell} (hx : s.effects e = some x)
    (ho : 0 < s.stack.countP RunFrame.isOpen) (hf : ∀ i, f.awaits i = decide (e = i))
    (hopen : f.isOpen = false) (hw : s.entered.count e + s.awaiting e + 1 ≤
      x.runsIn s.flush.drainEpoch) (hm : x.runsIn s.flush.drainEpoch ≤ maxRunsPerFlush) :
    (s.push f).Counted := by
  have hself : (s.push f).awaiting e = s.awaiting e + 1 :=
    List.countP_cons_of_pos (by simp [hf])
  have hother : ∀ i, i ≠ e → (s.push f).awaiting i = s.awaiting i := fun i hi =>
    List.countP_cons_of_neg (by simp [hf, Ne.symm hi])
  refine ⟨?_, ⟨fun _ => ho, h.grounded⟩, fun i => ?_, fun i y hy => ?_, h.attempts, h.epochs,
    fun i hi => ?_⟩
  · exact h.depth.trans (List.countP_cons_of_neg (by simp [hopen])).symm
  · by_cases hi : i = e
    · subst hi
      rw [hself]
      exact hw.trans hm
    · rw [hother i hi]
      exact h.most i
  · by_cases hi : i = e
    · subst hi
      change s.effects i = some y at hy
      rw [hx] at hy
      cases hy
      rw [hself]
      exact hw
    · rw [hother i hi]
      exact h.within i y hy
  · obtain ⟨h1, h2, h3⟩ := h.known i hi
    have hi : i ≠ e := by
      rintro rfl
      rw [h1] at hx
      cases hx
    rw [hother i hi]
    exact ⟨h1, h2, h3⟩

theorem Counted.attempt (h : s.Counted) (ho : 0 < s.stack.countP RunFrame.isOpen)
    (e : NodeId) : (s.attempt e).Counted := by
  unfold EffectHost.attempt
  cases hx : s.effects e with
  | none => exact h
  | some x =>
    dsimp only
    have hself : ({ s.modify e fun _ => x.countRun s.flush.drainEpoch with
        attempted := e :: s.attempted } : EffectHost).effects e =
          some (x.countRun s.flush.drainEpoch) := by
      change Function.update s.effects e _ e = _
      rw [Function.update_self, hx]
      rfl
    split
    · exact h.count hx true
    · rename_i hm
      rw [x.countRun_runs, ← x.runsIn_countRun] at hm
      have hw : s.entered.count e + s.awaiting e + 1 ≤
          (x.countRun s.flush.drainEpoch).runsIn s.flush.drainEpoch := by
        rw [x.runsIn_countRun]
        exact Nat.succ_le_succ (h.within e x hx)
      split
      · exact (h.count hx s.unwinding).await hself ho (fun i => rfl) rfl hw (not_lt.mp hm)
      · refine ((h.count hx s.unwinding).await (f := .resetting e false) hself ho
          (fun i => rfl) rfl hw (not_lt.mp hm)).quiet ?_
        exact quiet_modify (s := push _ _) fun _ => ⟨rfl, rfl⟩

theorem Counted.runScheduledInner (h : s.Counted) (ho : 0 < s.stack.countP RunFrame.isOpen)
    (e : NodeId) (x : EffectCell) : (s.runScheduledInner e x).Counted := by
  have hu := quiet_unlatch s e
  have hstack : (s.unlatch e).stack = s.stack := by
    unfold unlatch
    split
    · rfl
    · split <;> rfl
  unfold EffectHost.runScheduledInner
  dsimp only
  split
  · exact h.quiet hu
  · split
    · exact h.quiet (hu.trans (quiet_modify fun _ => ⟨rfl, rfl⟩))
    · have hc : ((s.unlatch e).modify e fun x => { x with state := .clean }).Counted :=
        h.quiet (hu.trans (quiet_modify fun _ => ⟨rfl, rfl⟩))
      have ho' : 0 < ((s.unlatch e).modify e
          fun x => { x with state := .clean }).stack.countP RunFrame.isOpen := by
        change 0 < (s.unlatch e).stack.countP RunFrame.isOpen
        rw [hstack]
        exact ho
      split
      · exact hc.attempt ho' e
      · exact ⟨hc.depth.trans (List.countP_cons_of_neg (by simp [RunFrame.isOpen])).symm,
          ⟨fun _ => ho', hc.grounded⟩, hc.most, hc.within, hc.attempts, hc.epochs, hc.known⟩
      · exact hc.quiet (quiet_skip _)

theorem Counted.runScheduled (h : s.Counted) (ho : 0 < s.stack.countP RunFrame.isOpen)
    (e : NodeId) : (s.runScheduled e).Counted := by
  unfold EffectHost.runScheduled
  split
  · exact h
  · split
    · refine (h.quiet (quiet_push rfl)).runScheduledInner ?_ e _
      exact ho.trans_eq (List.countP_cons_of_neg (by simp [RunFrame.isOpen])).symm
    · exact h.runScheduledInner ho e _

theorem Counted.ready (h : s.Counted) (e : NodeId) : (s.ready e).Counted := by
  unfold EffectHost.ready
  split
  · exact h
  · split
    · rename_i hd
      exact h.runScheduled (h.depth ▸ hd) e
    · split
      · exact h.beginFlush _
      · have hb := h.beginFlush (some e)
        refine hb.runScheduled ?_ e
        rw [← hb.depth, beginFlush_depth]
        exact Nat.succ_pos _

theorem Counted.closeWindow (h : s.Counted) (hs : s.stack = f :: rest)
    (ho : f.isOpen = false) (e : NodeId) (reported unwound : Bool) :
    (s.closeWindow rest e reported unwound).Counted := by
  have hq : ∀ (t : EffectHost), t.Counted →
      (t.modify e fun x => { x with running := false }).Counted := fun t ht =>
    ht.quiet (quiet_modify fun _ => ⟨rfl, rfl⟩)
  unfold EffectHost.closeWindow
  dsimp only
  split
  · exact (hq _ (h.pop hs ho false)).quiet (quiet_push (f := .finishing unwound) rfl)
  · exact hq _ (h.pop hs ho unwound)

theorem Counted.afterReset (h : s.Counted) {reported : Bool}
    (hs : s.stack = .resetting e reported :: rest) : (s.afterReset rest e reported).Counted := by
  unfold EffectHost.afterReset
  split
  · exact h
  · split
    · exact h.closeWindow hs rfl e reported false
    · have haw : ∀ i, (e :: s.entered).count i +
          (RunFrame.body e reported :: rest).countP (RunFrame.awaits i) =
            s.entered.count i + s.awaiting i := by
        intro i
        unfold awaiting
        rw [hs, List.countP_cons_of_neg (by simp [RunFrame.awaits])]
        by_cases hi : i = e
        · subst hi
          rw [List.count_cons_self, List.countP_cons_of_pos (by simp [RunFrame.awaits])]
          omega
        · rw [List.count_cons_of_ne (Ne.symm hi), List.countP_cons_of_neg
            (by simp [RunFrame.awaits, Ne.symm hi])]
      have hg := h.grounded
      have hd := h.depth
      rw [hs] at hg hd
      rw [List.countP_cons_of_neg (by simp [RunFrame.isOpen])] at hd
      refine ⟨hd.trans (List.countP_cons_of_neg (by simp [RunFrame.isOpen])).symm,
        ⟨fun hf => absurd hf Bool.false_ne_true, hg.2⟩, fun i => ?_, fun i x hx => ?_, h.attempts, h.epochs,
        fun i hi => ?_⟩
      · exact (haw i).le.trans (h.most i)
      · exact (haw i).le.trans (h.within i x hx)
      · obtain ⟨h1, h2, h3⟩ := h.known i hi
        exact ⟨h1, h2, (haw i).trans h3⟩

/-- The innermost frame is replaced by one that counts for no more. -/
theorem Counted.swap (h : s.Counted) {g : RunFrame} (hs : s.stack = f :: rest)
    (ho : g.isOpen = f.isOpen) (hp : g.isPrelude = true → f.isPrelude = true)
    (ha : ∀ e, g.awaits e = true → f.awaits e = true) (unwinding : Bool) :
    ({ s with stack := g :: rest, unwinding } : EffectHost).Counted := by
  have haw : ∀ e, (g :: rest).countP (RunFrame.awaits e) ≤ s.awaiting e := by
    intro e
    unfold awaiting
    rw [hs, List.countP_cons, List.countP_cons]
    have := ha e
    cases hn : g.awaits e <;> simp_all
  have hg := h.grounded
  have hd := h.depth
  rw [hs] at hg hd
  refine ⟨?_, ⟨fun hn => hg.1 (hp hn), hg.2⟩, fun e => ?_, fun e x hx => ?_, h.attempts, h.epochs,
    fun e he => ?_⟩
  · refine hd.trans ?_
    rw [List.countP_cons, List.countP_cons, ho]
  · exact (Nat.add_le_add_left (haw e) _).trans (h.most e)
  · exact (Nat.add_le_add_left (haw e) _).trans (h.within e x hx)
  · obtain ⟨h1, h2, h3⟩ := h.known e he
    exact ⟨h1, h2, Nat.le_zero.mp ((Nat.add_le_add_left (haw e) _).trans h3.le)⟩

/-- The frame of a flush that has been reported takes its depth. -/
theorem Counted.enterDrain (h : s.Counted) (hs : s.stack = f :: rest)
    (ho : f.isOpen = false) :
    ({ s with flush := s.flush.enterDrain, stack := .draining false :: rest } :
      EffectHost).Counted := by
  have hpop : ({ s with stack := rest } : EffectHost).Counted := h.pop hs ho s.unwinding
  refine ⟨?_, ⟨fun hn => absurd hn Bool.false_ne_true, hpop.grounded⟩, fun e => ?_, fun e x hx => ?_,
    hpop.attempts, hpop.epochs, fun e he => ?_⟩
  · have := hpop.depth
    change s.flush.flushDepth + 1 = _
    rw [List.countP_cons_of_pos rfl]
    exact congrArg (· + 1) this
  · exact hpop.most e
  · exact hpop.within e x hx
  · exact hpop.known e he

theorem Counted.finish (h : s.Counted) {changed : Bool} (ht : s.finish changed = some t) :
    t.Counted := by
  have light : ∀ {f : RunFrame} {rest : List RunFrame}, s.stack = f :: rest →
      f.isOpen = false → ({ s with stack := rest } : EffectHost).Counted := fun hs ho =>
    h.pop hs ho s.unwinding
  unfold EffectHost.finish at ht
  split at ht <;> rename_i hs <;> try (injection ht with ht; subst ht)
  · exact h.enterDrain hs rfl
  · exact h.swap (g := .draining false) hs rfl (fun hn => hn) (fun _ hn => hn) s.unwinding
  · exact (h.pop hs rfl s.unwinding).quiet
      (.of_eq (rearm_depth _).1 (rearm_depth _).2 rfl rfl rfl rfl rfl)
  · exact h.swap (g := .external) hs rfl (fun hn => hn) (fun _ hn => hn) s.unwinding
  · refine Counted.runScheduled (h.swap (g := .external) hs rfl (fun hn => hn)
      (fun _ hn => hn) s.unwinding) ?_ _
    rw [List.countP_cons_of_pos rfl]
    exact Nat.succ_pos _
  · exact h.endFlush hs rfl false
  · exact h.pop hs rfl _
  · exact h.pop hs rfl _
  · exact (light hs rfl).quiet (quiet_raise _ _ _)
  · exact (light hs rfl).quiet (quiet_handling.handOver _ _)
  · exact light hs rfl
  · exact light hs rfl
  · exact light hs rfl
  · exact light hs rfl
  · rename_i e rest
    have hg := h.grounded
    rw [hs] at hg
    unfold EffectHost.verified
    split
    · exact light hs rfl
    · split
      · exact light hs rfl
      · split
        · exact (light hs rfl).attempt (hg.1 rfl) e
        · exact (light hs rfl).quiet (quiet_skip _)
  · rename_i e rest
    exact (h.swap (g := .resetting e true) hs rfl (fun hn => hn) (fun _ hn => hn)
      s.unwinding).quiet (quiet_modify fun _ => ⟨rfl, rfl⟩)
  · exact h.afterReset hs
  · rename_i e reported rest
    exact (h.swap (g := .settling e reported) hs rfl (fun hn => hn) (fun _ hn => hn)
      s.unwinding).quiet (quiet_settle _ e)
  · rename_i e rest
    exact (h.swap (g := .tearing e) hs rfl (fun hn => hn) (fun _ hn => hn)
      s.unwinding).quiet (quiet_unlatch _ e)
  · exact (light hs rfl).quiet (quiet_modify fun _ => ⟨rfl, rfl⟩)
  · exact h.pop hs rfl _
  · cases ht

theorem popJob_depth {J : Type} {f f' : Flush J} {job : J} (h : f.popJob = some (job, f')) :
    f'.flushDepth = f.flushDepth ∧ f'.drainEpoch = f.drainEpoch := by
  unfold Flush.popJob at h
  split at h
  · cases h
  · injection h with h
    injection h with _ h
    subst h
    exact ⟨rfl, rfl⟩

theorem Counted.next (h : s.Counted) (ht : s.next = some t) : t.Counted := by
  unfold EffectHost.next at ht
  split at ht
  · rename_i rest hs
    cases hp : s.flush.popJob with
    | none =>
      simp only [hp] at ht
      cases ht
      exact h.closeDrain hs rfl false
    | some r =>
      obtain ⟨job, f⟩ := r
      have hd := popJob_depth hp
      cases job with
      | run e =>
        simp only [hp] at ht
        cases ht
        have hf : ({ s with flush := f } : EffectHost).Counted :=
          h.quiet (.of_eq hd.1 hd.2 rfl rfl rfl rfl rfl)
        refine hf.runScheduled ?_ e
        change 0 < s.stack.countP RunFrame.isOpen
        rw [hs, List.countP_cons_of_pos rfl]
        exact Nat.succ_pos _
      | other =>
        simp only [hp] at ht
        cases ht
        refine Counted.quiet (h.swap (g := .draining true) hs rfl (fun hn => hn)
          (fun _ hn => hn) s.unwinding) ?_
        exact .of_eq hd.1 hd.2 rfl rfl rfl rfl rfl
  · rename_i hs
    cases ht
    exact h.pop hs rfl _
  · rename_i hs
    cases ht
    exact h.swap (g := .handling) hs rfl (fun hn => hn) (fun _ hn => hn) _
  · rename_i hs
    cases ht
    exact h.pop hs rfl _
  · rename_i hs
    cases ht
    exact h.closeWindow hs rfl _ _ _
  · cases ht

theorem Counted.recover (h : s.Counted) (hs : s.stack = .verifying e :: rest) :
    (s.recover rest e).Counted := by
  unfold EffectHost.recover
  split
  · exact h.pop hs rfl _
  · split
    · exact h.pop hs rfl _
    · refine Counted.quiet ?_ (quiet_handling.schedule _ e)
      exact (h.swap (g := .recovering) hs rfl (fun hn => absurd hn Bool.false_ne_true)
        (fun _ hn => absurd hn Bool.false_ne_true) false).quiet
          (quiet_modify fun _ => ⟨rfl, rfl⟩)

theorem Counted.unwind (h : s.Counted) (ht : s.unwind = some t) : t.Counted := by
  unfold EffectHost.unwind at ht
  split at ht <;> rename_i hs <;> try (injection ht with ht; subst ht)
  · exact h.closeDrain hs rfl true
  · split at ht
    · cases ht
      exact (h.pop hs rfl s.unwinding).quiet
        (.of_eq (rearm_depth _).1 (rearm_depth _).2 rfl rfl rfl rfl rfl)
    · cases ht
      exact h.pop hs rfl _
  · exact h.endFlush hs rfl true
  · exact h.endFlush hs rfl true
  · exact h.pop hs rfl _
  · exact (h.swap (g := .caught) hs rfl (fun hn => hn) (fun _ hn => hn) false).quiet
      (quiet_dispose _ _)
  · exact h.recover hs
  · exact h.closeWindow hs rfl _ _ _
  · exact h.closeWindow hs rfl _ _ _
  · exact h.closeWindow hs rfl _ _ _
  · split at ht
    · cases ht
    · cases ht
      exact h.pop hs rfl _
  · exact Counted.quiet (h.pop hs rfl s.unwinding) (quiet_modify fun _ => ⟨rfl, rfl⟩)
  · cases ht
  · cases ht
  · cases ht
  · rename_i f rest _ _ _ _ _ _ _ _ _ _ _ _ _ _
    refine h.pop hs ?_ s.unwinding
    cases f <;> first | rfl | simp_all

theorem Counted.newEffect (h : s.Counted) (external boundary : Bool) :
    (s.newEffect external boundary).Counted := by
  refine Counted.quiet ?_ (quiet_handling.schedule _ _)
  have hcases : ∀ i y, Function.update s.effects s.nextNode
      (some ({ external, boundary } : EffectCell)) i = some y →
        (i = s.nextNode ∧ y.lastDrainEpoch = none) ∨ s.effects i = some y := by
    intro i y hy
    by_cases hi : i = s.nextNode
    · subst hi
      rw [Function.update_self] at hy
      cases hy
      exact .inl ⟨rfl, rfl⟩
    · rw [Function.update_of_ne hi] at hy
      exact .inr hy
  have hzero : ∀ y : EffectCell, y.lastDrainEpoch = none → y.runsIn s.flush.drainEpoch = 0 := by
    intro y hy
    unfold EffectCell.runsIn
    rw [hy]
    rfl
  obtain ⟨-, h2, h3⟩ := h.known s.nextNode (le_refl _)
  refine ⟨h.depth, h.grounded, h.most, fun i y hy => ?_, fun i y hy => ?_, fun i y k hy hk => ?_,
    fun i hi => ?_⟩
  · rcases hcases i y hy with ⟨rfl, hn⟩ | hy
    · exact h3.le.trans (Nat.zero_le _)
    · exact h.within i y hy
  · rcases hcases i y hy with ⟨rfl, hn⟩ | hy
    · exact h2.trans (hzero y hn).symm
    · exact h.attempts i y hy
  · rcases hcases i y hy with ⟨rfl, hn⟩ | hy
    · rw [hn] at hk
      cases hk
    · exact h.epochs i y k hy hk
  · have hi : s.nextNode + 1 ≤ i := hi
    have hne : i ≠ s.nextNode := by omega
    refine ⟨?_, (h.known i (by omega)).2⟩
    change Function.update s.effects s.nextNode _ i = none
    rw [Function.update_of_ne hne]
    exact (h.known i (by omega)).1

theorem Counted.release (h : s.Counted) (e : NodeId) :
    ({ s with effects := Function.update s.effects e none } : EffectHost).Counted := by
  refine h.quiet ⟨rfl, rfl, rfl, rfl, rfl, fun i y hy => ?_, [], rfl, by simp⟩
  change Function.update s.effects e none i = some y at hy
  by_cases hi : i = e
  · subst hi
    rw [Function.update_self] at hy
    cases hy
  · rw [Function.update_of_ne hi] at hy
    exact ⟨y, hy, rfl, rfl⟩

theorem Counted.step (h : s.Counted) (op : EffectOp) (ht : s.step op = some t) : t.Counted := by
  cases op <;> simp only [EffectHost.step] at ht <;> split at ht <;> try cases ht
  case effect => exact h.newEffect _ _
  case mark => exact h.quiet (quiet_deliverMark _ _ _)
  case schedule =>
    exact h.quiet (.of_eq (schedule_depth _ _).1 (schedule_depth _ _).2 rfl rfl rfl rfl rfl)
  case flushNow => exact h.flushJobs
  case microtask =>
    have hm : ({ s with flush := s.flush.takeMicrotask } : EffectHost).Counted :=
      h.quiet (.of_eq rfl rfl rfl rfl rfl rfl rfl)
    exact hm.flushJobs
  case externalFlush => exact h.beginFlush none
  case run e _ =>
    have hl : ({ s with lane := s.lane.erase e } : EffectHost).Counted :=
      h.quiet (.of_eq rfl rfl rfl rfl rfl rfl rfl)
    exact hl.ready e
  case discard e _ =>
    have hl : ({ s with lane := s.lane.erase e } : EffectHost).Counted :=
      h.quiet (.of_eq rfl rfl rfl rfl rfl rfl rfl)
    exact hl.quiet (quiet_unlatch _ e)
  case dispose => exact h.quiet (quiet_dispose _ _)
  case release => exact h.release _
  case diagnostics => exact h.quiet (.of_eq rfl rfl rfl rfl rfl rfl rfl)
  case finish => exact h.finish ht
  case next => exact h.next ht
  case panic => exact h.quiet (.of_eq rfl rfl rfl rfl rfl rfl rfl)
  case catchUnwind => exact h.quiet (.of_eq rfl rfl rfl rfl rfl rfl rfl)
  case destroy =>
    exact Counted.quiet (h.quiet (quiet_push (f := .dropping) rfl))
      (.of_eq rfl rfl rfl rfl rfl rfl rfl)
  case unwind => exact h.unwind ht

end Counted

section Traced

structure Same (s t : EffectHost) : Prop where
  epoch : t.flush.drainEpoch = s.flush.drainEpoch
  attempted : t.attempted = s.attempted
  entered : t.entered = s.entered
  awaiting : ∀ e, t.awaiting e ≤ s.awaiting e

/-- An outermost flush is opened, in which no body has been entered yet. -/
def Opens (s t : EffectHost) : Prop :=
  s.flush.flushDepth = 0 ∧ (t.attempted.length ≤ 1 ∧ t.entered = []) ∧
    ∃ (l : List RunFrame) (f : RunFrame), f.isFlush = true ∧
      t.stack = l ++ f :: s.stack

/-- An attempt to run `e`, which panics if it is one too many for the drain. -/
def Attempts (s t : EffectHost) (e : NodeId) : Prop :=
  t.attempted = e :: s.attempted ∧ (maxRunsPerFlush ≤ s.attempted.count e →
    t.unwinding = true ∧ t.entered = s.entered ∧ ∀ i, t.awaiting i ≤ s.awaiting i)

/-- The epoch and the attempts after a step that opens no flush. -/
def Within (s t : EffectHost) : Prop :=
  t.flush.drainEpoch = s.flush.drainEpoch ∧ (t.attempted = s.attempted ∨ ∃ e, s.Attempts t e)

theorem Quiet.same (h : s.Quiet t) : s.Same t := by
  obtain ⟨l, hl, hlight⟩ := h.stack
  exact ⟨h.epoch, h.attempted, h.entered, fun e => (awaiting_append hl hlight).le⟩

theorem Same.within (h : s.Same t) : s.Within t := ⟨h.epoch, .inl h.attempted⟩

theorem Within.after (h : s.Same t) (h' : t.Within u) : s.Within u := by
  refine ⟨h'.1.trans h.epoch, ?_⟩
  rcases h'.2 with ha | ⟨e, ha, hrefused⟩
  · exact .inl (ha.trans h.attempted)
  · refine .inr ⟨e, h.attempted ▸ ha, fun hm => ?_⟩
    obtain ⟨h1, h2, h3⟩ := hrefused (h.attempted ▸ hm)
    exact ⟨h1, h2.trans h.entered, fun i => (h3 i).trans (h.awaiting i)⟩

theorem same_pop (hs : s.stack = f :: rest) (unwinding : Bool) :
    s.Same { s with stack := rest, unwinding } := by
  refine ⟨rfl, rfl, rfl, fun e => ?_⟩
  unfold awaiting
  rw [hs, List.countP_cons]
  exact Nat.le_add_right _ _

theorem Counted.within_attempt (h : s.Counted) (e : NodeId) : s.Within (s.attempt e) := by
  unfold EffectHost.attempt
  cases hx : s.effects e with
  | none => exact ⟨rfl, .inl rfl⟩
  | some x =>
    dsimp only
    split
    · exact ⟨rfl, .inr ⟨e, rfl, fun _ => ⟨rfl, rfl, fun _ => le_refl _⟩⟩⟩
    · rename_i hm
      have hfew : ¬ maxRunsPerFlush ≤ s.attempted.count e := by
        rw [x.countRun_runs] at hm
        rw [h.attempts e x hx]
        omega
      split
      · exact ⟨rfl, .inr ⟨e, rfl, fun hmany => absurd hmany hfew⟩⟩
      · exact ⟨rfl, .inr ⟨e, rfl, fun hmany => absurd hmany hfew⟩⟩

theorem Counted.within_runScheduledInner (h : s.Counted) (e : NodeId) (x : EffectCell) :
    s.Within (s.runScheduledInner e x) := by
  have hu := quiet_unlatch s e
  unfold EffectHost.runScheduledInner
  dsimp only
  split
  · exact hu.same.within
  · split
    · exact ⟨hu.epoch, .inl hu.attempted⟩
    · have hq : s.Quiet ((s.unlatch e).modify e fun x => { x with state := .clean }) :=
        hu.trans (quiet_modify fun _ => ⟨rfl, rfl⟩)
      split
      · exact .after hq.same ((h.quiet hq).within_attempt e)
      · refine .after hq.same ⟨rfl, .inl rfl⟩
      · exact (hq.trans (quiet_skip _)).same.within

theorem Counted.within_runScheduled (h : s.Counted) (e : NodeId) :
    s.Within (s.runScheduled e) := by
  unfold EffectHost.runScheduled
  split
  · exact ⟨rfl, .inl rfl⟩
  · split
    · have hq : s.Quiet (s.push (.catching e)) := quiet_push rfl
      exact .after hq.same ((h.quiet hq).within_runScheduledInner e _)
    · exact h.within_runScheduledInner e _

theorem within_closeWindow (rest : List RunFrame) (e : NodeId) (reported unwound : Bool) :
    s.Within (s.closeWindow rest e reported unwound) := by
  unfold closeWindow
  dsimp only
  split
  · exact ⟨rfl, .inl rfl⟩
  · exact ⟨rfl, .inl rfl⟩

theorem within_endFlush (rest : List RunFrame) (unwound : Bool) :
    s.Within (s.endFlush rest unwound) := by
  unfold endFlush
  split <;> exact ⟨rfl, .inl rfl⟩

theorem within_closeDrain (rest : List RunFrame) (unwound : Bool) :
    s.Within (s.closeDrain rest unwound) := by
  unfold closeDrain
  split
  · exact ⟨rfl, .inl rfl⟩
  · exact ⟨(rearm_depth _).2, .inl rfl⟩

theorem Counted.within_finish (h : s.Counted) {changed : Bool} (ht : s.finish changed = some t) :
    s.Within t := by
  unfold EffectHost.finish at ht
  split at ht <;> rename_i hs <;> try (injection ht with ht; subst ht)
  · exact ⟨rfl, .inl rfl⟩
  · exact ⟨rfl, .inl rfl⟩
  · exact ⟨(rearm_depth _).2, .inl rfl⟩
  · exact ⟨rfl, .inl rfl⟩
  · rename_i e rest
    have hswap : ({ s with stack := .external :: rest } : EffectHost).Counted :=
      h.swap (g := .external) hs rfl (fun hn => hn) (fun _ hn => hn) s.unwinding
    have hsame : s.Same { s with stack := .external :: rest } := by
      refine ⟨rfl, rfl, rfl, fun i => ?_⟩
      unfold awaiting
      rw [hs, List.countP_cons_of_neg (by simp [RunFrame.awaits]),
        List.countP_cons_of_neg (by simp [RunFrame.awaits])]
    exact .after hsame (hswap.within_runScheduled e)
  · exact within_endFlush _ _
  · exact ⟨rfl, .inl rfl⟩
  · exact ⟨rfl, .inl rfl⟩
  · exact .after (same_pop hs _) (quiet_raise _ _ _).same.within
  · exact .after (same_pop hs _) (quiet_handling.handOver _ _).same.within
  · exact ⟨rfl, .inl rfl⟩
  · exact ⟨rfl, .inl rfl⟩
  · exact ⟨rfl, .inl rfl⟩
  · exact ⟨rfl, .inl rfl⟩
  · refine .after (same_pop hs s.unwinding) ?_
    unfold EffectHost.verified
    split
    · exact ⟨rfl, .inl rfl⟩
    · split
      · exact ⟨rfl, .inl rfl⟩
      · split
        · exact Counted.within_attempt (h.pop hs rfl s.unwinding) _
        · exact (quiet_skip _).same.within
  · exact ⟨rfl, .inl rfl⟩
  · unfold EffectHost.afterReset
    split
    · exact ⟨rfl, .inl rfl⟩
    · split
      · exact within_closeWindow _ _ _ _
      · exact ⟨rfl, .inl rfl⟩
  · exact ⟨(quiet_settle _ _).epoch, .inl (quiet_settle _ _).attempted⟩
  · exact ⟨(quiet_unlatch _ _).epoch, .inl (quiet_unlatch _ _).attempted⟩
  · exact ⟨rfl, .inl rfl⟩
  · exact ⟨rfl, .inl rfl⟩
  · cases ht

theorem Counted.within_next (h : s.Counted) (ht : s.next = some t) : s.Within t := by
  unfold EffectHost.next at ht
  split at ht
  · rename_i rest hs
    cases hp : s.flush.popJob with
    | none =>
      simp only [hp] at ht
      cases ht
      exact within_closeDrain _ _
    | some r =>
      obtain ⟨job, f⟩ := r
      have hd := popJob_depth hp
      cases job with
      | run e =>
        simp only [hp] at ht
        cases ht
        have hq : s.Quiet { s with flush := f } := .of_eq hd.1 hd.2 rfl rfl rfl rfl rfl
        exact .after hq.same ((h.quiet hq).within_runScheduled e)
      | other =>
        simp only [hp] at ht
        cases ht
        exact ⟨hd.2, .inl rfl⟩
  · cases ht; exact ⟨rfl, .inl rfl⟩
  · cases ht; exact ⟨rfl, .inl rfl⟩
  · cases ht; exact ⟨rfl, .inl rfl⟩
  · cases ht; exact within_closeWindow _ _ _ _
  · cases ht

theorem within_unwind (ht : s.unwind = some t) : s.Within t := by
  unfold EffectHost.unwind at ht
  split at ht <;> try (injection ht with ht; subst ht)
  · exact within_closeDrain _ _
  · split at ht
    · cases ht
      exact ⟨(rearm_depth _).2, .inl rfl⟩
    · cases ht
      exact ⟨rfl, .inl rfl⟩
  · exact within_endFlush _ _
  · exact within_endFlush _ _
  · exact ⟨rfl, .inl rfl⟩
  · exact ⟨(quiet_dispose _ _).epoch, .inl (quiet_dispose _ _).attempted⟩
  · unfold EffectHost.recover
    split
    · exact ⟨rfl, .inl rfl⟩
    · split
      · exact ⟨rfl, .inl rfl⟩
      · exact ⟨(quiet_handling.schedule _ _).epoch, .inl (quiet_handling.schedule _ _).attempted⟩
  · exact within_closeWindow _ _ _ _
  · exact within_closeWindow _ _ _ _
  · exact within_closeWindow _ _ _ _
  · split at ht
    · cases ht
    · cases ht
      exact ⟨rfl, .inl rfl⟩
  · exact ⟨rfl, .inl rfl⟩
  · cases ht
  · cases ht
  · cases ht
  · exact ⟨rfl, .inl rfl⟩

/-- A run adds frames and at most one attempt; no body is entered at once. -/
structure Grows (s t : EffectHost) : Prop where
  attempted : t.attempted.length ≤ s.attempted.length + 1
  entered : t.entered = s.entered
  stack : ∃ l, t.stack = l ++ s.stack

theorem Grows.after (h : s.Quiet t) (h' : t.Grows u) : s.Grows u := by
  obtain ⟨l, hl, -⟩ := h.stack
  obtain ⟨m, hm⟩ := h'.stack
  exact ⟨h.attempted ▸ h'.attempted, h'.entered.trans h.entered, m ++ l,
    by rw [hm, hl, List.append_assoc]⟩

theorem Quiet.grows (h : s.Quiet t) : s.Grows t :=
  .after h ⟨Nat.le_succ _, rfl, [], rfl⟩

theorem grows_attempt (s : EffectHost) (e : NodeId) : s.Grows (s.attempt e) := by
  unfold attempt
  split
  · exact (Quiet.refl s).grows
  · dsimp only
    split
    · exact ⟨le_refl _, rfl, [], rfl⟩
    · split
      · exact ⟨le_refl _, rfl, [_], rfl⟩
      · exact ⟨le_refl _, rfl, [_], rfl⟩

theorem grows_runScheduled (s : EffectHost) (e : NodeId) : s.Grows (s.runScheduled e) := by
  have inner : ∀ (s : EffectHost) (x : EffectCell), s.Grows (s.runScheduledInner e x) := by
    intro s x
    have hu := quiet_unlatch s e
    unfold runScheduledInner
    dsimp only
    split
    · exact hu.grows
    · split
      · have hm : (s.unlatch e).Quiet
            ((s.unlatch e).modify e fun x => { x with rerunAfterCurrent := true }) :=
          quiet_modify fun _ => ⟨rfl, rfl⟩
        exact (hu.trans hm).grows
      · have hq : s.Quiet ((s.unlatch e).modify e fun x => { x with state := .clean }) :=
          hu.trans (quiet_modify fun _ => ⟨rfl, rfl⟩)
        split
        · exact .after hq (grows_attempt _ e)
        · exact .after hq ⟨Nat.le_succ _, rfl, [_], rfl⟩
        · exact (hq.trans (quiet_skip _)).grows
  unfold runScheduled
  split
  · exact (Quiet.refl s).grows
  · split
    · exact .after (quiet_push rfl) (inner _ _)
    · exact inner s _

theorem Opens.grows (h : s.Opens t) (ha : t.attempted = []) (hg : t.Grows u) : s.Opens u := by
  obtain ⟨l, f, hf, hl⟩ := h.2.2
  obtain ⟨m, hm⟩ := hg.stack
  refine ⟨h.1, ⟨?_, hg.entered.trans h.2.1.2⟩, m ++ l, f, hf,
    by rw [hm, hl, List.append_assoc]⟩
  have := hg.attempted
  rw [ha] at this
  exact this

theorem flushJobs_opens (s : EffectHost) : s.Within s.flushJobs ∨ s.Opens s.flushJobs := by
  unfold flushJobs
  split
  · exact .inl ⟨rfl, .inl rfl⟩
  · unfold fresh
    by_cases hz : s.flush.flushDepth = 0
    · right
      rw [if_pos hz]
      split <;> exact ⟨hz, ⟨Nat.zero_le _, rfl⟩, [], _, rfl, rfl⟩
    · left
      rw [if_neg hz]
      split <;> exact ⟨if_neg hz, .inl rfl⟩

theorem beginFlush_opens (s : EffectHost) (run : Option NodeId) :
    s.Within (s.beginFlush run) ∨ s.Opens (s.beginFlush run) := by
  unfold beginFlush fresh
  by_cases hz : s.flush.flushDepth = 0
  · right
    rw [if_pos hz]
    split <;> exact ⟨hz, ⟨Nat.zero_le _, rfl⟩, [], _, rfl, rfl⟩
  · left
    have hjoin : s.flush.beginFlush = (s.flush.enterDrain, false) :=
      if_pos (Nat.pos_of_ne_zero hz)
    rw [hjoin, if_neg hz]
    exact ⟨rfl, .inl rfl⟩

theorem Counted.opens_step (h : s.Counted) (op : EffectOp) (ht : s.step op = some t) :
    s.Within t ∨ s.Opens t := by
  cases op <;> simp only [EffectHost.step] at ht <;> split at ht <;> try cases ht
  case effect =>
    exact .inl ⟨(quiet_handling.schedule _ _).epoch, .inl (quiet_handling.schedule _ _).attempted⟩
  case mark => exact .inl (quiet_deliverMark _ _ _).same.within
  case schedule => exact .inl ⟨(schedule_depth _ _).2, .inl rfl⟩
  case flushNow => exact flushJobs_opens s
  case microtask =>
    exact flushJobs_opens { s with flush := s.flush.takeMicrotask }
  case externalFlush => exact beginFlush_opens s none
  case run e _ =>
    have hq : s.Quiet { s with lane := s.lane.erase e } := .of_eq rfl rfl rfl rfl rfl rfl rfl
    unfold EffectHost.ready
    split
    · exact .inl hq.same.within
    · split
      · exact .inl (.after hq.same ((h.quiet hq).within_runScheduled e))
      · rename_i hz
        split
        · exact beginFlush_opens { s with lane := s.lane.erase e } (some e)
        · right
          have hz : s.flush.flushDepth = 0 := Nat.eq_zero_of_not_pos hz
          rcases beginFlush_opens { s with lane := s.lane.erase e } (some e) with hw | ho
          · have hdepth := (beginFlush_opened s.flush).2
            rw [if_pos hz] at hdepth
            have := hw.1
            unfold EffectHost.beginFlush at this
            split at this
            · exact absurd (hdepth.symm.trans this) (Nat.succ_ne_self _)
            · exact absurd (hdepth.symm.trans this) (Nat.succ_ne_self _)
          · refine Opens.grows (s := s) ho ?_ (grows_runScheduled _ e)
            unfold EffectHost.beginFlush EffectHost.fresh
            rw [if_pos hz]
            split <;> rfl
  case discard e _ =>
    have hq : s.Quiet { s with lane := s.lane.erase e } := .of_eq rfl rfl rfl rfl rfl rfl rfl
    exact .inl (hq.trans (quiet_unlatch _ e)).same.within
  case dispose => exact .inl (quiet_dispose _ _).same.within
  case release => exact .inl ⟨rfl, .inl rfl⟩
  case diagnostics => exact .inl ⟨rfl, .inl rfl⟩
  case finish => exact .inl (h.within_finish ht)
  case next => exact .inl (h.within_next ht)
  case panic => exact .inl ⟨rfl, .inl rfl⟩
  case catchUnwind => exact .inl ⟨rfl, .inl rfl⟩
  case destroy => exact .inl ⟨rfl, .inl rfl⟩
  case unwind => exact .inl (within_unwind ht)

end Traced

def Reached (s : EffectHost) : Prop := Runs.Reaches step (fun _ _ => true = true) {} s

theorem counted_empty : ({} : EffectHost).Counted where
  depth := rfl
  grounded := trivial
  most _ := Nat.zero_le _
  within _ _ hx := by cases hx
  attempts _ _ hx := by cases hx
  epochs _ _ _ hx := by cases hx
  known _ _ := ⟨rfl, rfl, rfl⟩

theorem Reached.counted (h : s.Reached) : s.Counted :=
  h.invariant Counted counted_empty fun _ op _ hc _ ht => hc.step op ht

/-- However flushes, runs of effects and panics are nested: no body is entered more than
a hundred times between two openings of an outermost flush, and one more attempt panics
and enters nothing; the drain epoch changes only where an outermost flush is opened; the
depth is the number of open frames, so it is back where it was whenever the stack is. -/
theorem divergence_guard_bounds_a_drain (s : EffectHost) (h : s.Reached) :
    (∀ e, s.entered.count e ≤ maxRunsPerFlush) ∧
      s.flush.flushDepth = s.stack.countP RunFrame.isOpen ∧
      (∀ op t, s.step op = some t →
        (t.flush.drainEpoch ≠ s.flush.drainEpoch → s.Opens t) ∧
        ∀ e, t.attempted = e :: s.attempted → maxRunsPerFlush ≤ s.attempted.count e →
          t.unwinding = true ∧ t.entered = s.entered ∧ ∀ i, t.awaiting i ≤ s.awaiting i) ∧
      ∀ t, Runs.Reaches step (fun _ _ => true = true) s t → t.stack = s.stack →
        t.flush.flushDepth = s.flush.flushDepth := by
  have hc := h.counted
  refine ⟨fun e => (Nat.le_add_right _ _).trans (hc.most e), hc.depth, fun op t ht => ⟨?_, ?_⟩,
    fun t ht hs => ?_⟩
  · intro hne
    rcases hc.opens_step op ht with hw | ho
    · exact absurd hw.1 hne
    · exact ho
  · intro e ha hm
    rcases hc.opens_step op ht with ⟨-, hsame | ⟨i, hi, hrefused⟩⟩ | ho
    · rw [hsame] at ha
      exact absurd ha (List.cons_ne_self e s.attempted).symm
    · rw [ha] at hi
      cases hi
      exact hrefused hm
    · have hlen := ho.2.1.1
      rw [ha] at hlen
      have hnil : s.attempted = [] := List.length_eq_zero_iff.mp (by simpa using hlen)
      rw [hnil, List.count_nil] at hm
      exact absurd hm (by decide)
  · have ht : t.Counted := ht.invariant Counted hc fun _ op _ hc _ ht => hc.step op ht
    rw [ht.depth, hc.depth, hs]

/-- A body that opens a flush of its own, and unwinds from it. -/
theorem nested_flush_in_a_body : ∃ s t : EffectHost, s.entered = [1] ∧ s.flush.flushDepth = 2 ∧
    s.flush.flushDepth = s.stack.countP RunFrame.isOpen ∧ s.entered.count 1 ≤ maxRunsPerFlush ∧
    t.unwinding = true ∧ t.flush.flushDepth = 1 ∧
    t.flush.flushDepth = t.stack.countP RunFrame.isOpen := by
  let ops : List EffectOp := [.effect false false, .flushNow, .next, .finish false, .externalFlush]
  let s := (Runs.run step {} ops).getD {}
  let t := (Runs.run step s [.panic, .unwind]).getD {}
  have hs : s.Reached := Runs.Reaches.run (fun _ _ => true) ops .init rfl rfl
  have ht : t.Reached := Runs.Reaches.run (fun _ _ => true) [.panic, .unwind] hs rfl rfl
  exact ⟨s, t, rfl, rfl, (divergence_guard_bounds_a_drain s hs).2.1,
    (divergence_guard_bounds_a_drain s hs).1 1, rfl, rfl,
    (divergence_guard_bounds_a_drain t ht).2.1⟩

end EffectHost

end Adaptite

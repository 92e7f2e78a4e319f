import Adaptite.EffectParts

set_option autoImplicit false

namespace Adaptite

namespace RunFrame

/-- The call has the outstanding run of the effect in hand. -/
def passing (e : NodeId) : RunFrame → Bool
  | scheduling i | externalOpening (some i) => i = e
  | _ => false

/-- A call that has nothing to do with a token or a latch. -/
def isPlain : RunFrame → Bool
  | scheduling _ | externalOpening (some _) | disposing _ => false
  | _ => true

theorem passing_of_plain {f : RunFrame} {e : NodeId} (h : f.isPlain = true) :
    f.passing e = false := by
  cases f with
  | externalOpening run =>
    cases run with
    | none => rfl
    | some i => cases h
  | scheduling i => cases h
  | _ => rfl

theorem ne_disposing {f : RunFrame} {e : NodeId} (h : f.isPlain = true) : disposing e ≠ f := by
  rintro rfl
  cases h

end RunFrame

namespace EffectHost

variable {s t u : EffectHost} {e i : NodeId} {f g : RunFrame} {rest : List RunFrame}
  {hand : Option NodeId} {x y : EffectCell} {k : ℕ}

def tokens (s : EffectHost) (e : NodeId) : ℕ :=
  s.flush.pendingJobs.count (.run e) + s.lane.count e

def claims (s : EffectHost) (e : NodeId) : ℕ := s.tokens e + s.stack.countP (RunFrame.passing e)

def latched (s : EffectHost) (e : NodeId) : Bool :=
  ((s.effects e).map fun x => x.scheduled).getD false

def live (s : EffectHost) (e : NodeId) : Bool :=
  ((s.effects e).map fun x => !x.disposed).getD false

/-- The token of `e` that has been taken out, where `hand` says whose token that is. -/
def inHand (hand : Option NodeId) (e : NodeId) : ℕ := if hand = some e then 1 else 0

theorem inHand_none (e : NodeId) : inHand none e = 0 := if_neg (Option.some_ne_none e).symm

theorem inHand_some (e i : NodeId) : inHand (some e) i = if i = e then 1 else 0 := by
  unfold inHand
  by_cases hi : i = e
  · rw [if_pos hi, if_pos (by rw [hi])]
  · rw [if_neg hi, if_neg fun he => hi (Option.some.inj he).symm]

/-- `hand` is the effect whose token has been taken out, if any; `k` effects were freed while
they were latched. -/
structure Tokened (k : ℕ) (hand : Option NodeId) (s : EffectHost) : Prop where
  known : ∀ e, s.nextNode ≤ e → s.effects e = none ∧ s.claims e + inHand hand e = 0
  latch : ∀ e x, s.effects e = some x → x.disposed = false →
    (if x.scheduled then 1 else 0) = s.claims e + inHand hand e
  gauge : s.queuedEffects = (List.range s.nextNode).countP s.latched + k
  doomed : ∀ e, .disposing e ∈ s.stack → s.live e = false ∧ e < s.nextNode

structure Calm (s t : EffectHost) : Prop where
  nextNode : t.nextNode = s.nextNode
  queuedEffects : t.queuedEffects = s.queuedEffects
  claims : ∀ e, t.claims e = s.claims e
  effects : ∀ e, (t.effects e).map (fun x => (x.scheduled, x.disposed)) =
    (s.effects e).map fun x => (x.scheduled, x.disposed)
  doomed : ∀ e, .disposing e ∈ t.stack → .disposing e ∈ s.stack

section Calm

theorem Calm.refl (s : EffectHost) : s.Calm s :=
  ⟨rfl, rfl, fun _ => rfl, fun _ => rfl, fun _ => id⟩

theorem Calm.trans (h : s.Calm t) (h' : t.Calm u) : s.Calm u :=
  ⟨h'.nextNode.trans h.nextNode, h'.queuedEffects.trans h.queuedEffects,
    fun e => (h'.claims e).trans (h.claims e), fun e => (h'.effects e).trans (h.effects e),
    fun e he => h.doomed e (h'.doomed e he)⟩

theorem Calm.latched (h : s.Calm t) (e : NodeId) : t.latched e = s.latched e := by
  have he := h.effects e
  unfold EffectHost.latched
  cases ht : t.effects e <;> cases hs : s.effects e <;> simp_all

theorem Calm.live (h : s.Calm t) (e : NodeId) : t.live e = s.live e := by
  have he := h.effects e
  unfold EffectHost.live
  cases ht : t.effects e <;> cases hs : s.effects e <;> simp_all

theorem Tokened.calm (h : Tokened k hand s) (hc : s.Calm t) : Tokened k hand t := by
  refine ⟨fun e he => ?_, fun e y hy hd => ?_, ?_, fun e he => ?_⟩
  · rw [hc.nextNode] at he
    obtain ⟨h1, h2⟩ := h.known e he
    refine ⟨?_, by rw [hc.claims e, h2]⟩
    have := hc.effects e
    rw [h1] at this
    exact Option.map_eq_none_iff.mp this
  · have := hc.effects e
    rw [hy] at this
    obtain ⟨x, hx, hk⟩ := Option.map_eq_some_iff.mp this.symm
    injection hk with h1 h2
    rw [← h1, hc.claims]
    exact h.latch e x hx (h2.trans hd)
  · rw [hc.queuedEffects, hc.nextNode, h.gauge]
    congr 2
    funext e
    exact (hc.latched e).symm
  · rw [hc.live, hc.nextNode]
    exact h.doomed e (hc.doomed e he)

theorem calm_of_eq (h1 : t.nextNode = s.nextNode) (h2 : t.queuedEffects = s.queuedEffects)
    (h3 : t.effects = s.effects) (h4 : t.flush.pendingJobs = s.flush.pendingJobs)
    (h5 : t.lane = s.lane)
    (h6 : ∀ e, t.stack.countP (RunFrame.passing e) = s.stack.countP (RunFrame.passing e))
    (h7 : ∀ e, .disposing e ∈ t.stack → .disposing e ∈ s.stack) : s.Calm t := by
  refine ⟨h1, h2, fun e => ?_, fun e => by rw [h3], h7⟩
  unfold claims tokens
  rw [h4, h5, h6]

theorem calm_frame (h1 : t.nextNode = s.nextNode) (h2 : t.queuedEffects = s.queuedEffects)
    (h3 : t.effects = s.effects) (h4 : t.flush.pendingJobs = s.flush.pendingJobs)
    (h5 : t.lane = s.lane) (h6 : t.stack = f :: s.stack) (h : f.isPlain = true) : s.Calm t := by
  refine calm_of_eq h1 h2 h3 h4 h5 (fun e => ?_) fun e he => ?_
  · rw [h6, List.countP_cons_of_neg (by simp [RunFrame.passing_of_plain h])]
  · rw [h6] at he
    exact List.mem_of_ne_of_mem (RunFrame.ne_disposing h) he

theorem calm_push (h : f.isPlain = true) : s.Calm (s.push f) :=
  calm_frame rfl rfl rfl rfl rfl rfl h

theorem calm_pop (hs : s.stack = f :: rest) (h : f.isPlain = true) (unwinding : Bool) :
    s.Calm { s with stack := rest, unwinding } :=
  calm_of_eq rfl rfl rfl rfl rfl
    (fun e => by rw [hs, List.countP_cons_of_neg (by simp [RunFrame.passing_of_plain h])])
    fun e he => by rw [hs]; exact List.mem_cons_of_mem _ he

theorem calm_swap (hs : s.stack = f :: rest) (h : f.isPlain = true) (h' : g.isPlain = true)
    (unwinding : Bool) : s.Calm { s with stack := g :: rest, unwinding } :=
  (calm_pop hs h unwinding).trans (calm_push h')

theorem calm_modify {f : EffectCell → EffectCell}
    (h : ∀ x, (f x).scheduled = x.scheduled ∧ (f x).disposed = x.disposed) :
    s.Calm (s.modify e f) := by
  refine ⟨rfl, rfl, fun _ => rfl, fun i => ?_, fun _ => id⟩
  change (Function.update s.effects e ((s.effects e).map f) i).map _ = _
  by_cases hi : i = e
  · subst hi
    rw [Function.update_self, Option.map_map]
    congr 1
    funext x
    exact Prod.ext (h x).1 (h x).2
  · rw [Function.update_of_ne hi]

theorem Beside.calm (h : Beside none s t) : s.Calm t := by
  rcases h.stack with hs | ⟨f, hf, hs⟩
  · exact calm_of_eq h.nextNode h.queuedEffects h.effects h.jobs h.lane (fun _ => by rw [hs])
      fun _ he => hs ▸ he
  · refine calm_frame h.nextNode h.queuedEffects h.effects h.jobs h.lane hs ?_
    cases f with
    | externalOpening run =>
      obtain rfl : run = none := of_decide_eq_true hf
      rfl
    | _ => first | rfl | cases hf

end Calm

section Tokened

theorem live_modify {f : EffectCell → EffectCell} (h : ∀ x, (f x).disposed = x.disposed) :
    (s.modify e f).live i = s.live i := by
  unfold live modify
  dsimp only
  by_cases hi : i = e
  · subst hi
    rw [Function.update_self, Option.map_map]
    congr 2
    funext x
    exact congrArg not (h x)
  · rw [Function.update_of_ne hi]

theorem countP_range_flip {n e : ℕ} {p q : ℕ → Bool} (he : e < n) (hp : p e = false)
    (hq : q e = true) (h : ∀ i, i ≠ e → p i = q i) :
    (List.range n).countP q = (List.range n).countP p + 1 := by
  induction n with
  | zero => exact absurd he (Nat.not_lt_zero e)
  | succ n ih =>
    rw [List.range_succ, List.countP_append, List.countP_append, List.countP_singleton,
      List.countP_singleton]
    by_cases hn : e = n
    · subst hn
      have hrest : (List.range e).countP q = (List.range e).countP p := by
        refine List.countP_congr fun i hi => ?_
        rw [h i (Nat.ne_of_lt (List.mem_range.mp hi))]
      rw [hrest, hp, hq]
      rfl
    · rw [ih (by omega), h n (Ne.symm hn)]
      omega

theorem Tokened.lt (h : Tokened k hand s) (hx : s.effects e = some x) : e < s.nextNode := by
  by_contra hlt
  rw [(h.known e (not_lt.mp hlt)).1] at hx
  cases hx

/-- The tokens and the hand may change, as long as their sum does not, except for
an effect that is dead. -/
theorem Tokened.shift {hand' : Option NodeId} (h : Tokened k hand s) (h1 : t.nextNode = s.nextNode)
    (h2 : t.queuedEffects = s.queuedEffects) (h3 : t.effects = s.effects)
    (h4 : ∀ i, t.claims i + inHand hand' i ≤ s.claims i + inHand hand i)
    (h5 : ∀ i, s.live i = true → s.claims i + inHand hand i ≤ t.claims i + inHand hand' i)
    (h6 : ∀ i, .disposing i ∈ t.stack → .disposing i ∈ s.stack) : Tokened k hand' t := by
  have hlive : ∀ i, t.live i = s.live i := fun i => by
    unfold live
    rw [h3]
  refine ⟨fun i hi => ?_, fun i x hx hd => ?_, ?_, fun i hi => ?_⟩
  · rw [h1] at hi
    obtain ⟨hn, hz⟩ := h.known i hi
    exact ⟨h3 ▸ hn, Nat.le_zero.mp ((h4 i).trans hz.le)⟩
  · rw [h3] at hx
    have hi : s.live i = true := by
      unfold live
      rw [hx]
      simp [hd]
    rw [h.latch i x hx hd]
    exact le_antisymm (h5 i hi) (h4 i)
  · rw [h1, h2, h.gauge]
    congr 2
    funext i
    unfold latched
    rw [h3]
  · rw [hlive, h1]
    exact h.doomed i (h6 i hi)

/-- A token in hand of an effect that is dead is no loss. -/
theorem Tokened.drop (h : Tokened k (some e) s) (hdead : s.live e = false) : Tokened k none s := by
  refine h.shift rfl rfl rfl (fun i => ?_) (fun i hi => ?_) fun _ => id
  · rw [inHand_none]
    exact Nat.add_le_add_left (Nat.zero_le _) _
  · have hne : i ≠ e := by
      rintro rfl
      rw [hdead] at hi
      cases hi
    rw [inHand_none, inHand_some, if_neg hne]

theorem Tokened.take (h : Tokened k none s) (h1 : t.nextNode = s.nextNode)
    (h2 : t.queuedEffects = s.queuedEffects) (h3 : t.effects = s.effects)
    (h4 : ∀ i, s.claims i = t.claims i + if i = e then 1 else 0)
    (h5 : ∀ i, .disposing i ∈ t.stack → .disposing i ∈ s.stack) : Tokened k (some e) t := by
  have hsum : ∀ i, t.claims i + inHand (some e) i = s.claims i + inHand none i := by
    intro i
    rw [inHand_none, inHand_some, h4 i]
    rfl
  exact h.shift h1 h2 h3 (fun i => (hsum i).le) (fun i _ => (hsum i).ge) h5

theorem Tokened.put (h : Tokened k (some e) s) (h1 : t.nextNode = s.nextNode)
    (h2 : t.queuedEffects = s.queuedEffects) (h3 : t.effects = s.effects)
    (h4 : ∀ i, t.claims i = s.claims i + if i = e then 1 else 0)
    (h5 : ∀ i, .disposing i ∈ t.stack → .disposing i ∈ s.stack) : Tokened k none t := by
  have hsum : ∀ i, t.claims i + inHand none i = s.claims i + inHand (some e) i := by
    intro i
    rw [inHand_none, inHand_some, h4 i]
    rfl
  exact h.shift h1 h2 h3 (fun i => (hsum i).le) (fun i _ => (hsum i).ge) h5

/-- The latch of `e` is set, so a token of it is owed. -/
theorem Tokened.latch_step (h : Tokened k none s) (hx : s.effects e = some x)
    (hs : x.scheduled = false) : Tokened k (some e) (s.latch e) := by
  have hcases : ∀ i y, (s.latch e).effects i = some y →
      (i = e ∧ y = { x with scheduled := true }) ∨ (i ≠ e ∧ s.effects i = some y) := by
    intro i y hy
    rcases modify_eq_some.mp hy with ⟨rfl, z, hz, rfl⟩ | hy
    · rw [hx] at hz
      cases hz
      exact .inl ⟨rfl, rfl⟩
    · exact .inr hy
  have hlt := h.lt hx
  refine ⟨fun i hi => ?_, fun i y hy hd => ?_, ?_, fun i hi => ?_⟩
  · have hne : i ≠ e := by
      rintro rfl
      exact absurd hlt (not_lt.mpr hi)
    obtain ⟨h1, h2⟩ := h.known i hi
    refine ⟨?_, ?_⟩
    · change Function.update s.effects e _ i = none
      rw [Function.update_of_ne hne]
      exact h1
    · rw [inHand_none] at h2
      rw [inHand_some, if_neg hne]
      exact h2
  · rcases hcases i y hy with ⟨rfl, rfl⟩ | ⟨hne, hy⟩
    · have := h.latch i x hx hd
      rw [hs, if_neg Bool.false_ne_true, inHand_none] at this
      change 1 = s.claims i + _
      rw [inHand_some, if_pos rfl]
      omega
    · rw [h.latch i y hy hd, inHand_none, inHand_some, if_neg hne]
      rfl
  · change s.queuedEffects + 1 = _ + k
    rw [h.gauge, Nat.add_right_comm]
    refine congrArg (· + k) (countP_range_flip hlt ?_ ?_ fun i hi => ?_).symm
    · unfold latched
      rw [hx]
      exact hs
    · unfold latched EffectHost.latch modify
      dsimp only
      rw [Function.update_self, hx]
      rfl
    · unfold latched EffectHost.latch modify
      dsimp only
      rw [Function.update_of_ne hi]
  · have := h.doomed i hi
    rw [← live_modify (f := fun x => { x with scheduled := true }) (e := e) fun _ => rfl] at this
    exact this

/-- The latch of `e` is given back, for its token or because the effect is disposed. -/
theorem Tokened.unlatch_step (h : Tokened k hand s)
    (ok : hand = some e ∨ s.live e = false ∧ hand = none) : Tokened k none (s.unlatch e) := by
  cases hx : s.effects e with
  | none =>
    have hu : s.unlatch e = s := by
      unfold EffectHost.unlatch
      rw [hx]
    rw [hu]
    rcases ok with rfl | ⟨-, rfl⟩
    · refine h.drop ?_
      unfold live
      rw [hx]
      rfl
    · exact h
  | some x =>
    by_cases hs : x.scheduled = true
    · have hu : s.unlatch e = { s.modify e fun x => { x with scheduled := false } with
          queuedEffects := s.queuedEffects - 1 } := by
        unfold EffectHost.unlatch
        rw [hx]
        exact if_pos hs
      rw [hu]
      have hlt := h.lt hx
      refine ⟨fun i hi => ?_, fun i y hy hd => ?_, ?_, fun i hi => ?_⟩
      · have hne : i ≠ e := by
          rintro rfl
          exact absurd hlt (not_lt.mpr hi)
        obtain ⟨h1, h2⟩ := h.known i hi
        refine ⟨?_, ?_⟩
        · change Function.update s.effects e _ i = none
          rw [Function.update_of_ne hne]
          exact h1
        · rw [inHand_none]
          exact Nat.le_zero.mp ((Nat.le_add_right _ _).trans h2.le)
      · rcases modify_eq_some.mp hy with ⟨rfl, z, hz, rfl⟩ | ⟨hne, hy⟩
        · rw [hx] at hz
          cases hz
          rcases ok with rfl | ⟨hdead, -⟩
          · have := h.latch i x hx hd
            rw [if_pos hs, inHand_some, if_pos rfl] at this
            rw [inHand_none]
            change 0 = s.claims i + 0
            omega
          · unfold live at hdead
            rw [hx] at hdead
            have hd : x.disposed = false := hd
            simp [hd] at hdead
        · have hz : inHand hand i = 0 := by
            rcases ok with rfl | ⟨-, rfl⟩
            · rw [inHand_some, if_neg hne]
            · exact inHand_none i
          have := h.latch i y hy hd
          rw [hz] at this
          rw [this, inHand_none]
          rfl
      · change s.queuedEffects - 1 = _
        have hflip := countP_range_flip (p := fun i => EffectHost.latched
          { s.modify e fun x => { x with scheduled := false } with
            queuedEffects := s.queuedEffects - 1 } i) (q := s.latched) hlt ?_ ?_ fun i hi => ?_
        · rw [h.gauge, hflip, Nat.add_right_comm, Nat.add_sub_cancel]
          rfl
        · unfold latched modify
          dsimp only
          rw [Function.update_self, hx]
          rfl
        · unfold latched
          rw [hx]
          exact hs
        · unfold latched modify
          dsimp only
          rw [Function.update_of_ne hi]
      · have := h.doomed i hi
        rw [← live_modify (f := fun x => { x with scheduled := false }) (e := e) fun _ => rfl]
          at this
        exact this
    · have hu : s.unlatch e = s := by
        unfold EffectHost.unlatch
        rw [hx]
        exact if_neg hs
      rw [hu]
      rcases ok with rfl | ⟨-, rfl⟩
      · refine h.drop ?_
        unfold live
        rw [hx]
        cases hd : x.disposed with
        | true => simp [hd]
        | false =>
          have := h.latch e x hx hd
          rw [if_neg hs, inHand_some, if_pos rfl] at this
          omega
      · exact h

end Tokened

section Operations

theorem count_schedule (f : Flush EffectJob) (job j : EffectJob) :
    (f.schedule job).pendingJobs.count j = f.pendingJobs.count j + if j = job then 1 else 0 := by
  unfold Flush.schedule
  rw [(Flush.ensureFlushScheduled_queue _).1]
  dsimp only
  rw [List.count_append, List.count_singleton]
  by_cases hj : j = job
  · rw [if_pos hj, if_pos (by simp [hj])]
  · rw [if_neg hj, if_neg (by simpa using Ne.symm hj)]

theorem run_eq {e i : NodeId} : EffectJob.run i = EffectJob.run e ↔ i = e :=
  ⟨EffectJob.run.inj, congrArg _⟩

theorem Tokened.pass (h : Tokened k (some e) s) (hf : ∀ i, f.passing i = decide (e = i))
    (hd : ∀ i, .disposing i ≠ f) : Tokened k none (s.push f) := by
  refine h.put rfl rfl rfl (fun i => ?_) fun i hi => List.mem_of_ne_of_mem (hd i) hi
  change s.tokens i + (f :: s.stack).countP (RunFrame.passing i) = _
  unfold claims
  by_cases hi : i = e
  · rw [List.countP_cons_of_pos (by simp [hf, hi]), if_pos hi]
    omega
  · rw [List.countP_cons_of_neg (by simp [hf, Ne.symm hi]), if_neg hi, Nat.add_zero]

theorem Tokened.handOver (h : Tokened k (some e) s) : Tokened k none (s.handOver e) := by
  unfold EffectHost.handOver
  cases hx : s.effects e with
  | none =>
    refine h.drop ?_
    unfold live
    rw [hx]
    rfl
  | some x =>
    dsimp only
    split
    · have hp : Tokened k none { s with lane := s.lane ++ [e] } := by
        refine h.put rfl rfl rfl (fun i => ?_) fun _ => id
        unfold claims tokens
        dsimp only
        rw [List.count_append, List.count_singleton]
        by_cases hi : i = e
        · rw [if_pos hi, if_pos (by simp [hi])]
          omega
        · rw [if_neg hi, if_neg (by simpa using Ne.symm hi)]
          omega
      exact hp.calm (calm_push rfl)
    · refine h.put rfl rfl rfl (fun i => ?_) fun _ => id
      unfold claims tokens
      dsimp only
      rw [count_schedule]
      by_cases hi : i = e
      · rw [if_pos (run_eq.mpr hi), if_pos hi]
        omega
      · rw [if_neg fun he => hi (run_eq.mp he), if_neg hi]
        omega

theorem Tokened.schedule (h : Tokened k none s) (e : NodeId) : Tokened k none (s.schedule e) := by
  unfold EffectHost.schedule
  cases hx : s.effects e with
  | none => exact h
  | some x =>
    dsimp only
    split
    · split
      · exact h.calm (calm_push rfl)
      · exact h
    · rename_i hidle
      have hs : x.scheduled = false := by
        simp only [Bool.or_eq_true, not_or, Bool.not_eq_true] at hidle
        exact hidle.2
      split
      · exact (h.latch_step hx hs).pass (fun i => rfl) fun _ => RunFrame.noConfusion
      · exact (h.latch_step hx hs).handOver

theorem Tokened.raise (h : Tokened k none s) (e : NodeId) (mark : Mark) :
    Tokened k none (s.raise e mark) := by
  have hm : Tokened k none (s.modify e fun x => { x with state := x.state.raise mark }) :=
    h.calm (calm_modify fun _ => ⟨rfl, rfl⟩)
  exact hm.schedule e

theorem Tokened.deliverMark (h : Tokened k none s) (e : NodeId) (mark : Mark) :
    Tokened k none (s.deliverMark e mark) := by
  unfold EffectHost.deliverMark
  split
  · exact h
  · split
    · exact h.calm (calm_push rfl)
    · exact h.raise e mark

theorem live_kill (s : EffectHost) (e : NodeId) :
    (s.modify e fun x => { x with disposed := true }).live e = false := by
  unfold live modify
  dsimp only
  rw [Function.update_self]
  cases s.effects e <;> rfl

theorem Tokened.kill (h : Tokened k none s) (e : NodeId) :
    Tokened k none (s.modify e fun x => { x with disposed := true }) := by
  refine ⟨fun i hi => ?_, fun i y hy hd => ?_, ?_, fun i hi => ⟨?_, (h.doomed i hi).2⟩⟩
  · obtain ⟨h1, h2⟩ := h.known i hi
    refine ⟨?_, h2⟩
    cases hy : (s.modify e fun x => { x with disposed := true }).effects i with
    | none => rfl
    | some y =>
      rcases modify_eq_some.mp hy with ⟨rfl, x, hx, -⟩ | ⟨-, hx⟩
      · rw [h1] at hx; cases hx
      · rw [h1] at hx; cases hx
  · rcases modify_eq_some.mp hy with ⟨rfl, x, _, rfl⟩ | ⟨_, hy⟩
    · cases hd
    · exact h.latch i y hy hd
  · refine h.gauge.trans (congrArg (· + k) ?_)
    change _ = (List.range s.nextNode).countP _
    congr 1
    funext i
    unfold latched modify
    dsimp only
    by_cases hi : i = e
    · subst hi
      rw [Function.update_self, Option.map_map]
      rfl
    · rw [Function.update_of_ne hi]
  · by_cases he : i = e
    · rw [he]
      exact live_kill s e
    · have := (h.doomed i hi).1
      unfold live at this ⊢
      rw [show (s.modify e fun x => { x with disposed := true }).effects i = s.effects i from
        Function.update_of_ne he _ _]
      exact this

theorem Tokened.dispose (h : Tokened k none s) (e : NodeId) : Tokened k none (s.dispose e) := by
  unfold EffectHost.dispose
  cases hx : s.effects e with
  | none => exact h
  | some x =>
    dsimp only
    split
    · exact h
    · have hk := h.kill e
      split
      · have hclaims : ∀ i, ((s.modify e fun x => { x with disposed := true }).push
            (.disposing e)).claims i = (s.modify e fun x => { x with disposed := true }).claims i := by
          intro i
          unfold claims
          exact congrArg _ (List.countP_cons_of_neg (by simp [RunFrame.passing]))
        refine ⟨fun i hi => ?_, fun i y hy hd => ?_, hk.gauge, fun i hi => ?_⟩
        · rw [hclaims]
          exact hk.known i hi
        · rw [hclaims]
          exact hk.latch i y hy hd
        · rcases List.mem_cons.mp hi with hi | hi
          · cases hi
            exact ⟨live_kill s e, h.lt hx⟩
          · exact hk.doomed i hi
      · exact (hk.unlatch_step (.inr ⟨live_kill s e, rfl⟩)).calm (calm_push rfl)

theorem calm_openWindow (s : EffectHost) (e : NodeId) (reported : Bool) :
    s.Calm (s.openWindow e reported) :=
  (calm_modify (f := fun x => { x with running := true }) fun _ => ⟨rfl, rfl⟩).trans
    (calm_push rfl)

theorem calm_attempt (s : EffectHost) (e : NodeId) : s.Calm (s.attempt e) := by
  unfold attempt
  cases hx : s.effects e with
  | none => exact .refl s
  | some x =>
    dsimp only
    have hc : s.Calm { s.modify e fun _ => x.countRun s.flush.drainEpoch with
        attempted := e :: s.attempted } := by
      refine ⟨rfl, rfl, fun _ => rfl, fun i => ?_, fun _ => id⟩
      change (Function.update s.effects e _ i).map _ = _
      by_cases hi : i = e
      · subst hi
        rw [Function.update_self, hx]
        rfl
      · rw [Function.update_of_ne hi]
    split
    · exact hc.trans (calm_of_eq rfl rfl rfl rfl rfl (fun _ => rfl) fun _ => id)
    · split
      · exact hc.trans (calm_push rfl)
      · exact hc.trans (calm_openWindow _ e false)

theorem Tokened.runScheduled (h : Tokened k (some e) s) : Tokened k none (s.runScheduled e) := by
  have inner : ∀ {s : EffectHost} (x : EffectCell), Tokened k (some e) s →
      Tokened k none (s.runScheduledInner e x) := by
    intro s x h
    have hu : Tokened k none (s.unlatch e) := h.unlatch_step (.inl rfl)
    unfold runScheduledInner
    dsimp only
    split
    · exact hu
    · split
      · exact hu.calm (calm_modify fun _ => ⟨rfl, rfl⟩)
      · have hc : Tokened k none ((s.unlatch e).modify e fun x => { x with state := .clean }) :=
          hu.calm (calm_modify fun _ => ⟨rfl, rfl⟩)
        split
        · exact hc.calm (calm_attempt _ e)
        · exact hc.calm (calm_push rfl)
        · exact hc.calm (beside_skip _).calm
  unfold EffectHost.runScheduled
  cases hx : s.effects e with
  | none =>
    refine h.drop ?_
    unfold live
    rw [hx]
    rfl
  | some x =>
    dsimp only
    split
    · exact inner x (h.calm (calm_push rfl))
    · exact inner x h

/-- An `EffectRun` is run outside any flush: the flush that it opens has it in hand while its
opening is being reported. -/
theorem Tokened.ready (h : Tokened k (some e) s) : Tokened k none (s.ready e) := by
  obtain ⟨h1, h2, h3, h4⟩ := fresh_same s
  unfold EffectHost.ready
  cases hx : s.effects e with
  | none =>
    refine h.drop ?_
    unfold live
    rw [hx]
    rfl
  | some x =>
    dsimp only
    split
    · exact h.runScheduled
    · rename_i hz
      have houter : s.flush.beginFlush.2 = true := by
        unfold Flush.beginFlush
        rw [if_neg hz]
      split
      · rename_i hd
        unfold EffectHost.beginFlush
        rw [houter, hd, if_pos (by rfl)]
        have hc : Tokened k (some e) { s.fresh with
            flush := s.flush.beginFlush.1, openStats := s.openStats + 1, stack := s.stack } :=
          h.calm (calm_of_eq h1 h2 h3 (pendingJobs_beginFlush s.flush) h4 (fun _ => rfl) fun _ => id)
        exact hc.pass (f := .externalOpening (some e)) (fun i => rfl) fun _ => RunFrame.noConfusion
      · rename_i hd
        refine Tokened.runScheduled (h.calm ?_)
        unfold EffectHost.beginFlush
        rw [houter, Bool.eq_false_iff.mpr hd, if_neg (by decide)]
        exact calm_frame h1 h2 h3 (pendingJobs_beginFlush s.flush) h4 rfl rfl

theorem calm_closeWindow (hs : s.stack = f :: rest) (hf : f.isPlain = true) (e : NodeId)
    (reported unwound : Bool) : s.Calm (s.closeWindow rest e reported unwound) := by
  have hm : ∀ t : EffectHost, t.Calm (t.modify e fun x => { x with running := false }) := fun t =>
    calm_modify fun _ => ⟨rfl, rfl⟩
  unfold closeWindow
  dsimp only
  split
  · exact (calm_swap (g := .finishing unwound) hs hf rfl false).trans (hm _)
  · exact (calm_pop hs hf unwound).trans (hm _)

theorem Tokened.settle (h : Tokened k none s) (e : NodeId) : Tokened k none (s.settle e) := by
  unfold EffectHost.settle
  split
  · exact h
  · have hm : Tokened k none (s.modify e fun x => { x with rerunAfterCurrent := false }) :=
      h.calm (calm_modify fun _ => ⟨rfl, rfl⟩)
    dsimp only
    split
    · exact hm.schedule e
    · exact hm

end Operations

section Steps

/-- A subscriber's panic is about to leave `schedule` between the latch and the token, or
`EffectRun::run` between the token and the latch, and the effect is live. -/
def strands (s : EffectHost) : EffectOp → Bool
  | .unwind =>
    match s.stack with
    | .scheduling e :: _ | .externalOpening (some e) :: _ => s.live e
    | _ => false
  | _ => false

/-- The memory of an effect that is still latched is about to be freed. -/
def leaks (s : EffectHost) : EffectOp → Bool
  | .release e => s.latched e
  | _ => false

/-- The innermost call gives up the token that it has in hand. -/
theorem Tokened.pop (h : Tokened k none s) (hs : s.stack = f :: rest)
    (hf : ∀ i, f.passing i = decide (e = i)) :
    Tokened k (some e) { s with stack := rest } := by
  refine h.take rfl rfl rfl (fun i => ?_) fun i hi => by rw [hs]; exact List.mem_cons_of_mem _ hi
  unfold claims
  rw [hs]
  by_cases hi : i = e
  · rw [List.countP_cons_of_pos (by simp [hf, hi]), if_pos hi]
    rfl
  · rw [List.countP_cons_of_neg (by simp [hf, Ne.symm hi]), if_neg hi, Nat.add_zero]
    rfl

theorem Tokened.finish (h : Tokened k none s) {changed : Bool} (ht : s.finish changed = some t) :
    Tokened k none t := by
  have plain : ∀ {f : RunFrame} {rest : List RunFrame}, s.stack = f :: rest →
      f.isPlain = true → Tokened k none { s with stack := rest } := fun hs hf =>
    h.calm (calm_pop hs hf s.unwinding)
  unfold EffectHost.finish at ht
  split at ht <;> rename_i hs <;> try (injection ht with ht; subst ht)
  · exact Tokened.calm (h.calm (calm_swap (g := .draining false) hs rfl rfl
      s.unwinding)) (calm_of_eq rfl rfl rfl rfl rfl (fun _ => rfl) fun _ => id)
  · exact h.calm (calm_swap hs rfl rfl s.unwinding)
  · exact Tokened.calm (plain hs rfl)
      (calm_of_eq rfl rfl rfl (pendingJobs_rearm _) rfl (fun _ => rfl) fun _ => id)
  · exact h.calm (calm_swap hs rfl rfl s.unwinding)
  · exact Tokened.runScheduled (Tokened.calm (h.pop hs fun i => rfl)
      (calm_push (f := .external) rfl))
  · exact (plain hs rfl).calm (beside_endFlush s _ false).calm
  · exact h.calm (calm_pop hs rfl _)
  · exact h.calm (calm_pop hs rfl _)
  · exact (plain hs rfl).raise _ _
  · exact (h.pop hs fun i => rfl).handOver
  · exact plain hs rfl
  · exact plain hs rfl
  · exact plain hs rfl
  · exact plain hs rfl
  · have hp := plain hs rfl
    unfold EffectHost.verified
    split
    · exact hp
    · split
      · exact hp
      · split
        · exact hp.calm (calm_attempt _ _)
        · exact hp.calm (beside_skip _).calm
  · exact (plain hs rfl).calm (calm_openWindow _ _ true)
  · unfold EffectHost.afterReset
    split
    · exact h
    · split
      · exact h.calm (calm_closeWindow hs rfl _ _ _)
      · exact Tokened.calm (h.calm (calm_swap (g := .body _ _) hs rfl rfl
          s.unwinding)) (calm_of_eq rfl rfl rfl rfl rfl (fun _ => rfl) fun _ => id)
  · exact Tokened.settle (h.calm (calm_swap (g := .settling _ _) hs rfl rfl
      s.unwinding)) _
  · rename_i e rest
    have hdead := (h.doomed e (by rw [hs]; exact List.mem_cons_self)).1
    have hpop : Tokened k none { s with stack := rest } := by
      refine h.shift rfl rfl rfl (fun i => ?_) (fun i _ => ?_) fun i hi => ?_
      · unfold claims
        rw [hs, List.countP_cons_of_neg (by simp [RunFrame.passing])]
        exact le_refl _
      · unfold claims
        rw [hs, List.countP_cons_of_neg (by simp [RunFrame.passing])]
        exact le_refl _
      · rw [hs]
        exact List.mem_cons_of_mem _ hi
    exact (hpop.calm (calm_push (f := .tearing e) rfl)).unlatch_step (.inr ⟨hdead, rfl⟩)
  · exact (plain hs rfl).calm (calm_modify fun _ => ⟨rfl, rfl⟩)
  · exact h.calm (calm_pop hs rfl _)
  · cases ht

theorem claims_popJob {job : EffectJob} {f : Flush EffectJob}
    (h : s.flush.popJob = some (job, f)) (e : NodeId) :
    s.claims e = ({ s with flush := f } : EffectHost).claims e +
      if job = .run e then 1 else 0 := by
  unfold Flush.popJob at h
  cases hl : s.flush.pendingJobs with
  | nil => simp [hl] at h
  | cons j l =>
    simp only [hl, Option.some.injEq, Prod.mk.injEq] at h
    obtain ⟨rfl, rfl⟩ := h
    unfold claims tokens
    rw [hl]
    dsimp only
    by_cases hj : j = .run e
    · rw [if_pos hj, hj, List.count_cons_self]
      omega
    · rw [if_neg hj, List.count_cons_of_ne hj]
      omega

theorem Tokened.take_job (h : Tokened k none s) {f : Flush EffectJob}
    (hp : s.flush.popJob = some (.run e, f)) : Tokened k (some e) { s with flush := f } := by
  refine h.take rfl rfl rfl (fun i => ?_) fun _ => id
  rw [claims_popJob hp i]
  by_cases hi : i = e
  · rw [if_pos (by rw [hi]), if_pos hi]
  · rw [if_neg fun he => hi (run_eq.mp he).symm, if_neg hi]

theorem Tokened.next (h : Tokened k none s) (ht : s.next = some t) : Tokened k none t := by
  unfold EffectHost.next at ht
  split at ht
  · rename_i rest hs
    cases hp : s.flush.popJob with
    | none =>
      simp only [hp] at ht
      cases ht
      exact ((h.calm (calm_pop hs rfl s.unwinding)).calm (beside_closeDrain s _ false).calm)
    | some r =>
      obtain ⟨job, f⟩ := r
      have hclaims := claims_popJob hp
      cases job with
      | run e =>
        simp only [hp] at ht
        cases ht
        exact (h.take_job hp).runScheduled
      | other =>
        simp only [hp] at ht
        cases ht
        have hc : s.Calm { s with flush := f } :=
          ⟨rfl, rfl, fun e => by rw [hclaims e, if_neg EffectJob.noConfusion]; rfl, fun _ => rfl,
            fun _ => id⟩
        exact (h.calm hc).calm (calm_swap (s := { s with flush := f }) hs rfl rfl s.unwinding)
  · rename_i hs
    cases ht
    exact h.calm (calm_pop hs rfl _)
  · rename_i hs
    cases ht
    exact h.calm (calm_swap hs rfl rfl s.unwinding)
  · rename_i hs
    cases ht
    exact h.calm (calm_pop hs rfl _)
  · rename_i hs
    cases ht
    exact h.calm (calm_closeWindow hs rfl _ _ _)
  · cases ht

/-- A token that the unwinding call has in hand is lost, of an effect that is dead. -/
theorem Tokened.forget (h : Tokened k none s) (hs : s.stack = f :: rest)
    (hf : ∀ i, f.passing i = decide (e = i)) (hdead : s.live e = false) :
    Tokened k none { s with stack := rest } :=
  (h.pop hs hf).drop hdead

theorem Tokened.recover (h : Tokened k none s) (hs : s.stack = f :: rest) (hf : f.isPlain = true)
    (e : NodeId) : Tokened k none (s.recover rest e) := by
  have hp : Tokened k none { s with stack := rest } := h.calm (calm_pop hs hf s.unwinding)
  unfold EffectHost.recover
  split
  · exact hp
  · split
    · exact hp
    · have hr : Tokened k none { s with stack := .recovering :: rest, unwinding := false } :=
        h.calm (calm_swap hs hf rfl false)
      have hm : Tokened k none (({ s with stack := .recovering :: rest, unwinding := false } :
          EffectHost).modify e fun x => { x with state := .dirty }) :=
        hr.calm (calm_modify fun _ => ⟨rfl, rfl⟩)
      exact hm.schedule e

theorem Tokened.unwind (h : Tokened k none s) (hl : s.strands .unwind = false)
    (ht : s.unwind = some t) : Tokened k none t := by
  have plain : ∀ {f : RunFrame} {rest : List RunFrame} (unwinding : Bool), s.stack = f :: rest →
      f.isPlain = true → Tokened k none { s with stack := rest, unwinding } := fun unwinding hs hf =>
    h.calm (calm_pop hs hf unwinding)
  unfold EffectHost.unwind at ht
  cases hs : s.stack with
  | nil => simp [hs] at ht
  | cons f rest =>
    unfold strands at hl
    simp only [hs] at ht hl
    cases f
    case flushClosing unwound shielded =>
      cases shielded <;> cases ht
      · exact plain _ hs rfl
      · exact (plain unwound hs rfl).calm
          (calm_of_eq rfl rfl rfl (pendingJobs_rearm _) rfl (fun _ => rfl) fun _ => id)
    case externalOpening run =>
      cases ht
      cases run with
      | none => exact (plain s.unwinding hs rfl).calm (beside_endFlush s rest true).calm
      | some e => exact (h.forget hs (fun i => rfl) hl).calm (beside_endFlush s rest true).calm
    case scheduling e =>
      cases ht
      exact h.forget hs (fun i => rfl) hl
    case disposing e =>
      cases ht
      refine h.shift rfl rfl rfl (fun i => ?_) (fun i _ => ?_) fun i hi => ?_
      · unfold claims
        rw [hs, List.countP_cons_of_neg (by simp [RunFrame.passing])]
        exact le_refl _
      · unfold claims
        rw [hs, List.countP_cons_of_neg (by simp [RunFrame.passing])]
        exact le_refl _
      · rw [hs]
        exact List.mem_cons_of_mem _ hi
    case catching e =>
      cases ht
      exact Tokened.dispose (h.calm (calm_swap (g := .caught) hs rfl rfl false)) e
    case verifying e => cases ht; exact h.recover hs rfl e
    case finishing unwound => cases unwound <;> cases ht; exact plain _ hs rfl
    case tearing e => cases ht; exact (plain s.unwinding hs rfl).calm (calm_modify fun _ => ⟨rfl, rfl⟩)
    case draining busy => cases ht; exact ((h.calm (calm_pop hs rfl s.unwinding)).calm (beside_closeDrain s _ true).calm)
    case external => cases ht; exact (plain s.unwinding hs rfl).calm (beside_endFlush s rest true).calm
    case resetting => cases ht; exact h.calm (calm_closeWindow hs rfl _ _ true)
    case body => cases ht; exact h.calm (calm_closeWindow hs rfl _ _ true)
    case settling => cases ht; exact h.calm (calm_closeWindow hs rfl _ _ true)
    case recovering => cases ht
    case dropping => cases ht
    all_goals cases ht; exact plain _ hs rfl

theorem Tokened.newEffect (h : Tokened k none s) (external boundary : Bool) :
    Tokened k none (s.newEffect external boundary) := by
  unfold EffectHost.newEffect
  obtain ⟨hnone, hzero⟩ := h.known s.nextNode (le_refl _)
  refine Tokened.schedule ⟨fun e he => ?_, fun e x hx hd => ?_, ?_, fun e he => ?_⟩ _
  · obtain ⟨h1, h2⟩ := h.known e (Nat.le_of_succ_le he)
    exact ⟨(Function.update_of_ne (Nat.ne_of_gt he) _ _).trans h1, h2⟩
  · by_cases he : e = s.nextNode
    · subst he
      dsimp only at hx
      rw [Function.update_self] at hx
      cases hx
      exact hzero.symm
    · exact h.latch e x ((Function.update_of_ne he _ _).symm.trans hx) hd
  · refine h.gauge.trans (congrArg (· + k) ?_)
    dsimp only
    rw [List.range_succ, List.countP_append, List.countP_singleton]
    have hlast : EffectHost.latched
        { s with
          nextNode := s.nextNode + 1
          effects := Function.update s.effects s.nextNode (some { external, boundary }) }
        s.nextNode = false := by
      unfold latched
      dsimp only
      rw [Function.update_self]
      rfl
    rw [hlast, if_neg Bool.false_ne_true, Nat.add_zero]
    refine List.countP_congr fun i hi => ?_
    unfold latched
    dsimp only
    rw [Function.update_of_ne (Nat.ne_of_lt (List.mem_range.mp hi))]
  · obtain ⟨h1, h2⟩ := h.doomed e he
    refine ⟨?_, Nat.lt_succ_of_lt h2⟩
    unfold live at h1 ⊢
    dsimp only
    rw [Function.update_of_ne (Nat.ne_of_lt h2)]
    exact h1

theorem Tokened.release (h : Tokened k none s) (e : NodeId) :
    Tokened (k + if s.latched e then 1 else 0) none
      { s with effects := Function.update s.effects e none } := by
  have hother : ∀ i, i ≠ e → EffectHost.latched
      { s with effects := Function.update s.effects e none } i = s.latched i := fun i hi => by
    unfold latched
    dsimp only
    rw [Function.update_of_ne hi]
  have hgone : EffectHost.latched
      { s with effects := Function.update s.effects e none } e = false := by
    unfold latched
    dsimp only
    rw [Function.update_self]
    rfl
  refine ⟨fun i hi => ⟨?_, (h.known i hi).2⟩, fun i x hx hd => ?_, ?_, fun i hi => ?_⟩
  · by_cases he : i = e
    · rw [he]; exact Function.update_self _ _ _
    · exact (Function.update_of_ne he _ _).trans (h.known i hi).1
  · by_cases he : i = e
    · subst he
      dsimp only at hx
      rw [Function.update_self] at hx
      cases hx
    · exact h.latch i x ((Function.update_of_ne he _ _).symm.trans hx) hd
  · refine h.gauge.trans ?_
    cases hl : s.latched e
    · refine congrArg (· + k) (List.countP_congr fun i _ => ?_)
      by_cases he : i = e
      · rw [he, hl, hgone]
      · rw [hother i he]
    · have hlt : e < s.nextNode := by
        by_contra hlt
        unfold latched at hl
        rw [(h.known e (not_lt.mp hlt)).1] at hl
        cases hl
      rw [countP_range_flip hlt hgone hl hother, if_pos rfl, Nat.add_right_comm, Nat.add_assoc]
  · refine ⟨?_, (h.doomed i hi).2⟩
    by_cases he : i = e
    · rw [he]
      unfold live
      dsimp only
      rw [Function.update_self]
      rfl
    · have := (h.doomed i hi).1
      unfold live at this ⊢
      dsimp only
      rw [Function.update_of_ne he]
      exact this

theorem Tokened.lane_erase (h : Tokened k none s) (he : s.lane.contains e = true) :
    Tokened k (some e) { s with lane := s.lane.erase e } := by
  refine h.take rfl rfl rfl (fun i => ?_) fun _ => id
  have hmem : e ∈ s.lane := List.contains_iff_mem.mp he
  unfold claims tokens
  dsimp only
  by_cases hi : i = e
  · subst hi
    have := List.count_pos_iff.mpr hmem
    rw [List.count_erase_self, if_pos rfl]
    omega
  · rw [List.count_erase_of_ne hi, if_neg hi]
    omega

theorem Tokened.step (h : Tokened k none s) (op : EffectOp) (hl : s.strands op = false)
    (ht : s.step op = some t) : Tokened (k + if s.leaks op then 1 else 0) none t := by
  cases op <;> simp only [EffectHost.step] at ht <;> split at ht <;> try cases ht
  case effect => exact h.newEffect _ _
  case mark => exact h.deliverMark _ _
  case schedule =>
    refine h.calm ⟨rfl, rfl, fun e => ?_, fun _ => rfl, fun _ => id⟩
    unfold claims tokens
    rw [count_schedule, if_neg EffectJob.noConfusion]
    rfl
  case flushNow => exact h.calm (beside_flushJobs s).calm
  case microtask =>
    have hc : s.Calm { s with flush := s.flush.takeMicrotask } :=
      calm_of_eq rfl rfl rfl rfl rfl (fun _ => rfl) fun _ => id
    exact (h.calm hc).calm (beside_flushJobs _).calm
  case externalFlush => exact h.calm (beside_beginFlush s none).calm
  case run e hcan =>
    exact (h.lane_erase (Bool.and_eq_true_iff.mp hcan).2).ready
  case discard e hcan =>
    exact (h.lane_erase (Bool.and_eq_true_iff.mp hcan).2).unlatch_step (.inl rfl)
  case dispose e _ => exact h.dispose e
  case release e _ => exact h.release e
  case diagnostics =>
    exact h.calm (calm_of_eq rfl rfl rfl rfl rfl (fun _ => rfl) fun _ => id)
  case finish => exact h.finish ht
  case next => exact h.next ht
  case panic => exact h.calm (calm_of_eq rfl rfl rfl rfl rfl (fun _ => rfl) fun _ => id)
  case catchUnwind => exact h.calm (calm_of_eq rfl rfl rfl rfl rfl (fun _ => rfl) fun _ => id)
  case destroy => exact h.calm (calm_frame rfl rfl rfl rfl rfl rfl rfl)
  case unwind => exact h.unwind hl ht

end Steps

/-- The latch of a live effect and its one token, where no call has the token in hand. -/
def OneToken (s : EffectHost) : Prop :=
  (∀ e, s.live e = true → (∀ f ∈ s.stack, f.passing e = false) →
    s.tokens e ≤ 1 ∧ (s.latched e = true ↔ s.tokens e = 1)) ∧
  s.queuedEffects = (List.range s.nextNode).countP s.latched

/-- The states that a run reaches which loses no token. -/
def ReachedKept (s : EffectHost) : Prop :=
  Runs.Reaches step (fun s op => (!s.strands op && !s.leaks op) = true) {} s

theorem tokened_empty : Tokened 0 none {} where
  known e _ := ⟨rfl, inHand_none e⟩
  latch _ _ hx := by cases hx
  gauge := rfl
  doomed _ he := by cases he

theorem ReachedKept.tokened (h : s.ReachedKept) : Tokened 0 none s := by
  refine h.invariant (Tokened 0 none) tokened_empty fun s op t h ok ht => ?_
  obtain ⟨h1, h2⟩ : s.strands op = false ∧ s.leaks op = false := by simpa using ok
  have := h.step op h1 ht
  rw [h2] at this
  exact this

theorem claims_of_idle (h : ∀ f ∈ s.stack, f.passing e = false) : s.claims e = s.tokens e := by
  have : s.stack.countP (RunFrame.passing e) = 0 :=
    List.countP_eq_zero.mpr fun f hf => by rw [h f hf]; exact Bool.false_ne_true
  unfold claims
  rw [this, Nat.add_zero]

theorem Tokened.oneToken (h : Tokened 0 none s) : s.OneToken := by
  refine ⟨fun e hl hidle => ?_, h.gauge⟩
  obtain ⟨x, hx, hd⟩ : ∃ x, s.effects e = some x ∧ x.disposed = false := by
    unfold live at hl
    cases hx : s.effects e with
    | none => rw [hx] at hl; cases hl
    | some x => exact ⟨x, rfl, by simpa [hx] using hl⟩
  have hlatch := h.latch e x hx hd
  rw [inHand_none, claims_of_idle hidle] at hlatch
  have hsame : s.latched e = x.scheduled := by
    unfold latched
    rw [hx]
    rfl
  rw [hsame]
  cases hs : x.scheduled
  · rw [hs, if_neg Bool.false_ne_true] at hlatch
    exact ⟨by omega, ⟨fun h => (Bool.false_ne_true h).elim, fun h => by omega⟩⟩
  · rw [hs, if_pos rfl] at hlatch
    exact ⟨by omega, ⟨fun _ => by omega, fun _ => rfl⟩⟩

theorem live_endFlush (s : EffectHost) (rest : List RunFrame) (unwound : Bool) (e : NodeId) :
    (s.endFlush rest unwound).live e = s.live e ∧
      (s.endFlush rest unwound).latched e = s.latched e := by
  unfold endFlush
  split <;> exact ⟨rfl, rfl⟩

/-- What is left of a live effect whose token a panic has lost: a latch that nothing
releases. -/
theorem Tokened.stuck (h : Tokened k none s) (hs : s.stack = f :: rest)
    (hf : ∀ i, f.passing i = decide (e = i)) (hl : s.live e = true) :
    s.latched e = true ∧ ({ s with stack := rest } : EffectHost).claims e = 0 := by
  obtain ⟨x, hx, hd⟩ : ∃ x, s.effects e = some x ∧ x.disposed = false := by
    unfold live at hl
    cases hx : s.effects e with
    | none => rw [hx] at hl; cases hl
    | some x => exact ⟨x, rfl, by simpa [hx] using hl⟩
  have hlatch := h.latch e x hx hd
  have hclaims : s.claims e = ({ s with stack := rest } : EffectHost).claims e + 1 := by
    unfold claims
    rw [hs, List.countP_cons_of_pos (by simp [hf])]
    rfl
  rw [inHand_none, hclaims] at hlatch
  have hsame : s.latched e = x.scheduled := by
    unfold latched
    rw [hx]
    rfl
  rw [hsame]
  cases hx : x.scheduled
  · rw [hx, if_neg Bool.false_ne_true] at hlatch
    omega
  · rw [hx, if_pos rfl] at hlatch
    exact ⟨rfl, by omega⟩

theorem not_oneToken (hl : s.live e = true) (hs : s.latched e = true) (hc : s.claims e = 0) :
    ¬ s.OneToken := by
  intro h
  have hidle : ∀ f ∈ s.stack, f.passing e = false := by
    have hz : s.stack.countP (RunFrame.passing e) = 0 :=
      Nat.eq_zero_of_add_eq_zero_left hc
    exact fun f hf => Bool.eq_false_iff.mpr (List.countP_eq_zero.mp hz f hf)
  have hone := ((h.1 e hl hidle).2.mp hs)
  have hzero : s.tokens e = 0 := Nat.eq_zero_of_add_eq_zero_right hc
  omega

theorem Tokened.leak_breaks (h : Tokened 0 none s) (op : EffectOp) (hl : s.leaks op = true)
    (ht : s.step op = some t) : ¬ t.OneToken := by
  intro ho
  have hs : s.strands op = false := by
    cases op <;> first | rfl | cases hl
  have := (h.step op hs ht).gauge
  rw [hl, if_pos rfl, ho.2] at this
  omega

theorem Tokened.strand_breaks (h : Tokened 0 none s) (op : EffectOp) (hl : s.strands op = true)
    (ht : s.step op = some t) : ¬ t.OneToken := by
  cases op <;> try cases hl
  simp only [EffectHost.step] at ht
  split at ht
  · unfold strands at hl
    unfold EffectHost.unwind at ht
    cases hs : s.stack with
    | nil => simp [hs] at ht
    | cons f rest =>
      simp only [hs] at ht hl
      cases f <;> try cases hl
      case scheduling e =>
        cases ht
        obtain ⟨h1, h2⟩ := h.stuck hs (fun i => rfl) hl
        exact not_oneToken hl h1 h2
      case externalOpening run =>
        cases run with
        | none => cases hl
        | some e =>
          cases ht
          obtain ⟨h1, h2⟩ := h.stuck hs (fun i => rfl) hl
          obtain ⟨h3, h4⟩ := live_endFlush s rest true e
          exact not_oneToken (h3.trans hl) (h4.trans h1)
            (((beside_endFlush s rest true).calm.claims e).trans h2)
  · cases ht

/-- A live effect is latched exactly while one token of it is outstanding, and the gauge
counts the latched effects, as long as no subscriber's panic comes between the latch and
the token and no effect is freed while it is latched; each of these breaks it at once. -/
theorem latch_is_one_token (s : EffectHost) (h : s.ReachedKept) : s.OneToken ∧
    ∀ op t, (s.strands op || s.leaks op) = true → s.step op = some t → ¬ t.OneToken := by
  refine ⟨h.tokened.oneToken, fun op t hl ht => ?_⟩
  rcases Bool.or_eq_true_iff.mp hl with hl | hl
  · exact h.tokened.strand_breaks op hl ht
  · exact h.tokened.leak_breaks op hl ht

/-- An `EffectRun` waits in its lane; later one was discarded, and the subscriber that is
told of the next panics. -/
theorem queued_then_stranded : ∃ s t u : EffectHost, s.latched 1 = true ∧ s.tokens 1 = 1 ∧
    s.OneToken ∧ t.step .unwind = some u ∧ ¬ u.OneToken := by
  let ops : List EffectOp := [.effect true false]
  let more : List EffectOp := [.effect true false, .finish false, .discard 1, .diagnostics true,
    .mark 1 .dirty, .finish false, .panic]
  let s := (Runs.run step {} ops).getD {}
  let t := (Runs.run step {} more).getD {}
  let u := (t.step .unwind).getD {}
  have hs : s.ReachedKept := Runs.Reaches.run (fun s op => !strands s op && !leaks s op) ops .init rfl rfl
  have ht : t.ReachedKept := Runs.Reaches.run (fun s op => !strands s op && !leaks s op) more .init rfl rfl
  exact ⟨s, t, u, rfl, rfl, (latch_is_one_token s hs).1, rfl,
    (latch_is_one_token t ht).2 .unwind u rfl rfl⟩

/-- The subscriber of `EffectScheduled` panics: the effect keeps a latch that no later write
gets past. -/
theorem subscriber_panic_strands_the_latch : ∃ s t : EffectHost,
    Runs.Reaches step (fun _ _ => true = true) {} s ∧ s.stack = [] ∧ s.unwinding = false ∧
    s.live 1 = true ∧ s.latched 1 = true ∧ s.tokens 1 = 0 ∧ ¬ s.OneToken ∧
    Runs.Reaches step (fun _ _ => true = true) s t ∧ t.stack = [] ∧ t.tokens 1 = 0 := by
  let ops : List EffectOp := [.effect false false, .flushNow, .next, .finish false,
    .finish false, .next, .next, .diagnostics true, .mark 1 .dirty, .finish false, .panic,
    .unwind, .catchUnwind]
  let s := (Runs.run step {} ops).getD {}
  let more : List EffectOp := [.mark 1 .dirty, .finish false, .finish false]
  let t := (Runs.run step s more).getD {}
  refine ⟨s, t, Runs.Reaches.run (fun _ _ => true) ops .init rfl rfl, rfl, rfl, rfl, rfl, rfl, ?_,
    Runs.Reaches.run (fun _ _ => true) more .init rfl rfl, rfl, rfl⟩
  intro h
  have := (h.1 1 rfl (by intro f hf; cases hf)).2.mp rfl
  exact absurd this (by decide)

end EffectHost

end Adaptite

import Adaptite.Standings

set_option autoImplicit false

namespace Adaptite

open NetFrame

namespace NetHost

variable {V : Type} {layout : Layout} {s t : NetHost V} {n e : NodeId} {rest : List NetFrame}
  {op : NetStep V}

section Lanes

theorem Lane.attempt (h : Lane s.net) (e : NodeId) : Lane (s.attempt e).net :=
  (serene_attempt s e).lane h

theorem Lane.runScheduled (h : Lane s.net) {jobs : List NodeId}
    (hj : s.net.pendingJobs = e :: jobs) :
    Lane (runScheduled { s with net := { s.net with pendingJobs := jobs } } e).net := by
  obtain ⟨x, hx, -⟩ := h.queued e (by rw [hj]; exact List.mem_cons_self)
  have hl := h.unlatch hj
  have hclean : Lane (({ s.net with pendingJobs := jobs }.unlatch e).modifyEffect e fun x =>
      { x with state := .clean }) :=
    hl.rel (rel_modifyEffect _ e _ (fun _ _ hs => hs) fun _ => id) rfl
  unfold NetHost.runScheduled
  dsimp only
  rw [hx]
  dsimp only
  split
  · exact hl
  · split
    · exact Lane.attempt (s := { s with
        net := ({ s.net with pendingJobs := jobs }.unlatch e).modifyEffect e fun x =>
          { x with state := .clean } }) hclean e
    · exact hclean
    · exact hclean

theorem Lane.settle (h : Lane s.net) (untracked : ℕ) : Lane (s.settle rest e untracked).net := by
  have hl := h.same (sameLane_leave s.net untracked)
  unfold NetHost.settle
  dsimp only
  split
  · exact hl.scheduleEffect e
  · exact hl

theorem Lane.recover (h : Lane s.net) (e : NodeId) : Lane (s.recover rest e).net := by
  refine Lane.scheduleEffect ?_ e
  exact h.rel (rel_modifyEffect _ e _ (fun _ _ hs => hs) fun _ => id) rfl

theorem Lane.finish (h : Lane s.net) {v : V} (ht : s.finish v = some t) : Lane t.net := by
  unfold NetHost.finish at ht
  split at ht
  · obtain ⟨x, -, rfl⟩ := Option.map_eq_some_iff.mp ht
    exact h.same (sameLane_conclude x v)
  · cases ht
    unfold NetHost.enterBody
    dsimp only
    split <;> exact h.same ⟨rfl, rfl⟩
  · cases ht
    exact h.settle _
  · cases ht
    exact h.same ⟨rfl, rfl⟩
  · cases ht
    exact h.same ⟨rfl, rfl⟩
  · cases ht

theorem Lane.next (h : Lane s.net) (ht : s.next layout = some t) : Lane t.net := by
  unfold NetHost.next at ht
  split at ht
  · split at ht
    · cases ht
      exact h.same ⟨rfl, rfl⟩
    · rename_i hj
      cases ht
      exact h.runScheduled hj
  · cases ht
    exact h.same ⟨rfl, rfl⟩
  · split at ht
    · cases ht
      exact h
    · rename_i n d version entries rest _ _
      cases ht
      exact h.same (sameLane_refresh { s with frames := .awaiting n d version entries :: rest } d)
  · rename_i n d version entries rest _
    split at ht
    · cases ht
      exact (serene_changed { s with frames := rest } n).lane h
    · cases ht
      exact h
  · rename_i n tracked rest _
    cases ht
    exact h.same (sameLane_lend { s with frames := rest } n tracked)
  · cases ht

theorem Lane.unwind (h : Lane s.net) (ht : s.unwind = some t) : Lane t.net := by
  unfold NetHost.unwind at ht
  split at ht
  · cases ht
  · rename_i n untracked rest _
    obtain ⟨x, -, rfl⟩ := Option.map_eq_some_iff.mp ht
    have hl := sameLane_endCompute s.net n x untracked
    exact h.same ⟨hl.1, hl.2⟩
  · cases ht
    exact h.same (sameLane_leave s.net _)
  · cases ht
    exact h.recover _
  · cases ht
    exact h.recover _
  all_goals
    cases ht
    exact h.same ⟨rfl, rfl⟩

/-- In every run, also through panics. -/
theorem Lane.step (h : Lane s.net) (hw : s.Wired) (ht : s.step layout op = some t) :
    Lane t.net := by
  cases op <;> simp only [NetHost.step] at ht <;> split at ht <;> try cases ht
  case signal => exact h.same ⟨rfl, rfl⟩
  case thunk => exact h.same ⟨rfl, rfl⟩
  case memo => exact h.same ⟨rfl, rfl⟩
  case effect body _ => exact (h.addEffect hw.net _).scheduleEffect s.net.nextNode
  case read m tracked _ => exact h.same (sameLane_read s m tracked)
  case set m v _ => exact (serene_set hw m v).lane h
  case update m k _ => exact (serene_overwrite hw m k).lane h
  case untrack => exact h.same ⟨rfl, rfl⟩
  case flushNow =>
    unfold NetHost.flushNow
    split
    · exact h
    · exact h.same ⟨rfl, rfl⟩
  case finish => exact h.finish ht
  case next => exact h.next ht
  case panic => exact h
  case catchUnwind => exact h
  case unwind => exact h.unwind ht

end Lanes

section Epochs

theorem epoch_recompute (s : NetHost V) (n : NodeId) :
    (s.recompute n).net.drainEpoch = s.net.drainEpoch := by
  unfold NetHost.recompute
  split
  · rfl
  · split
    · rfl
    · unfold begin Net.beginCompute Net.occupy
      split <;> rfl

theorem epoch_refresh (s : NetHost V) (n : NodeId) :
    (s.refresh n).net.drainEpoch = s.net.drainEpoch := by
  unfold NetHost.refresh
  split
  · rfl
  · split
    · rfl
    · rfl
    · exact epoch_recompute s n

theorem epoch_scheduleEffect (net : Net V) (e : NodeId) :
    (net.scheduleEffect e).drainEpoch = net.drainEpoch := by
  unfold Net.scheduleEffect
  split
  · rfl
  · split <;> rfl

theorem epoch_leave (net : Net V) (untracked : ℕ) :
    (net.leave untracked).drainEpoch = net.drainEpoch := by
  unfold Net.leave
  split <;> rfl

theorem epoch_attempt (s : NetHost V) (e : NodeId) :
    (s.attempt e).net.drainEpoch = s.net.drainEpoch := by
  unfold NetHost.attempt
  dsimp only
  split <;> rfl

theorem epoch_endCompute (net : Net V) (n : NodeId) (x : NetComputed V) (untracked : ℕ) :
    (net.endCompute n x untracked).drainEpoch = net.drainEpoch := by
  unfold Net.endCompute Net.vacate
  split
  · exact epoch_leave net untracked
  · exact epoch_leave net untracked

theorem epoch_trigger (net : Net V) (n : NodeId) :
    (net.trigger n).drainEpoch = net.drainEpoch := by
  refine Net.markDependents_keeps (P := fun t => t.drainEpoch = net.drainEpoch) (fun _ _ _ h => h)
    (fun t e mark h => ?_) _ _ _ n rfl
  unfold Net.markEffect
  split
  · exact h
  · dsimp only
    split <;> exact h

theorem epoch_overwrite (s : NetHost V) (n : NodeId) (k : V → V) :
    (s.overwrite n k).net.drainEpoch = s.net.drainEpoch := by
  unfold NetHost.overwrite
  split
  · rfl
  · split
    · rfl
    · exact epoch_trigger (s.net.setValue n _) n

theorem epoch_lend (s : NetHost V) (n : NodeId) (tracked : Bool) :
    (s.lend layout n tracked).net.drainEpoch = s.net.drainEpoch := by
  have hrec : (if tracked = true then s.net.recordEdge layout n else s.net).drainEpoch =
      s.net.drainEpoch := by
    split
    · rcases @Net.recordEdge_eq V s.net layout n with hr | ⟨z, rest, -, -, hr⟩
      · rw [hr]
      · rw [hr]
        rfl
    · rfl
  unfold NetHost.lend
  split
  · rfl
  · dsimp only
    split
    · exact hrec
    · exact hrec

theorem epoch_next (ht : s.next layout = some t) : t.net.drainEpoch = s.net.drainEpoch := by
  unfold NetHost.next at ht
  split at ht
  · split at ht
    · cases ht
      rfl
    · cases ht
      unfold NetHost.runScheduled
      split
      · rfl
      · dsimp only
        split
        · rfl
        · split
          · exact epoch_attempt _ _
          · rfl
          · rfl
  · cases ht
    rfl
  · split at ht
    · cases ht
      rfl
    · cases ht
      exact epoch_refresh _ _
  · split at ht
    · cases ht
      unfold NetHost.changed
      split
      · exact epoch_recompute _ _
      · exact epoch_attempt _ _
    · cases ht
      rfl
  · rename_i n tracked rest _
    cases ht
    exact epoch_lend { s with frames := rest } n tracked
  · cases ht

theorem epoch_finish {v : V} (ht : s.finish v = some t) :
    t.net.drainEpoch = s.net.drainEpoch := by
  unfold NetHost.finish at ht
  split at ht
  · rename_i n untracked rest _
    obtain ⟨x, -, rfl⟩ := Option.map_eq_some_iff.mp ht
    have he := epoch_endCompute s.net n x untracked
    unfold NetHost.conclude
    dsimp only
    split
    · exact he
    · split
      · exact he
      · unfold Net.accept
        split <;> exact he
  · cases ht
    unfold NetHost.enterBody
    dsimp only
    split <;> rfl
  · cases ht
    unfold NetHost.settle
    dsimp only
    split
    · exact (epoch_scheduleEffect _ _).trans (epoch_leave s.net _)
    · exact epoch_leave s.net _
  · cases ht
    rfl
  · cases ht
    rfl
  · cases ht

theorem epoch_unwind (ht : s.unwind = some t) : t.net.drainEpoch = s.net.drainEpoch := by
  unfold NetHost.unwind at ht
  split at ht
  · cases ht
  · rename_i n untracked rest _
    obtain ⟨x, -, rfl⟩ := Option.map_eq_some_iff.mp ht
    exact epoch_endCompute s.net n x untracked
  · cases ht
    exact epoch_leave s.net _
  · cases ht
    exact epoch_scheduleEffect _ _
  · cases ht
    exact epoch_scheduleEffect _ _
  all_goals
    cases ht
    rfl

/-- Drains are only opened. -/
theorem epoch_step (ht : s.step layout op = some t) : s.net.drainEpoch ≤ t.net.drainEpoch := by
  cases op <;> simp only [NetHost.step] at ht <;> split at ht <;> try cases ht
  case signal => exact le_refl _
  case thunk => exact le_refl _
  case memo => exact le_refl _
  case effect body _ =>
    have he : (s.net.newEffect body).drainEpoch = s.net.drainEpoch := epoch_scheduleEffect _ _
    exact he.ge
  case read m tracked _ =>
    unfold NetHost.read
    split
    · exact le_refl _
    · split
      · exact le_refl _
      · exact (epoch_refresh (s.push (.reading m tracked)) m).ge
    · exact le_refl _
  case set m v _ =>
    unfold NetHost.set
    split
    · exact le_refl _
    · split
      · exact le_refl _
      · exact (epoch_overwrite s m _).ge
  case update m k _ => exact (epoch_overwrite s m k).ge
  case untrack => exact le_refl _
  case flushNow =>
    unfold NetHost.flushNow
    split
    · exact le_refl _
    · change s.net.drainEpoch ≤ if s.net.flushDepth = 0 then _ else _
      split <;> omega
  case finish => exact (epoch_finish ht).ge
  case next => exact (epoch_next ht).ge
  case panic => exact le_refl _
  case catchUnwind => exact le_refl _
  case unwind => exact (epoch_unwind ht).ge

end Epochs

/-- The step changes a signal: nothing borrows it, and a `set` is not suppressed. -/
def writes (s : NetHost V) : NetStep V → Bool
  | .set n v => (s.net.signals n).any fun x => !x.same x.value v && s.net.borrows n == 0
  | .update n _ => (s.net.signals n).isSome && s.net.borrows n == 0
  | _ => false

/-- How often a run of each effect was taken from the lane, and how many writes were made. -/
structure Tally where
  taken : NodeId → ℕ := fun _ => 0
  written : ℕ := 0

/-- The effect whose run the step takes from the lane. -/
def takes (s : NetHost V) : NetStep V → Option NodeId
  | .next =>
    match s.frames with
    | .flushing :: _ => s.net.pendingJobs.head?
    | _ => none
  | _ => none

def tally (s : NetHost V) (op : NetStep V) (k : Tally) : Tally where
  taken e := if s.takes op = some e then k.taken e + 1 else k.taken e
  written := if s.writes op then k.written + 1 else k.written

/-- A step, and the tally of the run that it ends. -/
def tallied (layout : Layout) (r : NetHost V × Tally) (op : NetStep V) :
    Option (NetHost V × Tally) :=
  (r.1.step layout op).map fun t => (t, r.1.tally op r.2)

section Budget

theorem takes_of_taken {a : Standing} {queued : Bool} (h : s.Taken op e a queued) :
    s.takes op = some e := by
  obtain ⟨rest, hf⟩ := h.flush
  obtain ⟨jobs, hj, -⟩ := h.first
  unfold takes
  rw [h.next]
  simp only [hf, hj, List.head?_cons]

theorem lane_of_takes (h : s.takes op = some e) : ∃ rest jobs, op = .next ∧
    s.frames = .flushing :: rest ∧ s.net.pendingJobs = e :: jobs := by
  unfold takes at h
  split at h
  · split at h
    · rename_i rest hf
      obtain ⟨jobs, hj⟩ : ∃ jobs, s.net.pendingJobs = e :: jobs := by
        cases hl : s.net.pendingJobs with
        | nil => rw [hl] at h; cases h
        | cons i jobs => rw [hl] at h; cases h; exact ⟨jobs, rfl⟩
      exact ⟨rest, jobs, rfl, hf, hj⟩
    · cases h
  · cases h

/-- The runs that passed the guard in the present drain. -/
def spent (s : NetHost V) (a : Standing) : ℕ :=
  min (if a.epoch = some s.net.drainEpoch then a.runs else 0) maxRunsPerFlush

/-- What may still be queued without a write or a run that passes the guard. -/
def weight (a : Standing) : ℕ :=
  (if a.latched then 1 else 0) + (if a.state = .check then 1 else 0) + a.roles.length

/-- Every run that was taken since the epoch `start` has been paid for. -/
structure Paid (start : ℕ) (e : NodeId) (r : NetHost V × Tally) : Prop where
  since : start ≤ r.1.net.drainEpoch
  absent : r.1.standing e = none → r.2.taken e = 0
  paid : ∀ a, r.1.standing e = some a → r.2.taken e + weight a ≤
    2 * r.2.written + maxRunsPerFlush * (r.1.net.drainEpoch - start) + r.1.spent a + 2

theorem spent_le (s : NetHost V) (a : Standing) : s.spent a ≤ maxRunsPerFlush :=
  Nat.min_le_right _ _

/-- A drain that is opened resets the count of the guard, and pays for it. -/
theorem spent_since {start : ℕ} (a : Standing) (hs : start ≤ s.net.drainEpoch)
    (he : s.net.drainEpoch ≤ t.net.drainEpoch) :
    maxRunsPerFlush * (s.net.drainEpoch - start) + s.spent a ≤
      maxRunsPerFlush * (t.net.drainEpoch - start) + t.spent a := by
  by_cases h : s.net.drainEpoch = t.net.drainEpoch
  · have hsame : t.spent a = s.spent a := by
      unfold spent
      rw [h]
    rw [hsame, h]
  · have hle := spent_le s a
    obtain ⟨k, hk⟩ := Nat.exists_eq_add_of_lt (lt_of_le_of_ne he h)
    have hgrow : t.net.drainEpoch - start = (s.net.drainEpoch - start) + k + 1 := by omega
    unfold maxRunsPerFlush at hle ⊢
    omega

theorem spent_count {a b : Standing} (passed : (a.count s.net.drainEpoch).runs ≤ maxRunsPerFlush)
    (hb : b.epoch = (a.count s.net.drainEpoch).epoch)
    (hr : b.runs = (a.count s.net.drainEpoch).runs) : s.spent b = s.spent a + 1 := by
  unfold spent
  rw [hb, hr]
  revert passed
  unfold Standing.count
  dsimp only
  rw [if_pos rfl]
  split <;> intro passed <;> unfold maxRunsPerFlush at passed ⊢ <;> omega

theorem spent_le_count {a b : Standing} (hb : b.epoch = (a.count s.net.drainEpoch).epoch)
    (hr : b.runs = (a.count s.net.drainEpoch).runs) : s.spent a ≤ s.spent b := by
  unfold spent
  rw [hb, hr]
  unfold Standing.count
  dsimp only
  rw [if_pos rfl]
  split <;> omega

theorem weight_claim (a : Standing) : weight a.claim ≤ weight a + 1 := by
  unfold weight Standing.claim
  dsimp only
  rw [if_pos rfl]
  split <;> omega

theorem latched_of_taken {a : Standing} (hl : Lane s.net) (htakes : s.takes op = some e)
    (ha : s.standing e = some a) : a.latched = true := by
  obtain ⟨rest, jobs, -, -, hj⟩ := lane_of_takes htakes
  obtain ⟨x, hx, hs⟩ := hl.queued e (by rw [hj]; exact List.mem_cons_self)
  obtain ⟨y, hy, rfl⟩ := effect_of_standing ha
  cases hx.symm.trans hy
  exact hs

theorem taking_step {a : Standing} (htakes : s.takes op = some e)
    (ha : s.standing e = some a) (ht : s.step layout op = some t) :
    ∃ queued, Taking s t e a queued := by
  obtain ⟨rest, jobs, rfl, hf, hj⟩ := lane_of_takes htakes
  obtain ⟨x, hx, -⟩ := effect_of_standing ha
  refine ⟨decide (e ∈ jobs), ?_⟩
  have hnext : t = runScheduled { s with net := { s.net with pendingJobs := jobs } } e := by
    simp only [NetHost.step] at ht
    split at ht
    · cases ht
    · unfold NetHost.next at ht
      simp only [hf, hj] at ht
      rw [← hf] at ht
      exact (Option.some.inj ht).symm
  rw [hnext]
  exact taking_runScheduled hx ha jobs

/-- A run that is taken uses up a latch. Only where the guard lets it pass can it be queued
again for nothing. -/
theorem weight_taking {a b : Standing} {queued : Bool} (h : Taking s t e a queued)
    (hlatched : a.latched = true) (hb : t.standing e = some b) :
    1 + weight b + s.spent a ≤ weight a + s.spent b := by
  have hw : weight a = 1 + (if a.state = .check then 1 else 0) + a.roles.length := by
    unfold weight
    rw [hlatched, if_pos rfl]
  cases h with
  | deferred open' h =>
    cases hb.symm.trans h
    change 1 + weight { a.take queued with deferred := true } + s.spent a ≤ weight a + s.spent a
    rw [hw]
    unfold weight Standing.take
    simp
    omega
  | dropped free clean h =>
    cases hb.symm.trans h
    change 1 + weight (a.take queued) + s.spent a ≤ weight a + s.spent a
    rw [hw]
    unfold weight Standing.take
    simp
    omega
  | verifying free check h =>
    cases hb.symm.trans h
    change 1 + weight _ + s.spent a ≤ weight a + s.spent a
    rw [hw, check]
    unfold weight Standing.take
    simp
    omega
  | resetting free dirty passed h =>
    have hspent := spent_count (b := b) passed (by cases hb.symm.trans h; rfl)
      (by cases hb.symm.trans h; rfl)
    cases hb.symm.trans h
    rw [hw, hspent]
    unfold weight Standing.take Standing.count
    simp
    omega
  | refused free dirty exceeds panics h =>
    have hspent := spent_le_count (s := s) (a := a) (b := b) (by cases hb.symm.trans h; rfl)
      (by cases hb.symm.trans h; rfl)
    have hweight : 1 + weight b ≤ weight a := by
      cases hb.symm.trans h
      rw [hw]
      unfold weight Standing.take Standing.count
      simp
    omega

theorem overwrite_borrowed (n : NodeId) (k : V → V)
    (h : ((s.net.signals n).isSome && s.net.borrows n == 0) = false) :
    s.overwrite n k = s.raise := by
  unfold NetHost.overwrite
  split
  · rfl
  · rename_i x hx
    have hb : s.net.borrows n ≠ 0 := by
      intro hz
      rw [hx, hz] at h
      cases h
    exact if_pos (Nat.pos_of_ne_zero hb)

theorem standing_unwritten (hop : op.isWrite = true) (hwrites : s.writes op = false)
    (ht : s.step layout op = some t) (e : NodeId) : t.standing e = s.standing e := by
  cases op <;> try cases hop
  case set n v =>
    simp only [NetHost.step] at ht
    split at ht
    · cases ht
      unfold NetHost.set
      split
      · rfl
      · rename_i x hx
        split
        · rfl
        · rename_i hsame
          have hb : ((s.net.signals n).isSome && s.net.borrows n == 0) = false := by
            rw [hx]
            simpa [writes, hx, hsame] using hwrites
          rw [overwrite_borrowed n _ hb]
          rfl
    · cases ht
  case update n k =>
    simp only [NetHost.step] at ht
    split at ht
    · cases ht
      rw [overwrite_borrowed n k hwrites]
      rfl
    · cases ht

/-- Any other step: a latch is claimed for a write, or for a run that leaves the stack. -/
theorem weight_turn {a b : Standing} (h : Turn s op t e) (ht : s.step layout op = some t)
    (htakes : s.takes op ≠ some e) (ha : s.standing e = some a) (hb : t.standing e = some b) :
    weight b + s.spent a ≤ weight a + s.spent b + 2 * if s.writes op then 1 else 0 := by
  have hkey : ∀ {a' : Standing}, s.standing e = some a' → a' = a := fun h =>
    Option.some.inj (h.symm.trans ha)
  cases h with
  | aside h hd =>
    cases (hb.symm.trans h).trans ha
    omega
  | created fresh hs h => cases hs.symm.trans ha
  | marked a' state hop hs stale raised h =>
    cases hkey hs
    by_cases hwrites : s.writes op = false
    · cases (hb.symm.trans (standing_unwritten hop hwrites ht e)).trans ha
      omega
    cases hb.symm.trans h
    have hc := weight_claim a
    rw [Bool.not_eq_false] at hwrites
    rw [hwrites, if_pos rfl]
    change weight { a.claim with state } + s.spent a ≤ weight a + s.spent a + 2
    have hle : weight { a.claim with state } ≤ weight a.claim + 1 := by
      unfold weight
      dsimp only
      split <;> split <;> omega
    omega
  | taken a' queued ht how => exact absurd (takes_of_taken ht) htakes
  | skipped a' roles rest hop hf hs hr h =>
    cases hkey hs
    cases hb.symm.trans h
    change weight { a with roles } + s.spent a ≤ weight a + s.spent a + _
    unfold weight
    rw [hr, List.length_cons]
    dsimp only
    omega
  | found a' roles d version entries rest hop hf hv hs hr passed h =>
    cases hkey hs
    have hspent := spent_count (b := b) passed (by cases hb.symm.trans h; rfl)
      (by cases hb.symm.trans h; rfl)
    cases hb.symm.trans h
    rw [hspent]
    unfold weight Standing.count
    rw [hr]
    dsimp only [List.length_cons]
    omega
  | stopped a' roles d version entries rest hop hf hv hs hr exceeds panics h =>
    cases hkey hs
    have hspent := spent_le_count (s := s) (a := a) (b := b) (by cases hb.symm.trans h; rfl)
      (by cases hb.symm.trans h; rfl)
    cases hb.symm.trans h
    unfold weight
    unfold Standing.count at hspent ⊢
    rw [hr]
    dsimp only [List.length_cons] at hspent ⊢
    omega
  | entered a' roles v rest hop hf hs hr idle started cleared h =>
    cases hkey hs
    cases hb.symm.trans h
    change weight { a with roles := .running :: roles } + s.spent a ≤ weight a + s.spent a + _
    unfold weight
    rw [hr]
    dsimp only [List.length_cons]
    omega
  | barred a' roles v rest hop hf hs hr active h =>
    cases hkey hs
    cases hb.symm.trans h
    change weight { a with roles } + s.spent a ≤ weight a + s.spent a + _
    unfold weight
    rw [hr]
    dsimp only [List.length_cons]
    omega
  | ended a' roles v untracked rest hop hf hs hr h =>
    cases hkey hs
    have hc := weight_claim a
    have hroles : weight a = (if a.latched then 1 else 0) + (if a.state = .check then 1 else 0) +
        (roles.length + 1) := by
      unfold weight
      rw [hr, List.length_cons]
    cases hd : a.deferred with
    | true =>
      rw [hd, if_pos rfl] at h
      cases hb.symm.trans h
      change weight { a.claim with deferred := false, roles } + s.spent a ≤
        weight a + s.spent a + _
      unfold weight Standing.claim at hc ⊢
      dsimp only at hc ⊢
      rw [hr, List.length_cons] at hc ⊢
      omega
    | false =>
      rw [hd, if_neg Bool.false_ne_true] at h
      cases hb.symm.trans h
      change weight { a with deferred := false, roles } + s.spent a ≤ weight a + s.spent a + _
      rw [hroles]
      unfold weight
      dsimp only
      omega
  | recovered a' roles f rest hop hf hv hs hr h =>
    cases hkey hs
    have hc := weight_claim a
    cases hb.symm.trans h
    change weight { a.claim with state := .dirty, roles } + s.spent a ≤ weight a + s.spent a + _
    unfold weight Standing.claim at hc ⊢
    dsimp only at hc ⊢
    rw [hr, List.length_cons] at hc ⊢
    rw [if_neg (show ¬ State.dirty = State.check from State.noConfusion)]
    omega
  | aborted a' r roles f rest hop hf hw hs hr h =>
    cases hkey hs
    cases hb.symm.trans h
    change weight { a with roles } + s.spent a ≤ weight a + s.spent a + _
    unfold weight
    rw [hr]
    dsimp only [List.length_cons]
    omega

/-- In a step everything that is taken is paid for. -/
theorem Paid.step {start : ℕ} {k : Tally} (h : Paid start e (s, k)) (hw : s.Wired)
    (hl : Lane s.net) (ht : s.step layout op = some t) : Paid start e (t, s.tally op k) := by
  have hepoch := epoch_step ht
  have hnone : s.standing e = none → (s.tally op k).taken e = 0 := by
    intro hs
    have htakes : s.takes op ≠ some e := by
      intro htakes
      obtain ⟨rest, jobs, -, -, hj⟩ := lane_of_takes htakes
      obtain ⟨x, hx, -⟩ := hl.queued e (by rw [hj]; exact List.mem_cons_self)
      rw [standing_of_effect hx] at hs
      cases hs
    exact (if_neg htakes).trans (h.absent hs)
  refine ⟨h.since.trans hepoch, fun hs => ?_, fun b hb => ?_⟩
  · refine hnone ?_
    by_contra hne
    obtain ⟨a, ha⟩ := Option.ne_none_iff_exists'.mp hne
    obtain ⟨b, hb⟩ := (turn_step hw hl (standing_computed hw ha) ht).persists ha
    rw [hs] at hb
    cases hb
  · dsimp only
    cases ha : s.standing e with
    | none =>
      obtain ⟨rfl, rfl⟩ := standing_made hw hl ht ha hb
      have hroles := roles_fresh hw (le_refl s.net.nextNode)
      rw [hnone ha]
      unfold weight
      rw [hroles]
      simp
    | some a =>
      have hpaid := h.paid a ha
      have hspent := spent_since (t := t) b h.since hepoch
      have hwritten : (s.tally op k).written = k.written + if s.writes op then 1 else 0 := by
        unfold tally
        dsimp only
        split <;> rfl
      have htaken : (s.tally op k).taken e =
          k.taken e + if s.takes op = some e then 1 else 0 := by
        unfold tally
        dsimp only
        split <;> rfl
      have hweight : (if s.takes op = some e then 1 else 0) + weight b + s.spent a ≤
          weight a + s.spent b + 2 * if s.writes op then 1 else 0 := by
        by_cases htakes : s.takes op = some e
        · obtain ⟨queued, hq⟩ := taking_step htakes ha ht
          have hle := weight_taking hq (latched_of_taken hl htakes ha) hb
          rw [if_pos htakes]
          omega
        · have hle := weight_turn (turn_step hw hl (standing_computed hw ha) ht) ht htakes ha hb
          rw [if_neg htakes]
          omega
      rw [hwritten, htaken]
      dsimp only at hpaid hspent
      omega

end Budget

/-- The states that a run reaches, with panics or without, caught or not. -/
def Reached (layout : Layout) (s : NetHost V) : Prop :=
  Runs.Reaches (NetHost.step layout) (fun _ _ => true = true) {} s

theorem Reached.lane (h : s.Reached layout) : s.Wired ∧ Lane s.net := by
  refine h.invariant (fun s => s.Wired ∧ Lane s.net) ⟨wired_empty, List.nodup_nil, ?_⟩ ?_
  · exact fun _ he => by cases he
  · exact fun s op t hs _ ht => ⟨hs.1.step op ht, hs.2.step hs.1 ht⟩

/-- From every state in which no run of the effect is on the stack, in every run: the runs of
the effect that flushes take from the lane are at most twice the writes that change a signal, a
hundred for the drain that was open and a hundred for each that was opened since, and two. So a
flush goes on for ever only where it writes for ever. -/
theorem runs_taken_are_paid_for (s t : NetHost V) (k : Tally) (e : NodeId)
    (h : s.Reached layout) (idle : s.roles e = [])
    (run : Runs.Reaches (tallied layout) (fun _ _ => true = true) (s, {}) (t, k)) :
    k.taken e ≤ 2 * k.written +
      maxRunsPerFlush * (t.net.drainEpoch - s.net.drainEpoch + 1) + 2 := by
  have hstart : (s.Wired ∧ Lane s.net) ∧ Paid s.net.drainEpoch e (s, {}) := by
    refine ⟨h.lane, le_refl _, fun _ => rfl, fun a ha => ?_⟩
    obtain ⟨x, -, rfl⟩ := effect_of_standing ha
    unfold weight
    dsimp only
    rw [idle, List.length_nil]
    split <;> split <;> omega
  obtain ⟨hlane, hpaid⟩ := run.invariant
    (fun r => (r.1.Wired ∧ Lane r.1.net) ∧ Paid s.net.drainEpoch e r) hstart (by
      rintro ⟨s', k'⟩ op r ⟨⟨hw, hl⟩, hp⟩ - hstep
      obtain ⟨u, hu, rfl⟩ := Option.map_eq_some_iff.mp hstep
      exact ⟨⟨hw.step op hu, hl.step hw hu⟩, hp.step hw hl hu⟩)
  cases ha : t.standing e with
  | none =>
    have hzero := hpaid.absent ha
    dsimp only at hzero
    omega
  | some a =>
    have hle := hpaid.paid a ha
    have hspent := spent_le t a
    dsimp only at hle
    unfold maxRunsPerFlush at hle hspent ⊢
    omega

/-- An effect that overwrites, once, the signal that it has read. -/
def clamping : List (NetStep ℕ) :=
  [.signal 9 (· == ·), .effect (.get 1 fun v => if v = 9 then .set 1 5 (.ret v) else .ret v),
    .flushNow, .next, .finish 0, .read 1 true, .next, .finish 0, .set 1 5, .finish 0, .next,
    .finish 0, .read 1 true, .next, .finish 0, .finish 0, .next]

theorem clamping_runs_are_paid_for : ∃ (t : NetHost ℕ) (k : Tally),
    Runs.Reaches (tallied .insertion) (fun _ _ => true = true) ({}, {}) (t, k) ∧
    t.frames = [] ∧ k.taken 2 = 2 ∧ k.written = 1 ∧
    k.taken 2 ≤ 2 * k.written +
      maxRunsPerFlush * (t.net.drainEpoch - ({} : NetHost ℕ).net.drainEpoch + 1) + 2 := by
  obtain ⟨⟨t, k⟩, hr, h⟩ : ∃ r : NetHost ℕ × Tally,
      Runs.Reaches (tallied .insertion) (fun _ _ => true = true) ({}, {}) r ∧
      r.1.frames = [] ∧ r.2.taken 2 = 2 ∧ r.2.written = 1 :=
    ⟨Runs.after (tallied .insertion) ({}, {}) clamping,
      Runs.Reaches.after (fun _ _ => true) _ .init (by decide +kernel) (by decide +kernel),
      by decide +kernel, by decide +kernel, by decide +kernel⟩
  exact ⟨t, k, hr, h.1, h.2.1, h.2.2, runs_taken_are_paid_for {} t k 2 .init rfl hr⟩

end NetHost

end Adaptite

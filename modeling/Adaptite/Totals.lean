import Adaptite.Pairing

set_option autoImplicit false

namespace Adaptite

/-- The count of `c` in the flushes that are open. -/
def openTotal (c : Counter) : List FlushStats → ℕ
  | [] => 0
  | stats :: rest => stats.count c + openTotal c rest

/-- The count of `c` in the flushes that have been reported. -/
def closedTotal (c : Counter) : List DiagnosticEvent → ℕ
  | [] => 0
  | .flushFinished _ _ stats :: rest => stats.count c + closedTotal c rest
  | _ :: rest => closedTotal c rest

/-- The events delivered that `c` accounts for. -/
def delivered (c : Counter) (events : List DiagnosticEvent) : ℕ :=
  events.countP fun event => event.counter = some c

theorem closedTotal_append (c : Counter) (l m : List DiagnosticEvent) :
    closedTotal c (l ++ m) = closedTotal c l + closedTotal c m := by
  induction l with
  | nil => simp [closedTotal]
  | cons event l ih =>
    cases event with
    | flushFinished epoch jobs stats =>
      simp only [List.cons_append, closedTotal, ih, Nat.add_assoc]
    | _ => simpa only [List.cons_append, closedTotal] using ih

namespace Accounting

/-- The count of `c` that has not been reported. -/
def outstanding (a : Accounting) (c : Counter) : ℕ := a.pending.count c + openTotal c a.opened

theorem increment_count (stats : FlushStats) (c d : Counter) (h : stats.count c < u32Max) :
    (stats.increment c).count d = stats.count d + if d = c then 1 else 0 := by
  unfold FlushStats.increment saturatingU32
  by_cases hd : d = c
  · subst hd
    simp only [Function.update_self, ↓reduceIte]
    exact min_eq_left h
  · simp [hd]

theorem outstanding_record (a : Accounting) (c d : Counter) (h : a.current.count c < u32Max) :
    (a.record c).outstanding d = a.outstanding d + if d = c then 1 else 0 := by
  unfold record outstanding
  unfold current at h
  cases ho : a.opened with
  | nil =>
    rw [ho] at h
    have hadd := increment_count a.pending c d h
    simp only [openTotal]
    omega
  | cons stats rest =>
    rw [ho] at h
    have hadd := increment_count stats c d h
    simp only [openTotal]
    omega

theorem record_opened (a : Accounting) (c : Counter) (h : (a.record c).opened ≠ []) :
    (a.record c).pending = a.pending ∧ a.opened ≠ [] := by
  unfold record at h ⊢
  cases ho : a.opened with
  | nil => simp [ho] at h
  | cons stats rest => simp

theorem outstanding_openFlush (a : Accounting) (jobs : ℕ) (c : Counter) :
    (a.openFlush jobs).outstanding c = a.outstanding c := by
  simp [openFlush, outstanding, openTotal]

end Accounting

namespace SpanHost

variable {J : Type}

def fits (s : SpanHost J) (c : Counter) : Bool := s.flushes.current.count c < u32Max

/-- The work of an operation is recorded with an event, in totals with room for it. -/
def accounted (s : SpanHost J) : SpanOp J → Bool
  | .subscribe | .unsubscribe _ => false
  | .createEffect orphan => !orphan && s.fits .effectsQueued
  | .scheduleEffect effect =>
    s.origin effect && s.fits (if s.disposed effect || s.scheduled effect then .effectsCoalesced
      else .effectsQueued)
  | .startRun effect => s.origin effect && s.fits .effectsRun
  | .skipRun _ => s.fits .effectsSkipped
  | .disposeEffect effect => s.disposed effect || s.fits .effectsDisposed
  | .verify node _ => s.origin node && s.fits .computedVerified
  | .recompute _ => s.fits .computedRecomputed
  | .write node => !s.origin node || s.fits .rootWrites
  | .suppressWrite node => s.origin node && s.fits .writesSuppressed
  | .finish changed =>
    match s.calls with
    | .recomputing _ _ true :: _ =>
      s.fits (if changed then .computedChanged else .computedSuppressed)
    | _ => true
  | _ => true

def first : ℕ := 1

structure Balanced (s : SpanHost J) : Prop where
  alone : s.diagnostics = [first]
  totals : ∀ c, closedTotal c (s.received first) + s.flushes.outstanding c =
    delivered c (s.received first)
  taken : s.flushes.opened ≠ [] → ∀ c, s.flushes.pending.count c = 0
  settled : ∀ epoch jobs stats,
    (s.received first).getLast? = some (.flushFinished epoch jobs stats) →
      ∀ c, s.flushes.pending.count c = 0

section Balance

variable {s t : SpanHost J}

theorem Balanced.active (h : s.Balanced) : s.active = true := by
  unfold SpanHost.active
  rw [h.alone]
  rfl

theorem emit_received (h : s.diagnostics = [first]) (event : DiagnosticEvent) :
    (s.emit event).received first = s.received first ++ [event] := by
  unfold emit
  simp [h]

theorem Balanced.work (h : s.Balanced) {c : Counter} {event : DiagnosticEvent}
    (he : event.counter = some c) (hf : s.fits c = true) :
    ((s.emit event).record c).Balanced := by
  have hnot : ∀ epoch jobs stats, event ≠ .flushFinished epoch jobs stats := by
    rintro epoch jobs stats rfl
    cases he
  have hact : (s.emit event).active = true := h.active
  unfold record
  rw [if_pos hact]
  refine ⟨h.alone, fun d => ?_, fun ho d => ?_, fun epoch jobs stats hlast => ?_⟩
  · change closedTotal d ((s.emit event).received first) + (s.flushes.record c).outstanding d =
      delivered d ((s.emit event).received first)
    have hout := s.flushes.outstanding_record c d (by simpa [fits] using hf)
    have hclosed : closedTotal d [event] = 0 := by
      cases event <;> first | rfl | exact absurd rfl (hnot _ _ _)
    have hcount : delivered d [event] = if d = c then 1 else 0 := by
      simp [delivered, List.countP_cons, he, eq_comm]
    rw [emit_received h.alone, closedTotal_append, hclosed, hout, delivered, List.countP_append]
    change _ = delivered d (s.received first) + delivered d [event]
    rw [hcount, ← h.totals d]
    omega
  · obtain ⟨hpending, hopened⟩ := s.flushes.record_opened c ho
    exact (congrArg (fun stats => stats.count d) hpending).trans (h.taken hopened d)
  · have hlast' : ((s.emit event).received first).getLast? = some (.flushFinished epoch jobs stats) :=
      hlast
    rw [emit_received h.alone, List.getLast?_append] at hlast'
    exact absurd (by simpa using hlast') (hnot epoch jobs stats)

theorem record_emit (s : SpanHost J) (c : Counter) (event : DiagnosticEvent) :
    (s.record c).emit event = (s.emit event).record c := by
  have hact : (s.emit event).active = s.active := rfl
  unfold record
  rw [hact]
  split <;> rfl

theorem Balanced.note (h : s.Balanced) {event : DiagnosticEvent} (he : event.counter = none)
    (hnot : ∀ epoch jobs stats, event ≠ .flushFinished epoch jobs stats) :
    (s.emit event).Balanced := by
  refine ⟨h.alone, fun d => ?_, h.taken, fun epoch jobs stats hlast => ?_⟩
  · have hclosed : closedTotal d [event] = 0 := by
      cases event <;> first | rfl | exact absurd rfl (hnot _ _ _)
    have hcount : delivered d [event] = 0 := by simp [delivered, he]
    rw [emit_received h.alone, closedTotal_append, hclosed, delivered, List.countP_append]
    change _ = delivered d (s.received first) + delivered d [event]
    rw [hcount, ← h.totals d]
    rfl
  · rw [emit_received h.alone, List.getLast?_append] at hlast
    exact absurd (by simpa using hlast) (hnot epoch jobs stats)

theorem Balanced.same (h : s.Balanced) (hd : t.diagnostics = s.diagnostics)
    (hr : t.received = s.received) (hf : t.flushes = s.flushes) : t.Balanced where
  alone := hd.trans h.alone
  totals c := by rw [hr, hf]; exact h.totals c
  taken := by rw [hf]; exact h.taken
  settled epoch jobs stats hlast := by
    rw [hr] at hlast
    rw [hf]
    exact h.settled epoch jobs stats hlast

theorem Balanced.announce (h : s.Balanced) (epoch : ℕ) : (s.announce epoch).Balanced := by
  unfold SpanHost.announce
  dsimp only
  rw [if_pos h.active]
  have hopened : Balanced
      { s with flushes := s.flushes.openFlush s.flush.pendingJobs.length } := by
    refine ⟨h.alone, fun d => ?_, fun _ _ => rfl, fun _ _ _ _ _ => rfl⟩
    change closedTotal d (s.received first) + (s.flushes.openFlush _).outstanding d = _
    rw [Accounting.outstanding_openFlush]
    exact h.totals d
  exact hopened.note rfl (by simp)

/-- The totals of a flush move from the open ones to the reported ones. -/
theorem Balanced.conclude (h : s.Balanced) (epoch : ℕ) : (s.conclude epoch).Balanced := by
  unfold SpanHost.conclude Accounting.closeFlush
  dsimp only
  rw [if_pos h.active]
  cases ho : s.flushes.opened with
  | nil => exact h
  | cons stats rest =>
    have hzero := h.taken (by simp [ho])
    refine ⟨h.alone, fun d => ?_, fun _ => hzero, fun _ _ _ _ => hzero⟩
    have hd := h.totals d
    have hrec := emit_received (s := { s with flushes := { s.flushes with opened := rest } }) h.alone
      (.flushFinished epoch s.flush.pendingJobs.length
        { stats with jobsAtFinish := saturatingU32 s.flush.pendingJobs.length })
    dsimp only at hrec ⊢
    rw [hrec, closedTotal_append, delivered, List.countP_append]
    change _ = delivered d (s.received first) + 0
    rw [← hd]
    simp only [closedTotal, Accounting.outstanding, ho, openTotal, emit]
    omega

theorem Balanced.scheduleEffect (h : s.Balanced) (effect : NodeId) (ho : s.origin effect = true)
    (hf : s.fits (if s.disposed effect || s.scheduled effect then .effectsCoalesced
      else .effectsQueued) = true) : (s.scheduleEffect effect).Balanced := by
  unfold SpanHost.scheduleEffect emitIf
  dsimp only
  have hlatch : (if s.disposed effect then s
      else { s with scheduled := Function.update s.scheduled effect true }).Balanced := by
    split
    · exact h
    · exact h.same rfl rfl rfl
  rw [if_pos, record_emit]
  · refine hlatch.work ?_ ?_
    · cases s.disposed effect || s.scheduled effect <;> rfl
    · split <;> exact hf
  · unfold record
    split <;> split <;> exact ho

theorem Balanced.reported (h : s.Balanced) {c : Counter} {event : DiagnosticEvent} {node : NodeId}
    (ho : s.origin node = true) (he : event.counter = some c) (hf : s.fits c = true) :
    ((s.record c).emitIf (s.origin node) event).Balanced := by
  unfold emitIf
  rw [if_pos ho, record_emit]
  exact h.work he hf

theorem Balanced.closeRecompute (h : s.Balanced) (node : NodeId) (epoch : ℕ) (outcome : Option Bool)
    (hf : ∀ changed, outcome = some changed →
      s.fits (if changed then .computedChanged else .computedSuppressed) = true) :
    (s.closeRecompute node epoch outcome).Balanced := by
  unfold SpanHost.closeRecompute
  cases outcome with
  | none => exact h.note rfl (by simp)
  | some changed =>
    dsimp only
    rw [record_emit]
    exact h.work rfl (hf changed rfl)

theorem Balanced.leave (h : s.Balanced) (outcome : Option Bool)
    (hf : ∀ changed, outcome = some changed → ∀ node epoch rest,
      s.calls = .recomputing node epoch true :: rest →
        s.fits (if changed then .computedChanged else .computedSuppressed) = true)
    (ht : s.leave outcome = some t) : t.Balanced := by
  unfold SpanHost.leave at ht
  cases hc : s.calls with
  | nil => simp [hc] at ht
  | cons call rest =>
    simp only [hc] at ht
    have hleft : ({ s with calls := rest } : SpanHost J).Balanced := h.same rfl rfl rfl
    cases call with
    | flushing epoch =>
      cases ht
      have hdrop : ({ s with calls := rest, flush := s.flush.leaveDrain } : SpanHost J).Balanced :=
        h.same rfl rfl rfl
      exact (hdrop.conclude epoch).same rfl rfl rfl
    | external epoch =>
      cases ht
      have hdrop : ({ s with calls := rest, flush := s.flush.leaveDrain } : SpanHost J).Balanced :=
        h.same rfl rfl rfl
      unfold SpanHost.endFlush
      dsimp only
      split
      · exact hdrop
      · exact hdrop.conclude _
    | running effect epoch enabled =>
      cases ht
      unfold emitIf
      split
      · exact hleft.note rfl (by simp)
      · exact hleft
    | recomputing node epoch instrumented =>
      cases ht
      split
      next hi =>
        subst hi
        exact hleft.closeRecompute node epoch outcome fun changed ho =>
          hf changed ho node epoch rest hc
      · exact hleft
    | disposing effect =>
      cases ht
      exact hleft.same rfl rfl rfl

theorem Balanced.flushJobs (h : s.Balanced) : s.flushJobs.Balanced := by
  unfold SpanHost.flushJobs
  dsimp only
  split
  · exact h.same rfl rfl rfl
  · have hopen : ({ s with flush := s.flush.openDrain } : SpanHost J).Balanced := h.same rfl rfl rfl
    exact (hopen.announce s.flush.openDrain.flushEpoch).same rfl rfl rfl

theorem Balanced.beginFlush (h : s.Balanced) : s.beginFlush.Balanced := by
  rcases s.beginFlush_cases with ⟨-, he⟩ | ⟨-, f, -, -, he⟩
  · rw [he]
    exact h.same rfl rfl rfl
  · rw [he]
    exact (h.announce f.flushEpoch).same rfl rfl rfl

theorem Balanced.popJob (h : s.Balanced) (ht : s.popJob = some t) : t.Balanced := by
  unfold SpanHost.popJob at ht
  split at ht
  · obtain ⟨p, -, rfl⟩ := Option.map_eq_some_iff.mp ht
    exact h.same rfl rfl rfl
  · cases ht

theorem Balanced.step (h : s.Balanced) {op : SpanOp J} (ha : s.accounted op = true)
    (ht : s.step op = some t) : t.Balanced := by
  cases op with
  | subscribe => cases ha
  | unsubscribe token => cases ha
  | schedule job => cases ht; exact h.same rfl rfl rfl
  | flushNow => cases ht; exact h.flushJobs
  | microtask =>
    simp only [SpanHost.step] at ht
    split at ht <;> cases ht
    have htaken : ({ s with flush := s.flush.takeMicrotask } : SpanHost J).Balanced :=
      h.same rfl rfl rfl
    exact htaken.flushJobs
  | popJob => exact h.popJob ht
  | externalFlush => cases ht; exact h.beginFlush
  | createNode => cases ht; exact h.same rfl rfl rfl
  | createEffect orphan =>
    cases ht
    obtain ⟨horphan, hfits⟩ := Bool.and_eq_true_iff.mp ha
    obtain rfl : orphan = false := by simpa using horphan
    have hnew : ({ s.allocateNode with
        disposed := Function.update s.disposed s.nextNode false
        scheduled := Function.update s.scheduled s.nextNode false } : SpanHost J).Balanced :=
      h.same rfl rfl rfl
    refine hnew.scheduleEffect s.nextNode ?_ ?_
    · simp [allocateNode, setOrigin]
    · have hfree : (Function.update s.disposed s.nextNode false s.nextNode ||
          Function.update s.scheduled s.nextNode false s.nextNode) = false := by simp
      dsimp only
      rw [hfree]
      exact hfits
  | dispose node => cases ht; exact h.same rfl rfl rfl
  | scheduleEffect effect =>
    cases ht
    obtain ⟨ho, hf⟩ := Bool.and_eq_true_iff.mp ha
    exact h.scheduleEffect effect ho hf
  | unlatch effect => cases ht; exact h.same rfl rfl rfl
  | startRun effect =>
    simp only [SpanHost.step] at ht
    split at ht <;> cases ht
    obtain ⟨ho, hf⟩ := Bool.and_eq_true_iff.mp ha
    unfold SpanHost.startRun emitIf
    dsimp only
    rw [if_pos ho]
    exact Balanced.same (h.work rfl hf) rfl rfl rfl
  | skipRun effect =>
    simp only [SpanHost.step] at ht
    split at ht <;> cases ht
    exact h.work rfl ha
  | disposeEffect effect =>
    cases ht
    unfold SpanHost.disposeEffect
    split
    · exact h
    next hd =>
      have hf : s.fits .effectsDisposed = true := by simpa [accounted, hd] using ha
      have hmarked : ({ s with disposed := Function.update s.disposed effect true } :
          SpanHost J).Balanced := h.same rfl rfl rfl
      exact Balanced.same (hmarked.work rfl hf) rfl rfl rfl
  | verify node changed =>
    cases ht
    obtain ⟨ho, hf⟩ := Bool.and_eq_true_iff.mp ha
    exact h.reported ho rfl hf
  | recompute node =>
    cases ht
    unfold SpanHost.recompute
    dsimp only
    rw [if_pos h.active, record_emit]
    exact Balanced.same (h.work rfl ha) rfl rfl rfl
  | write node =>
    cases ht
    unfold SpanHost.write
    split
    next ho =>
      have hf : s.fits .rootWrites = true := by
        simpa [accounted, (Bool.and_eq_true_iff.mp ho).2] using ha
      exact h.work rfl hf
    · exact h
  | suppressWrite node =>
    cases ht
    obtain ⟨ho, hf⟩ := Bool.and_eq_true_iff.mp ha
    exact h.reported ho rfl hf
  | finish changed =>
    simp only [SpanHost.step] at ht
    split at ht
    · refine h.leave (some changed) (fun b hb node epoch rest hc => ?_) ht
      cases hb
      simpa [accounted, hc] using ha
    · cases ht
  | unwind => exact h.leave none (by simp) ht

theorem balanced_start : ({} : SpanHost J).subscribe.Balanced :=
  ⟨rfl, fun _ => rfl, fun h => absurd rfl h, fun _ _ _ h => by cases h⟩

/-- When a flush has just closed and no other is open, the closed flushes account
for every event delivered so far. -/
theorem closed_totals_match_events (J : Type) (s : SpanHost J)
    (h : Runs.Reaches step (fun s op => s.accounted op = true) ({} : SpanHost J).subscribe s)
    (hlast : ∃ epoch jobs stats,
      (s.received first).getLast? = some (.flushFinished epoch jobs stats))
    (hopen : ∀ call ∈ s.calls, call.isFlush = false) (c : Counter) :
    closedTotal c (s.received first) = delivered c (s.received first) := by
  obtain ⟨htidy, hbal⟩ : s.Tidy ∧ s.Balanced := by
    refine h.invariant (fun s => s.Tidy ∧ s.Balanced) ⟨?_, balanced_start⟩ ?_
    · exact tidy_init.step (show ({} : SpanHost J).step .subscribe = some _ from rfl)
    · rintro s op t ⟨hs, hb⟩ ha ht
      exact ⟨hs.step ht, hb.step ha ht⟩
  obtain ⟨epoch, jobs, stats, hlast⟩ := hlast
  have hslots : s.flushes.opened = [] := by
    have hown : ownFlushes s.calls = 0 := List.countP_eq_zero.mpr fun call hc ho => by
      exact Bool.noConfusion ((hopen call hc).symm.trans (SpanCall.isFlush_of_own ho))
    exact List.eq_nil_of_length_eq_zero (Nat.le_zero.mp (hown ▸ htidy.slots))
  have hbalance := hbal.totals c
  rw [Accounting.outstanding, hbal.settled epoch jobs stats hlast c, hslots] at hbalance
  exact hbalance

/-- An effect that its dead owner disposes at once is counted and not reported. -/
theorem orphan_is_counted_without_event :
    ∃ s : SpanHost ℕ, Runs.run step ({} : SpanHost ℕ).subscribe [.createEffect true,
      .externalFlush, .finish false] = some s ∧ s.calls = [] ∧
      closedTotal .effectsCoalesced (s.received first) = 1 ∧
      delivered .effectsCoalesced (s.received first) = 0 :=
  ⟨_, rfl, rfl, rfl, rfl⟩

theorem closed_totals_match_one_effect :
    ∃ s : SpanHost ℕ, delivered .effectsQueued (s.received first) = 1 ∧
      ∀ c, closedTotal c (s.received first) = delivered c (s.received first) := by
  let ops : List (SpanOp ℕ) := [.createEffect false, .externalFlush, .finish false]
  refine ⟨(Runs.run step ({} : SpanHost ℕ).subscribe ops).getD {}, rfl, ?_⟩
  refine closed_totals_match_events ℕ _ (Runs.Reaches.run accounted ops .init (by decide +kernel) rfl)
    ?_ ?_
  · exact ⟨_, _, _, rfl⟩
  · exact fun call hc => absurd hc List.not_mem_nil

end Balance

end SpanHost

end Adaptite

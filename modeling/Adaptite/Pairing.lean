import Adaptite.Spans

set_option autoImplicit false

namespace Adaptite

open Brackets

/-- A flush that is open, counting the ones that joined it. -/
def SpanCall.isFlush : SpanCall → Bool
  | flushing _ | external _ => true
  | _ => false

def SpanCall.isOwnFlush : SpanCall → Bool
  | flushing _ | external (some _) => true
  | _ => false

theorem SpanCall.isFlush_of_own {call : SpanCall} (h : call.isOwnFlush = true) :
    call.isFlush = true := by
  cases call <;> first | rfl | cases h

/-- The guard of a run or a recomputation reports its end. -/
def SpanCall.guarded : SpanCall → Bool
  | running _ _ enabled => enabled
  | recomputing _ _ instrumented => instrumented
  | _ => true

def SpanCall.span : SpanCall → Option Span
  | flushing epoch => some (.flush epoch)
  | external epoch => epoch.map .flush
  | running effect epoch _ => some (.effectRun effect epoch)
  | recomputing node epoch _ => some (.recompute node epoch)
  | disposing _ => none

namespace SpanHost

variable {J : Type}

/-- The spans whose close will be reported, `slots` flushes having one. -/
def reported : ℕ → List SpanCall → List Span
  | _, [] => []
  | slots, .flushing epoch :: rest | slots, .external (some epoch) :: rest =>
    if 0 < slots then .flush epoch :: reported (slots - 1) rest else reported 0 rest
  | slots, .running effect epoch enabled :: rest =>
    if enabled then .effectRun effect epoch :: reported slots rest else reported slots rest
  | slots, .recomputing node epoch instrumented :: rest =>
    if instrumented then .recompute node epoch :: reported slots rest else reported slots rest
  | slots, .external none :: rest | slots, .disposing _ :: rest => reported slots rest

def owed (s : SpanHost J) : List Span := reported s.flushes.opened.length s.calls

def spans (s : SpanHost J) : List Span := s.calls.filterMap SpanCall.span

/-- The spans open in what a subscriber has received, if these events nest. -/
def heard (s : SpanHost J) (token : ℕ) : Option (List Span) :=
  unclosed [] ((s.received token).filterMap DiagnosticEvent.bracket)

def depth (calls : List SpanCall) : ℕ := calls.countP SpanCall.isFlush

def ownFlushes (calls : List SpanCall) : ℕ := calls.countP SpanCall.isOwnFlush

/-- The consumer's flush is the outermost one, and its epoch is pinned. -/
def Nested (pinned : ℕ) : List SpanCall → Prop
  | [] => True
  | .external (some epoch) :: rest => epoch = pinned ∧ depth rest = 0 ∧ Nested pinned rest
  | .external none :: rest => 0 < depth rest ∧ Nested pinned rest
  | _ :: rest => Nested pinned rest

structure Tidy (s : SpanHost J) : Prop where
  depth : s.flush.flushDepth = depth s.calls
  nested : Nested s.flush.openFlushEpoch s.calls
  slots : s.flushes.opened.length ≤ ownFlushes s.calls
  idle : s.diagnostics = [] → s.flushes.opened = []

structure Registered (s : SpanHost J) : Prop where
  known : ∀ k ∈ s.diagnostics, k < s.nextDiagnostic
  fresh : ∀ k, s.nextDiagnostic ≤ k → s.received k = []

structure Follows (k : ℕ) (s : SpanHost J) : Prop where
  present : k ∈ s.diagnostics → s.heard k = some s.owed
  paired : s.heard k ≠ none

/-- A step that concerns neither a span nor a subscription. -/
structure Silent (s t : SpanHost J) : Prop where
  calls : t.calls = s.calls
  depth : t.flush.flushDepth = s.flush.flushDepth
  pinned : t.flush.openFlushEpoch = s.flush.openFlushEpoch
  slots : t.flushes.opened.length = s.flushes.opened.length
  diagnostics : t.diagnostics = s.diagnostics
  next : t.nextDiagnostic = s.nextDiagnostic
  heard : ∀ k, t.heard k = s.heard k
  fresh : ∀ k ∉ s.diagnostics, t.received k = s.received k

section Silence

variable {s t u : SpanHost J}

theorem Silent.refl (s : SpanHost J) : s.Silent s :=
  ⟨rfl, rfl, rfl, rfl, rfl, rfl, fun _ => rfl, fun _ _ => rfl⟩

theorem Silent.trans (h : s.Silent t) (h' : t.Silent u) : s.Silent u where
  calls := h'.calls.trans h.calls
  depth := h'.depth.trans h.depth
  pinned := h'.pinned.trans h.pinned
  slots := h'.slots.trans h.slots
  diagnostics := h'.diagnostics.trans h.diagnostics
  next := h'.next.trans h.next
  heard k := (h'.heard k).trans (h.heard k)
  fresh k hk := (h'.fresh k (h.diagnostics ▸ hk)).trans (h.fresh k hk)

theorem Silent.tidy (h : s.Silent t) (hs : s.Tidy) : t.Tidy where
  depth := by rw [h.depth, h.calls]; exact hs.depth
  nested := by rw [h.pinned, h.calls]; exact hs.nested
  slots := by rw [h.slots, h.calls]; exact hs.slots
  idle hd := by
    have hlen := h.slots
    rw [hs.idle (h.diagnostics ▸ hd)] at hlen
    exact List.eq_nil_of_length_eq_zero hlen

theorem Silent.owed (h : s.Silent t) : t.owed = s.owed := by
  unfold SpanHost.owed
  rw [h.slots, h.calls]

theorem heard_emit (s : SpanHost J) {k : ℕ} (event : DiagnosticEvent) {b : Bracket Span}
    (hb : event.bracket = some b) (hk : k ∈ s.diagnostics) {spans : List Span}
    (h : s.heard k = some spans) : (s.emit event).heard k = Brackets.next spans b := by
  unfold heard emit
  simp only [hk, ↓reduceIte, List.filterMap_append, List.filterMap_cons, hb, List.filterMap_nil]
  exact unclosed_concat h b

theorem silent_emit (s : SpanHost J) {event : DiagnosticEvent} (hb : event.bracket = none) :
    s.Silent (s.emit event) where
  calls := rfl
  depth := rfl
  pinned := rfl
  slots := rfl
  diagnostics := rfl
  next := rfl
  heard k := by
    unfold SpanHost.heard emit
    by_cases hk : k ∈ s.diagnostics
    · simp [hk, hb]
    · simp [hk]
  fresh k hk := if_neg hk

theorem silent_emitIf (s : SpanHost J) (p : Bool) {event : DiagnosticEvent}
    (hb : event.bracket = none) : s.Silent (s.emitIf p event) := by
  unfold emitIf
  split
  · exact s.silent_emit hb
  · exact Silent.refl s

theorem silent_record (s : SpanHost J) (c : Counter) : s.Silent (s.record c) := by
  unfold record
  split
  · refine ⟨rfl, rfl, rfl, ?_, rfl, rfl, fun _ => rfl, fun _ _ => rfl⟩
    unfold Accounting.record
    cases s.flushes.opened <;> simp
  · exact Silent.refl s

theorem silent_scheduleEffect (s : SpanHost J) (effect : NodeId) :
    s.Silent (s.scheduleEffect effect) := by
  unfold scheduleEffect
  dsimp only
  have hlatch : s.Silent (if s.disposed effect then s
      else { s with scheduled := Function.update s.scheduled effect true }) := by
    split
    · exact Silent.refl s
    · exact ⟨rfl, rfl, rfl, rfl, rfl, rfl, fun _ => rfl, fun _ _ => rfl⟩
  exact (hlatch.trans (silent_record _ _)).trans (silent_emitIf _ _ rfl)

theorem silent_setOrigin (s : SpanHost J) (node : NodeId) (known : Bool) :
    s.Silent (s.setOrigin node known) :=
  ⟨rfl, rfl, rfl, rfl, rfl, rfl, fun _ => rfl, fun _ _ => rfl⟩

theorem silent_unlatch (s : SpanHost J) (effect : NodeId) : s.Silent (s.unlatch effect) :=
  ⟨rfl, rfl, rfl, rfl, rfl, rfl, fun _ => rfl, fun _ _ => rfl⟩

theorem silent_retireEffect (s : SpanHost J) (effect : NodeId) :
    s.Silent (s.retireEffect effect) := by
  unfold retireEffect
  refine Silent.trans ?_ (silent_unlatch _ _)
  refine Silent.trans ?_ (silent_record _ _)
  refine Silent.trans ?_ (silent_emit _ rfl)
  exact ⟨rfl, rfl, rfl, rfl, rfl, rfl, fun _ => rfl, fun _ _ => rfl⟩

theorem silent_createEffect (s : SpanHost J) (orphan : Bool) :
    s.Silent (s.createEffect orphan) := by
  unfold createEffect
  refine Silent.trans ?_ (silent_scheduleEffect _ _)
  have hnew : s.Silent { s.allocateNode with
      disposed := Function.update s.disposed s.nextNode false
      scheduled := Function.update s.scheduled s.nextNode false } :=
    ⟨rfl, rfl, rfl, rfl, rfl, rfl, fun _ => rfl, fun _ _ => rfl⟩
  split
  · exact hnew.trans ((silent_retireEffect _ _).trans (silent_setOrigin _ _ _))
  · exact hnew

end Silence

/-- A step after which every subscriber has heard what it was owed. -/
structure Relays (s t : SpanHost J) : Prop where
  diagnostics : t.diagnostics = s.diagnostics
  next : t.nextDiagnostic = s.nextDiagnostic
  heard : ∀ k ∈ s.diagnostics, s.heard k = some s.owed → t.heard k = some t.owed
  absent : ∀ k ∉ s.diagnostics, t.received k = s.received k

section Calls

variable {s t : SpanHost J} {k : ℕ}

theorem Silent.relays (h : s.Silent t) : s.Relays t where
  diagnostics := h.diagnostics
  next := h.next
  heard k _ hk := by rw [h.heard, h.owed, hk]
  absent := h.fresh

theorem Relays.follows (h : s.Relays t) (hs : s.Follows k) : t.Follows k := by
  by_cases hk : k ∈ s.diagnostics
  · have ht := h.heard k hk (hs.present hk)
    exact ⟨fun _ => ht, by simp [ht]⟩
  · refine ⟨fun hk' => absurd (h.diagnostics ▸ hk') hk, ?_⟩
    unfold SpanHost.heard
    rw [h.absent k hk]
    exact hs.paired

theorem active_iff (s : SpanHost J) : s.active = true ↔ s.diagnostics ≠ [] := by
  unfold active
  simp

theorem reported_flush {call : SpanCall} {epoch : ℕ} (hc : call.isOwnFlush = true)
    (he : call.span = some (.flush epoch)) (slots : ℕ) (rest : List SpanCall) :
    reported (slots + 1) (call :: rest) = .flush epoch :: reported slots rest ∧
      reported 0 (call :: rest) = reported 0 rest := by
  cases call with
  | flushing e =>
    cases he
    simp [reported]
  | external e =>
    cases e with
    | none => cases hc
    | some e =>
      cases he
      simp [reported]
  | _ => cases hc

theorem Relays.registered (h : s.Relays t) (hs : s.Registered) : t.Registered where
  known := by rw [h.diagnostics, h.next]; exact hs.known
  fresh k hk := by
    rw [h.next] at hk
    rw [h.absent k fun hm => absurd (hs.known k hm) (by omega), hs.fresh k hk]

theorem no_subscriber (ha : ¬ s.active = true) : s.diagnostics = [] := by
  by_contra hd
  exact ha (s.active_iff.mpr hd)

theorem relays_openFlush {call : SpanCall} {epoch : ℕ} (hc : call.isOwnFlush = true)
    (he : call.span = some (.flush epoch)) (f : Flush J) :
    s.Relays ({ s.announce epoch with flush := f }.push call) := by
  unfold announce
  dsimp only
  split
  · refine ⟨rfl, rfl, fun k hk h => ?_, fun k hk => if_neg hk⟩
    have hemit := heard_emit { s with flushes := s.flushes.openFlush s.flush.pendingJobs.length }
      (.flushStarted epoch s.flush.pendingJobs.length) rfl hk h
    have howed := (reported_flush hc he s.flushes.opened.length s.calls).1
    exact hemit.trans (congrArg some howed.symm)
  next ha =>
    exact ⟨rfl, rfl, fun k hk => by simp [no_subscriber ha] at hk, fun _ _ => rfl⟩

/-- The close of a flush that is no longer on the stack. -/
theorem relays_conclude {call : SpanCall} {epoch : ℕ} {rest : List SpanCall}
    (hs : s.calls = call :: rest) (hc : call.isOwnFlush = true)
    (he : call.span = some (.flush epoch)) (f : Flush J) :
    s.Relays ({ s with calls := rest, flush := f }.conclude epoch) := by
  unfold conclude
  dsimp only
  split
  · unfold Accounting.closeFlush
    cases hl : s.flushes.opened with
    | nil =>
      have howed : s.owed = reported 0 rest := by
        unfold SpanHost.owed
        rw [hl, hs]
        exact (reported_flush hc he 0 rest).2
      refine ⟨rfl, rfl, fun k hk h => ?_, fun _ _ => rfl⟩
      rw [howed] at h
      change s.heard k = some (reported s.flushes.opened.length rest)
      rw [hl]
      exact h
    | cons stats slots =>
      have howed : s.owed = .flush epoch :: reported slots.length rest := by
        unfold SpanHost.owed
        rw [hl, hs]
        exact (reported_flush hc he slots.length rest).1
      refine ⟨rfl, rfl, fun k hk h => ?_, fun k hk => if_neg hk⟩
      rw [howed] at h
      have hemit := heard_emit
        { s with calls := rest, flush := f, flushes := { s.flushes with opened := slots } }
        (.flushFinished epoch f.pendingJobs.length
          { stats with jobsAtFinish := saturatingU32 f.pendingJobs.length }) rfl hk h
      exact hemit.trans (next_closed _ _)
  next ha =>
    have hd : s.diagnostics = [] := no_subscriber ha
    exact ⟨rfl, rfl, fun k hk => by simp [hd] at hk, fun _ _ => rfl⟩

/-- A guard that is going to report has been preceded by its opening event. -/
theorem relays_startRun (effect : NodeId) (ho : s.active = true → s.origin effect = true) :
    s.Relays (s.startRun effect) := by
  unfold startRun
  dsimp only
  cases ha : s.active with
  | false =>
    have hd : s.diagnostics = [] := no_subscriber (by simp [ha])
    have hsilent : s.Silent ((s.emitIf (s.origin effect)
        (.effectRunStarted effect s.flush.flushEpoch)).record .effectsRun) := by
      refine Silent.trans ?_ (silent_record _ _)
      unfold emitIf
      split
      · refine ⟨rfl, rfl, rfl, rfl, rfl, rfl, fun j => ?_, fun j hj => if_neg hj⟩
        unfold SpanHost.heard emit
        simp [hd]
      · exact Silent.refl s
    exact ⟨hsilent.diagnostics, hsilent.next, fun k hk => by simp [hd] at hk, hsilent.fresh⟩
  | true =>
    rw [ho ha]
    have hrec := silent_record (s.emit (.effectRunStarted effect s.flush.flushEpoch)) .effectsRun
    refine ⟨hrec.diagnostics, hrec.next, fun k hk h => ?_, fun k hk => ?_⟩
    · have hemit := heard_emit s (.effectRunStarted effect s.flush.flushEpoch) rfl hk h
      refine ((hrec.heard k).trans hemit).trans (congrArg some ?_)
      exact congrArg (Span.effectRun effect s.flush.flushEpoch :: ·) hrec.owed.symm
    · exact (hrec.fresh k hk).trans (if_neg hk)

theorem relays_recompute (node : NodeId) : s.Relays (s.recompute node) := by
  unfold recompute
  dsimp only
  split
  next ha =>
    have hrec := s.silent_record .computedRecomputed
    have hepoch : (s.record .computedRecomputed).diagnostics = s.diagnostics := hrec.diagnostics
    refine ⟨hrec.diagnostics, hrec.next, fun k hk h => ?_, fun k hk => ?_⟩
    · have h' : (s.record .computedRecomputed).heard k = some s.owed := (hrec.heard k).trans h
      have hemit := heard_emit (s.record .computedRecomputed)
        (.computedRecomputeStarted node s.flush.flushEpoch) rfl (hepoch ▸ hk) h'
      refine hemit.trans (congrArg some ?_)
      exact congrArg (Span.recompute node s.flush.flushEpoch :: ·) hrec.owed.symm
    · exact (if_neg (hepoch ▸ hk)).trans (hrec.fresh k hk)
  next ha =>
    have hd : s.diagnostics = [] := no_subscriber ha
    exact ⟨rfl, rfl, fun k hk => by simp [hd] at hk, fun _ _ => rfl⟩

/-- The drop of a guard: a silent state change, then perhaps the closing event. -/
theorem relays_close {call : SpanCall} {rest : List SpanCall} {span : Span}
    (hs : s.calls = call :: rest) (event : DiagnosticEvent)
    (hb : event.bracket = some (.closed span))
    (ho : ∀ slots, reported slots (call :: rest) = span :: reported slots rest)
    (ht : Silent { s with calls := rest } t) : s.Relays (t.emit event) := by
  have hd : t.diagnostics = s.diagnostics := ht.diagnostics
  refine ⟨hd, ht.next, fun k hk h => ?_, fun k hk => ?_⟩
  · have howed : s.owed = span :: reported s.flushes.opened.length rest := by
      unfold SpanHost.owed
      rw [hs]
      exact ho _
    rw [howed] at h
    have hemit := heard_emit t event hb (hd ▸ hk) ((ht.heard k).trans h)
    refine (hemit.trans (next_closed _ _)).trans (congrArg some ?_)
    change _ = t.owed
    rw [ht.owed]
    rfl
  · exact (if_neg (hd ▸ hk)).trans (ht.fresh k hk)

theorem relays_drop {call : SpanCall} {rest : List SpanCall} (hs : s.calls = call :: rest)
    (ho : ∀ slots, reported slots (call :: rest) = reported slots rest)
    (ht : Silent { s with calls := rest } t) : s.Relays t := by
  refine ⟨ht.diagnostics, ht.next, fun k _ h => ?_, ht.fresh⟩
  rw [ht.heard, ht.owed]
  refine h.trans (congrArg some ?_)
  unfold SpanHost.owed
  rw [hs]
  exact ho _

theorem relays_push {call : SpanCall}
    (ho : ∀ slots rest, reported slots (call :: rest) = reported slots rest) :
    s.Relays (s.push call) :=
  ⟨rfl, rfl, fun _ _ h => h.trans (congrArg some (ho _ _).symm), fun _ _ => rfl⟩

theorem Relays.trans {u : SpanHost J} (h : s.Relays t) (h' : t.Relays u) : s.Relays u where
  diagnostics := h'.diagnostics.trans h.diagnostics
  next := h'.next.trans h.next
  heard k hk hs := h'.heard k (h.diagnostics ▸ hk) (h.heard k hk hs)
  absent k hk := (h'.absent k (h.diagnostics ▸ hk)).trans (h.absent k hk)

theorem relays_flush (s : SpanHost J) (f : Flush J) : s.Relays { s with flush := f } :=
  ⟨rfl, rfl, fun _ _ h => h, fun _ _ => rfl⟩

theorem rearm_same (f : Flush J) :
    f.rearm.flushDepth = f.flushDepth ∧ f.rearm.openFlushEpoch = f.openFlushEpoch := by
  unfold Flush.rearm Flush.ensureFlushScheduled
  split <;> simp

theorem relays_leave (hs : s.Tidy) (outcome : Option Bool) (h : s.leave outcome = some t) :
    s.Relays t := by
  unfold leave at h
  cases hc : s.calls with
  | nil => simp [hc] at h
  | cons call rest =>
    simp only [hc] at h
    cases call with
    | flushing epoch =>
      cases h
      exact (relays_conclude hc rfl rfl s.flush.leaveDrain).trans
        (relays_flush _ _)
    | external epoch =>
      cases h
      have hdepth : s.flush.leaveDrain.flushDepth = SpanHost.depth rest := by
        have := hs.depth
        rw [hc] at this
        simp [Flush.leaveDrain, this, SpanHost.depth, List.countP_cons, SpanCall.isFlush]
      have hnested := hs.nested
      rw [hc] at hnested
      unfold endFlush
      dsimp only
      cases epoch with
      | none =>
        rw [if_pos (hdepth ▸ hnested.1)]
        exact (relays_flush s s.flush.leaveDrain).trans
          (relays_drop hc (fun _ => rfl) (Silent.refl _))
      | some epoch =>
        obtain ⟨rfl, hzero, -⟩ := hnested
        rw [if_neg (by omega)]
        exact relays_conclude hc rfl rfl s.flush.leaveDrain
    | running effect epoch enabled =>
      cases h
      cases enabled with
      | true => exact relays_close hc (.effectRunFinished effect epoch) rfl (fun _ => rfl) (Silent.refl _)
      | false => exact relays_drop hc (fun _ => rfl) (Silent.refl _)
    | recomputing node epoch instrumented =>
      cases h
      cases instrumented with
      | false => exact relays_drop hc (fun _ => rfl) (Silent.refl _)
      | true =>
        cases outcome with
        | none => exact relays_close hc _ rfl (fun _ => rfl) (Silent.refl _)
        | some changed => exact relays_close hc _ rfl (fun _ => rfl) (silent_record _ _)
    | disposing effect =>
      cases h
      exact relays_drop hc (fun _ => rfl) (silent_setOrigin _ _ _)

theorem Tidy.openFlush (h : s.Tidy) {call : SpanCall} (hc : call.isOwnFlush = true) (epoch : ℕ)
    {f : Flush J} (hd : f.flushDepth = s.flush.flushDepth + 1)
    (hn : Nested f.openFlushEpoch (call :: s.calls)) :
    ({ s.announce epoch with flush := f }.push call).Tidy := by
  have hf := SpanCall.isFlush_of_own hc
  have hcalls : (s.announce epoch).calls = s.calls := by
    unfold announce
    split <;> rfl
  have hdepth : SpanHost.depth (call :: s.calls) = SpanHost.depth s.calls + 1 :=
    List.countP_cons_of_pos hf
  have hown : ownFlushes (call :: s.calls) = ownFlushes s.calls + 1 :=
    List.countP_cons_of_pos hc
  refine ⟨?_, ?_, ?_, ?_⟩
  · change f.flushDepth = SpanHost.depth (call :: (s.announce epoch).calls)
    rw [hcalls, hdepth, hd, h.depth]
  · change Nested f.openFlushEpoch (call :: (s.announce epoch).calls)
    rw [hcalls]
    exact hn
  · change (s.announce epoch).flushes.opened.length ≤ ownFlushes (call :: (s.announce epoch).calls)
    rw [hcalls, hown]
    have := h.slots
    unfold announce
    split
    · exact Nat.succ_le_succ this
    · exact Nat.le_succ_of_le this
  · intro hdiag
    have hs : s.diagnostics = [] := by
      revert hdiag
      unfold push announce
      split <;> exact id
    change (s.announce epoch).flushes.opened = []
    unfold announce
    simp [active, hs, h.idle hs]

theorem Tidy.push (h : s.Tidy) {call : SpanCall} (hc : call.isFlush = false) :
    (s.push call).Tidy := by
  have hdepth : SpanHost.depth (call :: s.calls) = SpanHost.depth s.calls :=
    List.countP_cons_of_neg (by simp [hc])
  refine ⟨h.depth.trans hdepth.symm, ?_, ?_, h.idle⟩
  · have hn := h.nested
    cases call with
    | flushing | external => cases hc
    | running | recomputing | disposing => exact hn
  · refine h.slots.trans ?_
    exact List.Sublist.countP_le (List.sublist_cons_self _ _)

theorem nested_unpin {calls : List SpanCall} {p q : ℕ} (h : Nested p calls)
    (hd : SpanHost.depth calls = 0) : Nested q calls := by
  induction calls with
  | nil => trivial
  | cons call rest ih =>
    cases call with
    | flushing | external => simp [SpanHost.depth, List.countP_cons, SpanCall.isFlush] at hd
    | running | recomputing | disposing => exact ih h (by simpa [SpanHost.depth, SpanCall.isFlush] using hd)

theorem Tidy.flushJobs (h : s.Tidy) : s.flushJobs.Tidy := by
  unfold SpanHost.flushJobs
  dsimp only
  split
  · exact { h with }
  · have hflush : (({ s with flush := s.flush.openDrain } : SpanHost J).announce
        s.flush.openDrain.flushEpoch).flush = s.flush.openDrain := by
      unfold announce
      split <;> rfl
    rw [hflush]
    exact Tidy.openFlush (s := { s with flush := s.flush.openDrain }) { h with } rfl _ rfl h.nested

theorem announce_flush (s : SpanHost J) (epoch : ℕ) {f : Flush J}
    (hf : f.pendingJobs = s.flush.pendingJobs) :
    ({ s with flush := f } : SpanHost J).announce epoch = { s.announce epoch with flush := f } := by
  unfold announce active emit
  simp only [hf]
  split <;> rfl

theorem beginFlush_cases (s : SpanHost J) :
    0 < s.flush.flushDepth ∧ s.beginFlush = { s with flush := s.flush.enterDrain }.push (.external none) ∨
      s.flush.flushDepth = 0 ∧ ∃ f : Flush J, f.flushDepth = s.flush.flushDepth + 1 ∧
        f.openFlushEpoch = f.flushEpoch ∧
        s.beginFlush = { s.announce f.flushEpoch with flush := f }.push (.external (some f.flushEpoch)) := by
  by_cases hd : 0 < s.flush.flushDepth
  · refine Or.inl ⟨hd, ?_⟩
    unfold beginFlush Flush.beginFlush
    simp [hd]
  · refine Or.inr ⟨by omega, s.flush.beginFlush.1, ?_, ?_, ?_⟩
    · unfold Flush.beginFlush
      simp [hd, Flush.enterDrain]
    · unfold Flush.beginFlush
      simp [hd, Flush.enterDrain]
    · rw [← announce_flush]
      · unfold beginFlush Flush.beginFlush
        simp [hd]
      · unfold Flush.beginFlush
        simp [hd, Flush.enterDrain]

theorem Tidy.beginFlush (h : s.Tidy) : s.beginFlush.Tidy := by
  rcases s.beginFlush_cases with ⟨hd, he⟩ | ⟨hd, f, hf, hp, he⟩
  · rw [he]
    rw [h.depth] at hd
    refine ⟨?_, ⟨hd, h.nested⟩, h.slots, h.idle⟩
    change s.flush.flushDepth + 1 = SpanHost.depth (.external none :: s.calls)
    rw [h.depth]
    exact (List.countP_cons_of_pos rfl).symm
  · rw [he]
    have hzero := h.depth.symm.trans hd
    exact h.openFlush rfl _ hf ⟨hp.symm, hzero, nested_unpin h.nested hzero⟩

theorem conclude_same (s : SpanHost J) (epoch : ℕ) :
    (s.conclude epoch).calls = s.calls ∧ (s.conclude epoch).flush = s.flush ∧
      (s.conclude epoch).diagnostics = s.diagnostics := by
  unfold conclude
  dsimp only
  split
  · cases hl : s.flushes.opened with
    | nil => simp [Accounting.closeFlush, hl]
    | cons stats slots => simp [Accounting.closeFlush, hl, emit]
  · exact ⟨rfl, rfl, rfl⟩

theorem conclude_slots (s : SpanHost J) (epoch : ℕ) (hidle : s.diagnostics = [] → s.flushes.opened = []) :
    (s.conclude epoch).flushes.opened.length = s.flushes.opened.length - 1 := by
  unfold conclude
  dsimp only
  split
  · cases hl : s.flushes.opened with
    | nil => simp [Accounting.closeFlush, hl]
    | cons stats slots => simp [Accounting.closeFlush, hl, emit]
  next ha => simp [hidle (no_subscriber ha)]

theorem Tidy.conclude (h : s.Tidy) {call : SpanCall} {rest : List SpanCall}
    (hc : s.calls = call :: rest) (hown : call.isOwnFlush = true) (epoch : ℕ) {f : Flush J}
    (hd : f.flushDepth = SpanHost.depth rest) (hn : Nested f.openFlushEpoch rest) :
    ({ s with calls := rest, flush := f }.conclude epoch).Tidy := by
  obtain ⟨hcalls, hflush, hdiag⟩ := conclude_same { s with calls := rest, flush := f } epoch
  have hslots := conclude_slots { s with calls := rest, flush := f } epoch h.idle
  refine ⟨?_, ?_, ?_, fun hnone => ?_⟩
  · rw [hcalls, hflush]
    exact hd
  · rw [hcalls, hflush]
    exact hn
  · rw [hcalls, hslots]
    have hle := h.slots
    have hcount : ownFlushes (call :: rest) = ownFlushes rest + 1 := List.countP_cons_of_pos hown
    rw [hc, hcount] at hle
    exact Nat.sub_le_of_le_add hle
  · rw [hdiag] at hnone
    have hzero : s.flushes.opened.length - 1 = 0 := by simp [h.idle hnone]
    exact List.eq_nil_of_length_eq_zero (hslots.trans hzero)

theorem nested_tail {call : SpanCall} {calls : List SpanCall} {pinned : ℕ}
    (h : Nested pinned (call :: calls)) : Nested pinned calls := by
  cases call with
  | external epoch =>
    cases epoch with
    | none => exact h.2
    | some epoch => exact h.2.2
  | flushing | running | recomputing | disposing => exact h

theorem Tidy.drop (h : s.Tidy) {call : SpanCall} {rest : List SpanCall}
    (hc : s.calls = call :: rest) (hf : call.isFlush = false) :
    ({ s with calls := rest } : SpanHost J).Tidy := by
  have hown : call.isOwnFlush = false := by
    cases call <;> first | rfl | cases hf
  obtain ⟨hdepth, hnested, hslots, hidle⟩ := h
  rw [hc] at hdepth hnested hslots
  refine ⟨hdepth.trans (List.countP_cons_of_neg (by simp [hf])), nested_tail hnested, ?_, hidle⟩
  exact hslots.trans_eq (List.countP_cons_of_neg (by simp [hown]))

inductive Stepped (s : SpanHost J) : SpanOp J → SpanHost J → Prop where
  | silent {op : SpanOp J} {t : SpanHost J} (h : s.Silent t) : Stepped s op t
  | subscribed : Stepped s .subscribe s.subscribe
  | unsubscribed (token : ℕ) : Stepped s (.unsubscribe token) (s.unsubscribe token)
  | flushed {op : SpanOp J} {u : SpanHost J} (h : s.Silent u) : Stepped s op u.flushJobs
  | begun : Stepped s .externalFlush s.beginFlush
  | started (effect : NodeId) : Stepped s (.startRun effect) (s.startRun effect)
  | recomputed (node : NodeId) : Stepped s (.recompute node) (s.recompute node)
  | retired {op : SpanOp J} {u : SpanHost J} (effect : NodeId) (h : s.Silent u) :
      Stepped s op (u.push (.disposing effect))
  | left {op : SpanOp J} {t : SpanHost J} (outcome : Option Bool) (h : s.leave outcome = some t) :
      Stepped s op t

theorem silent_jobs (s : SpanHost J) {f : Flush J} (hd : f.flushDepth = s.flush.flushDepth)
    (hp : f.openFlushEpoch = s.flush.openFlushEpoch) : s.Silent { s with flush := f } :=
  ⟨rfl, hd, hp, rfl, rfl, rfl, fun _ => rfl, fun _ _ => rfl⟩

theorem stepped {op : SpanOp J} (ht : s.step op = some t) : s.Stepped op t := by
  cases op with
  | subscribe => cases ht; exact .subscribed
  | unsubscribe token => cases ht; exact .unsubscribed token
  | schedule job =>
    cases ht
    refine .silent (s.silent_jobs ?_ ?_) <;> unfold Flush.schedule Flush.ensureFlushScheduled <;>
      split <;> rfl
  | flushNow => cases ht; exact .flushed (Silent.refl s)
  | microtask =>
    simp only [SpanHost.step] at ht
    split at ht <;> cases ht
    exact .flushed (s.silent_jobs rfl rfl)
  | popJob =>
    simp only [SpanHost.step, SpanHost.popJob] at ht
    split at ht
    · unfold Flush.popJob at ht
      cases hl : s.flush.pendingJobs with
      | nil => simp [hl] at ht
      | cons job jobs =>
        simp only [hl, Option.map_some, Option.some.injEq] at ht
        subst ht
        exact .silent (s.silent_jobs rfl rfl)
    · cases ht
  | externalFlush => cases ht; exact .begun
  | createNode =>
    cases ht
    exact .silent ⟨rfl, rfl, rfl, rfl, rfl, rfl, fun _ => rfl, fun _ _ => rfl⟩
  | createEffect orphan => cases ht; exact .silent (s.silent_createEffect orphan)
  | dispose node => cases ht; exact .silent (s.silent_setOrigin node false)
  | scheduleEffect effect => cases ht; exact .silent (s.silent_scheduleEffect effect)
  | unlatch effect => cases ht; exact .silent (s.silent_unlatch effect)
  | startRun effect =>
    simp only [SpanHost.step] at ht
    split at ht <;> cases ht
    exact .started effect
  | skipRun effect =>
    simp only [SpanHost.step] at ht
    split at ht <;> cases ht
    exact .silent ((s.silent_emit rfl).trans (silent_record _ _))
  | disposeEffect effect =>
    cases ht
    unfold SpanHost.disposeEffect
    split
    · exact .silent (Silent.refl s)
    · exact .retired effect (s.silent_retireEffect effect)
  | verify node changed =>
    cases ht
    exact .silent ((s.silent_record _).trans (silent_emitIf _ _ rfl))
  | recompute node => cases ht; exact .recomputed node
  | write node =>
    cases ht
    unfold SpanHost.write
    split
    · exact .silent ((s.silent_emit rfl).trans (silent_record _ _))
    · exact .silent (Silent.refl s)
  | suppressWrite node =>
    cases ht
    exact .silent ((s.silent_record _).trans (silent_emitIf _ _ rfl))
  | finish changed =>
    simp only [SpanHost.step] at ht
    split at ht
    · exact .left _ ht
    · cases ht
  | unwind => exact .left _ ht

theorem leaveDrain_depth (h : s.Tidy) {call : SpanCall} {rest : List SpanCall}
    (hc : s.calls = call :: rest) (hf : call.isFlush = true) :
    s.flush.leaveDrain.flushDepth = SpanHost.depth rest := by
  have hd := h.depth
  rw [hc, SpanHost.depth, List.countP_cons_of_pos hf] at hd
  exact Nat.sub_eq_of_eq_add hd

theorem Tidy.leave (h : s.Tidy) (outcome : Option Bool) (ht : s.leave outcome = some t) :
    t.Tidy := by
  unfold SpanHost.leave at ht
  cases hc : s.calls with
  | nil => simp [hc] at ht
  | cons call rest =>
    simp only [hc] at ht
    have hnested := h.nested
    rw [hc] at hnested
    cases call with
    | flushing epoch =>
      cases ht
      have hd := leaveDrain_depth h hc rfl
      have hclosed := h.conclude hc rfl epoch hd (nested_tail hnested)
      exact (silent_jobs _ (rearm_same _).1 (rearm_same _).2).tidy hclosed
    | external epoch =>
      cases ht
      have hd := leaveDrain_depth h hc rfl
      unfold SpanHost.endFlush
      dsimp only
      cases epoch with
      | none =>
        rw [if_pos (hd ▸ hnested.1)]
        refine ⟨hd, hnested.2, ?_, h.idle⟩
        have hslots := h.slots
        rw [hc] at hslots
        exact hslots.trans_eq (List.countP_cons_of_neg (by simp [SpanCall.isOwnFlush]))
      | some epoch =>
        obtain ⟨-, hzero, hn⟩ := hnested
        rw [if_neg (by simp only [hd]; omega)]
        exact h.conclude hc rfl _ hd hn
    | running effect epoch enabled =>
      cases ht
      have hleft := h.drop hc rfl
      unfold emitIf
      split
      · exact { hleft with }
      · exact hleft
    | recomputing node epoch instrumented =>
      cases ht
      have hleft := h.drop hc rfl
      split
      · cases outcome with
        | none => exact { hleft with }
        | some changed =>
          have hrec := (silent_record { s with calls := rest }
            (if changed then .computedChanged else .computedSuppressed)).tidy hleft
          exact { hrec with }
      · exact hleft
    | disposing effect =>
      cases ht
      exact (silent_setOrigin _ _ _).tidy (h.drop hc rfl)

theorem Tidy.step (h : s.Tidy) {op : SpanOp J} (ht : s.step op = some t) : t.Tidy := by
  cases stepped ht with
  | silent hq => exact hq.tidy h
  | subscribed => exact { h with idle := fun hd => by simp [SpanHost.subscribe] at hd }
  | unsubscribed token =>
    unfold SpanHost.unsubscribe
    dsimp only
    split
    next he => exact { h with slots := Nat.zero_le _, idle := fun _ => rfl }
    next he => exact { h with idle := fun hd => absurd (List.isEmpty_iff.mpr hd) he }
  | flushed hq => exact (hq.tidy h).flushJobs
  | begun => exact h.beginFlush
  | started effect =>
    unfold SpanHost.startRun emitIf
    dsimp only
    refine Tidy.push ((silent_record _ _).tidy ?_) rfl
    split
    · exact { h with }
    · exact h
  | recomputed node =>
    unfold SpanHost.recompute
    dsimp only
    split
    · refine Tidy.push ?_ rfl
      exact { (s.silent_record .computedRecomputed).tidy h with }
    · exact h.push rfl
  | retired effect hq => exact (hq.tidy h).push rfl
  | left outcome hl => exact h.leave outcome hl

/-- A run that reports its end has reported its start. -/
def reports (s : SpanHost J) : SpanOp J → Bool
  | .startRun effect => !s.active || s.origin effect
  | _ => true

/-- Apart from subscriptions, a step tells every subscriber what it owes. -/
theorem relays_step (h : s.Tidy) {op : SpanOp J} (ha : s.reports op = true)
    (ht : s.step op = some t) :
    s.Relays t ∨ op = .subscribe ∧ t = s.subscribe ∨
      ∃ token, op = .unsubscribe token ∧ t = s.unsubscribe token := by
  cases stepped ht with
  | silent hq => exact Or.inl hq.relays
  | subscribed => exact Or.inr (Or.inl ⟨rfl, rfl⟩)
  | unsubscribed token => exact Or.inr (Or.inr ⟨token, rfl, rfl⟩)
  | flushed hq =>
    refine Or.inl (hq.relays.trans ?_)
    unfold SpanHost.flushJobs
    dsimp only
    split
    · exact relays_flush _ _
    · exact (relays_flush _ _).trans (relays_openFlush rfl rfl _)
  | begun =>
    refine Or.inl ?_
    rcases s.beginFlush_cases with ⟨-, he⟩ | ⟨-, f, -, -, he⟩
    · rw [he]
      exact (relays_flush s _).trans (relays_push fun _ _ => rfl)
    · rw [he]
      exact relays_openFlush rfl rfl f
  | started effect =>
    refine Or.inl (relays_startRun effect fun hact => ?_)
    simpa [reports, hact] using ha
  | recomputed node => exact Or.inl (relays_recompute node)
  | retired effect hq => exact Or.inl (hq.relays.trans (relays_push fun _ _ => rfl))
  | left outcome hl => exact Or.inl (relays_leave h outcome hl)

end Calls

section Subscribers

variable {s t : SpanHost J} {k : ℕ}

theorem Registered.subscribe (h : s.Registered) : s.subscribe.Registered where
  known k hk := by
    rcases List.mem_append.mp hk with hk | hk
    · exact (h.known k hk).trans (Nat.lt_succ_self _)
    · obtain rfl := List.mem_singleton.mp hk
      exact Nat.lt_succ_self _
  fresh k hk := h.fresh k (Nat.le_of_succ_le hk)

theorem Registered.unsubscribe (h : s.Registered) (token : ℕ) : (s.unsubscribe token).Registered where
  known k hk := h.known k (List.mem_of_mem_filter hk)
  fresh := h.fresh

theorem Follows.unsubscribe (h : s.Follows k) (token : ℕ) : (s.unsubscribe token).Follows k where
  present hk := by
    have hd : (s.unsubscribe token).diagnostics.isEmpty = false := by
      rw [← Bool.not_eq_true, List.isEmpty_iff]
      exact List.ne_nil_of_mem hk
    refine (h.present (List.mem_of_mem_filter hk)).trans (congrArg some ?_)
    unfold SpanHost.owed
    have hf : (s.unsubscribe token).flushes = s.flushes := if_neg (by
      rw [Bool.not_eq_true]
      exact hd)
    rw [hf]
    rfl
  paired := h.paired

theorem Follows.subscribe (h : s.Follows k) (hr : s.Registered)
    (ho : k = s.nextDiagnostic → s.owed = []) : s.subscribe.Follows k where
  present hk := by
    by_cases hn : k = s.nextDiagnostic
    · subst hn
      have hheard : s.heard s.nextDiagnostic = some [] := by
        unfold heard
        rw [hr.fresh _ le_rfl]
        rfl
      exact hheard.trans (congrArg some (ho rfl).symm)
    · refine h.present ((List.mem_append.mp hk).resolve_right fun hm => hn ?_)
      exact List.mem_singleton.mp hm
  paired := h.paired

theorem tidy_init : ({} : SpanHost J).Tidy :=
  ⟨rfl, trivial, le_rfl, fun _ => rfl⟩

theorem registered_init : ({} : SpanHost J).Registered :=
  ⟨fun _ hk => absurd hk List.not_mem_nil, fun _ _ => rfl⟩

theorem registered_step (h : s.Tidy) (hr : s.Registered) {op : SpanOp J}
    (ha : s.reports op = true) (ht : s.step op = some t) : t.Registered := by
  rcases relays_step h ha ht with hq | ⟨-, rfl⟩ | ⟨token, -, rfl⟩
  · exact hq.registered hr
  · exact hr.subscribe
  · exact hr.unsubscribe token

/-- Nothing is open whose close is going to be reported when a subscriber arrives. -/
def timely (s : SpanHost J) (op : SpanOp J) : Bool :=
  match op with
  | .subscribe => s.owed.isEmpty
  | _ => s.reports op

theorem timely_reports {op : SpanOp J} (h : s.timely op = true) : s.reports op = true := by
  cases op <;> first | rfl | exact h

theorem follows_step (h : s.Tidy) (hr : s.Registered) (hf : s.Follows k) {op : SpanOp J}
    (ha : s.timely op = true) (ht : s.step op = some t) : t.Follows k := by
  rcases relays_step h (timely_reports ha) ht with hq | ⟨rfl, rfl⟩ | ⟨token, -, rfl⟩
  · exact hq.follows hf
  · exact hf.subscribe hr fun _ => List.isEmpty_iff.mp ha
  · exact hf.unsubscribe token

/-- A close is delivered to nobody who has not received its start. -/
theorem closes_are_paired (J : Type) (s : SpanHost J)
    (h : Runs.Reaches step (fun s op => s.timely op = true) {} s) (k : ℕ) : s.heard k ≠ none := by
  have hkept : s.Tidy ∧ s.Registered ∧ s.Follows k := by
    refine h.invariant (fun s => s.Tidy ∧ s.Registered ∧ s.Follows k)
      ⟨tidy_init, registered_init, ⟨fun _ => rfl, by simp [heard, unclosed]⟩⟩ ?_
    rintro s op t ⟨hs, hr, hf⟩ ha ht
    exact ⟨hs.step ht, registered_step hs hr (timely_reports ha) ht, follows_step hs hr hf ha ht⟩
  exact hkept.2.2.paired

/-- A subscriber that arrives inside a flush is told of its end. -/
theorem late_subscriber_hears_the_end :
    ∃ s : SpanHost ℕ, Runs.run step {} [.subscribe, .schedule 0, .flushNow, .popJob, .subscribe,
      .finish false] = some s ∧ s.heard 2 = none :=
  ⟨_, rfl, rfl⟩

theorem closes_are_paired_for_the_second :
    ∃ s : SpanHost ℕ, s.heard 1 = some [.flush 1] ∧ s.heard 2 = some [.flush 1] ∧
      s.heard 2 ≠ none := by
  let ops : List (SpanOp ℕ) := [.subscribe, .schedule 0, .subscribe, .flushNow]
  refine ⟨(Runs.run step {} ops).getD {}, rfl, rfl, ?_⟩
  exact closes_are_paired ℕ _ (Runs.Reaches.run timely ops .init rfl rfl) 2

end Subscribers

section Nesting

variable {s t : SpanHost J} {k : ℕ}

/-- Every open span has been reported: each flush has its slot, each guard reports. -/
structure Attended (s : SpanHost J) : Prop where
  slots : s.flushes.opened.length = ownFlushes s.calls
  guards : ∀ call ∈ s.calls, call.guarded = true

theorem reported_all {calls : List SpanCall} (h : ∀ call ∈ calls, call.guarded = true) :
    reported (ownFlushes calls) calls = calls.filterMap SpanCall.span := by
  induction calls with
  | nil => rfl
  | cons call rest ih =>
    obtain ⟨hc, hr⟩ := List.forall_mem_cons.mp h
    have ih := ih hr
    cases call with
    | flushing epoch =>
      have hcount : ownFlushes (.flushing epoch :: rest) = ownFlushes rest + 1 :=
        List.countP_cons_of_pos rfl
      rw [hcount, (reported_flush rfl rfl _ rest).1, ih]
      rfl
    | external epoch =>
      cases epoch with
      | none => 
        have hcount : ownFlushes (.external none :: rest) = ownFlushes rest :=
          List.countP_cons_of_neg (by simp [SpanCall.isOwnFlush])
        rw [hcount]
        exact ih
      | some epoch =>
        have hcount : ownFlushes (.external (some epoch) :: rest) = ownFlushes rest + 1 :=
          List.countP_cons_of_pos rfl
        rw [hcount, (reported_flush rfl rfl _ rest).1, ih]
        rfl
    | running effect epoch enabled =>
      obtain rfl : enabled = true := hc
      exact congrArg (Span.effectRun effect epoch :: ·) ih
    | recomputing node epoch instrumented =>
      obtain rfl : instrumented = true := hc
      exact congrArg (Span.recompute node epoch :: ·) ih
    | disposing effect => exact ih

theorem Attended.owed (h : s.Attended) : s.owed = s.spans := by
  unfold SpanHost.owed
  rw [h.slots]
  exact reported_all h.guards

theorem attended_of_idle (h : s.Tidy) (hs : s.spans = []) : s.Attended := by
  have hnone : ∀ call ∈ s.calls, call.span = none := List.filterMap_eq_nil_iff.mp hs
  have hzero : ownFlushes s.calls = 0 := by
    refine List.countP_eq_zero.mpr fun call hc => ?_
    have := hnone call hc
    cases call with
    | flushing epoch => cases this
    | external epoch => 
      cases epoch with
      | none => simp [SpanCall.isOwnFlush]
      | some epoch => cases this
    | running | recomputing | disposing => simp [SpanCall.isOwnFlush]
  refine ⟨?_, fun call hc => ?_⟩
  · have := h.slots
    omega
  · have := hnone call hc
    cases call <;> first | rfl | cases this

theorem Silent.attended (h : s.Silent t) (hs : s.Attended) : t.Attended where
  slots := by rw [h.slots, h.calls]; exact hs.slots
  guards := by rw [h.calls]; exact hs.guards

theorem Attended.push (h : s.Attended) {call : SpanCall} (hf : call.isOwnFlush = false)
    (hg : call.guarded = true) : (s.push call).Attended where
  slots := h.slots.trans (List.countP_cons_of_neg (by simp [hf])).symm
  guards := List.forall_mem_cons.mpr ⟨hg, h.guards⟩

theorem Attended.openFlush (h : s.Attended) (hact : s.active = true) {call : SpanCall}
    (hf : call.isOwnFlush = true) (epoch : ℕ) (f : Flush J) :
    ({ s.announce epoch with flush := f }.push call).Attended := by
  have hg : call.guarded = true := by
    cases call <;> first | rfl | cases hf
  unfold announce
  simp only [hact, ↓reduceIte]
  refine ⟨?_, List.forall_mem_cons.mpr ⟨hg, h.guards⟩⟩
  exact (congrArg (· + 1) h.slots).trans (List.countP_cons_of_pos hf).symm

theorem Attended.conclude (h : s.Attended) (hs : s.Tidy) {call : SpanCall} {rest : List SpanCall}
    (hc : s.calls = call :: rest) (hf : call.isOwnFlush = true) (epoch : ℕ) (f : Flush J) :
    ({ s with calls := rest, flush := f }.conclude epoch).Attended := by
  obtain ⟨hcalls, -, -⟩ := conclude_same { s with calls := rest, flush := f } epoch
  have hslots := conclude_slots { s with calls := rest, flush := f } epoch hs.idle
  have hlen := h.slots
  rw [hc, ownFlushes, List.countP_cons_of_pos hf] at hlen
  refine ⟨?_, ?_⟩
  · rw [hcalls, hslots]
    exact Nat.sub_eq_of_eq_add hlen
  · rw [hcalls]
    exact (List.forall_mem_cons.mp (hc ▸ h.guards)).2

theorem Attended.drop (h : s.Attended) {call : SpanCall} {rest : List SpanCall}
    (hc : s.calls = call :: rest) (hf : call.isOwnFlush = false) :
    ({ s with calls := rest } : SpanHost J).Attended := by
  have hlen := h.slots
  rw [hc, ownFlushes, List.countP_cons_of_neg (by simp [hf])] at hlen
  exact ⟨hlen, (List.forall_mem_cons.mp (hc ▸ h.guards)).2⟩

theorem Attended.leave (h : s.Attended) (hs : s.Tidy) (outcome : Option Bool)
    (ht : s.leave outcome = some t) : t.Attended := by
  unfold SpanHost.leave at ht
  cases hc : s.calls with
  | nil => simp [hc] at ht
  | cons call rest =>
    simp only [hc] at ht
    cases call with
    | flushing epoch =>
      cases ht
      exact { h.conclude hs hc rfl epoch s.flush.leaveDrain with }
    | external epoch =>
      cases ht
      have hnested := hs.nested
      rw [hc] at hnested
      have hd := leaveDrain_depth hs hc rfl
      unfold SpanHost.endFlush
      dsimp only
      cases epoch with
      | none =>
        rw [if_pos (hd ▸ hnested.1)]
        exact { h.drop hc rfl with }
      | some epoch =>
        rw [if_neg (by simp only [hd, hnested.2.1]; omega)]
        exact h.conclude hs hc rfl _ _
    | running effect epoch enabled =>
      cases ht
      have hleft := h.drop hc rfl
      unfold emitIf
      split
      · exact { hleft with }
      · exact hleft
    | recomputing node epoch instrumented =>
      cases ht
      have hleft := h.drop hc rfl
      split
      · cases outcome with
        | none => exact { hleft with }
        | some changed =>
          have hrec := (silent_record { s with calls := rest }
            (if changed then .computedChanged else .computedSuppressed)).attended hleft
          exact { hrec with }
      · exact hleft
    | disposing effect =>
      cases ht
      exact (silent_setOrigin _ _ _).attended (h.drop hc rfl)

theorem Attended.step (h : s.Attended) (hs : s.Tidy) {op : SpanOp J} (hact : s.active = true)
    (hact' : t.active = true) (ht : s.step op = some t) : t.Attended := by
  cases stepped ht with
  | silent hq => exact hq.attended h
  | subscribed => exact { h with }
  | unsubscribed token =>
    have hf : (s.unsubscribe token).flushes = s.flushes := if_neg fun he =>
      absurd (List.isEmpty_iff.mp he) (active_iff _ |>.mp hact')
    exact ⟨by rw [hf]; exact h.slots, h.guards⟩
  | @flushed op u hq =>
    have hu : u.active = true := by
      unfold active at hact ⊢
      rw [hq.diagnostics]
      exact hact
    unfold SpanHost.flushJobs
    dsimp only
    split
    · exact { hq.attended h with }
    · exact Attended.openFlush (s := { u with flush := u.flush.openDrain })
        { hq.attended h with } hu rfl _ _
  | begun =>
    rcases s.beginFlush_cases with ⟨-, he⟩ | ⟨-, f, -, -, he⟩
    · rw [he]
      exact Attended.push (s := { s with flush := s.flush.enterDrain }) { h with } rfl rfl
    · rw [he]
      exact h.openFlush hact rfl _ f
  | started effect =>
    unfold SpanHost.startRun emitIf
    dsimp only
    refine Attended.push ((silent_record _ _).attended ?_) rfl hact
    split
    · exact { h with }
    · exact h
  | recomputed node =>
    unfold SpanHost.recompute
    simp only [hact, ↓reduceIte]
    refine Attended.push ?_ rfl rfl
    exact { (s.silent_record .computedRecomputed).attended h with }
  | retired effect hq => exact (hq.attended h).push rfl rfl
  | left outcome hl => exact h.leave hs outcome hl

/-- What holds of a subscriber that arrived when no span was open. -/
structure Witnesses (k : ℕ) (s : SpanHost J) : Prop where
  tidy : s.Tidy
  registered : s.Registered
  known : k < s.nextDiagnostic
  follows : s.Follows k
  attended : k ∈ s.diagnostics → s.Attended

theorem active_of_mem (h : k ∈ s.diagnostics) : s.active = true :=
  s.active_iff.mpr (List.ne_nil_of_mem h)

theorem Witnesses.step (h : s.Witnesses k) {op : SpanOp J} (ha : s.reports op = true)
    (ht : s.step op = some t) : t.Witnesses k := by
  have hattended : k ∈ s.diagnostics → k ∈ t.diagnostics → t.Attended := fun hk hk' =>
    (h.attended hk).step h.tidy (active_of_mem hk) (active_of_mem hk') ht
  have hr := registered_step h.tidy h.registered ha ht
  rcases relays_step h.tidy ha ht with hq | ⟨-, rfl⟩ | ⟨token, -, rfl⟩
  · refine ⟨h.tidy.step ht, hr, hq.next ▸ h.known, hq.follows h.follows, fun hk => ?_⟩
    exact hattended (hq.diagnostics ▸ hk) hk
  · refine ⟨h.tidy.step ht, hr, h.known.trans (Nat.lt_succ_self _), ?_, fun hk => ?_⟩
    · exact h.follows.subscribe h.registered fun hn => absurd h.known (by omega)
    · refine hattended ((List.mem_append.mp hk).resolve_right fun hm => ?_) hk
      have := List.mem_singleton.mp hm
      exact absurd h.known (by omega)
  · refine ⟨h.tidy.step ht, hr, h.known, h.follows.unsubscribe token, fun hk => ?_⟩
    exact hattended (List.mem_of_mem_filter hk) hk

/-- A subscriber that arrives when no span is open hears spans that nest, and those
it has not heard the end of are the open ones. -/
theorem spans_nest (J : Type) (s t : SpanHost J)
    (hs : Runs.Reaches step (fun s op => s.reports op = true) {} s) (hidle : s.spans = [])
    (ht : Runs.Reaches step (fun s op => s.reports op = true) s.subscribe t) :
    (s.nextDiagnostic ∈ t.diagnostics → t.heard s.nextDiagnostic = some t.spans) ∧
      t.heard s.nextDiagnostic ≠ none := by
  obtain ⟨htidy, hreg⟩ : s.Tidy ∧ s.Registered := by
    refine hs.invariant (fun s => s.Tidy ∧ s.Registered) ⟨tidy_init, registered_init⟩ ?_
    rintro s op t ⟨hs, hr⟩ ha ht
    exact ⟨hs.step ht, registered_step hs hr ha ht⟩
  have hatt := attended_of_idle htidy hidle
  have hnew : s.Follows s.nextDiagnostic := by
    refine ⟨fun hk => absurd (hreg.known _ hk) (lt_irrefl _), ?_⟩
    unfold heard
    rw [hreg.fresh _ le_rfl]
    simp [unclosed]
  have hstart : s.subscribe.Witnesses s.nextDiagnostic :=
    { tidy := htidy.step (show s.step .subscribe = some s.subscribe from rfl)
      registered := hreg.subscribe
      known := Nat.lt_succ_self _
      follows := hnew.subscribe hreg fun _ => hatt.owed.trans hidle
      attended := fun _ => { hatt with } }
  have hkept := ht.invariant (Witnesses s.nextDiagnostic) hstart fun _ _ _ h ha ht => h.step ha ht
  refine ⟨fun hk => ?_, hkept.follows.paired⟩
  rw [hkept.follows.present hk, (hkept.attended hk).owed]

/-- The guard of a run reports its end although nobody was told of its start. -/
theorem zombie_run_ends_unstarted :
    ∃ s : SpanHost ℕ, Runs.run step {} [.subscribe, .createEffect false, .schedule 0, .dispose 1,
      .flushNow, .popJob, .unlatch 1, .startRun 1, .finish false] = some s ∧ s.heard 1 = none :=
  ⟨_, rfl, rfl⟩

theorem spans_nest_in_nested_flush :
    ∃ t : SpanHost ℕ, t.heard 1 = some [.recompute 2 2, .effectRun 1 2, .flush 2, .flush 1] ∧
      t.heard 1 = some t.spans := by
  let ops : List (SpanOp ℕ) := [.createEffect false, .createNode, .schedule 0, .externalFlush,
    .flushNow, .popJob, .startRun 1, .recompute 2]
  refine ⟨(Runs.run step ({} : SpanHost ℕ).subscribe ops).getD {}, rfl, ?_⟩
  exact (spans_nest ℕ {} _ .init rfl (Runs.Reaches.run reports ops .init rfl rfl)).1
    (List.mem_singleton_self 1)

end Nesting

end SpanHost

end Adaptite

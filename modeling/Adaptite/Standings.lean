import Adaptite.SingleRuns

set_option autoImplicit false

namespace Adaptite

open NetFrame

/-- The latch, the mark, the deferred run and the count of the divergence guard of an
effect, whether it is in the lane, and the frames its runs are in, innermost first. -/
structure Standing where
  latched : Bool
  queued : Bool
  state : State
  deferred : Bool
  epoch : Option ℕ
  runs : ℕ
  roles : List NetHost.Role

namespace Standing

def take (a : Standing) (queued : Bool) : Standing := { a with latched := false, queued }

/-- The latch is claimed; a latched effect is not queued again. -/
def claim (a : Standing) : Standing := { a with latched := true, queued := a.queued || !a.latched }

def count (a : Standing) (epoch : ℕ) : Standing :=
  { a with epoch := some epoch, runs := if a.epoch = some epoch then a.runs + 1 else 1 }

def windowed (a : Standing) : Prop := .resetting ∈ a.roles ∨ .running ∈ a.roles

end Standing

namespace NetHost

variable {V : Type} {layout : Layout} {s t : NetHost V} {n m d e : NodeId} {rest : List NetFrame}
  {f : NetFrame} {op : NetStep V}

def standing (s : NetHost V) (e : NodeId) : Option Standing :=
  (s.net.effects e).map fun x =>
    { latched := x.scheduled
      queued := decide (e ∈ s.net.pendingJobs)
      state := x.state
      deferred := s.rerunAfterCurrent e
      epoch := x.lastDrainEpoch
      runs := x.runsThisDrain
      roles := s.roles e }

/-- A run of the effect is taken from the lane by the innermost flush. -/
structure Taken (s : NetHost V) (op : NetStep V) (e : NodeId) (a : Standing) (queued : Bool) :
    Prop where
  next : op = .next
  flush : ∃ rest, s.frames = .flushing :: rest
  first : ∃ jobs, s.net.pendingJobs = e :: jobs ∧ queued = decide (e ∈ jobs)
  stood : s.standing e = some a

/-- What becomes of a run of the effect `e` that is taken. -/
inductive Taking (s t : NetHost V) (e : NodeId) (a : Standing) (queued : Bool) : Prop where
  | deferred (open' : a.windowed)
      (h : t.standing e = some { a.take queued with deferred := true })
  | dropped (free : ¬ a.windowed) (clean : a.state = .clean)
      (h : t.standing e = some (a.take queued))
  | verifying (free : ¬ a.windowed) (check : a.state = .check)
      (h : t.standing e = some
        { a.take queued with state := .clean, roles := .verifying :: a.roles })
  | resetting (free : ¬ a.windowed) (dirty : a.state = .dirty)
      (passed : (a.count s.net.drainEpoch).runs ≤ maxRunsPerFlush)
      (h : t.standing e = some { (a.take queued).count s.net.drainEpoch with
        state := .clean, roles := .resetting :: a.roles })
  | refused (free : ¬ a.windowed) (dirty : a.state = .dirty)
      (exceeds : maxRunsPerFlush < (a.count s.net.drainEpoch).runs) (panics : t.unwinding = true)
      (h : t.standing e = some { (a.take queued).count s.net.drainEpoch with state := .clean })

/-- What a step does to the effect `e`. Past the guard of the divergence a run is torn down
before it is entered. -/
inductive Turn (s : NetHost V) (op : NetStep V) (t : NetHost V) (e : NodeId) : Prop where
  | aside (h : t.standing e = s.standing e)
      (hd : t.rerunAfterCurrent e = true → s.rerunAfterCurrent e = true)
  | created (fresh : e = s.net.nextNode) (hs : s.standing e = none) (h : t.standing e = some
      { latched := true, queued := true, state := .dirty, deferred := s.rerunAfterCurrent e,
        epoch := none, runs := 0, roles := s.roles e })
  | marked (a : Standing) (state : State) (hop : op.isWrite = true) (hs : s.standing e = some a)
      (stale : state ≠ .clean) (raised : a.state.rank ≤ state.rank)
      (h : t.standing e = some { a.claim with state })
  | taken (a : Standing) (queued : Bool) (ht : s.Taken op e a queued)
      (how : Taking s t e a queued)
  | skipped (a : Standing) (roles : List Role) (rest : List NetFrame) (hop : op = .next)
      (hf : s.frames = .verifying e [] :: rest) (hs : s.standing e = some a)
      (hr : a.roles = .verifying :: roles) (h : t.standing e = some { a with roles })
  | found (a : Standing) (roles : List Role) (d : NodeId) (version : ℕ) (entries : EdgeTable)
      (rest : List NetFrame) (hop : op = .next)
      (hf : s.frames = .awaiting e d version entries :: rest) (hv : s.net.version d ≠ version) (hs : s.standing e = some a)
      (hr : a.roles = .verifying :: roles)
      (passed : (a.count s.net.drainEpoch).runs ≤ maxRunsPerFlush)
      (h : t.standing e = some { a.count s.net.drainEpoch with roles := .resetting :: roles })
  | stopped (a : Standing) (roles : List Role) (d : NodeId) (version : ℕ) (entries : EdgeTable)
      (rest : List NetFrame) (hop : op = .next)
      (hf : s.frames = .awaiting e d version entries :: rest) (hv : s.net.version d ≠ version) (hs : s.standing e = some a)
      (hr : a.roles = .verifying :: roles)
      (exceeds : maxRunsPerFlush < (a.count s.net.drainEpoch).runs) (panics : t.unwinding = true)
      (h : t.standing e = some { a.count s.net.drainEpoch with roles })
  | entered (a : Standing) (roles : List Role) (v : V) (rest : List NetFrame) (hop : op = .finish v)
      (hf : s.frames = .resetting e :: rest) (hs : s.standing e = some a)
      (hr : a.roles = .resetting :: roles) (idle : e ∉ s.net.activeComputations)
      (started : t.started = e :: s.started) (cleared : t.net.dependencies e = [])
      (h : t.standing e = some { a with roles := .running :: roles })
  | barred (a : Standing) (roles : List Role) (v : V) (rest : List NetFrame) (hop : op = .finish v)
      (hf : s.frames = .resetting e :: rest) (hs : s.standing e = some a)
      (hr : a.roles = .resetting :: roles) (active : e ∈ s.net.activeComputations)
      (h : t.standing e = some { a with roles })
  | ended (a : Standing) (roles : List Role) (v : V) (untracked : ℕ) (rest : List NetFrame)
      (hop : op = .finish v) (hf : s.frames = .running e untracked :: rest)
      (hs : s.standing e = some a) (hr : a.roles = .running :: roles)
      (h : t.standing e = some
        { (if a.deferred then a.claim else a) with deferred := false, roles })
  | recovered (a : Standing) (roles : List Role) (f : NetFrame) (rest : List NetFrame)
      (hop : op = .unwind) (hf : s.frames = f :: rest) (hv : f.verifies e = true)
      (hs : s.standing e = some a) (hr : a.roles = .verifying :: roles)
      (h : t.standing e = some { a.claim with state := .dirty, roles })
  | aborted (a : Standing) (r : Role) (roles : List Role) (f : NetFrame) (rest : List NetFrame)
      (hop : op = .unwind) (hf : s.frames = f :: rest) (hw : f.isWindow e = true)
      (hs : s.standing e = some a) (hr : a.roles = r :: roles)
      (h : t.standing e = some { a with roles })

section Aside

structure Aloof (s t : NetHost V) (e : NodeId) : Prop where
  effect : t.net.effects e = s.net.effects e
  queue : e ∈ t.net.pendingJobs ↔ e ∈ s.net.pendingJobs
  rerun : t.rerunAfterCurrent e = s.rerunAfterCurrent e
  roles : t.roles e = s.roles e

theorem Aloof.standing (h : Aloof s t e) : t.standing e = s.standing e := by
  unfold NetHost.standing
  rw [h.effect, h.rerun, h.roles]
  simp only [h.queue]

theorem Aloof.turn (h : Aloof s t e) : Turn s op t e :=
  .aside h.standing fun hd => h.rerun ▸ hd

theorem Aloof.trans {u : NetHost V} (h : Aloof s t e) (h' : Aloof t u e) : Aloof s u e :=
  ⟨h'.effect.trans h.effect, h'.queue.trans h.queue, h'.rerun.trans h.rerun,
    h'.roles.trans h.roles⟩

theorem aloof_of_lane (h : SameLane s.net t.net)
    (hr : t.rerunAfterCurrent e = s.rerunAfterCurrent e) (hf : t.roles e = s.roles e) :
    Aloof s t e :=
  ⟨congrFun h.1 e, by rw [h.2], hr, hf⟩

theorem Apart.aloof (h : Apart s t e) (hl : SameLane s.net t.net) : Aloof s t e :=
  aloof_of_lane hl h.rerun h.roles

theorem sameLane_recompute (s : NetHost V) (n : NodeId) : SameLane s.net (s.recompute n).net := by
  unfold NetHost.recompute
  split
  · exact ⟨rfl, rfl⟩
  · split
    · exact ⟨rfl, rfl⟩
    · unfold begin Net.beginCompute Net.occupy
      split <;> exact ⟨rfl, rfl⟩

theorem sameLane_refresh (s : NetHost V) (n : NodeId) : SameLane s.net (s.refresh n).net := by
  unfold NetHost.refresh
  split
  · exact ⟨rfl, rfl⟩
  · split
    · exact ⟨rfl, rfl⟩
    · exact ⟨rfl, rfl⟩
    · exact sameLane_recompute s n

theorem sameLane_read (s : NetHost V) (n : NodeId) (tracked : Bool) :
    SameLane s.net (s.read n tracked).net := by
  unfold NetHost.read
  split
  · exact ⟨rfl, rfl⟩
  · split
    · exact ⟨rfl, rfl⟩
    · exact sameLane_refresh (s.push (.reading n tracked)) n
  · exact ⟨rfl, rfl⟩

theorem sameLane_lend (s : NetHost V) (n : NodeId) (tracked : Bool) :
    SameLane s.net (s.lend layout n tracked).net := by
  have hrec : SameLane s.net (if tracked = true then s.net.recordEdge layout n else s.net) := by
    split
    · rcases @Net.recordEdge_eq V s.net layout n with hr | ⟨z, rest, -, -, hr⟩ <;> rw [hr] <;>
        exact ⟨rfl, rfl⟩
    · exact ⟨rfl, rfl⟩
  unfold NetHost.lend
  split
  · exact ⟨rfl, rfl⟩
  · dsimp only
    split
    · exact hrec
    · exact hrec

theorem sameLane_conclude {untracked : ℕ} (x : NetComputed V) (v : V) :
    SameLane s.net (s.conclude rest n x untracked v).net := by
  have he := sameLane_endCompute s.net n x untracked
  unfold NetHost.conclude
  dsimp only
  split
  · exact he
  · split
    · exact he
    · exact he.trans (sameLane_accept _ n v _)

theorem aloof_attempt (hne : e ≠ n) (s : NetHost V) : Aloof s (s.attempt n) e := by
  have ha := apart_attempt hne s
  refine ⟨?_, ?_, ha.rerun, ha.roles⟩
  · unfold NetHost.attempt
    dsimp only
    split <;> exact Function.update_of_ne hne _ _
  · unfold NetHost.attempt
    dsimp only
    split <;> rfl

theorem aloof_changed (hne : e ≠ n) (s : NetHost V) : Aloof s (s.changed n) e := by
  unfold NetHost.changed
  split
  · exact (apart_recompute s n e).aloof (sameLane_recompute s n)
  · exact aloof_attempt hne s

theorem aloof_runScheduled (hne : e ≠ n) (s : NetHost V) : Aloof s (s.runScheduled n) e := by
  have ha := apart_runScheduled hne s
  have hu : ∀ k : NetEffect V → NetEffect V,
      ((s.net.unlatch n).modifyEffect n k).effects e = s.net.effects e := fun k =>
    (Function.update_of_ne hne _ _).trans (Function.update_of_ne hne _ _)
  refine ⟨?_, ?_, ha.rerun, ha.roles⟩ <;> unfold NetHost.runScheduled <;> split
  · rfl
  · dsimp only
    split
    · exact Function.update_of_ne hne _ _
    · split
      · exact (aloof_attempt hne _).effect.trans (hu _)
      · exact hu _
      · exact hu _
  · rfl
  · dsimp only
    split
    · rfl
    · split
      · exact (aloof_attempt hne _).queue
      · rfl
      · rfl

theorem aloof_enterBody (hne : e ≠ n) (hs : s.frames = .resetting n :: rest) :
    Aloof s (s.enterBody rest n) e := by
  refine (apart_enterBody hne hs).aloof ?_
  unfold NetHost.enterBody
  dsimp only
  split <;> exact ⟨rfl, rfl⟩

theorem queue_scheduleEffect (net : Net V) (hne : e ≠ n) :
    e ∈ (net.scheduleEffect n).pendingJobs ↔ e ∈ net.pendingJobs := by
  unfold Net.scheduleEffect
  split
  · rfl
  · split
    · rfl
    · change e ∈ net.pendingJobs ++ [n] ↔ _
      simp [hne]

theorem aloof_settle (hne : e ≠ n) {untracked : ℕ} (hs : s.frames = .running n untracked :: rest) :
    Aloof s (s.settle rest n untracked) e := by
  have ha := apart_settle hne hs
  have hl := sameLane_leave s.net untracked
  refine ⟨?_, ?_, ha.rerun, ha.roles⟩ <;> unfold NetHost.settle <;> dsimp only <;> split
  · rw [effects_scheduleEffect hne, hl.1]
  · rw [hl.1]
  · rw [queue_scheduleEffect _ hne, hl.2]
  · rw [hl.2]

end Aside

section Marks

/-- The effect is as it was, or has been told. -/
def Told (net t : Net V) (e : NodeId) : Prop :=
  (t.effects e = net.effects e ∧ (e ∈ t.pendingJobs ↔ e ∈ net.pendingJobs)) ∨
    ∃ x state, net.effects e = some x ∧ state ≠ .clean ∧ x.state.rank ≤ state.rank ∧
      t.effects e = some { x with scheduled := true, state } ∧
      (e ∈ t.pendingJobs ↔ e ∈ net.pendingJobs ∨ x.scheduled = false)

theorem State.raise_ne_clean (state : State) (mark : Mark) : state.raise mark ≠ .clean :=
  (State.rank_pos_iff _).mp (mark.rank_pos.trans_le (state.mark_le_raise mark))

theorem Told.markEffect {net t : Net V} (h : Told net t e) (n : NodeId) (mark : Mark) :
    Told net (t.markEffect n mark) e := by
  by_cases hne : e = n
  · subst hne
    cases hy : t.effects e with
    | none =>
      unfold Net.markEffect
      rw [hy]
      exact h
    | some y =>
      have heff : (t.markEffect e mark).effects e =
          some { y with state := y.state.raise mark, scheduled := true } := by
        unfold Net.markEffect
        rw [hy]
        dsimp only
        split <;>
        · refine (Function.update_self _ _ _).trans ?_
          rw [hy]
          rfl
      have hqueue : e ∈ (t.markEffect e mark).pendingJobs ↔
          e ∈ t.pendingJobs ∨ y.scheduled = false := by
        unfold Net.markEffect
        rw [hy]
        dsimp only
        split
        · rename_i hs
          rw [hs]
          change e ∈ t.pendingJobs ↔ _
          simp
        · rename_i hs
          rw [Bool.not_eq_true] at hs
          change e ∈ t.pendingJobs ++ [e] ↔ _
          simp [hs]
      have hstale := State.raise_ne_clean y.state mark
      have hle := y.state.rank_le_raise mark
      right
      rcases h with ⟨he, hq⟩ | ⟨x, state, hx, -, hrank, he, hq⟩
      · exact ⟨y, y.state.raise mark, he ▸ hy, hstale, hle, heff, by rw [hqueue, hq]⟩
      · rw [hy] at he
        cases he
        refine ⟨x, state.raise mark, hx, hstale, hrank.trans hle, heff, ?_⟩
        rw [hqueue, hq]
        simp
  · have heff : (t.markEffect n mark).effects e = t.effects e := by
      unfold Net.markEffect
      split
      · rfl
      · dsimp only
        split <;> exact Function.update_of_ne hne _ _
    have hqueue : e ∈ (t.markEffect n mark).pendingJobs ↔ e ∈ t.pendingJobs := by
      unfold Net.markEffect
      split
      · rfl
      · dsimp only
        split
        · rfl
        · change e ∈ t.pendingJobs ++ [n] ↔ _
          simp [hne]
    unfold Told at h ⊢
    rw [heff, hqueue]
    exact h

theorem told_trigger (net : Net V) (n e : NodeId) : Told net (net.trigger n) e :=
  Net.markDependents_keeps (P := fun t => Told net t e) (fun _ _ _ h => h)
    (fun _ i mark h => h.markEffect i mark) _ _ _ n (.inl ⟨rfl, Iff.rfl⟩)

theorem turn_write {n : NodeId} (v : V) (hop : op.isWrite = true) :
    Turn s op (s.write n v) e := by
  have hroles : (s.write n v).roles e = s.roles e := rfl
  rcases told_trigger (s.net.setValue n v) n e with ⟨he, hq⟩ | ⟨x, state, hx, hstale, hle, he, hq⟩
  · refine Aloof.turn ⟨?_, ?_, rfl, hroles⟩
    · exact he
    · exact hq
  · have hx : s.net.effects e = some x := hx
    have he : (s.write n v).net.effects e = some { x with scheduled := true, state } := he
    have hq : e ∈ (s.write n v).net.pendingJobs ↔ e ∈ s.net.pendingJobs ∨ x.scheduled = false := hq
    have hs : s.standing e = some ⟨x.scheduled, decide (e ∈ s.net.pendingJobs), x.state,
        s.rerunAfterCurrent e, x.lastDrainEpoch, x.runsThisDrain, s.roles e⟩ := by
      unfold standing
      rw [hx]
      rfl
    refine .marked _ state hop hs hstale hle ?_
    unfold standing Standing.claim
    rw [he]
    simp only [Option.map_some, hq, hroles]
    cases x.scheduled <;> simp <;> rfl

theorem turn_overwrite (n : NodeId) (k : V → V) (hop : op.isWrite = true) :
    Turn s op (s.overwrite n k) e := by
  unfold NetHost.overwrite
  split
  · exact .aside rfl id
  · split
    · exact .aside rfl id
    · exact turn_write _ hop

theorem turn_set (n : NodeId) (v : V) (hop : op.isWrite = true) : Turn s op (s.set n v) e := by
  unfold NetHost.set
  split
  · exact .aside rfl id
  · split
    · exact .aside rfl id
    · exact turn_overwrite n _ hop

end Marks

section Own

theorem standing_of_effect {x : NetEffect V} (hx : s.net.effects e = some x) : s.standing e = some
    { latched := x.scheduled, queued := decide (e ∈ s.net.pendingJobs), state := x.state,
      deferred := s.rerunAfterCurrent e, epoch := x.lastDrainEpoch, runs := x.runsThisDrain,
      roles := s.roles e } := by
  unfold standing
  rw [hx]
  rfl

theorem effect_of_standing {a : Standing} (h : s.standing e = some a) :
    ∃ x, s.net.effects e = some x ∧ a =
      { latched := x.scheduled, queued := decide (e ∈ s.net.pendingJobs), state := x.state,
        deferred := s.rerunAfterCurrent e, epoch := x.lastDrainEpoch, runs := x.runsThisDrain,
        roles := s.roles e } := by
  obtain ⟨x, hx, rfl⟩ := Option.map_eq_some_iff.mp h
  exact ⟨x, hx, rfl⟩

/-- The guard of the divergence counts the run, and lets it pass or not. -/
theorem standing_attempt {a : Standing} (h : s.standing e = some a) :
    ((a.count s.net.drainEpoch).runs ≤ maxRunsPerFlush ∧ (s.attempt e).standing e =
      some { a.count s.net.drainEpoch with roles := .resetting :: a.roles }) ∨
    (maxRunsPerFlush < (a.count s.net.drainEpoch).runs ∧ (s.attempt e).unwinding = true ∧
      (s.attempt e).standing e = some (a.count s.net.drainEpoch)) := by
  obtain ⟨x, hx, rfl⟩ := effect_of_standing h
  have hcount : (s.net.countRun e).effects e = some { x with
      lastDrainEpoch := some s.net.drainEpoch
      runsThisDrain := if x.lastDrainEpoch = some s.net.drainEpoch then x.runsThisDrain + 1
        else 1 } := by
    refine (Function.update_self _ _ _).trans ?_
    rw [hx]
    rfl
  by_cases hover : maxRunsPerFlush <
      if x.lastDrainEpoch = some s.net.drainEpoch then x.runsThisDrain + 1 else 1
  · refine .inr ⟨hover, ?_⟩
    have hnet : s.attempt e = { s.raise with net := s.net.countRun e } := by
      unfold NetHost.attempt
      dsimp only
      rw [hcount]
      exact if_pos (decide_eq_true hover)
    rw [hnet]
    exact ⟨rfl, standing_of_effect (s := { s.raise with net := s.net.countRun e }) hcount⟩
  · refine .inl ⟨Nat.not_lt.mp hover, ?_⟩
    have hnet : s.attempt e = push { s with net := s.net.countRun e } (.resetting e) := by
      unfold NetHost.attempt
      dsimp only
      rw [hcount]
      exact if_neg fun h => hover (of_decide_eq_true h)
    rw [hnet]
    refine (standing_of_effect (s := push { s with net := s.net.countRun e } (.resetting e))
      hcount).trans ?_
    rw [roles_start (s := s) rfl role_resetting]
    rfl

theorem windowed_iff {a : Standing} (h : s.standing e = some a) :
    a.windowed ↔ s.frames.any (isWindow e) = true := by
  obtain ⟨x, -, rfl⟩ := effect_of_standing h
  unfold Standing.windowed
  dsimp only
  constructor
  · intro hw
    obtain ⟨f, hf, hr⟩ : ∃ f ∈ s.frames, role e f = some .resetting ∨ role e f = some .running :=
      hw.elim (fun hm => (List.mem_filterMap.mp hm).imp fun f hf => ⟨hf.1, .inl hf.2⟩)
        fun hm => (List.mem_filterMap.mp hm).imp fun f hf => ⟨hf.1, .inr hf.2⟩
    refine List.any_eq_true.mpr ⟨f, hf, ?_⟩
    cases f <;> simp [role] at hr <;> exact decide_eq_true hr
  · intro hw
    obtain ⟨f, hf, hp⟩ := List.any_eq_true.mp hw
    cases f with
    | resetting i =>
      exact .inl (List.mem_filterMap.mpr ⟨_, hf, if_pos (of_decide_eq_true hp)⟩)
    | running i untracked =>
      exact .inr (List.mem_filterMap.mpr ⟨_, hf, if_pos (of_decide_eq_true hp)⟩)
    | _ => cases hp

theorem taking_runScheduled {x : NetEffect V} (hx : s.net.effects e = some x)
    {a : Standing} (hs : s.standing e = some a) (jobs : List NodeId) :
    Taking s (runScheduled { s with net := { s.net with pendingJobs := jobs } } e) e a
      (decide (e ∈ jobs)) := by
  have ha := Option.some.inj (hs.symm.trans (standing_of_effect hx))
  have hmark : a.state = x.state := congrArg Standing.state ha
  have hwindow := windowed_iff hs
  have hunlatched : ({ s.net with pendingJobs := jobs }.unlatch e).effects e =
      some { x with scheduled := false } := by
    refine (Function.update_self _ _ _).trans ?_
    rw [hx]
    rfl
  have hcleaned : (({ s.net with pendingJobs := jobs }.unlatch e).modifyEffect e fun x =>
      { x with state := .clean }).effects e =
        some { x with scheduled := false, state := .clean } := by
    refine (Function.update_self _ _ _).trans ?_
    rw [hunlatched]
    rfl
  unfold NetHost.runScheduled
  dsimp only
  rw [hx]
  dsimp only
  split
  · rename_i hw
    refine .deferred (hwindow.mpr hw) ((standing_of_effect hunlatched).trans ?_)
    dsimp only
    rw [Function.update_self, ha]
    rfl
  · rename_i hw
    have hfree := fun h => hw (hwindow.mp h)
    -- the state in which the mark has been taken, before the run is verified or attempted
    let u : NetHost V := { s with
      net := ({ s.net with pendingJobs := jobs }.unlatch e).modifyEffect e fun x =>
        { x with state := .clean } }
    have hu := standing_of_effect (s := u) hcleaned
    cases hstate : x.state with
    | clean =>
      refine .dropped hfree (hmark.trans hstate) (hu.trans ?_)
      rw [ha]
      unfold Standing.take
      dsimp only
      rw [hstate]
      rfl
    | check =>
      refine .verifying hfree (hmark.trans hstate) ?_
      have hpushed : (u.push (.verifying e (u.net.dependencies e))).net.effects e =
          some { x with scheduled := false, state := .clean } := hcleaned
      refine (standing_of_effect hpushed).trans ?_
      rw [roles_start (s := u) rfl role_verifying, ha]
      rfl
    | dirty =>
      rcases standing_attempt hu with ⟨hpass, h⟩ | ⟨hover, hpanic, h⟩
      · refine .resetting hfree (hmark.trans hstate) ?_ ?_ <;> rw [ha]
        · exact hpass
        · exact h
      · refine .refused hfree (hmark.trans hstate) ?_ hpanic ?_ <;> rw [ha]
        · exact hover
        · exact h

theorem roles_head {r : Role} (hs : s.frames = f :: rest) (hr : role e f = some r) :
    s.roles e = r :: rest.filterMap (role e) := by
  unfold roles
  rw [hs, List.filterMap_cons_some hr]

theorem turn_changed {version : ℕ} {entries : EdgeTable} {x : NetEffect V}
    (hc : s.net.computed e = none) (hx : s.net.effects e = some x) (hop : op = .next)
    (hf : s.frames = .awaiting e d version entries :: rest) (hv : s.net.version d ≠ version) :
    Turn s op (NetHost.changed { s with frames := rest } e) e := by
  have hs := standing_of_effect hx
  have hr : s.roles e = .verifying :: rest.filterMap (role e) := roles_head hf role_awaiting
  have hu := standing_of_effect (s := { s with frames := rest }) hx
  unfold NetHost.changed
  dsimp only
  rw [hc]
  rcases standing_attempt hu with ⟨hpass, h⟩ | ⟨hover, hpanic, h⟩
  · exact .found _ _ d version entries rest hop hf hv hs hr hpass h
  · exact .stopped _ _ d version entries rest hop hf hv hs hr hover hpanic h

theorem turn_enterBody {x : NetEffect V} (hx : s.net.effects e = some x) {v : V}
    (hop : op = .finish v) (hf : s.frames = .resetting e :: rest) :
    Turn s op (s.enterBody rest e) e := by
  have hs := standing_of_effect hx
  have hr : s.roles e = .resetting :: rest.filterMap (role e) := roles_head hf role_resetting
  unfold NetHost.enterBody
  dsimp only
  split
  · rename_i hin
    exact .barred _ _ v rest hop hf hs hr hin
      (standing_of_effect (s := { s.raise with frames := rest }) hx)
  · rename_i hin
    refine .entered _ _ v rest hop hf hs hr hin rfl (Function.update_self _ _ _) ?_
    refine (standing_of_effect (s := begin { s with frames := rest } e (s.net.enter e)
      (.running e s.net.untracked)) hx).trans ?_
    rw [roles_start (s := { s with frames := rest }) rfl role_running]
    rfl

theorem scheduleEffect_self {net : Net V} {x : NetEffect V} (hx : net.effects e = some x) :
    (net.scheduleEffect e).effects e = some { x with scheduled := true } ∧
      (e ∈ (net.scheduleEffect e).pendingJobs ↔ e ∈ net.pendingJobs ∨ x.scheduled = false) := by
  unfold Net.scheduleEffect
  rw [hx]
  dsimp only
  split
  · rename_i hs
    refine ⟨?_, ?_⟩
    · rw [hx]
      cases x
      cases hs
      rfl
    · simp [hs]
  · rename_i hs
    rw [Bool.not_eq_true] at hs
    refine ⟨?_, ?_⟩
    · refine (Function.update_self _ _ _).trans ?_
      rw [hx]
      rfl
    · change e ∈ net.pendingJobs ++ [e] ↔ _
      simp [hs]

theorem standing_scheduleEffect {u : NetHost V} {a : Standing} (h : u.standing e = some a)
    {v : NetHost V} (hn : v.net = u.net.scheduleEffect e)
    (hr : v.rerunAfterCurrent e = u.rerunAfterCurrent e) (hf : v.roles e = u.roles e) : v.standing e = some a.claim := by
  obtain ⟨x, hx, rfl⟩ := effect_of_standing h
  obtain ⟨heff, hq⟩ := scheduleEffect_self hx
  unfold standing Standing.claim
  rw [hn, heff, hr, hf]
  simp only [Option.map_some, hq]
  cases x.scheduled <;> simp

theorem turn_settle {x : NetEffect V} (hx : s.net.effects e = some x) {v : V} {untracked : ℕ}
    (hop : op = .finish v) (hf : s.frames = .running e untracked :: rest) :
    Turn s op (s.settle rest e untracked) e := by
  have hs := standing_of_effect hx
  have hr : s.roles e = .running :: rest.filterMap (role e) := roles_head hf role_running
  have hl := sameLane_leave s.net untracked
  have hleft := standing_of_effect (s := { s with
    net := s.net.leave untracked, frames := rest
    rerunAfterCurrent := Function.update s.rerunAfterCurrent e false }) ((congrFun hl.1 e).trans hx)
  refine .ended _ _ v untracked rest hop hf hs hr ?_
  dsimp only
  cases hd : s.rerunAfterCurrent e with
  | true =>
    refine (standing_scheduleEffect (v := s.settle rest e untracked) hleft ?_ rfl rfl).trans ?_
    · unfold NetHost.settle
      dsimp only
      rw [if_pos hd]
    · dsimp only
      rw [Function.update_self, hl.2, if_pos rfl]
      rfl
  | false =>
    have hnet : (s.settle rest e untracked).net = s.net.leave untracked := by
      unfold NetHost.settle
      dsimp only
      rw [hd, if_neg Bool.false_ne_true]
    have heff : (s.settle rest e untracked).net.effects e = some x := by
      rw [hnet]
      exact (congrFun hl.1 e).trans hx
    refine (standing_of_effect heff).trans ?_
    rw [hnet, hl.2, if_neg Bool.false_ne_true]
    change some (Standing.mk _ _ _ (Function.update s.rerunAfterCurrent e false e) _ _ _) = _
    rw [Function.update_self]
    rfl

theorem turn_recover {x : NetEffect V} (hx : s.net.effects e = some x) (hop : op = .unwind)
    (hf : s.frames = f :: rest) (hv : f.verifies e = true) : Turn s op (s.recover rest e) e := by
  have hs := standing_of_effect hx
  have hrole : role e f = some .verifying := by
    cases f with
    | verifying i entries => exact if_pos (of_decide_eq_true hv)
    | awaiting i d version entries => exact if_pos (of_decide_eq_true hv)
    | _ => cases hv
  have hr : s.roles e = .verifying :: rest.filterMap (role e) := roles_head hf hrole
  have hdirty : (s.net.modifyEffect e fun x => { x with state := .dirty }).effects e =
      some { x with state := .dirty } := by
    refine (Function.update_self _ _ _).trans ?_
    rw [hx]
    rfl
  have hu := standing_of_effect (s := { s with
    net := s.net.modifyEffect e fun x => { x with state := .dirty }, frames := rest }) hdirty
  exact .recovered _ _ f rest hop hf hv hs hr (standing_scheduleEffect hu rfl rfl rfl)

end Own

section Absent

/-- What is no effect does not become one by being marked, counted or queued. -/
theorem absent_modifyEffect {net : Net V} (h : net.effects e = none) (i : NodeId)
    (k : NetEffect V → NetEffect V) : (net.modifyEffect i k).effects e = none := by
  by_cases hi : e = i
  · subst hi
    exact (Function.update_self _ _ _).trans (by rw [h]; rfl)
  · exact (Function.update_of_ne hi _ _).trans h

theorem absent_scheduleEffect {net : Net V} (h : net.effects e = none) (i : NodeId) :
    (net.scheduleEffect i).effects e = none := by
  unfold Net.scheduleEffect
  split
  · exact h
  · split
    · exact h
    · exact absent_modifyEffect h i _

theorem standing_none (h : s.net.effects e = none) (ht : t.net.effects e = none) :
    t.standing e = s.standing e := by
  unfold standing
  rw [h, ht]
  rfl

theorem absent_changed (h : s.net.effects e = none) (i : NodeId) :
    (s.changed i).net.effects e = none := by
  unfold NetHost.changed
  split
  · exact (congrFun (sameLane_recompute s i).1 e).trans h
  · unfold NetHost.attempt
    dsimp only
    split <;> exact absent_modifyEffect h i _

theorem rerun_changed (s : NetHost V) (i : NodeId) :
    (s.changed i).rerunAfterCurrent = s.rerunAfterCurrent := (serene_changed s i).rerun

theorem rerun_enterBody (s : NetHost V) (rest : List NetFrame) (i : NodeId) :
    (s.enterBody rest i).rerunAfterCurrent = s.rerunAfterCurrent := by
  unfold NetHost.enterBody
  dsimp only
  split <;> rfl

theorem absent_enterBody (h : s.net.effects e = none) (i : NodeId) :
    (s.enterBody rest i).net.effects e = none := by
  unfold NetHost.enterBody
  dsimp only
  split <;> exact h

theorem absent_settle (h : s.net.effects e = none) (i untracked : ℕ) :
    (s.settle rest i untracked).net.effects e = none := by
  have hl := (congrFun (sameLane_leave s.net untracked).1 e).trans h
  unfold NetHost.settle
  dsimp only
  split
  · exact absent_scheduleEffect hl i
  · exact hl

end Absent

section Steps

theorem Turn.of_lane (hl : SameLane s.net t.net)
    (hd : t.rerunAfterCurrent e = s.rerunAfterCurrent e) (hf : t.roles e = s.roles e) :
    Turn s op t e := (aloof_of_lane hl hd hf).turn

theorem turn_finish {v : V} (ht : s.finish v = some t) :
    Turn s (.finish v) t e := by
  unfold NetHost.finish at ht
  split at ht
  · rename_i hf
    obtain ⟨x, -, rfl⟩ := Option.map_eq_some_iff.mp ht
    exact ((apart_conclude hf x v e).aloof (sameLane_conclude x v)).turn
  · rename_i n rest hf
    cases ht
    by_cases hne : e = n
    · subst hne
      cases hx : s.net.effects e with
      | none =>
        exact .aside (standing_none hx (absent_enterBody hx e)) fun hd => rerun_enterBody s rest e ▸ hd
      | some x => exact turn_enterBody hx rfl hf
    · exact (aloof_enterBody hne hf).turn
  · rename_i n untracked rest hf
    cases ht
    by_cases hne : e = n
    · subst hne
      cases hx : s.net.effects e with
      | none =>
        refine .aside (standing_none hx (absent_settle hx e untracked)) fun hd => ?_
        have hd : Function.update s.rerunAfterCurrent e false e = true := hd
        rw [Function.update_self] at hd
        cases hd
      | some x => exact turn_settle hx rfl hf
    · exact (aloof_settle hne hf).turn
  · rename_i hf
    cases ht
    exact .of_lane ⟨rfl, rfl⟩ rfl (roles_pop hf rfl)
  · rename_i hf
    cases ht
    exact .of_lane ⟨rfl, rfl⟩ rfl (roles_pop hf rfl)
  · cases ht

theorem turn_next (hl : Lane s.net) (hn : s.net.computed e = none)
    (ht : s.next layout = some t) : Turn s .next t e := by
  unfold NetHost.next at ht
  split at ht
  · rename_i rest hf
    split at ht
    · cases ht
      exact .of_lane ⟨rfl, rfl⟩ rfl (roles_pop hf rfl)
    · rename_i i jobs hj
      cases ht
      by_cases hne : e = i
      · subst hne
        obtain ⟨x, hx, -⟩ := hl.queued e (by rw [hj]; exact List.mem_cons_self)
        have hs := standing_of_effect hx
        exact .taken _ _ ⟨rfl, ⟨rest, hf⟩, ⟨jobs, hj, rfl⟩, hs⟩ (taking_runScheduled hx hs jobs)
      · let u : NetHost V := { s with net := { s.net with pendingJobs := jobs } }
        have hu : Aloof s u e := by
          refine ⟨rfl, ?_, rfl, rfl⟩
          change e ∈ jobs ↔ e ∈ s.net.pendingJobs
          rw [hj]
          simp [hne]
        exact (hu.trans (aloof_runScheduled hne u)).turn
  · rename_i i rest hf
    cases ht
    by_cases hne : e = i
    · subst hne
      cases hx : s.net.effects e with
      | none => exact .aside (standing_none hx hx) id
      | some x =>
        exact .skipped _ _ rest rfl hf (standing_of_effect hx) (roles_head hf role_verifying)
          (standing_of_effect (s := { s with net := s.net.setState e .clean, frames := rest }) hx)
    · exact .of_lane ⟨rfl, rfl⟩ rfl (roles_pop hf (if_neg (Ne.symm hne)))
  · rename_i i d version entries rest hf
    split at ht
    · cases ht
      exact .aside rfl id
    · cases ht
      let u : NetHost V := { s with frames := .awaiting i d version entries :: rest }
      have hu : Aloof s u e := aloof_of_lane ⟨rfl, rfl⟩ rfl (roles_swap hf rfl rfl)
      have hr : Aloof u (u.refresh d) e :=
        (apart_refresh (s := u) hn d).aloof (sameLane_refresh u d)
      exact (hu.trans hr).turn
  · rename_i i d version entries rest hf
    split at ht
    · rename_i hv
      cases ht
      by_cases hne : e = i
      · subst hne
        cases hx : s.net.effects e with
        | none =>
          exact .aside (standing_none hx (absent_changed (s := { s with frames := rest }) hx e))
            fun hd => rerun_changed { s with frames := rest } e ▸ hd
        | some x => exact turn_changed hn hx rfl hf hv
      · let u : NetHost V := { s with frames := rest }
        have hu : Aloof s u e :=
          aloof_of_lane ⟨rfl, rfl⟩ rfl (roles_pop hf (if_neg (Ne.symm hne)))
        exact (hu.trans (aloof_changed hne u)).turn
    · cases ht
      exact .of_lane ⟨rfl, rfl⟩ rfl (roles_swap hf rfl rfl)
  · rename_i i tracked rest hf
    cases ht
    let u : NetHost V := { s with frames := rest }
    have hu : Aloof s u e := aloof_of_lane ⟨rfl, rfl⟩ rfl (roles_pop hf rfl)
    have hr : Aloof u (u.lend layout i tracked) e :=
      (apart_lend u i e tracked).aloof (sameLane_lend u i tracked)
    exact (hu.trans hr).turn
  · cases ht

theorem aloof_recover (hne : e ≠ n) (hf : s.frames = f :: rest) (hr : role e f = none) :
    Aloof s (s.recover rest n) e := by
  refine ⟨?_, ?_, rfl, roles_pop hf hr⟩
  · exact (effects_scheduleEffect hne).trans (effects_modifyEffect hne _)
  · exact queue_scheduleEffect _ hne

theorem turn_unwind (ht : s.unwind = some t) : Turn s .unwind t e := by
  have hrecover : ∀ f rest n, s.frames = f :: rest → f.verifies n = true →
      (e ≠ n → role e f = none) → Turn s .unwind (s.recover rest n) e := by
    intro f rest n hf hv hr
    by_cases hne : e = n
    · subst hne
      cases hx : s.net.effects e with
      | none =>
        exact .aside (standing_none hx (absent_scheduleEffect (absent_modifyEffect hx e _) e)) id
      | some x => exact turn_recover hx rfl hf hv
    · exact (aloof_recover hne hf (hr hne)).turn
  have haborted : ∀ f rest n (u : NetHost V), s.frames = f :: rest → f.isWindow n = true →
      (e ≠ n → role e f = none) → SameLane s.net u.net →
      u.rerunAfterCurrent e = s.rerunAfterCurrent e → u.frames = rest → Turn s .unwind u e := by
    intro f rest n u hf hw hr hl hd hu
    have hroles : u.roles e = rest.filterMap (role e) := congrArg (List.filterMap (role e)) hu
    by_cases hne : e = n
    · subst hne
      cases hx : s.net.effects e with
      | none => exact .aside (standing_none hx ((congrFun hl.1 e).trans hx)) fun h => hd ▸ h
      | some x =>
        obtain ⟨r, hrole⟩ : ∃ r, role e f = some r := by
          cases f with
          | resetting i => exact ⟨_, if_pos (of_decide_eq_true hw)⟩
          | running i untracked => exact ⟨_, if_pos (of_decide_eq_true hw)⟩
          | _ => cases hw
        refine .aborted _ r _ f rest rfl hf hw (standing_of_effect hx) (roles_head hf hrole) ?_
        refine (standing_of_effect ((congrFun hl.1 e).trans hx)).trans ?_
        rw [hl.2, hd, hroles]
    · refine (aloof_of_lane hl hd ?_).turn
      rw [hroles]
      unfold roles
      rw [hf, List.filterMap_cons_none (hr hne)]
  unfold NetHost.unwind at ht
  split at ht
  · cases ht
  · rename_i n untracked rest hf
    obtain ⟨x, -, rfl⟩ := Option.map_eq_some_iff.mp ht
    have hl := sameLane_endCompute s.net n x untracked
    exact .of_lane ⟨hl.1, hl.2⟩ rfl (roles_pop hf rfl)
  · rename_i n untracked rest hf
    cases ht
    exact haborted _ rest n _ hf (decide_eq_true rfl) (fun hne => if_neg (Ne.symm hne))
      (sameLane_leave s.net untracked) rfl rfl
  · rename_i n entries rest hf
    cases ht
    exact hrecover _ rest n hf (decide_eq_true rfl) fun hne => if_neg (Ne.symm hne)
  · rename_i n d version entries rest hf
    cases ht
    exact hrecover _ rest n hf (decide_eq_true rfl) fun hne => if_neg (Ne.symm hne)
  · rename_i hf
    cases ht
    exact .of_lane ⟨rfl, rfl⟩ rfl (roles_pop hf rfl)
  · rename_i hf
    cases ht
    exact .of_lane ⟨rfl, rfl⟩ rfl (roles_pop hf rfl)
  · rename_i hf
    cases ht
    exact .of_lane ⟨rfl, rfl⟩ rfl (roles_pop hf rfl)
  · rename_i hf
    cases ht
    exact .of_lane ⟨rfl, rfl⟩ rfl (roles_pop hf rfl)
  · rename_i n rest hf
    cases ht
    exact haborted _ rest n _ hf (decide_eq_true rfl) (fun hne => if_neg (Ne.symm hne))
      ⟨rfl, rfl⟩ rfl rfl

theorem turn_newEffect (hw : s.Wired) (body : Script V) :
    Turn s op { s with net := s.net.newEffect body } e := by
  by_cases hne : e = s.net.nextNode
  · subst hne
    have hs : s.net.effects s.net.nextNode = none := by
      by_contra h
      obtain ⟨x, hx⟩ := Option.ne_none_iff_exists'.mp h
      exact absurd (hw.net.effect _ x hx).1 (lt_irrefl _)
    have hx : ({ s.net with
        nextNode := s.net.nextNode + 1
        effects := Function.update s.net.effects s.net.nextNode (some { body }) } :
      Net V).effects s.net.nextNode = some { body } := Function.update_self _ _ _
    obtain ⟨heff, hq⟩ := scheduleEffect_self hx
    refine .created rfl ?_ ?_
    · unfold standing
      rw [hs]
      rfl
    · refine (standing_of_effect (s := { s with net := s.net.newEffect body }) heff).trans ?_
      have hq : s.net.nextNode ∈ (s.net.newEffect body).pendingJobs := hq.mpr (.inr rfl)
      rw [decide_eq_true hq]
      rfl
  · refine Aloof.turn ⟨?_, queue_scheduleEffect _ hne, rfl, rfl⟩
    exact (effects_scheduleEffect hne).trans (Function.update_of_ne hne _ _)

/-- Every step is one of these. -/
theorem turn_step (hw : s.Wired) (hl : Lane s.net) (hn : s.net.computed e = none)
    (ht : s.step layout op = some t) : Turn s op t e := by
  cases op <;> simp only [NetHost.step] at ht <;> split at ht <;> try cases ht
  case signal => exact .aside rfl id
  case thunk => exact .aside rfl id
  case memo => exact .aside rfl id
  case effect body _ => exact turn_newEffect hw body
  case read m tracked _ =>
    exact ((apart_read hn m tracked).aloof (sameLane_read s m tracked)).turn
  case set m v _ => exact turn_set m v rfl
  case update m k _ => exact turn_overwrite m k rfl
  case untrack => exact .of_lane ⟨rfl, rfl⟩ rfl (roles_push rfl rfl)
  case flushNow =>
    unfold NetHost.flushNow
    split
    · exact .aside rfl id
    · exact .of_lane ⟨rfl, rfl⟩ rfl (roles_push rfl rfl)
  case finish => exact turn_finish ht
  case next => exact turn_next hl hn ht
  case panic => exact .aside rfl id
  case catchUnwind => exact .aside rfl id
  case unwind => exact turn_unwind ht

theorem Turn.persists {a : Standing} (h : Turn s op t e) (ha : s.standing e = some a) :
    ∃ b, t.standing e = some b := by
  cases h with
  | aside h hd => exact ⟨a, h.trans ha⟩
  | created fresh hs h => exact ⟨_, h⟩
  | marked a' state hop hs stale raised h => exact ⟨_, h⟩
  | taken a' queued ht how =>
    cases how with
    | deferred open' h => exact ⟨_, h⟩
    | dropped free clean h => exact ⟨_, h⟩
    | verifying free check h => exact ⟨_, h⟩
    | resetting free dirty passed h => exact ⟨_, h⟩
    | refused free dirty exceeds panics h => exact ⟨_, h⟩
  | skipped a' roles rest hop hf hs hr h => exact ⟨_, h⟩
  | found a' roles d version entries rest hop hf hv hs hr passed h => exact ⟨_, h⟩
  | stopped a' roles d version entries rest hop hf hv hs hr exceeds panics h => exact ⟨_, h⟩
  | entered a' roles v rest hop hf hs hr idle started cleared h => exact ⟨_, h⟩
  | barred a' roles v rest hop hf hs hr active h => exact ⟨_, h⟩
  | ended a' roles v untracked rest hop hf hs hr h => exact ⟨_, h⟩
  | recovered a' roles f rest hop hf hv hs hr h => exact ⟨_, h⟩
  | aborted a' r roles f rest hop hf hw hs hr h => exact ⟨_, h⟩

theorem standing_computed (hw : s.Wired) {a : Standing} (ha : s.standing e = some a) :
    s.net.computed e = none := by
  obtain ⟨x, hx, -⟩ := effect_of_standing ha
  exact (hw.net.effect e x hx).2

theorem Turn.absent (h : Turn s op t e) (hs : s.standing e = none) :
    (t.standing e = none ∧ (t.rerunAfterCurrent e = true → s.rerunAfterCurrent e = true)) ∨
      e = s.net.nextNode ∧ t.standing e =
        some ⟨true, true, .dirty, s.rerunAfterCurrent e, none, 0, s.roles e⟩ := by
  have hother : ∀ {a : Standing}, s.standing e = some a → False := fun ha => by
    rw [hs] at ha
    cases ha
  cases h with
  | aside h hd => exact .inl ⟨h.trans hs, hd⟩
  | created fresh _ h => exact .inr ⟨fresh, h⟩
  | marked a' state hop hs stale raised h => exact (hother hs).elim
  | taken a' queued ht how => exact (hother ht.stood).elim
  | skipped a' roles rest hop hf hs hr h => exact (hother hs).elim
  | found a' roles d version entries rest hop hf hv hs hr passed h => exact (hother hs).elim
  | stopped a' roles d version entries rest hop hf hv hs hr exceeds panics h => exact (hother hs).elim
  | entered a' roles v rest hop hf hs hr idle started cleared h => exact (hother hs).elim
  | barred a' roles v rest hop hf hs hr active h => exact (hother hs).elim
  | ended a' roles v untracked rest hop hf hs hr h => exact (hother hs).elim
  | recovered a' roles f rest hop hf hv hs hr h => exact (hother hs).elim
  | aborted a' r roles f rest hop hf hw hs hr h => exact (hother hs).elim

theorem uncomputed_before (hw : s.Wired) (ht : s.step layout op = some t)
    (hn : t.net.computed e = none) : s.net.computed e = none := by
  by_contra hne
  have hsome := (shift_step hw ht).computed_isSome (Option.isSome_iff_ne_none.mpr hne)
  rw [hn] at hsome
  cases hsome

/-- What is no effect has just been made one, or is none. -/
theorem standing_made (hw : s.Wired) (hl : Lane s.net) (ht : s.step layout op = some t)
    {b : Standing} (hs : s.standing e = none) (hb : t.standing e = some b) :
    e = s.net.nextNode ∧ b = ⟨true, true, .dirty, s.rerunAfterCurrent e, none, 0, s.roles e⟩ := by
  have hn := uncomputed_before hw ht (standing_computed (hw.step op ht) hb)
  rcases (turn_step hw hl hn ht).absent hs with ⟨hnone, -⟩ | ⟨fresh, hmade⟩
  · rw [hnone] at hb
    cases hb
  · exact ⟨fresh, Option.some.inj (hb.symm.trans hmade)⟩

end Steps

end NetHost

end Adaptite

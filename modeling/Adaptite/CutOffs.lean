import Adaptite.NetFrames

set_option autoImplicit false

namespace Adaptite

namespace NetFrame

/-- A scheduled run of the effect was taken up, and has not entered the body or skipped it. -/
def isUnderway (e : NodeId) : NetFrame → Bool
  | verifying n _ | awaiting n _ _ _ | resetting n => n = e
  | _ => false

def isRunning (e : NodeId) : NetFrame → Bool
  | running n _ => n = e
  | _ => false

def isPlain : NetFrame → Bool
  | verifying _ _ | awaiting _ _ _ _ | resetting _ | running _ _ => false
  | _ => true

theorem not_isPlain {e : NodeId} {f : NetFrame}
    (h : f.isUnderway e = true ∨ f.isRunning e = true ∨ f.isWindow e = true) :
    f.isPlain = false := by
  cases f <;> simp_all [isPlain, isUnderway, isRunning, isWindow]

end NetFrame

namespace NetHost

variable {V : Type} {layout : Layout} {s t : NetHost V} {n e o : NodeId} {rest : List NetFrame}
  {f : NetFrame}

/-- A run of the effect is under way, or is to follow the one that is in progress. -/
def awaited (s : NetHost V) (e : NodeId) : Bool :=
  s.frames.any (NetFrame.isUnderway e) ||
    s.rerunAfterCurrent e && s.frames.any (NetFrame.isRunning e)

/-- The observer knows that it may be out of date. -/
def heeds (s : NetHost V) (o : NodeId) : Bool :=
  !s.net.isClean o && (s.net.effects o).all fun y => y.scheduled || s.awaited o

/-- A stale node is about to be recorded for an observer that believes it is up to date, or
a verification to end so while a recorded dependency is stale. -/
def hides (s : NetHost V) : NetStep V → Bool
  | .next =>
    match s.frames with
    | .reading n true :: _ =>
      s.net.untracked = 0 && s.net.isStale n && s.net.stack.head?.any fun o => !s.heeds o
    | .verifying n [] :: rest =>
      ((s.net.computed n).isSome || !heeds { s with frames := rest } n) &&
        (s.net.dependencies n).any fun e => s.net.isStale e.1
    | _ => false
  | _ => false

section Flags

/-- Whoever is in the lane is latched, and in it once. -/
structure Lane (net : Net V) : Prop where
  nodup : net.pendingJobs.Nodup
  queued : ∀ e ∈ net.pendingJobs, ∃ y, net.effects e = some y ∧ y.scheduled = true

def SameLane (net t : Net V) : Prop :=
  t.effects = net.effects ∧ t.pendingJobs = net.pendingJobs

theorem SameLane.trans {net t u : Net V} (h : SameLane net t) (h' : SameLane t u) :
    SameLane net u := ⟨h'.1.trans h.1, h'.2.trans h.2⟩

theorem Lane.same {net t : Net V} (h : Lane net) (hs : SameLane net t) : Lane t :=
  ⟨hs.2 ▸ h.nodup, by rw [hs.1, hs.2]; exact h.queued⟩

theorem rel_modifyEffect {R : NetEffect V → NetEffect V → Prop} (net : Net V) (e : NodeId)
    (g : NetEffect V → NetEffect V) (hg : ∀ x, net.effects e = some x → R x (g x))
    (hr : ∀ x, R x x) (i : NodeId) :
    Option.Rel R (net.effects i) ((net.modifyEffect e g).effects i) := by
  unfold Net.modifyEffect
  by_cases hi : i = e
  · rw [hi]
    dsimp only
    rw [Function.update_self]
    cases hx : net.effects e with
    | none => exact .none
    | some x => exact .some (hg x hx)
  · dsimp only
    rw [Function.update_of_ne hi]
    exact rel_refl hr _

theorem Lane.rel {net t : Net V} (h : Lane net)
    (he : ∀ e, Option.Rel (fun x y => x.scheduled = true → y.scheduled = true) (net.effects e)
      (t.effects e)) (hj : t.pendingJobs = net.pendingJobs) : Lane t := by
  refine ⟨hj ▸ h.nodup, fun e hm => ?_⟩
  obtain ⟨x, hx, hs⟩ := h.queued e (hj ▸ hm)
  obtain ⟨y, hy, hxy⟩ := rel_left (hx ▸ he e)
  exact ⟨y, hy, hxy hs⟩

theorem Lane.append {net t : Net V} (h : Lane net) {x y : NetEffect V}
    (hx : net.effects e = some x) (hs : x.scheduled = false)
    (he : t.effects = Function.update net.effects e (some y)) (hy : y.scheduled = true)
    (hj : t.pendingJobs = net.pendingJobs ++ [e]) : Lane t := by
  have hfree : e ∉ net.pendingJobs := by
    intro hm
    obtain ⟨z, hz, hzs⟩ := h.queued e hm
    rw [hx] at hz
    cases hz
    rw [hs] at hzs
    cases hzs
  refine ⟨?_, fun i hi => ?_⟩
  · rw [hj]
    exact List.nodup_append.mpr ⟨h.nodup, List.nodup_singleton e, fun a ha b hb hab =>
      hfree (List.mem_singleton.mp hb ▸ hab ▸ ha)⟩
  · rw [hj] at hi
    rw [he]
    by_cases hie : i = e
    · rw [hie, Function.update_self]
      exact ⟨y, rfl, hy⟩
    · rw [Function.update_of_ne hie]
      refine h.queued i ((List.mem_append.mp hi).resolve_right fun hm => ?_)
      exact hie (List.mem_singleton.mp hm)

theorem Lane.scheduleEffect {net : Net V} (h : Lane net) (e : NodeId) :
    Lane (net.scheduleEffect e) := by
  unfold Net.scheduleEffect
  cases hx : net.effects e with
  | none => exact h
  | some x =>
    dsimp only
    split
    · exact h
    · rename_i hs
      refine h.append (y := { x with scheduled := true }) hx (Bool.eq_false_iff.mpr hs) ?_ rfl rfl
      unfold Net.modifyEffect
      rw [hx]
      rfl

theorem Lane.markEffect {net : Net V} (h : Lane net) (e : NodeId) (mark : Mark) :
    Lane (net.markEffect e mark) := by
  unfold Net.markEffect
  cases hx : net.effects e with
  | none => exact h
  | some x =>
    dsimp only
    split
    · exact h.rel (rel_modifyEffect net e _ (fun _ _ _ => rfl) fun _ => id) rfl
    · rename_i hs
      refine h.append (y := { x with state := x.state.raise mark, scheduled := true }) hx (Bool.eq_false_iff.mpr hs) ?_ rfl rfl
      unfold Net.modifyEffect
      rw [hx]
      rfl

/-- A deferred run is remembered while the run that it follows is in progress; an effect
that is to run again has its mark. -/
structure Flagged (s : NetHost V) : Prop where
  window : ∀ e, s.rerunAfterCurrent e = true → s.frames.any (NetFrame.isWindow e) = true
  marked : ∀ e y, s.net.effects e = some y →
    y.scheduled = true ∨ s.rerunAfterCurrent e = true → y.state ≠ .clean
  lane : Lane s.net

theorem Flagged.rouse (h : s.Flagged) (hl : Lane s.net → Lane t.net)
    (he : ∀ e, Option.Rel Net.Roused (s.net.effects e) (t.net.effects e))
    (hw : ∀ e, t.rerunAfterCurrent e = true → s.frames.any (NetFrame.isWindow e) = true →
      t.frames.any (NetFrame.isWindow e) = true)
    (hr : ∀ e, t.rerunAfterCurrent e = true → s.rerunAfterCurrent e = true) : t.Flagged := by
  refine ⟨fun e ht => hw e ht (h.window e (hr e ht)), fun e y hy hq => ?_, hl h.lane⟩
  obtain ⟨x, hx, hxy⟩ := rel_right (hy ▸ he e)
  rcases hq with hq | hq
  · rcases hxy.marked hq with hq | hq
    · exact hxy.stale (h.marked e x hx (.inl hq))
    · exact hq
  · exact hxy.stale (h.marked e x hx (.inr (hr e hq)))

theorem any_of_pop {p : NetFrame → Bool} (hs : s.frames = f :: rest) (hf : p f = false)
    (h : s.frames.any p = true) : rest.any p = true := by
  rw [hs, List.any_cons, hf, Bool.false_or] at h
  exact h

/-- No run of an effect is taken up, and none ends. -/
structure Serene (s t : NetHost V) : Prop where
  effects : ∀ e, Option.Rel Net.Roused (s.net.effects e) (t.net.effects e)
  frames : ∀ f ∈ s.frames, f.isPlain = false → f ∈ t.frames
  rerun : t.rerunAfterCurrent = s.rerunAfterCurrent
  lane : Lane s.net → Lane t.net

theorem Serene.any {p : NetFrame → Bool} (h : s.Serene t)
    (hp : ∀ f, p f = true → f.isPlain = false) (hs : s.frames.any p = true) :
    t.frames.any p = true := by
  obtain ⟨f, hf, hpf⟩ := List.any_eq_true.mp hs
  exact List.any_eq_true.mpr ⟨f, h.frames f hf (hp f hpf), hpf⟩

theorem Serene.awaited (h : s.Serene t) (ha : s.awaited e = true) : t.awaited e = true := by
  unfold NetHost.awaited at ha ⊢
  rw [Bool.or_eq_true, Bool.and_eq_true] at ha ⊢
  refine ha.imp (h.any fun _ hf => NetFrame.not_isPlain (.inl hf)) fun hr => ⟨?_, ?_⟩
  · rw [h.rerun]
    exact hr.1
  · exact h.any (fun _ hf => NetFrame.not_isPlain (.inr (.inl hf))) hr.2

theorem Flagged.serene (h : s.Flagged) (hs : s.Serene t) : t.Flagged :=
  h.rouse hs.lane hs.effects
    (fun _ _ => hs.any fun _ hf => NetFrame.not_isPlain (e := _) (.inr (.inr hf)))
    fun e he => by rwa [hs.rerun] at he

theorem Serene.of_frames (he : SameLane s.net t.net)
    (hf : ∀ f ∈ s.frames, f.isPlain = false → f ∈ t.frames)
    (hr : t.rerunAfterCurrent = s.rerunAfterCurrent) : s.Serene t :=
  ⟨fun e => by rw [he.1]; exact rel_refl Net.Roused.refl _, hf, hr, fun hl => hl.same he⟩

theorem Serene.of_same (he : SameLane s.net t.net) (hf : t.frames = s.frames)
    (hr : t.rerunAfterCurrent = s.rerunAfterCurrent) : s.Serene t :=
  .of_frames he (fun _ hm _ => hf ▸ hm) hr

theorem Serene.of_push (he : SameLane s.net t.net) (hf : t.frames = f :: s.frames)
    (hr : t.rerunAfterCurrent = s.rerunAfterCurrent) : s.Serene t :=
  .of_frames he (fun g hm _ => by rw [hf]; exact List.mem_cons_of_mem _ hm) hr

theorem Serene.of_pop (he : SameLane s.net t.net) (hs : s.frames = f :: t.frames)
    (hp : f.isPlain = true) (hr : t.rerunAfterCurrent = s.rerunAfterCurrent) : s.Serene t := by
  refine .of_frames he (fun g hm hg => ?_) hr
  rw [hs] at hm
  rcases List.mem_cons.mp hm with rfl | hm
  · rw [hp] at hg
    cases hg
  · exact hm

theorem Serene.trans {u : NetHost V} (h : s.Serene t) (h' : t.Serene u) : s.Serene u :=
  ⟨fun e => rel_trans (R := Net.Roused) (fun _ _ _ => Net.Roused.trans) (h.effects e)
      (h'.effects e),
    fun f hf hp => h'.frames f (h.frames f hf hp) hp, h'.rerun.trans h.rerun, h'.lane ∘ h.lane⟩

theorem serene_recompute (s : NetHost V) (n : NodeId) : s.Serene (s.recompute n) := by
  unfold NetHost.recompute
  cases hx : s.net.computed n with
  | none => exact .of_same ⟨rfl, rfl⟩ rfl rfl
  | some x =>
    dsimp only
    split
    · exact .of_same ⟨rfl, rfl⟩ rfl rfl
    · have ho : SameLane s.net (s.net.beginCompute n x) := by
        unfold Net.beginCompute Net.occupy
        split <;> exact ⟨rfl, rfl⟩
      exact .of_push ho rfl rfl

theorem serene_refresh (s : NetHost V) (n : NodeId) : s.Serene (s.refresh n) := by
  unfold NetHost.refresh
  split
  · exact .of_same ⟨rfl, rfl⟩ rfl rfl
  · split
    · exact .of_same ⟨rfl, rfl⟩ rfl rfl
    · exact .of_push ⟨rfl, rfl⟩ rfl rfl
    · exact serene_recompute s n

theorem serene_read (s : NetHost V) (n : NodeId) (tracked : Bool) :
    s.Serene (s.read n tracked) := by
  unfold NetHost.read
  split
  · exact .of_push ⟨rfl, rfl⟩ rfl rfl
  · split
    · exact .of_same ⟨rfl, rfl⟩ rfl rfl
    · exact (Serene.of_push (s := s) (t := s.push (.reading n tracked)) ⟨rfl, rfl⟩ rfl rfl).trans
        (serene_refresh _ n)
  · exact .of_same ⟨rfl, rfl⟩ rfl rfl

theorem serene_lend (s : NetHost V) (n : NodeId) (tracked : Bool) :
    s.Serene (s.lend layout n tracked) := by
  have hrec : SameLane s.net (if tracked = true then s.net.recordEdge layout n else s.net) := by
    split
    · rcases @Net.recordEdge_eq V s.net layout n with hr | ⟨z, rest, -, -, hr⟩ <;> rw [hr] <;>
        exact ⟨rfl, rfl⟩
    · exact ⟨rfl, rfl⟩
  unfold NetHost.lend
  split
  · exact .of_same ⟨rfl, rfl⟩ rfl rfl
  · dsimp only
    split
    · exact .of_same hrec rfl rfl
    · rename_i v _
      obtain ⟨-, h2, -, -, -, h6⟩ := noteSaw_same s n v
      cases tracked with
      | true => exact .of_push hrec (congrArg _ h2) h6
      | false => exact .of_push ⟨rfl, rfl⟩ rfl rfl

theorem lane_trigger {net : Net V} (h : Lane net) (n : NodeId) : Lane (net.trigger n) :=
  Net.markDependents_keeps (fun _ _ _ hl => hl.same ⟨rfl, rfl⟩) (fun _ e mark hl => hl.markEffect e mark)
    _ _ _ n (h.same ⟨rfl, rfl⟩ : Lane (net.bumpVersion n))

theorem serene_write (hw : s.Wired) (n : NodeId) (v : V) : s.Serene (s.write n v) := by
  obtain ⟨ha, -⟩ := Net.alerts_trigger (hw.net.alike (Net.alike_setValue s.net n v)) n
  have ha' : (s.net.setValue n v).effects = s.net.effects := rfl
  exact ⟨ha.effects, fun _ hf _ => hf, rfl, fun hl =>
    lane_trigger (hl.same ⟨ha', rfl⟩) n⟩

theorem serene_overwrite (hw : s.Wired) (n : NodeId) (f : V → V) :
    s.Serene (s.overwrite n f) := by
  unfold NetHost.overwrite
  split
  · exact .of_same ⟨rfl, rfl⟩ rfl rfl
  · split
    · exact .of_same ⟨rfl, rfl⟩ rfl rfl
    · exact serene_write hw n _

theorem serene_set (hw : s.Wired) (n : NodeId) (v : V) : s.Serene (s.set n v) := by
  unfold NetHost.set
  split
  · exact .of_same ⟨rfl, rfl⟩ rfl rfl
  · split
    · exact .of_same ⟨rfl, rfl⟩ rfl rfl
    · exact serene_overwrite hw n _

theorem sameLane_leave (net : Net V) (untracked : ℕ) : SameLane net (net.leave untracked) := by
  unfold Net.leave
  split <;> exact ⟨rfl, rfl⟩

theorem sameLane_endCompute (net : Net V) (n : NodeId) (x : NetComputed V) (untracked : ℕ) :
    SameLane net (net.endCompute n x untracked) := by
  refine (sameLane_leave net untracked).trans ?_
  unfold Net.endCompute Net.vacate
  split <;> exact ⟨rfl, rfl⟩

theorem sameLane_accept (net : Net V) (n : NodeId) (v : V) (changed : Bool) :
    SameLane net (net.accept n v changed) := by
  unfold Net.accept
  split <;> exact ⟨rfl, rfl⟩

theorem serene_conclude {untracked : ℕ} (hs : s.frames = .computing n untracked :: rest)
    (x : NetComputed V) (v : V) : s.Serene (s.conclude rest n x untracked v) := by
  have he := sameLane_endCompute s.net n x untracked
  unfold NetHost.conclude
  dsimp only
  split
  · exact .of_pop he hs rfl rfl
  · split
    · exact .of_pop he hs rfl rfl
    · exact .of_pop (he.trans (sameLane_accept _ n v _)) hs rfl rfl

theorem serene_attempt (s : NetHost V) (e : NodeId) : s.Serene (s.attempt e) := by
  have hc : ∀ i, Option.Rel Net.Roused (s.net.effects i) ((s.net.countRun e).effects i) :=
    rel_modifyEffect s.net e _ (fun x _ => ⟨id, id, .inl⟩) Net.Roused.refl
  have hl : Lane s.net → Lane (s.net.countRun e) := fun hl =>
    hl.rel (rel_modifyEffect s.net e _ (fun _ _ => id) fun _ => id) rfl
  unfold NetHost.attempt
  dsimp only
  split
  · exact ⟨hc, fun _ hf _ => hf, rfl, hl⟩
  · exact ⟨hc, fun _ hf _ => List.mem_cons_of_mem _ hf, rfl, hl⟩

theorem serene_changed (s : NetHost V) (n : NodeId) : s.Serene (s.changed n) := by
  unfold NetHost.changed
  split
  · exact serene_recompute s n
  · exact serene_attempt s n

theorem Lane.addEffect {net : Net V} (h : Lane net) (hw : net.Wired) (y : NetEffect V) : Lane
    { net with
      nextNode := net.nextNode + 1
      effects := Function.update net.effects net.nextNode (some y) } := by
  refine ⟨h.nodup, fun e hm => ?_⟩
  obtain ⟨z, hz, hs⟩ := h.queued e hm
  exact ⟨z, (Function.update_of_ne (Nat.ne_of_lt (hw.effect e z hz).1) _ _).trans hz, hs⟩

theorem Flagged.newEffect (h : s.Flagged) (hw : s.Wired) (body : Script V) :
    Flagged { s with net := s.net.newEffect body } := by
  have hadd : Flagged { s with net := { s.net with
      nextNode := s.net.nextNode + 1
      effects := Function.update s.net.effects s.net.nextNode (some { body }) } } := by
    refine ⟨h.window, fun e y hy hq => ?_, h.lane.addEffect hw.net _⟩
    by_cases he : e = s.net.nextNode
    · have hy : Function.update s.net.effects s.net.nextNode (some { body }) e = some y := hy
      rw [he, Function.update_self] at hy
      cases hy
      exact State.noConfusion
    · exact h.marked e y ((Function.update_of_ne he _ _).symm.trans hy) hq
  refine hadd.rouse (fun hl => hl.scheduleEffect s.net.nextNode) (fun e => ?_) (fun _ _ hw => hw) fun _ hr => hr
  change Option.Rel Net.Roused _ ((Net.scheduleEffect _ _).effects e)
  unfold Net.scheduleEffect
  split
  · exact rel_refl Net.Roused.refl _
  · rename_i x hx
    split
    · exact rel_refl Net.Roused.refl _
    · refine rel_modifyEffect _ _ _ (fun z hz => ⟨fun _ => rfl, id, fun _ => .inr ?_⟩)
        Net.Roused.refl e
      have hz : Function.update s.net.effects s.net.nextNode (some { body }) s.net.nextNode =
        some z := hz
      rw [Function.update_self] at hz
      cases hz
      exact State.noConfusion

theorem Flagged.scheduleEffect {net : Net V} (hm : ∀ x, net.effects e = some x → x.state ≠ .clean)
    (i : NodeId) : Option.Rel Net.Roused (net.effects i) ((net.scheduleEffect e).effects i) := by
  unfold Net.scheduleEffect
  split
  · exact rel_refl Net.Roused.refl _
  · split
    · exact rel_refl Net.Roused.refl _
    · exact rel_modifyEffect net e _ (fun x hx => ⟨fun _ => rfl, id, fun _ => .inr (hm x hx)⟩)
        Net.Roused.refl i

theorem Flagged.settle (h : s.Flagged) {untracked : ℕ}
    (hs : s.frames = .running e untracked :: rest) : (s.settle rest e untracked).Flagged := by
  have hl := (sameLane_leave s.net untracked).1
  have hlane : Lane s.net → Lane (if s.rerunAfterCurrent e = true then
      (s.net.leave untracked).scheduleEffect e else s.net.leave untracked) := by
    intro hln
    split
    · exact (hln.same (sameLane_leave s.net untracked)).scheduleEffect e
    · exact hln.same (sameLane_leave s.net untracked)
  refine h.rouse hlane (fun i => ?_) (fun i hi hw => ?_) fun i hi => ?_
  · change Option.Rel Net.Roused _ ((if s.rerunAfterCurrent e = true then
      (s.net.leave untracked).scheduleEffect e else s.net.leave untracked).effects i)
    rw [← hl]
    split
    · rename_i hr
      refine Flagged.scheduleEffect (fun x hx => h.marked e x ?_ (.inr hr)) i
      rwa [hl] at hx
    · exact rel_refl Net.Roused.refl _
  · have hi : Function.update s.rerunAfterCurrent e false i = true := hi
    have hie : i ≠ e := by
      rintro rfl
      rw [Function.update_self] at hi
      cases hi
    exact any_of_pop hs (decide_eq_false fun h => hie h.symm) hw
  · have hi : Function.update s.rerunAfterCurrent e false i = true := hi
    by_cases hie : i = e
    · rw [hie, Function.update_self] at hi
      cases hi
    · rwa [Function.update_of_ne hie] at hi

theorem Flagged.enterBody (h : s.Flagged) (hs : s.frames = .resetting e :: rest)
    (hu : (s.enterBody rest e).unwinding = false) : (s.enterBody rest e).Flagged := by
  unfold NetHost.enterBody at hu ⊢
  dsimp only at hu ⊢
  split
  · rename_i hin
    rw [if_pos hin] at hu
    cases hu
  · refine h.rouse (fun hl => hl.same ⟨rfl, rfl⟩) (fun i => rel_refl Net.Roused.refl _) (fun i _ hw => ?_) fun _ hi => hi
    change (NetFrame.running e s.net.untracked :: rest).any _ = true
    rw [hs] at hw
    exact hw

theorem Lane.unlatch {net : Net V} (h : Lane net) {jobs : List NodeId}
    (hj : net.pendingJobs = e :: jobs) :
    Lane ({ net with pendingJobs := jobs }.unlatch e) := by
  have hnd := h.nodup
  rw [hj] at hnd
  obtain ⟨hfree, hnd⟩ := List.nodup_cons.mp hnd
  refine ⟨hnd, fun i hi => ?_⟩
  have hie : i ≠ e := fun he => hfree (he ▸ hi)
  obtain ⟨y, hy, hs⟩ := h.queued i (by rw [hj]; exact List.mem_cons_of_mem _ hi)
  exact ⟨y, (Function.update_of_ne hie _ _).trans hy, hs⟩

/-- Where the effect is not being run its mark is taken, and no flag stands for it. -/
theorem Flagged.runScheduled (h : s.Flagged) {jobs : List NodeId}
    (hj : s.net.pendingJobs = e :: jobs) :
    (runScheduled { s with net := { s.net with pendingJobs := jobs } } e).Flagged := by
  obtain ⟨x, hx, hs⟩ := h.lane.queued e (by rw [hj]; exact List.mem_cons_self)
  have hl := h.lane.unlatch hj
  have hother : ∀ i, i ≠ e → ({ s.net with pendingJobs := jobs }.unlatch e).effects i =
      s.net.effects i := fun i hi => Function.update_of_ne hi _ _
  have hself : ({ s.net with pendingJobs := jobs }.unlatch e).effects e =
      some { x with scheduled := false } := by
    refine (Function.update_self _ _ _).trans ?_
    change (s.net.effects e).map _ = _
    rw [hx]
    rfl
  unfold NetHost.runScheduled
  dsimp only
  rw [hx]
  dsimp only
  split
  · rename_i hw
    refine ⟨fun i hi => ?_, fun i y hy hq => ?_, hl⟩
    · by_cases hie : i = e
      · rw [hie]
        exact hw
      · have hi : Function.update s.rerunAfterCurrent e true i = true := hi
        rw [Function.update_of_ne hie] at hi
        exact h.window i hi
    · by_cases hie : i = e
      · rw [hie] at hy
        cases hself.symm.trans hy
        exact h.marked e x hx (.inl hs)
      · have hq : y.scheduled = true ∨ Function.update s.rerunAfterCurrent e true i = true := hq
        rw [Function.update_of_ne hie] at hq
        exact h.marked i y ((hother i hie).symm.trans hy) hq
  · rename_i hw
    have hclean : Flagged { s with
        net := ({ s.net with pendingJobs := jobs }.unlatch e).modifyEffect e fun x =>
          { x with state := .clean } } := by
      refine ⟨h.window, fun i y hy hq => ?_, ?_⟩
      · by_cases hie : i = e
        · exfalso
          rw [hie] at hq hy
          rcases hq with hq | hq
          · have hy := (Function.update_self _ _ _).symm.trans hy
            rw [hself] at hy
            cases hy
            cases hq
          · exact hw (h.window e hq)
        · exact h.marked i y ((hother i hie).symm.trans
            ((Function.update_of_ne hie _ _).symm.trans hy)) hq
      · exact hl.rel (rel_modifyEffect _ e _ (fun _ _ hs => hs) fun _ => id) rfl
    split
    · exact hclean.serene (serene_attempt _ e)
    · exact hclean.serene (.of_push ⟨rfl, rfl⟩ rfl rfl)
    · exact hclean

theorem Flagged.finish (h : s.Flagged) {v : V} (ht : s.finish v = some t)
    (hu : t.unwinding = false) : t.Flagged := by
  unfold NetHost.finish at ht
  split at ht
  · rename_i hs
    obtain ⟨x, -, rfl⟩ := Option.map_eq_some_iff.mp ht
    exact h.serene (serene_conclude hs x v)
  · rename_i hs
    cases ht
    exact h.enterBody hs hu
  · rename_i hs
    cases ht
    exact h.settle hs
  · rename_i hs
    cases ht
    exact h.serene (.of_pop ⟨rfl, rfl⟩ hs rfl rfl)
  · rename_i hs
    cases ht
    exact h.serene (.of_pop ⟨rfl, rfl⟩ hs rfl rfl)
  · cases ht

/-- The frame at the top is replaced while it is no deferring one. -/
theorem Flagged.pop (h : s.Flagged) (hs : s.frames = f :: rest)
    (hf : ∀ e, f.isWindow e = false) : Flagged { s with frames := rest } :=
  h.rouse id (fun _ => rel_refl Net.Roused.refl _) (fun e _ hw => any_of_pop hs (hf e) hw)
    fun _ hr => hr

theorem Flagged.next (h : s.Flagged) (ht : s.next layout = some t) : t.Flagged := by
  unfold NetHost.next at ht
  split at ht
  · rename_i hs
    split at ht
    · cases ht
      exact h.serene (.of_pop ⟨rfl, rfl⟩ hs rfl rfl)
    · rename_i hj
      cases ht
      exact h.runScheduled hj
  · rename_i hs
    cases ht
    exact (h.pop hs fun _ => rfl).serene (.of_same ⟨rfl, rfl⟩ rfl rfl)
  · rename_i n d version entries rest hs
    have hp := h.pop hs fun _ => rfl
    split at ht
    · cases ht
      exact h.serene (.of_same ⟨rfl, rfl⟩ rfl rfl)
    · cases ht
      have ha : Flagged { s with frames := .awaiting n d version entries :: rest } :=
        hp.serene (.of_push ⟨rfl, rfl⟩ rfl rfl)
      exact ha.serene (serene_refresh _ d)
  · rename_i hs
    have hp := h.pop hs fun _ => rfl
    split at ht
    · cases ht
      exact hp.serene (serene_changed _ _)
    · cases ht
      exact hp.serene (.of_push ⟨rfl, rfl⟩ rfl rfl)
  · rename_i hs
    cases ht
    exact (h.pop hs fun _ => rfl).serene (serene_lend _ _ _)
  · cases ht

theorem Flagged.step (h : s.Flagged) (hw : s.Wired) {op : NetStep V} (hs : s.unwinding = false)
    (ht : s.step layout op = some t) (hu : t.unwinding = false) : t.Flagged := by
  cases op <;> simp only [NetHost.step] at ht <;> split at ht <;> try cases ht
  case signal => exact h.serene (.of_same ⟨rfl, rfl⟩ rfl rfl)
  case thunk => exact h.serene (.of_same ⟨rfl, rfl⟩ rfl rfl)
  case memo => exact h.serene (.of_same ⟨rfl, rfl⟩ rfl rfl)
  case effect p _ => exact h.newEffect hw p
  case read => exact h.serene (serene_read s _ _)
  case set => exact h.serene (serene_set hw _ _)
  case update => exact h.serene (serene_overwrite hw _ _)
  case untrack => exact h.serene (.of_push ⟨rfl, rfl⟩ rfl rfl)
  case flushNow =>
    unfold NetHost.flushNow
    split
    · exact h
    · exact h.serene (.of_push ⟨rfl, rfl⟩ rfl rfl)
  case finish => exact h.finish ht hu
  case next => exact h.next ht
  case panic => cases hu
  case catchUnwind hc =>
    rw [hs, Bool.false_and] at hc
    cases hc
  case unwind hc =>
    rw [hs] at hc
    cases hc

end Flags

section Heard

def Heard (s : NetHost V) : Prop :=
  ∀ o, ∀ e ∈ s.net.dependencies o, s.net.isStale e.1 = true → s.heeds o = true

theorem heeds_iff : s.heeds o = true ↔
    s.net.isClean o = false ∧
      ∀ y, s.net.effects o = some y → y.scheduled = true ∨ s.awaited o = true := by
  unfold heeds
  cases hy : s.net.effects o <;> simp

theorem Serene.heeds (h : s.Serene t) (hc : t.net.isClean o = true → s.net.isClean o = true)
    (ho : s.heeds o = true) : t.heeds o = true := by
  rw [heeds_iff] at ho ⊢
  refine ⟨Bool.eq_false_iff.mpr fun ht => ?_, fun y hy => ?_⟩
  · rw [hc ht] at ho
    cases ho.1
  · obtain ⟨x, hx, hxy⟩ := rel_right (hy ▸ h.effects o)
    exact (ho.2 x hx).imp hxy.scheduled h.awaited

theorem Heard.serene (h : s.Heard) (hs : s.Serene t)
    (hk : ∀ o, ∀ e ∈ t.net.dependencies o, t.net.isStale e.1 = true → t.heeds o = true ∨
      e ∈ s.net.dependencies o ∧ s.net.isStale e.1 = true ∧
        (t.net.isClean o = true → s.net.isClean o = true)) : t.Heard := by
  intro o e he hst
  rcases hk o e he hst with ht | ⟨hd, hn, hc⟩
  · exact ht
  · exact hs.heeds hc (h o e hd hn)

theorem Heard.same (h : s.Heard) (hs : s.Serene t)
    (hd : t.net.dependencies = s.net.dependencies) (hc : t.net.computed = s.net.computed) :
    t.Heard := by
  refine h.serene hs fun o e he hst => .inr ⟨hd ▸ he, ?_, fun ho => ?_⟩
  · unfold Net.isStale at hst ⊢
    rwa [hc] at hst
  · unfold Net.isClean at ho ⊢
    rwa [hc] at ho

theorem isStale_iff {net : Net V} : net.isStale n = true ↔ ∃ x, net.computed n = some x ∧
    x.state ≠ .clean := by
  unfold Net.isStale
  cases net.computed n <;> simp

theorem isStale_clean {net : Net V} {m : NodeId}
    (h : (net.setState n .clean).isStale m = true) : m ≠ n ∧ net.isStale m = true := by
  obtain ⟨x, hx, hs⟩ := isStale_iff.mp h
  rw [Net.computed_setState] at hx
  split at hx
  · obtain ⟨y, -, rfl⟩ := Option.map_eq_some_iff.mp hx
    exact absurd rfl hs
  · rename_i hm
    exact ⟨hm, isStale_iff.mpr ⟨x, hx, hs⟩⟩

theorem isClean_setState {net : Net V} {m : NodeId} {state : State} (hm : m ≠ n) :
    (net.setState n state).isClean m = net.isClean m := by
  unfold Net.isClean
  rw [Net.computed_setState, if_neg hm]

theorem isStale_congr {net t : Net V} (h : t.computed = net.computed) (m : NodeId) :
    t.isStale m = net.isStale m := by
  unfold Net.isStale
  rw [h]

theorem isClean_congr {net t : Net V} (h : t.computed = net.computed) (m : NodeId) :
    t.isClean m = net.isClean m := by
  unfold Net.isClean
  rw [h]

theorem Heard.recompute (h : s.Heard) (n : NodeId) (hu : (s.recompute n).unwinding = false) :
    (s.recompute n).Heard := by
  have hs := serene_recompute s n
  unfold NetHost.recompute at hs hu ⊢
  cases hx : s.net.computed n with
  | none => exact h
  | some x =>
    rw [hx] at hs hu
    dsimp only at hs hu ⊢
    split
    · rename_i hin
      rw [if_pos hin] at hu
      cases hu
    · rename_i hin
      rw [if_neg hin] at hs
      have ha := Net.alike_occupy (s.net.setState n .clean) n x
      refine h.serene hs fun o e he hst => .inr ?_
      have hc : (s.net.beginCompute n x).computed = (s.net.setState n .clean).computed :=
        ha.computed
      have hst : (s.net.beginCompute n x).isStale e.1 = true := hst
      rw [isStale_congr hc] at hst
      by_cases ho : o = n
      · have hnil : (s.net.beginCompute n x).dependencies n = [] := Function.update_self _ _ _
        have he : e ∈ (s.net.beginCompute n x).dependencies o := he
        rw [ho, hnil] at he
        cases he
      · have hd : (s.net.beginCompute n x).dependencies o = s.net.dependencies o :=
          (Function.update_of_ne ho _ _).trans (congrFun ha.dependencies o)
        have he : e ∈ (s.net.beginCompute n x).dependencies o := he
        refine ⟨hd ▸ he, (isStale_clean hst).2, fun hcl => ?_⟩
        have hcl : (s.net.beginCompute n x).isClean o = true := hcl
        rwa [isClean_congr hc, isClean_setState ho] at hcl

theorem Heard.push (h : s.Heard) (f : NetFrame) : (s.push f).Heard :=
  h.same (.of_push ⟨rfl, rfl⟩ rfl rfl) rfl rfl

theorem Heard.refresh (h : s.Heard) (n : NodeId) (hu : (s.refresh n).unwinding = false) :
    (s.refresh n).Heard := by
  unfold NetHost.refresh at hu ⊢
  cases hx : s.net.computed n with
  | none => exact h
  | some x =>
    rw [hx] at hu
    dsimp only at hu ⊢
    cases hstate : x.state with
    | clean => exact h
    | check => exact h.push _
    | dirty =>
      rw [hstate] at hu
      exact h.recompute n hu

theorem Heard.read (h : s.Heard) (n : NodeId) (tracked : Bool)
    (hu : (s.read n tracked).unwinding = false) : (s.read n tracked).Heard := by
  unfold NetHost.read at hu ⊢
  split
  · exact h.push _
  · rename_i x h1 h2
    rw [h1, h2] at hu
    dsimp only at hu
    split
    · rename_i hc
      rw [if_pos hc] at hu
      cases hu
    · rename_i hc
      rw [if_neg hc] at hu
      exact (h.push _).refresh n hu
  · exact h

theorem Heard.lend (h : s.Heard) {tracked : Bool}
    (hm : tracked = true → s.net.untracked = 0 → s.net.isStale n = true →
      ∀ o, s.net.stack.head? = some o → s.heeds o = true) : (s.lend layout n tracked).Heard := by
  have hs : s.Serene (s.lend layout n tracked) := serene_lend s n tracked
  have hkey : ∀ t : NetHost V, s.Serene t →
      t.net.dependencies = (if tracked = true then s.net.recordEdge layout n else s.net).dependencies →
      t.net.computed = s.net.computed → t.Heard := by
    intro t hs hd hc
    refine h.serene hs fun o e he hst => ?_
    rw [isStale_congr hc] at hst
    have hkeep : t.net.isClean o = true → s.net.isClean o = true := fun ht => by
      rwa [isClean_congr hc] at ht
    rw [hd] at he
    split at he
    · rename_i htr
      rcases Net.mem_recordEdge he with he | ⟨ho, hu, rfl⟩
      · exact .inr ⟨he, hst, hkeep⟩
      · exact .inl (hs.heeds hkeep (hm htr hu hst o ho))
    · exact .inr ⟨he, hst, hkeep⟩
  have hcomp : (if tracked = true then s.net.recordEdge layout n else s.net).computed =
      s.net.computed := by
    split
    · exact (Net.recordEdge_same s.net layout n).1
    · rfl
  unfold NetHost.lend at hs ⊢
  split at hs
  · rename_i hc
    rw [if_pos hc]
    exact h.same hs rfl rfl
  · rename_i hc
    rw [if_neg hc]
    dsimp only at hs ⊢
    cases hv : s.net.cached n with
    | none =>
      rw [hv] at hs
      exact hkey _ hs rfl hcomp
    | some v =>
      rw [hv] at hs
      exact hkey _ hs rfl hcomp

theorem Heard.write (h : s.Heard) (hw : s.Wired) (n : NodeId) (v : V) : (s.write n v).Heard := by
  have hs := serene_write hw n v
  have hwired := hw.net.alike (Net.alike_setValue s.net n v)
  obtain ⟨hseal, -⟩ := Net.seals_trigger (s.net.setValue n v) n hwired.known
  obtain ⟨halert, -⟩ := Net.alerts_trigger hwired n
  have hf := hseal.toMarked.frame
  have hdeps : (s.write n v).net.dependencies = s.net.dependencies := by
    change ((s.net.setValue n v).trigger n).dependencies = _
    rw [hf]
    rfl
  have hwatch : (s.write n v).net.dependents = s.net.dependents := by
    change ((s.net.setValue n v).trigger n).dependents = _
    rw [hf]
    rfl
  refine h.serene hs fun o e he hst => ?_
  rw [hdeps] at he
  cases hold : s.net.isStale e.1 with
  | true => exact .inr ⟨he, rfl, fun hc => hseal.toMarked.isClean hc⟩
  | false =>
    -- the write has turned this dependency stale, and told whoever depends on it
    left
    obtain ⟨z, hz, hzs⟩ := isStale_iff.mp hst
    obtain ⟨y, hy, -⟩ := rel_right (hz ▸ hseal.toMarked.computed e.1)
    have hclean : s.net.isClean e.1 = true :=
      Net.isClean_iff.mpr ⟨y, hy, Net.not_isStale hold hy⟩
    have hturned : ((s.net.setValue n v).trigger n).isClean e.1 = false := by
      refine Bool.eq_false_iff.mpr fun hc => ?_
      obtain ⟨w, hw', hwc⟩ := Net.isClean_iff.mp hc
      cases hz.symm.trans hw'
      exact hzs hwc
    have ho : o ∈ ((s.net.setValue n v).trigger n).dependents e.1 := by
      change o ∈ (s.write n v).net.dependents e.1
      rw [hwatch]
      exact (hw.net.inverse o e.1).mp ⟨e.2, he⟩
    refine heeds_iff.mpr ⟨Bool.eq_false_iff.mpr fun hc => ?_, fun y hy => .inl ?_⟩
    · obtain ⟨w, hw', hwc⟩ := Net.isClean_iff.mp hc
      exact hseal.turned e.1 hclean hturned o ho w hw' hwc
    · exact halert.alerted e.1 hclean hturned o ho y hy

theorem Heard.overwrite (h : s.Heard) (hw : s.Wired) (n : NodeId) (f : V → V) :
    (s.overwrite n f).Heard := by
  unfold NetHost.overwrite
  split
  · exact h
  · split
    · exact h
    · exact h.write hw n _

theorem Heard.set (h : s.Heard) (hw : s.Wired) (n : NodeId) (v : V) : (s.set n v).Heard := by
  unfold NetHost.set
  split
  · exact h
  · split
    · exact h
    · exact h.overwrite hw n _

theorem Heard.states (h : s.Heard) (hs : s.Serene t)
    (hd : t.net.dependencies = s.net.dependencies)
    (hc : ∀ m y, t.net.computed m = some y → ∃ x, s.net.computed m = some x ∧ x.state = y.state) :
    t.Heard := by
  refine h.serene hs fun o e he hst => .inr ⟨hd ▸ he, ?_, fun ho => ?_⟩
  · obtain ⟨y, hy, hn⟩ := isStale_iff.mp hst
    obtain ⟨x, hx, hxy⟩ := hc e.1 y hy
    exact isStale_iff.mpr ⟨x, hx, by rwa [hxy]⟩
  · obtain ⟨y, hy, hn⟩ := Net.isClean_iff.mp ho
    obtain ⟨x, hx, hxy⟩ := hc o y hy
    exact Net.isClean_iff.mpr ⟨x, hx, hxy.trans hn⟩

theorem Heard.conclude (h : s.Heard) {untracked : ℕ}
    (hs : s.frames = .computing n untracked :: rest) (x : NetComputed V) (v : V) :
    (s.conclude rest n x untracked v).Heard := by
  have hser := serene_conclude hs x v
  have ha := Net.alike_vacate (s.net.leave untracked) n x
  obtain ⟨h1, h2, -⟩ := Net.leave_eq s.net untracked
  have hc : (s.net.endCompute n x untracked).computed = s.net.computed := ha.computed.trans h1
  have hd : (s.net.endCompute n x untracked).dependencies = s.net.dependencies :=
    ha.dependencies.trans h2
  unfold NetHost.conclude at hser ⊢
  dsimp only at hser ⊢
  cases hdiff : x.differs v with
  | error w =>
    rw [hdiff] at hser
    exact h.same hser hd hc
  | ok changed =>
    rw [hdiff] at hser
    dsimp only at hser ⊢
    split at hser
    · rename_i hb
      rw [if_pos hb]
      exact h.same hser hd hc
    · rename_i hb
      rw [if_neg hb]
      refine h.states hser ?_ fun m y hy => ?_
      · refine Eq.trans ?_ hd
        change ((s.net.endCompute n x untracked).accept n v changed).dependencies = _
        unfold Net.accept
        split <;> rfl
      · have hy : ((s.net.endCompute n x untracked).accept n v changed).computed m = some y := hy
        have hstore : ((s.net.endCompute n x untracked).accept n v changed).computed =
            ((s.net.endCompute n x untracked).store n v).computed := by
          unfold Net.accept
          split <;> rfl
        rw [hstore] at hy
        obtain ⟨z, hz, hzy⟩ := Net.state_store hy
        exact ⟨z, hc ▸ hz, hzy⟩

theorem Heard.keep (h : s.Heard) (hc : t.net.computed = s.net.computed)
    (hk : ∀ o, ∀ e ∈ t.net.dependencies o, e ∈ s.net.dependencies o ∧
      ∀ y, t.net.effects o = some y →
        (∀ x, s.net.effects o = some x → x.scheduled = true ∨ s.awaited o = true) →
        y.scheduled = true ∨ t.awaited o = true) : t.Heard := by
  intro o e he hst
  obtain ⟨hd, ho⟩ := hk o e he
  rw [isStale_congr hc] at hst
  obtain ⟨h1, h2⟩ := heeds_iff.mp (h o e hd hst)
  refine heeds_iff.mpr ⟨?_, fun y hy => ho y hy h2⟩
  rw [isClean_congr hc]
  exact h1

theorem awaited_iff : s.awaited e = true ↔ (∃ f ∈ s.frames, f.isUnderway e = true) ∨
    s.rerunAfterCurrent e = true ∧ ∃ f ∈ s.frames, f.isRunning e = true := by
  unfold NetHost.awaited
  rw [Bool.or_eq_true, Bool.and_eq_true, List.any_eq_true, List.any_eq_true]

theorem awaited_of_others {frames : List NetFrame}
    (hf : ∀ f ∈ s.frames, f.isUnderway o = true ∨ f.isRunning o = true → f ∈ frames)
    (ht : ∀ f ∈ frames, f ∈ t.frames) (hr : s.rerunAfterCurrent o = true → t.rerunAfterCurrent o = true)
    (ha : s.awaited o = true) : t.awaited o = true := by
  rcases awaited_iff.mp ha with ⟨f, hm, hp⟩ | ⟨hr', f, hm, hp⟩
  · exact awaited_iff.mpr (.inl ⟨f, ht f (hf f hm (.inl hp)), hp⟩)
  · exact awaited_iff.mpr (.inr ⟨hr hr', f, ht f (hf f hm (.inr hp)), hp⟩)

theorem others_of_pop (hs : s.frames = f :: rest) (hu : f.isUnderway o = false)
    (hr : f.isRunning o = false) :
    ∀ g ∈ s.frames, g.isUnderway o = true ∨ g.isRunning o = true → g ∈ rest := by
  intro g hg hp
  rw [hs] at hg
  rcases List.mem_cons.mp hg with rfl | hg
  · rcases hp with hp | hp
    · rw [hu] at hp; cases hp
    · rw [hr] at hp; cases hp
  · exact hg

theorem Heard.resets {net : Net V} {frames : List NetFrame} (h : s.Heard)
    (hc : net.computed = s.net.computed) (hd : net.dependencies = s.net.dependencies)
    (ho : ∀ o, o ≠ e → net.effects o = s.net.effects o)
    (hf : ∀ o, o ≠ e → ∀ f ∈ s.frames, f.isUnderway o = true ∨ f.isRunning o = true →
      f ∈ frames)
    (hu : (NetHost.attempt { s with net, frames } e).unwinding = false) :
    (NetHost.attempt { s with net, frames } e).Heard := by
  unfold NetHost.attempt at hu ⊢
  dsimp only at hu ⊢
  split
  · rename_i hlimit
    rw [if_pos hlimit] at hu
    cases hu
  · refine h.keep hc fun o d hod => ⟨hd ▸ hod, fun y hy hold => ?_⟩
    by_cases hoe : o = e
    · exact .inr (awaited_iff.mpr (.inl ⟨.resetting e, List.mem_cons_self,
        decide_eq_true hoe.symm⟩))
    · have hy := (Function.update_of_ne hoe _ _).symm.trans hy
      rw [ho o hoe] at hy
      exact (hold y hy).imp_right (awaited_of_others (hf o hoe)
        (fun _ => List.mem_cons_of_mem _) id)

theorem Heard.runScheduled (h : s.Heard) (hf : s.Flagged) {jobs : List NodeId}
    (hj : s.net.pendingJobs = e :: jobs)
    (hu : (runScheduled { s with net := { s.net with pendingJobs := jobs } } e).unwinding =
      false) : (runScheduled { s with net := { s.net with pendingJobs := jobs } } e).Heard := by
  obtain ⟨x, hx, hs⟩ := hf.lane.queued e (by rw [hj]; exact List.mem_cons_self)
  have hstate := hf.marked e x hx (.inl hs)
  have hother : ∀ o, o ≠ e → ({ s.net with pendingJobs := jobs }.unlatch e).effects o =
      s.net.effects o := fun o ho => Function.update_of_ne ho _ _
  unfold NetHost.runScheduled at hu ⊢
  dsimp only at hu ⊢
  rw [hx] at hu ⊢
  dsimp only at hu ⊢
  split
  · rename_i hw
    refine h.keep rfl fun o d hod => ⟨hod, fun y hy hold => ?_⟩
    by_cases hoe : o = e
    · right
      rw [hoe]
      obtain ⟨f, hm, hp⟩ := List.any_eq_true.mp hw
      cases f with
      | resetting i => exact awaited_iff.mpr (.inl ⟨_, hm, hp⟩)
      | running i untracked =>
        exact awaited_iff.mpr (.inr ⟨Function.update_self _ _ _, _, hm, hp⟩)
      | _ => cases hp
    · rw [hother o hoe] at hy
      exact (hold y hy).imp_right (awaited_of_others (s := s) (fun _ hf _ => hf) (fun _ => id)
        fun hr => (Function.update_of_ne hoe _ _).trans hr)
  · rename_i hw
    rw [if_neg hw] at hu
    have hclean : ∀ o, o ≠ e → (({ s.net with pendingJobs := jobs }.unlatch e).modifyEffect e fun x =>
        { x with state := .clean }).effects o = s.net.effects o := fun o ho =>
      (Function.update_of_ne ho _ _).trans (hother o ho)
    cases hxs : x.state with
    | clean => exact absurd hxs hstate
    | dirty =>
      rw [hxs] at hu
      exact h.resets rfl rfl hclean (fun _ _ _ hf _ => hf) hu
    | check =>
      refine h.keep rfl fun o d hod => ⟨hod, fun y hy hold => ?_⟩
      by_cases hoe : o = e
      · exact .inr (awaited_iff.mpr (.inl ⟨.verifying e _, List.mem_cons_self,
          decide_eq_true hoe.symm⟩))
      · exact (hold y ((hclean o hoe).symm.trans hy)).imp_right
          (awaited_of_others (fun _ hf _ => hf) (fun _ => List.mem_cons_of_mem _) id)

theorem Heard.enterBody (h : s.Heard) (hs : s.frames = .resetting e :: rest)
    (hu : (s.enterBody rest e).unwinding = false) : (s.enterBody rest e).Heard := by
  unfold NetHost.enterBody at hu ⊢
  dsimp only at hu ⊢
  split
  · rename_i hin
    rw [if_pos hin] at hu
    cases hu
  · refine h.keep rfl fun o d hod => ?_
    have hnil : (s.net.enter e).dependencies e = [] := Function.update_self _ _ _
    have hod : d ∈ (s.net.enter e).dependencies o := hod
    have hoe : o ≠ e := by
      rintro rfl
      rw [hnil] at hod
      cases hod
    have hsame : (s.net.enter e).dependencies o = s.net.dependencies o :=
      Function.update_of_ne hoe _ _
    refine ⟨hsame ▸ hod, fun y hy hold => (hold y hy).imp_right ?_⟩
    exact awaited_of_others (others_of_pop hs (decide_eq_false fun h => hoe h.symm) rfl)
      (fun _ => List.mem_cons_of_mem _) id

theorem effects_scheduleEffect {net : Net V} (ho : o ≠ e) :
    (net.scheduleEffect e).effects o = net.effects o := by
  unfold Net.scheduleEffect
  split
  · rfl
  · split
    · rfl
    · exact Function.update_of_ne ho _ _

theorem scheduled_scheduleEffect {net : Net V} {y : NetEffect V}
    (hy : (net.scheduleEffect e).effects e = some y) : y.scheduled = true := by
  unfold Net.scheduleEffect at hy
  split at hy
  · rename_i hx
    cases hx.symm.trans hy
  · rename_i x hx
    split at hy
    · rename_i hs
      cases hx.symm.trans hy
      exact hs
    · have hy := (Function.update_self _ _ _).symm.trans hy
      rw [hx] at hy
      cases hy
      rfl

theorem Heard.settle (h : s.Heard) {untracked : ℕ}
    (hs : s.frames = .running e untracked :: rest) : (s.settle rest e untracked).Heard := by
  obtain ⟨h1, h2, -, -, h5, -⟩ := Net.leave_eq s.net untracked
  have ha := Net.alike_scheduleEffect (s.net.leave untracked) e
  have hcomp : (s.settle rest e untracked).net.computed = s.net.computed := by
    unfold NetHost.settle
    dsimp only
    split
    · exact ha.computed.trans h1
    · exact h1
  have hdeps : (s.settle rest e untracked).net.dependencies = s.net.dependencies := by
    unfold NetHost.settle
    dsimp only
    split
    · exact ha.dependencies.trans h2
    · exact h2
  refine h.keep hcomp fun o d hod => ⟨hdeps ▸ hod, fun y hy hold => ?_⟩
  have hy : (if s.rerunAfterCurrent e = true then (s.net.leave untracked).scheduleEffect e
    else s.net.leave untracked).effects o = some y := hy
  by_cases hoe : o = e
  · subst hoe
    split at hy
    · exact .inl (scheduled_scheduleEffect hy)
    · rename_i hr
      rw [h5] at hy
      refine (hold y hy).imp_right fun ha => ?_
      rcases awaited_iff.mp ha with ⟨f, hf, hp⟩ | ⟨hr', -⟩
      · rw [hs] at hf
        rcases List.mem_cons.mp hf with rfl | hf
        · cases hp
        · exact awaited_iff.mpr (.inl ⟨f, hf, hp⟩)
      · exact absurd hr' hr
  · have hy : s.net.effects o = some y := by
      split at hy
      · rwa [effects_scheduleEffect hoe, h5] at hy
      · rwa [h5] at hy
    exact (hold y hy).imp_right (awaited_of_others
      (others_of_pop hs rfl (decide_eq_false fun h => hoe h.symm)) (fun _ => id)
      fun hr => (Function.update_of_ne hoe _ _).trans hr)

theorem Heard.pop (h : s.Heard) (hs : s.frames = f :: rest) (hf : f.isPlain = true) :
    Heard { s with frames := rest } :=
  h.same (.of_pop ⟨rfl, rfl⟩ hs hf rfl) rfl rfl

theorem Heard.finish (h : s.Heard) {v : V} (ht : s.finish v = some t)
    (hu : t.unwinding = false) : t.Heard := by
  unfold NetHost.finish at ht
  split at ht
  · rename_i hs
    obtain ⟨x, -, rfl⟩ := Option.map_eq_some_iff.mp ht
    exact h.conclude hs x v
  · rename_i hs
    cases ht
    exact h.enterBody hs hu
  · rename_i hs
    cases ht
    exact h.settle hs
  · rename_i hs
    cases ht
    exact h.same (.of_pop ⟨rfl, rfl⟩ hs rfl rfl) rfl rfl
  · rename_i hs
    cases ht
    exact h.same (.of_pop ⟨rfl, rfl⟩ hs rfl rfl) rfl rfl
  · cases ht

theorem Heard.swap (h : s.Heard) {g : NetFrame} (hs : s.frames = f :: rest)
    (hf : ∀ o, f.isRunning o = false) (hg : ∀ o, f.isUnderway o = true → g.isUnderway o = true) :
    Heard { s with frames := g :: rest } := by
  refine h.keep rfl fun o d hod => ⟨hod, fun y hy hold => (hold y hy).imp_right fun ha => ?_⟩
  rcases awaited_iff.mp ha with ⟨i, hi, hp⟩ | ⟨hr, i, hi, hp⟩ <;> rw [hs] at hi <;>
    rcases List.mem_cons.mp hi with rfl | hi
  · exact awaited_iff.mpr (.inl ⟨g, List.mem_cons_self, hg o hp⟩)
  · exact awaited_iff.mpr (.inl ⟨i, List.mem_cons_of_mem _ hi, hp⟩)
  · rw [hf o] at hp
    cases hp
  · exact awaited_iff.mpr (.inr ⟨hr, i, List.mem_cons_of_mem _ hi, hp⟩)

theorem Heard.verified (h : s.Heard) (hs : s.frames = .verifying n [] :: rest)
    (hm : s.hides .next = false) :
    Heard { s with net := s.net.setState n .clean, frames := rest } := by
  unfold NetHost.hides at hm
  simp only [hs] at hm
  have hothers : ∀ o, o ≠ n → s.awaited o = true → awaited { s with frames := rest } o = true :=
    fun o ho => awaited_of_others (others_of_pop hs (decide_eq_false fun h => ho h.symm) rfl)
      (fun _ => id) id
  intro o d hod hst
  obtain ⟨hdn, hold⟩ := isStale_clean hst
  obtain ⟨h1, h2⟩ := heeds_iff.mp (h o d hod hold)
  by_cases hon : o = n
  · subst hon
    have hod : d ∈ s.net.dependencies o := hod
    rw [List.any_eq_true.mpr ⟨d, hod, hold⟩, Bool.and_true, Bool.or_eq_false_iff] at hm
    obtain ⟨hnone, hheeds⟩ := hm
    have hnone := Option.isNone_iff_eq_none.mp (Option.isSome_eq_false_iff.mp hnone)
    have hclean : (s.net.setState o .clean).computed o = none := by
      rw [Net.computed_setState, if_pos rfl, hnone]
      rfl
    have hrest : heeds { s with frames := rest } o = true := by
      rwa [Bool.not_eq_false'] at hheeds
    refine heeds_iff.mpr ⟨?_, (heeds_iff.mp hrest).2⟩
    change (s.net.setState o .clean).isClean o = false
    unfold Net.isClean
    rw [hclean]
    rfl
  · refine heeds_iff.mpr ⟨?_, fun y hy => (h2 y hy).imp_right (hothers o hon)⟩
    exact (isClean_setState hon).trans h1

theorem Heard.redone (h : s.Heard) (hw : s.Wired) {d : NodeId} {version : ℕ} {entries : EdgeTable}
    (hs : s.frames = .awaiting n d version entries :: rest)
    (hu : (NetHost.changed { s with frames := rest } n).unwinding = false) :
    (NetHost.changed { s with frames := rest } n).Heard := by
  have hothers : ∀ o, o ≠ n → ∀ f ∈ s.frames, f.isUnderway o = true ∨ f.isRunning o = true →
      f ∈ rest := fun o ho => others_of_pop hs (decide_eq_false fun h => ho h.symm) rfl
  unfold NetHost.changed at hu ⊢
  dsimp only at hu ⊢
  cases hx : s.net.computed n with
  | none =>
    rw [hx] at hu
    exact h.resets rfl rfl (fun _ _ => rfl) hothers hu
  | some x =>
    rw [hx] at hu
    have hp : Heard { s with frames := rest } := by
      refine h.keep rfl fun o d hod => ⟨hod, fun y hy hold => (hold y hy).imp_right ?_⟩
      have hon : o ≠ n := by
        rintro rfl
        rw [(hw.net.effect o y hy).2] at hx
        cases hx
      exact awaited_of_others (hothers o hon) (fun _ => id) id
    exact hp.recompute n hu

theorem Heard.next (h : s.Heard) (hw : s.Wired) (hf : s.Flagged) (hm : s.hides .next = false)
    (ht : s.next layout = some t) (hu : t.unwinding = false) : t.Heard := by
  unfold NetHost.next at ht
  split at ht
  · rename_i hs
    split at ht
    · cases ht
      exact h.same (.of_pop ⟨rfl, rfl⟩ hs rfl rfl) rfl rfl
    · rename_i hj
      cases ht
      exact h.runScheduled hf hj hu
  · rename_i hs
    cases ht
    exact h.verified hs hm
  · rename_i n d version entries rest hs
    split at ht
    · cases ht
      cases hu
    · cases ht
      exact (h.swap (g := .awaiting n d version entries) hs (fun _ => rfl) fun _ ho => ho).refresh d hu
  · rename_i n d version entries rest hs
    split at ht
    · cases ht
      exact h.redone hw hs hu
    · cases ht
      exact h.swap hs (fun _ => rfl) fun _ ho => ho
  · rename_i n tracked rest hs
    cases ht
    refine (h.pop hs rfl).lend fun htr hun hst o ho => ?_
    subst htr
    unfold NetHost.hides at hm
    simp only [hs] at hm
    dsimp only at hun hst ho
    rw [decide_eq_true hun, hst, ho, Option.any_some, Bool.true_and, Bool.true_and,
      Bool.not_eq_false'] at hm
    exact (Serene.of_pop (s := s) (t := { s with frames := rest }) ⟨rfl, rfl⟩ hs rfl rfl).heeds id hm
  · cases ht

theorem Heard.grown (h : s.Heard) (hw : s.Wired) (hs : s.Serene t)
    (hd : t.net.dependencies = s.net.dependencies)
    (hc : ∀ m, m < s.net.nextNode → t.net.computed m = s.net.computed m) : t.Heard := by
  refine h.serene hs fun o e he hst => .inr ⟨hd ▸ he, ?_, fun ho => ?_⟩ <;>
    obtain ⟨hbelow, hdep⟩ := hw.net.below o e (hd ▸ he)
  · unfold Net.isStale at hst ⊢
    rwa [hc e.1 hdep] at hst
  · unfold Net.isClean at ho ⊢
    rwa [hc o hbelow] at ho

theorem Heard.newEffect (h : s.Heard) (hw : s.Wired) (body : Script V) :
    Heard { s with net := s.net.newEffect body } := by
  have hs := Net.alike_scheduleEffect ({ s.net with
    nextNode := s.net.nextNode + 1
    effects := Function.update s.net.effects s.net.nextNode (some { body }) } : Net V)
    s.net.nextNode
  refine h.keep hs.computed fun o d hod => ?_
  have hod : d ∈ (s.net.newEffect body).dependencies o := hod
  have hd : (s.net.newEffect body).dependencies = s.net.dependencies := hs.dependencies
  rw [hd] at hod
  have ho : o ≠ s.net.nextNode := Nat.ne_of_lt (hw.net.below o d hod).1
  refine ⟨hod, fun y hy hold => hold y ?_⟩
  have hy : (s.net.newEffect body).effects o = some y := hy
  unfold Net.newEffect at hy
  rw [effects_scheduleEffect ho] at hy
  exact (Function.update_of_ne ho _ _).symm.trans hy

theorem Heard.step (h : s.Heard) (hw : s.Wired) (hf : s.Flagged) {op : NetStep V}
    (hs : s.unwinding = false) (hm : s.hides op = false) (ht : s.step layout op = some t)
    (hu : t.unwinding = false) : t.Heard := by
  cases op <;> simp only [NetHost.step] at ht <;> split at ht <;> try cases ht
  case signal => exact h.same (.of_same ⟨rfl, rfl⟩ rfl rfl) rfl rfl
  case thunk =>
    exact h.grown hw (.of_same ⟨rfl, rfl⟩ rfl rfl) rfl fun _ hn =>
      Function.update_of_ne (Nat.ne_of_lt hn) _ _
  case memo =>
    exact h.grown hw (.of_same ⟨rfl, rfl⟩ rfl rfl) rfl fun _ hn =>
      Function.update_of_ne (Nat.ne_of_lt hn) _ _
  case effect p _ => exact h.newEffect hw p
  case read => exact h.read _ _ hu
  case set => exact h.set hw _ _
  case update => exact h.overwrite hw _ _
  case untrack => exact h.same (.of_push ⟨rfl, rfl⟩ rfl rfl) rfl rfl
  case flushNow =>
    unfold NetHost.flushNow
    split
    · exact h
    · exact h.same (.of_push ⟨rfl, rfl⟩ rfl rfl) rfl rfl
  case finish => exact h.finish ht hu
  case next => exact h.next hw hf hm ht hu
  case panic => cases hu
  case catchUnwind hc =>
    rw [hs, Bool.false_and] at hc
    cases hc
  case unwind hc =>
    rw [hs] at hc
    cases hc

end Heard

def calmly (layout : Layout) (s : NetHost V) (op : NetStep V) : Bool :=
  (s.step layout op).all fun t => !t.unwinding

/-- The states that a run without panics reaches in which no stale node is hidden. -/
def ReachedOpen (layout : Layout) (s : NetHost V) : Prop :=
  Runs.Reaches (NetHost.step layout) (fun s op => (s.calmly layout op && !s.hides op) = true) {} s

theorem ReachedOpen.heard (h : s.ReachedOpen layout) :
    s.Wired ∧ s.Flagged ∧ s.Heard ∧ s.unwinding = false := by
  refine h.invariant (fun s => s.Wired ∧ s.Flagged ∧ s.Heard ∧ s.unwinding = false) ?_ ?_
  · have hflag : ({} : NetHost V).Flagged :=
      { window := fun _ he => by cases he
        marked := fun _ _ hy => by cases hy
        lane := ⟨List.nodup_nil, fun _ he => by cases he⟩ }
    exact ⟨wired_empty, hflag, fun _ _ he => (List.not_mem_nil he).elim, rfl⟩
  · rintro s op t ⟨hw, hf, hh, hs⟩ ok ht
    rw [Bool.and_eq_true, Bool.not_eq_true'] at ok
    obtain ⟨hcalm, hm⟩ := ok
    have hu : t.unwinding = false := by
      unfold calmly at hcalm
      rw [ht] at hcalm
      simpa using hcalm
    exact ⟨hw.step op ht, hf.step hw hs ht hu, hh.step hw hf hs hm ht hu, hu⟩

/-- In every state without a computation on the stack that a run without panics reaches, as
long as nothing stale is recorded or passed by a verification for an observer that is up to
date: who is recorded on a stale node is stale, or has a run queued or under way. -/
theorem observer_of_stale_node_is_told (s : NetHost V) (n o : NodeId) (h : s.ReachedOpen layout)
    (quiet : s.net.stack = []) (hn : s.net.isStale n = true) (ho : o ∈ s.net.dependents n) :
    (∀ x, s.net.computed o = some x → x.state = .check ∨ x.state = .dirty) ∧
      ∀ y, s.net.effects o = some y → y.scheduled = true ∨ ∃ f ∈ s.frames, f.isUnderway o = true := by
  obtain ⟨hw, -, hh, -⟩ := h.heard
  obtain ⟨v, hv⟩ := (hw.net.inverse o n).mpr ho
  obtain ⟨h1, h2⟩ := heeds_iff.mp (hh o (n, v) hv hn)
  refine ⟨fun x hx => ?_, fun y hy => (h2 y hy).imp_right fun ha => ?_⟩
  · cases hs : x.state with
    | check => exact .inl rfl
    | dirty => exact .inr rfl
    | clean => exact absurd (Net.isClean_iff.mpr ⟨x, hx, hs⟩) (by rw [h1]; exact Bool.false_ne_true)
  · rcases awaited_iff.mp ha with hf | ⟨-, f, hf, hp⟩
    · exact hf
    · -- a body that is running is on the stack
      exfalso
      have hmem : o ∈ s.frames.filterMap NetFrame.context := by
        refine List.mem_filterMap.mpr ⟨f, hf, ?_⟩
        cases f with
        | running i untracked => exact congrArg some (of_decide_eq_true hp)
        | _ => cases hp
      rw [← hw.stack, quiet] at hmem
      cases hmem

def watching : List (NetStep ℕ) :=
  [.signal 0 (· == ·), .thunk (.get 1 fun v => .ret v), .effect (.get 2 fun v => .ret v),
    .flushNow, .next, .finish 0, .read 2 true, .read 1 true, .next, .finish 0, .finish 0, .next,
    .finish 0, .finish 0, .next, .set 1 5]

theorem watching_effect_is_told : ∃ s : NetHost ℕ, s.net.isStale 2 = true ∧
    3 ∈ s.net.dependents 2 ∧ s.frames = [] ∧
    ∃ y, s.net.effects 3 = some y ∧ y.scheduled = true := by
  let s := Runs.after (NetHost.step .insertion) {} watching
  have hs : ReachedOpen .insertion s :=
    Runs.Reaches.after (fun s op => calmly .insertion s op && !hides s op) _ .init
      (by decide +kernel) (by decide +kernel)
  have hn : s.net.isStale 2 = true := by decide +kernel
  have ho : 3 ∈ s.net.dependents 2 := by decide +kernel
  have hframes : s.frames = [] := by decide +kernel
  have hsome : (s.net.effects 3).isSome = true := by decide +kernel
  obtain ⟨y, hy⟩ := Option.isSome_iff_exists.mp hsome
  refine ⟨s, hn, ho, hframes, y, hy, ?_⟩
  rcases (observer_of_stale_node_is_told s 2 3 hs (by decide +kernel) hn ho).2 y hy with h | h
  · exact h
  · obtain ⟨f, hf, -⟩ := h
    rw [hframes] at hf
    cases hf

/-- The thunk overwrites the signal that it has read, and the effect records it stale. -/
def watchingSpoiled : List (NetStep ℕ) :=
  [.signal 0 (· == ·), .thunk (.get 1 fun v => if v = 0 then .set 1 1 (.ret v) else .ret v),
    .effect (.get 2 fun v => .ret v), .flushNow, .next, .finish 0, .read 2 true, .read 1 true,
    .next, .finish 0, .set 1 1, .finish 0, .next, .finish 0, .finish 0, .next]

/-- The effect has no run pending though the thunk that it has read is stale, and a later
write to the signal does not reach it. -/
theorem stale_thunk_hides_writes : ∃ s t : NetHost ℕ,
    Runs.Reaches (NetHost.step .insertion) (fun s op => calmly .insertion s op = true) {} s ∧
    s.frames = [] ∧ s.net.isStale 2 = true ∧ 3 ∈ s.net.dependents 2 ∧
    (s.net.effects 3).map NetEffect.scheduled = some false ∧
    s.step .insertion (.set 1 7) = some t ∧
    (t.net.effects 3).map NetEffect.scheduled = some false := by
  let s := Runs.after (NetHost.step .insertion) {} watchingSpoiled
  have hs : Runs.Reaches (NetHost.step .insertion)
      (fun s op => calmly .insertion s op = true) {} s :=
    Runs.Reaches.after (calmly .insertion) _ .init (by decide +kernel) (by decide +kernel)
  exact ⟨s, _, hs, by decide +kernel, by decide +kernel, by decide +kernel, by decide +kernel,
    Runs.step_after (by decide +kernel), by decide +kernel⟩

end NetHost

end Adaptite

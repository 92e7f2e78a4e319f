import Adaptite.NetWiring

set_option autoImplicit false

namespace Adaptite

namespace NetFrame

variable {V : Type} {net t : Net V} {f : NetFrame}

def context : NetFrame → Option NodeId
  | computing n _ | running n _ => some n
  | _ => none

def Fits (net : Net V) : NetFrame → Prop
  | reading n _ | verifying n _ | awaiting n _ _ _ => n < net.nextNode
  | computing n _ => (net.computed n).isSome = true
  | resetting e | running e _ => e < net.nextNode ∧ net.computed e = none
  | _ => True

/-- No node goes away, and none changes its kind. -/
structure Keeps (net t : Net V) : Prop where
  nextNode : net.nextNode ≤ t.nextNode
  computed : ∀ n, n < net.nextNode → (t.computed n).isSome = (net.computed n).isSome

theorem Keeps.refl (net : Net V) : Keeps net net := ⟨le_refl _, fun _ _ => rfl⟩

theorem Keeps.trans {u : Net V} (h : Keeps net t) (h' : Keeps t u) : Keeps net u :=
  ⟨h.nextNode.trans h'.nextNode, fun n hn =>
    (h'.computed n (hn.trans_le h.nextNode)).trans (h.computed n hn)⟩

theorem Keeps.none (h : Keeps net t) {n : NodeId} (hn : n < net.nextNode)
    (hc : net.computed n = none) : t.computed n = none := by
  have := h.computed n hn
  rw [hc] at this
  exact Option.isSome_eq_false_iff.mp this |> Option.isNone_iff_eq_none.mp

theorem Fits.keep (hf : f.Fits net) (hw : net.Wired) (h : Keeps net t) : f.Fits t := by
  cases f with
  | computing n untracked =>
    have hn : n < net.nextNode := by
      obtain ⟨x, hx⟩ := Option.isSome_iff_exists.mp hf
      exact hw.known n x hx
    exact (h.computed n hn).trans hf
  | reading n tracked => exact lt_of_lt_of_le hf h.nextNode
  | verifying n rest => exact lt_of_lt_of_le hf h.nextNode
  | awaiting n d version rest => exact lt_of_lt_of_le hf h.nextNode
  | resetting e => exact ⟨hf.1.trans_le h.nextNode, h.none hf.1 hf.2⟩
  | running e untracked => exact ⟨hf.1.trans_le h.nextNode, h.none hf.1 hf.2⟩
  | holding n => trivial
  | untracking => trivial
  | flushing => trivial

end NetFrame

namespace Net

variable {V : Type} {net t : Net V} {n : NodeId}

open NetFrame (Keeps)

theorem Alike.keeps (h : net.Alike t) : Keeps net t :=
  ⟨h.nextNode.ge, fun n _ => by rw [h.computed]⟩

theorem keeps_modifyComputed (net : Net V) (n : NodeId) (f : NetComputed V → NetComputed V) :
    Keeps net (net.modifyComputed n f) :=
  ⟨le_refl _, fun m _ => isSome_update net.computed n m f⟩

theorem keeps_setState (net : Net V) (n : NodeId) (state : State) :
    Keeps net (net.setState n state) := keeps_modifyComputed net n _

theorem keeps_accept (net : Net V) (n : NodeId) (v : V) (changed : Bool) :
    Keeps net (net.accept n v changed) := by
  have hs : Keeps net (net.store n v) := keeps_modifyComputed net n _
  unfold accept
  split
  · exact hs.trans ⟨le_refl _, fun _ _ => rfl⟩
  · exact hs

theorem keeps_enter (net : Net V) (n : NodeId) : Keeps net (net.enter n) :=
  ⟨le_refl _, fun _ _ => rfl⟩

theorem keeps_leave (net : Net V) (untracked : ℕ) : Keeps net (net.leave untracked) := by
  obtain ⟨h1, -, -, -, -, h6, -⟩ := leave_eq net untracked
  exact ⟨h6.ge, fun n _ => by rw [h1]⟩

theorem keeps_recordEdge (net : Net V) (layout : Layout) (m : NodeId) :
    Keeps net (net.recordEdge layout m) := by
  obtain ⟨h1, -, -, -, -, h6⟩ := recordEdge_same net layout m
  exact ⟨h6.ge, fun n _ => by rw [h1]⟩

theorem keeps_trigger (h : net.Wired) (n : NodeId) : Keeps net (net.trigger n) := by
  obtain ⟨ha, -⟩ := alerts_trigger h n
  refine ⟨ha.toMarked.nextNode.ge, fun m _ => ?_⟩
  have := ha.toMarked.computed m
  revert this
  change Option.Rel MoreStale (net.computed m) ((net.trigger n).computed m) → _
  generalize net.computed m = a
  generalize (net.trigger n).computed m = b
  rintro (_ | _) <;> rfl

theorem keeps_newComputed (net : Net V) (compute : Option V → Script V)
    (equals : Option (Equals V)) : Keeps net (net.newComputed compute equals) :=
  ⟨Nat.le_succ _, fun _ hn => congrArg _ (Function.update_of_ne (Nat.ne_of_lt hn) _ _)⟩

theorem keeps_newEffect (net : Net V) (body : Script V) : Keeps net (net.newEffect body) := by
  have hadd : Keeps net { net with
      nextNode := net.nextNode + 1
      effects := Function.update net.effects net.nextNode (some { body }) } :=
    ⟨Nat.le_succ _, fun _ _ => rfl⟩
  exact hadd.trans (alike_scheduleEffect _ _).keeps

end Net

namespace NetHost

variable {V : Type} {layout : Layout} {s t : NetHost V} {n e : NodeId} {rest : List NetFrame}
  {net : Net V} {f g : NetFrame}

open NetFrame (Keeps context)

structure Wired (s : NetHost V) : Prop where
  net : s.net.Wired
  stack : s.net.stack = s.frames.filterMap context
  fits : ∀ f ∈ s.frames, f.Fits s.net

theorem Wired.keep (h : s.Wired) (hn : t.net.Wired) (hk : Keeps s.net t.net)
    (hs : t.net.stack = s.net.stack) (hf : t.frames = s.frames) : t.Wired :=
  ⟨hn, by rw [hs, hf, h.stack], fun f hm => (h.fits f (hf ▸ hm)).keep h.net hk⟩

theorem Wired.alike (h : s.Wired) (ha : s.net.Alike t.net) (hf : t.frames = s.frames) : t.Wired :=
  h.keep (h.net.alike ha) ha.keeps ha.stack hf

theorem Wired.frame (h : s.Wired) (hn : t.net = s.net) (hs : t.frames = f :: s.frames)
    (hc : f.context = none) (hf : f.Fits s.net) : t.Wired := by
  refine ⟨hn ▸ h.net, ?_, fun g hg => ?_⟩
  · rw [hn, hs, List.filterMap_cons_none hc, h.stack]
  · rw [hs] at hg
    rw [hn]
    rcases List.mem_cons.mp hg with rfl | hg
    · exact hf
    · exact h.fits g hg

theorem Wired.pop (h : s.Wired) (hs : s.frames = f :: rest) (hc : f.context = none) :
    Wired { s with frames := rest } := by
  refine ⟨h.net, ?_, fun g hg => h.fits g (by rw [hs]; exact List.mem_cons_of_mem _ hg)⟩
  rw [h.stack, hs, List.filterMap_cons_none hc]

theorem Wired.swap (h : s.Wired) (hs : s.frames = f :: rest) (hc : f.context = none)
    (hg : g.context = none) (fits : g.Fits s.net) : Wired { s with frames := g :: rest } :=
  (h.pop hs hc).frame rfl rfl hg fits

theorem Wired.begin (h : s.Wired) (hn : net.Wired) (hk : Keeps s.net net)
    (hs : net.stack = n :: s.net.stack) (hc : f.context = some n) (hf : f.Fits net) :
    (s.begin n net f).Wired := by
  refine ⟨hn, ?_, fun g hg => ?_⟩
  · change net.stack = (f :: s.frames).filterMap context
    rw [hs, List.filterMap_cons_some hc, h.stack]
  · rcases List.mem_cons.mp hg with rfl | hg
    · exact hf
    · exact (h.fits g hg).keep h.net hk

theorem Wired.exit (h : s.Wired) (hs : s.frames = f :: rest) (hc : f.context = some n)
    (hn : t.net.Wired) (hk : Keeps s.net t.net) (ht : t.net.stack = s.net.stack.tail)
    (hf : t.frames = rest) : t.Wired := by
  refine ⟨hn, ?_, fun g hg => ?_⟩
  · rw [ht, hf, h.stack, hs, List.filterMap_cons_some hc]
    rfl
  · rw [hf] at hg
    exact (h.fits g (by rw [hs]; exact List.mem_cons_of_mem _ hg)).keep h.net hk

theorem Wired.head (h : s.Wired) (hs : s.frames = f :: rest) (hc : f.context = some n) :
    s.net.stack = n :: rest.filterMap context := by
  rw [h.stack, hs, List.filterMap_cons_some hc]

theorem Wired.recompute (h : s.Wired) (n : NodeId) : (s.recompute n).Wired := by
  unfold NetHost.recompute
  cases hx : s.net.computed n with
  | none => exact h
  | some x =>
    dsimp only
    split
    · exact h.keep (h.net.setState n .dirty) (Net.keeps_setState s.net n .dirty) rfl rfl
    · rename_i hidle
      have ho := Net.alike_occupy (s.net.setState n .clean) n x
      have hw : ((s.net.setState n .clean).occupy n x).Wired := (h.net.setState n .clean).alike ho
      have hk : Keeps s.net (s.net.beginCompute n x) :=
        ((Net.keeps_setState s.net n .clean).trans ho.keeps).trans (Net.keeps_enter _ n)
      refine h.begin (hw.enter ?_ ?_) hk ?_ rfl ?_
      · rw [ho.active]
        exact hidle
      · rw [ho.nextNode]
        exact h.net.known n x hx
      · exact congrArg (List.cons n) ho.stack
      · have := hk.computed n (h.net.known n x hx)
        rw [hx] at this
        exact this

theorem Wired.refresh (h : s.Wired) (n : NodeId) : (s.refresh n).Wired := by
  unfold NetHost.refresh
  cases hx : s.net.computed n with
  | none => exact h
  | some x =>
    dsimp only
    split
    · exact h
    · exact h.frame rfl rfl rfl (h.net.known n x hx)
    · exact h.recompute n

theorem Wired.raise (h : s.Wired) : s.raise.Wired := h.alike (.refl _) rfl

theorem Wired.read (h : s.Wired) (n : NodeId) (tracked : Bool) : (s.read n tracked).Wired := by
  unfold NetHost.read
  split
  · rename_i x hx
    exact h.frame rfl rfl rfl (h.net.source n x hx).1
  · rename_i x _ hx
    split
    · exact h.raise
    · have hr : (s.push (.reading n tracked)).Wired :=
        h.frame rfl rfl rfl (h.net.known n x hx)
      exact hr.refresh n
  · exact h.raise

theorem noteSaw_same (s : NetHost V) (n : NodeId) (v : V) :
    (s.noteSaw n v).net = s.net ∧ (s.noteSaw n v).frames = s.frames ∧
      (s.noteSaw n v).unwinding = s.unwinding ∧ (s.noteSaw n v).ran = s.ran ∧
      (s.noteSaw n v).started = s.started ∧
      (s.noteSaw n v).rerunAfterCurrent = s.rerunAfterCurrent := by
  unfold noteSaw
  split
  · exact ⟨rfl, rfl, rfl, rfl, rfl, rfl⟩
  · split <;> exact ⟨rfl, rfl, rfl, rfl, rfl, rfl⟩

theorem Wired.lend (h : s.Wired) (below : n < s.net.nextNode) (tracked : Bool) :
    (s.lend layout n tracked).Wired := by
  unfold NetHost.lend
  split
  · exact h.raise
  · have hrec : ∀ u : NetHost V, u.net = (if tracked = true then s.net.recordEdge layout n else s.net) →
        u.frames = s.frames → u.Wired := by
      intro u hu hf
      cases tracked with
      | true =>
        refine h.keep (hu ▸ h.net.recordEdge below) (hu ▸ Net.keeps_recordEdge s.net layout n) ?_ hf
        rw [hu]
        exact (Net.recordEdge_same s.net layout n).2.2.1
      | false => exact h.keep (hu ▸ h.net) (hu ▸ .refl _) (by rw [hu]; rfl) hf
    dsimp only
    split
    · exact hrec _ rfl rfl
    · rename_i v hv
      have hframes : (if tracked = true then s.noteSaw n v else s).frames = s.frames := by
        split
        · exact (noteSaw_same s n v).2.1
        · rfl
      have hb : Wired { (if tracked = true then s.noteSaw n v else s) with
          net := (if tracked = true then s.net.recordEdge layout n else s.net).borrow n } :=
        (hrec { s with net := if tracked = true then s.net.recordEdge layout n else s.net } rfl rfl
          ).alike (Net.alike_borrow _ n) hframes
      exact hb.frame rfl rfl rfl trivial

theorem Wired.write (h : s.Wired) (n : NodeId) (v : V) : (s.write n v).Wired := by
  have ha := Net.alike_setValue s.net n v
  have hw := h.net.alike ha
  refine h.keep (hw.trigger n) (ha.keeps.trans (Net.keeps_trigger hw n)) ?_ rfl
  obtain ⟨hm, -⟩ := Net.alerts_trigger hw n
  change ((s.net.setValue n v).trigger n).stack = s.net.stack
  rw [hm.toMarked.frame]
  rfl

theorem Wired.overwrite (h : s.Wired) (n : NodeId) (f : V → V) : (s.overwrite n f).Wired := by
  unfold NetHost.overwrite
  split
  · exact h.raise
  · split
    · exact h.raise
    · exact h.write n _

theorem Wired.set (h : s.Wired) (n : NodeId) (v : V) : (s.set n v).Wired := by
  unfold NetHost.set
  split
  · exact h.raise
  · split
    · exact h
    · exact h.overwrite n _

theorem Wired.endCompute (h : s.net.Wired) (n : NodeId) (x : NetComputed V) (untracked : ℕ) :
    (s.net.endCompute n x untracked).Wired ∧ Keeps s.net (s.net.endCompute n x untracked) ∧
      (s.net.endCompute n x untracked).stack = s.net.stack.tail := by
  have hv := Net.alike_vacate (s.net.leave untracked) n x
  refine ⟨(h.leave untracked).alike hv, (Net.keeps_leave s.net untracked).trans hv.keeps, ?_⟩
  exact hv.stack.trans (Net.leave_eq s.net untracked).2.2.2.2.2.2.2

theorem accept_stack (net : Net V) (n : NodeId) (v : V) (changed : Bool) :
    (net.accept n v changed).stack = net.stack := by
  unfold Net.accept
  split <;> rfl

theorem Wired.conclude (h : s.Wired) {untracked : ℕ} (hs : s.frames = .computing n untracked :: rest)
    (x : NetComputed V) (v : V) : (s.conclude rest n x untracked v).Wired := by
  obtain ⟨h1, h2, h3⟩ := Wired.endCompute h.net n x untracked
  unfold NetHost.conclude
  dsimp only
  split
  · exact h.exit hs rfl h1 h2 h3 rfl
  · rename_i changed _
    split
    · exact h.exit hs rfl h1 h2 h3 rfl
    · exact h.exit hs rfl (h1.accept n v changed) (h2.trans (Net.keeps_accept _ n v changed))
        ((accept_stack _ n v changed).trans h3) rfl

theorem Wired.attempt (h : s.Wired) (below : e < s.net.nextNode) (hc : s.net.computed e = none) :
    (s.attempt e).Wired := by
  unfold NetHost.attempt
  have ha := Net.alike_countRun s.net e
  dsimp only
  split
  · exact h.alike ha rfl
  · refine Wired.frame (s := { s with net := s.net.countRun e }) (h.alike ha rfl) rfl rfl rfl ?_
    exact ⟨by rw [ha.nextNode]; exact below, by rw [ha.computed]; exact hc⟩

theorem Wired.changed (h : s.Wired) (below : n < s.net.nextNode) : (s.changed n).Wired := by
  unfold NetHost.changed
  split
  · exact h.recompute n
  · rename_i hc
    exact h.attempt below hc

theorem Wired.runScheduled (h : s.Wired) (e : NodeId) : (s.runScheduled e).Wired := by
  unfold NetHost.runScheduled
  cases hx : s.net.effects e with
  | none => exact h
  | some y =>
    obtain ⟨hbelow, hc⟩ := h.net.effect e y hx
    have hu : Wired { s with net := s.net.unlatch e } :=
      h.alike (Net.alike_modifyEffect s.net e _) rfl
    dsimp only
    split
    · exact hu.alike (.refl _) rfl
    · have hm : Wired { s with net := (s.net.unlatch e).modifyEffect e fun x =>
          { x with state := .clean } } := hu.alike (Net.alike_modifyEffect _ e _) rfl
      split
      · exact hm.attempt hbelow hc
      · exact hm.frame rfl rfl rfl hbelow
      · exact hm

theorem Wired.enterBody (h : s.Wired) (hs : s.frames = .resetting e :: rest) :
    (s.enterBody rest e).Wired := by
  obtain ⟨hbelow, hc⟩ : e < s.net.nextNode ∧ s.net.computed e = none :=
    h.fits (.resetting e) (by rw [hs]; exact List.mem_cons_self)
  have hp := h.pop hs rfl
  unfold NetHost.enterBody
  dsimp only
  split
  · exact hp.raise
  · rename_i hidle
    exact hp.begin (h.net.enter hidle hbelow) (Net.keeps_enter s.net e) rfl rfl
      ⟨hbelow, hc⟩

theorem Wired.settle (h : s.Wired) {untracked : ℕ} (hs : s.frames = .running e untracked :: rest) :
    (s.settle rest e untracked).Wired := by
  have hl := (Net.leave_eq s.net untracked).2.2.2.2.2.2.2
  have hk := Net.keeps_leave s.net untracked
  unfold NetHost.settle
  dsimp only
  split
  · have ha := Net.alike_scheduleEffect (s.net.leave untracked) e
    exact h.exit hs rfl ((h.net.leave untracked).alike ha) (hk.trans ha.keeps)
      (ha.stack.trans hl) rfl
  · exact h.exit hs rfl (h.net.leave untracked) hk hl rfl

theorem Wired.finish (h : s.Wired) {v : V} (ht : s.finish v = some t) : t.Wired := by
  unfold NetHost.finish at ht
  split at ht
  · rename_i hs
    obtain ⟨x, -, rfl⟩ := Option.map_eq_some_iff.mp ht
    exact h.conclude hs x v
  · rename_i hs
    cases ht
    exact h.enterBody hs
  · rename_i hs
    cases ht
    exact h.settle hs
  · rename_i hs
    cases ht
    exact (h.pop hs rfl).alike (Net.alike_giveBack _ _) rfl
  · rename_i hs
    cases ht
    exact (h.pop hs rfl).alike (Net.alike_untracked _ _) rfl
  · cases ht

theorem Wired.next (h : s.Wired) (ht : s.next layout = some t) : t.Wired := by
  unfold NetHost.next at ht
  split at ht
  · rename_i hs
    split at ht
    · cases ht
      exact (h.pop hs rfl).alike (Net.alike_closeFlush _) rfl
    · rename_i e jobs _
      cases ht
      exact Wired.runScheduled (s := { s with net := { s.net with pendingJobs := jobs } })
        (h.alike (Net.alike_jobs s.net jobs) rfl) e
  · rename_i n _ hs
    cases ht
    exact (h.pop hs rfl).keep (h.net.setState _ _) (Net.keeps_setState _ _ _) rfl rfl
  · rename_i n d version entries rest hs
    have hbelow : n < s.net.nextNode :=
      h.fits (.verifying n ((d, version) :: entries)) (by rw [hs]; exact List.mem_cons_self)
    split at ht
    · cases ht
      exact h.raise
    · cases ht
      exact (h.swap (g := .awaiting n d version entries) hs rfl rfl hbelow).refresh d
  · rename_i n d version entries rest hs
    have hbelow : n < s.net.nextNode :=
      h.fits (.awaiting n d version entries) (by rw [hs]; exact List.mem_cons_self)
    split at ht
    · cases ht
      exact (h.pop hs rfl).changed hbelow
    · cases ht
      exact h.swap hs rfl rfl hbelow
  · rename_i n tracked rest hs
    have hbelow : n < s.net.nextNode :=
      h.fits (.reading n tracked) (by rw [hs]; exact List.mem_cons_self)
    cases ht
    exact (h.pop hs rfl).lend hbelow tracked
  · cases ht

theorem Wired.recover (h : s.Wired) (hs : s.frames = f :: rest) (hc : f.context = none)
    (n : NodeId) : (s.recover rest n).Wired :=
  (h.pop hs hc).alike
    ((Net.alike_modifyEffect _ n _).trans (Net.alike_scheduleEffect _ n)) rfl

theorem Wired.unwind (h : s.Wired) (ht : s.unwind = some t) : t.Wired := by
  unfold NetHost.unwind at ht
  split at ht
  · cases ht
  · rename_i n untracked rest hs
    obtain ⟨x, -, rfl⟩ := Option.map_eq_some_iff.mp ht
    obtain ⟨h1, h2, h3⟩ := Wired.endCompute h.net n x untracked
    exact h.exit hs rfl (h1.setState n .dirty) (h2.trans (Net.keeps_setState _ n .dirty)) h3 rfl
  · rename_i hs
    cases ht
    exact h.exit hs rfl (h.net.leave _) (Net.keeps_leave _ _)
      (Net.leave_eq s.net _).2.2.2.2.2.2.2 rfl
  · rename_i hs
    cases ht
    exact h.recover hs rfl _
  · rename_i hs
    cases ht
    exact h.recover hs rfl _
  · rename_i hs
    cases ht
    exact (h.pop hs rfl).alike (Net.alike_giveBack _ _) rfl
  · rename_i hs
    cases ht
    exact (h.pop hs rfl).alike (Net.alike_untracked _ _) rfl
  · rename_i hs
    cases ht
    exact (h.pop hs rfl).alike (Net.alike_closeFlush _) rfl
  · rename_i hs
    cases ht
    exact h.pop hs rfl
  · rename_i hs
    cases ht
    exact h.pop hs rfl

theorem Wired.step (h : s.Wired) (op : NetStep V) (ht : s.step layout op = some t) : t.Wired := by
  cases op <;> simp only [NetHost.step] at ht <;> split at ht <;> try cases ht
  case signal v same _ =>
    exact h.keep (h.net.newSignal v same) ⟨Nat.le_succ _, fun _ _ => rfl⟩ rfl rfl
  case thunk => exact h.keep (h.net.newComputed _ _) (Net.keeps_newComputed _ _ _) rfl rfl
  case memo => exact h.keep (h.net.newComputed _ _) (Net.keeps_newComputed _ _ _) rfl rfl
  case effect p _ =>
    refine h.keep (h.net.newEffect p) (Net.keeps_newEffect _ p) ?_ rfl
    exact (Net.alike_scheduleEffect _ _).stack
  case read => exact h.read _ _
  case set => exact h.set _ _
  case update => exact h.overwrite _ _
  case untrack =>
    exact (h.alike (t := { s with net := { s.net with untracked := s.net.untracked + 1 } })
      (Net.alike_untracked _ _) rfl).frame rfl rfl rfl trivial
  case flushNow =>
    unfold NetHost.flushNow
    split
    · exact h
    · exact (h.alike (t := { s with net := s.net.openFlush }) (Net.alike_openFlush _) rfl).frame
        rfl rfl rfl trivial
  case finish => exact h.finish ht
  case next => exact h.next ht
  case panic => exact h.raise
  case catchUnwind => exact h.alike (.refl _) rfl
  case unwind => exact h.unwind ht

theorem wired_empty : ({} : NetHost V).Wired where
  net :=
    { running := rfl
      nodup := List.nodup_nil
      busy := fun _ hz => by cases hz
      inverse := fun _ _ =>
        ⟨fun h => (List.not_mem_nil h.choose_spec).elim, fun h => (List.not_mem_nil h).elim⟩
      below := fun _ _ he => by cases he
      known := fun _ _ hx => by cases hx
      source := fun _ _ hs => by cases hs
      effect := fun _ _ hy => by cases hy }
  stack := rfl
  fits _ hf := by cases hf

end NetHost

end Adaptite

import Adaptite.Base.Walk
import Adaptite.Ledger
import Adaptite.SingleRuns

set_option autoImplicit false

namespace Adaptite

/-- How the delivery of a mark goes: consumer code may panic before the state of the observer
is set, or after the run of an effect was latched and before it is queued. -/
inductive Reception where
  | passes
  | early
  | late
deriving DecidableEq

/-- The marks of one write, with the number of those that were delivered. -/
structure Marking (V : Type) where
  net : Net V
  calls : ℕ := 0
  unwinding : Bool := false

namespace Net

variable {V : Type}

/-- `EffectInner::mark`, up to the hand-over of the run. -/
def latchEffect (net : Net V) (e : NodeId) (mark : Mark) : Net V :=
  net.modifyEffect e fun x => { x with state := x.state.raise mark, scheduled := true }

/-- The effect is clean, and no run of it is pending. -/
def isIdle (net : Net V) (e : NodeId) : Bool :=
  (net.effects e).any fun y => y.state = .clean && !y.scheduled

/-- Nothing tells the observer that it has to look at its dependencies again. -/
def unaware (net : Net V) (o : NodeId) : Bool := net.isClean o || net.isIdle o

/-- A dependency of the observer has another version than it has recorded. -/
def Behind (net : Net V) (o : NodeId) : Prop := ∃ e ∈ net.dependencies o, net.version e.1 ≠ e.2

def Noticed (net : Net V) : Prop := ∀ o, net.Behind o → net.unaware o = false

end Net

namespace Marking

variable {V : Type}

/-- `deliver_mark`, where the delivery may panic. -/
def deliver (stage : ℕ → Reception) (next : Marking V → NodeId → Marking V) (mark : Mark)
    (m : Marking V) (d : NodeId) : Marking V :=
  if m.unwinding then m
  else if stage m.calls = .early then { m with calls := m.calls + 1, unwinding := true }
  else
    match m.net.computed d with
    | some x =>
      if x.state.rank < mark.toState.rank then
        let marked := { m with net := m.net.setState d mark.toState, calls := m.calls + 1 }
        if x.state = .clean then next marked d else marked
      else { m with calls := m.calls + 1 }
    | none =>
      if stage m.calls = .late then
        { m with net := m.net.latchEffect d mark, calls := m.calls + 1, unwinding := true }
      else { m with net := m.net.markEffect d mark, calls := m.calls + 1 }

def markDependents (stage : ℕ → Reception) : ℕ → Mark → Marking V → NodeId → Marking V
  | 0, _, m, _ => m
  | levels + 1, mark, m, n =>
    (m.net.dependents n).foldl (deliver stage (markDependents stage levels .check) mark) m

/-- `trigger`. -/
def trigger (stage : ℕ → Reception) (net : Net V) (n : NodeId) : Marking V :=
  markDependents stage (net.nextNode + 1) .dirty { net := net.bumpVersion n } n

end Marking

/-- The walk that the marks of a write take: from an observer it goes on where the observer was
clean, and a run is latched only of what is not computed. -/
def Net.ground {V : Type} (net : Net V) (stage : ℕ → Reception) : Walk.Ground NodeId where
  next := net.dependents
  isOpen := net.isClean
  early k _ := stage k = .early
  late k d := stage k = .late && (net.computed d).isNone

namespace NetHost

variable {V : Type}

/-- Any step, or a write whose marks may panic while they are delivered. -/
inductive LoudStep (V : Type) where
  | quiet (op : NetStep V)
  | write (signal : NodeId) (value : V) (stage : ℕ → Reception)

def writeLoud (s : NetHost V) (n : NodeId) (v : V) (stage : ℕ → Reception) : NetHost V :=
  let m := Marking.trigger stage (s.net.setValue n v) n
  { s with net := m.net, ran := [], unwinding := m.unwinding }

def stepLoud (layout : Layout) (s : NetHost V) : LoudStep V → Option (NetHost V)
  | .quiet op => s.step layout op
  | .write n v stage =>
    if s.calling && (s.net.signals n).isSome && s.net.borrows n = 0 then some (s.writeLoud n v stage)
    else none

end NetHost

namespace Marking

variable {V : Type} {net : Net V} {stage : ℕ → Reception} {m : Marking V} {w : Walk NodeId}
  {d n : NodeId}

section Quiet

theorem deliver_passes {next : Marking V → NodeId → Marking V} {next' : Net V → NodeId → Net V}
    (hn : ∀ m : Marking V, m.unwinding = false → ∀ d, (next m d).unwinding = false ∧
      (next m d).net = next' m.net d) (mark : Mark) (hm : m.unwinding = false) (d : NodeId) :
    (deliver (fun _ => .passes) next mark m d).unwinding = false ∧
      (deliver (fun _ => .passes) next mark m d).net = Net.deliverMark next' mark m.net d := by
  unfold deliver Net.deliverMark Net.markComputed
  have hpass : Reception.passes ≠ .early := by decide
  have hnolate : Reception.passes ≠ .late := by decide
  rw [if_neg (by rw [hm]; exact Bool.false_ne_true), if_neg hpass, if_neg hnolate]
  cases m.net.computed d with
  | none => exact ⟨hm, rfl⟩
  | some x =>
    dsimp only
    split
    · split
      · exact hn { m with net := m.net.setState d mark.toState, calls := m.calls + 1 } hm d
      · exact ⟨hm, rfl⟩
    · exact ⟨hm, rfl⟩

theorem markDependents_passes (levels : ℕ) (mark : Mark) (hm : m.unwinding = false) (n : NodeId) :
    (markDependents (fun _ => .passes) levels mark m n).unwinding = false ∧
      (markDependents (fun _ => .passes) levels mark m n).net =
        Net.markDependents levels mark m.net n := by
  induction levels generalizing mark m n with
  | zero => exact ⟨hm, rfl⟩
  | succ levels ih =>
    unfold markDependents Net.markDependents
    generalize m.net.dependents n = l
    induction l generalizing m with
    | nil => exact ⟨hm, rfl⟩
    | cons d l hl =>
      obtain ⟨hu, hnet⟩ := deliver_passes (fun m hm d => ih .check hm d) mark hm d
      rw [List.foldl_cons, List.foldl_cons, ← hnet]
      exact hl hu

/-- Where no delivery panics, the marks of a write are delivered as they are elsewhere. -/
theorem trigger_passes (net : Net V) (n : NodeId) :
    (trigger (fun _ => .passes) net n).unwinding = false ∧
      (trigger (fun _ => .passes) net n).net = net.trigger n :=
  markDependents_passes (net.nextNode + 1) .dirty rfl n

end Quiet

theorem markDependents_keeps {P : Net V → Prop}
    (state : ∀ net n state, P net → P (net.setState n state))
    (effect : ∀ net e mark, P net → P (net.markEffect e mark))
    (latch : ∀ net e mark, P net → P (net.latchEffect e mark)) (levels : ℕ) (mark : Mark)
    (m : Marking V) (n : NodeId) (h : P m.net) : P (markDependents stage levels mark m n).net := by
  induction levels generalizing mark m n with
  | zero => exact h
  | succ levels ih =>
    unfold markDependents
    generalize m.net.dependents n = l
    induction l generalizing m with
    | nil => exact h
    | cons d l hl =>
      refine hl _ ?_
      unfold deliver
      split
      · exact h
      · split
        · exact h
        · split
          · dsimp only
            split
            · split
              · exact ih .check _ d (state _ d _ h)
              · exact state _ d _ h
            · exact h
          · split
            · exact latch _ d mark h
            · exact effect _ d mark h

end Marking

namespace Net

variable {V : Type} {net t : Net V} {n d o : NodeId} {x : NetComputed V} {mark : Mark}

section Flags

theorem alike_markEffect (net : Net V) (e : NodeId) (mark : Mark) :
    net.Alike (net.markEffect e mark) := by
  unfold markEffect
  split
  · exact .refl net
  · dsimp only
    split
    · exact alike_modifyEffect net e _
    · exact (alike_modifyEffect net e _).trans (alike_jobs _ _)

theorem isClean_setState (hx : net.computed d = some x) (state : State) (o : NodeId) :
    (net.setState d state).isClean o = if o = d then decide (state = .clean) else net.isClean o := by
  unfold isClean
  rw [computed_setState]
  by_cases ho : o = d
  · rw [if_pos ho, if_pos ho, hx]
    rfl
  · rw [if_neg ho, if_neg ho]

theorem isIdle_latchEffect (net : Net V) (d : NodeId) (mark : Mark) (o : NodeId) :
    (net.latchEffect d mark).isIdle o = (net.isIdle o && decide (o ≠ d)) := by
  unfold isIdle latchEffect modifyEffect
  dsimp only
  by_cases ho : o = d
  · rw [ho, Function.update_self]
    cases net.effects d with
    | none => rfl
    | some y => simp
  · rw [Function.update_of_ne ho, decide_eq_true ho, Bool.and_true]

theorem isIdle_markEffect (net : Net V) (d : NodeId) (mark : Mark) (o : NodeId) :
    (net.markEffect d mark).isIdle o = (net.isIdle o && decide (o ≠ d)) := by
  rw [← isIdle_latchEffect net d mark o]
  unfold markEffect latchEffect
  cases hy : net.effects d with
  | none =>
    dsimp only
    unfold isIdle modifyEffect
    dsimp only
    rw [hy, Option.map_none, ← hy, Function.update_eq_self]
  | some y =>
    dsimp only
    split
    · rfl
    · rfl

end Flags

end Net

namespace Marking

variable {V : Type} {net : Net V} {stage : ℕ → Reception} {m : Marking V} {w : Walk NodeId}
  {d n : NodeId}

/-- The marks that were delivered and the walk have come to the same point: an observer that was
told is not clean and not idle, and the others are as they were. -/
structure Follows (net : Net V) (m : Marking V) (w : Walk NodeId) : Prop where
  calls : m.calls = w.calls
  stopped : m.unwinding = w.stopped
  dependents : m.net.dependents = net.dependents
  clean : ∀ o, m.net.isClean o = (net.isClean o && decide (o ∉ w.told))
  idle : ∀ o, m.net.isIdle o = (net.isIdle o && decide (o ∉ w.told))
  computed : ∀ o, (m.net.computed o).isSome = (net.computed o).isSome
  plain : ∀ o, net.isIdle o = true → net.computed o = none

section Follows

theorem decide_notMem_cons (o d : NodeId) (l : List NodeId) :
    decide (o ∉ d :: l) = (decide (o ∉ l) && decide (o ≠ d)) := by
  simp only [List.mem_cons, not_or, Bool.decide_and, Bool.and_comm]

/-- A thunk or memo is told, and was stale or turns stale. -/
theorem Follows.tell (h : Follows net m w) {x : NetComputed V} (hx : m.net.computed d = some x)
    {t : Net V} (hd : t.dependents = m.net.dependents)
    (hc : ∀ o, t.isClean o = (m.net.isClean o && decide (o ≠ d)))
    (hi : ∀ o, t.isIdle o = m.net.isIdle o)
    (hs : ∀ o, (t.computed o).isSome = (m.net.computed o).isSome) :
    Follows net { m with net := t, calls := m.calls + 1 }
      { w with told := d :: w.told, calls := w.calls + 1 } where
  calls := congrArg (· + 1) h.calls
  stopped := h.stopped
  dependents := hd.trans h.dependents
  clean o := by
    change t.isClean o = _
    rw [hc, h.clean, decide_notMem_cons, Bool.and_assoc]
  idle o := by
    change t.isIdle o = _
    rw [hi, h.idle, decide_notMem_cons]
    by_cases ho : o = d
    · subst ho
      have hnone : net.isIdle o = false := by
        refine Bool.eq_false_iff.mpr fun hidle => ?_
        have hsome := h.computed o
        rw [hx, h.plain o hidle] at hsome
        cases hsome
      rw [hnone, Bool.false_and, Bool.false_and]
    · rw [decide_eq_true ho, Bool.and_true]
  computed o := (hs o).trans (h.computed o)
  plain := h.plain

theorem Follows.latch (h : Follows net m w) (hx : m.net.computed d = none) {t : Net V}
    (ha : m.net.Alike t) (hi : ∀ o, t.isIdle o = (m.net.isIdle o && decide (o ≠ d)))
    {unwinding stopped : Bool} (hu : unwinding = stopped) :
    Follows net { net := t, calls := m.calls + 1, unwinding }
      { told := d :: w.told, calls := w.calls + 1, stopped } where
  calls := congrArg (· + 1) h.calls
  stopped := hu
  dependents := ha.dependents.trans h.dependents
  clean o := by
    change t.isClean o = _
    rw [decide_notMem_cons, ← Bool.and_assoc, ← h.clean]
    unfold Net.isClean
    rw [ha.computed]
    by_cases ho : o = d
    · rw [ho, hx]
      rfl
    · rw [decide_eq_true ho, Bool.and_true]
  idle o := by
    change t.isIdle o = _
    rw [hi, h.idle, decide_notMem_cons, Bool.and_assoc]
  computed o := by
    change (t.computed o).isSome = _
    rw [ha.computed]
    exact h.computed o
  plain := h.plain

theorem Follows.marked (h : Follows net m w) {x : NetComputed V} (hx : m.net.computed d = some x)
    (mark : Mark) : Follows net { m with net := m.net.setState d mark.toState, calls := m.calls + 1 }
      { w with told := d :: w.told, calls := w.calls + 1 } := by
  have hpos : mark.toState ≠ .clean := (State.rank_pos_iff _).mp (Mark.rank_pos mark)
  refine h.tell hx (t := m.net.setState d mark.toState) rfl (fun o => ?_) (fun o => rfl) fun o => ?_
  · rw [Net.isClean_setState hx, decide_eq_false hpos]
    by_cases ho : o = d
    · rw [if_pos ho, ho, decide_eq_false (not_not_intro rfl), Bool.and_false]
    · rw [if_neg ho, decide_eq_true ho, Bool.and_true]
  · rw [Net.computed_setState]
    by_cases ho : o = d
    · rw [if_pos ho, ho, Option.isSome_map]
    · rw [if_neg ho]

theorem Follows.computedCase {next : Marking V → NodeId → Marking V}
    {below : Walk NodeId → NodeId → Walk NodeId}
    (hn : ∀ m w, Follows net m w → ∀ d, Follows net (next m d) (below w d)) (mark : Mark)
    (h : Follows net m w) {x : NetComputed V} (hx : m.net.computed d = some x) :
    Follows net
      (if x.state.rank < mark.toState.rank then
        if x.state = .clean then
          next { m with net := m.net.setState d mark.toState, calls := m.calls + 1 } d
        else { m with net := m.net.setState d mark.toState, calls := m.calls + 1 }
      else { m with calls := m.calls + 1 })
      (if m.net.isClean d = true then
        below { w with told := d :: w.told, calls := w.calls + 1 } d
      else if (net.ground stage).late w.calls d = true then
        { w with told := d :: w.told, calls := w.calls + 1, stopped := true }
      else { w with told := d :: w.told, calls := w.calls + 1 }) := by
  have hclean : m.net.isClean d = decide (x.state = .clean) := by
    unfold Net.isClean
    rw [hx]
    rfl
  have hnolate : (net.ground stage).late w.calls d = false := by
    have hsome := h.computed d
    rw [hx] at hsome
    change (decide (stage w.calls = .late) && (net.computed d).isNone) = false
    rw [← Option.not_isSome, ← hsome]
    exact Bool.and_false _
  rw [hnolate, if_neg Bool.false_ne_true, hclean]
  by_cases hc : x.state = .clean
  · have hrank : x.state.rank < mark.toState.rank := by
      rw [hc]
      exact Mark.rank_pos mark
    rw [if_pos hrank, if_pos hc, decide_eq_true hc, if_pos rfl]
    exact hn _ _ (h.marked hx mark) d
  · rw [decide_eq_false hc, if_neg Bool.false_ne_true]
    split
    · exact h.marked hx mark
    · refine h.tell hx (t := m.net) rfl (fun o => ?_) (fun o => rfl) fun o => rfl
      by_cases ho : o = d
      · rw [ho, hclean, decide_eq_false hc, Bool.false_and]
      · rw [decide_eq_true ho, Bool.and_true]

theorem Follows.otherCase (mark : Mark) (h : Follows net m w) (hx : m.net.computed d = none)
    {below : Walk NodeId → NodeId → Walk NodeId} :
    Follows net
      (if stage m.calls = .late then
        { m with net := m.net.latchEffect d mark, calls := m.calls + 1, unwinding := true }
      else { m with net := m.net.markEffect d mark, calls := m.calls + 1 })
      (if m.net.isClean d = true then
        below { w with told := d :: w.told, calls := w.calls + 1 } d
      else if (net.ground stage).late w.calls d = true then
        { w with told := d :: w.told, calls := w.calls + 1, stopped := true }
      else { w with told := d :: w.told, calls := w.calls + 1 }) := by
  have hclean : m.net.isClean d = false := by
    unfold Net.isClean
    rw [hx]
    rfl
  have hnone : (net.computed d).isNone = true := by
    rw [← Option.not_isSome, ← h.computed d, hx]
    rfl
  have hlate : (net.ground stage).late w.calls d = decide (stage m.calls = .late) := by
    change (decide (stage w.calls = .late) && (net.computed d).isNone) = _
    rw [hnone, Bool.and_true, h.calls]
  rw [hclean, if_neg Bool.false_ne_true, hlate]
  by_cases hl : stage m.calls = .late
  · rw [if_pos hl, decide_eq_true hl, if_pos rfl]
    exact h.latch hx (Net.alike_modifyEffect _ _ _) (Net.isIdle_latchEffect m.net d mark) rfl
  · rw [if_neg hl, decide_eq_false hl, if_neg Bool.false_ne_true]
    exact h.latch hx (Net.alike_markEffect m.net d mark) (Net.isIdle_markEffect m.net d mark)
      h.stopped

theorem Follows.deliver {next : Marking V → NodeId → Marking V}
    {below : Walk NodeId → NodeId → Walk NodeId}
    (hn : ∀ m w, Follows net m w → ∀ d, Follows net (next m d) (below w d)) (mark : Mark)
    (h : Follows net m w) (d : NodeId) :
    Follows net (Marking.deliver stage next mark m d) (Walk.visit (net.ground stage) below w d) := by
  unfold Marking.deliver Walk.visit
  by_cases hm : m.unwinding = true
  · rw [if_pos hm, if_pos (h.stopped ▸ hm)]
    exact h
  · have hw : ¬ w.stopped = true := h.stopped ▸ hm
    rw [if_neg hm, if_neg hw]
    have hearly : (net.ground stage).early w.calls d = decide (stage m.calls = .early) := by
      change decide (stage w.calls = .early) = _
      rw [h.calls]
    rw [hearly]
    by_cases he : stage m.calls = .early
    · rw [if_pos he, decide_eq_true he, if_pos rfl]
      exact ⟨congrArg (· + 1) h.calls, rfl, h.dependents, h.clean, h.idle, h.computed, h.plain⟩
    · rw [if_neg he, decide_eq_false he, if_neg Bool.false_ne_true]
      dsimp only
      -- the walk goes on where the node is clean by now
      have hopen : ((net.ground stage).isOpen d && decide (d ∉ w.told)) = m.net.isClean d :=
        (h.clean d).symm
      rw [hopen]
      cases hx : m.net.computed d with
      | some x => exact h.computedCase hn mark hx
      | none => exact h.otherCase mark hx

theorem follows_markDependents (stage : ℕ → Reception) (levels : ℕ) (mark : Mark) (m : Marking V) (w : Walk NodeId)
    (h : Follows net m w) (n : NodeId) :
    Follows net (markDependents stage levels mark m n)
      (Walk.walk (net.ground stage) levels w n) := by
  induction levels generalizing mark m w n with
  | zero => exact h
  | succ levels ih =>
    unfold markDependents Walk.walk
    have hnext : (net.ground stage).next n = m.net.dependents n := congrFun h.dependents.symm n
    rw [hnext]
    clear hnext
    generalize m.net.dependents n = l
    induction l generalizing m w with
    | nil => exact h
    | cons d l hl => exact hl _ _ (h.deliver (fun m w hm d => ih .check m w hm d) mark d)

end Follows

end Marking

namespace NetHost

variable {V : Type} {layout : Layout} {s t : NetHost V} {n : NodeId} {v : V}
  {stage : ℕ → Reception}

open NetFrame (Keeps)

/-- Any steps, with any of the deliveries of a write panicking. -/
abbrev ReachedLoud (layout : Layout) (s : NetHost V) : Prop :=
  Runs.Reaches (stepLoud layout) (fun _ _ => true = true) {} s

section Graph

theorem graph_trigger {net : Net V} (h : net.Wired) (n : NodeId) (stage : ℕ → Reception) :
    (Marking.trigger stage net n).net.Wired ∧ Keeps net (Marking.trigger stage net n).net ∧
      (Marking.trigger stage net n).net.dependencies = net.dependencies ∧
      (Marking.trigger stage net n).net.version = (net.bumpVersion n).version ∧
      (Marking.trigger stage net n).net.stack = net.stack := by
  refine Marking.markDependents_keeps (P := fun t => t.Wired ∧ Keeps net t ∧
    t.dependencies = net.dependencies ∧ t.version = (net.bumpVersion n).version ∧
      t.stack = net.stack) ?_ ?_ ?_ (net.nextNode + 1) .dirty { net := net.bumpVersion n } n ?_
  · rintro u d state ⟨hw, hk, hd, hv, hs⟩
    exact ⟨hw.setState d state, hk.trans (Net.keeps_setState u d state), hd, hv, hs⟩
  · rintro u d mark ⟨hw, hk, hd, hv, hs⟩
    have ha := Net.alike_markEffect u d mark
    exact ⟨hw.alike ha, hk.trans ha.keeps, ha.dependencies.trans hd, ha.version.trans hv,
      ha.stack.trans hs⟩
  · rintro u d mark ⟨hw, hk, hd, hv, hs⟩
    have ha : u.Alike (u.latchEffect d mark) := Net.alike_modifyEffect u d _
    exact ⟨hw.alike ha, hk.trans ha.keeps, hd, hv, hs⟩
  · exact ⟨h.bumpVersion n, ⟨Nat.le_refl _, fun _ _ => rfl⟩, rfl, rfl, rfl⟩

theorem Wired.writeLoud (h : s.Wired) (n : NodeId) (v : V) (stage : ℕ → Reception) :
    (s.writeLoud n v stage).Wired := by
  have ha := Net.alike_setValue s.net n v
  obtain ⟨hw, hk, -, -, hs⟩ := graph_trigger (h.net.alike ha) n stage
  exact h.keep hw (ha.keeps.trans hk) hs rfl

theorem bounded_writeLoud (hw : s.Wired) (hb : s.net.Bounded) (n : NodeId) (v : V)
    (stage : ℕ → Reception) : (s.writeLoud n v stage).net.Bounded := by
  obtain ⟨-, -, hd, hv, -⟩ :=
    graph_trigger (hw.net.alike (Net.alike_setValue s.net n v)) n stage
  intro o e he
  change e ∈ (Marking.trigger stage (s.net.setValue n v) n).net.dependencies o at he
  change e.2 ≤ (Marking.trigger stage (s.net.setValue n v) n).net.version e.1
  rw [hd] at he
  rw [hv]
  change e.2 ≤ Function.update s.net.version n (s.net.version n + 1) e.1
  by_cases hn : e.1 = n
  · rw [hn, Function.update_self]
    exact Nat.le_succ_of_le (hn ▸ hb o e he)
  · rw [Function.update_of_ne hn]
    exact hb o e he

theorem stepLoud_of_calling
    (h : (s.calling && (s.net.signals n).isSome && s.net.borrows n = 0) = true) :
    s.stepLoud layout (.write n v stage) = some (s.writeLoud n v stage) := if_pos h

theorem stepLoud_write (ht : s.stepLoud layout (.write n v stage) = some t) :
    t = s.writeLoud n v stage := by
  unfold stepLoud at ht
  dsimp only at ht
  split at ht
  · exact (Option.some.inj ht).symm
  · cases ht

theorem ReachedLoud.graph (h : ReachedLoud layout s) : s.Wired ∧ s.net.Bounded := by
  refine Runs.Reaches.invariant (fun s => s.Wired ∧ s.net.Bounded)
    ⟨wired_empty, fun o e he => by cases he⟩ ?_ h
  rintro s op t ⟨hw, hb⟩ - ht
  cases op with
  | quiet op => exact ⟨hw.step op ht, (shift_step hw ht).bounded hb⟩
  | write n v stage =>
    rw [stepLoud_write ht]
    exact ⟨hw.writeLoud n v stage, bounded_writeLoud hw hb n v stage⟩

/-- A write puts the dependents of the source behind, and nobody else. -/
theorem behind_writeLoud (hw : s.Wired) (hb : s.net.Bounded) (o : NodeId) :
    (s.writeLoud n v stage).net.Behind o ↔
      n ∈ (s.net.dependencies o).map Prod.fst ∨ s.net.Behind o := by
  obtain ⟨-, -, hd, hv, -⟩ :=
    graph_trigger (hw.net.alike (Net.alike_setValue s.net n v)) n stage
  have hbehind : (s.writeLoud n v stage).net.Behind o ↔ ∃ e ∈ s.net.dependencies o,
      Function.update s.net.version n (s.net.version n + 1) e.1 ≠ e.2 := by
    change (∃ e ∈ (Marking.trigger stage (s.net.setValue n v) n).net.dependencies o,
      (Marking.trigger stage (s.net.setValue n v) n).net.version e.1 ≠ e.2) ↔ _
    rw [hd, hv]
    rfl
  rw [hbehind]
  constructor
  · rintro ⟨e, he, hne⟩
    by_cases hn : e.1 = n
    · exact .inl (List.mem_map.mpr ⟨e, he, hn⟩)
    · rw [Function.update_of_ne hn] at hne
      exact .inr ⟨e, he, hne⟩
  · rintro (hm | ⟨e, he, hne⟩)
    · obtain ⟨e, he, hn⟩ := List.mem_map.mp hm
      refine ⟨e, he, ?_⟩
      have hle := hb o e he
      rw [hn] at hle ⊢
      rw [Function.update_self]
      omega
    · refine ⟨e, he, ?_⟩
      have hle := hb o e he
      by_cases hn : e.1 = n
      · rw [hn] at hle ⊢
        rw [Function.update_self]
        omega
      · rwa [Function.update_of_ne hn]

theorem exists_of_isIdle {net : Net V} {o : NodeId} (h : net.isIdle o = true) :
    ∃ y, net.effects o = some y := by
  unfold Net.isIdle at h
  cases hy : net.effects o with
  | none =>
    rw [hy] at h
    cases h
  | some y => exact ⟨y, rfl⟩

theorem lt_nextNode_of_unaware {net : Net V} (h : net.Wired) {o : NodeId}
    (ho : net.unaware o = true) : o < net.nextNode := by
  rcases Bool.or_eq_true_iff.mp ho with hc | hi
  · obtain ⟨x, hx, -⟩ := Net.isClean_iff.mp hc
    exact h.known o x hx
  · obtain ⟨y, hy⟩ := exists_of_isIdle hi
    exact (h.effect o y hy).1

/-- After a write, an observer is unaware if it was and the walk has not come to it. -/
theorem unaware_writeLoud (hw : s.Wired) {levels : ℕ} (hl : s.net.nextNode < levels)
    (o : NodeId) : (s.writeLoud n v stage).net.unaware o =
      (s.net.unaware o && decide (o ∉ (Walk.walk (s.net.ground stage) levels {} n).told)) := by
  have hstart : Marking.Follows ((s.net.setValue n v).bumpVersion n)
      { net := (s.net.setValue n v).bumpVersion n } {} := by
    refine ⟨rfl, rfl, rfl, fun o => ?_, fun o => ?_, fun o => rfl, fun o ho => ?_⟩
    · exact (Bool.and_true _).symm
    · exact (Bool.and_true _).symm
    · obtain ⟨y, hy⟩ := exists_of_isIdle ho
      exact (hw.net.effect o y hy).2
  have hend := Marking.follows_markDependents stage (s.net.nextNode + 1) .dirty _ _
    hstart n
  have hstable : Walk.walk (s.net.ground stage) levels {} n =
      Walk.walk (s.net.ground stage) (s.net.nextNode + 1) {} n := by
    refine Walk.walk_stable (Finset.range s.net.nextNode) (fun d hd => ?_) n ?_ hl
    · obtain ⟨x, hx, -⟩ := Net.isClean_iff.mp hd
      exact Finset.mem_range.mpr (hw.net.known d x hx)
    · have hle := Finset.card_filter_le (Finset.range s.net.nextNode)
        (fun d => (s.net.ground stage).isOpen d = true ∧ d ∉ ({} : Walk NodeId).told)
      rw [Finset.card_range] at hle
      exact Nat.lt_succ_of_le hle
  rw [hstable]
  unfold Net.unaware
  rw [Bool.and_or_distrib_right]
  exact congrArg₂ (· || ·) (hend.clean o) (hend.idle o)

end Graph

/-- After a write, nobody is left unaware that has a recorded version which is not the current
one, exactly when everybody unaware who depends on the source, or was behind before, is told in
a depth-first walk from the source through the thunks and memos that were clean, which stops at
the first delivery that panics. -/
theorem write_is_noticed (h : ReachedLoud layout s)
    (ht : s.stepLoud layout (.write n v stage) = some t) {levels : ℕ}
    (hl : s.net.nextNode < levels) :
    t.net.Noticed ↔ ∀ o, (n ∈ (s.net.dependencies o).map Prod.fst ∨ s.net.Behind o) →
      s.net.unaware o = true → o ∈ (Walk.walk (s.net.ground stage) levels {} n).told := by
  obtain ⟨hw, hb⟩ := h.graph
  rw [stepLoud_write ht]
  unfold Net.Noticed
  refine forall_congr' fun o => ?_
  rw [behind_writeLoud hw hb, unaware_writeLoud hw hl]
  refine imp_congr_right fun _ => ?_
  rw [Bool.and_eq_false_iff, decide_eq_false_iff_not, not_not, ← Bool.not_eq_true]
  exact imp_iff_not_or.symm

def fanOut : List (LoudStep ℕ) :=
  [.quiet (.signal 0 (· == ·)), .quiet (.thunk (.get 1 fun v => .ret v)),
    .quiet (.thunk (.get 1 fun v => .ret v)), .quiet (.effect (.get 1 fun v => .ret v)),
    .quiet .flushNow, .quiet .next, .quiet (.finish 0), .quiet (.read 1 true), .quiet .next,
    .quiet (.finish 0), .quiet (.finish 0), .quiet .next, .quiet (.read 2 true),
    .quiet (.read 1 true), .quiet .next, .quiet (.finish 0), .quiet (.finish 0), .quiet .next,
    .quiet (.finish 0), .quiet (.read 3 true), .quiet (.read 1 true), .quiet .next,
    .quiet (.finish 0), .quiet (.finish 0), .quiet .next, .quiet (.finish 0)]

/-- What the steps of `fanOut` lead to. -/
def fannedOut : NetHost ℕ := Runs.after (stepLoud .insertion) {} fanOut

theorem fannedOut_reached : ReachedLoud .insertion fannedOut :=
  Runs.Reaches.after (fun _ _ => true) _ .init (by decide +kernel) (by decide +kernel)

/-- The scheduler of the effect panics, which is the last of the three to be marked. -/
def lastIsLate (k : ℕ) : Reception := if k = 2 then .late else .passes

theorem late_write_is_noticed :
    (fannedOut.writeLoud 1 7 lastIsLate).net.Noticed ∧
      (fannedOut.writeLoud 1 7 lastIsLate).unwinding = true := by
  have ht : fannedOut.stepLoud .insertion (.write 1 7 lastIsLate) =
      some (fannedOut.writeLoud 1 7 lastIsLate) := stepLoud_of_calling (by decide +kernel)
  have hl : fannedOut.net.nextNode < 6 := by decide +kernel
  refine ⟨(write_is_noticed fannedOut_reached ht hl).mpr fun o _ ho => ?_,
    by decide +kernel⟩
  have hlt : o < 5 := lt_nextNode_of_unaware fannedOut_reached.graph.1.net ho
  have hall : ∀ o < 5, fannedOut.net.unaware o = true →
      o ∈ (Walk.walk (fannedOut.net.ground lastIsLate) 6 {} 1).told := by decide +kernel
  exact hall o hlt ho

/-- A subscriber panics at the first mark: a thunk stays clean and the effect idle, though the
signal has another version than both have recorded. -/
theorem early_panic_leaves_observers_unaware :
    ∃ s t, ReachedLoud .insertion s ∧
      s.stepLoud .insertion (.write 1 (7 : ℕ) fun _ => .early) = some t ∧
      t.net.dependencies 2 = [(1, 0)] ∧ t.net.dependencies 4 = [(1, 0)] ∧ t.net.version 1 = 1 ∧
      t.net.isClean 2 = true ∧ t.net.isIdle 4 = true ∧ ¬ t.net.Noticed := by
  refine ⟨fannedOut, fannedOut.writeLoud 1 7 fun _ => .early, fannedOut_reached,
    stepLoud_of_calling (by decide +kernel), by decide +kernel, by decide +kernel,
    by decide +kernel, by decide +kernel, by decide +kernel, fun hn => ?_⟩
  have hbehind : (fannedOut.writeLoud 1 7 fun _ => .early).net.Behind 2 :=
    ⟨(1, 0), by decide +kernel, by decide +kernel⟩
  exact absurd (hn 2 hbehind) (by decide +kernel)

end NetHost

end Adaptite

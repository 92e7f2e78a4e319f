import Adaptite.GraphEdges
import Adaptite.World
import Mathlib.Data.Finset.Card
import Mathlib.Data.Finset.Range
import Mathlib.Logic.Relation

set_option autoImplicit false

/-!
# Propagation of marks

A write marks its direct observers dirty and everything behind them check. The
marking goes on only through computed nodes that were clean: what it reaches is
what a path of clean nodes reaches.
-/
namespace Adaptite

variable {V : Type}

inductive MarkStep : World V → World V → Prop where
  | computed (w : World V) (n : NodeId) (x : ComputedInner V) (mark : Mark)
      (hx : w.computed n = some x) (lt : x.state.rank < mark.toState.rank) :
      MarkStep w (w.setState n mark.toState)
  | effect (w : World V) (e : NodeId) (mark : Mark) (hc : w.computed e = none) :
      MarkStep w (w.markEffect e mark)

abbrev Marks : World V → World V → Prop := Relation.ReflTransGen MarkStep

theorem unregister_of_notMem (g : Graph) (d : NodeId) (h : d ∉ g.observers) :
    g.unregisterObserver d = g := by
  unfold Graph.unregisterObserver
  rw [AList.erase_of_notMem h]

theorem marks_deliverMark {next : World V → NodeId → World V}
    (hn : ∀ w n, Marks w (next w n)) (mark : Mark) (w : World V) (d : NodeId) :
    Marks w (World.deliverMark next mark w d) := by
  unfold World.deliverMark
  split
  · split
    · rename_i x hx
      unfold World.markComputed
      split
      · rename_i lt
        have step : Marks w (w.setState d mark.toState) := .single (.computed w d x mark hx lt)
        split
        · exact step.trans (hn _ d)
        · exact step
      · exact .refl
    · rename_i hx
      exact .single (.effect w d mark hx)
  · rename_i h
    rw [unregister_of_notMem _ _ h]

theorem marks_foldl {f : World V → NodeId → World V} (h : ∀ w d, Marks w (f w d))
    (l : List NodeId) (w : World V) : Marks w (l.foldl f w) := by
  induction l generalizing w with
  | nil => exact .refl
  | cons d l ih => exact (h w d).trans (ih _)

theorem marks_markDependents (env : Enumeration) (levels : ℕ) (mark : Mark) (w : World V)
    (n : NodeId) : Marks w (World.markDependents env levels mark w n) := by
  induction levels generalizing mark w n with
  | zero => exact .refl
  | succ levels ih => exact marks_foldl (marks_deliverMark (ih .check) mark) _ w

theorem marks_trigger (env : Enumeration) (w : World V) (n : NodeId) :
    Marks (w.bumpVersion n) (w.trigger env n) := marks_markDependents env _ _ _ n

theorem State.rank_le_raise (s : State) (mark : Mark) : s.rank ≤ (s.raise mark).rank := by
  unfold State.raise
  split <;> omega

theorem State.mark_le_raise (s : State) (mark : Mark) : mark.toState.rank ≤ (s.raise mark).rank := by
  unfold State.raise
  split <;> omega

theorem Mark.rank_pos (mark : Mark) : 0 < mark.toState.rank := by cases mark <;> decide

theorem State.rank_pos_iff (s : State) : 0 < s.rank ↔ s ≠ .clean := by cases s <;> decide

section Schedule

variable (w : World V) (e : NodeId)

/-- A pending run is recorded in the effect, and in the lane or the queue. -/
theorem scheduleEffect_of_idle {x : EffectInner V} (hx : w.effects e = some x)
    (hd : x.disposed = false) (hs : x.scheduled = false) : w.scheduleEffect e =
      { w with
        effects := Function.update w.effects e (some { x with scheduled := true })
        queuedEffects := w.queuedEffects + 1
        flush := if x.external then w.flush else w.flush.schedule (.effect e)
        lane := if x.external then w.lane ++ [e] else w.lane } := by
  unfold World.scheduleEffect
  cases he : x.external <;>
    simp [World.latch, World.modifyEffect, World.schedule, hx, hd, hs, he]

theorem scheduleEffect_of_busy {x : EffectInner V} (hx : w.effects e = some x)
    (h : (x.disposed || x.scheduled) = true) : w.scheduleEffect e = w := by
  unfold World.scheduleEffect
  simp only [hx, h, if_true]

theorem scheduleEffect_of_none (hx : w.effects e = none) : w.scheduleEffect e = w := by
  unfold World.scheduleEffect
  simp only [hx]

theorem update_map_id {α : Type} (f : ℕ → Option α) (i : ℕ) (g : α → α)
    (h : ∀ x, f i = some x → g x = x) : Function.update f i ((f i).map g) = f := by
  rw [Function.update_eq_self_iff]
  cases hx : f i with
  | none => rfl
  | some x => rw [Option.map_some, h x hx]

theorem effects_scheduleEffect : (w.scheduleEffect e).effects =
    Function.update w.effects e
      ((w.effects e).map fun x => { x with scheduled := x.scheduled || !x.disposed }) := by
  cases hx : w.effects e with
  | none =>
    rw [scheduleEffect_of_none w e hx, Option.map_none, ← hx, Function.update_eq_self]
  | some x =>
    by_cases h : (x.disposed || x.scheduled) = true
    · rw [scheduleEffect_of_busy w e hx h, ← hx, update_map_id]
      intro y hy
      rw [hx] at hy
      cases hy
      have : (x.scheduled || !x.disposed) = x.scheduled := by cases hd : x.disposed <;> simp_all
      rw [this]
    · simp only [Bool.or_eq_true, not_or, Bool.not_eq_true] at h
      rw [scheduleEffect_of_idle w e hx h.1 h.2]
      simp [h.1]

/-- What a mark does to an effect: a live one is left with a pending run. -/
def EffectInner.marked (mark : Mark) (x : EffectInner V) : EffectInner V :=
  { x with state := x.state.raise mark, scheduled := x.scheduled || !x.disposed }

theorem effects_markEffect (mark : Mark) : (w.markEffect e mark).effects =
    Function.update w.effects e ((w.effects e).map (EffectInner.marked mark)) := by
  unfold World.markEffect
  rw [effects_scheduleEffect]
  unfold World.modifyEffect EffectInner.marked
  cases w.effects e <;> simp

theorem scheduleEffect_frame : w.scheduleEffect e =
    { w with
      effects := (w.scheduleEffect e).effects
      queuedEffects := (w.scheduleEffect e).queuedEffects
      flush := (w.scheduleEffect e).flush
      lane := (w.scheduleEffect e).lane } := by
  unfold World.scheduleEffect
  split
  · rfl
  · split
    · rfl
    · split <;> rfl

theorem mem_lane_scheduleEffect {i : NodeId} (h : i ∈ (w.scheduleEffect e).lane) :
    i ∈ w.lane ∨ i = e ∧ ∃ x, (w.scheduleEffect e).effects e = some x ∧ x.scheduled = true := by
  rw [effects_scheduleEffect, Function.update_self]
  cases hx : w.effects e with
  | none => rw [scheduleEffect_of_none w e hx] at h; exact .inl h
  | some x =>
    by_cases hb : (x.disposed || x.scheduled) = true
    · rw [scheduleEffect_of_busy w e hx hb] at h
      exact .inl h
    · simp only [Bool.or_eq_true, not_or, Bool.not_eq_true] at hb
      rw [scheduleEffect_of_idle w e hx hb.1 hb.2] at h
      by_cases he : x.external = true
      · simp only [he, if_true, List.mem_append, List.mem_singleton] at h
        exact h.imp id fun hi => ⟨hi, _, rfl, by simp [hb.1]⟩
      · simp only [he, Bool.false_eq_true, if_false] at h
        exact .inl h

theorem effects_unlatch : (w.unlatch e).effects =
    Function.update w.effects e ((w.effects e).map fun x => { x with scheduled := false }) := by
  unfold World.unlatch
  cases hx : w.effects e with
  | none =>
    dsimp only
    rw [Option.map_none, ← hx, Function.update_eq_self]
  | some x =>
    dsimp only
    by_cases hs : x.scheduled = true
    · rw [if_pos hs]
      unfold World.modifyEffect
      rw [hx]
    · rw [if_neg hs, ← hx, update_map_id]
      intro y hy
      rw [hx] at hy
      cases hy
      cases x
      simp_all

theorem unlatch_frame : w.unlatch e =
    { w with effects := (w.unlatch e).effects, queuedEffects := (w.unlatch e).queuedEffects } := by
  unfold World.unlatch
  split
  · rfl
  · split <;> rfl

end Schedule

/-- The state of a computed node went up at most. -/
def ComputedInner.Raised (x y : ComputedInner V) : Prop :=
  y = { x with state := y.state } ∧ x.state.rank ≤ y.state.rank

/-- The state of an effect went up at most, and its latch was set at most. -/
def EffectInner.Raised (x y : EffectInner V) : Prop :=
  y = { x with state := y.state, scheduled := y.scheduled } ∧ x.state.rank ≤ y.state.rank ∧
    (x.scheduled = true → y.scheduled = true)

structure World.Raised (w w' : World V) : Prop where
  frame : w' = { w with
    computed := w'.computed, effects := w'.effects, flush := w'.flush, lane := w'.lane
    queuedEffects := w'.queuedEffects }
  computed : ∀ n, Option.Rel ComputedInner.Raised (w.computed n) (w'.computed n)
  effects : ∀ e, Option.Rel EffectInner.Raised (w.effects e) (w'.effects e)
  lane : ∀ e ∈ w'.lane, e ∈ w.lane ∨ ∃ x, w'.effects e = some x ∧ x.scheduled = true

theorem ComputedInner.Raised.refl (x : ComputedInner V) : x.Raised x := ⟨rfl, le_refl _⟩

theorem EffectInner.Raised.refl (x : EffectInner V) : x.Raised x := ⟨rfl, le_refl _, id⟩

theorem rel_refl {α : Type} {R : α → α → Prop} (h : ∀ x, R x x) (x : Option α) :
    Option.Rel R x x := by
  cases x with
  | none => exact .none
  | some x => exact .some (h x)

theorem rel_trans {α : Type} {R : α → α → Prop} (h : ∀ x y z, R x y → R y z → R x z)
    {x y z : Option α} (hxy : Option.Rel R x y) (hyz : Option.Rel R y z) : Option.Rel R x z := by
  cases hxy with
  | none => exact hyz
  | some hxy =>
    cases hyz with
    | some hyz => exact .some (h _ _ _ hxy hyz)

theorem rel_left {α : Type} {R : α → α → Prop} {x : α} {a : Option α}
    (h : Option.Rel R (some x) a) : ∃ y, a = some y ∧ R x y := by
  cases h with
  | some h => exact ⟨_, rfl, h⟩

theorem rel_right {α : Type} {R : α → α → Prop} {y : α} {a : Option α}
    (h : Option.Rel R a (some y)) : ∃ x, a = some x ∧ R x y := by
  cases h with
  | some h => exact ⟨_, rfl, h⟩

theorem rel_none {α : Type} {R : α → α → Prop} {a : Option α} (h : Option.Rel R none a) :
    a = none := by
  cases h
  rfl

theorem World.Raised.refl (w : World V) : w.Raised w :=
  ⟨rfl, fun _ => rel_refl ComputedInner.Raised.refl _, fun _ => rel_refl EffectInner.Raised.refl _,
    fun _ h => .inl h⟩

theorem World.Raised.trans {a b c : World V} (h : a.Raised b) (h' : b.Raised c) : a.Raised c := by
  refine ⟨?_, fun n => ?_, fun e => ?_, fun e he => ?_⟩
  · rw [h'.frame, h.frame]
  · refine rel_trans (fun x y z hxy hyz => ?_) (h.computed n) (h'.computed n)
    exact ⟨by rw [hyz.1, hxy.1], hxy.2.trans hyz.2⟩
  · refine rel_trans (fun x y z hxy hyz => ?_) (h.effects e) (h'.effects e)
    exact ⟨by rw [hyz.1, hxy.1], hxy.2.1.trans hyz.2.1, fun hs => hyz.2.2 (hxy.2.2 hs)⟩
  · rcases h'.lane e he with hb | hb
    · refine (h.lane e hb).imp id fun ⟨x, hx, hs⟩ => ?_
      obtain ⟨y, hy, hxy⟩ := rel_left (hx ▸ h'.effects e)
      exact ⟨y, hy, hxy.2.2 hs⟩
    · exact .inr hb

theorem World.Raised.scheduleEffect (w : World V) (e : NodeId) : w.Raised (w.scheduleEffect e) := by
  refine ⟨?_, fun n => ?_, fun i => ?_, fun i hi => ?_⟩
  · rw [scheduleEffect_frame]
  · rw [scheduleEffect_frame]
    exact rel_refl ComputedInner.Raised.refl _
  · rw [effects_scheduleEffect]
    by_cases hi : i = e
    · subst hi
      rw [Function.update_self]
      cases w.effects i with
      | none => exact .none
      | some x => exact .some ⟨rfl, le_refl _, fun hs => by simp [hs]⟩
    · rw [Function.update_of_ne hi]
      exact rel_refl EffectInner.Raised.refl _
  · refine (mem_lane_scheduleEffect w e hi).imp id ?_
    rintro ⟨rfl, h⟩
    exact h

theorem World.Raised.markStep {w w' : World V} (h : MarkStep w w') : w.Raised w' := by
  cases h with
  | computed n x mark hx lt =>
    refine ⟨rfl, fun m => ?_, fun _ => rel_refl EffectInner.Raised.refl _, fun _ h => .inl h⟩
    unfold World.setState World.modifyComputed
    by_cases hm : m = n
    · subst hm
      simp only [Function.update_self, hx, Option.map_some]
      exact .some ⟨rfl, lt.le⟩
    · simp only [Function.update_of_ne hm]
      exact rel_refl ComputedInner.Raised.refl _
  | effect e mark hc =>
    refine World.Raised.trans ?_ (World.Raised.scheduleEffect _ e)
    refine ⟨rfl, fun _ => rel_refl ComputedInner.Raised.refl _, fun i => ?_, fun _ h => .inl h⟩
    unfold World.modifyEffect
    by_cases hi : i = e
    · subst hi
      simp only [Function.update_self]
      cases w.effects i with
      | none => exact .none
      | some x => exact .some ⟨rfl, State.rank_le_raise _ _, id⟩
    · simp only [Function.update_of_ne hi]
      exact rel_refl EffectInner.Raised.refl _

theorem Marks.raised {w w' : World V} (h : Marks w w') : w.Raised w' := by
  induction h with
  | refl => exact .refl w
  | tail _ step ih => exact ih.trans (.markStep step)

section Reach

/-- A computed node whose dependencies have not been reported stale. -/
def World.isClean (w : World V) (n : NodeId) : Bool :=
  (w.computed n).any fun x => x.state = .clean

/-- Whether the mark has arrived: a live effect also has a pending run. -/
def World.Delivered (mark : Mark) (w : World V) (d : NodeId) : Prop :=
  match w.computed d with
  | some x => mark.toState.rank ≤ x.state.rank
  | none => ∀ x, w.effects d = some x →
      mark.toState.rank ≤ x.state.rank ∧ (x.disposed = false → x.scheduled = true)

theorem isClean_iff {w : World V} {n : NodeId} :
    w.isClean n = true ↔ ∃ x, w.computed n = some x ∧ x.state = .clean := by
  unfold World.isClean
  cases w.computed n <;> simp

variable {w w' : World V} {mark : Mark}

theorem World.Raised.isClean (h : w.Raised w') {n : NodeId} (hn : w'.isClean n = true) :
    w.isClean n = true := by
  rw [isClean_iff] at hn ⊢
  obtain ⟨y, hy, hc⟩ := hn
  obtain ⟨x, hx, hxy⟩ := rel_right (hy ▸ h.computed n)
  refine ⟨x, hx, ?_⟩
  have hle := hxy.2
  rw [hc] at hle
  by_contra hs
  exact absurd ((State.rank_pos_iff _).mpr hs) (Nat.not_lt.mpr hle)

theorem World.Raised.delivered (h : w.Raised w') {d : NodeId} (hd : w.Delivered mark d) :
    w'.Delivered mark d := by
  unfold World.Delivered at hd ⊢
  have hc := h.computed d
  cases hx : w.computed d with
  | some x =>
    rw [hx] at hd hc
    obtain ⟨y, hy, hxy⟩ := rel_left hc
    rw [hy]
    exact hd.trans hxy.2
  | none =>
    rw [hx] at hd hc
    rw [rel_none hc]
    intro y hye
    obtain ⟨x, hxe, hxy⟩ := rel_right (hye ▸ h.effects d)
    obtain ⟨h1, h2⟩ := hd x hxe
    refine ⟨h1.trans hxy.2.1, fun hl => hxy.2.2 (h2 ?_)⟩
    rw [hxy.1] at hl
    exact hl

theorem delivered_of_le (h : mark.toState.rank ≤ Mark.dirty.toState.rank) {d : NodeId}
    (hd : w.Delivered .dirty d) : w.Delivered mark d := by
  unfold World.Delivered at hd ⊢
  cases hx : w.computed d with
  | some x => rw [hx] at hd; exact h.trans hd
  | none => rw [hx] at hd; exact fun x hxe => ⟨h.trans (hd x hxe).1, (hd x hxe).2⟩

def World.cleanCount (w : World V) : ℕ :=
  ((Finset.range w.graph.nextNode).filter fun n => w.isClean n).card

theorem cleanCount_le (w : World V) : w.cleanCount ≤ w.graph.nextNode := by
  unfold World.cleanCount
  exact (Finset.card_filter_le _ _).trans (by simp)

theorem World.Raised.graph (h : w.Raised w') : w'.graph = w.graph := by rw [h.frame]

theorem World.Raised.cleanCount (h : w.Raised w') : w'.cleanCount ≤ w.cleanCount := by
  unfold World.cleanCount
  rw [h.graph]
  refine Finset.card_le_card fun n hn => ?_
  rw [Finset.mem_filter] at hn ⊢
  exact ⟨hn.1, h.isClean hn.2⟩

theorem World.Raised.cleanCount_lt (h : w.Raised w') {n : NodeId} (below : n < w.graph.nextNode)
    (hn : w.isClean n = true) (hn' : w'.isClean n = false) : w'.cleanCount < w.cleanCount := by
  unfold World.cleanCount
  rw [h.graph]
  refine Finset.card_lt_card ⟨fun m hm => ?_, fun hsub => ?_⟩
  · rw [Finset.mem_filter] at hm ⊢
    exact ⟨hm.1, h.isClean hm.2⟩
  · have := hsub (Finset.mem_filter.mpr ⟨Finset.mem_range.mpr below, hn⟩)
    rw [Finset.mem_filter, hn'] at this
    exact absurd this.2 (by decide)

end Reach

section Completeness

variable {w w' : World V} {mark : Mark}

/-- Every registered observer of a node in `P` has received the mark. -/
def World.Told (mark : Mark) (w : World V) (n : NodeId) : Prop :=
  ∀ d ∈ w.graph.observersOf n, d ∈ w.graph.observers → w.Delivered mark d

/-- Whatever was turned stale on the way has told its observers. -/
def World.Spread (w w' : World V) : Prop :=
  ∀ m, w.isClean m = true → w'.isClean m = false → w'.Told .check m

theorem World.Raised.told (h : w.Raised w') {n : NodeId} (hn : w.Told mark n) : w'.Told mark n := by
  unfold World.Told
  rw [h.graph]
  exact fun d hd hr => h.delivered (hn d hd hr)

theorem World.Spread.refl (w : World V) : w.Spread w :=
  fun m h h' => absurd (h.symm.trans h') (by decide)

theorem World.Spread.trans {a b c : World V} (h : a.Spread b) (h' : b.Spread c)
    (hr : b.Raised c) : a.Spread c := by
  intro m ha hc
  cases hb : b.isClean m with
  | true => exact h' m hb hc
  | false => exact hr.told (h m ha hb)

theorem delivered_markEffect (w : World V) (e : NodeId) (mark : Mark) (hc : w.computed e = none) :
    (w.markEffect e mark).Delivered mark e := by
  have hr : w.Raised (w.markEffect e mark) := .markStep (.effect w e mark hc)
  have hc' : (w.markEffect e mark).computed e = none := rel_none (hc ▸ hr.computed e)
  unfold World.Delivered
  rw [hc']
  intro x hx
  rw [effects_markEffect, Function.update_self, Option.map_eq_some_iff] at hx
  obtain ⟨y, _, rfl⟩ := hx
  exact ⟨State.mark_le_raise _ _, fun hd => by simp [EffectInner.marked] at hd ⊢; simp [hd]⟩

theorem delivered_setState (w : World V) (d : NodeId) (mark : Mark) {x : ComputedInner V}
    (hx : w.computed d = some x) : (w.setState d mark.toState).Delivered mark d := by
  unfold World.Delivered World.setState World.modifyComputed
  simp only [hx, Function.update_self, Option.map_some]
  exact le_refl _

/-- Every clean computed node has an id that was given out. -/
def World.Below (w : World V) : Prop := ∀ m, w.isClean m = true → m < w.graph.nextNode

theorem World.Raised.below (h : w.Raised w') (hb : w.Below) : w'.Below := by
  intro m hm
  rw [h.graph]
  exact hb m (h.isClean hm)

/-- The marking that starts at a node reaches all it can reach, given enough levels. -/
structure World.Complete (mark : Mark) (w w' : World V) (n : NodeId) : Prop where
  told : w'.Told mark n
  spread : w.Spread w'

variable {levels : ℕ} {next : World V → NodeId → World V}

theorem spread_deliverMark (mark : Mark) (hm : ∀ w n, Marks w (next w n))
    (hn : ∀ w n, w.cleanCount < levels → w.Below → World.Complete .check w (next w n) n)
    (hw : w.cleanCount ≤ levels) (below : w.Below) (d : NodeId) :
    w.Spread (World.deliverMark next mark w d) ∧
      (d ∈ w.graph.observers → (World.deliverMark next mark w d).Delivered mark d) := by
  unfold World.deliverMark
  split
  · split
    · rename_i x hx
      unfold World.markComputed
      split
      · rename_i lt
        have hr : w.Raised (w.setState d mark.toState) := .markStep (.computed w d x mark hx lt)
        have hd := delivered_setState w d mark hx
        have hstale : (w.setState d mark.toState).isClean d = false := by
          have := mark.rank_pos
          unfold World.isClean World.setState World.modifyComputed
          simp only [hx, Function.update_self, Option.map_some, Option.any_some,
            decide_eq_false_iff_not]
          exact (State.rank_pos_iff _).mp this
        have hother : ∀ m, m ≠ d → (w.setState d mark.toState).isClean m = w.isClean m := by
          intro m hmd
          unfold World.isClean World.setState World.modifyComputed
          simp only [Function.update_of_ne hmd]
        split
        · rename_i hclean
          have hcl : w.isClean d = true := isClean_iff.mpr ⟨x, hx, hclean⟩
          have hlt := hr.cleanCount_lt (below d hcl) hcl hstale
          have hnext := hn (w.setState d mark.toState) d (hlt.trans_le hw) (hr.below below)
          have hnr : (w.setState d mark.toState).Raised _ := (hm (w.setState d mark.toState) d).raised
          refine ⟨fun m h1 h2 => ?_, fun _ => hnr.delivered hd⟩
          by_cases hmd : m = d
          · subst hmd
            exact hnext.told
          · exact hnext.spread m ((hother m hmd).trans h1) h2
        · rename_i hclean
          refine ⟨fun m h1 h2 => ?_, fun _ => hd⟩
          by_cases hmd : m = d
          · subst hmd
            obtain ⟨y, hy, hc⟩ := isClean_iff.mp h1
            rw [hx] at hy
            cases hy
            exact absurd hc hclean
          · rw [hother m hmd, h1] at h2
            exact absurd h2 (by decide)
      · rename_i hge
        refine ⟨.refl w, fun _ => ?_⟩
        unfold World.Delivered
        rw [hx]
        exact Nat.not_lt.mp hge
    · rename_i hc
      refine ⟨fun m h1 h2 => ?_, fun _ => delivered_markEffect w d mark hc⟩
      have heq : (w.markEffect d mark).computed = w.computed := by
        unfold World.markEffect
        rw [scheduleEffect_frame]
        rfl
      unfold World.isClean at h1 h2
      rw [heq, h1] at h2
      exact absurd h2 (by decide)
  · rename_i hreg
    rw [unregister_of_notMem _ _ hreg]
    exact ⟨.refl w, fun h => absurd h hreg⟩

theorem spread_foldl (mark : Mark) (hm : ∀ w n, Marks w (next w n))
    (hn : ∀ w n, w.cleanCount < levels → w.Below → World.Complete .check w (next w n) n)
    (l : List NodeId) (w : World V) (hw : w.cleanCount ≤ levels) (below : w.Below) :
    w.Spread (l.foldl (World.deliverMark next mark) w) ∧
      ∀ d ∈ l, d ∈ w.graph.observers → (l.foldl (World.deliverMark next mark) w).Delivered mark d := by
  induction l generalizing w with
  | nil => exact ⟨.refl w, fun d hd => absurd hd (by simp)⟩
  | cons d l ih =>
    have hstep : w.Raised (World.deliverMark next mark w d) := (marks_deliverMark hm mark w d).raised
    have hrest : World.Raised _ (l.foldl (World.deliverMark next mark) (World.deliverMark next mark w d)) :=
      (marks_foldl (marks_deliverMark hm mark) l _).raised
    obtain ⟨s1, d1⟩ := spread_deliverMark mark hm hn hw below d
    obtain ⟨s2, d2⟩ := ih _ (hstep.cleanCount.trans hw) (hstep.below below)
    rw [hstep.graph] at d2
    refine ⟨s1.trans s2 hrest, fun i hi hreg => ?_⟩
    rcases List.mem_cons.mp hi with rfl | hi
    · exact hrest.delivered (d1 hreg)
    · exact d2 i hi hreg

theorem complete_markDependents (env : Enumeration) (levels : ℕ) (mark : Mark) (w : World V)
    (n : NodeId) (hw : w.cleanCount < levels) (below : w.Below) :
    World.Complete mark w (World.markDependents env levels mark w n) n := by
  induction levels generalizing mark w n with
  | zero => exact absurd hw (Nat.not_lt_zero _)
  | succ levels ih =>
    obtain ⟨hs, hd⟩ := spread_foldl mark (marks_markDependents env levels .check)
      (fun u m hu hb => ih .check u m hu hb)
      (env.order w.graph (w.graph.observersOf n).keys) w (Nat.le_of_lt_succ hw) below
    refine ⟨?_, hs⟩
    unfold World.Told
    rw [(marks_markDependents env (levels + 1) mark w n).raised.graph]
    intro d hmem hreg
    refine hd d ?_ hreg
    rw [(env.perm _ _).mem_iff]
    exact AList.mem_keys.mp hmem

@[simp] theorem computed_bumpVersion (w : World V) (n : NodeId) :
    (w.bumpVersion n).computed = w.computed := rfl

/-- After a write every observer is dirty, and nothing clean is behind anything stale. -/
theorem complete_trigger (env : Enumeration) (w : World V) (n : NodeId) (below : w.Below) :
    World.Complete .dirty (w.bumpVersion n) (w.trigger env n) n := by
  have hb : (w.bumpVersion n).Below := by
    intro m hm
    change m < (w.graph.bumpVersion n).nextNode
    rw [Graph.nextNode_bumpVersion]
    exact below m hm
  refine complete_markDependents env _ _ _ n ?_ hb
  refine (cleanCount_le _).trans_lt ?_
  change (w.graph.bumpVersion n).nextNode < _
  rw [Graph.nextNode_bumpVersion]
  exact Nat.lt_succ_self _

end Completeness

section Soundness

/-- A chain of recorded edges from `n` to `o` whose inner nodes are clean. -/
inductive World.CleanPath (w : World V) : NodeId → NodeId → Prop where
  | edge {n o : NodeId} (h : o ∈ w.graph.observersOf n) : CleanPath w n o
  | through {n m o : NodeId} (h : m ∈ w.graph.observersOf n) (clean : w.isClean m = true)
      (rest : CleanPath w m o) : CleanPath w n o

theorem World.CleanPath.raised {w w' : World V} (h : w.Raised w') {n o : NodeId}
    (p : w'.CleanPath n o) : w.CleanPath n o := by
  induction p with
  | edge ho => exact .edge (h.graph ▸ ho)
  | through hm hc _ ih => exact .through (h.graph ▸ hm) (h.isClean hc) ih

variable {next : World V → NodeId → World V} {mark : Mark}

/-- An effect that a delivery touches is its target, or lies behind it. -/
theorem sound_deliverMark
    (hn : ∀ w n e, (next w n).effects e ≠ w.effects e → w.CleanPath n e) (w : World V)
    (d e : NodeId) (h : (World.deliverMark next mark w d).effects e ≠ w.effects e) :
    e = d ∨ w.isClean d = true ∧ w.CleanPath d e := by
  unfold World.deliverMark at h
  split at h
  · split at h
    · rename_i x hx
      unfold World.markComputed at h
      split at h
      · rename_i lt
        split at h
        · rename_i hclean
          have hr : w.Raised (w.setState d mark.toState) := .markStep (.computed w d x mark hx lt)
          exact .inr ⟨isClean_iff.mpr ⟨x, hx, hclean⟩, (hn _ d e h).raised hr⟩
        · exact absurd rfl h
      · exact absurd rfl h
    · rw [effects_markEffect] at h
      by_contra hne
      rw [not_or] at hne
      rw [Function.update_of_ne hne.1] at h
      exact h rfl
  · exact absurd rfl h

theorem sound_foldl (hm : ∀ w n, Marks w (next w n))
    (hn : ∀ w n e, (next w n).effects e ≠ w.effects e → w.CleanPath n e) (l : List NodeId)
    (w : World V) (e : NodeId)
    (h : (l.foldl (World.deliverMark next mark) w).effects e ≠ w.effects e) :
    ∃ d ∈ l, e = d ∨ w.isClean d = true ∧ w.CleanPath d e := by
  induction l generalizing w with
  | nil => exact absurd rfl h
  | cons d l ih =>
    have hr : w.Raised (World.deliverMark next mark w d) := (marks_deliverMark hm mark w d).raised
    by_cases hd : (World.deliverMark next mark w d).effects e = w.effects e
    · rw [List.foldl_cons, ← hd] at h
      obtain ⟨i, hi, hp⟩ := ih _ h
      exact ⟨i, by simp [hi], hp.imp id fun hc => ⟨hr.isClean hc.1, hc.2.raised hr⟩⟩
    · exact ⟨d, by simp, sound_deliverMark hn w d e hd⟩

theorem sound_markDependents (env : Enumeration) (levels : ℕ) (mark : Mark) (w : World V)
    (n e : NodeId) (h : (World.markDependents env levels mark w n).effects e ≠ w.effects e) :
    w.CleanPath n e := by
  induction levels generalizing mark w n e with
  | zero => exact absurd rfl h
  | succ levels ih =>
    obtain ⟨d, hd, hp⟩ := sound_foldl (marks_markDependents env levels .check)
      (fun u m i hu => ih .check u m i hu) _ w e h
    rw [(env.perm _ _).mem_iff] at hd
    replace hd := AList.mem_keys.mpr hd
    rcases hp with rfl | ⟨hc, hp⟩
    · exact .edge hd
    · exact .through hd hc hp

end Soundness

end Adaptite

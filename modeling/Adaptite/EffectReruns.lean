import Adaptite.EffectTokens

set_option autoImplicit false

namespace Adaptite

namespace RunFrame

/-- The run window of the effect is open in this frame. -/
def isWindow (e : NodeId) : RunFrame → Bool
  | resetting i _ | body i _ | settling i _ => i = e
  | _ => false

def runs (e : NodeId) : RunFrame → Bool
  | verifying i | starting i | resetting i _ | body i _ | settling i _ => i = e
  | _ => false

/-- A run of an effect is above neither a window of the same effect nor a call that has a
run of it in hand. -/
def Above (f g : RunFrame) : Prop :=
  ∀ e, f.runs e = true → g.isWindow e = false ∧ g.passing e = false

theorem above_of_not_runs {f : RunFrame} (h : ∀ e, f.runs e = false) (g : RunFrame) :
    f.Above g := fun e he => by rw [h e] at he; cases he

theorem isWindow_of_not_runs {f : RunFrame} (h : ∀ e, f.runs e = false) (e : NodeId) :
    f.isWindow e = false := by
  have := h e
  cases f <;> first | rfl | exact this

end RunFrame

/-- What a mark and a run in progress leave of an effect. -/
def EffectCell.core (x : EffectCell) : EffectCell :=
  { x with scheduled := false, registered := true, lastDrainEpoch := none, runsThisDrain := 0 }

/-- The effect is stale, and the flag does not stand for a run of it. -/
def EffectCell.owes (x : EffectCell) : Bool :=
  !x.disposed && !x.external && !x.boundary && x.state ≠ .clean &&
    !(x.rerunAfterCurrent && x.running)

theorem EffectCell.owes_core (x : EffectCell) : x.core.owes = x.owes := rfl

theorem EffectCell.external_of_core {x y : EffectCell} (h : x.core = y.core) :
    x.external = y.external := by
  have : x.core.external = y.core.external := by rw [h]
  exact this

theorem EffectCell.running_of_core {x y : EffectCell} (h : x.core = y.core) :
    x.running = y.running := by
  have : x.core.running = y.core.running := by rw [h]
  exact this

namespace EffectHost

variable {s t u : EffectHost} {e i : NodeId} {f g : RunFrame} {rest : List RunFrame}
  {hand : Option NodeId} {x y : EffectCell} {k : ℕ}

def running (s : EffectHost) (e : NodeId) : Bool :=
  ((s.effects e).map fun x => x.running).getD false

/-- `hand` is the effect whose mark is about to be answered, if any. -/
structure Owed (hand : Option NodeId) (s : EffectHost) : Prop where
  window : ∀ e, s.stack.any (RunFrame.isWindow e) = s.running e
  above : s.stack.Pairwise RunFrame.Above
  held : ∀ f ∈ s.stack, ∀ e, f.runs e = true → s.effects e ≠ none
  lane : ∀ e x, e ∈ s.lane → s.effects e = some x → x.external = true
  owed : ∀ e x, s.effects e = some x → hand ≠ some e → x.owes = true → x.scheduled = true

/-- Calls that belong to no run are made, and latches are set. -/
structure Tame (s t : EffectHost) : Prop where
  stack : ∃ m, t.stack = m ++ s.stack ∧ ∀ f ∈ m, ∀ e, f.runs e = false
  cells : ∀ e, (t.effects e).map EffectCell.core = (s.effects e).map EffectCell.core
  latched : ∀ e, s.latched e = true → t.latched e = true
  lane : ∀ e x, e ∈ t.lane → s.effects e = some x → e ∈ s.lane ∨ x.external = true

section Tame

theorem Tame.refl (s : EffectHost) : s.Tame s :=
  ⟨⟨[], rfl, fun _ hf => by cases hf⟩, fun _ => rfl, fun _ => id, fun _ _ he _ => .inl he⟩

theorem Tame.cell (h : s.Tame t) (hy : t.effects e = some y) :
    ∃ x, s.effects e = some x ∧ x.core = y.core := by
  have := h.cells e
  rw [hy] at this
  exact Option.map_eq_some_iff.mp this.symm

theorem Tame.cell' (h : s.Tame t) (hx : s.effects e = some x) :
    ∃ y, t.effects e = some y ∧ y.core = x.core := by
  have := h.cells e
  rw [hx] at this
  exact Option.map_eq_some_iff.mp this

theorem Tame.trans (h : s.Tame t) (h' : t.Tame u) : s.Tame u := by
  obtain ⟨m, hm, hr⟩ := h.stack
  obtain ⟨m', hm', hr'⟩ := h'.stack
  refine ⟨⟨m' ++ m, by rw [hm', hm, List.append_assoc], fun f hf => ?_⟩,
    fun e => (h'.cells e).trans (h.cells e), fun e he => h'.latched e (h.latched e he),
    fun e x he hx => ?_⟩
  · rcases List.mem_append.mp hf with hf | hf
    · exact hr' f hf
    · exact hr f hf
  · obtain ⟨y, hy, hc⟩ := h.cell' hx
    rcases h'.lane e y he hy with he | he
    · exact h.lane e x he hx
    · exact .inr ((EffectCell.external_of_core hc).symm.trans he)

theorem Tame.running (h : s.Tame t) (e : NodeId) : t.running e = s.running e := by
  unfold EffectHost.running
  cases hx : s.effects e with
  | none =>
    have := h.cells e
    rw [hx] at this
    rw [Option.map_eq_none_iff.mp this]
  | some x =>
    obtain ⟨y, hy, hc⟩ := h.cell' hx
    rw [hy]
    exact EffectCell.running_of_core hc

theorem tame_of_eq (h1 : t.stack = s.stack) (h2 : t.effects = s.effects) (h3 : t.lane = s.lane) :
    s.Tame t :=
  ⟨⟨[], h1, fun _ hf => by cases hf⟩, fun _ => by rw [h2],
    fun e he => by unfold latched at he ⊢; rwa [h2], fun _ _ he _ => .inl (h3 ▸ he)⟩

theorem tame_frame (h1 : t.stack = f :: s.stack) (h2 : t.effects = s.effects)
    (h3 : t.lane = s.lane) (hf : ∀ e, f.runs e = false) : s.Tame t := by
  refine ⟨⟨[f], h1, fun g hg => ?_⟩, fun _ => by rw [h2],
    fun e he => by unfold latched at he ⊢; rwa [h2], fun _ _ he _ => .inl (h3 ▸ he)⟩
  rw [List.mem_singleton.mp hg]
  exact hf

theorem tame_push (hf : ∀ e, f.runs e = false) : s.Tame (s.push f) := tame_frame rfl rfl rfl hf

theorem tame_modify {f : EffectCell → EffectCell} (hc : ∀ x, (f x).core = x.core)
    (hl : ∀ x, x.scheduled = true → (f x).scheduled = true) : s.Tame (s.modify e f) := by
  refine ⟨⟨[], rfl, fun _ hf => by cases hf⟩, fun i => ?_, fun i hi => ?_, fun _ _ he _ => .inl he⟩
  · change (Function.update s.effects e ((s.effects e).map f) i).map _ = _
    by_cases hi : i = e
    · subst hi
      rw [Function.update_self, Option.map_map]
      congr 1
      funext x
      exact hc x
    · rw [Function.update_of_ne hi]
  · unfold EffectHost.latched modify at *
    dsimp only
    by_cases he : i = e
    · subst he
      rw [Function.update_self]
      cases hx : s.effects i with
      | none => rw [hx] at hi; cases hi
      | some x => rw [hx] at hi; exact hl x hi
    · rw [Function.update_of_ne he]
      exact hi

theorem Owed.tame (h : Owed hand s) (ht : s.Tame t) : Owed hand t := by
  obtain ⟨m, hm, hr⟩ := ht.stack
  refine ⟨fun e => ?_, ?_, fun f hf e hr' hn => ?_, fun e y he hy => ?_, fun e y hy hn ho => ?_⟩
  · rw [ht.running, ← h.window, hm, List.any_append]
    have : m.any (RunFrame.isWindow e) = false := by
      refine List.any_eq_false.mpr fun f hf => ?_
      rw [RunFrame.isWindow_of_not_runs (hr f hf) e]
      exact Bool.false_ne_true
    rw [this, Bool.false_or]
  · rw [hm]
    refine List.pairwise_append.mpr ⟨?_, h.above, fun f hf g _ =>
      RunFrame.above_of_not_runs (hr f hf) g⟩
    exact List.Pairwise.imp_of_mem (fun hf _ _ => RunFrame.above_of_not_runs (hr _ hf) _)
      (List.pairwise_of_forall (R := fun _ _ => True) fun _ _ => trivial)
  · rw [hm] at hf
    rcases List.mem_append.mp hf with hf | hf
    · rw [hr f hf e] at hr'
      cases hr'
    · have := ht.cells e
      rw [hn] at this
      exact h.held f hf e hr' (Option.map_eq_none_iff.mp this.symm)
  · obtain ⟨x, hx, hc⟩ := ht.cell hy
    have hext : x.external = y.external := EffectCell.external_of_core hc
    rcases ht.lane e x he hx with he | he
    · exact hext.symm.trans (h.lane e x he hx)
    · exact hext.symm.trans he
  · obtain ⟨x, hx, hc⟩ := ht.cell hy
    have ho' : x.owes = true := by
      rw [← EffectCell.owes_core, hc, EffectCell.owes_core]
      exact ho
    have hl := ht.latched e (by
      unfold latched
      rw [hx]
      exact h.owed e x hx hn ho')
    unfold latched at hl
    rw [hy] at hl
    exact hl

theorem Beside.tame {run : Option NodeId} (h : Beside run s t) : s.Tame t := by
  rcases h.stack with hs | ⟨f, hf, hs⟩
  · exact tame_of_eq hs h.effects h.lane
  · exact tame_frame hs h.effects h.lane fun e => by cases f <;> first | rfl | cases hf

end Tame

section Operations

/-- The mark of the effect is answered: a run of it is outstanding, or it need not run. -/
theorem Owed.answer (h : Owed (some e) s)
    (ha : ∀ x, s.effects e = some x → x.owes = true → x.scheduled = true) : Owed none s := by
  refine ⟨h.window, h.above, h.held, h.lane, fun i x hx _ ho => ?_⟩
  by_cases hi : e = i
  · subst hi
    exact ha x hx ho
  · exact h.owed i x hx (fun hn => hi (Option.some.inj hn)) ho

theorem modify_ne_none {p : EffectCell → EffectCell} (h : s.effects i ≠ none) :
    (s.modify e p).effects i ≠ none := by
  change Function.update s.effects e ((s.effects e).map p) i ≠ none
  by_cases hi : i = e
  · subst hi
    rw [Function.update_self]
    exact fun hn => h (Option.map_eq_none_iff.mp hn)
  · rw [Function.update_of_ne hi]
    exact h

/-- One effect is changed, and stays in or out of its window. -/
theorem Owed.modify (h : Owed hand s) (hh : hand = none ∨ hand = some e)
    {f : EffectCell → EffectCell} (hr : ∀ x, (f x).running = x.running)
    (he : ∀ x, (f x).external = x.external) : Owed (some e) (s.modify e f) := by
  refine ⟨fun i => ?_, h.above, fun g hg i hi => modify_ne_none (h.held g hg i hi),
    fun i y hi hy => ?_, fun i y hy hn ho => ?_⟩
  · refine (h.window i).trans ?_
    unfold running EffectHost.modify
    dsimp only
    by_cases hi : i = e
    · subst hi
      rw [Function.update_self, Option.map_map]
      congr 2
      funext x
      exact (hr x).symm
    · rw [Function.update_of_ne hi]
  · rcases modify_eq_some.mp hy with ⟨rfl, x, hx, rfl⟩ | ⟨_, hy⟩
    · exact (he x).trans (h.lane _ x hi hx)
    · exact h.lane i y hi hy
  · rcases modify_eq_some.mp hy with ⟨rfl, x, hx, rfl⟩ | ⟨_, hy⟩
    · exact absurd rfl hn
    · refine h.owed i y hy ?_ ho
      rcases hh with rfl | rfl
      · exact (Option.some_ne_none i).symm
      · exact hn

theorem tame_latch (s : EffectHost) (e : NodeId) : s.Tame (s.latch e) :=
  (tame_modify (f := fun x => { x with scheduled := true }) (fun _ => rfl) fun _ _ => rfl).trans
    (tame_of_eq rfl rfl rfl)

theorem tame_handling : Handling Tame where
  refl := .refl
  trans := .trans
  call _ f hf := tame_push fun e => by cases f <;> first | rfl | cases hf
  latch := tame_latch
  lane s e x hx hext := by
    refine ⟨⟨[], rfl, fun _ hf => by cases hf⟩, fun _ => rfl, fun _ => id, fun i y hi hy => ?_⟩
    rcases List.mem_append.mp hi with hi | hi
    · exact .inl hi
    · rw [List.mem_singleton.mp hi, hx] at hy
      cases hy
      exact .inr hext
  job _ _ := tame_of_eq rfl rfl rfl

theorem latched_latch (hx : s.effects e = some x) : (s.latch e).latched e = true := by
  unfold latched latch modify
  dsimp only
  rw [Function.update_self, hx]
  rfl

theorem schedule_answers (s : EffectHost) (e : NodeId) :
    (s.schedule e).latched e = true ∨ s.live e = false := by
  have ht := tame_handling.schedule s e
  unfold EffectHost.schedule at ht ⊢
  cases hx : s.effects e with
  | none => exact .inr (by unfold live; rw [hx]; rfl)
  | some x =>
    rw [hx] at ht
    dsimp only at ht ⊢
    split
    · rename_i hskip
      rw [if_pos hskip] at ht
      rcases Bool.or_eq_true_iff.mp hskip with hd | hs
      · right
        unfold live
        rw [hx]
        simp [hd]
      · left
        refine ht.latched e ?_
        unfold latched
        rw [hx]
        exact hs
    · left
      split
      · exact latched_latch hx
      · exact (tame_handling.handOver (s.latch e) e).latched e (latched_latch hx)

theorem Owed.schedule (h : Owed hand s) (hh : hand = none ∨ hand = some e) :
    Owed none (s.schedule e) := by
  have ht := tame_handling.schedule s e
  have ha := schedule_answers s e
  have h' := h.tame ht
  rcases hh with rfl | rfl
  · exact h'
  · refine h'.answer fun y hy ho => ?_
    rcases ha with ha | ha
    · unfold latched at ha
      rw [hy] at ha
      exact ha
    · obtain ⟨x, hx, hc⟩ := ht.cell hy
      rw [← EffectCell.owes_core, ← hc, EffectCell.owes_core] at ho
      unfold live at ha
      rw [hx] at ha
      have hd : x.disposed = true := by simpa using ha
      unfold EffectCell.owes at ho
      rw [hd] at ho
      cases ho

theorem Owed.raise (h : Owed none s) (e : NodeId) (mark : Mark) : Owed none (s.raise e mark) :=
  (h.modify (f := fun x => { x with state := x.state.raise mark }) (.inl rfl) (fun _ => rfl)
    fun _ => rfl).schedule (.inr rfl)

theorem Owed.deliverMark (h : Owed none s) (e : NodeId) (mark : Mark) :
    Owed none (s.deliverMark e mark) := by
  unfold EffectHost.deliverMark
  split
  · exact h
  · split
    · exact h.tame (tame_push fun _ => rfl)
    · exact h.raise e mark

/-- A latch may be given back for an effect that owes no run. -/
theorem Owed.unlatch (h : Owed hand s) (hh : hand = none ∨ hand = some e) :
    Owed (some e) (s.unlatch e) := by
  have hweak : Owed (some e) s := by
    refine ⟨h.window, h.above, h.held, h.lane, fun i x hx hn ho => h.owed i x hx ?_ ho⟩
    rcases hh with rfl | rfl
    · exact (Option.some_ne_none i).symm
    · exact hn
  unfold EffectHost.unlatch
  split
  · exact hweak
  · split
    · exact (h.modify (f := fun x => { x with scheduled := false }) hh (fun _ => rfl)
        fun _ => rfl).tame (tame_of_eq rfl rfl rfl)
    · exact hweak

theorem owes_of_dead (hd : s.live e = false) (hx : s.effects e = some x) : x.owes = false := by
  unfold live at hd
  rw [hx] at hd
  have hd : x.disposed = true := by simpa using hd
  unfold EffectCell.owes
  rw [hd]
  rfl

theorem live_unlatch (s : EffectHost) (e i : NodeId) : (s.unlatch e).live i = s.live i := by
  unfold EffectHost.unlatch
  split
  · rfl
  · split
    · exact live_modify (f := fun x => { x with scheduled := false }) fun _ => rfl
    · rfl

theorem Owed.unlatch_dead (h : Owed none s) (hd : s.live e = false) : Owed none (s.unlatch e) :=
  (h.unlatch (.inl rfl)).answer fun x hx ho => by
    rw [owes_of_dead ((live_unlatch s e e).trans hd) hx] at ho
    cases ho

theorem Owed.dispose (h : Owed none s) (e : NodeId) : Owed none (s.dispose e) := by
  unfold EffectHost.dispose
  split
  · exact h
  · split
    · exact h
    · have hk : Owed none (s.modify e fun x => { x with disposed := true }) :=
        (h.modify (f := fun x => { x with disposed := true }) (.inl rfl) (fun _ => rfl)
          fun _ => rfl).answer fun x hx ho => by
            rw [owes_of_dead (live_kill s e) hx] at ho
            cases ho
      dsimp only
      split
      · exact hk.tame (tame_push fun _ => rfl)
      · exact (hk.unlatch_dead (live_kill s e)).tame (tame_push fun _ => rfl)

theorem Owed.pop (h : Owed hand s) (hs : s.stack = f :: rest)
    (hf : ∀ e, f.isWindow e = false) (unwinding : Bool) :
    Owed hand { s with stack := rest, unwinding } := by
  refine ⟨fun e => ?_, ?_, fun g hg => h.held g (by rw [hs]; exact List.mem_cons_of_mem _ hg),
    h.lane, h.owed⟩
  · refine Eq.trans ?_ (h.window e)
    rw [hs, List.any_cons, hf e, Bool.false_or]
  · have := h.above
    rw [hs] at this
    exact (List.pairwise_cons.mp this).2

theorem Owed.swap (h : Owed hand s) (hs : s.stack = f :: rest)
    (hf : ∀ e, f.isWindow e = false) (hg : ∀ e, g.runs e = false) (unwinding : Bool) :
    Owed hand { s with stack := g :: rest, unwinding } :=
  (h.pop hs hf unwinding).tame (tame_frame rfl rfl rfl hg)

end Operations

section Windows

/-- A run of `e` may start here. -/
def Free (s : EffectHost) (e : NodeId) : Prop :=
  ∀ f ∈ s.stack, f.isWindow e = false ∧ f.passing e = false

theorem Owed.free (h : Owed hand s) (hs : s.stack = f :: rest) (hf : f.runs e = true) :
    ∀ g ∈ rest, g.isWindow e = false ∧ g.passing e = false := by
  have := h.above
  rw [hs] at this
  exact fun g hg => (List.pairwise_cons.mp this).1 g hg e hf

theorem Owed.push_run (h : Owed hand s) (hf : ∀ i, f.runs i = decide (e = i))
    (hw : ∀ i, f.isWindow i = false) (free : s.Free e) (hx : s.effects e = some x) :
    Owed hand (s.push f) := by
  refine ⟨fun i => ?_, List.pairwise_cons.mpr ⟨fun g hg i hi => ?_, h.above⟩,
    fun g hg i hi => ?_, h.lane, h.owed⟩
  · refine Eq.trans ?_ (h.window i)
    change (f :: s.stack).any _ = _
    rw [List.any_cons, hw i, Bool.false_or]
  · rw [hf i] at hi
    rw [← of_decide_eq_true hi]
    exact free g hg
  · rcases List.mem_cons.mp hg with rfl | hg
    · rw [hf i] at hi
      rw [← of_decide_eq_true hi]
      exact fun hn => Option.some_ne_none x (hx.symm.trans hn)
    · exact h.held g hg i hi

theorem running_modify {p : EffectCell → EffectCell} (hx : s.effects e = some x) (i : NodeId) :
    (s.modify e p).running i = if i = e then (p x).running else s.running i := by
  unfold running modify
  dsimp only
  by_cases hi : i = e
  · subst hi
    rw [Function.update_self, hx, if_pos rfl]
    rfl
  · rw [Function.update_of_ne hi, if_neg hi]

theorem Owed.openWindow (h : Owed none s) (hx : s.effects e = some x) (free : s.Free e)
    (reported : Bool) : Owed none (s.openWindow e reported) := by
  have hbusy : x.running = false := by
    have hw := h.window e
    have hr : s.running e = x.running := by
      unfold running
      rw [hx]
      rfl
    rw [← hr, ← hw]
    exact List.any_eq_false.mpr fun f hf => by rw [(free f hf).1]; exact Bool.false_ne_true
  refine ⟨fun i => ?_, List.pairwise_cons.mpr ⟨fun g hg i hi => ?_, h.above⟩,
    fun g hg i hi => modify_ne_none ?_, fun i y hi hy => ?_, fun i y hy _ ho => ?_⟩
  · change ((RunFrame.resetting e reported) :: s.stack).any _ =
      (s.modify e fun x => { x with running := true }).running i
    rw [running_modify hx, List.any_cons, h.window i]
    by_cases hi : i = e
    · rw [if_pos hi, hi]
      simp [RunFrame.isWindow]
    · rw [if_neg hi]
      simp [RunFrame.isWindow, Ne.symm hi]
  · have hi : e = i := of_decide_eq_true hi
    rw [← hi]
    exact free g hg
  · rcases List.mem_cons.mp hg with rfl | hg
    · have hi : e = i := of_decide_eq_true hi
      rw [← hi]
      exact fun hn => Option.some_ne_none x (hx.symm.trans hn)
    · exact h.held g hg i hi
  · rcases modify_eq_some.mp hy with ⟨rfl, z, hz, rfl⟩ | ⟨_, hy⟩
    · exact h.lane i z hi hz
    · exact h.lane i y hi hy
  · rcases modify_eq_some.mp hy with ⟨rfl, z, hz, rfl⟩ | ⟨_, hy⟩
    · rw [hx] at hz
      cases hz
      refine h.owed i x hx (Option.some_ne_none i).symm ?_
      unfold EffectCell.owes at ho ⊢
      rw [hbusy, Bool.and_false, Bool.not_false, Bool.and_true]
      exact (Bool.and_eq_true_iff.mp ho).1
    · exact h.owed i y hy (Option.some_ne_none i).symm ho

/-- The flag stands for a run that nothing else stands for. -/
def unqueued (s : EffectHost) (e : NodeId) : Bool :=
  ((s.effects e).map fun x => x.rerunAfterCurrent && !x.scheduled && x.state ≠ .clean &&
    !x.disposed && !x.external && !x.boundary).getD false

theorem Owed.closeWindow (h : Owed none s) (hs : s.stack = f :: rest)
    (hf : ∀ i, f.isWindow i = decide (e = i)) (hr : f.runs e = true)
    (hok : s.unqueued e = false) (reported unwound : Bool) :
    Owed none (s.closeWindow rest e reported unwound) := by
  have hfree := h.free hs hr
  have hclosed : Owed none (({ s with stack := rest, unwinding := unwound } : EffectHost).modify e
      fun x => { x with running := false }) := by
    refine ⟨fun i => ?_, ?_, fun g hg i hi => modify_ne_none ?_, fun i y hi hy => ?_,
      fun i y hy _ ho => ?_⟩
    · change rest.any _ = _
      cases hx : s.effects e with
      | none =>
        have hw := h.window i
        have hsame : (({ s with stack := rest, unwinding := unwound } : EffectHost).modify e
            fun x => { x with running := false }).running i = s.running i := by
          unfold running EffectHost.modify
          dsimp only
          by_cases hi : i = e
          · rw [hi, Function.update_self, hx]
            rfl
          · rw [Function.update_of_ne hi]
        rw [hsame, ← hw, hs, List.any_cons, hf i]
        by_cases hi : e = i
        · have : s.running i = true := by
            rw [← hw, hs, List.any_cons, hf i, decide_eq_true hi]
            rfl
          unfold running at this
          rw [← hi, hx] at this
          cases this
        · rw [decide_eq_false hi, Bool.false_or]
      | some x =>
        rw [running_modify (s := { s with stack := rest, unwinding := unwound }) hx]
        by_cases hi : i = e
        · rw [if_pos hi, hi]
          exact List.any_eq_false.mpr fun g hg => by
            rw [(hfree g hg).1]
            exact Bool.false_ne_true
        · rw [if_neg hi]
          refine Eq.trans ?_ (h.window i)
          rw [hs, List.any_cons, hf i, decide_eq_false (Ne.symm hi), Bool.false_or]
    · have := h.above
      rw [hs] at this
      exact (List.pairwise_cons.mp this).2
    · exact h.held g (by rw [hs]; exact List.mem_cons_of_mem _ hg) i hi
    · rcases modify_eq_some.mp hy with ⟨rfl, z, hz, rfl⟩ | ⟨_, hy⟩
      · exact h.lane i z hi hz
      · exact h.lane i y hi hy
    · rcases modify_eq_some.mp hy with ⟨rfl, z, hz, rfl⟩ | ⟨_, hy⟩
      · by_contra hsched
        have hz : s.effects i = some z := hz
        have hflag : z.rerunAfterCurrent = true := by
          by_contra hflag
          refine hsched (h.owed i z hz (Option.some_ne_none i).symm ?_)
          unfold EffectCell.owes at ho ⊢
          rw [Bool.eq_false_iff.mpr hflag, Bool.false_and, Bool.not_false, Bool.and_true]
          exact (Bool.and_eq_true_iff.mp ho).1
        unfold unqueued at hok
        rw [hz] at hok
        simp only [Option.map_some, Option.getD_some, hflag, Bool.true_and] at hok
        unfold EffectCell.owes at ho
        simp_all
      · exact h.owed i y hy (Option.some_ne_none i).symm ho
  unfold EffectHost.closeWindow
  dsimp only
  split
  · have hfin := hclosed.tame (tame_push (f := .finishing unwound) fun _ => rfl)
    exact hfin.tame (tame_of_eq rfl rfl rfl)
  · exact hclosed

end Windows

section Runs

theorem Owed.attempt (h : Owed none s) (free : s.Free e) : Owed none (s.attempt e) := by
  unfold EffectHost.attempt
  cases hx : s.effects e with
  | none => exact h
  | some x =>
    dsimp only
    have hc : s.Tame { s.modify e fun _ => x.countRun s.flush.drainEpoch with
        attempted := e :: s.attempted } := by
      refine ⟨⟨[], rfl, fun _ hf => by cases hf⟩, fun i => ?_, fun i hi => ?_,
        fun _ _ he _ => .inl he⟩
      · change (Function.update s.effects e _ i).map _ = _
        by_cases hi : i = e
        · subst hi
          rw [Function.update_self, hx]
          rfl
        · rw [Function.update_of_ne hi]
      · unfold latched EffectHost.modify at *
        dsimp only
        by_cases he : i = e
        · subst he
          rw [Function.update_self, hx]
          rw [hx] at hi
          exact hi
        · rw [Function.update_of_ne he]
          exact hi
    have hcount := h.tame hc
    have hcell : (s.modify e fun _ => x.countRun s.flush.drainEpoch).effects e =
        some (x.countRun s.flush.drainEpoch) :=
      modify_eq_some.mpr (.inl ⟨rfl, x, hx, rfl⟩)
    split
    · exact hcount.tame (tame_of_eq rfl rfl rfl)
    · split
      · exact hcount.push_run (fun _ => rfl) (fun _ => rfl) free hcell
      · exact hcount.openWindow hcell free false

theorem Owed.running_cell (h : Owed hand s) (hx : s.effects e = some x)
    (hr : (x.running || s.active e) = true) : x.running = true := by
  rcases Bool.or_eq_true_iff.mp hr with hr | hr
  · exact hr
  · have hw := h.window e
    have hsame : s.running e = x.running := by
      unfold running
      rw [hx]
      rfl
    rw [← hsame, ← hw]
    obtain ⟨f, hf, hb⟩ := List.any_eq_true.mp hr
    refine List.any_eq_true.mpr ⟨f, hf, ?_⟩
    rcases Bool.or_eq_true_iff.mp hb with hb | hb
    · rw [of_decide_eq_true hb]
      exact decide_eq_true rfl
    · rw [of_decide_eq_true hb]
      exact decide_eq_true rfl

theorem Owed.runScheduledInner (h : Owed none s) (ht : Tokened k (some e) s)
    (hx : s.effects e = some x) : Owed none (s.runScheduledInner e x) := by
  have hu : Owed (some e) (s.unlatch e) := h.unlatch (.inl rfl)
  obtain ⟨z, hz, hzx⟩ : ∃ z, (s.unlatch e).effects e = some z ∧
      z = { x with scheduled := false } := by
    unfold EffectHost.unlatch
    rw [hx]
    dsimp only
    split
    · exact ⟨_, modify_eq_some.mpr (.inl ⟨rfl, x, hx, rfl⟩), rfl⟩
    · rename_i hs
      refine ⟨x, hx, ?_⟩
      cases x
      simp_all
  unfold EffectHost.runScheduledInner
  dsimp only
  split
  · rename_i hd
    refine hu.answer fun y hy ho => ?_
    rw [hz] at hy
    cases hy
    rw [hzx] at ho
    unfold EffectCell.owes at ho
    rw [show ({ x with scheduled := false } : EffectCell).disposed = true from hd] at ho
    cases ho
  · rename_i hd
    have hd : x.disposed = false := Bool.eq_false_iff.mpr hd
    split
    · rename_i hbusy
      have hrun : z.running = true := by
        refine hu.running_cell hz ?_
        rw [hzx]
        exact hbusy
      have hm := hu.modify (f := fun x => { x with rerunAfterCurrent := true }) (.inr rfl)
        (fun _ => rfl) fun _ => rfl
      refine hm.answer fun y hy ho => ?_
      rcases modify_eq_some.mp hy with ⟨_, z', hz', rfl⟩ | ⟨hne, _⟩
      · rw [hz] at hz'
        cases hz'
        unfold EffectCell.owes at ho
        rw [show ({ z with rerunAfterCurrent := true } : EffectCell).running = true from hrun] at ho
        simp at ho
      · exact absurd rfl hne
    · rename_i hidle
      have hidle : z.running = false := by
        rw [hzx]
        exact (Bool.or_eq_false_iff.mp (Bool.eq_false_iff.mpr hidle)).1
      have hstack : ((s.unlatch e).modify e fun x => { x with state := .clean }).stack =
          s.stack := by
        unfold EffectHost.unlatch
        rw [hx]
        dsimp only
        split <;> rfl
      have free : ((s.unlatch e).modify e fun x => { x with state := .clean }).Free e := by
        unfold Free
        rw [hstack]
        have hw := hu.window e
        have hsame : (s.unlatch e).running e = z.running := by
          unfold running
          rw [hz]
          rfl
        rw [hsame, hidle, show (s.unlatch e).stack = s.stack from hstack] at hw
        have hclaims : s.claims e = 0 := by
          have := ht.latch e x hx hd
          rw [inHand_some, if_pos rfl] at this
          split at this <;> omega
        have hpass : s.stack.countP (RunFrame.passing e) = 0 :=
          Nat.eq_zero_of_add_eq_zero_left hclaims
        exact fun f hf => ⟨Bool.eq_false_iff.mpr (List.any_eq_false.mp hw f hf),
          Bool.eq_false_iff.mpr (List.countP_eq_zero.mp hpass f hf)⟩
      have hm := hu.modify (f := fun x => { x with state := .clean }) (.inr rfl)
        (fun _ => rfl) fun _ => rfl
      have hclean : Owed none ((s.unlatch e).modify e fun x => { x with state := .clean }) := by
        refine hm.answer fun y hy ho => ?_
        rcases modify_eq_some.mp hy with ⟨_, z', _, rfl⟩ | ⟨hne, _⟩
        · unfold EffectCell.owes at ho
          simp at ho
        · exact absurd rfl hne
      split
      · exact hclean.attempt free
      · exact hclean.push_run (fun _ => rfl) (fun _ => rfl) free
          (modify_eq_some.mpr (.inl ⟨rfl, z, hz, rfl⟩))
      · exact hclean.tame (beside_skip _).tame

theorem Owed.runScheduled (h : Owed none s) (ht : Tokened k (some e) s) :
    Owed none (s.runScheduled e) := by
  unfold EffectHost.runScheduled
  cases hx : s.effects e with
  | none => exact h
  | some x =>
    dsimp only
    split
    · exact (h.tame (tame_push fun _ => rfl)).runScheduledInner (k := k)
        (ht.calm (calm_push rfl)) hx
    · exact h.runScheduledInner ht hx

theorem Owed.ready (h : Owed none s) (ht : Tokened k (some e) s) : Owed none (s.ready e) := by
  obtain ⟨h1, h2, h3, h4⟩ := fresh_same s
  unfold EffectHost.ready
  cases hx : s.effects e with
  | none => exact h
  | some x =>
    dsimp only
    split
    · exact h.runScheduled ht
    · split
      · exact h.tame (beside_beginFlush s (some e)).tame
      · rename_i hd
        refine (h.tame (beside_beginFlush s (some e)).tame).runScheduled (k := k) (ht.calm ?_)
        unfold EffectHost.beginFlush
        rw [Bool.eq_false_iff.mpr hd, Bool.and_false, if_neg Bool.false_ne_true]
        exact calm_frame h1 h2 h3 (pendingJobs_beginFlush s.flush) h4 rfl rfl

theorem Owed.verified (h : Owed none s) (hs : s.stack = .verifying e :: rest) (changed : Bool) :
    Owed none (({ s with stack := rest } : EffectHost).verified e changed) := by
  have hfree := h.free hs (e := e) (decide_eq_true rfl)
  have hp : Owed none { s with stack := rest } := h.pop hs (fun _ => rfl) s.unwinding
  unfold EffectHost.verified
  split
  · exact hp
  · split
    · exact hp
    · split
      · exact hp.attempt hfree
      · exact hp.tame (beside_skip _).tame

theorem Owed.recover (h : Owed none s) (hs : s.stack = f :: rest)
    (hf : ∀ e, f.isWindow e = false) (e : NodeId) : Owed none (s.recover rest e) := by
  have hp : Owed none { s with stack := rest } := h.pop hs hf s.unwinding
  unfold EffectHost.recover
  split
  · exact hp
  · split
    · exact hp
    · have hr : Owed none { s with stack := .recovering :: rest, unwinding := false } :=
        h.swap hs hf (fun _ => rfl) false
      exact (hr.modify (f := fun x => { x with state := .dirty }) (.inl rfl) (fun _ => rfl)
        fun _ => rfl).schedule (.inr rfl)

/-- The body gives way to the end of the run, or the teardown to the body. -/
theorem Owed.advance (h : Owed none s) (hs : s.stack = f :: rest)
    (hf : ∀ i, f.isWindow i = decide (e = i)) (hr : f.runs e = true)
    (hg : ∀ i, g.isWindow i = decide (e = i)) (hg' : ∀ i, g.runs i = decide (e = i)) :
    Owed none { s with stack := g :: rest } := by
  have hfree := h.free hs hr
  refine ⟨fun i => ?_, ?_, fun j hj i hi => ?_, h.lane, h.owed⟩
  · refine Eq.trans ?_ (h.window i)
    rw [hs, List.any_cons, List.any_cons, hf i, hg i]
  · have := h.above
    rw [hs] at this
    refine List.pairwise_cons.mpr ⟨fun j hj i hi => ?_, (List.pairwise_cons.mp this).2⟩
    rw [hg' i] at hi
    rw [← of_decide_eq_true hi]
    exact hfree j hj
  · rcases List.mem_cons.mp hj with rfl | hj
    · rw [hg' i] at hi
      rw [← of_decide_eq_true hi]
      exact h.held f (by rw [hs]; exact List.mem_cons_self) e hr
    · exact h.held j (by rw [hs]; exact List.mem_cons_of_mem _ hj) i hi

theorem Owed.settle (h : Owed none s) (e : NodeId) : Owed none (s.settle e) := by
  unfold EffectHost.settle
  cases hx : s.effects e with
  | none => exact h
  | some x =>
    have hm := h.modify (e := e) (f := fun x => { x with rerunAfterCurrent := false }) (.inl rfl)
      (fun _ => rfl) fun _ => rfl
    dsimp only
    split
    · exact hm.schedule (.inr rfl)
    · rename_i hno
      refine hm.answer fun y hy ho => ?_
      rcases modify_eq_some.mp hy with ⟨_, z, hz, rfl⟩ | ⟨hne, _⟩
      · rw [hx] at hz
        cases hz
        refine h.owed e x hx (Option.some_ne_none e).symm ?_
        unfold EffectCell.owes at ho ⊢
        have hd := (Bool.and_eq_true_iff.mp ho).1
        have hlive : x.disposed = false := by
          cases hd' : x.disposed with
          | false => rfl
          | true => rw [show ({ x with rerunAfterCurrent := false } : EffectCell).disposed = true
              from hd'] at hd; cases hd
        rw [hlive, Bool.not_false, Bool.and_true, Bool.not_eq_true] at hno
        rw [hno, Bool.false_and, Bool.not_false, Bool.and_true]
        exact hd
      · exact absurd rfl hne

end Runs

section Steps

def ends (s : EffectHost) (e : NodeId) : EffectOp → Bool
  | .unwind =>
    match s.stack with
    | .resetting i _ :: _ | .body i _ :: _ | .settling i _ :: _ => i = e
    | _ => false
  | .next =>
    match s.stack with
    | .settling i _ :: _ => i = e
    | _ => false
  | .finish _ =>
    match s.stack with
    | .resetting i _ :: _ => i = e && !s.live e
    | _ => false
  | _ => false

/-- The operation ends a run while only the flag stands for the next one. -/
def forgets (s : EffectHost) : EffectOp → Bool
  | .unwind =>
    match s.stack with
    | .resetting e _ :: _ | .body e _ :: _ | .settling e _ :: _ => s.unqueued e
    | _ => false
  | .next =>
    match s.stack with
    | .settling e _ :: _ => s.unqueued e
    | _ => false
  | _ => false

theorem unqueued_of_dead (hx : s.effects e = some x) (hd : x.disposed = true) :
    s.unqueued e = false := by
  unfold unqueued
  rw [hx]
  simp [hd]

theorem Owed.finish (h : Owed none s) (hT : Tokened k none s) {changed : Bool}
    (ht : s.finish changed = some t) : Owed none t := by
  have plain : ∀ {f : RunFrame} {rest : List RunFrame}, s.stack = f :: rest →
      (∀ e, f.isWindow e = false) → Owed none { s with stack := rest } := fun hs hf =>
    h.pop hs hf s.unwinding
  have swap : ∀ {f g : RunFrame} {rest : List RunFrame}, s.stack = f :: rest →
      (∀ e, f.isWindow e = false) → (∀ e, g.runs e = false) →
      Owed none { s with stack := g :: rest } := fun hs hf hg => h.swap hs hf hg s.unwinding
  unfold EffectHost.finish at ht
  split at ht <;> rename_i hs <;> try (injection ht with ht; subst ht)
  · exact (swap hs (fun _ => rfl) fun _ => rfl).tame (tame_of_eq rfl rfl rfl)
  · exact swap hs (fun _ => rfl) fun _ => rfl
  · exact (plain hs fun _ => rfl).tame (tame_of_eq rfl rfl rfl)
  · exact swap hs (fun _ => rfl) fun _ => rfl
  · exact (swap (g := .external) hs (fun _ => rfl) fun _ => rfl).runScheduled (k := k)
      ((hT.pop hs fun _ => rfl).calm (calm_push (f := .external) rfl))
  · exact (plain hs fun _ => rfl).tame (beside_endFlush s _ false).tame
  · exact (plain hs fun _ => rfl).tame (tame_of_eq rfl rfl rfl)
  · exact (plain hs fun _ => rfl).tame (tame_of_eq rfl rfl rfl)
  · exact (plain hs fun _ => rfl).raise _ _
  · exact (plain hs fun _ => rfl).tame (tame_handling.handOver _ _)
  · exact plain hs fun _ => rfl
  · exact plain hs fun _ => rfl
  · exact plain hs fun _ => rfl
  · exact plain hs fun _ => rfl
  · exact h.verified hs changed
  · rename_i e rest
    have hp := plain hs fun _ => rfl
    cases hx : s.effects e with
    | none =>
      exact absurd hx (h.held (.starting e) (by rw [hs]; exact List.mem_cons_self) e
        (decide_eq_true rfl))
    | some x => exact hp.openWindow hx (h.free hs (decide_eq_true rfl)) true
  · rename_i e reported rest
    unfold EffectHost.afterReset
    cases hx : s.effects e with
    | none => exact h
    | some x =>
      dsimp only
      split
      · rename_i hd
        exact h.closeWindow hs (fun _ => rfl) (decide_eq_true rfl) (unqueued_of_dead hx hd) _ _
      · exact (h.advance (g := .body e reported) hs (fun _ => rfl) (decide_eq_true rfl)
          (fun _ => rfl) fun _ => rfl).tame (tame_of_eq rfl rfl rfl)
  · rename_i e reported rest
    exact (h.advance (g := .settling e reported) hs (fun _ => rfl) (decide_eq_true rfl)
      (fun _ => rfl) fun _ => rfl).settle e
  · rename_i e rest
    have hdead := (hT.doomed e (by rw [hs]; exact List.mem_cons_self)).1
    exact (swap (g := .tearing e) hs (fun _ => rfl) fun _ => rfl).unlatch_dead hdead
  · rename_i e rest
    exact (plain hs fun _ => rfl).tame (tame_modify (fun _ => rfl) fun _ => id)
  · exact (plain hs fun _ => rfl).tame (tame_of_eq rfl rfl rfl)
  · cases ht

theorem Owed.next (h : Owed none s) (hT : Tokened k none s) (hok : s.forgets .next = false)
    (ht : s.next = some t) : Owed none t := by
  unfold EffectHost.next at ht
  split at ht
  · rename_i rest hs
    cases hp : s.flush.popJob with
    | none =>
      simp only [hp] at ht
      cases ht
      exact (h.pop hs (fun _ => rfl) s.unwinding).tame (beside_closeDrain s rest false).tame
    | some r =>
      obtain ⟨job, f⟩ := r
      have hf : Owed none { s with flush := f } := h.tame (tame_of_eq rfl rfl rfl)
      cases job with
      | run e =>
        simp only [hp] at ht
        cases ht
        exact hf.runScheduled (hT.take_job hp)
      | other =>
        simp only [hp] at ht
        cases ht
        exact hf.swap (s := { s with flush := f }) hs (fun _ => rfl) (fun _ => rfl) s.unwinding
  · rename_i hs
    cases ht
    exact h.pop hs (fun _ => rfl) _
  · rename_i hs
    cases ht
    exact h.swap hs (fun _ => rfl) (fun _ => rfl) s.unwinding
  · rename_i hs
    cases ht
    exact h.pop hs (fun _ => rfl) _
  · rename_i hs
    cases ht
    unfold forgets at hok
    simp only [hs] at hok
    exact h.closeWindow hs (fun _ => rfl) (decide_eq_true rfl) hok _ _
  · cases ht

theorem Owed.unwind (h : Owed none s) (hok : s.forgets .unwind = false)
    (ht : s.unwind = some t) : Owed none t := by
  have plain : ∀ {f : RunFrame} {rest : List RunFrame} (unwinding : Bool), s.stack = f :: rest →
      (∀ e, f.isWindow e = false) → Owed none { s with stack := rest, unwinding } :=
    fun unwinding hs hf => h.pop hs hf unwinding
  unfold EffectHost.unwind at ht
  cases hs : s.stack with
  | nil => simp [hs] at ht
  | cons f rest =>
    unfold forgets at hok
    simp only [hs] at ht hok
    cases f
    case flushClosing unwound shielded =>
      cases shielded <;> cases ht
      · exact plain _ hs fun _ => rfl
      · exact (plain unwound hs fun _ => rfl).tame (tame_of_eq rfl rfl rfl)
    case externalOpening =>
      cases ht
      exact (plain s.unwinding hs fun _ => rfl).tame (beside_endFlush s rest true).tame
    case external =>
      cases ht
      exact (plain s.unwinding hs fun _ => rfl).tame (beside_endFlush s rest true).tame
    case draining =>
      cases ht
      exact (plain s.unwinding hs fun _ => rfl).tame (beside_closeDrain s rest true).tame
    case catching e =>
      cases ht
      exact (h.swap (g := .caught) hs (fun _ => rfl) (fun _ => rfl) false).dispose e
    case verifying e => cases ht; exact h.recover hs (fun _ => rfl) e
    case finishing unwound => cases unwound <;> cases ht; exact plain _ hs fun _ => rfl
    case tearing e =>
      cases ht
      exact (plain s.unwinding hs fun _ => rfl).tame (tame_modify (fun _ => rfl) fun _ => id)
    case resetting =>
      cases ht
      exact h.closeWindow hs (fun _ => rfl) (decide_eq_true rfl) hok _ _
    case body =>
      cases ht
      exact h.closeWindow hs (fun _ => rfl) (decide_eq_true rfl) hok _ _
    case settling =>
      cases ht
      exact h.closeWindow hs (fun _ => rfl) (decide_eq_true rfl) hok _ _
    case recovering => cases ht
    case dropping => cases ht
    all_goals cases ht; exact plain _ hs fun _ => rfl

theorem Owed.newEffect (h : Owed none s) (hT : Tokened k none s) (external boundary : Bool) :
    Owed none (s.newEffect external boundary) := by
  obtain ⟨hnone, hzero⟩ := hT.known s.nextNode (le_refl _)
  unfold EffectHost.newEffect
  suffices hnew : Owed (some s.nextNode)
      { s with
        nextNode := s.nextNode + 1
        effects := Function.update s.effects s.nextNode (some { external, boundary }) } from
    hnew.schedule (.inr rfl)
  refine ⟨fun e => ?_, h.above, fun f hf e he hn => ?_, fun e x he hx => ?_,
    fun e x hx hne ho => ?_⟩
  · refine (h.window e).trans ?_
    unfold running
    dsimp only
    by_cases he : e = s.nextNode
    · rw [he, Function.update_self, hnone]
      rfl
    · rw [Function.update_of_ne he]
  · by_cases hi : e = s.nextNode
    · dsimp only at hn
      rw [hi, Function.update_self] at hn
      cases hn
    · dsimp only at hn
      rw [Function.update_of_ne hi] at hn
      exact h.held f hf e he hn
  · have hi : e ≠ s.nextNode := by
      rintro rfl
      have hmem := List.count_pos_iff.mpr he
      rw [inHand_none] at hzero
      unfold claims tokens at hzero
      dsimp only at hmem
      omega
    exact h.lane e x he ((Function.update_of_ne hi _ _).symm.trans hx)
  · have hi : e ≠ s.nextNode := fun hi => hne (by rw [hi])
    exact h.owed e x ((Function.update_of_ne hi _ _).symm.trans hx) (Option.some_ne_none e).symm ho

theorem holds_of_runs {f : RunFrame} (h : f.runs e = true) : f.holds e = true := by
  cases f <;> first | cases h | exact h

theorem isWindow_runs {f : RunFrame} (h : f.isWindow e = true) : f.runs e = true := by
  cases f <;> first | cases h | exact h

theorem Owed.release (h : Owed none s) (hfree : ∀ f ∈ s.stack, f.holds e = false) :
    Owed none { s with effects := Function.update s.effects e none } := by
  refine ⟨fun i => ?_, h.above, fun f hf i hi hn => ?_, fun i x hi hx => ?_,
    fun i x hx _ ho => ?_⟩
  · unfold running
    dsimp only
    by_cases hi : i = e
    · rw [hi, Function.update_self]
      refine List.any_eq_false.mpr fun f hf hw => ?_
      have := hfree f hf
      rw [holds_of_runs (isWindow_runs hw)] at this
      cases this
    · rw [Function.update_of_ne hi]
      exact h.window i
  · have hne : i ≠ e := by
      rintro rfl
      have := hfree f hf
      rw [holds_of_runs hi] at this
      cases this
    exact h.held f hf i hi ((Function.update_of_ne hne _ _).symm.trans hn)
  · by_cases he : i = e
    · dsimp only at hx
      rw [he, Function.update_self] at hx
      cases hx
    · exact h.lane i x hi ((Function.update_of_ne he _ _).symm.trans hx)
  · by_cases he : i = e
    · dsimp only at hx
      rw [he, Function.update_self] at hx
      cases hx
    · exact h.owed i x ((Function.update_of_ne he _ _).symm.trans hx)
        (Option.some_ne_none i).symm ho

theorem Owed.lane_erase (h : Owed none s) (e : NodeId) :
    Owed none { s with lane := s.lane.erase e } :=
  ⟨h.window, h.above, h.held, fun i x hi hx => h.lane i x (List.mem_of_mem_erase hi) hx, h.owed⟩

theorem Owed.step (h : Owed none s) (hT : Tokened k none s) (op : EffectOp)
    (hok : s.forgets op = false) (ht : s.step op = some t) : Owed none t := by
  cases op <;> simp only [EffectHost.step] at ht <;> split at ht <;> try cases ht
  case effect => exact h.newEffect hT _ _
  case mark => exact h.deliverMark _ _
  case schedule => exact h.tame (tame_of_eq rfl rfl rfl)
  case flushNow => exact h.tame (beside_flushJobs s).tame
  case microtask =>
    have hm : Owed none { s with flush := s.flush.takeMicrotask } :=
      h.tame (tame_of_eq rfl rfl rfl)
    exact hm.tame (beside_flushJobs _).tame
  case externalFlush => exact h.tame (beside_beginFlush s none).tame
  case run e hcan =>
    exact (h.lane_erase e).ready (hT.lane_erase (Bool.and_eq_true_iff.mp hcan).2)
  case discard e hcan =>
    have hmem : e ∈ s.lane := List.contains_iff_mem.mp (Bool.and_eq_true_iff.mp hcan).2
    refine ((h.lane_erase e).unlatch (.inl rfl)).answer fun y hy ho => ?_
    have hext : y.external = true := by
      unfold EffectHost.unlatch at hy
      cases hx : s.effects e with
      | none => simp [hx] at hy
      | some x =>
        have hlane := h.lane e x hmem hx
        simp only [hx] at hy
        split at hy
        · rcases modify_eq_some.mp hy with ⟨_, z, hz, rfl⟩ | ⟨hne, _⟩
          · have hz : s.effects e = some z := hz
            rw [hx] at hz
            cases hz
            exact hlane
          · exact absurd rfl hne
        · have hy : s.effects e = some y := hy
          rw [hx] at hy
          cases hy
          exact hlane
    unfold EffectCell.owes at ho
    rw [hext, Bool.not_true, Bool.and_false] at ho
    cases ho
  case dispose e _ => exact h.dispose e
  case release e hcan =>
    refine h.release fun f hf => ?_
    have := List.all_eq_true.mp (Bool.and_eq_true_iff.mp hcan).2 f hf
    exact (Bool.not_eq_true' _).mp this
  case diagnostics => exact h.tame (tame_of_eq rfl rfl rfl)
  case finish => exact h.finish hT ht
  case next => exact h.next hT hok ht
  case panic => exact h.tame (tame_of_eq rfl rfl rfl)
  case catchUnwind => exact h.tame (tame_of_eq rfl rfl rfl)
  case destroy => exact h.tame (tame_frame rfl rfl rfl fun _ => rfl)
  case unwind => exact h.unwind hok ht

end Steps

/-- The states that a run reaches in which no token is lost and no flag is forgotten. -/
def ReachedQueued (s : EffectHost) : Prop :=
  Runs.Reaches step (fun s op => (!s.strands op && !s.forgets op) = true) {} s

theorem owed_empty : Owed none {} where
  window _ := rfl
  above := .nil
  held _ hf := by cases hf
  lane _ _ he := by cases he
  owed _ _ hx := by cases hx

theorem ReachedQueued.owed (h : s.ReachedQueued) : Owed none s ∧ ∃ k, Tokened k none s := by
  refine h.invariant (fun s => Owed none s ∧ ∃ k, Tokened k none s)
    ⟨owed_empty, 0, tokened_empty⟩ fun s op t h ok ht => ?_
  obtain ⟨ho, k, hT⟩ := h
  obtain ⟨h1, h2⟩ : s.strands op = false ∧ s.forgets op = false := by simpa using ok
  exact ⟨ho.step hT op h2 ht, _, hT.step op h1 ht⟩

/-- Where a run has just ended, no call has a run of the same effect in hand. -/
theorem Owed.ended (h : Owed none s) {op : EffectOp} (he : s.ends e op = true)
    (ht : s.step op = some t) : ∃ rest reported unwound,
      (∀ f ∈ rest, f.isWindow e = false ∧ f.passing e = false) ∧
      t = s.closeWindow rest e reported unwound := by
  have below : ∀ {f : RunFrame} {rest : List RunFrame}, s.stack = f :: rest →
      f.runs e = true → ∀ g ∈ rest, g.isWindow e = false ∧ g.passing e = false :=
    fun hs hr => h.free hs hr
  cases op <;> try cases he
  case finish changed =>
    simp only [EffectHost.step] at ht
    split at ht
    · unfold ends at he
      unfold EffectHost.finish at ht
      cases hs : s.stack with
      | nil => simp [hs] at he
      | cons f rest =>
        simp only [hs] at he ht
        cases f <;> try cases he
        case resetting i reported =>
          obtain ⟨hi, hd⟩ := Bool.and_eq_true_iff.mp he
          have hi := of_decide_eq_true hi
          subst hi
          cases ht
          unfold afterReset
          cases hx : s.effects i with
          | none =>
            exact absurd hx (h.held (.resetting i reported)
              (by rw [hs]; exact List.mem_cons_self) i (decide_eq_true rfl))
          | some x =>
            have hdead : x.disposed = true := by
              unfold live at hd
              rw [hx] at hd
              simpa using hd
            dsimp only
            rw [if_pos hdead]
            exact ⟨rest, reported, false, below hs (decide_eq_true rfl), rfl⟩
    · cases ht
  case next =>
    simp only [EffectHost.step] at ht
    split at ht
    · cases ht
    · unfold ends at he
      unfold EffectHost.next at ht
      cases hs : s.stack with
      | nil => simp [hs] at he
      | cons f rest =>
        simp only [hs] at he ht
        cases f <;> try cases he
        case settling i reported =>
          have hi := of_decide_eq_true he
          subst hi
          cases ht
          exact ⟨rest, reported, false, below hs (decide_eq_true rfl), rfl⟩
  case unwind =>
    simp only [EffectHost.step] at ht
    split at ht
    · unfold ends at he
      unfold EffectHost.unwind at ht
      cases hs : s.stack with
      | nil => simp [hs] at he
      | cons f rest =>
        simp only [hs] at he ht
        cases f <;> try cases he
        all_goals
          have hi := of_decide_eq_true he
          subst hi
          cases ht
          exact ⟨rest, _, true, below hs (decide_eq_true rfl), rfl⟩
    · cases ht

theorem closeWindow_stack (s : EffectHost) (rest : List RunFrame) (e : NodeId)
    (reported unwound : Bool) (h : ∀ f ∈ rest, f.isWindow e = false ∧ f.passing e = false) :
    ∀ f ∈ (s.closeWindow rest e reported unwound).stack, f.passing e = false := by
  unfold EffectHost.closeWindow
  dsimp only
  split
  · intro f hf
    rcases List.mem_cons.mp hf with rfl | hf
    · rfl
    · exact (h f hf).2
  · exact fun f hf => (h f hf).2

theorem closeWindow_cell {reported unwound : Bool}
    (hy : (s.closeWindow rest e reported unwound).effects e = some y) :
    ∃ x, s.effects e = some x ∧ y = { x with running := false } := by
  have hy : (s.modify e fun x => { x with running := false }).effects e = some y := by
    unfold EffectHost.closeWindow at hy
    dsimp only at hy
    split at hy <;> exact hy
  rcases modify_eq_some.mp hy with ⟨_, x, hx, rfl⟩ | ⟨hne, _⟩
  · exact ⟨x, hx, rfl⟩
  · exact absurd rfl hne

theorem Owed.queued (h : Owed none t) (hT : Tokened k none t) (hy : t.effects e = some y)
    (hext : y.external = false) (ho : y.owes = true)
    (hidle : ∀ f ∈ t.stack, f.passing e = false) : .run e ∈ t.flush.pendingJobs := by
  have hs := h.owed e y hy (Option.some_ne_none e).symm ho
  have hd : y.disposed = false := by
    cases hd : y.disposed with
    | false => rfl
    | true =>
      unfold EffectCell.owes at ho
      rw [hd] at ho
      cases ho
  have hlatch := hT.latch e y hy hd
  rw [hs, if_pos rfl, inHand_none, claims_of_idle hidle] at hlatch
  have hlane : t.lane.count e = 0 := by
    refine List.count_eq_zero.mpr fun he => ?_
    rw [h.lane e y he hy] at hext
    cases hext
  unfold tokens at hlatch
  exact List.count_pos_iff.mp (by omega)

theorem Owed.rerun_queued (h : Owed none s) (hT : Tokened k none s) {op : EffectOp}
    (hok : s.strands op = false ∧ s.forgets op = false) (ht : s.step op = some t)
    (he : s.ends e op = true) (hy : t.effects e = some y) (hext : y.external = false)
    (hb : y.boundary = false) :
    y.disposed = true ∨ y.state = .clean ∨ .run e ∈ t.flush.pendingJobs := by
  obtain ⟨rest, reported, unwound, hbelow, rfl⟩ := h.ended he ht
  obtain ⟨x, hx, hyx⟩ := closeWindow_cell hy
  by_cases hd : y.disposed = true
  · exact .inl hd
  by_cases hc : y.state = .clean
  · exact .inr (.inl hc)
  refine .inr (.inr ((h.step hT op hok.2 ht).queued (hT.step op hok.1 ht) hy hext ?_
    (closeWindow_stack s rest e reported unwound hbelow)))
  have hrun : y.running = false := by rw [hyx]
  unfold EffectCell.owes
  rw [Bool.eq_false_iff.mpr hd, hext, hb, hrun, decide_eq_true hc, Bool.and_false]
  rfl

theorem ends_of_forgets {op : EffectOp} (hf : s.forgets op = true) :
    ∃ e, s.ends e op = true ∧ s.unqueued e = true := by
  cases op <;> try cases hf
  case next =>
    unfold forgets at hf
    unfold ends
    cases hs : s.stack with
    | nil => simp [hs] at hf
    | cons f rest =>
      simp only [hs] at hf
      cases f <;> try cases hf
      exact ⟨_, decide_eq_true rfl, hf⟩
  case unwind =>
    unfold forgets at hf
    unfold ends
    cases hs : s.stack with
    | nil => simp [hs] at hf
    | cons f rest =>
      simp only [hs] at hf
      cases f <;> try cases hf
      all_goals exact ⟨_, decide_eq_true rfl, hf⟩

/-- The run that only the flag stood for is in no queue once the window has closed. -/
theorem Owed.rerun_lost (h : Owed none s) (hT : Tokened k none s) {op : EffectOp}
    (hf : s.forgets op = true) (ht : s.step op = some t) :
    ∃ e y, s.ends e op = true ∧ t.effects e = some y ∧ y.external = false ∧
      y.boundary = false ∧ y.disposed = false ∧ y.state ≠ .clean ∧
      .run e ∉ t.flush.pendingJobs := by
  obtain ⟨e, he, hu⟩ := ends_of_forgets hf
  obtain ⟨rest, reported, unwound, _, rfl⟩ := h.ended he ht
  obtain ⟨x, hx⟩ : ∃ x, s.effects e = some x := by
    unfold unqueued at hu
    cases hx : s.effects e with
    | none => rw [hx] at hu; cases hu
    | some x => exact ⟨x, rfl⟩
  unfold unqueued at hu
  rw [hx] at hu
  simp only [Option.map_some, Option.getD_some, Bool.and_eq_true, Bool.not_eq_true',
    decide_eq_true_eq] at hu
  obtain ⟨⟨⟨⟨⟨_, hs⟩, hstate⟩, hd⟩, hext⟩, hb⟩ := hu
  have hcell : (s.closeWindow rest e reported unwound).effects e =
      some { x with running := false } := by
    have : (s.modify e fun x => { x with running := false }).effects e =
        some { x with running := false } := modify_eq_some.mpr (.inl ⟨rfl, x, hx, rfl⟩)
    unfold EffectHost.closeWindow
    dsimp only
    split <;> exact this
  refine ⟨e, _, he, hcell, hext, hb, hd, hstate, fun hmem => ?_⟩
  have hpos : 0 < s.flush.pendingJobs.count (.run e) := by
    unfold EffectHost.closeWindow at hmem
    dsimp only at hmem
    split at hmem <;> exact List.count_pos_iff.mpr hmem
  have hlatch := hT.latch e x hx hd
  rw [hs, if_neg Bool.false_ne_true, inHand_none] at hlatch
  unfold claims tokens at hlatch
  omega

/-- When a run of a live reactor-lane effect outside any boundary is over, a mark that it
received has a further run queued, as long as no run ends while only its flag stands for
that run and no subscriber's panic loses a token; where a run does end so, the effect is
left stale and nothing is queued. -/
theorem requested_rerun_is_queued (s t : EffectHost) (op : EffectOp) (h : s.ReachedQueued)
    (ht : s.step op = some t) :
    ((!s.strands op && !s.forgets op) = true → ∀ e y, s.ends e op = true →
      t.effects e = some y → y.external = false → y.boundary = false →
      y.disposed = true ∨ y.state = .clean ∨ .run e ∈ t.flush.pendingJobs) ∧
    (s.forgets op = true → ∃ e y, s.ends e op = true ∧ t.effects e = some y ∧
      y.external = false ∧ y.boundary = false ∧ y.disposed = false ∧ y.state ≠ .clean ∧
      .run e ∉ t.flush.pendingJobs) := by
  obtain ⟨ho, k, hT⟩ := h.owed
  exact ⟨fun hok e y he hy hext hb => ho.rerun_queued hT (by simpa using hok) ht he hy hext hb,
    fun hf => ho.rerun_lost hT hf ht⟩

/-- A body marks its own effect and flushes: the run that was queued is deferred. -/
def deferring : EffectHost :=
  Runs.after step {} [.effect false false, .flushNow, .next, .finish false, .mark 1 .dirty,
    .flushNow, .next, .next]

/-- Where the body returns the deferred run is queued; where it unwinds it is not. -/
theorem deferred_run_survives_a_return : ∃ s t u v : EffectHost, s.step .next = some t ∧
    s.ends 1 .next = true ∧ .run 1 ∈ t.flush.pendingJobs ∧ u.step .unwind = some v ∧
    ∃ e y, u.ends e .unwind = true ∧ v.effects e = some y ∧ y.external = false ∧
      y.boundary = false ∧ y.disposed = false ∧ y.state ≠ .clean ∧
      .run e ∉ v.flush.pendingJobs := by
  let s := Runs.after step deferring [.finish false]
  let u := Runs.after step deferring [.panic]
  have ho : deferring.ReachedQueued :=
    Runs.Reaches.after (fun s op => !strands s op && !forgets s op) _ .init (by decide +kernel)
      (by decide +kernel)
  have hs : ReachedQueued s :=
    Runs.Reaches.after (fun s op => !strands s op && !forgets s op) _ ho (by decide +kernel)
      (by decide +kernel)
  have hu : ReachedQueued u :=
    Runs.Reaches.after (fun s op => !strands s op && !forgets s op) _ ho (by decide +kernel)
      (by decide +kernel)
  have ht : s.step .next = some (Runs.after step s [.next]) := Runs.step_after (by decide +kernel)
  have hv : u.step .unwind = some (Runs.after step u [.unwind]) :=
    Runs.step_after (by decide +kernel)
  have hcell : ((Runs.after step s [.next]).effects 1).map (fun y => (y.external, y.boundary,
      y.disposed, y.state)) = some (false, false, false, .dirty) := by decide +kernel
  obtain ⟨y, hy, hkey⟩ := Option.map_eq_some_iff.mp hcell
  injection hkey with hext hkey
  injection hkey with hb hkey
  injection hkey with hd hc
  have hends : s.ends 1 .next = true := by decide +kernel
  have hrun : .run 1 ∈ (Runs.after step s [.next]).flush.pendingJobs := by
    rcases (requested_rerun_is_queued s _ .next hs ht).1 (by decide +kernel) 1 y hends hy hext hb
      with h | h | h
    · rw [hd] at h; cases h
    · rw [hc] at h; cases h
    · exact h
  exact ⟨s, _, u, _, ht, hends, hrun, hv,
    (requested_rerun_is_queued u _ .unwind hu hv).2 (by decide +kernel)⟩

/-- Where it unwinds the effect is live and stale, and no run of it is queued or latched. -/
theorem deferred_run_dies_with_the_body : ∃ s t u : EffectHost,
    Runs.Reaches step (fun _ _ => true = true) {} s ∧ s.ends 1 .unwind = true ∧
    s.step .unwind = some t ∧ t.live 1 = true ∧ t.flush.pendingJobs = [] ∧
    ((t.effects 1).map fun x => (x.state, x.external, x.boundary)) =
      some (.dirty, false, false) ∧
    Runs.Reaches step (fun _ _ => true = true) t u ∧ u.stack = [] ∧ u.live 1 = true ∧
    u.latched 1 = false ∧ u.flush.pendingJobs = [] := by
  let s := Runs.after step deferring [.panic]
  let t := Runs.after step s [.unwind]
  let u := Runs.after step t [.unwind, .catchUnwind]
  have ho : Runs.Reaches step (fun _ _ => true = true) {} deferring :=
    Runs.Reaches.after (fun _ _ => true) _ .init (by decide +kernel) (by decide +kernel)
  have hs : Runs.Reaches step (fun _ _ => true = true) {} s :=
    Runs.Reaches.after (fun _ _ => true) _ ho (by decide +kernel) (by decide +kernel)
  have hu : Runs.Reaches step (fun _ _ => true = true) t u :=
    Runs.Reaches.after (fun _ _ => true) _ .init (by decide +kernel) (by decide +kernel)
  exact ⟨s, t, u, hs, by decide +kernel, Runs.step_after (by decide +kernel), by decide +kernel,
    by decide +kernel, by decide +kernel, hu, by decide +kernel, by decide +kernel,
    by decide +kernel, by decide +kernel⟩

end EffectHost

end Adaptite

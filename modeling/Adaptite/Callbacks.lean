import Adaptite.LiveEdges

set_option autoImplicit false

namespace Adaptite

open Unwinding

variable {V : Type} {env : Enumeration} {a b c w w' : World V}

/-- The callback an event reports, if it is one of `n`; `on_watch` is `true`. -/
def Event.callback (n : NodeId) : Event V → Option Bool
  | .hooked m b => if m = n then some b else none
  | _ => none

def callbacks (n : NodeId) (log : List (Event V)) : List Bool := log.filterMap (Event.callback n)

/-- So many callbacks in turn, latest first, of which the first is `on_watch`. -/
def inTurn : ℕ → List Bool
  | 0 => []
  | k + 1 => decide (k % 2 = 0) :: inTurn k

/-- The next callback in turn is the one that changes what was delivered. -/
theorem inTurn_succ {k : ℕ} {b : Bool} (h : (inTurn k).head?.getD false ≠ b) :
    b :: inTurn k = inTurn (k + 1) := by
  have hb : decide (k % 2 = 0) = b := by
    cases k with
    | zero =>
      cases b with
      | false => exact absurd rfl h
      | true => rfl
    | succ k =>
      change decide (k % 2 = 0) ≠ b at h
      have hk : k % 2 = 0 ∨ k % 2 = 1 := by omega
      have hs : (k + 1) % 2 = (k % 2 + 1) % 2 := by omega
      rw [hs]
      rcases hk with hk | hk <;> rw [hk] at h ⊢ <;> revert h <;> cases b <;> decide
  unfold inTurn
  rw [hb]
  cases k <;> rfl

theorem callbacks_cons {n : NodeId} {e : Event V} {l : List (Event V)} (h : e.callback n = none) :
    callbacks n (e :: l) = callbacks n l := by
  unfold callbacks
  rw [List.filterMap_cons_none h]

theorem callback_remark {n : NodeId} {e : Event V} (h : e.isRemark = true) : e.callback n = none := by
  cases e <;> first | rfl | cases h

theorem callbacks_append {n : NodeId} {l l' : List (Event V)} (h : ∀ e ∈ l, e.isRemark = true) :
    callbacks n (l ++ l') = callbacks n l' := by
  unfold callbacks
  rw [List.filterMap_append, List.filterMap_eq_nil_iff.mpr fun e he => callback_remark (h e he),
    List.nil_append]

/-- What was delivered stays so, and a cancellation is final. -/
def ObservationHooks.Unheard (h k : ObservationHooks V) : Prop :=
  k.delivered = h.delivered ∧ (h.cancelled = true → k.cancelled = true)

theorem ObservationHooks.Unheard.refl (h : ObservationHooks V) : h.Unheard h := ⟨rfl, id⟩

def World.Attached (w : World V) (n : NodeId) : Prop :=
  ∀ k, w.hooks n = some k → (k.cancelled = true ↔ n ∉ w.graph.nodeMeta)

/-- No callback is delivered, and hooks are cancelled when their source goes. -/
structure World.Unheard (a b : World V) : Prop where
  heard : ∀ n, callbacks n b.log = callbacks n a.log
  hooks : ∀ n, Option.Rel ObservationHooks.Unheard (a.hooks n) (b.hooks n)
  attached : ∀ n, a.Attached n → b.Attached n

namespace World.Unheard

theorem of_eq (h1 : ∀ i, callbacks i b.log = callbacks i a.log) (h2 : b.hooks = a.hooks)
    (h3 : ∀ i, i ∈ a.graph.nodeMeta ↔ i ∈ b.graph.nodeMeta) : a.Unheard b :=
  ⟨h1, fun _ => h2 ▸ rel_refl ObservationHooks.Unheard.refl _,
    fun i hi k hk => (hi k (h2 ▸ hk)).trans (not_congr (h3 i))⟩

theorem refl (a : World V) : a.Unheard a := .of_eq (fun _ => rfl) rfl fun _ => .rfl

theorem trans (h : a.Unheard b) (h' : b.Unheard c) : a.Unheard c := by
  refine ⟨fun n => (h'.heard n).trans (h.heard n), fun n => ?_, fun n hn =>
    h'.attached n (h.attached n hn)⟩
  exact rel_trans (fun x y z hxy hyz => ⟨hyz.1.trans hxy.1, fun hx => hyz.2 (hxy.2 hx)⟩)
    (h.hooks n) (h'.hooks n)

theorem same (h1 : b.log = a.log) (h2 : b.hooks = a.hooks)
    (h3 : ∀ i, i ∈ a.graph.nodeMeta ↔ i ∈ b.graph.nodeMeta) : a.Unheard b :=
  .of_eq (fun _ => by rw [h1]) h2 h3

theorem push (a : World V) {e : Event V} (h : ∀ n, e.callback n = none) : a.Unheard (a.push e) :=
  .of_eq (fun n => callbacks_cons (h n)) rfl fun _ => .rfl

theorem of_hooks (h1 : b.log = a.log) (h2 : b.graph = a.graph)
    (h3 : ∀ i, Option.Rel (fun h k => k.delivered = h.delivered ∧ k.cancelled = h.cancelled)
      (a.hooks i) (b.hooks i)) : a.Unheard b := by
  refine ⟨fun _ => by rw [h1], fun i => ?_, fun i hi k hk => ?_⟩
  · cases ha : a.hooks i with
    | none =>
      have hi := h3 i
      rw [ha] at hi
      rw [rel_none hi]
      exact .none
    | some k =>
      obtain ⟨k', hk', hd, hc⟩ := rel_left (ha ▸ h3 i)
      rw [hk']
      exact .some ⟨hd, fun hx => hc.trans hx⟩
  · obtain ⟨k', hk', hkk⟩ := rel_right (hk ▸ h3 i)
    rw [hkk.2, h2]
    exact hi k' hk'

theorem modifyHooks (a : World V) (n : NodeId) (f : ObservationHooks V → ObservationHooks V)
    (h : ∀ k, a.hooks n = some k → (f k).delivered = k.delivered ∧ (f k).cancelled = k.cancelled) :
    a.Unheard (a.modifyHooks n f) := by
  refine .of_hooks rfl rfl fun i => ?_
  change Option.Rel _ (a.hooks i) (Function.update a.hooks n _ i)
  by_cases hi : i = n
  · subst hi
    rw [Function.update_self]
    cases hk : a.hooks i with
    | none => exact .none
    | some k => exact .some (h k hk)
  · rw [Function.update_of_ne hi]
    exact rel_refl (fun _ => ⟨rfl, rfl⟩) _

theorem raised (h : a.Raised b) : a.Unheard b := by
  have hf := h.frame
  exact .same (by rw [hf]) (by rw [hf]) fun _ => by rw [h.graph]

theorem trigger (a : World V) (n : NodeId) : a.Unheard (a.trigger env n) := by
  have hb : a.Unheard (a.bumpVersion n) :=
    .same rfl rfl fun i => (Graph.mem_nodeMeta_bumpVersion _ _ i).symm
  exact hb.trans (.raised (marks_trigger env a n).raised)

theorem unlatch (a : World V) (e : NodeId) : a.Unheard (a.unlatch e) := by
  rw [unlatch_frame]
  exact .same rfl rfl fun _ => .rfl

theorem noteObservation (a : World V) (n : NodeId) (o : Bool) :
    a.Unheard (a.noteObservation n o) := by
  obtain ⟨_, hs, f, he⟩ := a.noteObservation_frame n o
  refine .of_hooks (by rw [he]) (by rw [he]) fun i => ?_
  rw [hooks_noteObservation]
  by_cases hi : i = n
  · subst hi
    rw [Function.update_self]
    cases a.hooks i with
    | none => exact .none
    | some k =>
      refine .some ?_
      unfold ObservationHooks.note
      split <;> exact ⟨rfl, rfl⟩
  · rw [Function.update_of_ne hi]
    exact rel_refl (fun _ => ⟨rfl, rfl⟩) _

theorem noteUnobserved (a : World V) (l : List NodeId) : a.Unheard (a.noteUnobserved l) := by
  induction l generalizing a with
  | nil => exact .refl a
  | cons n l ih => exact (noteObservation a n false).trans (ih _)

theorem noteZombie (a : World V) (n : NodeId) : a.Unheard (a.noteZombie n) := by
  unfold World.noteZombie
  split
  · split
    · exact .refl a
    · exact .push a fun _ => rfl
  · exact .refl a

theorem observed (a : World V) (n : NodeId) {u : Bool} {r : Graph × Bool}
    (h : a.graph.tryObserve u n = .ok r) : a.Unheard ((a.noteZombie n).observed n r) := by
  refine (noteZombie a n).trans ?_
  have hg : (a.noteZombie n).Unheard { a.noteZombie n with graph := r.1 } := by
    obtain ⟨_, _, _, _, hr⟩ := Graph.tryObserve_frame h
    refine .same rfl rfl fun i => ?_
    rw [World.WellFormed.graph_noteZombie]
    change _ ↔ i ∈ r.1.nodeMeta
    rw [hr]
  unfold World.observed
  dsimp only
  split
  · exact hg.trans (noteObservation _ n true)
  · exact hg

theorem disposeNode (a : World V) (n : NodeId) : a.Unheard (a.disposeNode env n) := by
  obtain ⟨f1, _⟩ := Graph.dispose_frame env a.graph n
  let t : World V := ({ a with graph := (a.graph.dispose env n).1 } : World V).noteUnobserved
    (a.graph.dispose env n).2
  obtain ⟨_, hs, f, he⟩ := ({ a with graph := (a.graph.dispose env n).1 } : World V).noteUnobserved_frame
    (a.graph.dispose env n).2
  have hnote : World.Unheard { a with graph := (a.graph.dispose env n).1 } t := noteUnobserved _ _
  have hmeta : ∀ i, i ∈ t.graph.nodeMeta ↔ i ≠ n ∧ i ∈ a.graph.nodeMeta := by
    intro i
    change i ∈ (World.noteUnobserved _ _).graph.nodeMeta ↔ _
    rw [he]
    change i ∈ (a.graph.dispose env n).1.nodeMeta ↔ _
    rw [f1, AList.mem_erase]
  have hother : ∀ i, i ≠ n → (a.disposeNode env n).hooks i = t.hooks i := fun i hi =>
    Function.update_of_ne hi _ _
  have hself : (a.disposeNode env n).hooks n =
      (t.hooks n).map fun h => { h with cancelled := true } := Function.update_self _ _ _
  refine ⟨hnote.heard, fun i => ?_, fun i hi k hk => ?_⟩
  · by_cases hin : i = n
    · subst hin
      rw [hself]
      have ht := hnote.hooks i
      cases hti : t.hooks i with
      | none => rw [hti] at ht; exact ht
      | some k =>
        rw [hti] at ht
        obtain ⟨k', hk', hd, _⟩ := rel_right ht
        change a.hooks i = some k' at hk'
        rw [hk']
        exact .some ⟨hd, fun _ => rfl⟩
    · rw [hother i hin]
      exact hnote.hooks i
  · change k.cancelled = true ↔ i ∉ t.graph.nodeMeta
    rw [hmeta]
    by_cases hin : i = n
    · subst hin
      rw [hself, Option.map_eq_some_iff] at hk
      obtain ⟨_, _, rfl⟩ := hk
      simp
    · rw [hother i hin] at hk
      have hn : ({ a with graph := (a.graph.dispose env n).1 } : World V).Attached i := by
        intro k' hk'
        change _ ↔ i ∉ (a.graph.dispose env n).1.nodeMeta
        rw [hi k' hk', f1, AList.mem_erase]
        simp [hin]
      rw [hnote.attached i hn k hk, hmeta]

theorem allocate (hw : a.WellFormed) (h1 : b.log = a.log) (h2 : b.hooks = a.hooks)
    (h3 : ∀ i, i ∈ b.graph.nodeMeta ↔ i = a.graph.nextNode ∨ i ∈ a.graph.nodeMeta) :
    a.Unheard b := by
  refine ⟨fun _ => by rw [h1], fun _ => h2 ▸ rel_refl ObservationHooks.Unheard.refl _,
    fun i hi k hk => ?_⟩
  rw [h2] at hk
  have hlt := hw.hooks i (Option.isSome_of_eq_some hk)
  rw [hi k hk, h3, not_or]
  exact ⟨fun hm => ⟨Nat.ne_of_lt hlt, hm⟩, And.right⟩

theorem step (hw : a.WellFormed) (h : Step env a b) : a.Unheard b ∨
    ∃ watch : Option (Prog V × Prog V), b = a.newSource (watch.map fun p =>
      { onWatch := p.1, onUnwatch := p.2 }) := by
  cases h with
  | newSource watch => exact .inr ⟨_, rfl⟩
  | thread | newFrame | adopt | frame | queues | newSubscription | endSubscription | event | flush
  | schedule => exact .inl (.same rfl rfl fun _ => .rfl)
  | remark e he => exact .inl (.push a fun _ => callback_remark he)
  | deliveries d l hl => exact .inl (.of_eq (fun _ => callbacks_append hl) rfl fun _ => .rfl)
  | observed n r live hr plain => exact .inl (.observed a n hr)
  | write n v =>
    have hv : a.Unheard (a.setValue n v) := .same rfl rfl fun _ => .rfl
    exact .inl (hv.trans (.trigger _ n))
  | trigger n => exact .inl (.trigger a n)
  | scheduleEffect e => exact .inl (.raised (.scheduleEffect a e))
  | newSignal | newComputed | newEvent =>
    exact .inl (.allocate hw rfl rfl fun _ => AList.mem_insert _)
  | dropNode n idle other =>
    have hd : a.Unheard { a with
        graph := a.graph.unregisterObserver n
        signals := Function.update a.signals n none
        computed := Function.update a.computed n none
        events := Function.update a.events n none } := .same rfl rfl fun _ => .rfl
    exact .inl (hd.trans (.disposeNode _ n))

theorem computeStep (h : ComputeStep env a b) : a.Unheard b := by
  cases h with
  | observed n r live hr => exact .observed a n hr
  | saw o n v _ _ _ => exact .push a fun _ => rfl
  | setState n s => exact .same rfl rfl fun _ => .rfl
  | store n v =>
    unfold World.store
    split
    · exact .refl a
    · split
      · exact .same rfl rfl fun i => (Graph.mem_nodeMeta_bumpVersion _ _ i).symm
      · exact .same rfl rfl fun _ => .rfl

theorem contextStep (h : ContextStep env a b) : a.Unheard b := by
  cases h with
  | enter o ho known =>
    obtain ⟨f1, _⟩ := Graph.enterContext_frame env a.graph o
    have hg : a.Unheard { a with graph := (a.graph.enterContext env o).1, untracked := 0 } :=
      .same rfl rfl fun _ => by rw [f1]
    exact (hg.trans (noteUnobserved _ _)).trans (.push _ fun _ => rfl)
  | leave u =>
    obtain ⟨_, _, he⟩ := Graph.exitContext_frame a.graph
    refine .same rfl rfl fun i => ?_
    change _ ↔ i ∈ a.graph.exitContext.nodeMeta
    rw [he]

/-- A delivered callback is the only thing to be heard, and a new source the only one to hear. -/
theorem anyStep (hw : a.WellFormed) (h : AnyStep env a b) : a.Unheard b ∨
    (∃ watch : Option (Prog V × Prog V), b = a.newSource (watch.map fun p =>
      { onWatch := p.1, onUnwatch := p.2 })) ∨
    ∃ n k f, a.hooks n = some k ∧ k.cancelled = false ∧ k.delivered ≠ k.observed ∧
      b = (({ a with flush := f } : World V).modifyHooks n ObservationHooks.settle).push
        (.hooked n k.observed) := by
  cases h with
  | plain h => exact (step hw h).imp id .inl
  | create h =>
    cases h with
    | effect => exact .inl (.allocate hw rfl rfl fun _ => AList.mem_insert _)
  | close h =>
    cases h with
    | closing e =>
      have hd : a.Unheard (a.modifyEffect e fun x => { x with disposed := true }) :=
        .same rfl rfl fun _ => .rfl
      exact .inl (hd.trans (.unlatch _ e))
    | unhook e _ =>
      have hu : a.Unheard { a with graph := a.graph.unregisterObserver e } :=
        .same rfl rfl fun _ => .rfl
      exact .inl (hu.trans (.disposeNode _ e))
  | compute h => exact .inl (.computeStep h)
  | context h => exact .inl (.contextStep h)
  | run h =>
    cases h with
    | popEffect e f r _ _ =>
      have hf : a.Unheard { a with flush := f, runs := r } := .same rfl rfl fun _ => .rfl
      exact .inl (hf.trans (.unlatch _ e))
    | ready e f r _ _ =>
      have hf : a.Unheard { a with lane := a.lane.erase e, flush := f, runs := r } :=
        .same rfl rfl fun _ => .rfl
      exact .inl (hf.trans (.unlatch _ e))
    | popHooks n f _ skip =>
      have hf : a.Unheard { a with flush := f } := .same rfl rfl fun _ => .rfl
      refine .inl (hf.trans (.modifyHooks _ n _ fun k hk => ⟨?_, rfl⟩))
      unfold ObservationHooks.settle
      dsimp only
      split
      · rfl
      · rename_i hl
        exact ((skip k hk).resolve_left hl).symm
    | callHooks n k f _ hk live due => exact .inr (.inr ⟨n, k, f, hk, live, due, rfl⟩)
    | popUser | effect => exact .inl (.same rfl rfl fun _ => .rfl)
  | caught r e p => exact .inl (.push a fun _ => rfl)

end World.Unheard

/-- The callbacks of a node so far, and what its hooks know of them. -/
structure World.InTurn (w : World V) (n : NodeId) : Prop where
  unhooked : w.hooks n = none → callbacks n w.log = []
  turns : callbacks n w.log = inTurn (callbacks n w.log).length
  last : ∀ h, w.hooks n = some h → (callbacks n w.log).head?.getD false = h.delivered
  attached : w.Attached n

namespace World.InTurn

variable {n : NodeId}

theorem unheard (h : a.InTurn n) (hs : a.Unheard b) : b.InTurn n := by
  have hl := hs.heard n
  refine ⟨fun hn => ?_, ?_, fun k hk => ?_, hs.attached n h.attached⟩
  · have hr := hs.hooks n
    rw [hn] at hr
    rw [hl]
    cases ha : a.hooks n with
    | none => exact h.unhooked ha
    | some k => rw [ha] at hr; cases hr
  · rw [hl]
    exact h.turns
  · obtain ⟨k', hk', hd, _⟩ := rel_right (hk ▸ hs.hooks n)
    rw [hl, hd]
    exact h.last k' hk'

theorem newSource (h : a.InTurn n) (hw : a.WellFormed) (watch : Option (Prog V × Prog V)) :
    (a.newSource (watch.map fun p => { onWatch := p.1, onUnwatch := p.2 })).InTurn n := by
  by_cases hn : n = a.graph.nextNode
  · have hnone : a.hooks n = none := by
      rw [← Option.not_isSome_iff_eq_none]
      exact fun hs => Nat.ne_of_lt (hw.hooks n hs) hn
    have hl := h.unhooked hnone
    subst hn
    refine ⟨fun _ => hl, h.turns, fun k hk => ?_, fun k hk => ?_⟩
    · simp only [World.newSource, Function.update_self, Option.map_eq_some_iff] at hk
      obtain ⟨_, _, rfl⟩ := hk
      change (callbacks _ a.log).head?.getD false = false
      rw [hl]
      rfl
    · simp only [World.newSource, Function.update_self, Option.map_eq_some_iff] at hk
      obtain ⟨_, _, rfl⟩ := hk
      simp [World.newSource, Graph.allocateNode]
  · have hh : ∀ hs, (a.newSource hs).hooks n = a.hooks n := fun hs => Function.update_of_ne hn _ _
    refine ⟨fun hx => h.unhooked (hh _ ▸ hx), h.turns, fun k hk => h.last k (hh _ ▸ hk),
      fun k hk => (h.attached k (hh _ ▸ hk)).trans (not_congr ?_)⟩
    exact (or_iff_right hn).symm.trans (AList.mem_insert _).symm

theorem called (h : a.InTurn n) {m : NodeId} {k : ObservationHooks V} (f : Flush (Job V))
    (hk : a.hooks m = some k) (live : k.cancelled = false) (due : k.delivered ≠ k.observed) :
    ((({ a with flush := f } : World V).modifyHooks m ObservationHooks.settle).push
      (.hooked m k.observed)).InTurn n := by
  by_cases hn : n = m
  · subst hn
    have hself : Function.update a.hooks n ((a.hooks n).map ObservationHooks.settle) n =
        some k.settle := by rw [Function.update_self, hk, Option.map_some]
    have hcalls : callbacks n (Event.hooked n k.observed :: a.log) =
        k.observed :: callbacks n a.log := by
      unfold callbacks
      rw [List.filterMap_cons_some]
      exact if_pos rfl
    have hlast := h.last k hk
    refine ⟨fun hx => ?_, ?_, fun k' hk' => ?_, fun k' hk' => ?_⟩
    · cases hself.symm.trans hx
    · change callbacks n (Event.hooked n k.observed :: a.log) = inTurn
        (callbacks n (Event.hooked n k.observed :: a.log)).length
      rw [hcalls, List.length_cons, ← inTurn_succ, ← h.turns]
      rw [← h.turns, hlast]
      exact due
    · cases hself.symm.trans hk'
      change (callbacks n (Event.hooked n k.observed :: a.log)).head?.getD false = _
      rw [hcalls]
      unfold ObservationHooks.settle
      rw [live]
      rfl
    · cases hself.symm.trans hk'
      exact h.attached k hk
  · have hcalls : callbacks n (Event.hooked m k.observed :: a.log) = callbacks n a.log :=
      callbacks_cons (if_neg (Ne.symm hn))
    have hh : Function.update a.hooks m ((a.hooks m).map ObservationHooks.settle) n = a.hooks n :=
      Function.update_of_ne hn _ _
    refine ⟨fun hx => hcalls.trans (h.unhooked (hh.symm.trans hx)), ?_, fun k' hk' => ?_,
      fun k' hk' => h.attached k' (hh.symm.trans hk')⟩
    · change callbacks n (Event.hooked m k.observed :: a.log) = inTurn
        (callbacks n (Event.hooked m k.observed :: a.log)).length
      rw [hcalls]
      exact h.turns
    · change (callbacks n (Event.hooked m k.observed :: a.log)).head?.getD false = _
      rw [hcalls]
      exact h.last k' (hh.symm.trans hk')

theorem step (hw : a.WellFormed) (hs : AnyStep env a b) (h : a.InTurn n) : b.InTurn n := by
  rcases World.Unheard.anyStep hw hs with hs | ⟨watch, rfl⟩ | ⟨m, k, f, hk, live, due, rfl⟩
  · exact h.unheard hs
  · exact h.newSource hw watch
  · exact h.called f hk live due

theorem silent_step (hw : a.WellFormed) (hs : AnyStep env a b) {k : ObservationHooks V}
    (hk : a.hooks n = some k) (hc : k.cancelled = true) :
    callbacks n b.log = callbacks n a.log ∧ ∃ k', b.hooks n = some k' ∧ k'.cancelled = true := by
  rcases World.Unheard.anyStep hw hs with hs | ⟨watch, rfl⟩ | ⟨m, k', f, hk', live, due, rfl⟩
  · obtain ⟨k', hk', _, hcc⟩ := rel_left (hk ▸ hs.hooks n)
    exact ⟨hs.heard n, k', hk', hcc hc⟩
  · have hne : n ≠ a.graph.nextNode := Nat.ne_of_lt (hw.hooks n (Option.isSome_of_eq_some hk))
    exact ⟨rfl, k, (Function.update_of_ne hne _ _).trans hk, hc⟩
  · have hne : n ≠ m := by
      rintro rfl
      rw [hk] at hk'
      cases hk'
      rw [hc] at live
      cases live
    exact ⟨callbacks_cons (if_neg (Ne.symm hne)), k, (Function.update_of_ne hne _ _).trans hk, hc⟩

end World.InTurn

theorem Visited.inTurn (h : Visited env w) (n : NodeId) : w.InTurn n :=
  h.invariant (fun w => w.InTurn n)
    ⟨fun _ => rfl, rfl, fun _ => nofun, fun _ => nofun⟩
    fun _ _ ha _ hs hr => hr.step ha hs

theorem Visited.silent (hw : Visited env w) {n : NodeId} {k : ObservationHooks V}
    (hk : w.hooks n = some k) (hc : k.cancelled = true)
    (hs : Relation.ReflTransGen (AnyStep env) w w') : callbacks n w'.log = callbacks n w.log := by
  have hall : callbacks n w'.log = callbacks n w.log ∧
      ∃ k', w'.hooks n = some k' ∧ k'.cancelled = true := by
    induction hs with
    | refl => exact ⟨rfl, k, hk, hc⟩
    | tail before step ih =>
      obtain ⟨hl, k', hk', hc'⟩ := ih
      have hv : Visited env _ := Relation.ReflTransGen.trans hw before
      obtain ⟨hl', h⟩ := World.InTurn.silent_step hv.wellFormed step hk' hc'
      exact ⟨hl'.trans hl, h⟩
  exact hall.1

section Watched

end Watched

end Adaptite

import Adaptite.WellFormed

set_option autoImplicit false

namespace Adaptite

open Unwinding

variable {V : Type}

/-- What is never taken back: effects stay, disposal is final, the log is kept. -/
structure World.Grows (a b : World V) : Prop where
  effects : ∀ e x, a.effects e = some x → ∃ y, b.effects e = some y ∧ y.body = x.body ∧
    y.external = x.external ∧ y.owner = x.owner ∧ (x.disposed = true → y.disposed = true)
  log : a.log <:+ b.log
  nextNode : a.graph.nextNode ≤ b.graph.nextNode
  nextFrame : a.nextFrame ≤ b.nextFrame

section Grows

variable {env : Enumeration} {a b c : World V}

theorem World.Grows.of_eq (h1 : b.effects = a.effects) (h2 : a.log <:+ b.log)
    (h3 : a.graph.nextNode ≤ b.graph.nextNode) (h4 : a.nextFrame ≤ b.nextFrame) : a.Grows b :=
  ⟨fun _ x hx => ⟨x, h1 ▸ hx, rfl, rfl, rfl, id⟩, h2, h3, h4⟩

theorem World.Grows.refl (a : World V) : a.Grows a :=
  .of_eq rfl (List.suffix_refl _) (le_refl _) (le_refl _)

theorem World.Grows.trans (h : a.Grows b) (h' : b.Grows c) : a.Grows c := by
  refine ⟨fun e x hx => ?_, h.log.trans h'.log, h.nextNode.trans h'.nextNode,
    h.nextFrame.trans h'.nextFrame⟩
  obtain ⟨y, hy, b1, b2, b3, b4⟩ := h.effects e x hx
  obtain ⟨z, hz, c1, c2, c3, c4⟩ := h'.effects e y hy
  exact ⟨z, hz, c1.trans b1, c2.trans b2, c3.trans b3, fun hd => c4 (b4 hd)⟩

theorem World.Grows.closed (h : a.Grows b) {e : NodeId} (hc : a.Closed e) : b.Closed e := by
  obtain ⟨x, hx, hd⟩ := hc
  obtain ⟨y, hy, _, _, _, h4⟩ := h.effects e x hx
  exact ⟨y, hy, h4 hd⟩

/-- A change that leaves effects, log and the counters of ids alone. -/
theorem World.Grows.same (h1 : b.effects = a.effects) (h2 : b.log = a.log)
    (h3 : b.graph.nextNode = a.graph.nextNode) (h4 : b.nextFrame = a.nextFrame) : a.Grows b :=
  .of_eq h1 (h2 ▸ List.suffix_refl _) h3.ge h4.ge

theorem World.Grows.push (a : World V) (e : Event V) : a.Grows (a.push e) :=
  .of_eq rfl (List.suffix_cons _ _) (le_refl _) (le_refl _)

theorem World.Grows.modifyEffect (e : NodeId) (g : EffectInner V → EffectInner V)
    (h : ∀ x, a.effects e = some x → (g x).body = x.body ∧ (g x).external = x.external ∧
      (g x).owner = x.owner ∧ (x.disposed = true → (g x).disposed = true)) :
    a.Grows (a.modifyEffect e g) := by
  refine ⟨fun i x hx => ?_, List.suffix_refl _, le_refl _, le_refl _⟩
  unfold World.modifyEffect
  by_cases hi : i = e
  · subst hi
    exact ⟨g x, by simp [hx], h x hx⟩
  · exact ⟨x, by simpa [Function.update_of_ne hi] using hx, rfl, rfl, rfl, id⟩

theorem World.Grows.unlatch (a : World V) (e : NodeId) : a.Grows (a.unlatch e) := by
  unfold World.unlatch
  split
  · exact .refl a
  · split
    · exact (World.Grows.modifyEffect e (fun x => { x with scheduled := false })
        fun x _ => ⟨rfl, rfl, rfl, id⟩).trans (.same rfl rfl rfl rfl)
    · exact .refl a

theorem World.Grows.raised (h : a.Raised b) : a.Grows b := by
  have hf := h.frame
  refine ⟨fun e x hx => ?_, ?_, ?_, ?_⟩
  · obtain ⟨y, hy, hxy⟩ := rel_left (hx ▸ h.effects e)
    refine ⟨y, hy, ?_⟩
    rw [hxy.1]
    exact ⟨rfl, rfl, rfl, id⟩
  all_goals rw [hf]

theorem World.Grows.trigger (a : World V) (n : NodeId) : a.Grows (a.trigger env n) := by
  refine World.Grows.trans (b := a.bumpVersion n) (.same rfl rfl ?_ rfl)
    (.raised (marks_trigger env a n).raised)
  exact Graph.nextNode_bumpVersion _ _

theorem World.Grows.observed (a : World V) (n : NodeId) {u : Bool} {r : Graph × Bool}
    (h : a.graph.tryObserve u n = .ok r) : a.Grows ((a.noteZombie n).observed n r) := by
  have h1 : a.Grows (a.noteZombie n) := by
    unfold World.noteZombie
    split
    · split
      · exact .refl a
      · exact .push a _
    · exact .refl a
  refine h1.trans ?_
  obtain ⟨_, _, he⟩ := (a.noteZombie n).observed_frame n r
  rw [he]
  exact .same rfl rfl ((Graph.sameNodes_tryObserve h).nextNode.trans
    (by rw [World.WellFormed.graph_noteZombie])) rfl

theorem World.Grows.disposeNode (a : World V) (n : NodeId) : a.Grows (a.disposeNode env n) := by
  obtain ⟨_, _, _, _, f5⟩ := Graph.dispose_frame env a.graph n
  obtain ⟨_, _, _, he⟩ := ({ a with graph := (a.graph.dispose env n).1 } : World V).noteUnobserved_frame
    (a.graph.dispose env n).2
  refine World.Grows.trans (b := ({ a with graph := (a.graph.dispose env n).1 } : World V))
    (.same rfl rfl f5 rfl) ?_
  unfold World.disposeNode
  dsimp only
  rw [he]
  exact .same rfl rfl rfl rfl

theorem World.Grows.step (h : Step env a b) : a.Grows b := by
  cases h with
  | thread | frame | adopt | queues | flush | schedule | newSubscription | endSubscription | event =>
    exact .same rfl rfl rfl rfl
  | newFrame => exact .of_eq rfl (List.suffix_refl _) (le_refl _) (Nat.le_succ _)
  | remark e _ => exact .push a e
  | observed n r live hr plain => exact .observed a n hr
  | write n v =>
    exact (World.Grows.same rfl rfl rfl rfl : a.Grows (a.setValue n v)).trans (.trigger _ n)
  | trigger n => exact .trigger a n
  | scheduleEffect e => exact .raised (.scheduleEffect a e)
  | deliveries d l _ => exact .of_eq rfl (List.suffix_append _ _) (le_refl _) (le_refl _)
  | newSignal | newComputed | newSource | newEvent =>
    exact .of_eq rfl (List.suffix_refl _) (Nat.le_succ _) (le_refl _)
  | dropNode n idle other =>
    exact (World.Grows.same rfl rfl rfl rfl : a.Grows ({ a with
      graph := a.graph.unregisterObserver n
      signals := Function.update a.signals n none
      computed := Function.update a.computed n none
      events := Function.update a.events n none } : World V)).trans (.disposeNode _ n)

theorem World.Grows.createStep (hw : a.WellFormed) (h : CreateStep a b) : a.Grows b := by
  cases h with
  | effect body external =>
    refine ⟨fun e x hx => ⟨x, ?_, rfl, rfl, rfl, id⟩, List.suffix_refl _, Nat.le_succ _,
      Nat.le_succ _⟩
    have hne : e ≠ a.graph.nextNode := (hw.effects e x hx).1.ne
    simp only [World.newEffect]
    rwa [Function.update_of_ne hne]

theorem World.Grows.closeStep (h : CloseStep env a b) : a.Grows b := by
  cases h with
  | closing e =>
    exact (World.Grows.modifyEffect e (fun x => { x with disposed := true })
      fun x _ => ⟨rfl, rfl, rfl, fun _ => rfl⟩).trans (.unlatch _ e)
  | unhook e hd =>
    exact (World.Grows.same rfl rfl rfl rfl :
      a.Grows ({ a with graph := a.graph.unregisterObserver e } : World V)).trans (.disposeNode _ e)

theorem World.Grows.computeStep (h : ComputeStep env a b) : a.Grows b := by
  cases h with
  | observed n r live hr => exact .observed a n hr
  | saw o n v _ _ _ => exact .push a _
  | setState n s => exact .same rfl rfl rfl rfl
  | store n v =>
    unfold World.store
    split
    · exact .refl a
    · split
      · exact .same rfl rfl (Graph.nextNode_bumpVersion _ _) rfl
      · exact .same rfl rfl rfl rfl

theorem World.Grows.contextStep (h : ContextStep env a b) : a.Grows b := by
  cases h with
  | enter o ho known =>
    obtain ⟨_, _, _, _, f5⟩ := Graph.enterContext_frame env a.graph o
    obtain ⟨_, _, _, he⟩ := ({ a with
      graph := (a.graph.enterContext env o).1, untracked := 0 } : World V).noteUnobserved_frame
      (a.graph.enterContext env o).2
    refine World.Grows.trans (b := ({ a with
      graph := (a.graph.enterContext env o).1, untracked := 0 } : World V)) (.same rfl rfl f5 rfl) ?_
    unfold World.enter
    dsimp only
    rw [he]
    exact .of_eq rfl (List.suffix_cons _ _) (le_refl _) (le_refl _)
  | leave u =>
    obtain ⟨_, _, he⟩ := Graph.exitContext_frame a.graph
    exact .same rfl rfl (by unfold World.leave; rw [he]) rfl

theorem World.Grows.runStep (h : RunStep a b) : a.Grows b := by
  cases h with
  | popEffect e f r _ _ =>
    exact (World.Grows.same rfl rfl rfl rfl : a.Grows { a with flush := f, runs := r }).trans
      (.unlatch _ e)
  | ready e f r _ _ =>
    exact (World.Grows.same rfl rfl rfl rfl :
      a.Grows { a with lane := a.lane.erase e, flush := f, runs := r }).trans (.unlatch _ e)
  | popHooks | popUser => exact .same rfl rfl rfl rfl
  | callHooks => exact .of_eq rfl (List.suffix_cons _ _) (le_refl _) (le_refl _)
  | effect e g hg =>
    refine .modifyEffect e g fun x hx => ?_
    obtain ⟨h1, h2, h3, h4, _⟩ := hg x hx
    exact ⟨h1, h2, h3, fun hd => h4.trans hd⟩

theorem World.Grows.anyStep (hw : a.WellFormed) (h : AnyStep env a b) : a.Grows b := by
  cases h with
  | plain h => exact .step h
  | create h => exact .createStep hw h
  | close h => exact .closeStep h
  | compute h => exact .computeStep h
  | context h => exact .contextStep h
  | run h => exact .runStep h
  | caught r e p => exact .push a _

end Grows

/-- From a well-formed world, to a well-formed world, and as `R` says. -/
def Evolves (R : World V → World V → Prop) (a b : World V) : Prop :=
  a.WellFormed → b.WellFormed ∧ a.Grows b ∧ R a b

/-- A relation that every step satisfies. -/
structure Keeps (env : Enumeration) (T : World V → World V → Prop) : Prop where
  refl : ∀ w, T w w
  trans : ∀ a b c, T a b → T b c → T a c
  step : ∀ {a b}, Step env a b → T a b
  grows : ∀ {a b}, T a b → a.WellFormed → b.WellFormed ∧ a.Grows b
  vacuous : ∀ {a b}, ¬ a.WellFormed → T a b

/-- How a relation that every step from a well-formed world satisfies is kept. -/
theorem Keeps.of_steps {env : Enumeration} {R : World V → World V → Prop}
    (refl : ∀ w : World V, w.WellFormed → R w w)
    (trans : ∀ a b c, a.WellFormed → b.WellFormed → a.Grows b → b.Grows c → R a b → R b c → R a c)
    (step : ∀ a b, a.WellFormed → b.WellFormed → Step env a b → R a b) :
    Keeps env (Evolves R) := by
  refine ⟨fun w hw => ⟨hw, .refl w, refl w hw⟩, fun a b c hab hbc ha => ?_, fun {a b} h ha => ?_,
    fun {a b} h ha => ⟨(h ha).1, (h ha).2.1⟩, fun {a b} h ha => absurd ha h⟩
  · obtain ⟨hb, g1, r1⟩ := hab ha
    obtain ⟨hc, g2, r2⟩ := hbc hb
    exact ⟨hc, g1.trans g2, trans a b c ha hb g1 g2 r1 r2⟩
  · have hb : b.WellFormed := .step h ha
    exact ⟨hb, .step h, step a b ha hb h⟩

theorem evolves_anyStep {env : Enumeration} {R : World V → World V → Prop}
    (step : ∀ a b, a.WellFormed → b.WellFormed → AnyStep env a b → R a b) {a b : World V}
    (h : AnyStep env a b) : Evolves R a b := by
  intro ha
  have hb : b.WellFormed := .anyStep h ha
  exact ⟨hb, .anyStep ha h, step a b ha hb h⟩

structure Meets (T : World V → World V → Prop) (c : Calls V) : Prop where
  exec : ∀ p, Act.Moves T (c.exec p)
  refresh : ∀ n, Act.Moves T (c.refresh n)
  dispose : ∀ o, Act.Moves T (c.dispose o)
  drain : Act.Moves T c.drain

/-- The calls in which effects come and go and computations and runs begin, where an
invariant may need an argument about more than one step. -/
structure Hooks (env : Enumeration) (T : World V → World V → Prop) (c : Calls V) : Prop where
  create : ∀ body external, Act.Moves T (newEffect c body external)
  dispose : ∀ e, Act.Moves T (disposeEffect c env e)
  get : ∀ n, Act.Moves T (getNode c n)
  refresh : ∀ n, Act.Moves T (refresh c env n)
  ready : ∀ e, Act.Moves T (runReady c env e)
  dropped : ∀ e, Act.Moves T (dropReady e)
  drain : Act.Moves T (drain c env)

/-- What is left to show of the bodies of these calls, where the invariant keeps to
single steps, or to a disposal or a computation as a whole. -/
structure Local (env : Enumeration) (T : World V → World V → Prop) : Prop where
  create : ∀ {a b}, CreateStep a b → T a b
  close : ∀ (e : NodeId) (x : EffectInner V) (teardown : Run V Unit) (w : World V),
    Act.Moves T teardown → w.effects e = some x → x.disposed = false →
    Act.MovesAt T (Act.modify (fun w => w.closing e) >>= fun _ =>
      teardown.guarded (Act.modify fun w => w.unhook env e)) w
  context : ∀ {α : Type} (o : NodeId) (body : Run V α) (w : World V), Act.Moves T body →
    w.Runnable o → Act.MovesAt T (runInContext env o body) w
  compute : ∀ {a b}, ComputeStep env a b → T a b
  run : ∀ {a b}, RunStep a b → T a b
  caught : ∀ {a b}, T a b → ∀ r e p, a.runs ≤ r → T a (b.push (.caught r e p))

namespace Keeps

variable {env : Enumeration} {T : World V → World V → Prop} {c : Calls V} {α : Type}

/-- Nothing needs to be shown of a world that is not well-formed. -/
theorem assume (k : Keeps env T) {x : Run V α} {w : World V}
    (h : w.WellFormed → Act.MovesAt T x w) : Act.MovesAt T x w := by
  by_cases hw : w.WellFormed
  · exact h hw
  · exact Act.wp_mono (Act.wp_true True trivial) (fun _ _ _ => k.vacuous hw)
      (fun _ _ _ => k.vacuous hw) id

theorem context (k : Keeps env T) (hx : ∀ {a b}, ContextStep env a b → T a b) (o : NodeId)
    (body : Run V α) (w : World V) (h : Act.Moves T body) (known : w.Runnable o) :
    Act.MovesAt T (runInContext env o body) w := by
  refine .get_bind ?_
  split
  · exact .raise (k.refl w) _
  · rename_i ho
    refine .modify_bind k.trans (hx (.enter o ho known)) (.guarded k.trans ?_ fun t _ =>
      .modify (hx (.leave _)))
    exact (h _).bind k.trans fun a t _ =>
      .modify_bind k.trans (k.step (.remark t _ rfl)) (.pure (k.refl _) a)

theorem closed_closing {e : NodeId} {x : EffectInner V} {w : World V} (hx : w.effects e = some x) :
    (w.closing e).Closed e := by
  refine ⟨{ x with disposed := true, scheduled := false }, ?_, rfl⟩
  unfold World.closing
  rw [effects_unlatch]
  unfold World.modifyEffect
  simp [hx]

theorem close (k : Keeps env T) (hc : ∀ {a b}, CloseStep env a b → T a b) (e : NodeId)
    (x : EffectInner V) (teardown : Run V Unit) (w : World V) (ht : Act.Moves T teardown)
    (hx : w.effects e = some x) :
    Act.MovesAt T (Act.modify (fun w => w.closing e) >>= fun _ =>
      teardown.guarded (Act.modify fun w => w.unhook env e)) w := by
  refine k.assume fun hw => .modify_bind k.trans (hc (.closing e)) ?_
  refine .guarded k.trans (ht _) fun t htt => .modify (hc (.unhook e ?_))
  have hs : CloseStep env w (w.closing e) := .closing e
  exact (k.grows htt (.closeStep hs hw)).2.closed (closed_closing hx)

section Reads

theorem fail (k : Keeps env T) (p : Payload V) : Act.Moves T (Act.raise p : Run V α) :=
  fun w => .raise (k.refl w) p

theorem untrack (k : Keeps env T) {body : Run V α} (h : Act.Moves T body) :
    Act.Moves T (untrack body) := by
  intro w
  refine .modify_bind k.trans (k.step (.thread w _ w.owners w.teardown w.panicking
    fun _ hf => .inl hf)) ?_
  exact .guarded k.trans (h _) fun t _ =>
    .modify (k.step (.thread t _ t.owners t.teardown t.panicking fun _ hf => .inl hf))

theorem assertNoCycle (k : Keeps env T) (n : NodeId) :
    Act.Moves T (assertNoCycle n : Run V Unit) := by
  intro w
  refine .get_bind ?_
  split
  · exact k.fail _ w
  · exact .pure (k.refl w) ()

theorem observeLive (k : Keeps env T) (n : NodeId) (w : World V)
    (h : ∀ r, n ∈ w.graph.nodeMeta → w.graph.tryObserve (0 < w.untracked) n = .ok r →
      T w ((w.noteZombie n).observed n r)) :
    Act.MovesAt T (observeLive n : Run V Unit) w := by
  refine .get_bind ?_
  split
  · rename_i live
    refine .get_bind ?_
    split
    · exact k.fail _ w
    · rename_i r hr
      exact .modify (h r live hr)
  · exact .stop

theorem refreshNode (k : Keeps env T) (m : Meets T c) (n : NodeId) :
    Act.Moves T (refreshNode c n) := by
  intro w
  refine (k.assertNoCycle n w).bind k.trans fun _ t _ => .get_bind ?_
  split
  · exact m.refresh n t
  · exact .pure (k.refl t) ()

theorem anyChanged (k : Keeps env T) (m : Meets T c) (l : List (NodeId × ℕ)) :
    Act.Moves T (anyChanged c l) := by
  induction l with
  | nil => exact .pure k.refl false
  | cons d l ih =>
    intro w
    refine (k.refreshNode m d.1 w).bind k.trans fun _ t _ => .get_bind ?_
    split
    · exact .pure (k.refl t) true
    · exact ih t

theorem dependenciesChanged (k : Keeps env T) (m : Meets T c) (o : NodeId) :
    Act.Moves T (dependenciesChanged c env o) :=
  fun w => .get_bind (k.anyChanged m _ w)

theorem recompute (k : Keeps env T) (l : Local env T) (m : Meets T c) (n : NodeId) : Act.Moves T (recompute c env n) := by
  intro w
  refine .get_bind ?_
  split
  · exact .pure (k.refl w) ()
  · rename_i x hx
    refine .modify_bind k.trans (l.compute (.setState n _)) ?_
    refine .bind k.trans (.onUnwind k.trans (l.context n _ _ (m.exec _) (.inl ?_))
      fun t _ => ?_) ?_
    · unfold World.setState World.modifyComputed
      simp [hx]
    · exact .modify (l.compute (.setState n _))
    · exact fun v t _ => .modify (l.compute (.store n v))

theorem refresh (k : Keeps env T) (l : Local env T) (m : Meets T c) (n : NodeId) : Act.Moves T (refresh c env n) := by
  intro w
  refine .get_bind ?_
  split
  · exact .pure (k.refl w) ()
  · split
    · exact .pure (k.refl w) ()
    · refine (k.dependenciesChanged m n w).bind k.trans fun changed t _ => ?_
      split
      · exact k.recompute l m n t
      · exact .modify (l.compute (.setState n _))
    · exact k.recompute l m n w

theorem observeLive_eq_ok {w u : World V} {n : NodeId} {a : Unit} :
    Adaptite.observeLive n w = .ok a u ↔ n ∈ w.graph.nodeMeta ∧
      ∃ r, w.graph.tryObserve (0 < w.untracked) n = .ok r ∧ u = (w.noteZombie n).observed n r := by
  change (if n ∈ w.graph.nodeMeta then observe n else Act.stop : Run V Unit) w = _ ↔ _
  by_cases hn : n ∈ w.graph.nodeMeta
  · rw [if_pos hn]
    unfold observe
    rw [Act.get_bind]
    cases hr : w.graph.tryObserve (0 < w.untracked) n with
    | error path =>
      constructor
      · intro h
        cases h
      · rintro ⟨_, _, h, _⟩
        cases h
    | ok r =>
      constructor
      · intro h
        cases h
        exact ⟨hn, r, rfl, rfl⟩
      · rintro ⟨_, r', h, rfl⟩
        cases h
        rfl
  · rw [if_neg hn]
    exact ⟨nofun, fun h => absurd h.1 hn⟩

/-- A tracked read leaves an edge at the version that was read. -/
theorem edge_observed {w : World V} {n o : NodeId} {r : Graph × Bool}
    (hr : w.graph.tryObserve (0 < w.untracked) n = .ok r)
    (ht : ((w.noteZombie n).observed n r).tracker = some o) :
    (((w.noteZombie n).observed n r).graph.edgesOf o).lookup n =
      some (((w.noteZombie n).observed n r).graph.version n) := by
  obtain ⟨_, _, he⟩ := (w.noteZombie n).observed_frame n r
  have hu : (w.noteZombie n).untracked = w.untracked := by
    unfold World.noteZombie
    split
    · split <;> rfl
    · rfl
  rw [he] at ht ⊢
  unfold World.tracker at ht
  dsimp only at ht ⊢
  rw [hu] at ht
  unfold Graph.tryObserve at hr
  split at hr
  · cases hr
  · split at ht
    · cases ht
    · rename_i hz
      rw [if_neg (by simpa using hz)] at hr
      split at hr
      · rename_i hs
        cases hr
        rw [hs] at ht
        cases ht
      · rename_i o' rest hs
        cases hr
        change w.graph.stack.head? = some o at ht
        rw [hs] at ht
        cases ht
        rw [Graph.edgesOf_recordEdge, if_pos rfl, AList.lookup_insert]
        rfl

theorem readNode (k : Keeps env T) (l : Local env T) (n : NodeId) :
    Act.Moves T (Adaptite.observeLive n >>= fun _ => readCached n : Run V V) := by
  intro w
  refine .bind_of k.trans (k.observeLive n w fun r live hr => l.compute (.observed n r live hr))
    fun _ u hu _ => .get_bind ?_
  obtain ⟨_, r, hr, rfl⟩ := observeLive_eq_ok.mp hu
  split
  · rename_i v hv
    refine .modify_bind k.trans ?_ (.pure (k.refl _) v)
    unfold World.noteSaw
    split
    · rename_i o ht
      exact l.compute (.saw o n v ht (edge_observed hr ht) hv)
    · exact k.refl _
  · exact k.fail _ _

theorem getNode (k : Keeps env T) (l : Local env T) (m : Meets T c) (n : NodeId) :
    Act.Moves T (getNode c n) := by
  intro w
  refine .get_bind ?_
  split
  · exact k.readNode l n w
  · exact (k.assertNoCycle n w).bind k.trans fun _ t _ =>
      (m.refresh n t).bind k.trans fun _ u _ => k.readNode l n u
  · exact .stop

theorem peekCached (k : Keeps env T) (n : NodeId) : Act.Moves T (peekCached n : Run V V) := by
  intro w
  refine .get_bind ?_
  split
  · exact .pure (k.refl w) _
  · exact k.fail _ w

theorem peekNode (k : Keeps env T) (m : Meets T c) (n : NodeId) : Act.Moves T (peekNode c n) := by
  intro w
  refine .get_bind ?_
  split
  · exact k.peekCached n w
  · exact (k.assertNoCycle n w).bind k.trans fun _ t _ =>
      (m.refresh n t).bind k.trans fun _ t _ => k.peekCached n t
  · exact .stop

theorem setSignal (k : Keeps env T) (n : NodeId) (v : V) : Act.Moves T (setSignal env n v) := by
  intro w
  refine .get_bind ?_
  split
  · exact .stop
  · split
    · exact .pure (k.refl w) _
    · exact .modify_bind k.trans (k.step (.write w n v)) (.pure (k.refl _) _)

theorem updateSignal (k : Keeps env T) (n : NodeId) (f : V → V) :
    Act.Moves T (updateSignal env n f) := by
  intro w
  refine .get_bind ?_
  split
  · exact .stop
  · exact .modify_bind k.trans (k.step (.write w n _)) (.pure (k.refl _) _)

end Reads

section Owners

theorem withOwner (k : Keeps env T) (entry : Option FrameId) {body : Run V α} (w : World V)
    (known : ∀ f, entry = some f → f < w.nextFrame)
    (h : Act.MovesAt T body { w with owners := entry :: w.owners }) :
    Act.MovesAt T (withOwner entry body) w := by
  refine .modify_bind k.trans (k.step (.thread w w.untracked _ w.teardown w.panicking
    fun f hf => ?_)) ?_
  · exact (List.mem_cons.mp hf).elim (fun h => .inr (known f h.symm)) .inl
  exact .guarded k.trans h fun t _ =>
    .modify (k.step (.thread t t.untracked _ t.teardown t.panicking
      fun _ hf => .inl (List.mem_of_mem_tail hf)))

theorem inTeardown (k : Keeps env T) {body : Run V α} (h : Act.Moves T body) :
    Act.Moves T (inTeardown body) := by
  intro w
  refine .modify_bind k.trans (k.step (.thread w w.untracked w.owners _ w.panicking
    fun _ hf => .inl hf)) ?_
  exact .guarded k.trans (h _) fun t _ =>
    .modify (k.step (.thread t t.untracked t.owners _ t.panicking fun _ hf => .inl hf))

theorem adoptIntoCurrent (k : Keeps env T) (m : Meets T c) (child : Owned) :
    Act.Moves T (adoptIntoCurrent c child) := by
  intro w
  refine .get_bind ?_
  split
  · exact .pure (k.refl w) ()
  · split
    · exact .stop
    · split
      · exact m.dispose child w
      · exact .modify (k.step (.adopt w _ child))

theorem captureAll {β : Type} (k : Keeps env T) {f : β → Run V Unit}
    (h : ∀ b, Act.Moves T (f b)) (l : List β) : Act.Moves T (captureAll f l) := by
  induction l with
  | nil => exact .pure k.refl none
  | cons b l ih =>
    intro w
    refine .bind k.trans (h b w).attempt fun r t _ => .bind k.trans (ih t) fun later u _ => ?_
    split <;> exact .pure (k.refl u) _

theorem execUnit (k : Keeps env T) (m : Meets T c) (p : Prog V) :
    Act.Moves T (c.exec p >>= fun _ => (pure () : Run V Unit)) :=
  (m.exec p).bind k.trans fun _ => .pure k.refl ()

theorem tearDown (k : Keeps env T) (m : Meets T c) (frame : OwnerFrame V) :
    Act.Moves T (tearDown c frame) := by
  refine k.untrack fun w => k.withOwner none w nofun (k.inTeardown ?_ _)
  refine (k.captureAll (k.execUnit m) _).bind k.trans fun first => ?_
  exact (k.captureAll m.dispose _).bind k.trans fun later => .pure k.refl _

theorem frame (k : Keeps env T) (w : World V) (f : FrameId) (g : OwnerFrame V → OwnerFrame V)
    (h : ∀ x : OwnerFrame V, x.Similar (g x)) : T w (w.modifyFrame f g) := k.step (.frame w f g h)

theorem resetFrame (k : Keeps env T) (m : Meets T c) (f : FrameId) :
    Act.Moves T (resetFrame c f) := by
  intro w
  refine .get_bind ?_
  split
  · exact .stop
  · refine .modify_bind k.trans (k.frame w f _ fun x => ⟨rfl, rfl, id⟩) ?_
    refine (k.tearDown m _ _).bind k.trans fun first t _ => ?_
    split
    · exact .pure (k.refl t) ()
    · refine .get_bind ?_
      split
      · exact .pure (k.refl t) ()
      · exact .raise (k.refl t) _

theorem disposeFrame (k : Keeps env T) (m : Meets T c) (f : FrameId) :
    Act.Moves T (disposeFrame c f) := by
  intro w
  refine .get_bind ?_
  split
  · exact .stop
  · split
    · exact .pure (k.refl w) ()
    · exact .modify_bind k.trans (k.frame w f _ fun x => ⟨rfl, rfl, fun _ => rfl⟩)
        (k.resetFrame m f _)

theorem onCleanup (k : Keeps env T) (m : Meets T c) (p : Prog V) :
    Act.Moves T (onCleanup c p) := by
  intro w
  refine .get_bind ?_
  split
  · split <;> exact k.fail _ w
  · split
    · exact .stop
    · split
      · exact k.execUnit m p w
      · exact .modify (k.frame w _ _ fun x => ⟨rfl, rfl, id⟩)

theorem dropFrame (k : Keeps env T) (m : Meets T c) (f : FrameId) :
    Act.Moves T (dropFrame c f) := by
  intro w
  refine .get_bind ?_
  split
  · exact .stop
  · split
    · exact .pure (k.refl w) ()
    · refine .modify_bind k.trans (k.frame w f (fun frame => { frame with dropped := true })
        fun x => ⟨rfl, rfl, id⟩) ?_
      refine .modify_bind k.trans (k.step (.thread _ w.untracked w.owners w.teardown _
        fun _ hf => .inl hf)) ?_
      exact .guarded k.trans (k.disposeFrame m f _) fun t _ =>
        .modify (k.step (.thread t t.untracked t.owners t.teardown _ fun _ hf => .inl hf))

theorem openScope (k : Keeps env T) (m : Meets T c) (handler : Option (Payload V → Prog V))
    (body : Prog V) : Act.Moves T (openScope c handler body) := by
  intro w
  refine .get_bind (.modify_bind k.trans (k.step (.newFrame w handler)) ?_)
  refine .bind k.trans (.onUnwind k.trans (k.withOwner _ _ ?_ (m.exec body _)) fun t _ =>
    k.dropFrame m _ t) fun v t _ => ?_
  · rintro f ⟨⟩
    exact Nat.lt_succ_self _
  exact (k.adoptIntoCurrent m _ t).bind k.trans fun _ u _ => .pure (k.refl u) _

theorem owner (k : Keeps env T) : Act.Moves T (owner : Run V (Option FrameId)) := by
  intro w
  refine .get_bind ?_
  split
  · exact .pure (k.refl w) _
  · exact .modify_bind k.trans (k.frame w _ _ fun x => ⟨rfl, rfl, id⟩) (.pure (k.refl _) _)

theorem runIn (k : Keeps env T) (m : Meets T c) (f : FrameId) (body : Prog V) :
    Act.Moves T (runIn c f body) := by
  intro w
  refine .get_bind ?_
  split
  · exact .stop
  · rename_i x hx
    refine k.assume fun hw => k.withOwner _ w ?_ (m.exec body _)
    rintro f ⟨⟩
    exact (hw.frames _ x hx).1

end Owners

section Effects

theorem newEffect (k : Keeps env T) (l : Local env T) (m : Meets T c) (body : Body V)
    (external : Bool) : Act.Moves T (newEffect c body external) := by
  intro w
  refine .get_bind (.modify_bind k.trans (l.create (.effect body external)) ?_)
  refine (k.adoptIntoCurrent m _ _).bind k.trans fun _ t _ => ?_
  exact .modify_bind k.trans (k.step (.scheduleEffect t _)) (.pure (k.refl _) _)

theorem disposeEffect (k : Keeps env T) (l : Local env T) (m : Meets T c) (e : NodeId) :
    Act.Moves T (disposeEffect c env e) := by
  intro w
  refine .get_bind ?_
  split
  · exact .stop
  · rename_i x hx
    split
    · exact .pure (k.refl w) ()
    · rename_i hd
      exact l.close e x _ w (k.disposeFrame m x.owner) hx (by simpa using hd)

theorem observeEvent (k : Keeps env T) (n : NodeId) :
    Act.Moves T (observeEvent n : Run V Unit) := by
  intro w
  refine .get_bind ?_
  split
  · rename_i hn
    exact k.observeLive n w fun r live hr => k.step (.observed w n r live hr (.inr hn))
  · exact .stop

theorem runBody (k : Keeps env T) (m : Meets T c) (body : Body V) :
    Act.Moves T (runBody c body) := by
  cases body with
  | user p => exact k.execUnit m p
  | drainQueue event queue handler =>
    intro w
    refine (k.observeEvent event w).bind k.trans fun _ t _ => .get_bind ?_
    refine .modify_bind k.trans (k.step (.queues t _ t.nextQueue)) ?_
    refine k.untrack (.sequence k.refl k.trans _ _ fun v _ u => ?_) _
    exact .modify_bind k.trans (k.step (.remark u _ rfl)) (k.execUnit m _ _)

theorem similarState (x : EffectInner V) (s : State) : x.Similar { x with state := s } :=
  ⟨rfl, rfl, rfl, rfl, rfl⟩

theorem checkDivergence (k : Keeps env T) (l : Local env T) (e : NodeId) :
    Act.Moves T (checkDivergence e : Run V Unit) := by
  intro w
  refine .get_bind ?_
  split
  · exact .stop
  · rename_i x hx
    refine .modify_bind k.trans (l.run (.effect e _ fun y hy => ?_)) ?_
    · rw [hx] at hy
      cases hy
      unfold EffectInner.countRun
      split <;> exact ⟨rfl, rfl, rfl, rfl, rfl⟩
    · split
      · exact .raise (k.refl _) _
      · exact .pure (k.refl _) ()

theorem shouldRun (k : Keeps env T) (l : Local env T) (m : Meets T c) (e : NodeId) (s : State) :
    Act.Moves T (shouldRun c env e s) := by
  cases s with
  | clean => exact .pure k.refl false
  | dirty => exact .pure k.refl true
  | check =>
    intro w
    refine .onUnwind k.trans (k.dependenciesChanged m e w) fun t _ => .get_bind ?_
    split
    · exact .stop
    · split
      · exact .pure (k.refl t) ()
      · exact .modify (k.trans _ _ _ (l.run (.effect e _ fun x _ => similarState x .dirty))
          (k.step (.scheduleEffect _ e)))

theorem settleRerun (k : Keeps env T) (l : Local env T) (e : NodeId) :
    Act.Moves T (settleRerun e : Run V Unit) := by
  intro w
  refine .get_bind ?_
  split
  · exact .stop
  · refine .modify_bind k.trans (l.run (.effect e _ fun x _ => ⟨rfl, rfl, rfl, rfl, rfl⟩)) ?_
    split
    · exact .modify (k.step (.scheduleEffect _ e))
    · exact .pure (k.refl _) ()

theorem runWindow (k : Keeps env T) (l : Local env T) (m : Meets T c) (e : NodeId)
    (x : EffectInner V) (w : World V) (ho : x.owner < w.nextFrame) :
    Act.MovesAt T (runWindow c env e x) w := by
  refine k.assume fun hw => ?_
  have hstart := l.run (a := w) (.effect e (fun x => { x with running := true })
    fun x _ => ⟨rfl, rfl, rfl, rfl, rfl⟩)
  refine .modify_bind k.trans hstart ?_
  refine .guarded k.trans ?_ fun t _ =>
    .modify (l.run (.effect e _ fun x _ => ⟨rfl, rfl, rfl, rfl, rfl⟩))
  refine .onUnwind k.trans ?_ fun t _ => .modify (k.step (.remark t _ rfl))
  refine (k.resetFrame m x.owner _).bind k.trans fun _ t ht => .get_bind ?_
  split
  · exact .pure (k.refl t) ()
  · rename_i hd
    have hot : x.owner < t.nextFrame :=
      ho.trans_le (k.grows (k.trans _ _ _ hstart ht) hw).2.nextFrame
    refine .bind k.trans (k.withOwner _ t ?_ (l.context e _ _ (k.runBody m x.body) (.inr ?_)))
      fun _ u _ => k.settleRerun l e u
    · rintro f ⟨⟩
      exact hot
    · change ∃ x, t.effects e = some x ∧ _
      cases ht : t.effects e with
      | none => simp [ht] at hd
      | some y => exact ⟨y, rfl, by simpa [ht] using hd⟩

/-- A run starts where its ticket was taken, and goes on from its first step. -/
theorem runScheduledInner (k : Keeps env T) (l : Local env T) (m : Meets T c) (e : NodeId)
    {w₀ w : World V} (h : T w₀ (w.unlatch e)) :
    Act.MovesFrom T w₀ (runScheduledInner c env e) w := by
  refine .get_bind ?_
  split
  · exact .stop
  · rename_i x hx
    refine .modify_bind k.trans h (k.assume fun hw => ?_)
    have ho : x.owner < (w.unlatch e).nextFrame :=
      (hw.effects e { x with scheduled := false } (by rw [effects_unlatch]; simp [hx])).2.1
    split
    · exact .pure (k.refl _) ()
    · split
      · exact .modify (l.run (.effect e _ fun x _ => ⟨rfl, rfl, rfl, rfl, rfl⟩))
      · have hstart := l.run (a := w.unlatch e) (.effect e (fun x => { x with state := .clean })
          fun x _ => similarState x .clean)
        have hw' := (k.grows hstart hw).1
        refine .modify_bind k.trans hstart ?_
        refine (k.shouldRun l m e _ _).bind k.trans fun run t ht => .get_bind ?_
        have hot := ho.trans_le (k.grows ht hw').2.nextFrame
        have hwt := (k.grows ht hw').1
        split
        · exact .pure (k.refl t) ()
        · split
          · exact (k.checkDivergence l e t).bind k.trans fun _ u hu =>
              k.runWindow l m e _ u (hot.trans_le (k.grows hu hwt).2.nextFrame)
          · exact .pure (k.refl t) ()

theorem runScheduled (k : Keeps env T) (l : Local env T) (m : Meets T c) (e : NodeId)
    {w₀ w : World V} (le : w₀.runs ≤ w.runs)
    (h : ∀ r, w.runs ≤ r → T w₀ (({ w with runs := r } : World V).unlatch e)) :
    Act.MovesFrom T w₀ (runScheduled c env e) w := by
  refine .get_bind ?_
  split
  · exact .stop
  · refine .after_modify ?_
    split
    · exact k.runScheduledInner l m e (h _ (Nat.le_succ _))
    · refine Act.MovesFrom.bind' (k.runScheduledInner l m e (h _ (Nat.le_succ _))).attempt
        fun r t ht => ?_
      split
      · exact .pure ht ()
      · refine Act.MovesFrom.bind' (.after k.trans ht (k.disposeEffect l m e t)) fun _ u hu => ?_
        exact .modify_bind k.trans (l.caught hu _ _ _ le) (k.execUnit m _ _)

end Effects

section Flushes

theorem flush (k : Keeps env T) (w : World V) (f : Flush (Job V)) (h : w.flush.SameQueue f) :
    T w { w with flush := f } := k.step (.flush w f h)

theorem sameQueue_beginFlush {J : Type} (f : Flush J) : f.SameQueue f.beginFlush.1 := by
  unfold Flush.beginFlush
  split <;> exact ⟨rfl, rfl, rfl⟩

theorem sameQueue_rearm {J : Type} (f : Flush J) : f.SameQueue f.rearm := by
  unfold Flush.rearm
  split
  · exact ⟨rfl, rfl, rfl⟩
  · exact Flush.ensureFlushScheduled_queue { f with flushScheduled := false }

theorem externalFlush (k : Keeps env T) {body : Run V α} (h : Act.Moves T body) :
    Act.Moves T (externalFlush body) := by
  intro w
  refine .guarded k.trans ?_ fun t _ => .modify (k.flush t _ ⟨rfl, rfl, rfl⟩)
  exact .modify_bind k.trans (k.flush w _ (sameQueue_beginFlush _)) (h _)

theorem runReady (k : Keeps env T) (l : Local env T) (m : Meets T c) (e : NodeId) :
    Act.Moves T (runReady c env e) := by
  intro w
  refine .get_bind ?_
  split
  · refine .after_modify ?_
    split
    · exact k.runScheduled l m e (le_refl w.runs) fun r hr => l.run (.ready e _ r ⟨rfl, rfl, rfl⟩ hr)
    · refine .guarded k.trans (.after_modify ?_) fun t _ => .modify (k.flush t _ ⟨rfl, rfl, rfl⟩)
      exact k.runScheduled l m e (le_refl w.runs) fun r hr =>
        l.run (.ready e _ r (sameQueue_beginFlush _) hr)
  · exact .stop

theorem dropReady (l : Local env T) (e : NodeId) :
    Act.Moves T (dropReady e : Run V Unit) := by
  intro w
  refine .get_bind ?_
  split
  · exact .modify (l.run (.ready e _ w.runs ⟨rfl, rfl, rfl⟩ (le_refl _)))
  · exact .stop

theorem settle_of_skip {w : World V} {n : NodeId} {h : ObservationHooks V} (hh : w.hooks n = some h)
    (hs : (h.cancelled || decide (h.delivered = h.observed)) = true) :
    w.modifyHooks n ObservationHooks.settle =
      w.modifyHooks n fun h => { h with queued := false } := by
  have : h.settle = { h with queued := false } := by
    unfold ObservationHooks.settle
    rw [Bool.or_eq_true, decide_eq_true_eq] at hs
    split
    · rfl
    · rename_i hc
      rw [← hs.resolve_left hc]
  unfold World.modifyHooks
  rw [hh, Option.map_some, Option.map_some, this]

theorem settle_of_run {w : World V} {n : NodeId} {h : ObservationHooks V} (hh : w.hooks n = some h)
    (hs : ¬ (h.cancelled || decide (h.delivered = h.observed)) = true) :
    w.modifyHooks n ObservationHooks.settle =
      (w.modifyHooks n fun h => { h with queued := false }).modifyHooks n
        fun h => { h with delivered := h.observed } := by
  have hc : h.cancelled = false := by
    rw [Bool.or_eq_true, not_or, Bool.not_eq_true] at hs
    exact hs.1
  unfold World.modifyHooks ObservationHooks.settle
  simp [hh, hc]

theorem drain (k : Keeps env T) (l : Local env T) (m : Meets T c) : Act.Moves T (drain c env) := by
  intro w
  refine .get_bind ?_
  split
  · exact .pure (k.refl w) ()
  · rename_i job f hp
    refine .after_modify (.bind k.trans ?_ fun _ t _ => m.drain t)
    cases job with
    | effect e => exact k.runScheduled l m e (le_refl w.runs) fun r hr => l.run (.popEffect e f r hp hr)
    | user p => exact .after k.trans (l.run (.popUser p f hp)) (k.execUnit m p _)
    | hooks n =>
      refine .get_bind ?_
      split
      · exact .stop
      · rename_i h hh
        refine .after_modify ?_
        split
        · rename_i hskip
          have hstep := l.run (.popHooks n f hp fun k hk => ?_)
          · refine .pure ?_ ()
            rwa [settle_of_skip hh hskip] at hstep
          · cases hh.symm.trans hk
            simpa using hskip
        · rename_i hrun
          have hc := hrun
          simp only [Bool.or_eq_true, decide_eq_true_eq, not_or, Bool.not_eq_true] at hc
          have hstep := l.run (.callHooks n h f hp hh hc.1 hc.2)
          rw [settle_of_run hh hrun] at hstep
          exact .modify_bind k.trans hstep (k.execUnit m _ _)

theorem flushJobs (k : Keeps env T) (m : Meets T c) : Act.Moves T (flushJobs c) := by
  intro w
  refine .get_bind ?_
  split
  · exact .modify (k.flush w _ ⟨rfl, rfl, rfl⟩)
  · refine .modify_bind k.trans (k.flush w _ ⟨rfl, rfl, rfl⟩) ?_
    exact .guarded k.trans (m.drain _) fun t _ => .modify (k.flush t _ (sameQueue_rearm _))

theorem runMicrotask (k : Keeps env T) (m : Meets T c) : Act.Moves T (runMicrotask c) := by
  intro w
  refine .get_bind ?_
  split
  · exact .stop
  · exact .modify_bind k.trans (k.flush w _ ⟨rfl, rfl, rfl⟩) (k.flushJobs m _)

end Flushes

section Events

theorem newSubscription (k : Keeps env T) (m : Meets T c) (cancel : Cancel) :
    Act.Moves T (newSubscription c cancel) := by
  intro w
  refine .get_bind (.modify_bind k.trans (k.step (.newSubscription w cancel)) ?_)
  exact (k.adoptIntoCurrent m _ _).bind k.trans fun _ t _ => .pure (k.refl t) _

theorem subscribe (k : Keeps env T) (m : Meets T c) (n : NodeId) (s : Subscriber V) :
    Act.Moves T (subscribe c n s) := by
  intro w
  refine .get_bind ?_
  split
  · exact .stop
  · exact .modify_bind k.trans (k.step (.event w n _)) (k.newSubscription m _ _)

theorem on (k : Keeps env T) (h : Hooks env T c) (m : Meets T c) (n : NodeId) (handler : V → Prog V) :
    Act.Moves T (on c n handler) := by
  intro w
  refine .get_bind (.modify_bind k.trans (k.step (.queues w w.queues _)) ?_)
  refine (k.subscribe m n _ _).bind k.trans fun direct t _ => ?_
  exact (h.create _ _ t).bind k.trans fun e u _ => k.newSubscription m _ u

theorem unsubscribe (k : Keeps env T) (m : Meets T c) (s : SubscriptionId) :
    Act.Moves T (unsubscribe c s) := by
  intro w
  refine .get_bind ?_
  split
  · exact .stop
  · split
    · refine .modify_bind k.trans (k.step (.endSubscription w s)) ?_
      split
      · exact .pure (k.refl _) ()
      · rename_i cancel _
        cases cancel with
        | subscriber n id => exact .modify (k.step (.event _ n _))
        | drain direct e => exact (m.dispose _ _).bind k.trans fun _ t _ => m.dispose _ t
    · exact .pure (k.refl w) ()

theorem beginDelivery (k : Keeps env T) (w : World V) (n : NodeId) (v : V)
    (l : List (Subscriber V)) : T w (w.beginDelivery n v l) := by
  unfold World.beginDelivery
  simp only [List.append_assoc]
  rw [← List.append_assoc]
  refine k.step (.deliveries w _ _ fun e he => ?_)
  rcases List.mem_append.mp he with he | he
  · obtain ⟨q, _, rfl⟩ := List.mem_map.mp he
    rfl
  · obtain ⟨q, _, rfl⟩ := List.mem_map.mp (List.mem_reverse.mp he)
    rfl

theorem emit (k : Keeps env T) (m : Meets T c) (n : NodeId) (v : V) :
    Act.Moves T (emit c env n v) := by
  intro w
  refine .get_bind ?_
  split
  · exact .stop
  · refine .modify_bind k.trans (k.beginDelivery w n v _) (.bind k.trans ?_ fun _ t _ =>
      .modify (k.step (.trigger t n)))
    refine .guarded k.trans (k.untrack ?_ _) fun t _ =>
      .modify (k.step (.deliveries t _ [] (by simp)))
    refine .sequence k.refl k.trans _ _ fun s _ u => ?_
    refine .modify_bind k.trans (k.step (.deliveries u _ [] (by simp))) ?_
    cases s with
    | immediate handler => exact k.execUnit m _ _
    | feeder q => exact .modify (k.step (.queues _ _ _))

end Events

section Interface

theorem create (k : Keeps env T) {f : World V → World V} (h : ∀ w, T w (f w)) :
    Act.Moves T (create f) :=
  fun w => .get_bind (.modify_bind k.trans (h w) (.pure (k.refl _) _))

theorem dropNode (k : Keeps env T) (n : NodeId) : Act.Moves T (dropNode env n : Run V Unit) := by
  intro w
  refine .get_bind ?_
  split
  · exact .stop
  · rename_i h
    rw [not_or, not_or] at h
    refine .modify (k.step (.dropNode w n h.1 ?_))
    simpa using h.2.1

theorem withSource (n : NodeId) {body : Run V Unit}
    (h : ∀ w : World V, w.graph.nodeKind n = some .source → Act.MovesAt T body w) :
    Act.Moves T (withSource n body) := by
  intro w
  refine .get_bind ?_
  split
  · rename_i hn
    exact h w hn
  · exact .stop

theorem disposeOwned (k : Keeps env T) (h : Hooks env T c) (m : Meets T c) (o : Owned) :
    Act.Moves T (disposeOwned c env o) := by
  cases o with
  | effect e => exact h.dispose e
  | scope f => exact k.disposeFrame m f
  | subscription s => exact k.unsubscribe m s

theorem operate (k : Keeps env T) (h : Hooks env T c) (m : Meets T c) (op : Call V)
    (f : op.Closure → Prog V) : Act.Moves T (operate c env op f) := by
  cases op with
  | panic v => exact k.fail _
  | catchUnwind => exact fun w => (m.exec _ w).attempt
  | untrack => exact k.untrack (m.exec _)
  | get n => exact h.get n
  | peek n => exact k.peekNode m n
  | set n v => exact k.setSignal n v
  | replace n v => exact k.updateSignal n fun _ => v
  | update n g => exact (k.updateSignal n g).bind k.trans fun _ => .pure k.refl ()
  | observe n =>
    exact withSource n fun w hn => k.observeLive n w fun r live hr =>
      k.step (.observed w n r live hr (.inl hn))
  | trigger n => exact withSource n fun w _ => .modify (k.step (.trigger w n))
  | signal v same => exact k.create fun w => k.step (.newSignal w v same)
  | thunk => exact k.create fun w => k.step (.newComputed w _ _)
  | memo equals => exact k.create fun w => k.step (.newComputed w _ _)
  | source => exact k.create fun w => k.step (.newSource w none)
  | sourceWithHooks =>
    exact k.create fun w => k.step (.newSource w (some (f true, f false)))
  | event => exact k.create fun w => k.step (.newEvent w)
  | effect => exact h.create _ _
  | effectWith => exact h.create _ _
  | disposeEffect e => exact h.dispose e
  | drop n => exact k.dropNode n
  | scope => exact k.openScope m _ _
  | scopeCatch => exact k.openScope m _ _
  | disposeScope frame => exact k.disposeFrame m frame
  | owner => exact k.owner
  | runIn frame => exact k.runIn m frame _
  | unowned => exact fun w => k.withOwner none w nofun (m.exec _ _)
  | onCleanup => exact k.onCleanup m _
  | emit n v => exact k.emit m n v
  | subscribe n => exact k.subscribe m n _
  | on n => exact k.on h m n _
  | unsubscribe s => exact k.unsubscribe m s
  | schedule => exact fun w => .modify (k.step (.schedule w _))
  | flushNow => exact k.flushJobs m
  | runMicrotask => exact k.runMicrotask m
  | externalFlush => exact k.externalFlush (m.exec _)
  | runReady e => exact h.ready e
  | dropReady e => exact h.dropped e

theorem noteImpure (k : Keeps env T) (op : Call V) : Act.Moves T (noteImpure op) := by
  intro w
  refine .modify ?_
  split
  · split
    · exact k.refl w
    · exact k.step (.remark w _ rfl)
  · exact k.refl w

theorem exec (k : Keeps env T) (h : Hooks env T c) (m : Meets T c) (p : Prog V) :
    Act.Moves T (p.run (perform c env)) :=
  Program.moves_run k.refl k.trans (fun op f => (k.noteImpure op).bind k.trans fun _ =>
    k.operate h m op f) p

/-- Whatever every step keeps, the library keeps, at any depth of calls. -/
theorem calls (k : Keeps env T)
    (h : ∀ depth, Meets T (Adaptite.calls env depth) → Hooks env T (Adaptite.calls env depth))
    (depth : ℕ) : Meets T (Adaptite.calls env depth) := by
  induction depth with
  | zero => exact ⟨fun _ _ => .stop, fun _ _ => .stop, fun _ _ => .stop, fun _ => .stop⟩
  | succ depth ih =>
    have hd := h depth ih
    exact ⟨k.exec hd ih, hd.refresh, k.disposeOwned hd ih, hd.drain⟩

theorem hooks (k : Keeps env T) (l : Local env T) (m : Meets T c) : Hooks env T c :=
  ⟨k.newEffect l m, k.disposeEffect l m, k.getNode l m, k.refresh l m, k.runReady l m, dropReady l,
    k.drain l m⟩

theorem meets (k : Keeps env T) (l : Local env T) (depth : ℕ) :
    Meets T (Adaptite.calls env depth) := k.calls (fun _ => k.hooks l) depth

/-- Every step, one by one. -/
theorem local_of_steps (k : Keeps env T) (h : ∀ {a b}, AnyStep env a b → T a b) : Local env T :=
  ⟨fun hs => h (.create hs), fun e x teardown w ht hx _ => k.close (fun hs => h (.close hs)) e x teardown w ht hx,
    fun o body w hb known => k.context (fun hs => h (.context hs)) o body w hb known,
    fun hs => h (.compute hs), fun hs => h (.run hs),
    fun hab r e p _ => k.trans _ _ _ hab (h (.caught r e p))⟩

end Interface

end Keeps

/-- The worlds in which the host program may call the library: between two of its
operations, or in a closure that an operation has called. -/
inductive Reached (env : Enumeration) : World V → Prop where
  | init : Reached env {}
  | returned {w w' : World V} {depth : ℕ} {p : Prog V} {v : V} (before : Reached env w)
      (h : exec env depth p w = .ok v w') : Reached env w'
  | unwound {w w' : World V} {depth : ℕ} {p : Prog V} {e : Payload V} (before : Reached env w)
      (h : exec env depth p w = .panic e w') : Reached env w'
  | within {w w' : World V} (before : Reached env w) (h : Step env w w') : Reached env w'
  | closing {w w' : World V} (before : Reached env w) (h : CloseStep env w w') : Reached env w'

namespace Reached

variable {env : Enumeration} {w : World V}

theorem invariant {R : World V → World V → Prop} (k : Keeps env (Evolves R))
    (hc : ∀ {a b}, CloseStep env a b → Evolves R a b)
    (h : ∀ depth, Meets (Evolves R) (calls env depth)) (P : World V → Prop) (base : P {})
    (keep : ∀ a b, a.WellFormed → b.WellFormed → R a b → P a → P b) (hw : Reached env w) :
    w.WellFormed ∧ P w := by
  have kept : ∀ {a b : World V}, Evolves R a b → a.WellFormed ∧ P a → b.WellFormed ∧ P b := by
    intro a b hab ha
    obtain ⟨h1, _, h3⟩ := hab ha.1
    exact ⟨h1, keep _ _ ha.1 h1 h3 ha.2⟩
  induction hw with
  | init => exact ⟨.empty, base⟩
  | returned _ hx ih => exact kept (((h _).exec _ _).ok hx) ih
  | unwound _ hx ih => exact kept (((h _).exec _ _).panic hx) ih
  | within _ hs ih => exact kept (k.step hs) ih
  | closing _ hs ih => exact kept (hc hs) ih

/-- A program only ever takes steps. -/
theorem visited (hw : Reached env w) : Visited env w := by
  have k : Keeps env (Evolves (Relation.ReflTransGen (AnyStep (V := V) env))) :=
    .of_steps (fun _ _ => .refl) (fun _ _ _ _ _ _ _ => .trans) fun _ _ _ _ h => .single (.plain h)
  have any : ∀ {a b : World V}, AnyStep env a b →
      Evolves (Relation.ReflTransGen (AnyStep (V := V) env)) a b :=
    fun h => evolves_anyStep (fun _ _ _ _ h => .single h) h
  exact (hw.invariant k (fun hs => any (.close hs)) (k.meets (k.local_of_steps any)) (Visited env)
    .refl fun _ _ _ _ hr hv => hv.trans hr).2

end Reached

/-- The world that a host program leaves, starting from nothing. -/
def World.after (env : Enumeration) (depth : ℕ) (p : Prog V) : World V :=
  match exec env depth p {} with
  | .ok _ w => w
  | .panic _ w => w
  | .stuck => {}

theorem reached_after (env : Enumeration) (depth : ℕ) (p : Prog V) :
    Reached env (World.after env depth p) := by
  unfold World.after
  cases h : exec env depth p {} with
  | ok v w => exact .returned .init h
  | panic e w => exact .unwound .init h
  | stuck => exact .init

end Adaptite

import Adaptite.Base.Shadow
import Adaptite.Glitches
import Adaptite.Playing

set_option autoImplicit false

namespace Adaptite

open Unwinding

namespace Net

variable {V : Type}

theorem computed_of_codes {net t : Net V} (h : t.codes = net.codes) {n : NodeId}
    {x : NetComputed V} (hx : t.computed n = some x) :
    ∃ y, net.computed n = some y ∧ y.compute = x.compute := by
  have hn := congrFun h n
  unfold codes at hn
  rw [hx, Option.map_some, eq_comm, Option.map_eq_some_iff] at hn
  obtain ⟨y, hy, he⟩ := hn
  exact ⟨y, hy, congrArg Prod.fst he⟩

def lend (net : Net V) (held : NodeId → ℕ) : Net V :=
  { net with borrows := fun m => net.borrows m + held m }

/-- `t` is `s` with more values lent, and `s` has lent what `lent` counts. -/
structure Lent (held lent : NodeId → ℕ) (s t : Net V) : Prop where
  pure : ∀ n x previous, s.computed n = some x → (x.compute previous).Pure
  lent : s.borrows = lent
  eq : t = s.lend held

variable {held lent : NodeId → ℕ} {s t : Net V} {n : NodeId}

theorem Lent.change (h : Lent held lent s t) {f : Net V → Net V}
    (hf : f (s.lend held) = (f s).lend held) (hb : (f s).borrows = s.borrows)
    (hc : (f s).computed = s.computed) : Lent held lent (f s) (f t) where
  pure := hc ▸ h.pure
  lent := hb.trans h.lent
  eq := h.eq ▸ hf

theorem Lent.modifyComputed (h : Lent held lent s t) (n : NodeId)
    {f : NetComputed V → NetComputed V} (hf : ∀ x, (f x).compute = x.compute) :
    Lent held lent (s.modifyComputed n f) (t.modifyComputed n f) where
  pure m x previous hx := by
    change Function.update s.computed n ((s.computed n).map f) m = some x at hx
    by_cases hm : m = n
    · subst hm
      rw [Function.update_self, Option.map_eq_some_iff] at hx
      obtain ⟨y, hy, rfl⟩ := hx
      rw [hf]
      exact h.pure m y previous hy
    · rw [Function.update_of_ne hm] at hx
      exact h.pure m x previous hx
  lent := h.lent
  eq := by rw [h.eq]; rfl

theorem Lent.setState (h : Lent held lent s t) (n : NodeId) (state : State) :
    Lent held lent (s.setState n state) (t.setState n state) :=
  h.modifyComputed n fun _ => rfl

theorem Lent.borrow (h : Lent held lent s t) (n : NodeId) :
    Lent held (Function.update lent n (lent n + 1)) (s.borrow n) (t.borrow n) where
  pure := h.pure
  lent := by rw [← h.lent]; rfl
  eq := by
    rw [h.eq]
    unfold Net.borrow Net.lend
    congr 1
    funext m
    dsimp only
    by_cases hm : m = n
    · subst hm
      rw [Function.update_self, Function.update_self, Nat.add_right_comm]
    · rw [Function.update_of_ne hm, Function.update_of_ne hm]

theorem Lent.giveBack (h : Lent held (Function.update lent n (lent n + 1)) s t) :
    Lent held lent (s.giveBack n) (t.giveBack n) where
  pure := h.pure
  lent := by
    change Function.update s.borrows n (s.borrows n - 1) = lent
    rw [h.lent, Function.update_self, Function.update_idem, Nat.add_sub_cancel,
      Function.update_eq_self]
  eq := by
    have hn : 0 < s.borrows n := by
      rw [h.lent, Function.update_self]
      exact Nat.succ_pos _
    rw [h.eq]
    unfold Net.giveBack Net.lend
    congr 1
    funext m
    dsimp only
    by_cases hm : m = n
    · subst hm
      rw [Function.update_self, Function.update_self]
      omega
    · rw [Function.update_of_ne hm, Function.update_of_ne hm]

theorem Lent.recordEdge (h : Lent held lent s t) (layout : Layout) (n : NodeId) :
    Lent held lent (s.recordEdge layout n) (t.recordEdge layout n) := by
  have hstack : (s.lend held).stack = s.stack := rfl
  have huntracked : (s.lend held).untracked = s.untracked := rfl
  refine h.change (f := fun net => net.recordEdge layout n) ?_ ?_ ?_
  all_goals
    unfold Net.recordEdge
    try rw [hstack, huntracked]
    by_cases hu : 0 < s.untracked
    · simp only [if_pos hu]
    · simp only [if_neg hu]
      cases s.stack <;> rfl

theorem Lent.leave (h : Lent held lent s t) (untracked : ℕ) :
    Lent held lent (s.leave untracked) (t.leave untracked) := by
  have hstack : (s.lend held).stack = s.stack := rfl
  refine h.change (f := fun net => net.leave untracked) ?_ ?_ ?_
  all_goals
    unfold Net.leave
    try rw [hstack]
    cases s.stack <;> rfl

theorem Lent.noteSeen (h : Lent held lent s t) (n : NodeId) (v : V) :
    Lent held lent (s.noteSeen n v) (t.noteSeen n v) := by
  have hstack : (s.lend held).stack = s.stack := rfl
  refine h.change (f := fun net => net.noteSeen n v) ?_ ?_ ?_
  all_goals
    unfold Net.noteSeen
    try rw [hstack]
    cases s.stack <;> rfl

theorem lend_markEffect (net : Net V) (held : NodeId → ℕ) (e : NodeId) (mark : Mark) :
    (net.markEffect e mark).lend held = (net.lend held).markEffect e mark := by
  have heffects : (net.lend held).effects = net.effects := rfl
  unfold Net.markEffect
  rw [heffects]
  cases net.effects e with
  | none => rfl
  | some x =>
    dsimp only
    split <;> rfl

theorem lend_trigger (net : Net V) (held : NodeId → ℕ) (n : NodeId) :
    (net.trigger n).lend held = (net.lend held).trigger n :=
  map_markDependents (g := fun net => net.lend held) (fun _ => rfl) (fun _ => rfl)
    (fun _ _ _ => rfl) (fun net e mark => lend_markEffect net held e mark) _ _ (net.bumpVersion n) n

theorem borrows_trigger (net : Net V) (n : NodeId) : (net.trigger n).borrows = net.borrows := by
  refine markDependents_keeps (P := fun t => t.borrows = net.borrows) (fun _ _ _ h => h)
    (fun t e mark h => Eq.trans ?_ h) _ _ _ n rfl
  unfold Net.markEffect
  split
  · rfl
  · dsimp only
    split <;> rfl

theorem Lent.write (h : Lent held lent s t) (n : NodeId) (v : V) :
    Lent held lent ((s.setValue n v).trigger n) ((t.setValue n v).trigger n) where
  pure m x previous hx := by
    obtain ⟨y, hy, hcompute⟩ := computed_of_codes (codes_write s n v) hx
    rw [← hcompute]
    exact h.pure m y previous hy
  lent := (borrows_trigger _ n).trans h.lent
  eq := by
    rw [h.eq]
    exact (lend_trigger (s.setValue n v) held n).symm

theorem Lent.newComputed (h : Lent held lent s t) {compute : Option V → Script V}
    (hc : ∀ previous, (compute previous).Pure) (equals : Option (Equals V)) :
    Lent held lent (s.newComputed compute equals) (t.newComputed compute equals) where
  pure m x previous hx := by
    change Function.update s.computed s.nextNode _ m = some x at hx
    by_cases hm : m = s.nextNode
    · subst hm
      rw [Function.update_self] at hx
      cases hx
      exact hc previous
    · rw [Function.update_of_ne hm] at hx
      exact h.pure m x previous hx
  lent := h.lent
  eq := by rw [h.eq]; rfl

def repaid (net : Net V) : Net V := { net with borrows := fun _ => 0 }

theorem Lent.repaid_eq (h : Lent held (fun _ => 0) s t) : t.repaid = s := by
  have hs : s.repaid = s := by
    unfold repaid
    rw [← h.lent]
  rw [h.eq]
  exact hs

theorem lent_repaid {net : Net V} (h : Pull.Quiet net.repaid) :
    Lent net.borrows (fun _ => 0) net.repaid net where
  pure n x previous hx := by
    have hplain := h.coherent.plain n x hx
    rw [hplain.fixed previous]
    exact hplain.script
  lent := rfl
  eq := by
    unfold lend repaid
    dsimp only
    simp only [Nat.zero_add]

end Net

/-- A value was to be stored while the host had it on loan. -/
def Refused {V : Type} (held : NodeId → ℕ) (fault : Fault V) : Prop :=
  ∃ m, fault = .busy m ∧ 0 < held m

namespace Pull

open Net

variable {V α : Type} {held lent : NodeId → ℕ} {s t : Net V} {n : NodeId} {layout : Layout}
  {next : NodeId → Pull V Unit}

/-- From a net and the same net with more lent, what is computed is the same, unless a
store is refused. -/
def Lends (held lent : NodeId → ℕ) (x : Pull V α) : Prop :=
  ∀ s t, Lent held lent s t → Act.Shadows (Refused held) (Lent held lent) x x s t

theorem Lends.pure (a : α) : Lends held lent (Pure.pure a : Pull V α) := fun _ _ h => .pure h a

theorem Lends.raise (e : Fault V) : Lends held lent (Act.raise e : Pull V α) :=
  fun _ _ h => .raise h e

theorem Lends.modify {f : Net V → Net V}
    (hf : ∀ s t, Lent held lent s t → Lent held lent (f s) (f t)) :
    Lends held lent (Act.modify f) := fun s t h => .modify (hf s t h)

theorem Lends.bind {β : Type} {x : Pull V α} {f : α → Pull V β} (hx : Lends held lent x)
    (hf : ∀ a, Lends held lent (f a)) : Lends held lent (x >>= f) :=
  fun s t h => (hx s t h).bind (fun a u v => hf a u v) fun _ _ => id

/-- What is asked of the net does not depend on what is lent. -/
theorem Lends.ask {k : Net V → Pull V α} (hk : ∀ net, k (net.lend held) = k net)
    (h : ∀ net, Lends held lent (k net)) : Lends held lent (Act.get >>= k) := by
  intro s t hst
  refine .get_bind ?_
  rw [hst.eq, hk, ← hst.eq]
  exact h s s t hst

theorem Lends.borrowing {x : Pull V α}
    (hx : Lends held (Function.update lent n (lent n + 1)) x) : Lends held lent (borrowing n x) :=
  fun _ _ h => .modify_bind ((hx _ _ (h.borrow n)).guarded fun _ _ => Lent.giveBack)

theorem Lends.untrack {x : Pull V α} (hx : Lends held lent x) : Lends held lent (untrack x) :=
  fun _ _ h => .modify_bind ((hx _ _ (h.change (f := fun net =>
    { net with untracked := net.untracked + 1 }) rfl rfl rfl)).guarded fun _ _ h =>
      h.change (f := fun net => { net with untracked := net.untracked - 1 }) rfl rfl rfl)

theorem Lends.runInContext {x : Pull V α} (hx : Lends held lent x) (n : NodeId) :
    Lends held lent (runInContext n x) := by
  intro s t h
  refine .get_bind ?_
  have hactive : t.activeComputations = s.activeComputations := by rw [h.eq]; rfl
  have huntracked : t.untracked = s.untracked := by rw [h.eq]; rfl
  rw [hactive, huntracked]
  split
  · exact .raise h _
  · refine .modify_bind ((hx _ _ ?_).guarded fun _ _ h => h.leave s.untracked)
    exact h.change (f := fun net => net.enter n) rfl rfl rfl

theorem lends_assertNoCycle (n : NodeId) : Lends held lent (assertNoCycle n : Pull V Unit) := by
  refine .ask (fun _ => rfl) fun net => ?_
  cases net.cycleCheck n with
  | none => exact .pure ()
  | some fault =>
    refine .bind (.modify fun s t h => ?_) fun _ => .raise fault
    exact h.change (f := fun net => net.note n fault) rfl rfl rfl

theorem lends_observe (layout : Layout) (n : NodeId) :
    Lends held lent (observe layout n : Pull V Unit) :=
  .bind (lends_assertNoCycle n) fun _ => .modify fun _ _ h => h.recordEdge layout n

section Next

variable (hnext : ∀ n lent, Lends held lent (next n))

include hnext

theorem lends_refreshNode (n : NodeId) : Lends held lent (refreshNode next n) :=
  .bind (lends_assertNoCycle n) fun _ => hnext n lent

theorem lends_anyChanged (l : EdgeTable) : Lends held lent (anyChanged next l) := by
  induction l with
  | nil => exact .pure false
  | cons e l ih =>
    refine .bind (lends_refreshNode hnext e.1) fun _ => .ask (fun _ => rfl) fun net => ?_
    split
    · exact .pure true
    · exact ih

theorem lends_dependenciesChanged (n : NodeId) : Lends held lent (dependenciesChanged next n) :=
  .ask (fun _ => rfl) fun net => lends_anyChanged hnext (net.dependencies n)

omit hnext in
theorem lends_readCached {body : V → Pull V α} (hbody : ∀ v lent, Lends held lent (body v)) :
    Lends held lent (readCached n body) := by
  refine .borrowing (.ask (fun _ => rfl) fun net => ?_)
  cases net.cached n with
  | none => exact .raise _
  | some v => exact .bind (.modify fun _ _ h => h.noteSeen n v) fun _ => hbody v _

theorem lends_read {body : V → Pull V α} (hbody : ∀ v lent, Lends held lent (body v))
    (tracked : Bool) (n : NodeId) : Lends held lent (read layout next tracked n body) := by
  refine .ask (fun _ => rfl) fun net => ?_
  have hobserve : Lends held lent (if tracked then observe layout n else Pure.pure () :
      Pull V Unit) := by
    cases tracked with
    | true => exact lends_observe layout n
    | false => exact .pure ()
  have hrest := hobserve.bind fun _ => lends_readCached (n := n) hbody
  cases net.signals n with
  | some x => exact hrest
  | none =>
    cases net.computed n with
    | some x => exact .bind (lends_assertNoCycle n) fun _ => .bind (hnext n lent) fun _ => hrest
    | none => exact .raise _

theorem lends_exec {p : Script V} (hp : p.Pure) : Lends held lent (exec layout next p) := by
  induction p generalizing lent with
  | ret v => exact .pure v
  | call op f k ihf ihk =>
    obtain ⟨hop, hf, hk⟩ := hp
    refine .bind ?_ fun a => ihk a (hk a)
    cases op with
    | panic v => exact .raise _
    | withValue n => exact lends_read hnext (fun v lent => ihf v (hf v)) true n
    | _ => cases hop

omit hnext in
theorem lends_changed (n : NodeId) (v : V) : Lends held lent (changed n v) := by
  refine .ask (fun _ => rfl) fun net => ?_
  cases net.computed n with
  | none => exact .pure false
  | some x =>
    dsimp only
    split
    · split
      · exact .pure _
      · exact .raise _
    · exact .pure true

omit hnext in
theorem lends_replaceValue (n : NodeId) (v : V) : Lends held lent (replaceValue n v) := by
  intro s t h
  refine .get_bind ?_
  have hborrows : t.borrows n = s.borrows n + held n := by rw [h.eq]; rfl
  by_cases hs : 0 < s.borrows n
  · rw [if_pos hs, if_pos (by omega)]
    exact .raise h _
  · rw [if_neg hs]
    by_cases ht : 0 < held n
    · rw [if_pos (by omega)]
      exact .escape ⟨n, rfl, ht⟩
    · rw [if_neg (by omega)]
      exact .modify (h.modifyComputed n fun _ => rfl)

theorem lends_recompute (n : NodeId) : Lends held lent (recompute layout next n) := by
  intro s t h
  refine .get_bind ?_
  have hcomputed : t.computed n = s.computed n := by rw [h.eq]; rfl
  rw [hcomputed]
  cases hx : s.computed n with
  | none => exact .pure h ()
  | some x =>
    have hexec : ∀ lent, Lends held lent (runInContext n (exec layout next (x.compute x.value))) :=
      fun lent => (lends_exec hnext (h.pure n x _ hx)).runInContext n
    have hrun : Lends held lent ((if x.equals.isSome then borrowing n else id)
        (runInContext n (exec layout next (x.compute x.value)))) := by
      cases x.equals with
      | none => exact hexec lent
      | some equals => exact .borrowing (hexec _)
    have hstate : ∀ (state : State) (s t : Net V), Lent held lent s t →
        Lent held lent (s.setState n state) (t.setState n state) :=
      fun state s t h => h.setState n state
    refine .modify_bind (((hrun _ _ (h.setState n .clean)).onUnwind (hstate .dirty)).bind
      (fun v u w => ?_) fun _ _ => id)
    refine Lends.bind (lends_changed n v) (fun changed => ?_) u w
    refine .bind (lends_replaceValue n v) fun _ => ?_
    cases changed with
    | true => exact .modify fun s t h => h.change (f := fun net => net.bumpVersion n) rfl rfl rfl
    | false => exact .pure ()

theorem lends_refresh (n : NodeId) : Lends held lent (refresh layout next n) := by
  refine .ask (fun _ => rfl) fun net => ?_
  cases net.computed n with
  | none => exact .pure ()
  | some x =>
    dsimp only
    cases x.state with
    | clean => exact .pure ()
    | dirty => exact lends_recompute hnext n
    | check =>
      refine .bind (lends_dependenciesChanged hnext n) fun changed => ?_
      cases changed with
      | true => exact lends_recompute hnext n
      | false => exact .modify fun s t h => h.setState n .clean

end Next

theorem lends_refreshing (layout : Layout) (depth : ℕ) (n : NodeId) :
    Lends held lent (refreshing layout depth n : Pull V Unit) := by
  induction depth generalizing n lent with
  | zero => exact fun _ _ _ => .stop
  | succ depth ih => exact lends_refresh (fun n lent => ih n) n

theorem lends_readAs (layout : Layout) (depth : ℕ) (n : NodeId) (mode : ReadMode) :
    Lends held lent (readAs layout (refreshing layout depth) n mode : Pull V V) := by
  have hread : ∀ tracked, Lends held lent
      (read layout (refreshing layout depth) tracked n Pure.pure : Pull V V) := fun tracked =>
    lends_read (fun n lent => lends_refreshing layout depth n) (fun v lent => .pure v) tracked n
  cases mode with
  | tracked => exact hread true
  | untracked => exact (hread true).untrack
  | peek => exact hread false

theorem lends_overwrite (n : NodeId) (f : V → V) : Lends held lent (overwrite n f) := by
  intro s t h
  refine .get_bind ?_
  have hsignals : t.signals n = s.signals n := by rw [h.eq]; rfl
  have hborrows : t.borrows n = s.borrows n + held n := by rw [h.eq]; rfl
  rw [hsignals]
  cases s.signals n with
  | none => exact .raise h _
  | some x =>
    dsimp only
    by_cases hs : 0 < s.borrows n
    · rw [if_pos hs, if_pos (by omega)]
      exact .raise h _
    · rw [if_neg hs]
      by_cases ht : 0 < held n
      · rw [if_pos (by omega)]
        exact .escape ⟨n, rfl, ht⟩
      · rw [if_neg (by omega)]
        exact .modify_bind (.pure (h.write n (f x.value)) _)

theorem lends_set (n : NodeId) (v : V) : Lends held lent (set n v) := by
  refine .ask (fun _ => rfl) fun net => ?_
  cases net.signals n with
  | none => exact .raise _
  | some x =>
    dsimp only
    split
    · exact .pure none
    · exact .bind (lends_overwrite n _) fun _ => .pure _

theorem lends_step (layout : Layout) (depth : ℕ) {op : NetOp V} (ok : op.Pure) :
    Lends held lent (step layout depth op) := by
  cases op with
  | signal v same =>
    refine .bind (.modify fun s t h => ?_) fun _ => .pure none
    exact h.change (f := fun net => net.newSignal v same) rfl rfl rfl
  | thunk p =>
    exact .bind (.modify fun s t h => h.newComputed (fun _ => ok) none) fun _ => .pure none
  | memo f equals =>
    refine .bind (.modify fun s t h => h.newComputed (fun previous => ?_) _) fun _ => .pure none
    rw [ok.2.1 previous]
    exact ok.1
  | read mode n => exact .bind (lends_readAs layout depth n mode) fun v => .pure (some v)
  | hold mode n => cases ok
  | release n => cases ok
  | set n v => exact .bind (lends_set n v) fun _ => .pure none
  | replace n v => exact .bind (lends_overwrite n _) fun _ => .pure none
  | update n f => exact .bind (lends_overwrite n f) fun _ => .pure none

end Pull

/-- The computes handed over with a creation are pure, and values may stay lent from
one step to the next. -/
def NetOp.Plain {V : Type} : NetOp V → Prop
  | .hold _ _ | .release _ => True
  | op => op.Pure

def NetOp.isWrite {V : Type} : NetOp V → Bool
  | .set _ _ | .replace _ _ | .update _ _ => true
  | _ => false

namespace Pull

open Net

variable {V : Type} {net t : Net V} {layout : Layout} {depth : ℕ}

theorem overwrite_eq_panic {n : NodeId} {f : V → V} {e : Fault V}
    (h : overwrite n f net = .panic e t) : t = net := by
  unfold overwrite at h
  rw [Act.get_bind] at h
  cases hs : net.signals n with
  | none =>
    rw [hs] at h
    cases h
    rfl
  | some x =>
    rw [hs] at h
    dsimp only at h
    split at h
    · cases h
      rfl
    · cases h

theorem write_eq_panic {op : NetOp V} (hw : op.isWrite = true) {e : Fault V}
    (h : step layout depth op net = .panic e t) : t = net := by
  have hoverwrite : ∀ {α : Type} {n : NodeId} {f : V → V} {k : V → α},
      (overwrite n f >>= fun v => pure (k v)) net = .panic e t → t = net := by
    intro α n f k h
    rcases Act.bind_eq_panic.mp h with h | ⟨a, u, -, h⟩
    · exact overwrite_eq_panic h
    · cases h
  cases op with
  | set n v =>
    rcases Act.bind_eq_panic.mp h with h | ⟨a, u, -, h⟩
    · unfold Pull.set at h
      rw [Act.get_bind] at h
      cases hs : net.signals n with
      | none =>
        rw [hs] at h
        cases h
        rfl
      | some x =>
        rw [hs] at h
        dsimp only at h
        split at h
        · cases h
        · exact hoverwrite h
    · cases h
  | replace n v => exact hoverwrite h
  | update n f => exact hoverwrite h
  | _ => cases hw

theorem step_keeps_quiet (h : Quiet net.repaid) (depth : ℕ) {op : NetOp V} (ok : op.Plain) :
    (step layout depth op).wp (fun _ t => Quiet t.repaid)
      (fun e t => Refused net.borrows e ∨ Quiet t.repaid) True net := by
  have hlent := lent_repaid h
  have hpure : op.Pure → (step layout depth op).wp (fun _ t => Quiet t.repaid)
      (fun e t => Refused net.borrows e ∨ Quiet t.repaid) True net := by
    intro hp
    refine Act.wp_mono ((lends_step layout depth hp _ _ hlent).wp (h.step depth hp)) ?_ ?_ id
    · rintro _ t ⟨u, hu, hr⟩
      rw [hr.repaid_eq]
      exact hu
    · rintro e t (he | ⟨u, hu, hr⟩)
      · exact .inl he
      · refine .inr ?_
        rw [hr.repaid_eq]
        exact hu
  cases op with
  | release n => exact h
  | hold mode n =>
    have hread := (below_readAs layout (Nat.le_max_left depth (2 * net.nextNode + 1)) n mode).wp
      (h.readAs (Nat.lt_of_lt_of_le (Nat.lt_succ_self _) (Nat.le_max_right _ _)) n mode)
    unfold step
    rw [Act.wp_bind]
    refine Act.wp_mono ((lends_readAs layout depth n mode _ _ hlent).wp hread) ?_ ?_ id
    · rintro _ t ⟨u, hu, hr⟩
      change Quiet t.repaid
      rw [hr.repaid_eq]
      exact hu.1
    · rintro e t (he | ⟨u, hu, hr⟩)
      · exact .inl he
      · refine .inr ?_
        rw [hr.repaid_eq]
        exact hu.1
  | _ => exact hpure ok

end Pull

/-- The nets of the runs in which no read comes to store a value that the host has on
loan. -/
inductive Net.Unrefused {V : Type} (layout : Layout) : Net V → Prop where
  | init : Net.Unrefused layout {}
  | returned {net t : Net V} (before : Net.Unrefused layout net) (op : NetOp V) (ok : op.Plain)
      (depth : ℕ) (a : Option V) (h : Pull.step layout depth op net = .ok a t) :
      Net.Unrefused layout t
  | unwound {net t : Net V} (before : Net.Unrefused layout net) (op : NetOp V) (ok : op.Plain)
      (depth : ℕ) (e : Fault V) (stored : op.isWrite = true ∨ ∀ m, e ≠ .busy m)
      (h : Pull.step layout depth op net = .panic e t) : Net.Unrefused layout t

namespace Net

variable {V : Type} {net : Net V} {layout : Layout}

theorem Unrefused.quiet (h : Net.Unrefused layout net) : Pull.Quiet net.repaid := by
  induction h with
  | init => exact ⟨⟨sound_empty, rfl⟩, coherent_empty, fun _ => rfl⟩
  | returned _ op ok depth a hs ih =>
    have := @Pull.step_keeps_quiet V _ layout ih depth _ ok
    unfold Act.wp at this
    rw [hs] at this
    exact this
  | unwound _ op ok depth e stored hs ih =>
    rcases stored with hw | hn
    · rw [Pull.write_eq_panic hw hs]
      exact ih
    · have := @Pull.step_keeps_quiet V _ layout ih depth _ ok
      unfold Act.wp at this
      rw [hs] at this
      rcases this with ⟨m, he, -⟩ | hq
      · exact absurd he (hn m)
      · exact hq

end Net

section Codes

variable {V : Type} {net t u : Net V} {layout : Layout} {depth : ℕ}

/-- Both nets have the same nodes, with the same computes. -/
structure Net.Alter (net t : Net V) : Prop where
  codes : t.codes = net.codes
  signals : ∀ n, (t.signals n).isSome = (net.signals n).isSome

theorem Net.Alter.refl (net : Net V) : net.Alter net := ⟨rfl, fun _ => rfl⟩

theorem Net.Alter.trans (h : net.Alter t) (h' : t.Alter u) : net.Alter u :=
  ⟨h'.codes.trans h.codes, fun n => (h'.signals n).trans (h.signals n)⟩

theorem Net.Calm.alter {l : List NodeId} (h : Net.Calm l net t) : net.Alter t :=
  ⟨funext h.code, fun n => by rw [h.signals]⟩

theorem Net.Alter.present (h : net.Alter t) {n : NodeId} (hn : net.Present n) : t.Present n := by
  rcases hn with ⟨s, hs⟩ | ⟨x, hx⟩
  · have := h.signals n
    rw [hs, Option.isSome_some, Option.isSome_iff_exists] at this
    exact .inl this
  · obtain ⟨y, hy, -⟩ := Net.computed_of_codes h.codes.symm hx
    exact .inr ⟨y, hy⟩

theorem Net.Layered.alter (hl : net.Layered) (h : net.Alter t) : t.Layered := by
  intro n x hx
  obtain ⟨y, hy, hcompute⟩ := Net.computed_of_codes h.codes hx
  rw [← hcompute]
  exact (hl n y hy).mono fun op ⟨m, hop, hlt, hm⟩ => ⟨m, hop, hlt, h.present hm⟩

namespace Pull

end Pull

def Net.completed (layout : Layout) (depth : ℕ) : Net V → List (NetOp V) → Option (Net V)
  | net, [] => some net
  | net, op :: ops =>
    match Pull.step layout depth op net with
    | .ok _ t => completed layout depth t ops
    | _ => none

theorem Net.Unrefused.completed (h : Net.Unrefused layout net) (depth : ℕ) {ops : List (NetOp V)}
    (ok : ∀ op ∈ ops, op.Plain) (ht : net.completed layout depth ops = some t) :
    Net.Unrefused layout t ∧ net.after layout depth ops = some t := by
  induction ops generalizing net with
  | nil => cases ht; exact ⟨h, rfl⟩
  | cons op ops ih =>
    unfold Net.completed at ht
    unfold Net.after
    cases hs : Pull.step layout depth op net with
    | ok a u =>
      rw [hs] at ht
      exact ih (h.returned op (ok op List.mem_cons_self) depth a hs)
        (fun o hm => ok o (List.mem_cons_of_mem op hm)) ht
    | panic e u => rw [hs] at ht; cases ht
    | stuck => rw [hs] at ht; cases ht

end Codes

namespace Net

end Net

end Adaptite

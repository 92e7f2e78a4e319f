import Adaptite.NetMarks
import Adaptite.Refreshing

set_option autoImplicit false

namespace Adaptite

open Unwinding

/-- The computes handed over with a creation do not write. -/
def NetOp.ReadOnly {V : Type} : NetOp V → Prop
  | .thunk p => p.ReadOnly
  | .memo f _ => ∀ previous, (f previous).ReadOnly
  | _ => True

namespace Net

variable {V : Type} {net t : Net V} {layout : Layout}

theorem sound_empty : ({} : Net V).Sound where
  running := rfl
  nodup := List.nodup_nil
  busy := by simp
  inverse := by simp
  below := by simp
  known := by simp
  source := by simp
  settled := by simp
  acyclic := by
    intro n hn
    obtain ⟨m, ⟨-, ⟨x, hx, -⟩, -⟩, -⟩ := Relation.TransGen.head'_iff.mp hn
    cases hx
  readOnly := by simp
  genuine := by simp

theorem Sound.fresh (h : net.Sound) (o : NodeId) : ∀ e ∈ net.dependencies o,
    e.1 ≠ net.nextNode := fun e he => (h.below o e he).2.ne

theorem Sound.newSignal (h : net.Sound) (v : V) (same : V → V → Bool) :
    (net.newSignal v same).Sound :=
  { h with
    busy := fun z hz => ⟨Nat.lt_succ_of_lt (h.busy z hz).1, (h.busy z hz).2⟩
    below := fun o e he =>
      ⟨Nat.lt_succ_of_lt (h.below o e he).1, Nat.lt_succ_of_lt (h.below o e he).2⟩
    known := fun n x hx => Nat.lt_succ_of_lt (h.known n x hx)
    source := by
      intro n s hs
      unfold Net.newSignal at hs
      dsimp only at hs
      by_cases hn : n = net.nextNode
      · subst hn
        refine ⟨Nat.lt_succ_self _, ?_⟩
        cases hx : (net.newSignal v same).computed net.nextNode with
        | none => rfl
        | some x => exact absurd (h.known _ x hx) (lt_irrefl _)
      · rw [Function.update_of_ne hn] at hs
        exact ⟨Nat.lt_succ_of_lt (h.source n s hs).1, (h.source n s hs).2⟩ }

theorem Sound.newComputed (h : net.Sound) (compute : Option V → Script V)
    (equals : Option (Equals V)) (hc : ∀ p, (compute p).ReadOnly) :
    (net.newComputed compute equals).Sound := by
  set t := net.newComputed compute equals with ht
  have hself : t.computed net.nextNode = some { compute, equals } := Function.update_self _ _ _
  have hsame : ∀ m, m ≠ net.nextNode → t.computed m = net.computed m := fun m hm =>
    Function.update_of_ne hm _ _
  have hold : ∀ m x, net.computed m = some x → m ≠ net.nextNode := fun m x hx =>
    (h.known m x hx).ne
  have hfresh : ∀ m, m ≠ net.nextNode → t.Fresh m → net.Fresh m := by
    rintro m hm ⟨x, hx, hs⟩
    rw [hsame m hm] at hx
    exact ⟨x, hx, hs⟩
  exact {
    running := h.running
    nodup := h.nodup
    busy := by
      intro z hz
      refine ⟨Nat.lt_succ_of_lt (h.busy z hz).1, fun x hx => ?_⟩
      rw [hsame z (h.busy z hz).1.ne] at hx
      exact (h.busy z hz).2 x hx
    inverse := h.inverse
    below := fun o e he =>
      ⟨Nat.lt_succ_of_lt (h.below o e he).1, Nat.lt_succ_of_lt (h.below o e he).2⟩
    known := by
      intro n x hx
      by_cases hn : n = net.nextNode
      · rw [hn]; exact Nat.lt_succ_self _
      · rw [hsame n hn] at hx
        exact Nat.lt_succ_of_lt (h.known n x hx)
    source := by
      intro n s hs
      obtain ⟨h1, h2⟩ := h.source n s hs
      exact ⟨Nat.lt_succ_of_lt h1, (hsame n h1.ne).trans h2⟩
    settled := by
      intro n x hx hclean e he y hy
      by_cases hn : n = net.nextNode
      · rw [hn, hself] at hx
        cases hx
        cases hclean
      · rw [hsame n hn] at hx
        rw [hsame e.1 (h.fresh n e he)] at hy
        exact h.settled n x hx hclean e he y hy
    acyclic := by
      refine h.acyclic.mono fun a b hab => ?_
      obtain ⟨⟨v, hv⟩, ha, hb⟩ := hab
      exact ⟨⟨v, hv⟩, hfresh a (h.below a _ hv).1.ne ha, hfresh b (h.below a _ hv).2.ne hb⟩
    readOnly := by
      intro n x hx p
      by_cases hn : n = net.nextNode
      · rw [hn, hself] at hx
        cases hx
        exact hc p
      · rw [hsame n hn] at hx
        exact h.readOnly n x hx p
    genuine := h.genuine }

end Net

namespace Pull

variable {V α : Type} {net t : Net V} {layout : Layout} {n : NodeId}

open Net

section Below

variable {next next' : NodeId → Pull V Unit} (h : ∀ n, Act.Below (next n) (next' n))

include h in
theorem below_anyChanged (l : EdgeTable) : Act.Below (anyChanged next l) (anyChanged next' l) := by
  induction l with
  | nil => exact .refl _
  | cons e l ih =>
    unfold anyChanged
    refine ((Act.Below.refl _).bind fun _ => h e.1).bind fun _ => .get fun s => ?_
    split
    · exact .inr rfl
    · exact ih s

include h in
theorem below_read (tracked : Bool) {body body' : V → Pull V α}
    (hb : ∀ v, Act.Below (body v) (body' v)) :
    Act.Below (read layout next tracked n body) (read layout next' tracked n body') := by
  have hcached : Act.Below (readCached n body) (readCached n body') := by
    refine (Act.Below.refl _).bind fun _ => Act.Below.guarded (.get fun s => ?_) _
    cases s.cached n with
    | none => exact .inr rfl
    | some v => exact ((Act.Below.refl _).bind fun _ => hb v) s
  refine .get fun s => ?_
  cases s.signals n with
  | some _ => exact ((Act.Below.refl _).bind fun _ => hcached) s
  | none =>
    cases s.computed n with
    | none => exact .inr rfl
    | some _ =>
      exact ((Act.Below.refl _).bind fun _ => (h n).bind fun _ =>
        (Act.Below.refl _).bind fun _ => hcached) s

include h in
theorem below_exec (p : Script V) : Act.Below (exec layout next p) (exec layout next' p) := by
  refine Program.below_interp (fun op f f' hf => ?_) p
  cases op with
  | panic v => exact .refl _
  | catchUnwind => exact (hf ()).attempt
  | untrack => exact (Act.Below.refl _).bind fun _ => (hf ()).guarded _
  | withValue m => exact below_read h true hf
  | withPeek m => exact below_read h false hf
  | set m v => exact .refl _
  | replace m v => exact .refl _
  | update m g => exact .refl _

include h in
theorem below_recompute : Act.Below (recompute layout next n) (recompute layout next' n) := by
  refine .get fun s => ?_
  cases s.computed n with
  | none => exact .inr rfl
  | some x =>
    have hrun : Act.Below (runInContext n (exec layout next (x.compute x.value)))
        (runInContext n (exec layout next' (x.compute x.value))) := by
      refine .get fun s => ?_
      split
      · exact .inr rfl
      · exact ((Act.Below.refl _).bind fun _ => (below_exec h _).guarded _) s
    have hborrow : Act.Below
        ((if x.equals.isSome then borrowing n else id)
          (runInContext n (exec layout next (x.compute x.value))))
        ((if x.equals.isSome then borrowing n else id)
          (runInContext n (exec layout next' (x.compute x.value)))) := by
      cases x.equals.isSome with
      | false => exact hrun
      | true => exact (Act.Below.refl _).bind fun _ => hrun.guarded _
    exact ((Act.Below.refl _).bind fun _ => (hborrow.onUnwind _).bind fun _ => .refl _) s

include h in
theorem below_refresh : Act.Below (refresh layout next n) (refresh layout next' n) := by
  refine .get fun s => ?_
  cases s.computed n with
  | none => exact .inr rfl
  | some x =>
    dsimp only
    cases x.state with
    | clean => exact .inr rfl
    | dirty => exact below_recompute h s
    | check =>
      have hdeps : Act.Below (dependenciesChanged next n) (dependenciesChanged next' n) :=
        .get fun s => below_anyChanged h _ s
      refine (hdeps.bind fun changed => ?_) s
      cases changed with
      | true => exact below_recompute h
      | false => exact .refl _

end Below

theorem below_refreshing (layout : Layout) {d d' : ℕ} (h : d ≤ d') (n : NodeId) :
    Act.Below (refreshing layout d n : Pull V Unit) (refreshing layout d' n) := by
  induction d generalizing d' n with
  | zero => exact .stop _
  | succ d ih =>
    obtain ⟨d', rfl⟩ : ∃ k, d' = k + 1 := ⟨d' - 1, by omega⟩
    exact below_refresh fun m => ih (by omega) m

theorem below_readAs (layout : Layout) {d d' : ℕ} (h : d ≤ d') (n : NodeId) (mode : ReadMode) :
    Act.Below (readAs layout (refreshing layout d) n mode : Pull V V)
      (readAs layout (refreshing layout d') n mode) := by
  have hread : ∀ tracked, Act.Below
      (read layout (refreshing layout d) tracked n Pure.pure : Pull V V)
      (read layout (refreshing layout d') tracked n Pure.pure) := fun tracked =>
    below_read (below_refreshing layout h) tracked fun _ => .refl _
  cases mode with
  | tracked => exact hread true
  | untracked => exact (Act.Below.refl _).bind fun _ => (hread true).guarded _
  | peek => exact hread false

end Pull

namespace Pull

variable {V : Type} {net t : Net V} {layout : Layout}

open Net

structure Idle (net : Net V) : Prop where
  sound : net.Sound
  stack : net.stack = []

theorem Idle.within (h : Idle net) (n : NodeId) : Within [] n net.nextNode net :=
  ⟨h.sound, trivial, rfl⟩

theorem Idle.quiet (h : Idle net) : ∀ z ∈ net.stack, net.computed z = none := by
  rw [h.stack]
  simp

theorem tame_readAs (layout : Layout) {depth : ℕ} (deep : 2 * net.nextNode < depth) (n : NodeId)
    (mode : ReadMode) : Tame [] n net.nextNode
      (readAs layout (refreshing layout depth) n mode : Pull V V) := by
  have room : Room [] net.nextNode := ⟨List.nodup_nil, by simp⟩
  have hread : ∀ tracked, Tame [] n net.nextNode
      (read layout (refreshing layout depth) tracked n (Pure.pure : V → Pull V V)) := fun tracked =>
    Tame.read (refreshes layout depth V) open_nil room deep tracked fun v => Tame.pure v
  cases mode with
  | tracked => exact hread true
  | untracked => exact (hread true).untrack
  | peek => exact hread false

theorem wp_readAs (h : Idle net) {depth : ℕ} (deep : 2 * net.nextNode < depth) (n : NodeId)
    (mode : ReadMode) : (readAs layout (refreshing layout depth) n mode).wp
      (fun _ t => Idle t) (fun e t => Idle t ∧ t.Explains e) False net :=
  Act.wp_mono (tame_readAs layout deep n mode net (h.within n))
    (fun _ _ ht => ⟨ht.1.sound, ht.2.stack.trans h.stack⟩)
    (fun _ _ ht => ⟨⟨ht.1.sound, ht.2.1.stack.trans h.stack⟩, ht.2.2⟩) id

theorem wp_readAs_of_any (h : Idle net) (depth : ℕ) (n : NodeId) (mode : ReadMode) :
    (readAs layout (refreshing layout depth) n mode).wp
      (fun _ t => Idle t) (fun e t => Idle t ∧ t.Explains e) True net :=
  (below_readAs layout (Nat.le_max_left depth (2 * net.nextNode + 1)) n mode).wp
    (wp_readAs h (Nat.lt_of_lt_of_le (Nat.lt_succ_self _) (Nat.le_max_right _ _)) n mode)

theorem Idle.write (h : Idle net) (n : NodeId) (v : V) : Idle ((net.setValue n v).trigger n) := by
  refine ⟨(h.sound.setValue n v).trigger n h.quiet, ?_⟩
  rw [((h.sound.setValue n v).sealing_trigger n).1.toMarked.frame]
  exact h.stack

theorem wp_overwrite (h : Idle net) (n : NodeId) (f : V → V) :
    (overwrite n f).wp (fun _ t => Idle t) (fun _ t => Idle t) True net := by
  unfold overwrite
  rw [Act.wp_bind, Act.wp_get]
  cases net.signals n with
  | none => exact h
  | some s =>
    dsimp only
    split
    · exact h
    · exact h.write n _

theorem wp_step (h : Idle net) (depth : ℕ) {op : NetOp V} (ok : op.ReadOnly) :
    (step layout depth op).wp (fun _ t => Idle t) (fun _ t => Idle t) True net := by
  cases op with
  | signal v same => exact ⟨h.sound.newSignal v same, h.stack⟩
  | thunk p => exact ⟨h.sound.newComputed _ none fun _ => ok, h.stack⟩
  | memo f equals => exact ⟨h.sound.newComputed f (some equals) ok, h.stack⟩
  | read mode n =>
    unfold step
    rw [Act.wp_bind]
    exact Act.wp_mono (wp_readAs_of_any h depth n mode) (fun _ _ ht => ht) (fun _ _ ht => ht.1) id
  | hold mode n =>
    unfold step
    rw [Act.wp_bind]
    refine Act.wp_mono (wp_readAs_of_any h depth n mode) (fun _ _ ht => ?_) (fun _ _ ht => ht.1) id
    exact ⟨ht.sound.same rfl rfl rfl rfl rfl rfl rfl rfl, ht.stack⟩
  | release n => exact ⟨h.sound.same rfl rfl rfl rfl rfl rfl rfl rfl, h.stack⟩
  | set n v =>
    unfold step Pull.set
    rw [Act.wp_bind, Act.wp_bind, Act.wp_get]
    cases net.signals n with
    | none => exact h
    | some s =>
      dsimp only
      split
      · exact h
      · rw [Act.wp_bind]
        exact wp_overwrite h n _
  | replace n v =>
    unfold step
    rw [Act.wp_bind]
    exact wp_overwrite h n _
  | update n f =>
    unfold step
    rw [Act.wp_bind]
    exact wp_overwrite h n f

end Pull

namespace Net

variable {V : Type} {net t : Net V} {layout : Layout}

theorem Reached.idle (h : Net.Reached layout NetOp.ReadOnly net) : Pull.Idle net := by
  induction h with
  | init => exact ⟨sound_empty, rfl⟩
  | returned _ op ok depth a hs ih =>
    have := @Pull.wp_step V _ layout ih depth _ ok
    unfold Act.wp at this
    rw [hs] at this
    exact this
  | unwound _ op ok depth e hs ih =>
    have := @Pull.wp_step V _ layout ih depth _ ok
    unfold Act.wp at this
    rw [hs] at this
    exact this

/-- The steps of a host that goes on after a panic. -/
def after (layout : Layout) (depth : ℕ) : Net V → List (NetOp V) → Option (Net V)
  | net, [] => some net
  | net, op :: ops =>
    match Pull.step layout depth op net with
    | .ok _ t | .panic _ t => after layout depth t ops
    | .stuck => none

theorem Reached.after {admits : NetOp V → Prop} (h : Net.Reached layout admits net) (depth : ℕ)
    (ops : List (NetOp V)) (ok : ∀ op ∈ ops, admits op)
    (ht : net.after layout depth ops = some t) : Net.Reached layout admits t := by
  induction ops generalizing net with
  | nil => cases ht; exact h
  | cons op ops ih =>
    unfold Net.after at ht
    have hop := ok op List.mem_cons_self
    have hops : ∀ op ∈ ops, admits op := fun o ho => ok o (List.mem_cons_of_mem op ho)
    split at ht
    · rename_i a t' hs
      exact ih (h.returned op hop depth a hs) hops ht
    · rename_i e t' hs
      exact ih (h.unwound op hop depth e hs) hops ht
    · cases ht

/-- In every net that writes and reads lead to, with computes that only read: the
recorded dependencies among the nodes that are not dirty have no cycle; a read
returns or unwinds, and more nested calls than twice the nodes make no difference;
and every cycle error raised on the way is the tail of the observer stack, so that
the `expect` of `cycle_check` is never reached. -/
theorem reads_end_and_cycles_are_stack_tails (h : Net.Reached layout NetOp.ReadOnly net) :
    (net.stack = [] ∧ Relation.Acyclic net.Leads) ∧
    (∀ mode n, ∃ r, r ≠ .stuck ∧ ∀ depth, 2 * net.nextNode < depth →
      Pull.readAs layout (Pull.refreshing layout depth) n mode net = r) ∧
    (∀ r ∈ net.raised, r.Tail) ∧
    ∀ mode n depth e t,
      Pull.readAs layout (Pull.refreshing layout depth) n mode net = .panic e t →
        (∀ path, e = .cycle path → ∃ r ∈ t.raised, r.Tail ∧ r.fault = .cycle path) ∧
          ∀ m, e ≠ .unlisted m := by
  have idle := h.idle
  refine ⟨⟨idle.stack, idle.sound.acyclic⟩, fun mode n => ?_, idle.sound.genuine, ?_⟩
  · have hends := @Pull.wp_readAs V _ layout idle _ (Nat.lt_succ_self _) n mode
    refine ⟨Pull.readAs layout (Pull.refreshing layout (2 * net.nextNode + 1)) n mode net, ?_, ?_⟩
    · intro hstuck
      unfold Act.wp at hends
      rw [hstuck] at hends
      exact hends
    · intro depth hd
      rcases Pull.below_readAs layout (Nat.succ_le_of_lt hd) n mode net with hs | hs
      · unfold Act.wp at hends
        rw [hs] at hends
        exact hends.elim
      · exact hs.symm
  · intro mode n depth e t ht
    have hany := @Pull.wp_readAs_of_any V _ layout idle depth n mode
    unfold Act.wp at hany
    rw [ht] at hany
    obtain ⟨hidle, hexp⟩ := hany
    refine ⟨fun path hp => ?_, hexp.2⟩
    obtain ⟨r, hr, hf⟩ := hexp.1 path hp
    exact ⟨r, hr, hidle.sound.genuine r hr, hf⟩

/-- `x` reads `v` only once the flag is set, and `v` always reads `x`. -/
def mutualReads : List (NetOp ℕ) :=
  [.signal 0 (· == ·), .signal 1 (· == ·),
    .thunk (.get 1 fun flag => if flag = 1 then .get 4 .ret else .get 2 .ret),
    .thunk (.get 3 .ret), .read .tracked 4, .set 1 1, .read .tracked 3]

/-- The cycle is found while `v` is verified for `x`, which is running. -/
theorem reads_end_on_mutual_reads : ∃ net : Net ℕ, net.raised.map Raised.fault = [.cycle [3, 3]] ∧
    Relation.Acyclic net.Leads ∧ (∀ r ∈ net.raised, r.Tail) ∧
    ∀ mode n, ∃ r, r ≠ .stuck ∧ ∀ depth, 2 * net.nextNode < depth →
      Pull.readAs .insertion (Pull.refreshing .insertion depth) n mode net = r := by
  have hrun : ((({} : Net ℕ).after .insertion 9 mutualReads).map fun net =>
      net.raised.map Raised.fault) = some [.cycle [3, 3]] := by decide +kernel
  obtain ⟨net, hnet, hraised⟩ := Option.map_eq_some_iff.mp hrun
  have hops : ∀ op ∈ mutualReads, op.ReadOnly := by
    simp only [mutualReads, List.forall_mem_cons, NetOp.ReadOnly, Script.ReadOnly, Script.get,
      Program.Only, Ask.isWrite]
    simp
    intro a
    split <;> simp [Program.Only]
  obtain ⟨h1, h2, h3, -⟩ := reads_end_and_cycles_are_stack_tails
    (Net.Reached.init.after 9 mutualReads hops hnet)
  exact ⟨net, hraised, h1.2, h3, h2⟩

end Net

end Adaptite

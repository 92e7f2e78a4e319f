import Adaptite.Answers
import Adaptite.Cycles

set_option autoImplicit false

namespace Adaptite

open Unwinding

/-- Computes are pure, comparators are honest, and no borrow is held between steps. -/
def NetOp.Pure {V : Type} : NetOp V → Prop
  | .thunk p => p.Pure
  | .memo f equals => (f none).Pure ∧ (∀ previous, f previous = f none) ∧
      (∀ a b, ∃ same, equals a b = .ok same) ∧ ∀ a b, equals a b = .ok true → a = b
  | .hold _ _ | .release _ => False
  | _ => True

namespace Pull

open Net

variable {V : Type} {s net t : Net V} {layout : Layout} {n : NodeId} {depth : ℕ}

structure Quiet (net : Net V) : Prop extends Idle net where
  coherent : net.Coherent []
  free : ∀ m, net.borrows m = 0

theorem Quiet.since (h : Quiet net) : net.Since [] net := .refl h.sound h.coherent h.stack

theorem Quiet.counting (h : Quiet net) (k : ℕ) : Quiet { net with untracked := k } :=
  ⟨⟨h.sound.same rfl rfl rfl rfl rfl rfl rfl rfl, h.stack⟩,
    h.coherent.same rfl rfl rfl rfl rfl h.coherent.lent h.coherent.seen, h.free⟩

theorem Quiet.ends (h : Quiet net) (he : Ends [] n net t) (hc : t.Coherent t.stack) : Quiet t where
  sound := he.sound
  stack := he.calm.stack.trans h.stack
  coherent := by
    have hc' := hc
    rw [he.calm.stack, h.stack] at hc'
    exact hc'
  free m := by rw [he.calm.borrows, h.free]

theorem Idle.observe (h : Idle net) : (observe layout n).wp (fun _ t => t = net)
    (fun _ _ => False) False net := by
  unfold Pull.observe
  rw [Act.wp_bind]
  refine wp_assertNoCycle (fun _ => ?_) fun fault hfault => ?_
  · rw [Act.wp_modify]
    unfold Net.recordEdge
    rw [h.stack]
    split <;> rfl
  · rw [h.sound.cycleCheck_eq_none.mpr (by rw [h.stack]; exact List.not_mem_nil)] at hfault
    cases hfault

theorem Quiet.readCached (h : Quiet net) (hm : net.Settled n) (hp : net.Present n) :
    (readCached n Pure.pure : Pull V V).wp (fun v t => t = net ∧ net.Scratch n v)
      (fun _ _ => False) False net := by
  obtain ⟨v, hv, hscratch⟩ := h.coherent.cached_of_settled h.sound (by simp) hm hp
  unfold Pull.readCached
  rw [wp_borrowing, Act.wp_bind, Act.wp_get]
  have hcached : (net.borrow n).cached n = some v := hv
  rw [hcached]
  dsimp only
  rw [Act.wp_bind, Act.wp_modify]
  have hnote : (net.borrow n).noteSeen n v = net.borrow n := by
    unfold Net.noteSeen
    rw [show (net.borrow n).stack = [] from h.stack]
    rfl
  rw [hnote, Act.wp_pure]
  have hback : (net.borrow n).giveBack n = net := by
    unfold Net.borrow Net.giveBack
    dsimp only
    rw [Function.update_self, Function.update_idem, Nat.add_sub_cancel, Function.update_eq_self]
  exact ⟨hback, hscratch⟩

theorem Quiet.read (h : Quiet net) (hc₀ : s.Coherent []) (since : s.Since [] net)
    (deep : 2 * net.nextNode < depth) (tracked : Bool) (n : NodeId) :
    (read layout (refreshing layout depth) tracked n Pure.pure : Pull V V).wp
      (fun v t => Quiet t ∧ s.Since [] t ∧ s.Scratch n v ∧ (s.Adverse → s.Safe n))
      (fun _ t => Quiet t ∧ ¬ s.Safe n) False net := by
  have hstack := h.stack
  have room : Room [] net.nextNode := ⟨List.nodup_nil, by simp⟩
  -- once `n` is up to date
  have rest : ∀ t, Quiet t → s.Since [] t → t.Settled n → t.Present n → (s.Adverse → s.Safe n) →
      ((if tracked then Pull.observe layout n else Pure.pure ()) >>= fun _ =>
        Pull.readCached n Pure.pure : Pull V V).wp
        (fun v t => Quiet t ∧ s.Since [] t ∧ s.Scratch n v ∧ (s.Adverse → s.Safe n))
        (fun _ t => Quiet t ∧ ¬ s.Safe n) False t := by
    intro t ht hst hset hp hsafe
    have hobs : (if tracked then Pull.observe layout n else Pure.pure () : Pull V Unit).wp
        (fun _ u => u = t) (fun _ _ => False) False t := by
      cases tracked with
      | true => exact ht.toIdle.observe
      | false => rfl
    rw [Act.wp_bind]
    refine Act.wp_mono hobs ?_ (fun _ _ hf => hf.elim) id
    rintro _ u rfl
    refine Act.wp_mono (ht.readCached hset hp) ?_ (fun _ _ hf => hf.elim) id
    rintro v w ⟨rfl, hv⟩
    exact ⟨ht, hst, hst.scratch.mp hv, hsafe⟩
  unfold Pull.read
  rw [Act.wp_bind, Act.wp_get]
  cases hsig : net.signals n with
  | some x =>
    obtain ⟨-, hnone⟩ := h.sound.source n x hsig
    refine rest net h since (fun y hy => ?_) (.inl ⟨x, hsig⟩) fun _ => ?_
    · rw [hnone] at hy; cases hy
    · refine .of_clean ((scratch_signal (since.signals ▸ hsig)).mpr rfl) fun y hy => ?_
      obtain ⟨y', hy', -⟩ := since.forth hy
      rw [hnone] at hy'; cases hy'
  | none =>
    cases hx : net.computed n with
    | none =>
      refine ⟨h, fun safe => ?_⟩
      obtain ⟨v, hv⟩ := safe.scratch
      rcases (since.scratch.mpr hv).present with ⟨x, hm⟩ | ⟨x, hm⟩
      · rw [hsig] at hm; cases hm
      · rw [hx] at hm; cases hm
    | some x =>
      dsimp only
      rw [← wp_refreshNode_bind, Act.wp_bind]
      have hco : net.Coherent net.stack := hstack ▸ h.coherent
      have hsi : s.Since net.stack net := hstack ▸ since
      have hfits : net.Fits [] n := trivial
      refine Act.wp_mono (wp_refreshNode_kept (refreshes layout depth V) (answers layout depth hc₀)
        h.sound hfits room (by simpa using deep) hco hsi (.inr ⟨x, hx⟩)) ?_ ?_ id
      · rintro _ t ⟨⟨hends, hset⟩, hkept, hsafe⟩
        obtain ⟨y, hy, -⟩ := hends.calm.some hx
        have hst := hkept.since
        rw [hends.calm.stack, hstack] at hst
        exact rest t (h.ends hends hkept.coherent) hst hset (.inr ⟨y, hy⟩) hsafe
      · rintro e t ⟨hends, hcoherent, hunsafe⟩
        refine ⟨h.ends hends hcoherent, hunsafe fun z hz => ?_⟩
        rw [hstack] at hz
        cases hz

/-- A read of the host returns the value from scratch, or there is a node that is
not safe. -/
theorem Quiet.readAs (h : Quiet net) (deep : 2 * net.nextNode < depth) (n : NodeId)
    (mode : ReadMode) : (readAs layout (refreshing layout depth) n mode).wp
      (fun v t => Quiet t ∧ net.Since [] t ∧ net.Scratch n v ∧ (net.Adverse → net.Safe n))
      (fun _ t => Quiet t ∧ ¬ net.Safe n) False net := by
  cases mode with
  | tracked => exact h.read h.coherent h.since deep true n
  | peek => exact h.read h.coherent h.since deep false n
  | untracked =>
    change (untrack _).wp _ _ _ _
    rw [wp_untrack]
    have hsince : net.Since [] { net with untracked := net.untracked + 1 } :=
      h.since.same rfl rfl rfl fun _ _ _ _ => rfl
    refine Act.wp_mono ((h.counting _).read h.coherent hsince deep true n) ?_ ?_ id
    · exact fun v t ht => ⟨ht.1.counting _, ht.2.1.same rfl rfl rfl fun _ _ _ _ => rfl, ht.2.2⟩
    · exact fun e t ht => ⟨ht.1.counting _, ht.2⟩

theorem Quiet.overwrite (h : Quiet net) (n : NodeId) (f : V → V) :
    (overwrite n f).wp (fun _ t => Quiet t) (fun _ t => Quiet t) False net := by
  unfold Pull.overwrite
  rw [Act.wp_bind, Act.wp_get]
  cases hs : net.signals n with
  | none => exact h
  | some s =>
    dsimp only
    rw [h.free n]
    refine ⟨h.toIdle.write n _, h.coherent.write h.sound h.free hs _, fun m => ?_⟩
    change ((net.setValue n (f s.value)).trigger n).borrows m = 0
    rw [((h.sound.setValue n (f s.value)).sealing_trigger n).1.toMarked.frame]
    exact h.free m

theorem Quiet.step (h : Quiet net) (depth : ℕ) {op : NetOp V} (ok : op.Pure) :
    (step layout depth op).wp (fun _ t => Quiet t) (fun _ t => Quiet t) True net := by
  cases op with
  | signal v same =>
    exact ⟨⟨h.sound.newSignal v same, h.stack⟩, h.coherent.newSignal h.sound v same, h.free⟩
  | thunk p =>
    refine ⟨⟨h.sound.newComputed _ none fun _ => Script.Pure.readOnly ok, h.stack⟩,
      h.coherent.newComputed h.sound (fun x hc he => ?_) (h.free _), h.free⟩
    refine ⟨hc ▸ ok, fun _ => by rw [hc], fun equals hq => ?_, fun equals hq => ?_⟩
    · rw [he] at hq; cases hq
    · rw [he] at hq; cases hq
  | memo f equals =>
    obtain ⟨h1, h2, h3, h4⟩ := ok
    refine ⟨⟨h.sound.newComputed f (some equals) fun p => h2 p ▸ h1.readOnly, h.stack⟩,
      h.coherent.newComputed h.sound (fun x hc he => ?_) (h.free _), h.free⟩
    refine ⟨hc ▸ h1, hc ▸ h2, fun equals' hq => ?_, fun equals' hq => ?_⟩
    · rw [he] at hq; cases hq; exact h3
    · rw [he] at hq; cases hq; exact h4
  | read mode n =>
    unfold Pull.step
    rw [Act.wp_bind]
    have hread := (below_readAs layout (Nat.le_max_left depth (2 * net.nextNode + 1)) n mode).wp
      (h.readAs (Nat.lt_of_lt_of_le (Nat.lt_succ_self _) (Nat.le_max_right _ _)) n mode)
    exact Act.wp_mono hread (fun _ _ ht => ht.1) (fun _ _ ht => ht.1) id
  | hold mode n => cases ok
  | release n => cases ok
  | set n v =>
    unfold Pull.step Pull.set
    rw [Act.wp_bind, Act.wp_bind, Act.wp_get]
    cases net.signals n with
    | none => exact h
    | some s =>
      dsimp only
      split
      · exact h
      · rw [Act.wp_bind]
        exact Act.wp_mono (h.overwrite n _) (fun _ _ ht => ht) (fun _ _ ht => ht) False.elim
  | replace n v =>
    unfold Pull.step
    rw [Act.wp_bind]
    exact Act.wp_mono (h.overwrite n _) (fun _ _ ht => ht) (fun _ _ ht => ht) False.elim
  | update n f =>
    unfold Pull.step
    rw [Act.wp_bind]
    exact Act.wp_mono (h.overwrite n f) (fun _ _ ht => ht) (fun _ _ ht => ht) False.elim

end Pull

namespace Net

variable {V : Type} {net t : Net V} {layout : Layout} {n : NodeId}

theorem Reached.quiet (h : Net.Reached layout NetOp.Pure net) : Pull.Quiet net := by
  induction h with
  | init => exact ⟨⟨sound_empty, rfl⟩, coherent_empty, fun _ => rfl⟩
  | returned _ op ok depth a hs ih =>
    have := @Pull.Quiet.step V _ layout ih depth _ ok
    unfold Act.wp at this
    rw [hs] at this
    exact this
  | unwound _ op ok depth e hs ih =>
    have := @Pull.Quiet.step V _ layout ih depth _ ok
    unfold Act.wp at this
    rw [hs] at this
    exact this

/-- Every compute is total and reads nodes that were created before it. -/
def Layered (net : Net V) : Prop :=
  ∀ n x, net.computed n = some x → (x.compute none).Reading fun m => m < n ∧ net.Present m

/-- A total script has a value, if what it may read has one. -/
theorem replays_of_total {worth : NodeId → V → Prop} {may : NodeId → Prop}
    (hm : ∀ m, may m → ∃ u, worth m u) {p : Script V}
    (hp : p.Reading may) : ∃ v, p.Replays worth v := by
  induction p with
  | ret v => exact ⟨v, .ret v⟩
  | call op f k ihf ihk =>
    obtain ⟨⟨m, rfl, hmay⟩, hf, hk⟩ := hp
    obtain ⟨u, hu⟩ := hm m hmay
    obtain ⟨w, hw⟩ := ihf u (hf u)
    obtain ⟨v, hv⟩ := ihk w (hk w)
    exact ⟨v, .read m f k u w v hu hw hv⟩

theorem may_of_mentions {may : NodeId → Prop} {p : Script V} {d : NodeId} (h : p.Mentions d)
    (hp : p.Reading may) : may d := by
  induction h with
  | here d f k =>
    obtain ⟨⟨m, he, hm⟩, -⟩ := hp
    cases he
    exact hm
  | closure n d f k u _ ih => exact ih (hp.2.1 u)
  | rest n d f k w _ ih => exact ih (hp.2.2 w)

theorem Asks.mentions {p : Script V} {d : NodeId} (h : net.Asks p d) : p.Mentions d := by
  induction h with
  | here n f k => exact .here n f k
  | closure n d f k u _ _ ih => exact .closure n d f k u ih
  | rest n d f k u w _ _ _ ih => exact .rest n d f k w ih

theorem Layered.scratch (hl : net.Layered) (hs : net.Sound) (hn : net.Present n) :
    ∃ v, net.Scratch n v := by
  induction n using Nat.strong_induction_on with
  | _ n ih =>
    rcases hn with ⟨s, hsig⟩ | ⟨x, hx⟩
    · exact ⟨s.value, (scratch_signal hsig).mpr rfl⟩
    · obtain ⟨v, hv⟩ := replays_of_total (fun m hm => ih m hm.1 hm.2) (hl n x hx)
      exact ⟨v, (scratch_computed (hs.signals_none hx) hx).mpr hv⟩

theorem Layered.consults (hl : net.Layered) (hc : net.Coherent []) {d : NodeId}
    (hd : net.Consults n d) : d < n ∧ net.Present d := by
  cases hd with
  | verified x e hx _ he hd => exact hd ▸ may_of_mentions (hc.mentioned n x hx e he) (hl n x hx)
  | read x hx _ hd => exact may_of_mentions hd.mentions (hl n x hx)

theorem Layered.safe (hl : net.Layered) (hs : net.Sound) (hc : net.Coherent [])
    (hn : net.Present n) : net.Safe n := by
  induction n using Nat.strong_induction_on with
  | _ n ih =>
    obtain ⟨v, hv⟩ := hl.scratch hs hn
    refine .intro n v hv fun d hd => ?_
    obtain ⟨hlt, hd⟩ := hl.consults hc hd
    exact ih d hlt hd

/-- Where computes are total and read earlier nodes only, a read of any node returns
its value from scratch over the current signal values, there is only one, and that is
also what every compute has seen. -/
theorem Layered.reads (hl : net.Layered) (hq : Pull.Quiet net) (layout : Layout) (mode : ReadMode)
    (hn : net.Present n) : ∃ v t, net.Scratch n v ∧ (∀ w, net.Scratch n w → w = v) ∧
      (∀ depth, 2 * net.nextNode < depth →
        Pull.readAs layout (Pull.refreshing layout depth) n mode net = .ok v t) ∧
      ∀ e ∈ t.seen, net.Scratch e.1 e.2 := by
  have hsafe := hl.safe hq.sound hq.coherent hn
  have hread := @Pull.Quiet.readAs V _ layout _ hq (Nat.lt_succ_self _) n mode
  unfold Act.wp at hread
  cases hr : Pull.readAs layout (Pull.refreshing layout (2 * net.nextNode + 1)) n mode net with
  | ok v t =>
    rw [hr] at hread
    obtain ⟨hqt, hsince, hv, -⟩ := hread
    refine ⟨v, t, hv, fun w hw => hw.unique hv, fun depth hd => ?_, fun e he => ?_⟩
    · rcases Pull.below_readAs layout (Nat.succ_le_of_lt hd) n mode net with hs | hs
      · rw [hr] at hs; cases hs
      · rw [← hs]; exact hr
    · exact hsince.scratch.mp (hqt.coherent.seen e he)
  | panic e t =>
    rw [hr] at hread
    exact absurd hsafe hread.2
  | stuck =>
    rw [hr] at hread
    exact hread.elim

end Net

end Adaptite

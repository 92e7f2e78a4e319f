import Adaptite.Consults
import Adaptite.Refreshing

set_option autoImplicit false

namespace Adaptite

open Unwinding

namespace Pull

open Net

variable {V : Type} {s net t u : Net V} {layout : Layout} {ctx : List PullFrame} {n m z : NodeId}
  {depth bound : ℕ} {rest : List NodeId}

structure Kept (s net t : Net V) : Prop where
  coherent : t.Coherent t.stack
  since : s.Since t.stack t
  later : net.Later t
  below : ∀ z ∈ net.stack, t.dependencies z = net.dependencies z

/-- Every running compute has been led to `n`. -/
def Above (s : Net V) (stack : List NodeId) (n : NodeId) : Prop :=
  ∀ z ∈ stack, Relation.TransGen s.Consults z n

theorem Above.consults (h : Above s rest n) (hm : s.Consults n m) : Above s rest m :=
  fun y hy => (h y hy).tail hm

theorem Above.not_mem (h : Above s rest n) (hn : s.Safe n) : n ∉ rest :=
  fun hmem => hn.acyclic (h n hmem)

/-- What is to be shown of `refreshing`, from a net that reads have made of `s`. -/
def Answers (layout : Layout) (depth : ℕ) (s : Net V) : Prop :=
  ∀ (net : Net V) (ctx : List PullFrame) (n : NodeId), net.Sound → net.Fits ctx n →
    n ∉ net.stack → n ∉ ctx.map PullFrame.node → Room ctx net.nextNode →
      2 * net.nextNode < depth + ctx.length → net.Coherent net.stack → s.Since net.stack net →
        net.Present n → (refreshing layout depth n).wp
          (fun _ t => Kept s net t ∧ (s.Adverse → s.Safe n))
          (fun _ t => t.Coherent t.stack ∧ (Above s net.stack n → ¬ s.Safe n)) False net

theorem jammed_consults {height : ℕ} (hj : net.Jammed height n) (since : s.Since net.stack net) :
    ∃ y ∈ net.stack, Relation.ReflTransGen s.Consults n y := by
  induction hj with
  | running z hz => exact ⟨z, hz, .refl⟩
  | waiting y n height version before after x idle hx hs hd hb _ ih =>
    obtain ⟨z, hz, hnz⟩ := ih
    obtain ⟨hx', hdeps, -⟩ := since.stale y x hx (by simp [hs])
    refine ⟨z, hz, .head (.verified x (n, version) hx' hs ?_ rfl) hnz⟩
    rw [← hdeps, hd]
    simp

theorem wp_refreshNode_kept (hr : Refreshes layout depth V) (ha : Answers layout depth s)
    (hs : net.Sound) (hf : net.Fits ctx n) (room : Room ctx net.nextNode)
    (deep : 2 * net.nextNode < depth + ctx.length) (hc : net.Coherent net.stack)
    (since : s.Since net.stack net) (hp : net.Present n) :
    (refreshNode (refreshing layout depth) n).wp
      (fun _ t => (Ends ctx n net t ∧ t.Settled n) ∧ Kept s net t ∧ (s.Adverse → s.Safe n))
      (fun _ t => Ends ctx n net t ∧ t.Coherent t.stack ∧ (Above s net.stack n → ¬ s.Safe n))
      False net := by
  have hlen := room.length_le
  by_cases hn : n ∈ ctx.map PullFrame.node ∧ n ∉ net.stack
  · obtain ⟨k, hk, hj⟩ := hf.jams hs hn.1 hn.2
    have hkd : k < depth := by omega
    refine Act.wp_mono (refreshNode_jammed hs hj hkd) (fun _ _ h => h.elim) ?_ id
    rintro e t ⟨m, hm, rfl⟩
    refine ⟨.note hs hf hm, hc.note m e, fun above safe => ?_⟩
    obtain ⟨y, hy, hny⟩ := jammed_consults hj since
    exact safe.acyclic (.trans_right hny (above y hy))
  · unfold refreshNode
    rw [Act.wp_bind]
    refine wp_assertNoCycle (fun hcheck => ?_) fun fault hfault => ?_
    · have idle := hs.cycleCheck_eq_none.mp hcheck
      have hnew : n ∉ ctx.map PullFrame.node := fun hm => hn ⟨hm, idle⟩
      refine Act.wp_mono (Act.wp_and (hr net ctx n hs hf idle hnew room deep)
        (ha net ctx n hs hf idle hnew room deep hc since hp)) (fun _ _ h => h) ?_ id
      exact fun _ _ h => ⟨h.1.1, h.2⟩
    · refine ⟨.note hs hf hfault, hc.note n fault, fun above safe => above.not_mem safe ?_⟩
      by_contra idle
      rw [hs.cycleCheck_eq_none.mpr idle] at hfault
      cases hfault

/-- Inside the compute of `z`. -/
structure Running (s : Net V) (ctx : List PullFrame) (z : NodeId) (rest : List NodeId) (bound : ℕ)
    (net : Net V) : Prop extends Within (.computing z :: ctx) z bound net where
  coherent : net.Coherent net.stack
  since : s.Since net.stack net
  stack : net.stack = z :: rest
  tracked : net.untracked = 0
  self : ∃ x, net.computed z = some x

/-- What the compute of `z` does while it runs. -/
structure Onward (z : NodeId) (net t : Net V) : Prop where
  calm : Calm [] net t
  later : net.Later t
  grows : ∀ e ∈ net.dependencies z, e ∈ t.dependencies z
  below : ∀ y ∈ net.stack, y ≠ z → t.dependencies y = net.dependencies y

theorem Onward.refl (z : NodeId) (net : Net V) : Onward z net net :=
  ⟨Calm.refl [] net, .refl net, fun _ => id, fun _ _ _ => rfl⟩

theorem Onward.trans (h : Onward z net t) (h' : Onward z t u) : Onward z net u :=
  ⟨h.calm.trans h'.calm, h.later.trans h'.later, fun e he => h'.grows e (h.grows e he),
    fun y hy hz => (h'.below y (h.calm.stack ▸ hy) hz).trans (h.below y hy hz)⟩

theorem Running.within (h : Running s ctx z rest bound net)
    (ht : Within (.computing z :: ctx) z bound t) (hn : Onward z net t)
    (hc : t.Coherent t.stack) (since : s.Since t.stack t) : Running s ctx z rest bound t where
  toWithin := ht
  coherent := hc
  since := since
  stack := hn.calm.stack.trans h.stack
  tracked := hn.calm.untracked.trans h.tracked
  self := by
    obtain ⟨x, hx⟩ := h.self
    obtain ⟨y, hy, -⟩ := hn.calm.some hx
    exact ⟨y, hy⟩

theorem Running.clean (h : Running s ctx z rest bound net) {x : NetComputed V}
    (hx : net.computed z = some x) : x.state = .clean :=
  (h.sound.busy z (h.stack ▸ List.mem_cons_self)).2 x hx

theorem recordEdge_top (hs : net.stack = z :: rest) (hu : net.untracked = 0) :
    net.recordEdge layout m = (net.insertEdge layout z m).insertDependent layout m z := by
  unfold Net.recordEdge
  rw [hu, hs]
  rfl

theorem Running.observe (h : Running s ctx z rest bound net) (hm : net.Settled m)
    (hp : net.Present m) (below : m < net.nextNode)
    (mentioned : ∀ x, s.computed z = some x → (x.compute none).Mentions m) : (observe layout m).wp
      (fun _ t => Running s ctx z rest bound t ∧ Onward z net t ∧
        (m, net.version m) ∈ t.dependencies z ∧ t.past = net.past ∧ t.cached = net.cached)
      (fun _ t => t.Coherent t.stack ∧ t.stack = net.stack ∧ m ∈ net.stack) False net := by
  unfold Pull.observe
  rw [Act.wp_bind]
  refine wp_assertNoCycle (fun hcheck => ?_) fun fault hfault => ?_
  · have idle := h.sound.cycleCheck_eq_none.mp hcheck
    rw [Act.wp_modify, recordEdge_top h.stack h.tracked]
    set t := (net.insertEdge layout z m).insertDependent layout m z with ht
    have hrec : net.recordEdge layout m = t := recordEdge_top h.stack h.tracked
    have hmem := @mem_insertEdge V net layout z m
    obtain ⟨x, hx⟩ := h.self
    have hgrows : ∀ e ∈ net.dependencies z, e ∈ t.dependencies z := by
      intro e he
      refine (hmem e).mpr ?_
      by_cases hem : e.1 = m
      · have hv := h.coherent.current z x hx (h.clean hx) e he
        exact .inl (Prod.ext hem (by rw [← hv, hem]))
      · exact .inr ⟨he, hem⟩
    have hbelow : ∀ y, y ≠ z → t.dependencies y = net.dependencies y := fun y hy =>
      Function.update_of_ne hy _ _
    have honward : Onward z net t :=
      ⟨hrec ▸ Calm.recordEdge net layout m, .of_eq rfl rfl, hgrows, fun y _ => hbelow y⟩
    have hwithin : Within (.computing z :: ctx) z bound t := by
      refine ⟨hrec ▸ h.sound.recordEdge hm idle below, ?_, h.bound⟩
      refine h.fits.recorded rfl rfl rfl fun k hk => hbelow k ?_
      rintro rfl
      exact hk (h.stack ▸ List.mem_cons_self)
    have hcoherent : (net.recordEdge layout m).Coherent net.stack :=
      h.coherent.recordEdge (fun _ => id) hp fun o ho y hy => by
        rw [h.stack] at ho
        cases ho
        obtain ⟨y', hy', hcode, -⟩ := h.since.back hy
        rw [hcode]
        exact mentioned y' hy'
    have hsince := h.since.recordEdge h.sound layout m
    rw [hrec] at hcoherent hsince
    exact ⟨h.within hwithin honward hcoherent hsince, honward, (hmem _).mpr (.inl rfl), rfl, rfl⟩
  · refine ⟨h.coherent.note m fault, rfl, ?_⟩
    by_contra idle
    rw [h.sound.cycleCheck_eq_none.mpr idle] at hfault
    cases hfault

/-- What a script returns is what it yields over what has been recorded, and where
the order is adverse all that it has read is safe. -/
structure Yields (s : Net V) (ctx : List PullFrame) (z : NodeId) (rest : List NodeId) (bound : ℕ)
    (p : Script V) (net : Net V) (v : V) (t : Net V) : Prop where
  running : Running s ctx z rest bound t
  onward : Onward z net t
  replays : p.Replays (t.Recorded z) v
  asked : s.Adverse → ∀ d, s.Asks p d → s.Safe d

/-- A script that unwinds has no value from scratch, or has read a node that is not safe. -/
structure Fails (s : Net V) (z : NodeId) (rest : List NodeId) (p : Script V) (t : Net V) : Prop where
  coherent : t.Coherent t.stack
  stack : t.stack = z :: rest
  blocked : Above s rest z → (∀ d, s.Asks p d → s.Consults z d) → ∀ v, p.Replays s.Scratch v →
    ∃ d, s.Asks p d ∧ ¬ s.Safe d

/-- What is recorded for a running compute is what the dependencies are worth. -/
theorem Running.scratch (h : Running s ctx z rest bound net) {d : NodeId} {v : V}
    (hd : net.Recorded z d v) : s.Scratch d v := by
  obtain ⟨x, hx⟩ := h.self
  exact h.since.scratch.mp (h.coherent.recorded_scratch h.sound (fun _ => id) hx (h.clean hx) hd)

theorem Yields.scratch {p : Script V} {v : V} (h : Yields s ctx z rest bound p net v t) :
    p.Replays s.Scratch v := h.replays.mono fun _ _ => h.running.scratch

theorem Running.recorded (h : Running s ctx z rest bound net) (hn : Onward z net t) {d : NodeId}
    {v : V} (hd : net.Recorded z d v) : t.Recorded z d v :=
  hd.later hn.later hn.grows (h.coherent.old z)

/-- Running does not depend on counters, borrows and what has been seen. -/
theorem Running.same (h : Running s ctx z rest bound net) (hw : Within (.computing z :: ctx) z bound t)
    (hc : t.Coherent t.stack) (h1 : t.computed = net.computed) (h2 : t.signals = net.signals)
    (h3 : t.dependencies = net.dependencies) (h4 : t.version = net.version)
    (h5 : t.stack = net.stack) (h6 : t.untracked = net.untracked) :
    Running s ctx z rest bound t where
  toWithin := hw
  coherent := hc
  since := h5 ▸ h.since.same h1 h2 h4 fun _ _ _ _ => by rw [h3]
  stack := h5.trans h.stack
  tracked := h6.trans h.tracked
  self := h1 ▸ h.self

/-- The end of a read, with the rest of the script in its closure. -/
theorem wp_readCached_yields {f : V → Script V} {v : V} {next : NodeId → Pull V Unit}
    (h : Running s ctx z rest bound net) (hm : net.Settled m) (hv : net.cached m = some v)
    (hbody : ∀ t, Running s ctx z rest bound t → (exec layout next (f v)).wp
      (Yields s ctx z rest bound (f v) t) (fun _ => Fails s z rest (f v)) False t) :
    (readCached m fun v => exec layout next (f v)).wp (Yields s ctx z rest bound (f v) net)
      (fun _ => Fails s z rest (f v)) False net := by
  have hscratch := h.coherent.scratch h.sound (fun _ => id) hm hv
  unfold readCached
  rw [wp_borrowing, Act.wp_bind, Act.wp_get]
  have hcached : (net.borrow m).cached m = some v := hv
  rw [hcached]
  dsimp only
  rw [Act.wp_bind, Act.wp_modify]
  have hborrow : Running s ctx z rest bound (net.borrow m) :=
    h.same (h.toWithin.same rfl rfl rfl rfl rfl rfl rfl rfl rfl)
      (h.coherent.borrow fun x hx => (hm x hx).1) rfl rfl rfl rfl rfl rfl
  have hseen : Running s ctx z rest bound ((net.borrow m).noteSeen m v) := by
    have hscr : (net.borrow m).Scratch m v := hscratch.code rfl fun k x hx => ⟨x, hx, rfl⟩
    have hco := hborrow.coherent.noteSeen hscr
    unfold Net.noteSeen at hco ⊢
    split
    · exact hborrow
    · rename_i hst
      rw [if_neg hst] at hco
      exact hborrow.same (hborrow.toWithin.same rfl rfl rfl rfl rfl rfl rfl rfl rfl) hco
        rfl rfl rfl rfl rfl rfl
  have honward : Onward z (net.borrow m) ((net.borrow m).noteSeen m v) := by
    refine ⟨Calm.noteSeen _ v, ?_, ?_, ?_⟩ <;> unfold Net.noteSeen <;> split
    · exact .refl _
    · exact .of_eq rfl rfl
    · exact fun _ => id
    · exact fun _ => id
    · exact fun _ _ _ => rfl
    · exact fun _ _ _ => rfl
  refine Act.wp_mono (hbody _ hseen) ?_ ?_ id
  · intro w t ht
    have hon := honward.trans ht.onward
    refine ⟨?_, ⟨hon.calm.borrowing, ⟨hon.later.version, hon.later.past⟩, hon.grows,
      hon.below⟩, ht.replays, ht.asked⟩
    exact ht.running.same (ht.running.toWithin.same rfl rfl rfl rfl rfl rfl rfl rfl rfl)
      (ht.running.coherent.giveBack m) rfl rfl rfl rfl rfl rfl
  · exact fun _ t ht => ⟨ht.coherent.giveBack m, ht.stack, ht.blocked⟩

section Exec

variable (hr : Refreshes layout depth V) (ha : Answers layout depth s)
  (room : Room (.computing z :: ctx) bound) (deep : 2 * bound < depth + (ctx.length + 1))

include hr ha room deep in
/-- A script that reads and panics only. -/
theorem executes {p : Script V} (hp : p.Pure)
    (part : ∀ x, s.computed z = some x → ∀ d, p.Mentions d → (x.compute none).Mentions d)
    (h : Running s ctx z rest bound net) : (exec layout (refreshing layout depth) p).wp (Yields s ctx z rest bound p net)
      (fun _ => Fails s z rest p) False net := by
  induction p generalizing net with
  | ret v =>
    refine ⟨h, .refl z net, .ret v, fun _ d hd => ?_⟩
    cases hd
  | call op f k ihf ihk =>
    obtain ⟨hop, hf, hk⟩ := hp
    cases op with
    | panic v =>
      refine ⟨h.coherent, h.stack, fun _ _ w hw => ?_⟩
      cases hw
    | withValue m =>
      change (read layout (refreshing layout depth) true m
        (fun u => exec layout (refreshing layout depth) (f u)) >>= fun w =>
          exec layout (refreshing layout depth) (k w)).wp _ _ _ _
      rw [Act.wp_bind]
      -- the end of the read, once `m` is up to date
      have rest' : ∀ t, Running s ctx z rest bound t → Onward z net t → t.Settled m →
          t.Present m → m < t.nextNode → (s.Adverse → s.Safe m) →
          ((if true then Pull.observe layout m else pure ()) >>= fun _ =>
            Pull.readCached m fun u => exec layout (refreshing layout depth) (f u)).wp
          (fun w t => (exec layout (refreshing layout depth) (k w)).wp
            (Yields s ctx z rest bound (.call (.withValue m) f k) net)
            (fun _ => Fails s z rest (.call (.withValue m) f k)) False t)
          (fun _ => Fails s z rest (.call (.withValue m) f k)) False t := by
        intro t ht hon hset hpres below hsafe
        rw [Act.wp_bind, if_pos rfl]
        refine Act.wp_mono (ht.observe hset hpres below fun x hx => part x hx m (.here m f k))
          ?_ ?_ id
        · rintro _ t₁ ⟨ht₁, hon₁, he, hpast, hcached⟩
          have hset₁ : t₁.Settled m := hon₁.calm.settled hset
          obtain ⟨u, hu, hscr⟩ := ht.coherent.cached_of_settled ht.sound (fun _ => id) hset hpres
          have hscr' : s.Scratch m u := ht.since.scratch.mp hscr
          have hrec : t₁.Recorded z m u := by
            refine ⟨_, he, ?_⟩
            rw [hpast, ht.coherent.cached]
            exact hu
          refine Act.wp_mono (wp_readCached_yields ht₁ hset₁ (hcached ▸ hu)
            fun t' ht' => ihf u (hf u) (fun x hx d hd => part x hx d (.closure m d f k u hd))
              ht') ?_ ?_ id
          · intro w t₂ ht₂
            refine Act.wp_mono (ihk w (hk w) (fun x hx d hd => part x hx d (.rest m d f k w hd))
              ht₂.running) ?_ ?_ id
            · intro v t₃ ht₃
              refine ⟨ht₃.running, (hon.trans hon₁).trans (ht₂.onward.trans ht₃.onward), ?_, ?_⟩
              · refine .read m f k u w v (ht₂.running.recorded ht₃.onward
                  (ht₁.recorded ht₂.onward hrec)) (ht₂.replays.mono fun _ _ hd =>
                    ht₂.running.recorded ht₃.onward hd) ht₃.replays
              · intro adverse d hd
                rcases asks_read hd with rfl | ⟨u', hu', hd | ⟨w', hw', hd⟩⟩
                · exact hsafe adverse
                · cases hscr'.unique hu'
                  exact ht₂.asked adverse d hd
                · cases hscr'.unique hu'
                  cases ht₂.scratch.unique hw' fun _ _ _ => Scratch.unique
                  exact ht₃.asked adverse d hd
            · intro e t₃ ht₃
              refine ⟨ht₃.coherent, ht₃.stack, fun above hasks v hv => ?_⟩
              obtain ⟨u', w', hu', hw', hv'⟩ := Script.replays_read.mp hv
              cases hscr'.unique hu'
              cases ht₂.scratch.unique hw' fun _ _ _ => Scratch.unique
              have hin : ∀ d, s.Asks (k w) d → s.Asks (.call (.withValue m) f k) d :=
                fun d hd => .rest m d f k u w hscr' ht₂.scratch hd
              obtain ⟨d, hd, hn⟩ := ht₃.blocked above (fun d hd => hasks d (hin d hd)) v hv'
              exact ⟨d, hin d hd, hn⟩
          · intro e t₂ ht₂
            refine ⟨ht₂.coherent, ht₂.stack, fun above hasks v hv => ?_⟩
            obtain ⟨u', w', hu', hw', -⟩ := Script.replays_read.mp hv
            cases hscr'.unique hu'
            have hin : ∀ d, s.Asks (f u) d → s.Asks (.call (.withValue m) f k) d :=
              fun d hd => .closure m d f k u hscr' hd
            obtain ⟨d, hd, hn⟩ := ht₂.blocked above (fun d hd => hasks d (hin d hd)) w' hw'
            exact ⟨d, hin d hd, hn⟩
        · rintro e t₁ ⟨hco, hstack, hmem⟩
          refine ⟨hco, hstack.trans ht.stack, fun above hasks v _ => ⟨m, .here m f k, fun safe => ?_⟩⟩
          have hzm := hasks m (.here m f k)
          rw [ht.stack, List.mem_cons] at hmem
          rcases hmem with rfl | hmem
          · exact safe.acyclic (.single hzm)
          · exact safe.acyclic ((above m hmem).tail hzm)
      unfold Pull.read
      rw [Act.wp_bind, Act.wp_get]
      cases hsig : net.signals m with
      | some x =>
        obtain ⟨below, hnone⟩ := h.sound.source m x hsig
        have hsig' : s.signals m = some x := h.since.signals ▸ hsig
        refine rest' net h (.refl z net) (fun y hy => ?_) (.inl ⟨x, hsig⟩) below fun _ => ?_
        · rw [hnone] at hy; cases hy
        · refine .of_clean ((scratch_signal hsig').mpr rfl) fun y hy => ?_
          obtain ⟨y', hy', -⟩ := h.since.forth hy
          rw [hnone] at hy'; cases hy'
      | none =>
        cases hx : net.computed m with
        | none =>
          refine ⟨h.coherent, h.stack, fun _ _ v hv => ?_⟩
          obtain ⟨u, -, hu, -⟩ := Script.replays_read.mp hv
          rcases (h.since.scratch.mpr hu).present with ⟨x, hm⟩ | ⟨x, hm⟩
          · rw [hsig] at hm; cases hm
          · rw [hx] at hm; cases hm
        | some x =>
          dsimp only
          rw [← wp_refreshNode_bind, Act.wp_bind]
          have hN := h.bound
          have below := h.sound.known m x hx
          refine Act.wp_mono (wp_refreshNode_kept hr ha h.sound
            (Open.fits (open_computing z ctx) h.fits m) (hN.symm ▸ room)
            (by rw [List.length_cons]; omega) h.coherent h.since (.inr ⟨x, hx⟩)) ?_ ?_ id
          · rintro _ t ⟨⟨hends, hset⟩, hkept, hsafe⟩
            have hz : z ∈ net.stack := h.stack ▸ List.mem_cons_self
            have hwithin : Within (.computing z :: ctx) z bound t :=
              ⟨hends.sound, Open.fits (open_computing z ctx) hends.fits z,
                hends.calm.nextNode.trans hN⟩
            have hon : Onward z net t := ⟨hends.calm, hkept.later,
              fun e he => hkept.below z hz ▸ he, fun y hy _ => hkept.below y hy⟩
            obtain ⟨y, hy, -⟩ := hends.calm.some hx
            exact rest' t (h.within hwithin hon hkept.coherent hkept.since) hon hset
              (.inr ⟨y, hy⟩) (hends.calm.nextNode.symm ▸ below) hsafe
          · rintro e t ⟨hends, hco, hunsafe⟩
            refine ⟨hco, hends.calm.stack.trans h.stack, fun above hasks v _ => ⟨m, .here m f k, hunsafe fun y hy => ?_⟩⟩
            have hzm := hasks m (.here m f k)
            rw [h.stack, List.mem_cons] at hy
            rcases hy with rfl | hy
            · exact .single hzm
            · exact (above y hy).tail hzm
    | catchUnwind => cases hop
    | untrack => cases hop
    | withPeek m => cases hop
    | set m v => cases hop
    | replace m v => cases hop
    | update m g => cases hop

end Exec

/-- The compute of `n` has returned `v`, which is not stored yet. -/
structure Ran (s net : Net V) (n : NodeId) (x : NetComputed V) (v : V) (t : Net V) : Prop where
  coherent : t.Coherent (n :: net.stack)
  since : s.Since (n :: net.stack) t
  later : net.Later t
  below : ∀ y ∈ net.stack, t.dependencies y = net.dependencies y
  self : t.computed n = some { x with state := .clean }
  version : t.version n = net.version n
  replays : (x.compute none).Replays (t.Recorded n) v
  scratch : (x.compute none).Replays s.Scratch v
  asked : s.Adverse → ∀ d, s.Asks (x.compute none) d → s.Safe d
  lonely : ∀ m y, t.computed m = some y → y.state = .clean → ∀ e ∈ t.dependencies m, e.1 ≠ n

variable {x : NetComputed V} {v : V}

theorem Ran.leave (h : Ran s net n x v t) (untracked : ℕ) : Ran s net n x v (t.leave untracked) := by
  have hco := h.coherent.leave untracked
  unfold Net.leave at hco ⊢
  split
  all_goals
    exact ⟨by simpa only [*] using hco, h.since.same rfl rfl rfl fun _ _ _ _ => rfl,
      ⟨h.later.version, h.later.past⟩, h.below, h.self, h.version, h.replays, h.scratch, h.asked,
      h.lonely⟩

section Recompute

variable (hr : Refreshes layout depth V) (ha : Answers layout depth s) (hs : net.Sound)
  (hf : net.Fits ctx n) (idle : n ∉ net.stack) (hn : n ∉ ctx.map PullFrame.node)
  (room : Room ctx net.nextNode) (deep : 2 * net.nextNode < depth + 1 + ctx.length)
  (hc : net.Coherent net.stack) (since : s.Since net.stack net) (hx : net.computed n = some x)
  (stale : x.state ≠ .clean)

include hs hf idle hn hc since hx stale in
theorem running_enter :
    Running s ctx n net.stack net.nextNode ((net.setState n .clean).enter n) where
  toWithin := within_enter hs hf idle hn hx stale
  coherent := by
    have hrun : (net.enter n).Coherent (n :: net.stack) :=
      (hc.weaken fun _ hm => List.mem_cons_of_mem n hm).enter List.mem_cons_self
    have hnil : (net.enter n).dependencies n = [] := Function.update_self _ _ _
    refine hrun.setState (fun _ hm _ => hm) (fun _ hout => ?_) (fun _ e he => ?_) (.inl rfl)
    · exact absurd List.mem_cons_self hout
    · rw [hnil] at he; cases he
  since := since.enter n
  stack := rfl
  tracked := rfl
  self := ⟨_, (computed_setState n).trans (by rw [if_pos rfl, hx]; rfl)⟩

theorem ran_of_yields (hx : net.computed n = some x)
    (h : Yields s ctx n net.stack bound (x.compute none) ((net.setState n .clean).enter n) v t) :
    Ran s net n x v t where
  coherent := h.running.stack ▸ h.running.coherent
  since := h.running.stack ▸ h.running.since
  later := ⟨h.onward.later.version, h.onward.later.past⟩
  below y hy := by
    have hself := h.running.sound.nodup
    rw [h.running.stack, List.nodup_cons] at hself
    have hne : y ≠ n := fun he => hself.1 (he ▸ hy)
    refine (h.onward.below y (List.mem_cons_of_mem n hy) hne).trans ?_
    exact Function.update_of_ne hne _ _
  self := by
    have hself : ((net.setState n .clean).enter n).computed n =
        some { x with state := .clean } :=
      (computed_setState n).trans (by rw [if_pos rfl, hx]; rfl)
    exact (h.onward.calm.clean n List.not_mem_nil _ hself rfl).1
  version := by
    have hself : ((net.setState n .clean).enter n).computed n =
        some { x with state := .clean } :=
      (computed_setState n).trans (by rw [if_pos rfl, hx]; rfl)
    exact (h.onward.calm.clean n List.not_mem_nil _ hself rfl).2.1
  replays := h.replays
  scratch := h.scratch
  asked := h.asked
  lonely := by
    intro m y hy hclean e he hen
    obtain ⟨z, hz⟩ := h.running.self
    have hset := h.running.sound.settled m y hy hclean e he z (hen ▸ hz)
    rw [h.running.stack, hen] at hset
    exact hset.2 List.mem_cons_self

include hr ha hs hf idle hn room deep hc since hx stale in
/-- The compute of a stale node, under the borrow that a memo holds. -/
theorem wp_compute_ran (memo : Bool) : ((if memo then borrowing n else id) (runInContext n
    (exec layout (refreshing layout depth) (x.compute x.value)))).wp
      (fun v t => Ran s net n x v t)
      (fun _ t => t.Coherent (n :: net.stack) ∧ (Above s net.stack n →
        (∀ d, s.Asks (x.compute none) d → s.Consults n d) →
          ∀ v, (x.compute none).Replays s.Scratch v → ∃ d, s.Asks (x.compute none) d ∧ ¬ s.Safe d))
      False (net.setState n .clean) := by
  have below := hs.known n x hx
  have plain := hc.plain n x hx
  set a := net.setState n .clean with ha'
  have hrun : Running s ctx n net.stack net.nextNode (a.enter n) :=
    running_enter hs hf idle hn hc since hx stale
  have room' : Room (.computing n :: ctx) net.nextNode := room.cons (.computing n) hn below
  have idle' : n ∉ a.activeComputations := by
    change n ∉ net.activeComputations
    rw [hs.running]
    exact idle
  have hexec : ∀ t, Running s ctx n net.stack net.nextNode t →
      (exec layout (refreshing layout depth) (x.compute x.value)).wp
        (Yields s ctx n net.stack net.nextNode (x.compute none) t)
        (fun _ => Fails s n net.stack (x.compute none)) False t := by
    intro t ht
    rw [plain.fixed]
    refine executes hr ha room' (by omega) plain.script (fun y hy d hd => ?_) ht
    obtain ⟨y', hy', hcode, -⟩ := since.forth hy
    rw [hx] at hy'
    cases hy'
    exact hcode ▸ hd
  cases memo with
  | false =>
    change (runInContext n _).wp _ _ _ _
    rw [wp_runInContext idle']
    refine Act.wp_mono (hexec _ hrun) (fun v t ht => ?_) (fun _ t ht => ?_) id
    · exact (ran_of_yields hx ht).leave _
    · exact ⟨(ht.stack ▸ ht.coherent).leave _, ht.blocked⟩
  | true =>
    change (borrowing n (runInContext n _)).wp _ _ _ _
    rw [wp_borrowing, wp_runInContext (by exact idle')]
    have hborrow : Running s ctx n net.stack net.nextNode ((a.enter n).borrow n) := by
      refine hrun.same (hrun.toWithin.same rfl rfl rfl rfl rfl rfl rfl rfl rfl)
        (hrun.coherent.borrow fun y hy => hrun.clean hy) rfl rfl rfl rfl rfl rfl
    refine Act.wp_mono (hexec _ hborrow) (fun v t ht => ?_) (fun _ t ht => ?_) id
    · have hon : Yields s ctx n net.stack net.nextNode (x.compute none) (a.enter n) v
          (t.giveBack n) :=
        ⟨ht.running.same (ht.running.toWithin.same rfl rfl rfl rfl rfl rfl rfl rfl rfl)
          (ht.running.coherent.giveBack n) rfl rfl rfl rfl rfl rfl,
          ⟨ht.onward.calm.borrowing, ⟨ht.onward.later.version, ht.onward.later.past⟩,
            ht.onward.grows, ht.onward.below⟩, ht.replays, ht.asked⟩
      rw [giveBack_leave]
      exact (ran_of_yields hx hon).leave _
    · rw [giveBack_leave]
      exact ⟨((ht.stack ▸ ht.coherent : t.Coherent (n :: net.stack)).giveBack n).leave _, ht.blocked⟩

end Recompute

/-- The value is stored, and the version bumped if it counts as a change. -/
theorem Ran.finish (h : Ran s net n x v t) (hsig : t.signals n = none)
    (hv : net.version n = s.version n) (safe : s.Adverse → s.Safe n) {bump : Bool}
    (hb : bump = true ↔ s.Bumps n) (same : bump = false → x.value = some v) :
    let u := if bump then (t.store n v).bumpVersion n else t.store n v
    u.Coherent net.stack ∧ s.Since net.stack u ∧ net.Later u ∧
      ∀ y ∈ net.stack, u.dependencies y = net.dependencies y := by
  intro u
  have hstored : (t.store n v).computed n = some { x with state := .clean, value := some v } :=
    (computed_modifyComputed _ n).trans (by rw [if_pos rfl, h.self]; rfl)
  have hother : ∀ m, m ≠ n → (t.store n v).computed m = t.computed m := fun m hm =>
    (computed_modifyComputed _ m).trans (if_neg hm)
  have hcached : (t.store n v).cached n = some v :=
    cached_computed (show (t.store n v).signals n = none from hsig) hstored
  have hversion : t.version n = s.version n := h.version.trans hv
  cases bump with
  | true =>
    have hlater : t.Later ((t.store n v).bumpVersion n) := by
      have hl := Later.bumpVersion (t.store n v) n
      exact ⟨hl.version, hl.past⟩
    refine ⟨?_, ?_, h.later.trans hlater, h.below⟩
    · refine h.coherent.finish h.self hsig h.replays hlater rfl rfl rfl
        (fun m hm => ⟨Function.update_of_ne hm _ _, Function.update_of_ne hm _ _⟩) ?_ rfl rfl
        fun m y hy hclean e he => Function.update_of_ne (h.lonely m y hy hclean e he) _ _
      change Function.update (t.store n v).past n _ n
        (Function.update (t.store n v).version n _ n) = _
      rw [Function.update_self, Function.update_self, Function.update_self]
      exact hcached
    · refine h.since.finish h.self hstored ⟨rfl, rfl⟩ rfl hother rfl (fun _ _ => rfl)
        (fun m hm => Function.update_of_ne hm _ _) hversion ⟨fun _ => ?_, fun hn => ?_⟩ safe
      · exact Function.update_self _ _ _
      · exact absurd (hb.mp rfl) hn
  | false =>
    have hlater : t.Later (t.store n v) := .of_eq rfl rfl
    refine ⟨?_, ?_, h.later.trans hlater, h.below⟩
    · refine h.coherent.finish h.self hsig h.replays hlater rfl rfl rfl
        (fun m hm => ⟨rfl, rfl⟩) ?_ rfl rfl fun m y hy hclean e he => rfl
      change t.past n (t.version n) = _
      rw [h.coherent.cached, cached_computed hsig h.self]
      exact same rfl
    · refine h.since.finish h.self hstored ⟨rfl, rfl⟩ rfl hother rfl (fun _ _ => rfl)
        (fun m hm => rfl) hversion ⟨fun hbumps => ?_, fun _ => rfl⟩ safe
      exact absurd (hb.mpr hbumps) (by simp)

section Refresh

variable (hr : Refreshes layout depth V) (ha : Answers layout depth s) (hs : net.Sound)
  (hf : net.Fits ctx n) (idle : n ∉ net.stack) (hn : n ∉ ctx.map PullFrame.node)
  (room : Room ctx net.nextNode) (deep : 2 * net.nextNode < depth + 1 + ctx.length)
  (hc : net.Coherent net.stack) (since : s.Since net.stack net)

include hr ha hs hf idle hn room deep hc since in
theorem wp_recompute_kept (hx : net.computed n = some x) (stale : x.state ≠ .clean)
    (why : s.Reruns n)
    (deps : s.Adverse → x.state = .check → ∀ e ∈ s.dependencies n, s.Safe e.1) :
    (recompute layout (refreshing layout depth) n).wp
      (fun _ t => Kept s net t ∧ (s.Adverse → s.Safe n))
      (fun _ t => t.Coherent t.stack ∧ (Above s net.stack n → ¬ s.Safe n)) False net := by
  obtain ⟨hx', hdeps, hv⟩ := since.stale n x hx stale
  have hfree : net.borrows n = 0 := by
    by_contra hb
    exact stale (hc.lent n x hx (Nat.pos_of_ne_zero hb))
  have hasks : ∀ d, s.Asks (x.compute none) d → s.Consults n d := fun d hd => .read x hx' why hd
  unfold recompute
  simp only [Act.wp_bind, Act.wp_get, hx, Act.wp_modify, Act.wp_onUnwind]
  refine Act.wp_mono (Act.wp_and (wp_compute hr hs hf idle hn room deep hx stale x.equals.isSome)
    (wp_compute_ran hr ha hs hf idle hn room deep hc since hx stale x.equals.isSome)) ?_ ?_ id
  · rintro v t ⟨hafter, hran⟩
    have hstack := hafter.calm.stack
    have hsig : t.signals n = none := by
      rw [hafter.calm.signals]
      exact hs.signals_none hx
    have hscratch : s.Scratch n v := by
      refine (scratch_computed ?_ hx').mpr hran.scratch
      rw [← since.signals]
      exact hs.signals_none hx
    have hsafe : s.Adverse → s.Safe n := fun adverse => .intro n v hscratch fun d hd => by
      cases hd with
      | verified y e hy hst he hd =>
        rw [hx'] at hy
        cases hy
        exact hd ▸ deps adverse hst e he
      | read y hy _ hd =>
        rw [hx'] at hy
        cases hy
        exact hran.asked adverse d hd
    unfold changed
    rw [Act.wp_bind, Act.wp_get, hran.self]
    -- what follows the comparison, once its verdict is known to be right
    have store : ∀ bump : Bool, (bump = true ↔ s.Differs n) → (bump = false → x.value = some v) →
        (replaceValue n v >>= fun _ =>
          if bump then Act.modify fun net => net.bumpVersion n else pure ()).wp
          (fun _ t => Kept s net t ∧ (s.Adverse → s.Safe n))
          (fun _ t => t.Coherent t.stack ∧ (Above s net.stack n → ¬ s.Safe n)) False t := by
      intro bump hb same
      unfold replaceValue
      rw [Act.wp_bind, Act.wp_bind, Act.wp_get, hafter.calm.borrows, hfree]
      have hbumps : bump = true ↔ s.Bumps n := by
        rw [bumps_iff, hb]
        exact ⟨fun hd => ⟨hd, why⟩, And.left⟩
      have hfinish := hran.finish hsig hv hsafe hbumps same
      cases bump with
      | true =>
        obtain ⟨h1, h2, h3, h4⟩ := hfinish
        exact ⟨⟨hstack ▸ h1, hstack ▸ h2, h3, h4⟩, hsafe⟩
      | false =>
        obtain ⟨h1, h2, h3, h4⟩ := hfinish
        exact ⟨⟨hstack ▸ h1, hstack ▸ h2, h3, h4⟩, hsafe⟩
    have hdiffers : s.Differs n ↔
        ∀ equals old, x.equals = some equals → x.value = some old → equals old v ≠ .ok true := by
      constructor
      · rintro ⟨y, w, hy, hw, hne⟩
        rw [hx'] at hy
        cases hy
        cases hscratch.unique hw
        exact hne
      · exact fun hne => ⟨x, v, hx', hscratch, hne⟩
    have hstore := fun bump hb same => by
      have := store bump hb same
      rw [Act.wp_bind] at this
      exact this
    dsimp only
    split
    · rename_i equals current hequals hvalue
      obtain ⟨same, hsame⟩ := (hc.plain n x hx).total equals hequals current v
      rw [hsame]
      refine hstore (!same) ?_ fun hfalse => ?_
      · rw [hdiffers]
        constructor
        · intro hnot equals' old he ho
          rw [hequals] at he
          rw [hvalue] at ho
          cases he
          cases ho
          rw [hsame]
          cases same <;> simp_all
        · intro hne
          have := hne equals current hequals hvalue
          rw [hsame] at this
          cases same <;> simp_all
      · rw [hvalue, (hc.plain n x hx).honest equals hequals current v]
        rw [hsame]
        cases same <;> simp_all
    · rename_i hnone
      refine hstore true ?_ (by simp)
      rw [hdiffers]
      exact ⟨fun _ equals old he ho => absurd ho (hnone equals old he), fun _ => rfl⟩
  · rintro e t ⟨⟨hafter, -, -⟩, hco, hblocked⟩
    have hstack := hafter.calm.stack
    refine ⟨?_, fun above safe => ?_⟩
    · change (t.setState n .dirty).Coherent t.stack
      rw [hstack]
      refine hco.setState (fun m hm hne => ?_) (fun h => absurd rfl h) (by simp) (.inr ?_)
      · exact (List.mem_cons.mp hm).resolve_left hne
      · rw [hafter.calm.borrows]
        exact hfree
    · obtain ⟨w, hw⟩ := safe.scratch
      have hsig' : s.signals n = none := by
        rw [← since.signals]
        exact hs.signals_none hx
      obtain ⟨d, hd, hnot⟩ := hblocked above hasks w ((scratch_computed hsig' hx').mp hw)
      exact hnot (safe.consults (hasks d hd))

end Refresh

theorem Kept.trans (h : Kept s net t) (hstack : t.stack = net.stack) (h' : Kept s t u) :
    Kept s net u :=
  ⟨h'.coherent, h'.since, h.later.trans h'.later,
    fun z hz => (h'.below z (hstack ▸ hz)).trans (h.below z hz)⟩

theorem wp_anyChanged_kept (hr : Refreshes layout depth V) (ha : Answers layout depth s)
    (after : EdgeTable) (hn : n ∉ ctx.map PullFrame.node) {net : Net V} {before : EdgeTable}
    (hs : net.Sound) (hf : net.Fits ctx n) (idle : n ∉ net.stack)
    (check : ∃ x, net.computed n = some x ∧ x.state = .check)
    (hd : net.dependencies n = before ++ after) (hb : ∀ e ∈ before, net.Unchanged e)
    (room : Room ctx net.nextNode) (deep : 2 * net.nextNode < depth + 1 + ctx.length)
    (hc : net.Coherent net.stack) (since : s.Since net.stack net) :
    (anyChanged (refreshing layout depth) after).wp
      (fun changed t => (Ends ctx n net t ∧ (∃ x, t.computed n = some x ∧ x.state = .check) ∧
        if changed then ∃ e ∈ t.dependencies n, t.version e.1 ≠ e.2
        else ∀ e ∈ t.dependencies n, t.Unchanged e) ∧
        Kept s net t ∧ (s.Adverse → ∀ e ∈ after.head?, s.Safe e.1))
      (fun _ t => t.Coherent t.stack ∧ (Above s net.stack n → ¬ s.Safe n)) False net := by
  induction after generalizing net before with
  | nil =>
    rw [List.append_nil] at hd
    exact ⟨⟨.refl hs hf, check, hd ▸ hb⟩, ⟨hc, since, .refl net, fun _ _ => rfl⟩, by simp⟩
  | cons e after ih =>
    obtain ⟨d, version⟩ := e
    obtain ⟨x, hx, hst⟩ := check
    have hfits : net.Fits (.verifying n before version after :: ctx) d :=
      ⟨idle, ⟨x, hx, hst⟩, hd, hb, hf⟩
    have room' : Room (.verifying n before version after :: ctx) net.nextNode :=
      room.cons (.verifying n before version after) hn (hs.known n x hx)
    have hmem : (d, version) ∈ net.dependencies n := hd ▸ by simp
    have hconsults : s.Consults n d := by
      obtain ⟨hx', hdeps, -⟩ := since.stale n x hx (by simp [hst])
      exact .verified x (d, version) hx' hst (hdeps ▸ hmem) rfl
    unfold anyChanged
    rw [Act.wp_bind]
    refine Act.wp_mono (wp_refreshNode_kept hr ha hs hfits room' (by rw [List.length_cons]; omega)
      hc since (hc.present n _ hmem)) ?_ ?_ id
    · rintro _ t ⟨⟨⟨ht, ⟨h1, h2, h3, h4, h5⟩, hcalm⟩, hset⟩, hkept, hsafe⟩
      rw [Act.wp_bind, Act.wp_get]
      have hends : Ends ctx n net t := ⟨ht, h5, hcalm⟩
      have hroom : Room ctx t.nextNode := hcalm.nextNode ▸ room
      have hdeep : 2 * t.nextNode < depth + 1 + ctx.length := by
        rw [hcalm.nextNode]
        exact deep
      have hhead : s.Adverse → ∀ e ∈ ((d, version) :: after).head?, s.Safe e.1 := by
        intro adverse e he
        cases he
        exact hsafe adverse
      by_cases hv : t.version d = version
      · rw [if_neg (fun hne => hne hv)]
        have hb' : ∀ e ∈ before ++ [(d, version)], t.Unchanged e := by
          intro e he
          rcases List.mem_append.mp he with he | he
          · exact h4 e he
          · rw [List.mem_singleton.mp he]
            exact ⟨hset, hv⟩
        refine Act.wp_mono (ih ht h5 h1 h2 (by simpa using h3) hb' hroom hdeep hkept.coherent
          hkept.since) ?_ ?_ id
        · rintro changed u ⟨⟨hu, hrest⟩, hkept', -⟩
          exact ⟨⟨hends.trans hu, hrest⟩, hkept.trans hcalm.stack hkept', hhead⟩
        · rintro e u ⟨hu, hrest⟩
          exact ⟨hu, hcalm.stack ▸ hrest⟩
      · rw [if_pos hv]
        refine ⟨⟨hends, h2, ?_⟩, hkept, hhead⟩
        exact ⟨(d, version), by rw [h3]; simp, hv⟩
    · rintro e t ⟨-, hco, hunsafe⟩
      exact ⟨hco, fun above safe => hunsafe (above.consults hconsults) (safe.consults hconsults)⟩

/-- Bringing any node up to date, from a net that reads have made of `s`. -/
theorem answers (layout : Layout) (depth : ℕ) (hc₀ : s.Coherent []) : Answers layout depth s := by
  induction depth with
  | zero =>
    intro net ctx n _ _ _ _ room deep
    have := room.length_le
    omega
  | succ depth ha =>
    intro net ctx n hs hf idle hn room deep hc since hp
    have hr := refreshes layout depth V
    unfold refreshing refresh
    rw [Act.wp_bind, Act.wp_get]
    have hkept : Kept s net net := ⟨hc, since, .refl net, fun _ _ => rfl⟩
    cases hx : net.computed n with
    | none =>
      refine ⟨hkept, fun _ => ?_⟩
      obtain ⟨x, hsig⟩ := hp.resolve_right (by simp [hx])
      refine .of_clean ((scratch_signal (since.signals ▸ hsig)).mpr rfl) fun y hy => ?_
      obtain ⟨y', hy', -⟩ := since.forth hy
      rw [hx] at hy'
      cases hy'
    | some x =>
      dsimp only
      cases hst : x.state with
      | clean => exact ⟨hkept, fun adverse => since.safe adverse n x idle hx hst⟩
      | dirty =>
        have stale : x.state ≠ .clean := by simp [hst]
        obtain ⟨hx', -⟩ := since.stale n x hx stale
        refine wp_recompute_kept hr ha hs hf idle hn room deep hc since hx stale
          ⟨x, hx', .inl hst⟩ fun _ hcheck => ?_
        rw [hst] at hcheck
        cases hcheck
      | check =>
        have stale : x.state ≠ .clean := by simp [hst]
        obtain ⟨hx', hdeps, -⟩ := since.stale n x hx stale
        dsimp only
        unfold dependenciesChanged
        rw [Act.wp_bind, Act.wp_bind, Act.wp_get]
        refine Act.wp_mono (wp_anyChanged_kept hr ha (net.dependencies n) hn hs hf idle
          ⟨x, hx, hst⟩ (List.nil_append _).symm (by simp) room deep hc since) ?_ (fun _ _ h => h) id
        rintro changed t ⟨⟨ht, ⟨y, hy, hyc⟩, hchanged⟩, hkept', hhead⟩
        have hystale : y.state ≠ .clean := by simp [hyc]
        obtain ⟨hy', hdeps', hversion⟩ := hkept'.since.stale n y hy hystale
        have hxy : x = y := by
          rw [hx'] at hy'
          exact Option.some.inj hy'
        subst hxy
        have hall : s.Adverse → ∀ e ∈ s.dependencies n, s.Safe e.1 := by
          intro adverse e he
          cases hl : s.dependencies n with
          | nil => rw [hl] at he; cases he
          | cons e₀ rest =>
            rw [hdeps, hl] at hhead
            rw [hl] at he
            have h₀ := hhead adverse e₀ rfl
            rcases List.mem_cons.mp he with rfl | he
            · exact h₀
            · exact adverse n x e₀ rest hx' hst hl h₀ e he
        have hidle : n ∉ t.stack := ht.calm.stack ▸ idle
        have hroom : Room ctx t.nextNode := ht.calm.nextNode ▸ room
        have hdeep : 2 * t.nextNode < depth + 1 + ctx.length := by
          rw [ht.calm.nextNode]
          exact deep
        cases changed with
        | true =>
          obtain ⟨e, he, hne⟩ := hchanged
          have hmoved : s.Moved n := by
            refine ⟨e, hdeps' ▸ he, ?_⟩
            by_cases hs' : s.version e.1 = e.2
            · exact .inr (hkept'.since.moved e.1 fun ht => hne (ht.trans hs'))
            · exact .inl hs'
          refine Act.wp_mono (wp_recompute_kept hr ha ht.sound ht.fits hidle hn hroom hdeep
            hkept'.coherent hkept'.since hy hystale ⟨x, hx', .inr ⟨hst, hmoved⟩⟩
            fun adverse _ => hall adverse) ?_ ?_ id
          · exact fun _ u hu => ⟨hkept'.trans ht.calm.stack hu.1, hu.2⟩
          · exact fun _ u hu => ⟨hu.1, fun above => hu.2 (ht.calm.stack ▸ above)⟩
        | false =>
          have hcurrent : ∀ e ∈ t.dependencies n, t.version e.1 = e.2 :=
            fun e he => (hchanged e he).2
          -- nothing that is recorded has been bumped since
          have hstill : ¬ s.Moved n := by
            rintro ⟨e, he, hne | hb⟩
            · have h1 := hc₀.old n e he
              have h2 := hkept'.since.version e.1
              have h3 := hcurrent e (hdeps'.symm ▸ he)
              omega
            · have h1 := hc₀.old n e he
              have h3 := hcurrent e (hdeps'.symm ▸ he)
              obtain ⟨-, z, hz, -⟩ := bumps_iff.mp hb
              obtain ⟨w, hw, -⟩ := hkept'.since.forth hz
              obtain ⟨hwc, hwi⟩ := (hchanged e (hdeps'.symm ▸ he)).1 w hw
              have h4 := hkept'.since.bumped e.1 w hb hwi hw hwc
              omega
          have hnot : ¬ s.Bumps n := by
            intro hb
            obtain ⟨-, z, hz, hzd | ⟨-, hzm⟩⟩ := bumps_iff.mp hb
            · rw [hx'] at hz
              cases hz
              rw [hst] at hzd
              cases hzd
            · exact hstill hzm
          have hco : (t.setState n .clean).Coherent t.stack :=
            hkept'.coherent.setState (fun _ hm _ => hm)
              (fun _ _ z hz => hkept'.coherent.kept n z hz (by
                rw [hy] at hz
                cases hz
                simp [hyc]) hidle)
              (fun _ => hcurrent) (.inl rfl)
          have hsound := ht.sound.verified hy (by simp [hyc])
            (fun e he => (hchanged e he).1) hidle
          have hself : (t.setState n .clean).computed n = some { x with state := .clean } :=
            (computed_setState n).trans (by rw [if_pos rfl, hy]; rfl)
          have hother : ∀ m, m ≠ n → (t.setState n .clean).computed m = t.computed m :=
            fun m hm => (computed_setState m).trans (if_neg hm)
          have hset : (t.setState n .clean).Settled n := fun z hz => by
            rw [hself] at hz
            cases hz
            exact ⟨rfl, hidle⟩
          obtain ⟨v, -, hv⟩ := hco.cached_of_settled hsound (fun _ => id) hset
            (.inr ⟨_, hself⟩)
          have hscratch : s.Scratch n v := by
            refine hkept'.since.scratch.mp (hv.code rfl fun m z hz => ?_)
            by_cases hm : m = n
            · subst hm
              rw [hself] at hz
              cases hz
              exact ⟨x, hy, rfl⟩
            · exact ⟨z, hother m hm ▸ hz, rfl⟩
          have hsafe : s.Adverse → s.Safe n := by
            refine fun adverse => .intro n v hscratch fun d hd => ?_
            cases hd with
            | verified z e _ _ he hd => exact hd ▸ hall adverse e he
            | read z _ hruns _ =>
              obtain ⟨w, hw, hwd | ⟨-, hwm⟩⟩ := hruns
              · rw [hx'] at hw
                cases hw
                rw [hst] at hwd
                cases hwd
              · exact absurd hwm hstill
          have hsince : s.Since t.stack (t.setState n .clean) :=
            (hkept'.since.weaken fun _ hm => List.mem_cons_of_mem n hm).finish hy hself ⟨rfl, rfl⟩
              rfl hother rfl (fun _ _ => rfl) (fun _ _ => rfl) hversion
              ⟨fun hb => absurd hb hnot, fun _ => rfl⟩ hsafe
          exact ⟨hkept'.trans ht.calm.stack ⟨hco, hsince, .of_eq rfl rfl, fun _ _ => rfl⟩, hsafe⟩

end Pull

end Adaptite

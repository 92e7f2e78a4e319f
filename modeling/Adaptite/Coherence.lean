import Adaptite.NetMarks
import Adaptite.Scratch

set_option autoImplicit false

namespace Adaptite

open Unwinding

namespace Net

variable {V : Type} {net t u : Net V} {layout : Layout} {n m z d : NodeId} {v : V}
  {running : List NodeId}

/-- The value that `d` had at the version that is recorded for `n`. -/
def Recorded (net : Net V) (n d : NodeId) (v : V) : Prop :=
  ∃ version, (d, version) ∈ net.dependencies n ∧ net.past d version = some v

/-- What holds while the computes of `running` have not returned. -/
structure Coherent (running : List NodeId) (net : Net V) : Prop where
  plain : ∀ n x, net.computed n = some x → x.Pure
  present : ∀ n, ∀ e ∈ net.dependencies n, net.Present e.1
  mentioned : ∀ n x, net.computed n = some x → ∀ e ∈ net.dependencies n,
    (x.compute none).Mentions e.1
  old : ∀ n, ∀ e ∈ net.dependencies n, e.2 ≤ net.version e.1
  cached : ∀ n, net.past n (net.version n) = net.cached n
  kept : ∀ n x, net.computed n = some x → x.state ≠ .dirty → n ∉ running →
    ∃ v, x.value = some v ∧ (x.compute none).Replays (net.Recorded n) v
  current : ∀ n x, net.computed n = some x → x.state = .clean →
    ∀ e ∈ net.dependencies n, net.version e.1 = e.2
  lent : ∀ n x, net.computed n = some x → 0 < net.borrows n → x.state = .clean
  seen : ∀ e ∈ net.seen, net.Scratch e.1 e.2

/-- Versions only grow, and what a version stood for does not change. -/
structure Later (net t : Net V) : Prop where
  version : ∀ n, net.version n ≤ t.version n
  past : ∀ n, ∀ k ≤ net.version n, t.past n k = net.past n k

theorem Later.refl (net : Net V) : net.Later net := ⟨fun _ => le_refl _, fun _ _ _ => rfl⟩

theorem Later.of_eq (h1 : t.version = net.version) (h2 : t.past = net.past) : net.Later t :=
  ⟨fun n => by rw [h1], fun n k _ => by rw [h2]⟩

theorem Later.trans (h : net.Later t) (h' : t.Later u) : net.Later u :=
  ⟨fun n => (h.version n).trans (h'.version n),
    fun n k hk => (h'.past n k (hk.trans (h.version n))).trans (h.past n k hk)⟩

theorem Later.bumpVersion (net : Net V) (n : NodeId) : net.Later (net.bumpVersion n) := by
  unfold Net.bumpVersion
  refine ⟨fun m => ?_, fun m k hk => ?_⟩
  · by_cases hm : m = n
    · subst hm
      dsimp only
      rw [Function.update_self]
      exact Nat.le_succ _
    · dsimp only
      rw [Function.update_of_ne hm]
  · by_cases hm : m = n
    · subst hm
      dsimp only
      rw [Function.update_self, Function.update_of_ne (by omega)]
    · dsimp only
      rw [Function.update_of_ne hm]

theorem Recorded.later (h : net.Recorded z d v) (hl : net.Later t)
    (hd : ∀ e ∈ net.dependencies z, e ∈ t.dependencies z)
    (old : ∀ e ∈ net.dependencies z, e.2 ≤ net.version e.1) : t.Recorded z d v := by
  obtain ⟨version, he, hp⟩ := h
  exact ⟨version, hd _ he, (hl.past d version (old _ he)).trans hp⟩

section Settled

/-- Where what is recorded for `z` is current, it is what the dependencies are worth. -/
theorem Coherent.recorded_cached (h : net.Coherent running) {x : NetComputed V}
    (hx : net.computed z = some x) (hc : x.state = .clean) (hd : net.Recorded z d v) :
    net.cached d = some v := by
  obtain ⟨version, he, hp⟩ := hd
  rw [← h.cached d, h.current z x hx hc _ he]
  exact hp

theorem cached_signal {s : NetSignal V} (hs : net.signals n = some s) :
    net.cached n = some s.value := by
  unfold Net.cached
  rw [hs]

theorem cached_computed {x : NetComputed V} (hs : net.signals n = none)
    (hx : net.computed n = some x) : net.cached n = x.value := by
  unfold Net.cached
  rw [hs, hx]
  rfl

theorem Sound.signals_none (h : net.Sound) {x : NetComputed V} (hx : net.computed n = some x) :
    net.signals n = none := by
  cases hs : net.signals n with
  | none => rfl
  | some s =>
    have := (h.source n s hs).2
    rw [hx] at this
    cases this

theorem Sound.leads_wellFounded (h : net.Sound) : WellFounded fun d n => net.Leads n d :=
  h.acyclic.wellFounded (Set.finite_lt_nat net.nextNode) fun a _ hab => by
    obtain ⟨⟨v, hv⟩, -⟩ := hab
    exact h.below a _ hv

/-- A settled node has its value from scratch in the cache: by induction along the
recorded dependencies, which are settled too and recorded at their versions. -/
theorem Coherent.scratch (h : net.Coherent running) (hs : net.Sound)
    (hr : ∀ z ∈ running, z ∈ net.stack) (hn : net.Settled n) (hv : net.cached n = some v) :
    net.Scratch n v := by
  induction n using hs.leads_wellFounded.induction generalizing v with
  | _ n ih =>
    cases hsig : net.signals n with
    | some s =>
      rw [cached_signal hsig, Option.some.injEq] at hv
      exact (scratch_signal hsig).mpr hv
    | none =>
      cases hx : net.computed n with
      | none =>
        unfold Net.cached at hv
        rw [hsig, hx] at hv
        cases hv
      | some x =>
        obtain ⟨hc, idle⟩ := hn x hx
        rw [cached_computed hsig hx] at hv
        obtain ⟨v', hv', hp⟩ := h.kept n x hx (by simp [hc]) fun hz => idle (hr n hz)
        rw [hv, Option.some.injEq] at hv'
        subst hv'
        refine (scratch_computed hsig hx).mpr (hp.mono fun d u hd => ?_)
        have hcached := h.recorded_cached hx hc hd
        obtain ⟨version, he, -⟩ := hd
        have hset := hs.settled n x hx hc _ he
        cases hd' : net.computed d with
        | none =>
          cases hsig' : net.signals d with
          | none =>
            unfold Net.cached at hcached
            rw [hsig', hd'] at hcached
            cases hcached
          | some s =>
            rw [cached_signal hsig', Option.some.injEq] at hcached
            exact (scratch_signal hsig').mpr hcached
        | some y =>
          have fresh : ∀ {m : NodeId} {w : NetComputed V}, net.computed m = some w →
              w.state = .clean → net.Fresh m := fun hw hc => ⟨_, hw, by simp [hc]⟩
          exact ih d ⟨⟨version, he⟩, fresh hx hc, fresh hd' (hset y hd').1⟩ hset hcached

theorem Coherent.recorded_scratch (h : net.Coherent running) (hs : net.Sound)
    (hr : ∀ z ∈ running, z ∈ net.stack) {x : NetComputed V} (hx : net.computed z = some x)
    (hc : x.state = .clean) (hd : net.Recorded z d v) : net.Scratch d v := by
  have hcached := h.recorded_cached hx hc hd
  obtain ⟨version, he, -⟩ := hd
  exact h.scratch hs hr (hs.settled z x hx hc _ he) hcached

theorem Coherent.cached_of_settled (h : net.Coherent running) (hs : net.Sound)
    (hr : ∀ z ∈ running, z ∈ net.stack) (hn : net.Settled n) (hp : net.Present n) :
    ∃ v, net.cached n = some v ∧ net.Scratch n v := by
  have hv : ∃ v, net.cached n = some v := by
    rcases hp with ⟨s, hsig⟩ | ⟨x, hx⟩
    · exact ⟨s.value, cached_signal hsig⟩
    · obtain ⟨hc, idle⟩ := hn x hx
      obtain ⟨v, hv, -⟩ := h.kept n x hx (by simp [hc]) fun hz => idle (hr n hz)
      exact ⟨v, (cached_computed (hs.signals_none hx) hx).trans hv⟩
  obtain ⟨v, hv⟩ := hv
  exact ⟨v, hv, h.scratch hs hr hn hv⟩

end Settled

theorem Scratch.code (h : net.Scratch n v) (hs : t.signals = net.signals)
    (hx : ∀ n x, net.computed n = some x →
      ∃ y, t.computed n = some y ∧ y.compute = x.compute) : t.Scratch n v :=
  h.mono (fun n s hn => ⟨s, hs ▸ hn, rfl⟩) fun n x hn hc => by
    obtain ⟨y, hy, he⟩ := hx n x hc
    exact ⟨hs ▸ hn, y, hy, congrFun he none⟩

theorem Present.code (h : net.Present n) (hs : t.signals = net.signals)
    (hx : ∀ n x, net.computed n = some x → ∃ y, t.computed n = some y) : t.Present n := by
  rcases h with ⟨s, hn⟩ | ⟨x, hn⟩
  · exact .inl ⟨s, hs ▸ hn⟩
  · exact .inr (hx n x hn)

theorem Coherent.same (h : net.Coherent running) (h1 : t.computed = net.computed)
    (h2 : t.signals = net.signals) (h3 : t.dependencies = net.dependencies)
    (h4 : t.version = net.version) (h5 : t.past = net.past)
    (h6 : ∀ n x, net.computed n = some x → 0 < t.borrows n → x.state = .clean)
    (h7 : ∀ e ∈ t.seen, net.Scratch e.1 e.2) : t.Coherent running := by
  have hscratch : ∀ n v, net.Scratch n v → t.Scratch n v := fun n v hn =>
    hn.code h2 fun m x hx => ⟨x, h1 ▸ hx, rfl⟩
  have hpresent : ∀ n, net.Present n → t.Present n := fun n hn =>
    hn.code h2 fun m x hx => ⟨x, h1 ▸ hx⟩
  have hcached : t.cached = net.cached := by
    funext n
    unfold Net.cached
    rw [h1, h2]
  have hrec : t.Recorded = net.Recorded := by
    funext n d v
    unfold Recorded
    rw [h3, h5]
  exact {
    plain := by rw [h1]; exact h.plain
    present := by rw [h3]; exact fun n e he => hpresent _ (h.present n e he)
    mentioned := by rw [h1, h3]; exact h.mentioned
    old := by rw [h3, h4]; exact h.old
    cached := by rw [h4, h5, hcached]; exact h.cached
    kept := by rw [h1, hrec]; exact h.kept
    current := by rw [h1, h3, h4]; exact h.current
    lent := by rw [h1]; exact h6
    seen := fun e he => hscratch _ _ (h7 e he) }

section Steps

theorem Coherent.borrow (h : net.Coherent running)
    (hc : ∀ x, net.computed n = some x → x.state = .clean) : (net.borrow n).Coherent running := by
  refine h.same rfl rfl rfl rfl rfl (fun m x hx hb => ?_) h.seen
  by_cases hm : m = n
  · exact hc x (hm ▸ hx)
  · unfold Net.borrow at hb
    dsimp only at hb
    rw [Function.update_of_ne hm] at hb
    exact h.lent m x hx hb

theorem Coherent.giveBack (h : net.Coherent running) (n : NodeId) :
    (net.giveBack n).Coherent running := by
  refine h.same rfl rfl rfl rfl rfl (fun m x hx hb => h.lent m x hx ?_) h.seen
  unfold Net.giveBack at hb
  dsimp only at hb
  by_cases hm : m = n
  · subst hm
    rw [Function.update_self] at hb
    omega
  · rwa [Function.update_of_ne hm] at hb

theorem Coherent.note (h : net.Coherent running) (n : NodeId) (fault : Fault V) :
    (net.note n fault).Coherent running := h.same rfl rfl rfl rfl rfl h.lent h.seen

theorem Coherent.noteSeen (h : net.Coherent running) (hv : net.Scratch n v) :
    (net.noteSeen n v).Coherent running := by
  unfold Net.noteSeen
  split
  · exact h
  · refine h.same rfl rfl rfl rfl rfl h.lent fun e he => ?_
    rcases List.mem_cons.mp he with rfl | he
    · exact hv
    · exact h.seen e he

theorem Coherent.leave (h : net.Coherent running) (untracked : ℕ) :
    (net.leave untracked).Coherent running := by
  unfold Net.leave
  split <;> exact h.same rfl rfl rfl rfl rfl h.lent h.seen

/-- Only what is recorded for `o` has changed, and `o` is running. -/
theorem Coherent.rerecord (h : net.Coherent running) {o : NodeId} (ho : o ∈ running)
    (h1 : t.computed = net.computed) (h2 : t.signals = net.signals)
    (h3 : ∀ z, z ≠ o → t.dependencies z = net.dependencies z) (h4 : t.version = net.version)
    (h5 : t.past = net.past) (h6 : t.borrows = net.borrows) (h7 : t.seen = net.seen)
    (present : ∀ e ∈ t.dependencies o, net.Present e.1 ∧
      ∀ x, net.computed o = some x → (x.compute none).Mentions e.1)
    (current : ∀ e ∈ t.dependencies o, net.version e.1 = e.2 ∨ e ∈ net.dependencies o) :
    t.Coherent running := by
  have hcached : t.cached = net.cached := by
    funext n
    unfold Net.cached
    rw [h1, h2]
  exact {
    plain := by rw [h1]; exact h.plain
    present := by
      intro z e he
      refine Present.code ?_ h2 fun m x hx => ⟨x, h1 ▸ hx⟩
      by_cases hz : z = o
      · exact (present e (hz ▸ he)).1
      · exact h.present z e (h3 z hz ▸ he)
    mentioned := by
      intro z x hx e he
      rw [h1] at hx
      by_cases hz : z = o
      · exact (present e (hz ▸ he)).2 x (hz ▸ hx)
      · exact h.mentioned z x hx e (h3 z hz ▸ he)
    old := by
      intro z e he
      rw [h4]
      by_cases hz : z = o
      · rcases current e (hz ▸ he) with hv | he
        · exact hv.ge
        · exact h.old o e he
      · exact h.old z e (h3 z hz ▸ he)
    cached := by rw [h4, h5, hcached]; exact h.cached
    kept := by
      intro n x hx hs hn
      rw [h1] at hx
      obtain ⟨v, hv, hp⟩ := h.kept n x hx hs hn
      have hz : n ≠ o := fun he => hn (he ▸ ho)
      refine ⟨v, hv, hp.mono fun d u hd => ?_⟩
      obtain ⟨version, he, hpast⟩ := hd
      exact ⟨version, h3 n hz ▸ he, h5 ▸ hpast⟩
    current := by
      intro n x hx hc e he
      rw [h1] at hx
      rw [h4]
      by_cases hz : n = o
      · rcases current e (hz ▸ he) with hv | he
        · exact hv
        · exact h.current o x (hz ▸ hx) hc e he
      · exact h.current n x hx hc e (h3 n hz ▸ he)
    lent := by rw [h1, h6]; exact h.lent
    seen := by
      rw [h7]
      exact fun e he => (h.seen e he).code h2 fun m x hx => ⟨x, h1 ▸ hx, rfl⟩ }

theorem Coherent.recordEdge (h : net.Coherent running) (hr : ∀ z ∈ net.stack, z ∈ running)
    (hm : net.Present m) (mentioned : ∀ o ∈ net.stack.head?, ∀ x, net.computed o = some x →
      (x.compute none).Mentions m) : (net.recordEdge layout m).Coherent running := by
  rcases @recordEdge_eq V net layout m with he | ⟨o, rest, hs, _, he⟩
  · rw [he]; exact h
  rw [he]
  have hmem := @mem_insertEdge V net layout o m
  refine h.rerecord (hr o (hs ▸ List.mem_cons_self)) rfl rfl
    (fun z hz => Function.update_of_ne hz _ _) rfl rfl rfl rfl (fun e he => ?_) fun e he => ?_
  · rcases (hmem e).mp he with rfl | ⟨he, -⟩
    · exact ⟨hm, mentioned o (by rw [hs]; rfl)⟩
    · exact ⟨h.present o e he, fun x hx => h.mentioned o x hx e he⟩
  · rcases (hmem e).mp he with rfl | ⟨he, -⟩
    · exact .inl rfl
    · exact .inr he

theorem Coherent.weaken (h : net.Coherent running) {running' : List NodeId}
    (hr : ∀ m ∈ running, m ∈ running') : net.Coherent running' :=
  { h with kept := fun n x hx hs hn => h.kept n x hx hs fun hm => hn (hr n hm) }

theorem Coherent.enter (h : net.Coherent running) (hn : n ∈ running) :
    (net.enter n).Coherent running := by
  have hnil : (net.enter n).dependencies n = [] := Function.update_self _ _ _
  refine h.rerecord hn rfl rfl (fun z hz => Function.update_of_ne hz _ _) rfl rfl rfl rfl
    (fun e he => ?_) fun e he => ?_
  · rw [hnil] at he; cases he
  · rw [hnil] at he; cases he

theorem cached_modifyComputed {f : NetComputed V → NetComputed V}
    (hf : ∀ x, (f x).value = x.value) : (net.modifyComputed n f).cached = net.cached := by
  funext m
  unfold Net.cached
  rw [computed_modifyComputed, show (net.modifyComputed n f).signals = net.signals from rfl]
  cases net.signals m with
  | some s => rfl
  | none =>
    dsimp only
    by_cases hm : m = n
    · rw [if_pos hm, hm]
      cases net.computed n with
      | none => rfl
      | some x => exact hf x
    · rw [if_neg hm]

theorem Coherent.setState (h : net.Coherent running) {running' : List NodeId} {state : State}
    (hr : ∀ m ∈ running, m ≠ n → m ∈ running')
    (kept : state ≠ .dirty → n ∉ running' → ∀ x, net.computed n = some x →
      ∃ v, x.value = some v ∧ (x.compute none).Replays (net.Recorded n) v)
    (current : state = .clean → ∀ e ∈ net.dependencies n, net.version e.1 = e.2)
    (lent : state = .clean ∨ net.borrows n = 0) : (net.setState n state).Coherent running' := by
  have hcached : (net.setState n state).cached = net.cached := cached_modifyComputed fun _ => rfl
  have hcomp : ∀ m y, (net.setState n state).computed m = some y → ∃ x, net.computed m = some x ∧
      ((m = n ∧ y = { x with state }) ∨ m ≠ n ∧ y = x) := by
    intro m y hy
    rw [computed_setState] at hy
    by_cases hm : m = n
    · rw [if_pos hm, Option.map_eq_some_iff] at hy
      obtain ⟨x, hx, rfl⟩ := hy
      exact ⟨x, hm ▸ hx, .inl ⟨hm, rfl⟩⟩
    · rw [if_neg hm] at hy
      exact ⟨y, hy, .inr ⟨hm, rfl⟩⟩
  have hback : ∀ m x, net.computed m = some x →
      ∃ y, (net.setState n state).computed m = some y ∧ y.compute = x.compute := by
    intro m x hx
    rw [computed_setState]
    by_cases hm : m = n
    · rw [if_pos hm, ← hm, hx]
      exact ⟨_, rfl, rfl⟩
    · rw [if_neg hm]
      exact ⟨x, hx, rfl⟩
  exact {
    plain := by
      intro m y hy
      obtain ⟨x, hx, ⟨-, rfl⟩ | ⟨-, rfl⟩⟩ := hcomp m y hy
      · exact { h.plain m x hx with }
      · exact h.plain m _ hx
    present := fun m e he => (h.present m e he).code rfl fun k x hx => by
      obtain ⟨y, hy, -⟩ := hback k x hx
      exact ⟨y, hy⟩
    mentioned := by
      intro m y hy
      obtain ⟨x, hx, ⟨-, rfl⟩ | ⟨-, rfl⟩⟩ := hcomp m y hy
      · exact h.mentioned m x hx
      · exact h.mentioned m _ hx
    old := h.old
    cached := by rw [hcached]; exact h.cached
    kept := by
      intro m y hy hs hm
      obtain ⟨x, hx, ⟨rfl, rfl⟩ | ⟨hmn, rfl⟩⟩ := hcomp m y hy
      · exact kept hs hm x hx
      · exact h.kept m _ hx hs fun hrun => hm (hr m hrun hmn)
    current := by
      intro m y hy hc
      obtain ⟨x, hx, ⟨rfl, rfl⟩ | ⟨-, rfl⟩⟩ := hcomp m y hy
      · exact current hc
      · exact h.current m _ hx hc
    lent := by
      intro m y hy hb
      obtain ⟨x, hx, ⟨rfl, rfl⟩ | ⟨-, rfl⟩⟩ := hcomp m y hy
      · rcases lent with hc | hz
        · exact hc
        · change 0 < net.borrows m at hb
          omega
      · exact h.lent m _ hx hb
    seen := fun e he => (h.seen e he).code rfl hback }

/-- The end of a run of `n`: its value is stored, and if it counts as a change its
version is bumped, on which nothing clean depends. -/
theorem Coherent.finish (h : net.Coherent (n :: running)) {x : NetComputed V}
    (hx : net.computed n = some x) (hsig : net.signals n = none)
    (hp : (x.compute none).Replays (net.Recorded n) v) (hl : net.Later t)
    (h1 : t.computed = (net.store n v).computed) (h2 : t.signals = net.signals)
    (h3 : t.dependencies = net.dependencies)
    (h4 : ∀ m, m ≠ n → t.version m = net.version m ∧ t.past m = net.past m)
    (h5 : t.past n (t.version n) = some v) (h6 : t.borrows = net.borrows)
    (h7 : t.seen = net.seen)
    (h8 : ∀ m y, net.computed m = some y → y.state = .clean → ∀ e ∈ net.dependencies m,
      t.version e.1 = net.version e.1) : t.Coherent running := by
  have hself : t.computed n = some { x with value := some v } := by
    rw [h1]
    exact (computed_modifyComputed _ n).trans (by rw [if_pos rfl, hx]; rfl)
  have hsame : ∀ m, m ≠ n → t.computed m = net.computed m := fun m hm => by
    rw [h1]
    exact (computed_modifyComputed _ m).trans (if_neg hm)
  have hcomp : ∀ m y, t.computed m = some y → ∃ x, net.computed m = some x ∧
      y.compute = x.compute ∧ y.equals = x.equals ∧ y.state = x.state ∧ (m ≠ n → y = x) := by
    intro m y hy
    by_cases hm : m = n
    · subst hm
      rw [hself] at hy
      cases hy
      exact ⟨x, hx, rfl, rfl, rfl, fun hne => absurd rfl hne⟩
    · rw [hsame m hm] at hy
      exact ⟨y, hy, rfl, rfl, rfl, fun _ => rfl⟩
  have hback : ∀ m x, net.computed m = some x →
      ∃ y, t.computed m = some y ∧ y.compute = x.compute := by
    intro m y hy
    by_cases hm : m = n
    · subst hm
      rw [hx] at hy
      cases hy
      exact ⟨_, hself, rfl⟩
    · exact ⟨y, (hsame m hm).trans hy, rfl⟩
  have hrec : ∀ m d u, net.Recorded m d u → t.Recorded m d u := fun m d u hd =>
    hd.later hl (fun e he => h3 ▸ he) (h.old m)
  exact {
    plain := by
      intro m y hy
      obtain ⟨x, hx, hc, he, -⟩ := hcomp m y hy
      have := h.plain m x hx
      exact ⟨hc ▸ this.script, hc ▸ this.fixed, he ▸ this.total, he ▸ this.honest⟩
    present := fun m e he => (h.present m e (h3 ▸ he)).code h2 fun k x hx => by
      obtain ⟨y, hy, -⟩ := hback k x hx
      exact ⟨y, hy⟩
    mentioned := by
      intro m y hy e he
      obtain ⟨x, hx, hc, -⟩ := hcomp m y hy
      rw [hc]
      exact h.mentioned m x hx e (h3 ▸ he)
    old := fun m e he => (h.old m e (h3 ▸ he)).trans (hl.version e.1)
    cached := by
      intro m
      by_cases hm : m = n
      · subst hm
        rw [h5, cached_computed (h2 ▸ hsig) hself]
      · obtain ⟨hv, hpast⟩ := h4 m hm
        rw [hv, hpast, h.cached]
        unfold Net.cached
        rw [h2, hsame m hm]
    kept := by
      intro m y hy hs hm
      by_cases hmn : m = n
      · subst hmn
        rw [hself] at hy
        cases hy
        exact ⟨v, rfl, hp.mono (hrec m)⟩
      · rw [hsame m hmn] at hy
        obtain ⟨w, hw, hpw⟩ := h.kept m y hy hs (by simp [hmn, hm])
        exact ⟨w, hw, hpw.mono (hrec m)⟩
    current := by
      intro m y hy hc e he
      obtain ⟨x, hx, -, -, hst, -⟩ := hcomp m y hy
      rw [hst] at hc
      rw [h3] at he
      rw [h8 m x hx hc e he]
      exact h.current m x hx hc e he
    lent := by
      intro m y hy hb
      obtain ⟨x, hx, -, -, hst, -⟩ := hcomp m y hy
      rw [hst]
      exact h.lent m x hx (h6 ▸ hb)
    seen := by
      rw [h7]
      exact fun e he => (h.seen e he).code h2 hback }

end Steps

section Host

theorem MoreStale.dirty {x y : NetComputed V} (h : MoreStale x y) (hy : y.state ≠ .dirty) :
    x.state ≠ .dirty := by
  intro hx
  have hr := h.2
  rw [hx] at hr
  cases hs : y.state <;> rw [hs] at hr hy <;> first | exact hy rfl | exact absurd hr (by decide)

theorem Coherent.write (h : net.Coherent []) (hs : net.Sound) (free : ∀ m, net.borrows m = 0)
    {s : NetSignal V} (hn : net.signals n = some s) (v : V) :
    ((net.setValue n v).trigger n).Coherent [] := by
  set t := (net.setValue n v).trigger n with ht
  obtain ⟨hseal, hsealed⟩ := (hs.setValue n v).sealing_trigger n
  rw [← ht] at hseal hsealed
  have hf := hseal.toMarked.frame
  have hsig : ∀ m, m ≠ n → t.signals m = net.signals m := fun m hm => by
    rw [hf]
    exact Function.update_of_ne hm _ _
  have hself : t.signals n = some { s with value := v } := by
    rw [hf]
    exact (Function.update_self _ _ _).trans (by rw [hn]; rfl)
  have hdeps : t.dependencies = net.dependencies := by rw [hf]; rfl
  have hlater : net.Later t := by
    have hl := Later.bumpVersion (net.setValue n v) n
    have hv : t.version = ((net.setValue n v).bumpVersion n).version := by rw [hf]
    have hp : t.past = ((net.setValue n v).bumpVersion n).past := by rw [hf]
    exact ⟨fun m => hv ▸ hl.version m, fun m k hk => hp ▸ hl.past m k hk⟩
  have hversion : ∀ m, m ≠ n → t.version m = net.version m ∧ t.past m = net.past m := by
    intro m hm
    rw [hf]
    exact ⟨Function.update_of_ne hm _ _, Function.update_of_ne hm _ _⟩
  have hback : ∀ m y, t.computed m = some y → ∃ x, net.computed m = some x ∧ MoreStale x y :=
    fun m y hy => rel_right (hy ▸ hseal.toMarked.computed m)
  have hforth : ∀ m x, net.computed m = some x → ∃ y, t.computed m = some y ∧ MoreStale x y :=
    fun m x hx => rel_left (hx ▸ hseal.toMarked.computed m : Option.Rel MoreStale (some x) _)
  exact {
    plain := by
      intro m y hy
      obtain ⟨x, hx, hxy⟩ := hback m y hy
      rw [hxy.1]
      exact { h.plain m x hx with }
    present := by
      intro m e he
      rcases h.present m e (hdeps ▸ he) with ⟨s', hs'⟩ | ⟨x, hx⟩
      · by_cases hm : e.1 = n
        · exact .inl ⟨_, hm ▸ hself⟩
        · exact .inl ⟨s', (hsig _ hm).trans hs'⟩
      · obtain ⟨y, hy, -⟩ := hforth _ x hx
        exact .inr ⟨y, hy⟩
    mentioned := by
      intro m y hy e he
      obtain ⟨x, hx, hxy⟩ := hback m y hy
      rw [hxy.1]
      exact h.mentioned m x hx e (hdeps ▸ he)
    old := fun m e he => (h.old m e (hdeps ▸ he)).trans (hlater.version e.1)
    cached := by
      intro m
      by_cases hm : m = n
      · subst hm
        rw [cached_signal hself, hf]
        have hcached : (net.setValue m v).cached m = some v := by
          refine cached_signal (s := { s with value := v }) ?_
          exact (Function.update_self _ _ _).trans (by rw [hn]; rfl)
        unfold Net.bumpVersion
        dsimp only
        rw [Function.update_self, Function.update_self, Function.update_self, hcached]
      · obtain ⟨hv, hp⟩ := hversion m hm
        rw [hv, hp, h.cached]
        unfold Net.cached
        rw [hsig m hm]
        cases net.signals m with
        | some s' => rfl
        | none =>
          dsimp only
          cases hx : net.computed m with
          | none =>
            have hnone := rel_none (hx ▸ hseal.toMarked.computed m : Option.Rel MoreStale none _)
            rw [hnone]
          | some x =>
            obtain ⟨y, hy, hxy⟩ := hforth m x hx
            rw [hy, hxy.1]
            rfl
    kept := by
      intro m y hy hst hm
      obtain ⟨x, hx, hxy⟩ := hback m y hy
      obtain ⟨w, hw, hp⟩ := h.kept m x hx (hxy.dirty hst) hm
      rw [hxy.1]
      refine ⟨w, hw, hp.mono fun d u hd => ?_⟩
      exact hd.later hlater (fun e he => hdeps ▸ he) (h.old m)
    current := by
      intro m y hy hc e he
      obtain ⟨x, hx, hxy⟩ := hback m y hy
      have hxc : x.state = .clean := by
        by_contra hne
        exact hxy.stale hne hc
      rw [hdeps] at he
      have hne : e.1 ≠ n := by
        intro hen
        have hm : m ∈ t.dependents n := by
          rw [hf]
          exact hen ▸ (hs.inverse m e.1).mp ⟨e.2, he⟩
        exact hsealed m hm y hy hc
      rw [(hversion _ hne).1]
      exact h.current m x hx hxc e he
    lent := by
      intro m y _ hb
      have hborrows : t.borrows = net.borrows := by rw [hf]; rfl
      rw [hborrows, free m] at hb
      exact absurd hb (lt_irrefl _)
    seen := by
      have hseen : t.seen = [] := by rw [hf]; rfl
      rw [hseen]
      simp }

theorem Coherent.past_fresh (h : net.Coherent running) (hs : net.Sound) :
    net.signals net.nextNode = none ∧ net.computed net.nextNode = none ∧
      net.past net.nextNode (net.version net.nextNode) = none := by
  have hsig : net.signals net.nextNode = none := by
    cases hsig : net.signals net.nextNode with
    | none => rfl
    | some s => exact absurd (hs.source _ s hsig).1 (lt_irrefl _)
  have hx : net.computed net.nextNode = none := by
    cases hx : net.computed net.nextNode with
    | none => rfl
    | some x => exact absurd (hs.known _ x hx) (lt_irrefl _)
  refine ⟨hsig, hx, ?_⟩
  rw [h.cached]
  unfold Net.cached
  rw [hsig, hx]
  rfl

theorem Coherent.newSignal (h : net.Coherent []) (hs : net.Sound) (v : V) (same : V → V → Bool) :
    (net.newSignal v same).Coherent [] := by
  set t := net.newSignal v same with ht
  obtain ⟨hsig, -, -⟩ := h.past_fresh hs
  have hself : t.signals net.nextNode = some ⟨v, same⟩ := Function.update_self _ _ _
  have hsame : ∀ m, m ≠ net.nextNode → t.signals m = net.signals m := fun m hm =>
    Function.update_of_ne hm _ _
  have hold : ∀ m s, net.signals m = some s → t.signals m = some s := fun m s hm => by
    rw [hsame m fun he => by rw [he, hsig] at hm; cases hm]
    exact hm
  have hpast : ∀ m, m ≠ net.nextNode → t.past m = net.past m := fun m hm =>
    Function.update_of_ne hm _ _
  have hpresent : ∀ m, net.Present m → t.Present m := by
    rintro m (⟨s, hm⟩ | hm)
    · exact .inl ⟨s, hold m s hm⟩
    · exact .inr hm
  have hscratch : ∀ n v, net.Scratch n v → t.Scratch n v := fun n v hn =>
    hn.mono (fun m s hm => ⟨s, hold m s hm, rfl⟩) fun m x hm hx =>
      ⟨(hsame m (hs.known m x hx).ne).trans hm, x, hx, rfl⟩
  exact {
    plain := h.plain
    present := fun m e he => hpresent _ (h.present m e he)
    mentioned := h.mentioned
    old := h.old
    cached := by
      intro m
      by_cases hm : m = net.nextNode
      · subst hm
        rw [cached_signal hself]
        have hnew : t.past net.nextNode = Function.update (net.past net.nextNode)
            (net.version net.nextNode) (some v) := Function.update_self _ _ _
        rw [hnew]
        exact Function.update_self _ _ _
      · rw [hpast m hm]
        refine (h.cached m).trans ?_
        unfold Net.cached
        rw [hsame m hm]
        rfl
    kept := by
      intro m x hx hst hm
      obtain ⟨w, hw, hp⟩ := h.kept m x hx hst hm
      refine ⟨w, hw, hp.mono fun d u hd => ?_⟩
      obtain ⟨version, he, hd⟩ := hd
      exact ⟨version, he, by rw [hpast d (hs.below m _ he).2.ne]; exact hd⟩
    current := h.current
    lent := h.lent
    seen := fun e he => hscratch _ _ (h.seen e he) }

theorem Coherent.newComputed (h : net.Coherent []) (hs : net.Sound)
    {compute : Option V → Script V} {equals : Option (Equals V)}
    (hp : ∀ x : NetComputed V, x.compute = compute → x.equals = equals → x.Pure)
    (free : net.borrows net.nextNode = 0) : (net.newComputed compute equals).Coherent [] := by
  set t := net.newComputed compute equals with ht
  obtain ⟨hsig, hnone, hpast⟩ := h.past_fresh hs
  have hself : t.computed net.nextNode = some { compute, equals } := Function.update_self _ _ _
  have hsame : ∀ m, m ≠ net.nextNode → t.computed m = net.computed m := fun m hm =>
    Function.update_of_ne hm _ _
  have hold : ∀ m x, net.computed m = some x → t.computed m = some x := fun m x hx => by
    rw [hsame m (hs.known m x hx).ne]
    exact hx
  have hdeps : net.dependencies net.nextNode = [] := by
    refine List.eq_nil_iff_forall_not_mem.mpr fun e he => ?_
    exact absurd (hs.below _ e he).1 (lt_irrefl _)
  exact {
    plain := by
      intro m x hx
      by_cases hm : m = net.nextNode
      · rw [hm, hself] at hx
        cases hx
        exact hp _ rfl rfl
      · exact h.plain m x (hsame m hm ▸ hx)
    present := fun m e he => (h.present m e he).code rfl fun k x hx => ⟨x, hold k x hx⟩
    mentioned := by
      intro m x hx e he
      by_cases hm : m = net.nextNode
      · rw [hm] at he
        change e ∈ net.dependencies net.nextNode at he
        rw [hdeps] at he
        cases he
      · exact h.mentioned m x (hsame m hm ▸ hx) e he
    old := h.old
    cached := by
      intro m
      refine (h.cached m).trans ?_
      unfold Net.cached
      rw [show t.signals = net.signals from rfl]
      cases net.signals m with
      | some s => rfl
      | none =>
        dsimp only
        by_cases hm : m = net.nextNode
        · rw [hm, hself, hnone]
          rfl
        · rw [hsame m hm]
    kept := by
      intro m x hx hst hm
      by_cases hmn : m = net.nextNode
      · rw [hmn, hself] at hx
        cases hx
        exact absurd rfl hst
      · exact h.kept m x (hsame m hmn ▸ hx) hst hm
    current := by
      intro m x hx hc e he
      by_cases hmn : m = net.nextNode
      · rw [hmn] at he
        change e ∈ net.dependencies net.nextNode at he
        rw [hdeps] at he
        cases he
      · exact h.current m x (hsame m hmn ▸ hx) hc e he
    lent := by
      intro m x hx hb
      by_cases hmn : m = net.nextNode
      · rw [hmn] at hb
        exact absurd hb (by rw [show t.borrows net.nextNode = 0 from free]; exact lt_irrefl _)
      · exact h.lent m x (hsame m hmn ▸ hx) hb
    seen := fun e he => (h.seen e he).code rfl fun m x hx => ⟨x, hold m x hx, rfl⟩ }

theorem coherent_empty : ({} : Net V).Coherent [] where
  plain := by simp
  present := by simp
  mentioned := by simp
  old := by simp
  cached _ := rfl
  kept := by simp
  current := by simp
  lent := by simp
  seen := by simp

end Host

end Net

end Adaptite

import Adaptite.Nesting

set_option autoImplicit false

namespace Adaptite

open NetFrame

namespace Net

variable {V : Type} {net : Net V} {n : NodeId} {e : NodeId × ℕ} {x : NetComputed V}

theorem Current.setState (h : net.Current e) (state : State) (hn : state = .clean ∨ e.1 ≠ n) :
    (net.setState n state).Current e := by
  refine ⟨h.1, fun z hz => ?_⟩
  rw [computed_setState] at hz
  split at hz
  · rename_i he
    obtain ⟨w, hw, rfl⟩ := Option.map_eq_some_iff.mp hz
    exact ⟨hn.resolve_right fun hne => hne he, (h.2 w (he ▸ hw)).2⟩
  · exact h.2 z hz

theorem Current.enter (h : net.Current e) (hn : e.1 ≠ n ∨ net.computed n = none) :
    (net.enter n).Current e := by
  refine ⟨h.1, fun z hz => ⟨(h.2 z hz).1, fun hin => ?_⟩⟩
  rcases List.mem_cons.mp hin with he | hin
  · rcases hn with hn | hn
    · exact hn he
    · rw [← he] at hn
      cases hn.symm.trans hz
  · exact (h.2 z hz).2 hin

theorem Current.leave (h : net.Current e) (untracked : ℕ) : (net.leave untracked).Current e :=
  ⟨by rw [(leave_eq net untracked).2.2.1]; exact h.1, h.2.leave untracked⟩

theorem Current.accept (h : net.Current e) (hn : e.1 ≠ n) (v : V) (changed : Bool) :
    (net.accept n v changed).Current e := by
  have hs : (net.store n v).Current e := by
    refine ⟨h.1, fun z hz => ?_⟩
    obtain ⟨w, hw, hwz⟩ := state_store hz
    exact ⟨hwz ▸ (h.2 w hw).1, (h.2 w hw).2⟩
  unfold Net.accept
  split
  · exact ⟨(Function.update_of_ne hn _ _).trans hs.1, hs.2⟩
  · exact hs

theorem Current.ne (h : net.Current e) (hx : net.computed n = some x)
    (hn : x.state ≠ .clean ∨ n ∈ net.stack) : e.1 ≠ n := by
  rintro rfl
  obtain ⟨hc, hi⟩ := h.2 x hx
  rcases hn with hn | hn
  · exact hn hc
  · exact hi hn

end Net

namespace NetHost

variable {V : Type} {layout : Layout} {s t : NetHost V} {n e d : NodeId} {rest : List NetFrame}
  {f g : NetFrame} {x : NetComputed V}

def disturbs (s : NetHost V) (op : NetStep V) : Bool :=
  op.isWrite && s.frames.any isComputing

structure Ordered (s : NetHost V) : Prop where
  wired : s.Wired
  exact : s.net.Exact
  lane : Lane s.net
  nested : Nested s.net s.frames

/-- A refresh that has returned has left its node up to date. -/
structure Undisturbed (s : NetHost V) : Prop extends Ordered s where
  returned : s.unwinding = false → ∀ f ∈ s.frames.head?, ∀ d, f.asks = some d → s.net.Settled d

theorem Wired.computing_mem (h : s.Wired) {untracked : ℕ} (hm : computing n untracked ∈ s.frames) :
    n ∈ s.net.stack := by
  rw [h.stack]
  exact List.mem_filterMap.mpr ⟨_, hm, rfl⟩

theorem Wired.computed_mem (h : s.Wired) (hx : s.net.computed n = some x) (hn : n ∈ s.net.stack) :
    ∃ untracked, computing n untracked ∈ s.frames := by
  rw [h.stack] at hn
  obtain ⟨f, hf, hc⟩ := List.mem_filterMap.mp hn
  cases f with
  | computing m u =>
    cases hc
    exact ⟨u, hf⟩
  | running m u =>
    cases hc
    have := (h.fits _ hf).2
    rw [hx] at this
    cases this
  | _ => cases hc

theorem Ordered.idle (h : s.Ordered) (hx : s.net.computed n = some x)
    (hn : x.state ≠ .clean) : n ∉ s.net.stack := by
  intro hin
  obtain ⟨u, hu⟩ := h.wired.computed_mem hx hin
  obtain ⟨y, hy, hc⟩ := Net.isClean_iff.mp (h.nested.clean n u hu)
  cases hx.symm.trans hy
  exact hn hc

theorem Ordered.verified_idle (h : s.Ordered) (hf : f ∈ s.frames)
    (hn : f.verifies n = true) : n ∉ s.net.stack := by
  cases hx : s.net.computed n with
  | some x =>
    refine h.idle hx ?_
    rw [h.nested.check f hf n hn x hx]
    exact State.noConfusion
  | none =>
    intro hin
    rw [h.wired.stack] at hin
    obtain ⟨g, hg, hc⟩ := List.mem_filterMap.mp hin
    have hwin := (h.nested.still f hf n hn hx).2
    rw [List.any_eq_false] at hwin
    cases g with
    | computing m u =>
      cases hc
      have hsome : (s.net.computed n).isSome = true := h.wired.fits _ hg
      rw [hx] at hsome
      cases hsome
    | running m u =>
      cases hc
      exact hwin _ hg (decide_eq_true rfl)
    | _ => cases hc

section Recompute

theorem effects_beginCompute (net : Net V) (n : NodeId) (x : NetComputed V) :
    (net.beginCompute n x).effects = net.effects := by
  unfold Net.beginCompute Net.occupy
  split <;> rfl

theorem computed_beginCompute {net : Net V} {m : NodeId} (hm : m ≠ n) (x : NetComputed V) :
    (net.beginCompute n x).computed m = net.computed m := by
  have hc : (net.beginCompute n x).computed = (net.setState n .clean).computed :=
    (Net.alike_occupy (net.setState n .clean) n x).computed
  rw [hc, Net.computed_setState, if_neg hm]

theorem dependencies_beginCompute {net : Net V} {m : NodeId} (hm : m ≠ n) (x : NetComputed V) :
    (net.beginCompute n x).dependencies m = net.dependencies m :=
  (Function.update_of_ne hm _ _).trans
    (congrFun (Net.alike_occupy (net.setState n .clean) n x).dependencies m)

theorem Ordered.recompute (h : s.Ordered) (hx : s.net.computed n = some x)
    (hs : x.state ≠ .clean) (hfree : ∀ g ∈ s.frames, g.verifies n = false)
    (hsits : ∀ g ∈ s.frames.head?, Sits s.net (.computing n 0) g) :
    (s.recompute n).Undisturbed := by
  have hidle := h.idle hx hs
  have hlonely := h.exact.lonely hx (.inl hs)
  have hw := h.wired.recompute n
  have hexact := exact_recompute h.exact hlonely
  have hlane := (serene_recompute s n).lane h.lane
  have hact : n ∉ s.net.activeComputations := h.wired.net.running ▸ hidle
  have heq : s.recompute n =
      s.begin n (s.net.beginCompute n x) (.computing n s.net.untracked) := by
    unfold NetHost.recompute
    rw [hx]
    exact if_neg hact
  rw [heq] at hw hexact hlane ⊢
  have hclean : (s.net.beginCompute n x).isClean n = true := by
    have hc : (s.net.beginCompute n x).computed = (s.net.setState n .clean).computed :=
      (Net.alike_occupy (s.net.setState n .clean) n x).computed
    rw [isClean_congr hc]
    refine Net.isClean_iff.mpr ⟨{ x with state := .clean }, ?_, rfl⟩
    rw [Net.computed_setState, if_pos rfl, hx]
    rfl
  have hk : Keeps s.net (s.net.beginCompute n x) :=
    ((Net.keeps_setState s.net n .clean).trans
      (Net.alike_occupy (s.net.setState n .clean) n x).keeps).trans (Net.keeps_enter _ n)
  have hnested : Nested (s.net.beginCompute n x) s.frames := by
    refine h.nested.carry h.wired.net hk (fun m u hm => ?_) (fun f hf m hm => ?_)
      fun m e _ he => ?_
    · by_cases hmn : m = n
      · rw [hmn]; exact hclean
      · unfold Net.isClean
        rw [computed_beginCompute hmn]
        exact h.nested.clean m u hm
    · have hmn : m ≠ n := by
        rintro rfl
        rw [hfree f hf] at hm
        cases hm
      exact ⟨dependencies_beginCompute hmn x, computed_beginCompute hmn x,
        congrFun (effects_beginCompute s.net n x) m⟩
    · have hne : e.1 ≠ n := he.ne hx (.inl hs)
      have ho := Net.alike_occupy (s.net.setState n .clean) n x
      exact ((ho.current e).mpr (he.setState .clean (.inl rfl))).enter (.inl hne)
  exact {
    wired := hw
    exact := hexact
    lane := hlane
    nested := hnested.compute (fun g hg => (hsits g hg).keep h.wired.net hk) hclean _
    returned := fun _ f hf d hd => by cases hf; cases hd }

end Recompute

theorem Ordered.push (h : s.Ordered) (hc : f.context = none) (hp : f.isPlain = true)
    (hfits : f.Fits s.net) (hs : ∀ g ∈ s.frames.head?, Sits s.net f g) : (s.push f).Ordered where
  wired := h.wired.frame rfl rfl hc hfits
  exact := h.exact
  lane := h.lane
  nested := by
    refine h.nested.push hs ?_ (fun n => ?_) fun e he => ?_
    · cases f <;> first | rfl | cases hc
    · cases f <;> first | rfl | cases hp
    · rw [NetFrame.not_isPlain (.inr (.inr he))] at hp
      cases hp

/-- The node that the innermost frame asks for is brought up to date. -/
theorem Ordered.refresh (h : s.Ordered) (hg : s.frames = g :: rest) (ha : g.asks = some n)
    (hidle : n ∉ s.net.stack) : (s.refresh n).Undisturbed := by
  have hsits : ∀ f : NetFrame, f.refreshes n = true → (s.net.computed n).isSome = true →
      ∀ g ∈ s.frames.head?, Sits s.net f g := by
    intro f hf hsome g' hg'
    rw [hg] at hg'
    cases hg'
    exact .inr ⟨n, ha, hf, hsome⟩
  have hreturned : s.net.Settled n → s.Undisturbed := fun hset =>
    { h with
      returned := fun _ f hf d hd => by
        rw [hg] at hf
        cases hf
        cases ha.symm.trans hd
        exact hset }
  unfold NetHost.refresh
  cases hx : s.net.computed n with
  | none => exact hreturned fun x hx' => by rw [hx] at hx'; cases hx'
  | some x =>
    have hsome : (s.net.computed n).isSome = true := by rw [hx]; rfl
    dsimp only
    cases hs : x.state with
    | clean =>
      refine hreturned fun y hy => ?_
      cases hx.symm.trans hy
      exact ⟨hs, hidle⟩
    | check =>
      exact {
        wired := h.wired.frame rfl rfl rfl (h.wired.net.known n x hx)
        exact := h.exact
        lane := h.lane
        nested := h.nested.verify (hsits _ (decide_eq_true rfl) hsome)
          (fun y hy => by cases hx.symm.trans hy; exact hs)
          (fun hn => by rw [hx] at hn; cases hn)
        returned := fun _ f hf d hd => by cases hf; cases hd }
    | dirty =>
      refine h.recompute hx (by rw [hs]; exact State.noConfusion) (fun f hf => ?_)
        (hsits _ (decide_eq_true rfl) hsome)
      refine Bool.eq_false_iff.mpr fun hn => ?_
      have := h.nested.check f hf n hn x hx
      rw [hs] at this
      cases this

theorem Undisturbed.raise (h : s.Undisturbed) : s.raise.Undisturbed :=
  { wired := h.wired.raise
    exact := h.exact
    lane := h.lane
    nested := h.nested
    returned := fun hu => by cases hu }

theorem open_of_code (hc : s.inCode = true) : ∀ g ∈ s.frames.head?, g.isOpen = true := by
  intro g hg
  unfold NetHost.inCode at hc
  cases hs : s.frames with
  | nil => rw [hs] at hg; cases hg
  | cons g' rest =>
    rw [hs] at hg hc
    cases hg
    cases g <;> first | rfl | exact absurd hc Bool.false_ne_true

theorem Undisturbed.read (h : s.Undisturbed) (hc : s.inCode = true) (n : NodeId) (tracked : Bool) :
    (s.read n tracked).Undisturbed := by
  have hsits : ∀ g ∈ s.frames.head?, Sits s.net (.reading n tracked) g := fun g hg =>
    .inl (open_of_code hc g hg)
  unfold NetHost.read
  split
  · rename_i y hy
    obtain ⟨hbelow, hnone⟩ := h.wired.net.source n y hy
    have hp : (s.push (.reading n tracked)).Ordered := h.push rfl rfl hbelow hsits
    refine { hp with returned := fun _ f hf d hd => ?_ }
    cases hf
    cases hd
    intro x hx
    cases hnone.symm.trans hx
  · rename_i x _ hx
    split
    · exact h.raise
    · rename_i hcycle
      have hp : (s.push (.reading n tracked)).Ordered :=
        h.push rfl rfl (h.wired.net.known n x hx) hsits
      exact hp.refresh rfl rfl (h.wired.net.idle (Bool.eq_false_iff.mpr hcycle))
  · exact h.raise

theorem Ordered.pop (h : s.Ordered) (hs : s.frames = f :: rest) (hc : f.context = none) :
    Ordered { s with frames := rest } where
  wired := h.wired.pop hs hc
  exact := h.exact
  lane := h.lane
  nested := by
    have hn := h.nested
    rw [hs] at hn
    exact hn.tail

theorem Ordered.alike (h : s.Ordered) (ha : s.net.Alike t.net) (hf : t.frames = s.frames)
    (hl : Lane t.net)
    (he : ∀ f ∈ s.frames, ∀ n, f.verifies n = true → t.net.effects n = s.net.effects n) :
    t.Ordered where
  wired := h.wired.alike ha hf
  exact := h.exact.alike ha
  lane := hl
  nested := hf ▸ h.nested.same h.wired.net ha he

/-- The frame that is left has been called by one that is open. -/
theorem Ordered.below (h : s.Ordered) (hs : s.frames = f :: rest)
    (hf : ∀ d, (s.net.computed d).isSome = true → f.refreshes d = false) :
    ∀ g ∈ rest.head?, g.isOpen = true := by
  intro g hg
  have hc := h.nested.chain
  rw [hs] at hc
  exact ((List.isChain_cons.mp hc).1 g hg).opened hf

theorem Ordered.rested (h : s.Ordered) (hf : ∀ g ∈ s.frames.head?, g.isOpen = true) :
    s.Undisturbed :=
  { h with
    returned := fun _ f hm d hd => by
      rw [asks_of_open (hf f hm)] at hd
      cases hd }

theorem Ordered.raised (h : s.Ordered) (hu : s.unwinding = true) : s.Undisturbed :=
  { h with returned := fun hn => by rw [hu] at hn; cases hn }

section Lend

theorem nested_recordEdge (h : s.Ordered) (n : NodeId) :
    Nested (s.net.recordEdge layout n) s.frames := by
  obtain ⟨h1, h2, h3, -, h5, -⟩ := Net.recordEdge_same s.net layout n
  refine h.nested.carry h.wired.net (Net.keeps_recordEdge s.net layout n) (fun m u hm => ?_)
    (fun f hf m hm => ⟨?_, by rw [h1], by rw [h5]⟩) fun _ e _ he => ?_
  · rw [isClean_congr h1]
    exact h.nested.clean m u hm
  · -- the reader is running, so it is not verified
    rcases @Net.recordEdge_eq V s.net layout n with hr | ⟨o, stack, hs, -, hr⟩
    · rw [hr]
    · rw [hr]
      refine Function.update_of_ne ?_ _ _
      rintro rfl
      exact h.verified_idle hf hm (by rw [hs]; exact List.mem_cons_self)
  · refine ⟨by rw [h2]; exact he.1, fun x hx => ?_⟩
    rw [h1] at hx
    rw [h3]
    exact he.2 x hx

theorem Ordered.lend (h : s.Ordered) (below : n < s.net.nextNode) (hset : s.net.Settled n)
    (hopen : ∀ g ∈ s.frames.head?, g.isOpen = true) (tracked : Bool) :
    (s.lend layout n tracked).Undisturbed := by
  have hw : (s.lend layout n tracked).Wired := h.wired.lend below tracked
  have hexact : (s.lend layout n tracked).net.Exact := by
    refine exact_lend h.wired h.exact fun _ _ _ => ?_
    refine Bool.eq_false_iff.mpr fun hst => ?_
    obtain ⟨x, hx, hs⟩ := isStale_iff.mp hst
    exact hs (hset x hx).1
  have hlane : Lane (s.lend layout n tracked).net := (serene_lend s n tracked).lane h.lane
  have hrec : Nested (if tracked = true then s.net.recordEdge layout n else s.net) s.frames := by
    split
    · exact nested_recordEdge h n
    · exact h.nested
  unfold NetHost.lend at hw hexact hlane ⊢
  split
  · exact Ordered.raised ⟨h.wired.raise, h.exact, h.lane, h.nested⟩ rfl
  · rename_i hcycle
    rw [if_neg hcycle] at hw hexact hlane
    dsimp only at hw hexact hlane ⊢
    cases hv : s.net.cached n with
    | none =>
      rw [hv] at hw hexact hlane
      exact Ordered.raised ⟨hw, hexact, hlane, hrec⟩ rfl
    | some v =>
      rw [hv] at hw hexact hlane
      have hframes : (if tracked = true then s.noteSaw n v else s).frames = s.frames := by
        split
        · exact (noteSaw_same s n v).2.1
        · rfl
      have hwnet : (if tracked = true then s.net.recordEdge layout n else s.net).Wired := by
        split
        · exact h.wired.net.recordEdge below
        · exact h.wired.net
      have hborrow := hrec.same hwnet (Net.alike_borrow _ n) fun _ _ _ _ => rfl
      have hnested : Nested ((if tracked = true then s.net.recordEdge layout n else s.net).borrow n)
          (.holding n :: (if tracked = true then s.noteSaw n v else s).frames) := by
        rw [hframes]
        exact hborrow.push (fun g hg => .inl (hopen g hg)) rfl (fun _ => rfl) fun _ he => by cases he
      exact Ordered.rested ⟨hw, hexact, hlane, hnested⟩ fun g hg => by cases hg; rfl

end Lend

section Write

theorem Ordered.nothing_open (h : s.Ordered) (hc : s.inCode = true)
    (hn : s.frames.any isComputing = false) : ∀ f ∈ s.frames, f.isOpen = true := by
  refine all_open h.nested.chain (open_of_code hc) fun f hf => ?_
  exact Bool.eq_false_iff.mpr (List.any_eq_false.mp hn f hf)

theorem Undisturbed.write (h : s.Undisturbed) (hc : s.inCode = true)
    (hn : s.frames.any isComputing = false) (n : NodeId) (v : V) : (s.write n v).Undisturbed := by
  have hopen := h.nothing_open hc hn
  have ha := Net.alike_setValue s.net n v
  have hw := h.wired.net.alike ha
  have hk : Keeps s.net (s.write n v).net := ha.keeps.trans (Net.keeps_trigger hw n)
  have hnone : ∀ f ∈ s.frames, ∀ m, f.verifies m = true → False := fun f hf m hm => by
    rw [not_verifies_of_open (hopen f hf)] at hm
    cases hm
  have hordered : (s.write n v).Ordered :=
    { wired := h.wired.write n v
      exact := exact_write h.wired h.exact n v
      lane := (serene_write h.wired n v).lane h.lane
      nested :=
        { chain := h.nested.chain.imp fun _ _ hs => hs.keep h.wired.net hk
          clean := fun m u hm => by
            have := List.any_eq_false.mp hn _ hm
            exact absurd rfl this
          check := fun f hf m hm => (hnone f hf m hm).elim
          still := fun f hf m hm => (hnone f hf m hm).elim
          passed := fun f hf m hm => (hnone f hf m hm).elim
          apart := h.nested.apart.imp_of_mem fun hf _ _ m hm _ => (hnone _ hf m hm).elim } }
  exact hordered.rested fun g hg => hopen g (List.mem_of_mem_head? hg)

theorem Undisturbed.overwrite (h : s.Undisturbed) (hc : s.inCode = true)
    (hn : s.frames.any isComputing = false) (n : NodeId) (f : V → V) :
    (s.overwrite n f).Undisturbed := by
  unfold NetHost.overwrite
  split
  · exact h.raise
  · split
    · exact h.raise
    · exact h.write hc hn n _

theorem Undisturbed.set (h : s.Undisturbed) (hc : s.inCode = true)
    (hn : s.frames.any isComputing = false) (n : NodeId) (v : V) : (s.set n v).Undisturbed := by
  unfold NetHost.set
  split
  · exact h.raise
  · split
    · exact h
    · exact h.overwrite hc hn n _

end Write

section Conclude

theorem Ordered.alone (h : s.Ordered) {untracked : ℕ}
    (hs : s.frames = .computing n untracked :: rest) : n ∉ rest.filterMap context := by
  have hnd := h.wired.net.nodup
  rw [h.wired.head hs rfl] at hnd
  exact (List.nodup_cons.mp hnd).1

theorem Ordered.nested_left (h : s.Ordered) {untracked : ℕ} {net : Net V}
    (hs : s.frames = .computing n untracked :: rest) (hk : Keeps s.net net)
    (hc : ∀ m, m ≠ n → net.computed m = s.net.computed m)
    (hd : net.dependencies = s.net.dependencies) (he : net.effects = s.net.effects)
    (hcurrent : ∀ e, s.net.Current e → net.Current e) : Nested net rest := by
  have hn := h.nested
  rw [hs] at hn
  refine hn.tail.carry h.wired.net hk (fun m u hm => ?_) (fun f hf m hm => ?_)
    fun _ e _ => hcurrent e
  · have hmn : m ≠ n := by
      rintro rfl
      exact h.alone hs (List.mem_filterMap.mpr ⟨_, hm, rfl⟩)
    unfold Net.isClean
    rw [hc m hmn]
    exact hn.tail.clean m u hm
  · have hmn : m ≠ n := by
      rintro rfl
      have hf : f ∈ s.frames := by rw [hs]; exact List.mem_cons_of_mem _ hf
      exact h.verified_idle hf hm (h.wired.computing_mem (by rw [hs]; exact List.mem_cons_self))
    exact ⟨by rw [hd], hc m hmn, by rw [he]⟩

theorem Ordered.endCompute (h : s.Ordered) {untracked : ℕ}
    (hs : s.frames = .computing n untracked :: rest) (hx : s.net.computed n = some x) :
    Ordered { s with net := s.net.endCompute n x untracked, frames := rest } ∧
      (s.net.endCompute n x untracked).Settled n ∧
      (s.net.endCompute n x untracked).computed = s.net.computed ∧
      ∀ e, s.net.Current e → (s.net.endCompute n x untracked).Current e := by
  obtain ⟨h1, h2, h3⟩ := Wired.endCompute h.wired.net n x untracked
  obtain ⟨hc, hd, -⟩ := Net.leave_eq s.net untracked
  have ha := Net.alike_vacate (s.net.leave untracked) n x
  have hlane := sameLane_endCompute s.net n x untracked
  have hcurrent : ∀ e, s.net.Current e → (s.net.endCompute n x untracked).Current e := fun e he =>
    (ha.current e).mpr (he.leave untracked)
  refine ⟨?_, ?_, ha.computed.trans hc, hcurrent⟩
  · exact {
      wired := h.wired.exit hs rfl h1 h2 h3 rfl
      exact := (exact_endCompute h.wired h.exact hs hx).1
      lane := h.lane.same hlane
      nested := h.nested_left hs h2 (fun m _ => congrFun (ha.computed.trans hc) m)
        (ha.dependencies.trans hd) hlane.1 hcurrent }
  · intro y hy
    have hy := (congrFun (ha.computed.trans hc) n).symm.trans hy
    obtain ⟨z, hz, hzc⟩ := Net.isClean_iff.mp
      (h.nested.clean n untracked (by rw [hs]; exact List.mem_cons_self))
    cases hy.symm.trans hz
    refine ⟨hzc, ?_⟩
    rw [h3, h.wired.head hs rfl]
    exact h.alone hs

/-- Where the value of a compute is stored, the node is up to date. -/
theorem Ordered.conclude (h : s.Ordered) {untracked : ℕ}
    (hs : s.frames = .computing n untracked :: rest) (hx : s.net.computed n = some x) (v : V) :
    (s.conclude rest n x untracked v).Undisturbed := by
  obtain ⟨ho, hset, hcomp, hcurrent⟩ := h.endCompute hs hx
  have hw := h.wired.conclude hs x v
  have hexact := exact_conclude h.wired h.exact hs hx v
  have hlane := (serene_conclude hs x v).lane h.lane
  unfold NetHost.conclude at hw hexact hlane ⊢
  dsimp only at hw hexact hlane ⊢
  cases hdiff : x.differs v with
  | error w => exact Ordered.raised ⟨ho.wired.raise, ho.exact, ho.lane, ho.nested⟩ rfl
  | ok changed =>
    rw [hdiff] at hw hexact hlane
    dsimp only at hw hexact hlane ⊢
    split
    · exact Ordered.raised ⟨ho.wired.raise, ho.exact, ho.lane, ho.nested⟩ rfl
    · rename_i hb
      rw [if_neg hb] at hw hexact hlane
      have hin : n ∈ s.net.stack := h.wired.computing_mem (by rw [hs]; exact List.mem_cons_self)
      have hk : Keeps s.net ((s.net.endCompute n x untracked).accept n v changed) :=
        (Wired.endCompute h.wired.net n x untracked).2.1.trans (Net.keeps_accept _ n v changed)
      have hother : ∀ m, m ≠ n → ((s.net.endCompute n x untracked).accept n v changed).computed m =
          s.net.computed m := by
        intro m hm
        have hstore : ((s.net.endCompute n x untracked).accept n v changed).computed m =
            (s.net.endCompute n x untracked).computed m := by
          unfold Net.accept
          split <;> exact Function.update_of_ne hm _ _
        rw [hstore, hcomp]
      have hdeps : ((s.net.endCompute n x untracked).accept n v changed).dependencies =
          s.net.dependencies := by
        have hd := (Net.alike_vacate (s.net.leave untracked) n x).dependencies.trans
          (Net.leave_eq s.net untracked).2.1
        unfold Net.accept
        split <;> exact hd
      have heff : ((s.net.endCompute n x untracked).accept n v changed).effects =
          s.net.effects :=
        (sameLane_accept _ n v changed).1.trans (sameLane_endCompute s.net n x untracked).1
      have hnested : Nested ((s.net.endCompute n x untracked).accept n v changed) rest :=
        h.nested_left hs hk hother hdeps heff fun e he =>
          (hcurrent e he).accept (he.ne hx (.inr hin)) v changed
      refine { wired := hw, exact := hexact, lane := hlane, nested := hnested, returned := ?_ }
      -- whoever waits for this node finds it up to date
      intro _ f hf d hd y hy
      have hchain := h.nested.chain
      rw [hs] at hchain
      rcases (List.isChain_cons.mp hchain).1 f hf with hopen | ⟨d', hd', hr, -⟩
      · rw [asks_of_open hopen] at hd
        cases hd
      · cases hd'.symm.trans hd
        cases of_decide_eq_true hr
        have hstack : ((s.net.endCompute n x untracked).accept n v changed).stack =
            (s.net.endCompute n x untracked).stack := accept_stack _ n v changed
        have hstore : ((s.net.endCompute n x untracked).accept n v changed).computed =
            ((s.net.endCompute n x untracked).store n v).computed := by
          unfold Net.accept
          split <;> rfl
        have hy : ((s.net.endCompute n x untracked).accept n v changed).computed n = some y := hy
        rw [hstore] at hy
        obtain ⟨z, hz, hzy⟩ := Net.state_store hy
        obtain ⟨hc1, hc2⟩ := hset z hz
        refine ⟨hzy ▸ hc1, ?_⟩
        change n ∉ ((s.net.endCompute n x untracked).accept n v changed).stack
        rw [hstack]
        exact hc2

end Conclude

section Bodies

theorem effects_modifyEffect {net : Net V} {m : NodeId} (hm : m ≠ e)
    (k : NetEffect V → NetEffect V) : (net.modifyEffect e k).effects m = net.effects m :=
  Function.update_of_ne hm _ _

theorem any_of_top {p : NetFrame → Bool} (hs : s.frames = f :: rest) (hf : p f = true) :
    s.frames.any p = true := by
  rw [hs, List.any_cons, hf, Bool.true_or]

theorem Ordered.not_verified_of_window (h : s.Ordered) (hc : s.net.computed e = none)
    (hw : s.frames.any (isWindow e) = true) : ∀ f ∈ s.frames, f.verifies e = false := by
  intro f hf
  refine Bool.eq_false_iff.mpr fun hv => ?_
  rw [(h.nested.still f hf e hv hc).2] at hw
  cases hw

theorem Ordered.attempt (h : s.Ordered) (below : e < s.net.nextNode)
    (hc : s.net.computed e = none) (hfree : ∀ f ∈ s.frames, f.verifies e = false)
    (hopen : ∀ g ∈ s.frames.head?, g.isOpen = true) : (s.attempt e).Undisturbed := by
  have hw := h.wired.attempt below hc
  have hexact := exact_attempt h.exact e
  have hlane := (serene_attempt s e).lane h.lane
  have hsame : Nested (s.net.countRun e) s.frames :=
    h.nested.same h.wired.net (Net.alike_countRun s.net e) fun f hf m hm => by
      refine effects_modifyEffect ?_ _
      rintro rfl
      rw [hfree f hf] at hm
      cases hm
  unfold NetHost.attempt at hw hexact hlane ⊢
  dsimp only at hw hexact hlane ⊢
  split
  · rename_i hlimit
    rw [if_pos hlimit] at hw hexact hlane
    exact Ordered.raised ⟨hw, hexact, hlane, hsame⟩ rfl
  · rename_i hlimit
    rw [if_neg hlimit] at hw hexact hlane
    have hnested : Nested (s.net.countRun e) (.resetting e :: s.frames) := by
      refine hsame.push (fun g hg => .inl (hopen g hg)) rfl (fun _ => rfl) fun i hi f hf => ?_
      cases of_decide_eq_true hi
      exact hfree f hf
    exact Ordered.rested ⟨hw, hexact, hlane, hnested⟩ fun g hg => by cases hg; rfl

theorem Undisturbed.changed (h : s.Undisturbed) (hu : s.unwinding = false) {version : ℕ}
    {entries : EdgeTable} (hs : s.frames = .awaiting n d version entries :: rest)
    (hne : s.net.version d ≠ version) :
    (NetHost.changed { s with frames := rest } n).Undisturbed := by
  have hn := h.nested
  rw [hs] at hn
  have hset : s.net.Settled d := h.returned hu _ (by rw [hs]; rfl) d rfl
  have hfree : ∀ g ∈ rest, g.verifies n = false :=
    hn.alone_changed (fun m u hm => h.wired.computing_mem (by rw [hs]; exact hm)) hset hne
  have hp := h.pop hs rfl
  unfold NetHost.changed
  dsimp only
  cases hx : s.net.computed n with
  | some x =>
    refine hp.recompute hx ?_ hfree fun g hg =>
      ((List.isChain_cons.mp hn.chain).1 g hg).replace fun _ => id
    rw [hn.check _ List.mem_cons_self n (decide_eq_true rfl) x hx]
    exact State.noConfusion
  | none =>
    have hbelow : n < s.net.nextNode :=
      h.wired.fits (.awaiting n d version entries) (by rw [hs]; exact List.mem_cons_self)
    refine hp.attempt hbelow hx hfree (h.below hs fun d hd => ?_)
    refine Bool.eq_false_iff.mpr fun hr => ?_
    cases of_decide_eq_true hr
    rw [hx] at hd
    cases hd

theorem Ordered.runScheduled (h : s.Ordered) {jobs : List NodeId}
    (hj : s.net.pendingJobs = e :: jobs) (hopen : ∀ g ∈ s.frames.head?, g.isOpen = true) :
    (NetHost.runScheduled { s with net := { s.net with pendingJobs := jobs } } e).Undisturbed := by
  obtain ⟨x, hx, hsched⟩ := h.lane.queued e (by rw [hj]; exact List.mem_cons_self)
  obtain ⟨hbelow, hc⟩ := h.wired.net.effect e x hx
  have hfree : ∀ f ∈ s.frames, f.verifies e = false := by
    intro f hf
    refine Bool.eq_false_iff.mpr fun hv => ?_
    have := (h.nested.still f hf e hv hc).1 x hx
    rw [hsched] at this
    cases this
  have hne : ∀ f ∈ s.frames, ∀ m, f.verifies m = true → m ≠ e := by
    rintro f hf m hm rfl
    rw [hfree f hf] at hm
    cases hm
  have hl := h.lane.unlatch hj
  have hunlatched : Ordered { s with net := { s.net with pendingJobs := jobs }.unlatch e } :=
    h.alike (t := { s with net := { s.net with pendingJobs := jobs }.unlatch e })
      ((Net.alike_jobs s.net jobs).trans (Net.alike_modifyEffect _ e _)) rfl hl
      fun f hf m hm => effects_modifyEffect (hne f hf m hm) _
  unfold NetHost.runScheduled
  dsimp only
  rw [hx]
  dsimp only
  split
  · exact Ordered.rested ⟨hunlatched.wired.alike (.refl _) rfl, hunlatched.exact,
      hunlatched.lane, hunlatched.nested⟩ hopen
  · rename_i hw
    have hclean : Ordered { s with
        net := ({ s.net with pendingJobs := jobs }.unlatch e).modifyEffect e fun x =>
          { x with state := .clean } } :=
      hunlatched.alike (t := { s with
        net := ({ s.net with pendingJobs := jobs }.unlatch e).modifyEffect e fun x =>
          { x with state := .clean } }) (Net.alike_modifyEffect _ e _) rfl
        (hl.rel (rel_modifyEffect _ e _ (fun _ _ hs => hs) fun _ => id) rfl)
        fun f hf m hm => effects_modifyEffect (hne f hf m hm) _
    split
    · exact hclean.attempt hbelow hc hfree hopen
    · have hcell : (({ s.net with pendingJobs := jobs }.unlatch e).modifyEffect e fun x =>
          { x with state := .clean }).effects e =
          some { x with scheduled := false, state := .clean } := by
        unfold Net.unlatch Net.modifyEffect
        dsimp only
        rw [Function.update_self, Function.update_self, hx]
        rfl
      refine {
        wired := hclean.wired.frame rfl rfl rfl hbelow
        exact := hclean.exact
        lane := hclean.lane
        nested := hclean.nested.verify (fun g hg => .inl (hopen g hg))
          (fun y hy => by cases hc.symm.trans hy) fun _ => ⟨fun y hy => ?_, ?_, hfree⟩
        returned := fun _ f hf d hd => by cases hf; cases hd }
      · cases hcell.symm.trans hy
        rfl
      · exact Bool.eq_false_iff.mpr hw
    · exact hclean.rested hopen

theorem Ordered.enterBody (h : s.Ordered) (hs : s.frames = .resetting e :: rest) :
    (s.enterBody rest e).Undisturbed := by
  obtain ⟨hbelow, hc⟩ : e < s.net.nextNode ∧ s.net.computed e = none :=
    h.wired.fits (.resetting e) (by rw [hs]; exact List.mem_cons_self)
  have hw := h.wired.enterBody hs
  have hexact := exact_enterBody h.wired h.exact hs
  have hfree : ∀ f ∈ s.frames, f.verifies e = false :=
    h.not_verified_of_window hc (any_of_top hs (decide_eq_true rfl))
  have hp := h.pop hs rfl
  have hopen := h.below hs fun _ _ => rfl
  unfold NetHost.enterBody at hw hexact ⊢
  dsimp only at hw hexact ⊢
  split
  · exact Ordered.raised ⟨hp.wired.raise, hp.exact, hp.lane, hp.nested⟩ rfl
  · rename_i hidle
    rw [if_neg hidle] at hw hexact
    have hfree' : ∀ f ∈ rest, f.verifies e = false := fun f hf =>
      hfree f (by rw [hs]; exact List.mem_cons_of_mem _ hf)
    have hdeps : ∀ m, m ≠ e → (s.net.enter e).dependencies m = s.net.dependencies m :=
      fun m hm => Function.update_of_ne hm _ _
    have hcarry : Nested (s.net.enter e) rest := by
      refine hp.nested.carry h.wired.net (Net.keeps_enter s.net e) hp.nested.clean
        (fun f hf m hm => ⟨hdeps m ?_, rfl, rfl⟩) fun _ i _ hi => hi.enter (.inr hc)
      rintro rfl
      rw [hfree' f hf] at hm
      cases hm
    have hnested : Nested (s.net.enter e) (.running e s.net.untracked :: rest) := by
      refine hcarry.push (fun g hg => .inl (hopen g hg)) rfl (fun _ => rfl) fun i hi f hf => ?_
      cases of_decide_eq_true hi
      exact hfree' f hf
    exact Ordered.rested ⟨hw, hexact, h.lane.same ⟨rfl, rfl⟩, hnested⟩ fun g hg => by cases hg; rfl

theorem Ordered.leaveBody (h : s.Ordered) {untracked : ℕ}
    (hs : s.frames = .running e untracked :: rest) :
    Ordered { s with net := s.net.leave untracked, frames := rest } := by
  obtain ⟨h1, h2, -, -, h5, -⟩ := Net.leave_eq s.net untracked
  have hn := h.nested
  rw [hs] at hn
  exact {
    wired := h.wired.exit hs rfl (h.wired.net.leave untracked) (Net.keeps_leave s.net untracked)
      (Net.leave_eq s.net untracked).2.2.2.2.2.2.2 rfl
    exact := h.exact.leave untracked
    lane := h.lane.same (sameLane_leave s.net untracked)
    nested := hn.tail.carry h.wired.net (Net.keeps_leave s.net untracked)
      (fun m u hm => by rw [isClean_congr h1]; exact hn.tail.clean m u hm)
      (fun f hf m hm => ⟨by rw [h2], by rw [h1], by rw [h5]⟩)
      fun _ i _ hi => hi.leave untracked }

theorem Ordered.settle (h : s.Ordered) {untracked : ℕ}
    (hs : s.frames = .running e untracked :: rest) : (s.settle rest e untracked).Undisturbed := by
  have hc : s.net.computed e = none :=
    (h.wired.fits (.running e untracked) (by rw [hs]; exact List.mem_cons_self)).2
  have hfree : ∀ f ∈ s.frames, f.verifies e = false :=
    h.not_verified_of_window hc (any_of_top hs (decide_eq_true rfl))
  have hopen := h.below hs fun _ _ => rfl
  have hl := h.leaveBody hs
  unfold NetHost.settle
  dsimp only
  split
  · refine Ordered.rested (hl.alike (Net.alike_scheduleEffect _ e) rfl
      (hl.lane.scheduleEffect e) fun f hf m hm => effects_scheduleEffect ?_) hopen
    rintro rfl
    rw [hfree f (by rw [hs]; exact List.mem_cons_of_mem _ hf)] at hm
    cases hm
  · exact Ordered.rested ⟨hl.wired.alike (.refl _) rfl, hl.exact, hl.lane, hl.nested⟩ hopen

end Bodies

section Verify

theorem Ordered.verified (h : s.Ordered) (hs : s.frames = .verifying n [] :: rest) :
    Undisturbed { s with net := s.net.setState n .clean, frames := rest } := by
  have hn := h.nested
  rw [hs] at hn
  have hfree := hn.alone_ended
  obtain ⟨before, hd, hb⟩ := hn.passed _ List.mem_cons_self n (decide_eq_true rfl)
  have hpassed : ∀ e ∈ s.net.dependencies n, s.net.Current e := by
    rw [hd, NetFrame.left, List.append_nil]
    exact hb
  have hidle : n ∉ s.net.stack :=
    h.verified_idle (f := .verifying n []) (by rw [hs]; exact List.mem_cons_self)
      (decide_eq_true rfl)
  have hp := h.pop hs rfl
  have hk := Net.keeps_setState s.net n .clean
  have hcell : ∀ y, (s.net.setState n .clean).computed n = some y → y.state = .clean := by
    intro y hy
    rw [Net.computed_setState, if_pos rfl] at hy
    obtain ⟨z, -, rfl⟩ := Option.map_eq_some_iff.mp hy
    rfl
  have hordered : Ordered { s with net := s.net.setState n .clean, frames := rest } :=
    { wired := hp.wired.keep (h.wired.net.setState n .clean) hk rfl rfl
      exact := h.exact.settle hpassed
      lane := h.lane.same ⟨rfl, rfl⟩
      nested := by
        refine hn.tail.carry h.wired.net hk (fun m u hm => ?_) (fun f hf m hm => ?_)
          fun _ e _ he => he.setState .clean (.inl rfl)
        · obtain ⟨x, hx, hxc⟩ := Net.isClean_iff.mp (hn.tail.clean m u hm)
          by_cases hmn : m = n
          · subst hmn
            refine Net.isClean_iff.mpr ⟨{ x with state := .clean }, ?_, rfl⟩
            rw [Net.computed_setState, if_pos rfl, hx]
            rfl
          · rw [isClean_setState hmn]
            exact hn.tail.clean m u hm
        · have hmn : m ≠ n := by
            rintro rfl
            rw [hfree f hf] at hm
            cases hm
          refine ⟨rfl, ?_, rfl⟩
          rw [Net.computed_setState, if_neg hmn] }
  refine { hordered with returned := fun _ f hf d hd y hy => ?_ }
  rcases (List.isChain_cons.mp hn.chain).1 f hf with hopen | ⟨d', hd', hr, -⟩
  · rw [asks_of_open hopen] at hd
    cases hd
  · cases hd'.symm.trans hd
    cases of_decide_eq_true hr
    exact ⟨hcell y hy, hidle⟩

end Verify

section Step

theorem Undisturbed.finish (h : s.Undisturbed) {v : V} (ht : s.finish v = some t) :
    t.Undisturbed := by
  unfold NetHost.finish at ht
  split at ht
  · rename_i hs
    obtain ⟨x, hx, rfl⟩ := Option.map_eq_some_iff.mp ht
    exact h.conclude hs hx v
  · rename_i hs
    cases ht
    exact h.enterBody hs
  · rename_i hs
    cases ht
    exact h.settle hs
  · rename_i n rest hs
    cases ht
    have hp := h.pop hs rfl
    exact Ordered.rested (hp.alike (t := { s with net := s.net.giveBack n, frames := rest })
      (Net.alike_giveBack _ n) rfl (hp.lane.same ⟨rfl, rfl⟩) fun _ _ _ _ => rfl)
      (h.below hs fun _ _ => rfl)
  · rename_i rest hs
    cases ht
    have hp := h.pop hs rfl
    exact Ordered.rested (hp.alike (t := { s with
        net := { s.net with untracked := s.net.untracked - 1 }, frames := rest })
      (Net.alike_untracked _ _) rfl (hp.lane.same ⟨rfl, rfl⟩) fun _ _ _ _ => rfl)
      (h.below hs fun _ _ => rfl)
  · cases ht

theorem Undisturbed.next (h : s.Undisturbed) (hu : s.unwinding = false)
    (ht : s.next layout = some t) : t.Undisturbed := by
  unfold NetHost.next at ht
  split at ht
  · rename_i rest hs
    have hopen : ∀ g ∈ s.frames.head?, g.isOpen = true := fun g hg => by
      rw [hs] at hg
      cases hg
      rfl
    split at ht
    · cases ht
      have hp := h.pop hs rfl
      exact Ordered.rested (hp.alike (t := { s with net := s.net.closeFlush, frames := rest })
        (Net.alike_closeFlush _) rfl (hp.lane.same ⟨rfl, rfl⟩) fun _ _ _ _ => rfl)
        (h.below hs fun _ _ => rfl)
    · rename_i e jobs hj
      cases ht
      exact h.runScheduled hj hopen
  · rename_i hs
    cases ht
    exact h.verified hs
  · rename_i n d version entries rest hs
    split at ht
    · cases ht
      exact h.raise
    · rename_i hcycle
      cases ht
      have hn := h.nested
      rw [hs] at hn
      have hordered : Ordered { s with frames := .awaiting n d version entries :: rest } :=
        { wired := h.wired.swap hs rfl rfl (h.wired.fits (.verifying n ((d, version) :: entries))
            (by rw [hs]; exact List.mem_cons_self))
          exact := h.exact
          lane := h.lane
          nested := hn.await }
      exact hordered.refresh rfl rfl (h.wired.net.idle (Bool.eq_false_iff.mpr hcycle))
  · rename_i n d version entries rest hs
    split at ht
    · rename_i hne
      cases ht
      exact h.changed hu hs hne
    · rename_i hv
      cases ht
      have hn := h.nested
      rw [hs] at hn
      have hset : s.net.Settled d := h.returned hu _ (by rw [hs]; rfl) d rfl
      have hordered : Ordered { s with frames := .verifying n entries :: rest } :=
        { wired := h.wired.swap hs rfl rfl (h.wired.fits (.awaiting n d version entries)
            (by rw [hs]; exact List.mem_cons_self))
          exact := h.exact
          lane := h.lane
          nested := hn.advance (fun m u hm => h.wired.computing_mem (by rw [hs]; exact hm))
            ⟨not_not.mp hv, hset⟩ }
      exact { hordered with returned := fun _ f hf d hd => by cases hf; cases hd }
  · rename_i n tracked rest hs
    cases ht
    refine (h.pop hs rfl).lend ?_ (h.returned hu _ (by rw [hs]; rfl) n rfl)
      (h.below hs fun _ _ => rfl) tracked
    exact h.wired.fits (.reading n tracked) (by rw [hs]; exact List.mem_cons_self)
  · cases ht

theorem Ordered.recover (h : s.Ordered) (hs : s.frames = f :: rest) (hc : f.context = none)
    (hf : f.verifies n = true) (hu : s.unwinding = true) : (s.recover rest n).Undisturbed := by
  have hn := h.nested
  rw [hs] at hn
  have hp := h.pop hs hc
  have ha := Net.alike_modifyEffect s.net n fun x => { x with state := .dirty }
  have hl : Lane (s.net.modifyEffect n fun x => { x with state := .dirty }) :=
    h.lane.rel (rel_modifyEffect s.net n _ (fun _ _ hs => hs) fun _ => id) rfl
  refine Ordered.raised (hp.alike (t := s.recover rest n) (ha.trans (Net.alike_scheduleEffect _ n))
    rfl (hl.scheduleEffect n) fun g hg m hm => ?_) hu
  by_cases hmn : m = n
  · -- only a thunk or memo is verified twice
    subst hmn
    have hsome := ((List.pairwise_cons.mp hn.apart).1 g hg m hf hm).1
    have hnone : s.net.effects m = none := by
      by_contra he
      obtain ⟨y, hy⟩ := Option.ne_none_iff_exists'.mp he
      rw [(h.wired.net.effect m y hy).2] at hsome
      cases hsome
    have hmod : (s.net.modifyEffect m fun x => { x with state := .dirty }).effects m = none := by
      unfold Net.modifyEffect
      dsimp only
      rw [Function.update_self, hnone]
      rfl
    change ((s.net.modifyEffect m fun x => { x with state := .dirty }).scheduleEffect m).effects m =
      s.net.effects m
    unfold Net.scheduleEffect
    rw [hmod]
    exact hmod.trans hnone.symm
  · exact (effects_scheduleEffect hmn).trans (effects_modifyEffect hmn _)

theorem Undisturbed.unwind (h : s.Undisturbed) (hu : s.unwinding = true)
    (ht : s.unwind = some t) : t.Undisturbed := by
  unfold NetHost.unwind at ht
  split at ht
  · cases ht
  · rename_i n untracked rest hs
    obtain ⟨x, hx, rfl⟩ := Option.map_eq_some_iff.mp ht
    obtain ⟨ho, -, hcomp, hcurrent⟩ := h.endCompute hs hx
    have hin : n ∈ s.net.stack := h.wired.computing_mem (by rw [hs]; exact List.mem_cons_self)
    obtain ⟨hexact, hlonely⟩ := exact_endCompute h.wired h.exact hs hx
    have hk : Keeps s.net ((s.net.endCompute n x untracked).setState n .dirty) :=
      (Wired.endCompute h.wired.net n x untracked).2.1.trans (Net.keeps_setState _ n .dirty)
    refine Ordered.raised ?_ hu
    exact {
      wired := ho.wired.keep (ho.wired.net.setState n .dirty) (Net.keeps_setState _ n .dirty)
        rfl rfl
      exact := hexact.spoil .dirty State.noConfusion hlonely
      lane := ho.lane.same ⟨rfl, rfl⟩
      nested := h.nested_left hs hk
        (fun m hm => by rw [Net.computed_setState, if_neg hm, hcomp])
        ((Net.alike_vacate (s.net.leave untracked) n x).dependencies.trans
          (Net.leave_eq s.net untracked).2.1)
        (sameLane_endCompute s.net n x untracked).1
        fun e he => (hcurrent e he).setState .dirty (.inr (he.ne hx (.inr hin))) }
  · rename_i hs
    cases ht
    have hl := h.leaveBody hs
    exact Ordered.raised ⟨hl.wired, hl.exact, hl.lane, hl.nested⟩ hu
  · rename_i hs
    cases ht
    exact h.recover hs rfl (decide_eq_true rfl) hu
  · rename_i hs
    cases ht
    exact h.recover hs rfl (decide_eq_true rfl) hu
  · rename_i n rest hs
    cases ht
    have hp := h.pop hs rfl
    exact Ordered.raised (hp.alike (t := { s with net := s.net.giveBack n, frames := rest })
      (Net.alike_giveBack _ n) rfl (hp.lane.same ⟨rfl, rfl⟩) fun _ _ _ _ => rfl) hu
  · rename_i rest hs
    cases ht
    have hp := h.pop hs rfl
    exact Ordered.raised (hp.alike (t := { s with
        net := { s.net with untracked := s.net.untracked - 1 }, frames := rest })
      (Net.alike_untracked _ _) rfl (hp.lane.same ⟨rfl, rfl⟩) fun _ _ _ _ => rfl) hu
  · rename_i rest hs
    cases ht
    have hp := h.pop hs rfl
    exact Ordered.raised (hp.alike (t := { s with net := s.net.closeFlush, frames := rest })
      (Net.alike_closeFlush _) rfl (hp.lane.same ⟨rfl, rfl⟩) fun _ _ _ _ => rfl) hu
  · rename_i hs
    cases ht
    exact (h.pop hs rfl).raised hu
  · rename_i hs
    cases ht
    exact (h.pop hs rfl).raised hu

theorem Undisturbed.grown (h : s.Undisturbed) (hc : s.inCode = true) {net : Net V}
    (hw : Wired { s with net }) (hexact : net.Exact) (hlane : Lane net) (hk : Keeps s.net net)
    (hcomp : ∀ m, m < s.net.nextNode → net.computed m = s.net.computed m)
    (hdeps : net.dependencies = s.net.dependencies) (hstack : net.stack = s.net.stack)
    (hversion : net.version = s.net.version)
    (heff : ∀ m, m < s.net.nextNode → net.effects m = s.net.effects m) :
    Undisturbed { s with net } := by
  refine Ordered.rested ⟨hw, hexact, hlane, ?_⟩ (open_of_code hc)
  refine h.nested.carry h.wired.net hk (fun m u hm => ?_) (fun f hf m hm => ?_)
    fun m e hm he => ?_
  · have hsome := h.wired.fits _ hm
    obtain ⟨x, hx⟩ := Option.isSome_iff_exists.mp hsome
    unfold Net.isClean
    rw [hcomp m (h.wired.net.known m x hx)]
    exact h.nested.clean m u hm
  · have hbelow : m < s.net.nextNode := by
      have hfits := h.wired.fits f hf
      rcases verifies_iff.mp hm with ⟨l, rfl⟩ | ⟨d, v, l, rfl⟩ <;> exact hfits
    exact ⟨by rw [hdeps], hcomp m hbelow, heff m hbelow⟩
  · refine ⟨by rw [hversion]; exact he.1, fun x hx => ?_⟩
    rw [hcomp e.1 (h.wired.net.below m e hm).2] at hx
    rw [hstack]
    exact he.2 x hx

theorem Undisturbed.step (h : s.Undisturbed) {op : NetStep V} (hd : s.disturbs op = false)
    (ht : s.step layout op = some t) : t.Undisturbed := by
  have hcode : s.calling = true → s.unwinding = false ∧ s.inCode = true := fun hc => by
    unfold calling at hc
    rw [Bool.and_eq_true, Bool.not_eq_true'] at hc
    exact hc
  have hw := h.wired.step op ht
  cases op <;> simp only [NetHost.step] at ht <;> split at ht <;> try cases ht
  case signal v same hc =>
    exact h.grown (hcode hc).2 hw (h.exact.grown h.wired.net rfl rfl rfl fun _ _ => rfl)
      (h.lane.same ⟨rfl, rfl⟩) ⟨Nat.le_succ _, fun _ _ => rfl⟩ (fun _ _ => rfl) rfl rfl rfl
      fun _ _ => rfl
  case thunk hc =>
    exact h.grown (hcode hc).2 hw (h.exact.newComputed h.wired.net _ _) (h.lane.same ⟨rfl, rfl⟩)
      (Net.keeps_newComputed _ _ _) (fun m hm => Function.update_of_ne (Nat.ne_of_lt hm) _ _) rfl rfl
      rfl fun _ _ => rfl
  case memo hc =>
    exact h.grown (hcode hc).2 hw (h.exact.newComputed h.wired.net _ _) (h.lane.same ⟨rfl, rfl⟩)
      (Net.keeps_newComputed _ _ _) (fun m hm => Function.update_of_ne (Nat.ne_of_lt hm) _ _) rfl rfl
      rfl fun _ _ => rfl
  case effect p hc =>
    have ha := Net.alike_scheduleEffect ({ s.net with
      nextNode := s.net.nextNode + 1
      effects := Function.update s.net.effects s.net.nextNode (some { body := p }) } : Net V)
      s.net.nextNode
    have heff : ∀ m, m < s.net.nextNode → (s.net.newEffect p).effects m = s.net.effects m :=
      fun m hm => (effects_scheduleEffect (Nat.ne_of_lt hm)).trans
        (Function.update_of_ne (Nat.ne_of_lt hm) _ _)
    exact h.grown (hcode hc).2 hw (h.exact.newEffect p)
      ((h.lane.addEffect h.wired.net _).scheduleEffect _) (Net.keeps_newEffect _ p)
      (fun m _ => congrFun ha.computed m) ha.dependencies ha.stack ha.version heff
  case read n tracked hc => exact h.read (hcode hc).2 n tracked
  case set n v hc =>
    exact h.set (hcode hc).2 (by simpa [disturbs, NetStep.isWrite] using hd) n v
  case update n f hc =>
    exact h.overwrite (hcode hc).2 (by simpa [disturbs, NetStep.isWrite] using hd) n f
  case untrack hc =>
    have hopen := open_of_code (hcode hc).2
    have ho : Ordered { s with net := { s.net with untracked := s.net.untracked + 1 } } :=
      h.alike (t := { s with net := { s.net with untracked := s.net.untracked + 1 } })
        (Net.alike_untracked _ _) rfl (h.lane.same ⟨rfl, rfl⟩) fun _ _ _ _ => rfl
    have hp : Ordered (NetHost.push { s with
        net := { s.net with untracked := s.net.untracked + 1 } } .untracking) :=
      ho.push rfl rfl trivial fun g hg => .inl (hopen g hg)
    exact hp.rested fun g hg => by cases hg; rfl
  case flushNow hc =>
    have hopen := open_of_code (hcode hc).2
    unfold NetHost.flushNow
    split
    · exact h
    · have ho : Ordered { s with net := s.net.openFlush } :=
        h.alike (t := { s with net := s.net.openFlush }) (Net.alike_openFlush _) rfl
          (h.lane.same ⟨rfl, rfl⟩) fun _ _ _ _ => rfl
      have hp : Ordered (NetHost.push { s with net := s.net.openFlush } .flushing) :=
        ho.push rfl rfl trivial fun g hg => .inl (hopen g hg)
      exact hp.rested fun g hg => by cases hg; rfl
  case finish => exact h.finish ht
  case next hu => exact h.next (Bool.eq_false_iff.mpr hu) ht
  case panic => exact h.raise
  case catchUnwind hc =>
    rw [Bool.and_eq_true] at hc
    exact Ordered.rested ⟨hw, h.exact, h.lane, h.nested⟩ (open_of_code hc.2)
  case unwind hu => exact h.unwind hu ht

end Step

theorem undisturbed_empty : ({} : NetHost V).Undisturbed where
  wired := wired_empty
  exact n x hx := by cases hx
  lane := ⟨List.nodup_nil, fun e he => by cases he⟩
  nested :=
    { chain := .nil
      clean := fun n u hm => by cases hm
      check := fun f hf => by cases hf
      still := fun f hf => by cases hf
      passed := fun f hf => by cases hf
      apart := .nil }
  returned _ f hf := by cases hf

/-- The states that a run reaches in which no compute writes. -/
def ReachedPure (layout : Layout) (s : NetHost V) : Prop :=
  Runs.Reaches (NetHost.step layout) (fun s op => (!s.disturbs op) = true) {} s

theorem ReachedPure.undisturbed (h : s.ReachedPure layout) : s.Undisturbed :=
  h.invariant Undisturbed undisturbed_empty fun _ _ _ hs ok ht => hs.step (by simpa using ok) ht

end NetHost

end Adaptite

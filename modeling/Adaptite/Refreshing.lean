import Adaptite.NetSound
import Mathlib.Data.List.Perm.Subperm

set_option autoImplicit false

namespace Adaptite

open Unwinding

/-- A call of the library in progress: a computation on the stack, or the
verification of a node, with the dependencies already found unchanged, the version
recorded for the one being refreshed, and the rest. -/
inductive PullFrame where
  | computing (node : NodeId)
  | verifying (node : NodeId) (before : EdgeTable) (version : ℕ) (after : EdgeTable)

namespace PullFrame

def node : PullFrame → NodeId
  | computing n | verifying n _ _ _ => n

def before : PullFrame → EdgeTable
  | computing _ => []
  | verifying _ l _ _ => l

end PullFrame

namespace Net

variable {V : Type} {net t : Net V} {layout : Layout} {ctx : List PullFrame} {n m : NodeId}

/-- The recorded version is the current one, of a node that is settled. -/
def Unchanged (net : Net V) (e : NodeId × ℕ) : Prop :=
  net.Settled e.1 ∧ net.version e.1 = e.2

/-- The calls in progress, innermost first, above which `n` is being refreshed. -/
def Fits (net : Net V) : List PullFrame → NodeId → Prop
  | [], _ => True
  | .computing z :: ctx, _ => z ∈ net.stack ∧ net.Fits ctx z
  | .verifying y before version after :: ctx, n =>
    y ∉ net.stack ∧ (∃ x, net.computed y = some x ∧ x.state = .check) ∧
      net.dependencies y = before ++ (n, version) :: after ∧
      (∀ e ∈ before, net.Unchanged e) ∧ net.Fits ctx y

/-- The calls in progress do not depend on `n`. -/
def Free (ctx : List PullFrame) (n : NodeId) : Prop :=
  ∀ f ∈ ctx, f.node ≠ n ∧ ∀ e ∈ f.before, e.1 ≠ n

theorem Free.head {f : PullFrame} (h : Free (f :: ctx) n) : f.node ≠ n ∧ ∀ e ∈ f.before, e.1 ≠ n :=
  h f List.mem_cons_self

theorem Free.tail {f : PullFrame} (h : Free (f :: ctx) n) : Free ctx n :=
  fun g hg => h g (List.mem_cons_of_mem f hg)

theorem Fits.free (h : net.Fits ctx m) {x : NetComputed V} (hx : net.computed n = some x)
    (hs : x.state ≠ .clean) (hn : n ∉ ctx.map PullFrame.node) : Free ctx n := by
  induction ctx generalizing m with
  | nil => intro f hf; cases hf
  | cons f ctx ih =>
    rw [List.map_cons, List.mem_cons, not_or] at hn
    intro g hg
    rcases List.mem_cons.mp hg with rfl | hg
    · refine ⟨Ne.symm hn.1, ?_⟩
      cases g with
      | computing z => intro e he; cases he
      | verifying y before version after =>
        rintro e he rfl
        exact hs ((h.2.2.2.1 e he).1 x hx).1
    · cases f with
      | computing z => exact ih h.2 hn.2 g ‹_›
      | verifying y before version after => exact ih h.2.2.2.2 hn.2 g ‹_›

/-- What changes only `n` changes nothing for calls that do not depend on it. -/
theorem Fits.touch (h : net.Fits ctx m) (free : Free ctx n)
    (same : ∀ k ≠ n, t.computed k = net.computed k ∧ t.version k = net.version k ∧
      t.dependencies k = net.dependencies k ∧ (k ∈ t.stack ↔ k ∈ net.stack)) :
    t.Fits ctx m := by
  induction ctx generalizing m with
  | nil => trivial
  | cons f ctx ih =>
    cases f with
    | computing z => exact ⟨(same z free.head.1).2.2.2.mpr h.1, ih h.2 free.tail⟩
    | verifying y before version after =>
      obtain ⟨h1, ⟨x, hx, hc⟩, h3, h4, h5⟩ := h
      obtain ⟨s1, -, s3, s4⟩ := same y free.head.1
      refine ⟨fun hy => h1 (s4.mp hy), ⟨x, s1.trans hx, hc⟩, s3.trans h3, fun e he => ?_,
        ih h5 free.tail⟩
      obtain ⟨r1, r2, -, r4⟩ := same e.1 (free.head.2 e he)
      obtain ⟨hs, hv⟩ := h4 e he
      exact ⟨fun w hw => ⟨(hs w (r1 ▸ hw)).1, fun ho => (hs w (r1 ▸ hw)).2 (r4.mp ho)⟩,
        r2.trans hv⟩

theorem Fits.recorded (h : net.Fits ctx m) (h1 : t.computed = net.computed)
    (h2 : t.version = net.version) (h3 : t.stack = net.stack)
    (h4 : ∀ k ∉ net.stack, t.dependencies k = net.dependencies k) : t.Fits ctx m := by
  induction ctx generalizing m with
  | nil => trivial
  | cons f ctx ih =>
    cases f with
    | computing z => exact ⟨h3 ▸ h.1, ih h.2⟩
    | verifying y before version after =>
      obtain ⟨g1, g2, g3, g4, g5⟩ := h
      refine ⟨h3 ▸ g1, h1 ▸ g2, (h4 y g1).trans g3, fun e he => ?_, ih g5⟩
      obtain ⟨hs, hv⟩ := g4 e he
      exact ⟨fun w hw => h3 ▸ hs w (h1 ▸ hw), h2 ▸ hv⟩

/-- A node whose verification ends at a running computation, so many calls away. -/
inductive Jammed (net : Net V) : ℕ → NodeId → Prop where
  | running (z : NodeId) (h : z ∈ net.stack) : Jammed net 0 z
  | waiting (y n : NodeId) (height version : ℕ) (before after : EdgeTable) (x : NetComputed V)
      (idle : y ∉ net.stack) (hx : net.computed y = some x) (hs : x.state = .check)
      (hd : net.dependencies y = before ++ (n, version) :: after)
      (hb : ∀ e ∈ before, net.Unchanged e) (h : Jammed net height n) : Jammed net (height + 1) y

theorem Fits.jammed (h : net.Fits ctx m) {height : ℕ} (hm : net.Jammed height m) :
    ∀ f ∈ ctx, ∃ k ≤ height + ctx.length, net.Jammed k f.node := by
  induction ctx generalizing m height with
  | nil => intro f hf; cases hf
  | cons g ctx ih =>
    intro f hf
    rw [List.length_cons]
    cases g with
    | computing z =>
      have hz : net.Jammed 0 z := .running z h.1
      rcases List.mem_cons.mp hf with rfl | hf
      · exact ⟨0, by omega, hz⟩
      · obtain ⟨k, hk, hj⟩ := ih h.2 hz f hf
        exact ⟨k, by omega, hj⟩
    | verifying y before version after =>
      obtain ⟨h1, ⟨x, hx, hc⟩, h3, h4, h5⟩ := h
      have hy : net.Jammed (height + 1) y := .waiting y m height version before after x h1 hx hc h3 h4 hm
      rcases List.mem_cons.mp hf with rfl | hf
      · exact ⟨height + 1, by omega, hy⟩
      · obtain ⟨k, hk, hj⟩ := ih h5 hy f hf
        exact ⟨k, by omega, hj⟩

theorem Fits.check (h : net.Fits ctx m) {f : PullFrame} (hf : f ∈ ctx) (idle : f.node ∉ net.stack) :
    ∃ x, net.computed f.node = some x ∧ x.state = .check := by
  induction ctx generalizing m with
  | nil => cases hf
  | cons g ctx ih =>
    cases g with
    | computing z =>
      rcases List.mem_cons.mp hf with rfl | hf
      · exact absurd h.1 idle
      · exact ih h.2 hf
    | verifying y before version after =>
      rcases List.mem_cons.mp hf with rfl | hf
      · exact h.2.1
      · exact ih h.2.2.2.2 hf

/-- Down to the innermost running computation the calls in progress follow
recorded edges; the ones below it are jammed. -/
theorem Fits.jammed_or_leads (h : net.Fits ctx m) {d : NodeId} (hm : net.Fresh m)
    (hd : Relation.ReflTransGen net.Leads m d) {f : PullFrame} (hf : f ∈ ctx) :
    (∃ k ≤ ctx.length, net.Jammed k f.node) ∨ Relation.TransGen net.Leads f.node d := by
  induction ctx generalizing m with
  | nil => cases hf
  | cons g ctx ih =>
    cases g with
    | computing z =>
      obtain ⟨k, hk, hj⟩ := Fits.jammed (m := z) h (.running z h.1) f hf
      exact .inl ⟨k, by omega, hj⟩
    | verifying y before version after =>
      obtain ⟨-, ⟨x, hx, hc⟩, h3, -, h5⟩ := h
      have hy : net.Fresh y := ⟨x, hx, by simp [hc]⟩
      have step : net.Leads y m := ⟨⟨version, h3 ▸ by simp⟩, hy, hm⟩
      have hyd := Relation.TransGen.head' step hd
      rcases List.mem_cons.mp hf with rfl | hf
      · exact .inr hyd
      · rcases ih h5 hy hyd.to_reflTransGen hf with ⟨k, hk, hj⟩ | hr
        · exact .inl ⟨k, by rw [List.length_cons]; omega, hj⟩
        · exact .inr hr

/-- A call in progress is about `n`: to refresh it once more ends in a cycle error. -/
theorem Fits.jams (h : net.Fits ctx n) (hs : net.Sound) (hn : n ∈ ctx.map PullFrame.node)
    (idle : n ∉ net.stack) : ∃ k ≤ ctx.length, net.Jammed k n := by
  obtain ⟨f, hf, rfl⟩ := List.mem_map.mp hn
  obtain ⟨x, hx, hc⟩ := h.check hf idle
  have fresh : net.Fresh f.node := ⟨x, hx, by simp [hc]⟩
  rcases h.jammed_or_leads fresh .refl hf with hj | hl
  · exact hj
  · exact absurd hl (hs.acyclic _)

/-- What a computation above `ctx` leaves behind, whether it returns or unwinds. -/
structure Ends (ctx : List PullFrame) (n : NodeId) (net t : Net V) : Prop where
  sound : t.Sound
  fits : t.Fits ctx n
  calm : Calm [] net t

theorem Ends.trans {u : Net V} (h : Ends ctx n net t) (h' : Ends ctx n t u) : Ends ctx n net u :=
  ⟨h'.sound, h'.fits, h.calm.trans h'.calm⟩

theorem Ends.refl (hs : net.Sound) (hf : net.Fits ctx n) : Ends ctx n net net :=
  ⟨hs, hf, Calm.refl [] net⟩

theorem Ends.note (hs : net.Sound) (hf : net.Fits ctx n) {fault : Fault V}
    (hc : net.cycleCheck m = some fault) : Ends ctx n net (net.note m fault) :=
  ⟨hs.note hc, hf.recorded rfl rfl rfl fun _ _ => rfl, Calm.note net fault⟩

structure Room (ctx : List PullFrame) (bound : ℕ) : Prop where
  nodup : (ctx.map PullFrame.node).Nodup
  below : ∀ k ∈ ctx.map PullFrame.node, k < bound

theorem Room.length_le {bound : ℕ} (h : Room ctx bound) : ctx.length ≤ bound := by
  have hsub : ctx.map PullFrame.node ⊆ List.range bound := fun k hk =>
    List.mem_range.mpr (h.below k hk)
  have := (h.nodup.subperm hsub).length_le
  simpa using this

theorem Room.cons {bound : ℕ} (h : Room ctx bound) (f : PullFrame) (hn : f.node ∉ ctx.map PullFrame.node)
    (below : f.node < bound) : Room (f :: ctx) bound :=
  ⟨List.nodup_cons.mpr ⟨hn, h.nodup⟩, fun k hk => by
    rcases List.mem_cons.mp hk with rfl | hk
    · exact below
    · exact h.below k hk⟩

end Net

namespace Pull

variable {V α : Type} {net t : Net V} {layout : Layout} {ctx : List PullFrame} {n m : NodeId}
  {Q : α → Net V → Prop} {E : Fault V → Net V → Prop} {d : Prop} {body : Pull V α}

open Net

theorem wp_untrack : (untrack body).wp Q E d net ↔
    body.wp (fun a t => Q a { t with untracked := t.untracked - 1 })
      (fun e t => E e { t with untracked := t.untracked - 1 }) d
      { net with untracked := net.untracked + 1 } := by
  unfold untrack
  simp only [Act.wp_bind, Act.wp_modify, Act.wp_guarded]

theorem wp_borrowing : (borrowing n body).wp Q E d net ↔
    body.wp (fun a t => Q a (t.giveBack n)) (fun e t => E e (t.giveBack n)) d (net.borrow n) := by
  unfold borrowing
  simp only [Act.wp_bind, Act.wp_modify, Act.wp_guarded]

theorem wp_runInContext (idle : n ∉ net.activeComputations) : (runInContext n body).wp Q E d net ↔
    body.wp (fun a t => Q a (t.leave net.untracked)) (fun e t => E e (t.leave net.untracked)) d
      (net.enter n) := by
  unfold runInContext
  simp only [Act.wp_bind, Act.wp_get, if_neg idle, Act.wp_modify, Act.wp_guarded]

theorem wp_assertNoCycle {Q : Unit → Net V → Prop} (hq : net.cycleCheck n = none → Q () net)
    (he : ∀ fault, net.cycleCheck n = some fault → E fault (net.note n fault)) :
    (assertNoCycle n).wp Q E d net := by
  unfold assertNoCycle
  rw [Act.wp_bind, Act.wp_get]
  cases hc : net.cycleCheck n with
  | none => exact hq hc
  | some fault => exact he fault hc

/-- The outcome of refreshing a node whose verification is jammed. -/
def Raises (net : Net V) (e : Fault V) (t : Net V) : Prop :=
  ∃ m, net.cycleCheck m = some e ∧ t = net.note m e

theorem Raises.ends {e : Fault V} (h : Raises net e t) (hs : net.Sound) (hf : net.Fits ctx n) :
    Ends ctx n net t ∧ t.Explains e := by
  obtain ⟨m, hc, rfl⟩ := h
  exact ⟨.note hs hf hc, hs.explains hc⟩

/-- Dependencies that are unchanged are passed over, or one of them is running. -/
theorem anyChanged_before {depth : ℕ} {before after : EdgeTable}
    (hb : ∀ e ∈ before, net.Unchanged e)
    (h : (anyChanged (refreshing layout (depth + 1)) after).wp (fun _ _ => False)
      (fun e t => Raises net e t) False net) :
    (anyChanged (refreshing layout (depth + 1)) (before ++ after)).wp (fun _ _ => False)
      (fun e t => Raises net e t) False net := by
  induction before with
  | nil => exact h
  | cons e before ih =>
    obtain ⟨hset, hv⟩ := hb e List.mem_cons_self
    unfold anyChanged refreshNode
    simp only [List.cons_append, Act.wp_bind]
    refine wp_assertNoCycle (fun _ => ?_) fun fault hc => ⟨e.1, hc, rfl⟩
    have hskip : refreshing layout (depth + 1) e.1 net = .ok () net := by
      unfold refreshing refresh
      rw [Act.get_bind]
      cases hx : net.computed e.1 with
      | none => rfl
      | some x => simp only [(hset x hx).1]; rfl
    rw [Act.wp_of_ok hskip, Act.wp_get, if_neg (fun hne => hne hv)]
    exact ih fun k hk => hb k (List.mem_cons_of_mem e hk)

theorem refreshNode_jammed (hs : net.Sound) {height depth : ℕ} (hj : net.Jammed height n)
    (hd : height < depth) : (refreshNode (refreshing layout depth) n).wp (fun _ _ => False)
      (fun e t => Raises net e t) False net := by
  induction hj generalizing depth with
  | running z hz =>
    unfold refreshNode
    rw [Act.wp_bind]
    exact wp_assertNoCycle (fun hc => absurd hz (hs.cycleCheck_eq_none.mp hc))
      fun fault hc => ⟨z, hc, rfl⟩
  | waiting y m height version before after x idle hx hc hdeps hb _ ih =>
    obtain ⟨depth, rfl⟩ : ∃ k, depth = k + 2 := ⟨depth - 2, by omega⟩
    unfold refreshNode
    rw [Act.wp_bind]
    refine wp_assertNoCycle (fun _ => ?_) fun fault hc => ⟨y, hc, rfl⟩
    unfold refreshing refresh dependenciesChanged
    simp only [Act.wp_bind, Act.wp_get, hx, hc, hdeps]
    refine Act.wp_post (anyChanged_before hb ?_) fun _ _ hf => hf.elim
    unfold anyChanged
    rw [Act.wp_bind]
    exact Act.wp_post (ih (by omega)) fun _ _ hf => hf.elim

theorem wp_refreshNode_bind {next : NodeId → Pull V Unit} {k : Unit → Pull V α} :
    (refreshNode next n >>= k).wp Q E d net ↔
      (assertNoCycle n >>= fun _ => next n >>= k).wp Q E d net := by
  unfold refreshNode
  simp only [Act.wp_bind]

/-- What is to be shown of `refreshing`: enough calls bring `n` up to date, or
unwind. -/
def Refreshes (layout : Layout) (depth : ℕ) (V : Type) : Prop :=
  ∀ (net : Net V) (ctx : List PullFrame) (n : NodeId), net.Sound → net.Fits ctx n → n ∉ net.stack →
    n ∉ ctx.map PullFrame.node → Room ctx net.nextNode → 2 * net.nextNode < depth + ctx.length →
      (refreshing layout depth n).wp (fun _ t => Ends ctx n net t ∧ t.Settled n)
        (fun e t => Ends ctx n net t ∧ t.Explains e) False net

section Nested

variable {depth : ℕ} (hr : Refreshes layout depth V) (hs : net.Sound) (hf : net.Fits ctx n)
  (room : Room ctx net.nextNode) (deep : 2 * net.nextNode < depth + ctx.length)

include hr hs hf room deep in
theorem wp_refreshNode : (refreshNode (refreshing layout depth) n).wp
    (fun _ t => Ends ctx n net t ∧ t.Settled n ∧ n ∉ t.stack)
    (fun e t => Ends ctx n net t ∧ t.Explains e) False net := by
  have hlen := room.length_le
  by_cases hn : n ∈ ctx.map PullFrame.node ∧ n ∉ net.stack
  · obtain ⟨k, hk, hj⟩ := hf.jams hs hn.1 hn.2
    have hkd : k < depth := by omega
    exact Act.wp_mono (refreshNode_jammed hs hj hkd) (fun _ _ h => h.elim)
      (fun _ _ h => h.ends hs hf) id
  · unfold refreshNode
    rw [Act.wp_bind]
    refine wp_assertNoCycle (fun hc => ?_) fun fault hc => ⟨.note hs hf hc, hs.explains hc⟩
    have idle := hs.cycleCheck_eq_none.mp hc
    refine Act.wp_post (hr net ctx n hs hf idle (fun hm => hn ⟨hm, idle⟩) room deep) ?_
    rintro _ t ⟨he, hset⟩
    exact ⟨he, hset, he.calm.stack ▸ idle⟩

end Nested

/-- The state above `ctx`, in a net with so many nodes. -/
structure Within (ctx : List PullFrame) (n : NodeId) (bound : ℕ) (net : Net V) : Prop where
  sound : net.Sound
  fits : net.Fits ctx n
  bound : net.nextNode = bound

theorem Within.ends {bound : ℕ} (h : Within ctx n bound net) (he : Ends ctx n net t) :
    Within ctx n bound t ∧ Calm [] net t :=
  ⟨⟨he.sound, he.fits, he.calm.nextNode.trans h.bound⟩, he.calm⟩

/-- Above `ctx`, `x` comes to an end and keeps what is to be kept. -/
def Tame (ctx : List PullFrame) (n : NodeId) (bound : ℕ) (x : Pull V α) : Prop :=
  ∀ net, Within ctx n bound net → x.wp (fun _ t => Within ctx n bound t ∧ Calm [] net t)
    (fun e t => Within ctx n bound t ∧ Calm [] net t ∧ t.Explains e) False net

section Tame

variable {β : Type} {bound : ℕ} {x : Pull V α} {f : α → Pull V β}

theorem Tame.pure (a : α) : Tame ctx n bound (Pure.pure a : Pull V α) :=
  fun net h => ⟨h, Calm.refl [] net⟩

theorem Tame.raise (e : Fault V) (he : ∀ path, e ≠ .cycle path) (hu : ∀ m, e ≠ .unlisted m) :
    Tame ctx n bound (Act.raise e : Pull V α) :=
  fun net h => ⟨h, Calm.refl [] net, fun path hp => absurd hp (he path), hu⟩

theorem Tame.bind (hx : Tame ctx n bound x) (hf : ∀ a, Tame ctx n bound (f a)) :
    Tame ctx n bound (x >>= f) := by
  intro net h
  rw [Act.wp_bind]
  refine Act.wp_post (hx net h) fun a t ht => ?_
  exact Act.wp_mono (hf a t ht.1) (fun _ u hu => ⟨hu.1, ht.2.trans hu.2⟩)
    (fun _ u hu => ⟨hu.1, ht.2.trans hu.2.1, hu.2.2⟩) id

theorem Tame.attempt (hx : Tame ctx n bound x) : Tame ctx n bound x.attempt := by
  intro net h
  rw [Act.wp_attempt]
  exact Act.wp_mono (hx net h) (fun _ t ht => ht) (fun _ t ht => ⟨ht.1, ht.2.1⟩) id

theorem Within.same (h : Within ctx n bound net) (h1 : t.activeComputations = net.activeComputations)
    (h2 : t.stack = net.stack) (h3 : t.nextNode = net.nextNode) (h4 : t.computed = net.computed)
    (h5 : t.dependencies = net.dependencies) (h6 : t.dependents = net.dependents)
    (h7 : t.signals = net.signals) (h8 : t.raised = net.raised) (h9 : t.version = net.version) :
    Within ctx n bound t :=
  ⟨h.sound.same h1 h2 h3 h4 h5 h6 h7 h8, h.fits.recorded h4 h9 h2 fun _ _ => by rw [h5],
    h3.trans h.bound⟩

theorem Tame.untrack (hx : Tame ctx n bound x) : Tame ctx n bound (untrack x) := by
  intro net h
  rw [wp_untrack]
  have hin : Within ctx n bound { net with untracked := net.untracked + 1 } :=
    h.same rfl rfl rfl rfl rfl rfl rfl rfl rfl
  exact Act.wp_mono (hx _ hin)
    (fun _ t ht => ⟨ht.1.same rfl rfl rfl rfl rfl rfl rfl rfl rfl, ht.2.untracking⟩)
    (fun _ t ht => ⟨ht.1.same rfl rfl rfl rfl rfl rfl rfl rfl rfl, ht.2.1.untracking, ht.2.2⟩) id

theorem Tame.borrowing (hx : Tame ctx n bound x) : Tame ctx n bound (borrowing m x) := by
  intro net h
  rw [wp_borrowing]
  have hin : Within ctx n bound (net.borrow m) := h.same rfl rfl rfl rfl rfl rfl rfl rfl rfl
  exact Act.wp_mono (hx _ hin)
    (fun _ t ht => ⟨ht.1.same rfl rfl rfl rfl rfl rfl rfl rfl rfl, ht.2.borrowing⟩)
    (fun _ t ht => ⟨ht.1.same rfl rfl rfl rfl rfl rfl rfl rfl rfl, ht.2.1.borrowing, ht.2.2⟩) id

theorem Tame.noteSeen (v : V) :
    Tame ctx n bound (Act.modify fun net => net.noteSeen m v : Pull V Unit) := by
  intro net h
  have hin : Within ctx n bound (net.noteSeen m v) := by
    unfold Net.noteSeen
    split
    · exact h
    · exact h.same rfl rfl rfl rfl rfl rfl rfl rfl rfl
  exact ⟨hin, Calm.noteSeen net v⟩

theorem Tame.readCached {body : V → Pull V α} (hb : ∀ v, Tame ctx n bound (body v)) :
    Tame ctx n bound (readCached m body) := by
  refine Tame.borrowing fun net h => ?_
  rw [Act.wp_bind, Act.wp_get]
  cases net.cached m with
  | none => exact Tame.raise _ (by simp) (by simp) net h
  | some v => exact (Tame.noteSeen v).bind (fun _ => hb v) net h

theorem wp_observe (h : Within ctx n bound net) (hset : net.Settled m) (below : m < net.nextNode) :
    (observe layout m).wp (fun _ t => Within ctx n bound t ∧ Calm [] net t)
      (fun e t => Within ctx n bound t ∧ Calm [] net t ∧ t.Explains e) False net := by
  unfold observe
  rw [Act.wp_bind]
  refine wp_assertNoCycle (fun hc => ?_) fun fault hc => ?_
  · have idle := h.sound.cycleCheck_eq_none.mp hc
    have hfits : (net.recordEdge layout m).Fits ctx n := by
      rcases @recordEdge_eq V net layout m with he | ⟨o, rest, hs, -, he⟩
      · rw [he]; exact h.fits
      · rw [he]
        refine h.fits.recorded rfl rfl rfl fun k hk => Function.update_of_ne ?_ _ _
        rintro rfl
        exact hk (hs ▸ List.mem_cons_self)
    exact h.ends ⟨h.sound.recordEdge hset idle below, hfits, Calm.recordEdge net layout m⟩
  · obtain ⟨h1, h2⟩ := h.ends (.note h.sound h.fits hc)
    exact ⟨h1, h2, h.sound.explains hc⟩

/-- Where reads are made: outside every computation, or inside the innermost call. -/
def Open : List PullFrame → Prop
  | .verifying _ _ _ _ :: _ => False
  | _ => True

theorem open_nil : Open [] := True.intro

theorem open_computing (z : NodeId) (ctx : List PullFrame) : Open (.computing z :: ctx) := True.intro

theorem Open.fits (h : Open ctx) (hf : net.Fits ctx n) (m : NodeId) : net.Fits ctx m := by
  cases ctx with
  | nil => trivial
  | cons f ctx =>
    cases f with
    | computing z => exact hf
    | verifying y before version after => exact h.elim

theorem Tame.read {depth : ℕ} (hr : Refreshes layout depth V) (ho : Open ctx)
    (room : Room ctx bound) (deep : 2 * bound < depth + ctx.length) (tracked : Bool)
    {body : V → Pull V α} (hb : ∀ v, Tame ctx n bound (body v)) :
    Tame ctx n bound (read layout (refreshing layout depth) tracked m body) := by
  -- the end of the read, from a state in which `m` is up to date
  have rest : ∀ net, Within ctx n bound net → net.Settled m → m < net.nextNode →
      ((if tracked then observe layout m else Pure.pure ()) >>= fun _ =>
        Pull.readCached m body).wp
        (fun _ t => Within ctx n bound t ∧ Calm [] net t)
        (fun e t => Within ctx n bound t ∧ Calm [] net t ∧ t.Explains e) False net := by
    intro net h hset below
    rw [Act.wp_bind]
    have hobs : (if tracked then observe layout m else Pure.pure () : Pull V Unit).wp
        (fun _ t => Within ctx n bound t ∧ Calm [] net t)
        (fun e t => Within ctx n bound t ∧ Calm [] net t ∧ t.Explains e) False net := by
      cases tracked with
      | true => exact wp_observe h hset below
      | false => exact ⟨h, Calm.refl [] net⟩
    refine Act.wp_post hobs fun _ t ht => ?_
    exact Act.wp_mono (Tame.readCached hb t ht.1) (fun _ u hu => ⟨hu.1, ht.2.trans hu.2⟩)
      (fun _ u hu => ⟨hu.1, ht.2.trans hu.2.1, hu.2.2⟩) id
  intro net h
  unfold Pull.read
  rw [Act.wp_bind, Act.wp_get]
  cases hsig : net.signals m with
  | some s =>
    obtain ⟨below, hnone⟩ := h.sound.source m s hsig
    refine rest net h (fun x hx => ?_) below
    rw [hnone] at hx
    cases hx
  | none =>
    cases hx : net.computed m with
    | none => exact Tame.raise _ (by simp) (by simp) net h
    | some x =>
      have hm := ho.fits h.fits m
      have hN := h.bound
      have hfresh := wp_refreshNode hr h.sound hm (hN.symm ▸ room) (by omega)
      have below := h.sound.known m x hx
      dsimp only
      rw [← wp_refreshNode_bind, Act.wp_bind]
      refine Act.wp_mono hfresh ?_ ?_ id
      · rintro _ t ⟨he, hset, -⟩
        have ht := h.ends ⟨he.sound, ho.fits he.fits n, he.calm⟩
        refine Act.wp_mono (rest t ht.1 hset (he.calm.nextNode.symm ▸ below)) ?_ ?_ id
        · exact fun _ u hu => ⟨hu.1, ht.2.trans hu.2⟩
        · exact fun _ u hu => ⟨hu.1, ht.2.trans hu.2.1, hu.2.2⟩
      · rintro e t ⟨he, hexp⟩
        have ht := h.ends ⟨he.sound, ho.fits he.fits n, he.calm⟩
        exact ⟨ht.1, ht.2, hexp⟩

theorem Tame.exec {depth : ℕ} (hr : Refreshes layout depth V) (ho : Open ctx)
    (room : Room ctx bound) (deep : 2 * bound < depth + ctx.length) {p : Script V}
    (hp : p.ReadOnly) : Tame ctx n bound (Pull.exec layout (refreshing layout depth) p) := by
  intro net h
  refine Program.wp_interp (I := Within ctx n bound) (T := Calm []) (E := fun e t => t.Explains e)
    (fun s _ => Calm.refl [] s) (fun _ _ _ => Calm.trans) ?_ p hp net h
  intro op f hop hf s hs
  have hf' : ∀ a, Tame ctx n bound (f a) := fun a s hs => hf a s hs
  cases op with
  | panic v => exact Tame.raise _ (by simp) (by simp) s hs
  | catchUnwind => exact Tame.attempt (hf' ()) s hs
  | untrack => exact Tame.untrack (hf' ()) s hs
  | withValue m => exact Tame.read hr ho room deep true hf' s hs
  | withPeek m => exact Tame.read hr ho room deep false hf' s hs
  | set m v => cases hop
  | replace m v => cases hop
  | update m g => cases hop

end Tame

/-- Once the compute of `n` has returned: `n` counts as clean, and the rest is as it was. -/
structure After (ctx : List PullFrame) (n : NodeId) (net t : Net V) : Prop where
  sound : t.Sound
  fits : t.Fits ctx n
  calm : Calm [n] net t
  clean : ∃ y, t.computed n = some y ∧ y.state = .clean

namespace After

variable {x : NetComputed V}

theorem ends (h : After ctx n net t) (hx : net.computed n = some x) (hs : x.state ≠ .clean)
    (idle : n ∉ net.stack) : Ends ctx n net t ∧ t.Settled n := by
  obtain ⟨y, hy, hc⟩ := h.clean
  refine ⟨⟨h.sound, h.fits, h.calm.stale hx hs⟩, fun z hz => ?_⟩
  rw [hy] at hz
  cases hz
  exact ⟨hc, h.calm.stack ▸ idle⟩

theorem store (h : After ctx n net t) (free : Free ctx n) (v : V) :
    After ctx n net (t.store n v) := by
  obtain ⟨y, hy, hc⟩ := h.clean
  have hcomp := @computed_modifyComputed V t n fun x : NetComputed V =>
    { x with value := some v }
  refine ⟨h.sound.code fun _ => ⟨rfl, rfl⟩, h.fits.touch free fun k hk => ?_,
    h.calm.trans (.modifyComputed t (fun _ => ⟨rfl, rfl⟩) List.mem_cons_self), ?_⟩
  · exact ⟨(hcomp k).trans (if_neg hk), rfl, rfl, Iff.rfl⟩
  · exact ⟨{ y with value := some v }, (hcomp n).trans (by rw [if_pos rfl, hy]; rfl), hc⟩

theorem bumpVersion (h : After ctx n net t) (free : Free ctx n) :
    After ctx n net (t.bumpVersion n) :=
  ⟨h.sound.same rfl rfl rfl rfl rfl rfl rfl rfl,
    h.fits.touch free fun _ hk => ⟨rfl, Function.update_of_ne hk _ _, rfl, Iff.rfl⟩,
    h.calm.trans (.bumpVersion t List.mem_cons_self), h.clean⟩

end After

/-- Nothing that is clean depends on `n`. -/
def Lonely (net : Net V) (n : NodeId) : Prop :=
  ∀ m x, net.computed m = some x → x.state = .clean → ∀ e ∈ net.dependencies m, e.1 ≠ n

theorem giveBack_leave (untracked : ℕ) :
    (t.leave untracked).giveBack n = (t.giveBack n).leave untracked := by
  unfold Net.leave
  cases hs : t.stack with
  | nil => rw [show (t.giveBack n).stack = [] from hs]; rfl
  | cons o rest => rw [show (t.giveBack n).stack = o :: rest from hs]; rfl

theorem within_enter (hs : net.Sound) (hf : net.Fits ctx n) (idle : n ∉ net.stack)
    (hn : n ∉ ctx.map PullFrame.node) {x : NetComputed V} (hx : net.computed n = some x)
    (stale : x.state ≠ .clean) :
    Within (.computing n :: ctx) n net.nextNode ((net.setState n .clean).enter n) := by
  have free := hf.free hx stale hn
  have hcomp := @computed_setState V net n .clean
  refine ⟨hs.start (fun y hy => ?_) idle (hs.known n x hx), ⟨List.mem_cons_self,
    hf.touch free fun k hk => ⟨(hcomp k).trans (if_neg hk), rfl, Function.update_of_ne hk _ _,
      List.mem_cons.trans (or_iff_right hk)⟩⟩, rfl⟩
  rw [hx] at hy
  cases hy
  exact stale

/-- The compute of a stale node, under the borrow that a memo holds. -/
theorem wp_compute {depth : ℕ} (hr : Refreshes layout depth V) (hs : net.Sound)
    (hf : net.Fits ctx n) (idle : n ∉ net.stack) (hn : n ∉ ctx.map PullFrame.node)
    (room : Room ctx net.nextNode) (deep : 2 * net.nextNode < depth + 1 + ctx.length)
    {x : NetComputed V} (hx : net.computed n = some x) (stale : x.state ≠ .clean) (memo : Bool) :
    ((if memo then borrowing n else id) (runInContext n
      (exec layout (refreshing layout depth) (x.compute x.value)))).wp
        (fun _ t => After ctx n net t)
        (fun e t => After ctx n net t ∧ Lonely t n ∧ t.Explains e) False
        (net.setState n .clean) := by
  have free := hf.free hx stale hn
  have below := hs.known n x hx
  set a := net.setState n .clean with ha
  have hcomp := @computed_setState V net n .clean
  have hset : Calm [n] net a :=
    Calm.modifyComputed net (f := fun x => { x with state := .clean }) (fun _ => ⟨rfl, rfl⟩)
      List.mem_cons_self
  have room' : Room (.computing n :: ctx) net.nextNode := room.cons (.computing n) hn below
  -- what the run leaves, with the observer stack as it was
  have hback : ∀ t, t.Sound → t.Fits (.computing n :: ctx) n → Calm [] (a.enter n) t →
      After ctx n net (t.leave a.untracked) ∧ Lonely (t.leave a.untracked) n := by
    intro t ht hft hct
    have hstack : t.stack = n :: net.stack := hct.stack
    have hleave : (t.leave a.untracked).stack = net.stack := by
      unfold Net.leave
      rw [hstack]
    have hself : (a.enter n).computed n = some { x with state := .clean } := by
      change a.computed n = _
      rw [hcomp, if_pos rfl, hx]
      rfl
    have htn := (hct.clean n List.not_mem_nil _ hself rfl).1
    have hsame : (t.leave a.untracked).computed = t.computed ∧
        (t.leave a.untracked).dependencies = t.dependencies ∧
        (t.leave a.untracked).version = t.version := by
      unfold Net.leave
      rw [hstack]
      exact ⟨rfl, rfl, rfl⟩
    obtain ⟨e1, e2, e3⟩ := hsame
    refine ⟨⟨ht.leave _, ?_, ?_, _, e1 ▸ htn, rfl⟩, ?_⟩
    · refine hft.2.touch free fun k hk => ⟨by rw [e1], by rw [e3], by rw [e2], ?_⟩
      rw [hleave, hstack, List.mem_cons, or_iff_right hk]
    · exact hset.trans hct.context
    · intro m y hy hc e he hen
      rw [e1] at hy
      rw [e2] at he
      have := ht.settled m y hy hc e he
      rw [hen] at this
      exact (this _ htn).2 (hstack ▸ List.mem_cons_self)
  have hrun : Tame (.computing n :: ctx) n net.nextNode
      (exec layout (refreshing layout depth) (x.compute x.value)) :=
    Tame.exec hr (open_computing n ctx) room' (by rw [List.length_cons]; omega)
      (hs.readOnly n x hx x.value)
  have idle' : n ∉ a.activeComputations := by
    change n ∉ net.activeComputations
    rw [hs.running]
    exact idle
  have hin : Within (.computing n :: ctx) n net.nextNode (a.enter n) :=
    within_enter hs hf idle hn hx stale
  cases memo with
  | false =>
    change (runInContext n _).wp _ _ _ _
    rw [wp_runInContext idle']
    refine Act.wp_mono (hrun _ hin) (fun _ t ht => ?_) (fun _ t ht => ?_) id
    · exact (hback t ht.1.sound ht.1.fits ht.2).1
    · obtain ⟨h1, h2⟩ := hback t ht.1.sound ht.1.fits ht.2.1
      exact ⟨h1, h2, ht.2.2.leave _⟩
  | true =>
    change (borrowing n (runInContext n _)).wp _ _ _ _
    rw [wp_borrowing, wp_runInContext (by exact idle')]
    have hin' : Within (.computing n :: ctx) n net.nextNode ((a.enter n).borrow n) :=
      hin.same rfl rfl rfl rfl rfl rfl rfl rfl rfl
    have hgive : ∀ t, Within (.computing n :: ctx) n net.nextNode t →
        Calm [] ((a.enter n).borrow n) t →
        After ctx n net ((t.leave a.untracked).giveBack n) ∧
          Lonely ((t.leave a.untracked).giveBack n) n := by
      intro t ht hct
      have hg : Within (.computing n :: ctx) n net.nextNode (t.giveBack n) :=
        ht.same rfl rfl rfl rfl rfl rfl rfl rfl rfl
      rw [giveBack_leave]
      exact hback _ hg.sound hg.fits hct.borrowing
    refine Act.wp_mono (hrun _ hin') (fun _ t ht => ?_) (fun _ t ht => ?_) id
    · exact (hgive t ht.1 ht.2).1
    · obtain ⟨h1, h2⟩ := hgive t ht.1 ht.2.1
      exact ⟨h1, h2, ht.2.2.leave _⟩

section Nested

variable {depth : ℕ} (hr : Refreshes layout depth V) (hs : net.Sound) (hf : net.Fits ctx n)
  (idle : n ∉ net.stack) (hn : n ∉ ctx.map PullFrame.node) (room : Room ctx net.nextNode)
  (deep : 2 * net.nextNode < depth + 1 + ctx.length)

include hr hs hf idle hn room deep in
theorem wp_recompute {x : NetComputed V} (hx : net.computed n = some x)
    (stale : x.state ≠ .clean) : (recompute layout (refreshing layout depth) n).wp
      (fun _ t => Ends ctx n net t ∧ t.Settled n)
      (fun e t => Ends ctx n net t ∧ t.Explains e) False net := by
  have free := hf.free hx stale hn
  unfold recompute
  simp only [Act.wp_bind, Act.wp_get, hx, Act.wp_modify, Act.wp_onUnwind]
  refine Act.wp_mono (wp_compute hr hs hf idle hn room deep hx stale x.equals.isSome) ?_ ?_ id
  · intro v t ht
    unfold changed
    rw [Act.wp_bind, Act.wp_get]
    obtain ⟨y, hy, -⟩ := ht.clean
    rw [hy]
    -- what follows the comparison, whatever it said
    have store : ∀ changed : Bool, (replaceValue n v >>= fun _ =>
        if changed then Act.modify fun net => net.bumpVersion n else pure ()).wp
        (fun _ t => Ends ctx n net t ∧ t.Settled n)
        (fun e t => Ends ctx n net t ∧ t.Explains e) False t := by
      intro changed
      unfold replaceValue
      rw [Act.wp_bind, Act.wp_bind, Act.wp_get]
      split
      · exact ⟨(ht.ends hx stale idle).1, by simp [Explains]⟩
      · rw [Act.wp_modify]
        have hstored := ht.store free v
        cases changed with
        | true => exact (hstored.bumpVersion free).ends hx stale idle
        | false => exact hstored.ends hx stale idle
    have hstore := fun changed => by
      have := store changed
      rw [Act.wp_bind] at this
      exact this
    dsimp only
    split
    · split
      · exact hstore _
      · exact ⟨(ht.ends hx stale idle).1, by simp [Explains]⟩
    · exact hstore true
  · rintro e t ⟨ht, lonely, he⟩
    have hidle : n ∉ t.stack := ht.calm.stack ▸ idle
    have hcomp := @computed_setState V t n .dirty
    refine ⟨⟨ht.sound.stale hidle (by simp) (fun m y hy hc _ => lonely m y hy hc) (by simp),
      ht.fits.touch free fun k hk => ⟨(hcomp k).trans (if_neg hk), rfl, rfl, Iff.rfl⟩, ?_⟩, he⟩
    exact (ht.calm.trans (Calm.modifyComputed t (f := fun x => { x with state := .dirty })
      (fun _ => ⟨rfl, rfl⟩) List.mem_cons_self)).stale hx stale

end Nested

theorem wp_anyChanged {depth : ℕ} (hr : Refreshes layout depth V) {y : NodeId} (after : EdgeTable)
    (hn : y ∉ ctx.map PullFrame.node) {net : Net V} {before : EdgeTable} (hs : net.Sound)
    (hf : net.Fits ctx y) (idle : y ∉ net.stack)
    (check : ∃ x, net.computed y = some x ∧ x.state = .check)
    (hd : net.dependencies y = before ++ after) (hb : ∀ e ∈ before, net.Unchanged e)
    (room : Room ctx net.nextNode) (deep : 2 * net.nextNode < depth + 1 + ctx.length) :
    (anyChanged (refreshing layout depth) after).wp
      (fun changed t => Ends ctx y net t ∧ (∃ x, t.computed y = some x ∧ x.state = .check) ∧
        (changed = false → ∀ e ∈ t.dependencies y, t.Unchanged e))
      (fun e t => Ends ctx y net t ∧ t.Explains e) False net := by
  induction after generalizing net before with
  | nil =>
    rw [List.append_nil] at hd
    exact ⟨.refl hs hf, check, fun _ => hd ▸ hb⟩
  | cons e after ih =>
    obtain ⟨d, version⟩ := e
    obtain ⟨x, hx, hc⟩ := check
    have hfits : net.Fits (.verifying y before version after :: ctx) d :=
      ⟨idle, ⟨x, hx, hc⟩, hd, hb, hf⟩
    have room' : Room (.verifying y before version after :: ctx) net.nextNode :=
      room.cons (.verifying y before version after) hn (hs.known y x hx)
    unfold anyChanged
    rw [Act.wp_bind]
    refine Act.wp_mono (wp_refreshNode hr hs hfits room' (by rw [List.length_cons]; omega)) ?_ ?_ id
    · rintro _ t ⟨⟨ht, ⟨h1, h2, h3, h4, h5⟩, hcalm⟩, hset, -⟩
      rw [Act.wp_bind, Act.wp_get]
      have hends : Ends ctx y net t := ⟨ht, h5, hcalm⟩
      have hroom : Room ctx t.nextNode := hcalm.nextNode ▸ room
      have hdeep : 2 * t.nextNode < depth + 1 + ctx.length := by
        rw [hcalm.nextNode]
        exact deep
      by_cases hv : t.version d = version
      · rw [if_neg (fun hne => hne hv)]
        have hb' : ∀ e ∈ before ++ [(d, version)], t.Unchanged e := by
          intro e he
          rcases List.mem_append.mp he with he | he
          · exact h4 e he
          · rw [List.mem_singleton.mp he]
            exact ⟨hset, hv⟩
        refine Act.wp_mono (ih ht h5 h1 h2 (by simpa using h3) hb' hroom hdeep) ?_ ?_ id
        · rintro changed u ⟨hu, hrest⟩
          exact ⟨hends.trans hu, hrest⟩
        · rintro e u ⟨hu, he⟩
          exact ⟨hends.trans hu, he⟩
      · rw [if_pos hv]
        exact ⟨hends, h2, by simp⟩
    · rintro e t ⟨⟨ht, ⟨-, -, -, -, h5⟩, hcalm⟩, he⟩
      exact ⟨⟨ht, h5, hcalm⟩, he⟩

/-- Enough nested calls bring any node up to date or end in a panic. -/
theorem refreshes (layout : Layout) (depth : ℕ) (V : Type) : Refreshes layout depth V := by
  induction depth with
  | zero =>
    intro net ctx n _ _ _ _ room deep
    have := room.length_le
    omega
  | succ depth hr =>
    intro net ctx n hs hf idle hn room deep
    unfold refreshing refresh
    rw [Act.wp_bind, Act.wp_get]
    cases hx : net.computed n with
    | none => exact ⟨.refl hs hf, fun x h => by rw [hx] at h; cases h⟩
    | some x =>
      dsimp only
      cases hc : x.state with
      | clean =>
        refine ⟨.refl hs hf, fun y hy => ?_⟩
        rw [hx] at hy
        cases hy
        exact ⟨hc, idle⟩
      | dirty => exact wp_recompute hr hs hf idle hn room deep hx (by simp [hc])
      | check =>
        dsimp only
        unfold dependenciesChanged
        rw [Act.wp_bind, Act.wp_bind, Act.wp_get]
        refine Act.wp_mono (wp_anyChanged hr (net.dependencies n) hn hs hf idle
          ⟨x, hx, hc⟩ (List.nil_append _).symm (by simp) room deep) ?_ (fun _ _ h => h) id
        rintro changed t ⟨ht, ⟨y, hy, hyc⟩, hunchanged⟩
        have hidle : n ∉ t.stack := ht.calm.stack ▸ idle
        have hroom : Room ctx t.nextNode := ht.calm.nextNode ▸ room
        have hdeep : 2 * t.nextNode < depth + 1 + ctx.length := by
          rw [ht.calm.nextNode]
          exact deep
        cases changed with
        | true =>
          refine Act.wp_mono (wp_recompute hr ht.sound ht.fits hidle hn hroom hdeep hy
            (by simp [hyc])) ?_ ?_ id
          · exact fun _ u hu => ⟨ht.trans hu.1, hu.2⟩
          · exact fun _ u hu => ⟨ht.trans hu.1, hu.2⟩
        | false =>
          have free := ht.fits.free hy (by simp [hyc]) hn
          have hcomp := @computed_setState V t n .clean
          have hsound := ht.sound.verified hy (by simp [hyc])
            (fun e he => (hunchanged rfl e he).1) hidle
          have hafter : After ctx n t (t.setState n .clean) :=
            ⟨hsound, ht.fits.touch free fun k hk => ⟨(hcomp k).trans (if_neg hk), rfl, rfl, Iff.rfl⟩,
              Calm.modifyComputed t (f := fun x => { x with state := .clean })
                (fun _ => ⟨rfl, rfl⟩) List.mem_cons_self,
              { y with state := .clean }, (hcomp n).trans (by rw [if_pos rfl, hy]; rfl), rfl⟩
          obtain ⟨h1, h2⟩ := hafter.ends hy (by simp [hyc]) hidle
          exact ⟨ht.trans h1, h2⟩

end Pull

end Adaptite

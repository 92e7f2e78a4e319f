import Adaptite.Base.Acyclic
import Adaptite.Net

set_option autoImplicit false

namespace Adaptite

open Unwinding

/-- The error is the tail of the observer stack that starts at the node, and then
the node again. -/
def Raised.Tail {V : Type} (r : Raised V) : Prop :=
  ∃ before after, r.stack = before ++ r.node :: after ∧ r.node ∉ before ∧
    r.fault = .cycle (r.node :: after ++ [r.node])

namespace Net

variable {V : Type} {net t u : Net V} {layout : Layout}

/-- Up to date, or nothing that has to be brought up to date. -/
def Settled (net : Net V) (n : NodeId) : Prop :=
  ∀ x, net.computed n = some x → x.state = .clean ∧ n ∉ net.stack

def Fresh (net : Net V) (n : NodeId) : Prop := ∃ x, net.computed n = some x ∧ x.state ≠ .dirty

/-- The recorded dependencies among the nodes that are not dirty. -/
def Leads (net : Net V) (o d : NodeId) : Prop :=
  (∃ v, (d, v) ∈ net.dependencies o) ∧ net.Fresh o ∧ net.Fresh d

/-- What holds between two calls into the library, and at every call that is made
while computes run that do not write. -/
structure Sound (net : Net V) : Prop where
  running : net.activeComputations = net.stack
  nodup : net.stack.Nodup
  busy : ∀ z ∈ net.stack, z < net.nextNode ∧ ∀ x, net.computed z = some x → x.state = .clean
  inverse : ∀ o d, (∃ v, (d, v) ∈ net.dependencies o) ↔ o ∈ net.dependents d
  below : ∀ o, ∀ e ∈ net.dependencies o, o < net.nextNode ∧ e.1 < net.nextNode
  known : ∀ n x, net.computed n = some x → n < net.nextNode
  source : ∀ n s, net.signals n = some s → n < net.nextNode ∧ net.computed n = none
  settled : ∀ n x, net.computed n = some x → x.state = .clean →
    ∀ e ∈ net.dependencies n, net.Settled e.1
  acyclic : Relation.Acyclic net.Leads
  readOnly : ∀ n x, net.computed n = some x → ∀ p, (x.compute p).ReadOnly
  genuine : ∀ r ∈ net.raised, r.Tail

/-- A cycle error that leaves the library is one that `cycle_check` found. -/
def Explains (net : Net V) (e : Fault V) : Prop :=
  (∀ path, e = .cycle path → ∃ r ∈ net.raised, r.fault = .cycle path) ∧ ∀ n, e ≠ .unlisted n

theorem Explains.leave {net : Net V} {e : Fault V} (h : net.Explains e) (untracked : ℕ) :
    (net.leave untracked).Explains e := by
  unfold Net.leave
  split <;> exact h

/-- What is left alone by everything that runs inside a compute, the nodes of
`but` apart. -/
structure Calm (but : List NodeId) (net t : Net V) : Prop where
  stack : t.stack = net.stack
  active : t.activeComputations = net.activeComputations
  untracked : t.untracked = net.untracked
  nextNode : t.nextNode = net.nextNode
  signals : t.signals = net.signals
  effects : t.effects = net.effects
  jobs : t.pendingJobs = net.pendingJobs
  borrows : t.borrows = net.borrows
  code : ∀ n, (t.computed n).map (fun x => (x.compute, x.equals)) =
    (net.computed n).map fun x => (x.compute, x.equals)
  clean : ∀ n ∉ but, ∀ x, net.computed n = some x → x.state = .clean →
    t.computed n = some x ∧ t.version n = net.version n ∧
      (n ∉ net.stack → t.dependencies n = net.dependencies n)
  plain : ∀ n ∉ but, net.computed n = none → t.version n = net.version n

variable {l : List NodeId}

theorem Calm.refl (l : List NodeId) (net : Net V) : Calm l net net :=
  ⟨rfl, rfl, rfl, rfl, rfl, rfl, rfl, rfl, fun _ => rfl, fun _ _ _ h _ => ⟨h, rfl, fun _ => rfl⟩,
    fun _ _ _ => rfl⟩

theorem Calm.none (h : Calm l net t) {n : NodeId} (hn : net.computed n = none) :
    t.computed n = none := by
  have := h.code n
  rw [hn] at this
  exact Option.map_eq_none_iff.mp this

theorem Calm.some (h : Calm l net t) {n : NodeId} {x : NetComputed V}
    (hn : net.computed n = some x) :
    ∃ y, t.computed n = some y ∧ y.compute = x.compute ∧ y.equals = x.equals := by
  have := h.code n
  rw [hn, Option.map_some, Option.map_eq_some_iff] at this
  obtain ⟨y, hy, he⟩ := this
  exact ⟨y, hy, congrArg Prod.fst he, congrArg Prod.snd he⟩

theorem Calm.trans (h : Calm l net t) (h' : Calm l t u) : Calm l net u where
  stack := h'.stack.trans h.stack
  active := h'.active.trans h.active
  untracked := h'.untracked.trans h.untracked
  nextNode := h'.nextNode.trans h.nextNode
  signals := h'.signals.trans h.signals
  effects := h'.effects.trans h.effects
  jobs := h'.jobs.trans h.jobs
  borrows := h'.borrows.trans h.borrows
  code n := (h'.code n).trans (h.code n)
  clean n hn x hx hc := by
    obtain ⟨h1, h2, h3⟩ := h.clean n hn x hx hc
    obtain ⟨h4, h5, h6⟩ := h'.clean n hn x h1 hc
    exact ⟨h4, h5.trans h2, fun hs => (h6 (h.stack ▸ hs)).trans (h3 hs)⟩
  plain n hb hn := (h'.plain n hb (h.none hn)).trans (h.plain n hb hn)

theorem Calm.settled (h : Calm [] net t) {n : NodeId} (hs : net.Settled n) : t.Settled n := by
  intro x hx
  cases hn : net.computed n with
  | none => rw [h.none hn] at hx; cases hx
  | some y =>
    obtain ⟨hc, ho⟩ := hs y hn
    have := (h.clean n List.not_mem_nil y hn hc).1
    rw [hx] at this
    cases this
    exact ⟨hc, h.stack ▸ ho⟩

theorem Calm.stale {n : NodeId} (h : Calm [n] net t) {x : NetComputed V}
    (hx : net.computed n = Option.some x) (hs : x.state ≠ .clean) : Calm [] net t :=
  { h with
    clean := fun m _ y hy hc => by
      refine h.clean m ?_ y hy hc
      rw [List.mem_singleton]
      rintro rfl
      rw [hx] at hy
      cases hy
      exact hs hc
    plain := fun m _ hm => by
      refine h.plain m ?_ hm
      rw [List.mem_singleton]
      rintro rfl
      rw [hx] at hm
      cases hm }

theorem Sound.same (h : net.Sound) (h1 : t.activeComputations = net.activeComputations)
    (h2 : t.stack = net.stack) (h3 : t.nextNode = net.nextNode) (h4 : t.computed = net.computed)
    (h5 : t.dependencies = net.dependencies) (h6 : t.dependents = net.dependents)
    (h7 : t.signals = net.signals) (h8 : t.raised = net.raised) : t.Sound := by
  have hs : ∀ n, net.Settled n → t.Settled n := fun n hn x hx =>
    h2 ▸ hn x (h4 ▸ hx)
  have hl : t.Leads = net.Leads := by
    funext o d
    unfold Leads Fresh
    rw [h4, h5]
  exact {
    running := by rw [h1, h2, h.running]
    nodup := h2 ▸ h.nodup
    busy := by rw [h2, h3, h4]; exact h.busy
    inverse := by rw [h5, h6]; exact h.inverse
    below := by rw [h5, h3]; exact h.below
    known := by rw [h4, h3]; exact h.known
    source := by rw [h7, h4, h3]; exact h.source
    settled := by
      rw [h4, h5]
      exact fun n x hx hc e he => hs _ (h.settled n x hx hc e he)
    acyclic := hl ▸ h.acyclic
    readOnly := by rw [h4]; exact h.readOnly
    genuine := h8 ▸ h.genuine }

/-- The `expect` of `cycle_check` is not reached, and the path is what it says. -/
theorem Sound.cycleCheck (h : net.Sound) {n : NodeId} {fault : Fault V}
    (hc : net.cycleCheck n = some fault) : Raised.Tail ⟨net.stack.reverse, n, fault⟩ := by
  unfold Net.cycleCheck at hc
  split at hc
  · rename_i hn
    rw [h.running] at hn
    obtain ⟨before, after, hb, hs⟩ := List.eq_append_cons_of_mem (List.mem_reverse.mpr hn)
    have hfind : net.stack.reverse.findIdx? (fun m => m == n) = some before.length := by
      rw [hb, List.findIdx?_append, List.findIdx?_eq_none_iff.mpr, List.findIdx?_cons]
      · simp
      · intro m hm
        exact beq_false_of_ne fun he => hs (he ▸ hm)
    rw [hfind] at hc
    refine ⟨before, after, hb, hs, ?_⟩
    have : net.stack.reverse.drop before.length = n :: after := by rw [hb, List.drop_left']; rfl
    simp only [this, Option.some.injEq] at hc
    exact hc.symm
  · cases hc

theorem Sound.cycleCheck_eq_none (h : net.Sound) {n : NodeId} :
    net.cycleCheck n = none ↔ n ∉ net.stack := by
  rw [← h.running]
  unfold Net.cycleCheck
  by_cases hn : n ∈ net.activeComputations
  · rw [if_pos hn]
    split <;> simp [hn]
  · simp [hn]

theorem Sound.note (h : net.Sound) {n : NodeId} {fault : Fault V}
    (hc : net.cycleCheck n = some fault) : (net.note n fault).Sound :=
  { h with
    genuine := by
      intro r hr
      rcases List.mem_cons.mp hr with rfl | hr
      · exact h.cycleCheck hc
      · exact h.genuine r hr }

theorem Sound.explains (h : net.Sound) {n : NodeId} {fault : Fault V}
    (hc : net.cycleCheck n = some fault) : (net.note n fault).Explains fault := by
  obtain ⟨before, after, -, -, hf⟩ := h.cycleCheck hc
  refine ⟨fun path hp => ⟨_, List.mem_cons_self, hp⟩, fun m hm => ?_⟩
  rw [hm] at hf
  cases hf

theorem mem_insertEdge (o m : NodeId) (e : NodeId × ℕ) :
    e ∈ (net.insertEdge layout o m).dependencies o ↔
      e = (m, net.version m) ∨ e ∈ net.dependencies o ∧ e.1 ≠ m := by
  unfold insertEdge
  dsimp only
  rw [Function.update_self]
  split
  · rename_i hm
    rw [List.mem_map]
    constructor
    · rintro ⟨a, ha, rfl⟩
      by_cases h : a.1 = m
      · exact .inl (if_pos h)
      · rw [if_neg h]
        exact .inr ⟨ha, h⟩
    · rintro (rfl | ⟨he, hne⟩)
      · obtain ⟨a, ha, rfl⟩ := List.mem_map.mp hm
        exact ⟨a, ha, if_pos rfl⟩
      · exact ⟨e, he, if_neg hne⟩
  · rename_i hm
    rw [(layout.edges_perm _ _).mem_iff, List.mem_cons]
    refine or_congr_right ⟨fun he => ⟨he, ?_⟩, And.left⟩
    rintro rfl
    exact hm (List.mem_map_of_mem he)

theorem mem_insertDependent (m o x : NodeId) :
    x ∈ (net.insertDependent layout m o).dependents m ↔ x = o ∨ x ∈ net.dependents m := by
  unfold insertDependent
  dsimp only
  rw [Function.update_self]
  split
  · rename_i ho
    exact ⟨.inr, fun h => h.elim (fun hx => hx ▸ ho) id⟩
  · rw [(layout.nodes_perm _ _).mem_iff, List.mem_cons]

theorem recordEdge_eq (m : NodeId) : net.recordEdge layout m = net ∨
    ∃ o rest, net.stack = o :: rest ∧ net.untracked = 0 ∧
      net.recordEdge layout m = (net.insertEdge layout o m).insertDependent layout m o := by
  unfold recordEdge
  split
  · exact .inl rfl
  · rename_i hu
    split
    · exact .inl rfl
    · rename_i o rest hs
      exact .inr ⟨o, rest, hs, by omega, rfl⟩

theorem Sound.settled_of_reach (h : net.Sound) {m a : NodeId} (hm : net.Settled m)
    (hr : Relation.ReflTransGen net.Leads m a) :
    a = m ∨ ∃ x, net.computed a = some x ∧ net.Settled a := by
  induction hr with
  | refl => exact .inl rfl
  | @tail b c hb hl ih =>
    obtain ⟨⟨v, hv⟩, ⟨x, hx, _⟩, ⟨y, hy, _⟩⟩ := hl
    have hbs : net.Settled b := by
      rcases ih with rfl | ⟨_, _, hs⟩
      · exact hm
      · exact hs
    exact .inr ⟨y, hy, h.settled b x hx (hbs x hx).1 _ hv⟩

/-- A running observer reads a settled node: no path leads from there to what is
on the stack. -/
theorem Sound.recordEdge (h : net.Sound) {m : NodeId} (hm : net.Settled m)
    (idle : m ∉ net.stack) (below : m < net.nextNode) : (net.recordEdge layout m).Sound := by
  rcases @recordEdge_eq V net layout m with he | ⟨o, rest, hs, _, he⟩
  · rw [he]; exact h
  rw [he]
  set t := (net.insertEdge layout o m).insertDependent layout m o with ht
  have ho : o ∈ net.stack := hs ▸ List.mem_cons_self
  have hdeps : ∀ x, x ≠ o → t.dependencies x = net.dependencies x := fun x hx =>
    Function.update_of_ne hx _ _
  have hmem : ∀ e, e ∈ t.dependencies o ↔
      e = (m, net.version m) ∨ e ∈ net.dependencies o ∧ e.1 ≠ m := mem_insertEdge o m
  have hwatch : ∀ x, x ≠ m → t.dependents x = net.dependents x := fun x hx =>
    Function.update_of_ne hx _ _
  have hwatchers : ∀ x, x ∈ t.dependents m ↔ x = o ∨ x ∈ net.dependents m :=
    mem_insertDependent m o
  have hedge : ∀ x d v, (d, v) ∈ t.dependencies x →
      (x = o ∧ d = m) ∨ (d, v) ∈ net.dependencies x := by
    intro x d v hd
    by_cases hx : x = o
    · subst hx
      rcases (hmem _).mp hd with hdm | hd
      · exact .inl ⟨rfl, congrArg Prod.fst hdm⟩
      · exact .inr hd.1
    · rw [hdeps x hx] at hd
      exact .inr hd
  exact {
    running := h.running
    nodup := h.nodup
    busy := h.busy
    inverse := by
      intro x d
      by_cases hx : x = o
      · subst hx
        by_cases hd : d = m
        · subst hd
          exact ⟨fun _ => (hwatchers x).mpr (.inl rfl),
            fun _ => ⟨_, (hmem _).mpr (.inl rfl)⟩⟩
        · rw [hwatch d hd, ← h.inverse]
          refine exists_congr fun v => (hmem _).trans ⟨?_, fun hv => .inr ⟨hv, hd⟩⟩
          rintro (hv | hv)
          · exact absurd (congrArg Prod.fst hv) hd
          · exact hv.1
      · rw [hdeps x hx]
        by_cases hd : d = m
        · subst hd
          rw [h.inverse, hwatchers]
          exact ⟨.inr, fun hw => hw.resolve_left hx⟩
        · rw [hwatch d hd, h.inverse]
    below := by
      intro x e he
      rcases hedge x e.1 e.2 he with ⟨rfl, hd⟩ | he
      · exact ⟨(h.busy _ ho).1, hd ▸ below⟩
      · exact h.below x _ he
    known := h.known
    source := h.source
    settled := by
      intro n x hx hc e he
      rcases hedge n e.1 e.2 he with ⟨_, hd⟩ | he
      · rw [hd]; exact hm
      · exact h.settled n x hx hc _ he
    acyclic := by
      refine h.acyclic.add (x := o) (y := m) ?_ fun hback => ?_
      · rintro a b ⟨⟨v, hv⟩, ha, hb⟩
        rcases hedge a b v hv with hab | hv
        · exact .inr hab
        · exact .inl ⟨⟨v, hv⟩, ha, hb⟩
      · rcases h.settled_of_reach hm hback with hom | ⟨x, hx, hs⟩
        · exact idle (hom ▸ ho)
        · exact (hs x hx).2 ho
    readOnly := h.readOnly
    genuine := h.genuine }

section States

variable {n : NodeId} {x : NetComputed V} {state : State}

theorem computed_modifyComputed (f : NetComputed V → NetComputed V) (m : NodeId) :
    (net.modifyComputed n f).computed m =
      if m = n then (net.computed n).map f else net.computed m := by
  unfold modifyComputed
  by_cases h : m = n
  · rw [h, if_pos rfl]; exact Function.update_self _ _ _
  · rw [if_neg h]; exact Function.update_of_ne h _ _

theorem computed_setState (m : NodeId) : (net.setState n state).computed m =
    if m = n then (net.computed n).map fun x => { x with state } else net.computed m :=
  computed_modifyComputed _ m

theorem dependents_clear (m : NodeId) (a : NodeId) :
    a ∈ (net.clearDependencies n).dependents m ↔
      a ∈ net.dependents m ∧ ¬ (a = n ∧ m ∈ (net.dependencies n).map Prod.fst) := by
  unfold clearDependencies
  dsimp only
  by_cases hm : m ∈ (net.dependencies n).map Prod.fst
  · rw [if_pos hm, List.mem_filter, decide_eq_true_iff]
    exact and_congr_right fun _ => ⟨fun h ha => h ha.1, fun h ha => h ⟨ha, hm⟩⟩
  · rw [if_neg hm]
    exact ⟨fun h => ⟨h, fun ha => hm ha.2⟩, And.left⟩

/-- The start of a run of a node that is stale, or of an effect. -/
theorem Sound.start (h : net.Sound) (stale : ∀ x, net.computed n = some x → x.state ≠ .clean)
    (idle : n ∉ net.stack) (below : n < net.nextNode) :
    ((net.setState n .clean).enter n).Sound := by
  set t := (net.setState n .clean).enter n with ht
  have hcomp : ∀ m, t.computed m =
      if m = n then (net.computed n).map fun x => { x with state := .clean }
      else net.computed m := computed_setState
  have hsame : ∀ m, m ≠ n → t.computed m = net.computed m := fun m hm => by
    rw [hcomp, if_neg hm]
  have hdeps : ∀ m, m ≠ n → t.dependencies m = net.dependencies m := fun m hm =>
    Function.update_of_ne hm _ _
  have hnil : t.dependencies n = [] := Function.update_self _ _ _
  have hwatch : ∀ m a, a ∈ t.dependents m ↔
      a ∈ net.dependents m ∧ ¬ (a = n ∧ m ∈ (net.dependencies n).map Prod.fst) :=
    fun m a => dependents_clear m a
  have hstack : t.stack = n :: net.stack := rfl
  have hself : ∀ y, t.computed n = some y → ∃ x, net.computed n = some x ∧
      y = { x with state := .clean } := by
    intro y hy
    rw [hcomp, if_pos rfl, Option.map_eq_some_iff] at hy
    obtain ⟨x, hx, rfl⟩ := hy
    exact ⟨x, hx, rfl⟩
  have hsettled : ∀ m, net.Settled m → t.Settled m := by
    intro m hm y hy
    by_cases hmn : m = n
    · subst hmn
      obtain ⟨x, hx, -⟩ := hself y hy
      exact absurd (hm x hx).1 (stale x hx)
    · rw [hsame m hmn] at hy
      refine ⟨(hm y hy).1, ?_⟩
      rw [hstack, List.mem_cons, not_or]
      exact ⟨hmn, (hm y hy).2⟩
  exact {
    running := congrArg (List.cons n) h.running
    nodup := by rw [hstack, List.nodup_cons]; exact ⟨idle, h.nodup⟩
    busy := by
      intro z hz
      rw [hstack, List.mem_cons] at hz
      rcases hz with rfl | hz
      · refine ⟨below, fun y hy => ?_⟩
        obtain ⟨x, -, rfl⟩ := hself y hy
        rfl
      · have hzn : z ≠ n := fun he => idle (he ▸ hz)
        rw [hsame z hzn]
        exact h.busy z hz
    inverse := by
      intro o d
      rw [hwatch, ← h.inverse]
      by_cases ho : o = n
      · subst ho
        rw [hnil]
        constructor
        · rintro ⟨v, hv⟩; cases hv
        · rintro ⟨⟨v, hv⟩, hno⟩
          exact absurd ⟨rfl, List.mem_map_of_mem hv⟩ hno
      · rw [hdeps o ho]
        exact ⟨fun hv => ⟨hv, fun hc => ho hc.1⟩, And.left⟩
    below := by
      intro o e he
      by_cases ho : o = n
      · subst ho; rw [hnil] at he; cases he
      · rw [hdeps o ho] at he; exact h.below o e he
    known := by
      intro m y hy
      by_cases hmn : m = n
      · subst hmn; exact below
      · rw [hsame m hmn] at hy; exact h.known m y hy
    source := by
      intro m s hs
      obtain ⟨h1, h2⟩ := h.source m s hs
      refine ⟨h1, ?_⟩
      rw [hcomp]
      split
      · rename_i hmn; rw [← hmn, h2]; rfl
      · exact h2
    settled := by
      intro m y hy hc e he
      by_cases hmn : m = n
      · subst hmn; rw [hnil] at he; cases he
      · rw [hsame m hmn] at hy
        rw [hdeps m hmn] at he
        exact hsettled _ (h.settled m y hy hc e he)
    acyclic := by
      refine h.acyclic.sink (x := n) ?_ ?_
      · rintro a b ⟨⟨v, hv⟩, ⟨y, hy, hya⟩, ⟨z, hz, hzb⟩⟩
        by_cases hb : b = n
        · exact .inl hb
        · have ha : a ≠ n := by
            rintro rfl
            rw [hnil] at hv
            cases hv
          rw [hsame a ha] at hy
          rw [hsame b hb] at hz
          rw [hdeps a ha] at hv
          exact .inr ⟨⟨v, hv⟩, ⟨y, hy, hya⟩, ⟨z, hz, hzb⟩⟩
      · rintro b ⟨⟨v, hv⟩, -⟩
        rw [hnil] at hv
        cases hv
    readOnly := by
      intro m y hy
      by_cases hmn : m = n
      · subst hmn
        obtain ⟨x, hx, rfl⟩ := hself y hy
        exact h.readOnly m x hx
      · rw [hsame m hmn] at hy; exact h.readOnly m y hy
    genuine := h.genuine }

theorem Sound.leave (h : net.Sound) (untracked : ℕ) : (net.leave untracked).Sound := by
  unfold Net.leave
  split
  · exact h.same rfl rfl rfl rfl rfl rfl rfl rfl
  · rename_i z rest hs
    have hsettled : ∀ m, net.Settled m → ∀ x, net.computed m = some x →
        x.state = .clean ∧ m ∉ rest := fun m hm x hx =>
      ⟨(hm x hx).1, fun hr => (hm x hx).2 (hs ▸ List.mem_cons_of_mem z hr)⟩
    have hnd := h.nodup
    rw [hs, List.nodup_cons] at hnd
    exact {
      running := by
        change net.activeComputations.erase z = rest
        rw [h.running, hs, List.erase_cons_head]
      nodup := hnd.2
      busy := fun m hm => h.busy m (hs ▸ List.mem_cons_of_mem z hm)
      inverse := h.inverse
      below := h.below
      known := h.known
      source := h.source
      settled := fun m x hx hc e he => hsettled _ (h.settled m x hx hc e he)
      acyclic := h.acyclic
      readOnly := h.readOnly
      genuine := h.genuine }

theorem Sound.stale (h : net.Sound) (idle : n ∉ net.stack) (hs : state ≠ .clean)
    (lonely : ∀ m x, net.computed m = some x → x.state = .clean → m ≠ n →
      ∀ e ∈ net.dependencies m, e.1 ≠ n)
    (fresh : state ≠ .dirty → net.Fresh n) : (net.setState n state).Sound := by
  have hsame : ∀ m, m ≠ n → (net.setState n state).computed m = net.computed m := fun m hm => by
    rw [computed_setState, if_neg hm]
  have hself : ∀ y, (net.setState n state).computed n = some y → ∃ x, net.computed n = some x ∧
      y = { x with state } := by
    intro y hy
    rw [computed_setState, if_pos rfl, Option.map_eq_some_iff] at hy
    obtain ⟨x, hx, rfl⟩ := hy
    exact ⟨x, hx, rfl⟩
  have hfresh : ∀ m, (net.setState n state).Fresh m → net.Fresh m := by
    rintro m ⟨y, hy, hd⟩
    by_cases hmn : m = n
    · subst hmn
      obtain ⟨x, -, rfl⟩ := hself y hy
      exact fresh hd
    · rw [hsame m hmn] at hy
      exact ⟨y, hy, hd⟩
  exact {
    running := h.running
    nodup := h.nodup
    busy := by
      intro z hz
      have hzn : z ≠ n := fun he => idle (he ▸ hz)
      rw [hsame z hzn]
      exact h.busy z hz
    inverse := h.inverse
    below := h.below
    known := by
      intro m y hy
      by_cases hmn : m = n
      · subst hmn
        obtain ⟨x, hx, -⟩ := hself y hy
        exact h.known m x hx
      · rw [hsame m hmn] at hy; exact h.known m y hy
    source := by
      intro m s hm
      obtain ⟨h1, h2⟩ := h.source m s hm
      refine ⟨h1, ?_⟩
      rw [computed_setState]
      split
      · rename_i hmn; rw [← hmn, h2]; rfl
      · exact h2
    settled := by
      intro m y hy hc e he
      by_cases hmn : m = n
      · subst hmn
        obtain ⟨x, -, rfl⟩ := hself y hy
        exact absurd hc hs
      · rw [hsame m hmn] at hy
        intro z hz
        rw [hsame e.1 (lonely m y hy hc hmn e he)] at hz
        exact h.settled m y hy hc e he z hz
    acyclic := h.acyclic.mono fun a b hab => ⟨hab.1, hfresh a hab.2.1, hfresh b hab.2.2⟩
    readOnly := by
      intro m y hy
      by_cases hmn : m = n
      · subst hmn
        obtain ⟨x, hx, rfl⟩ := hself y hy
        exact h.readOnly m x hx
      · rw [hsame m hmn] at hy; exact h.readOnly m y hy
    genuine := h.genuine }

theorem Sound.code (h : net.Sound) {f : NetComputed V → NetComputed V}
    (hf : ∀ x, (f x).compute = x.compute ∧ (f x).state = x.state) :
    (net.modifyComputed n f).Sound := by
  have hcomp : ∀ m y, (net.modifyComputed n f).computed m = some y →
      ∃ x, net.computed m = some x ∧ y.compute = x.compute ∧ y.state = x.state := by
    intro m y hy
    rw [computed_modifyComputed] at hy
    by_cases hm : m = n
    · rw [if_pos hm, Option.map_eq_some_iff] at hy
      obtain ⟨x, hx, rfl⟩ := hy
      exact ⟨x, hm ▸ hx, hf x⟩
    · rw [if_neg hm] at hy
      exact ⟨y, hy, rfl, rfl⟩
  have hfresh : ∀ m, (net.modifyComputed n f).Fresh m → net.Fresh m := by
    rintro m ⟨y, hy, hd⟩
    obtain ⟨x, hx, -, hs⟩ := hcomp m y hy
    exact ⟨x, hx, hs ▸ hd⟩
  exact {
    running := h.running
    nodup := h.nodup
    busy := by
      intro z hz
      refine ⟨(h.busy z hz).1, fun y hy => ?_⟩
      obtain ⟨x, hx, -, hs⟩ := hcomp z y hy
      exact hs ▸ (h.busy z hz).2 x hx
    inverse := h.inverse
    below := h.below
    known := by
      intro m y hy
      obtain ⟨x, hx, -⟩ := hcomp m y hy
      exact h.known m x hx
    source := by
      intro m s hm
      obtain ⟨h1, h2⟩ := h.source m s hm
      refine ⟨h1, ?_⟩
      cases hy : (net.modifyComputed n f).computed m with
      | none => rfl
      | some y =>
        obtain ⟨x, hx, -⟩ := hcomp m y hy
        rw [h2] at hx
        cases hx
    settled := by
      intro m y hy hc e he z hz
      obtain ⟨x, hx, -, hs⟩ := hcomp m y hy
      obtain ⟨w, hw, -, hs'⟩ := hcomp e.1 z hz
      have := h.settled m x hx (hs ▸ hc) e he w hw
      exact ⟨hs' ▸ this.1, this.2⟩
    acyclic := h.acyclic.mono fun a b hab => ⟨hab.1, hfresh a hab.2.1, hfresh b hab.2.2⟩
    readOnly := by
      intro m y hy p
      obtain ⟨x, hx, hcode, -⟩ := hcomp m y hy
      rw [hcode]
      exact h.readOnly m x hx p
    genuine := h.genuine }

theorem Sound.verified (h : net.Sound) (hx : net.computed n = some x) (hs : x.state ≠ .dirty)
    (hd : ∀ e ∈ net.dependencies n, net.Settled e.1) (idle : n ∉ net.stack) :
    (net.setState n .clean).Sound := by
  have hcomp : ∀ m y, (net.setState n .clean).computed m = some y → ∃ x, net.computed m = some x ∧
      y.compute = x.compute ∧ ((m = n ∧ y.state = .clean) ∨ m ≠ n ∧ y = x) := by
    intro m y hy
    rw [computed_setState] at hy
    by_cases hm : m = n
    · rw [if_pos hm, Option.map_eq_some_iff] at hy
      obtain ⟨w, hw, rfl⟩ := hy
      exact ⟨w, hm ▸ hw, rfl, .inl ⟨hm, rfl⟩⟩
    · rw [if_neg hm] at hy
      exact ⟨y, hy, rfl, .inr ⟨hm, rfl⟩⟩
  have hfresh : ∀ m, (net.setState n .clean).Fresh m → net.Fresh m := by
    rintro m ⟨y, hy, hd⟩
    obtain ⟨w, hw, -, ⟨rfl, -⟩ | ⟨-, rfl⟩⟩ := hcomp m y hy
    · exact ⟨x, hx, hs⟩
    · exact ⟨_, hw, hd⟩
  have hsettled : ∀ m, net.Settled m → (net.setState n .clean).Settled m := by
    intro m hm y hy
    obtain ⟨w, hw, -, ⟨rfl, hc⟩ | ⟨-, rfl⟩⟩ := hcomp m y hy
    · exact ⟨hc, (hm w hw).2⟩
    · exact hm _ hw
  exact {
    running := h.running
    nodup := h.nodup
    busy := by
      intro z hz
      refine ⟨(h.busy z hz).1, fun y hy => ?_⟩
      obtain ⟨w, hw, -, ⟨rfl, hc⟩ | ⟨-, rfl⟩⟩ := hcomp z y hy
      · exact hc
      · exact (h.busy z hz).2 _ hw
    inverse := h.inverse
    below := h.below
    known := by
      intro m y hy
      obtain ⟨w, hw, -⟩ := hcomp m y hy
      exact h.known m w hw
    source := by
      intro m s hm
      obtain ⟨h1, h2⟩ := h.source m s hm
      refine ⟨h1, ?_⟩
      rw [computed_setState]
      split
      · rename_i hmn; rw [← hmn, h2]; rfl
      · exact h2
    settled := by
      intro m y hy hc e he
      obtain ⟨w, hw, -, ⟨rfl, -⟩ | ⟨-, rfl⟩⟩ := hcomp m y hy
      · exact hsettled _ (hd e he)
      · exact hsettled _ (h.settled m _ hw hc e he)
    acyclic := h.acyclic.mono fun a b hab => ⟨hab.1, hfresh a hab.2.1, hfresh b hab.2.2⟩
    readOnly := by
      intro m y hy p
      obtain ⟨w, hw, hcode, -⟩ := hcomp m y hy
      rw [hcode]
      exact h.readOnly m w hw p
    genuine := h.genuine }

end States

section Calm

variable {n : NodeId}

theorem Calm.modifyComputed (net : Net V) {f : NetComputed V → NetComputed V}
    (hf : ∀ x, (f x).compute = x.compute ∧ (f x).equals = x.equals) (hn : n ∈ l) :
    Calm l net (net.modifyComputed n f) where
  stack := rfl
  active := rfl
  untracked := rfl
  nextNode := rfl
  signals := rfl
  effects := rfl
  jobs := rfl
  borrows := rfl
  code m := by
    rw [computed_modifyComputed]
    by_cases hm : m = n
    · rw [if_pos hm, hm, Option.map_map]
      cases net.computed n with
      | none => rfl
      | some x => exact congrArg Option.some (Prod.ext (hf x).1 (hf x).2)
    · rw [if_neg hm]
  clean m hm x hx _ := by
    have hmn : m ≠ n := fun he => hm (he ▸ hn)
    refine ⟨?_, rfl, fun _ => rfl⟩
    rw [computed_modifyComputed, if_neg hmn, hx]
  plain m _ _ := rfl

theorem Calm.bumpVersion (net : Net V) (hn : n ∈ l) : Calm l net (net.bumpVersion n) :=
  { Calm.refl l net with
    clean := fun _ hm _ hx _ => ⟨hx, Function.update_of_ne (ne_of_mem_of_not_mem hn hm).symm _ _,
      fun _ => rfl⟩
    plain := fun _ hm _ => Function.update_of_ne (ne_of_mem_of_not_mem hn hm).symm _ _ }

theorem Calm.note (net : Net V) (fault : Fault V) : Calm l net (net.note n fault) :=
  { Calm.refl l net with }

theorem Calm.noteSeen (net : Net V) (v : V) : Calm l net (net.noteSeen n v) := by
  unfold Net.noteSeen
  split
  · exact Calm.refl l net
  · exact { Calm.refl l net with }

theorem Calm.recordEdge (net : Net V) (layout : Layout) (n : NodeId) :
    Calm l net (net.recordEdge layout n) := by
  rcases @recordEdge_eq V net layout n with he | ⟨o, rest, hs, _, he⟩
  · rw [he]; exact Calm.refl l net
  · rw [he]
    refine { Calm.refl l net with clean := fun m _ x hx _ => ⟨hx, rfl, fun hm => ?_⟩ }
    exact Function.update_of_ne (fun ho => hm (by rw [hs, ho]; exact List.mem_cons_self)) _ _

theorem Calm.untracking (h : Calm l { net with untracked := net.untracked + 1 } t) :
    Calm l net { t with untracked := t.untracked - 1 } :=
  { h with
    untracked := by
      change t.untracked - 1 = net.untracked
      rw [h.untracked]
      rfl }

theorem Calm.borrowing (h : Calm l (net.borrow n) t) : Calm l net (t.giveBack n) :=
  { h with
    borrows := by
      unfold giveBack
      dsimp only
      rw [h.borrows]
      unfold borrow
      dsimp only
      rw [Function.update_self, Function.update_idem, Nat.add_sub_cancel, Function.update_eq_self] }

theorem Calm.context (h : Calm [] (net.enter n) t) :
    Calm [n] net (t.leave net.untracked) := by
  have hs : t.stack = n :: net.stack := h.stack
  have ha : t.activeComputations = n :: net.activeComputations := h.active
  unfold Net.leave
  rw [hs]
  exact {
    stack := rfl
    active := by
      change t.activeComputations.erase n = _
      rw [ha, List.erase_cons_head]
    untracked := rfl
    nextNode := h.nextNode
    signals := h.signals
    effects := h.effects
    jobs := h.jobs
    borrows := h.borrows
    code := h.code
    clean := by
      intro m hm x hx hc
      rw [List.mem_singleton] at hm
      obtain ⟨h1, h2, h3⟩ := h.clean m List.not_mem_nil x hx hc
      refine ⟨h1, h2, fun hms => (h3 ?_).trans (Function.update_of_ne hm _ _)⟩
      change m ∉ n :: net.stack
      rw [List.mem_cons, not_or]
      exact ⟨hm, hms⟩
    plain := fun m _ hm => h.plain m List.not_mem_nil hm }

end Calm

end Net

end Adaptite

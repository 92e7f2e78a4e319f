import Adaptite.NetHost
import Adaptite.NetMarks

set_option autoImplicit false

namespace Adaptite

namespace Net

variable {V : Type} {net t u : Net V} {layout : Layout} {n m d o : NodeId} {x y : NetComputed V}

/-- The two halves of the edges agree, and every id is one that was given out. -/
structure Wired (net : Net V) : Prop where
  running : net.activeComputations = net.stack
  nodup : net.stack.Nodup
  busy : ∀ z ∈ net.stack, z < net.nextNode
  inverse : ∀ o d, (∃ v, (d, v) ∈ net.dependencies o) ↔ o ∈ net.dependents d
  below : ∀ o, ∀ e ∈ net.dependencies o, o < net.nextNode ∧ e.1 < net.nextNode
  known : ∀ n x, net.computed n = some x → n < net.nextNode
  source : ∀ n s, net.signals n = some s → n < net.nextNode ∧ net.computed n = none
  effect : ∀ e y, net.effects e = some y → e < net.nextNode ∧ net.computed e = none

/-- A recorded dependency is up to date, and has not changed since it was recorded. -/
def Current (net : Net V) (e : NodeId × ℕ) : Prop := net.version e.1 = e.2 ∧ net.Settled e.1

def Exact (net : Net V) : Prop :=
  ∀ n x, net.computed n = some x → x.state = .clean → ∀ e ∈ net.dependencies n, net.Current e

structure Alike (net t : Net V) : Prop where
  active : t.activeComputations = net.activeComputations
  stack : t.stack = net.stack
  nextNode : t.nextNode = net.nextNode
  dependencies : t.dependencies = net.dependencies
  dependents : t.dependents = net.dependents
  version : t.version = net.version
  computed : t.computed = net.computed
  signals : ∀ n, (t.signals n).isSome = (net.signals n).isSome
  effects : ∀ n, (t.effects n).isSome = (net.effects n).isSome

def isStale (net : Net V) (n : NodeId) : Bool := (net.computed n).any fun x => x.state ≠ .clean

theorem not_isStale (h : net.isStale n = false) (hx : net.computed n = some x) :
    x.state = .clean := by
  unfold isStale at h
  rw [hx] at h
  simpa using h

theorem Alike.refl (net : Net V) : net.Alike net :=
  ⟨rfl, rfl, rfl, rfl, rfl, rfl, rfl, fun _ => rfl, fun _ => rfl⟩

theorem Alike.trans (h : net.Alike t) (h' : t.Alike u) : net.Alike u :=
  ⟨h'.active.trans h.active, h'.stack.trans h.stack, h'.nextNode.trans h.nextNode,
    h'.dependencies.trans h.dependencies, h'.dependents.trans h.dependents,
    h'.version.trans h.version, h'.computed.trans h.computed,
    fun n => (h'.signals n).trans (h.signals n), fun n => (h'.effects n).trans (h.effects n)⟩

theorem exists_of_isSome {α : Type} {a b : Option α} {y : α} (h : b.isSome = a.isSome)
    (hb : b = some y) : ∃ x, a = some x := by
  rw [hb] at h
  exact Option.isSome_iff_exists.mp h.symm

theorem Wired.alike (h : net.Wired) (ha : net.Alike t) : t.Wired where
  running := by rw [ha.active, ha.stack, h.running]
  nodup := ha.stack ▸ h.nodup
  busy := by rw [ha.stack, ha.nextNode]; exact h.busy
  inverse := by rw [ha.dependencies, ha.dependents]; exact h.inverse
  below := by rw [ha.dependencies, ha.nextNode]; exact h.below
  known := by rw [ha.computed, ha.nextNode]; exact h.known
  source n s hs := by
    obtain ⟨s', hs'⟩ := exists_of_isSome (ha.signals n) hs
    rw [ha.computed, ha.nextNode]
    exact h.source n s' hs'
  effect e y hy := by
    obtain ⟨y', hy'⟩ := exists_of_isSome (ha.effects e) hy
    rw [ha.computed, ha.nextNode]
    exact h.effect e y' hy'

theorem Alike.settled (h : net.Alike t) : t.Settled n ↔ net.Settled n := by
  unfold Settled
  rw [h.computed, h.stack]

theorem Alike.current (h : net.Alike t) (e : NodeId × ℕ) : t.Current e ↔ net.Current e := by
  unfold Current
  rw [h.version, h.settled]

theorem Exact.alike (h : net.Exact) (ha : net.Alike t) : t.Exact := by
  intro n x hx hc e he
  rw [ha.computed] at hx
  rw [ha.dependencies] at he
  exact (ha.current e).mpr (h n x hx hc e he)

section Alike

theorem alike_borrow (net : Net V) (n : NodeId) : net.Alike (net.borrow n) :=
  ⟨rfl, rfl, rfl, rfl, rfl, rfl, rfl, fun _ => rfl, fun _ => rfl⟩

theorem alike_giveBack (net : Net V) (n : NodeId) : net.Alike (net.giveBack n) :=
  ⟨rfl, rfl, rfl, rfl, rfl, rfl, rfl, fun _ => rfl, fun _ => rfl⟩

theorem alike_occupy (net : Net V) (n : NodeId) (x : NetComputed V) :
    net.Alike (net.occupy n x) := by
  unfold occupy
  split
  · exact alike_borrow net n
  · exact .refl net

theorem alike_vacate (net : Net V) (n : NodeId) (x : NetComputed V) :
    net.Alike (net.vacate n x) := by
  unfold vacate
  split
  · exact alike_giveBack net n
  · exact .refl net

theorem alike_untracked (net : Net V) (untracked : ℕ) : net.Alike { net with untracked } :=
  ⟨rfl, rfl, rfl, rfl, rfl, rfl, rfl, fun _ => rfl, fun _ => rfl⟩

theorem alike_jobs (net : Net V) (pendingJobs : List NodeId) :
    net.Alike { net with pendingJobs } :=
  ⟨rfl, rfl, rfl, rfl, rfl, rfl, rfl, fun _ => rfl, fun _ => rfl⟩

theorem isSome_update {α : Type} (f : ℕ → Option α) (i n : ℕ) (g : α → α) :
    (Function.update f i ((f i).map g) n).isSome = (f n).isSome := by
  by_cases hn : n = i
  · rw [hn, Function.update_self, Option.isSome_map]
  · rw [Function.update_of_ne hn]

theorem alike_modifyEffect (net : Net V) (e : NodeId) (f : NetEffect V → NetEffect V) :
    net.Alike (net.modifyEffect e f) :=
  ⟨rfl, rfl, rfl, rfl, rfl, rfl, rfl, fun _ => rfl, fun n => isSome_update net.effects e n f⟩

theorem alike_setValue (net : Net V) (n : NodeId) (v : V) : net.Alike (net.setValue n v) :=
  ⟨rfl, rfl, rfl, rfl, rfl, rfl, rfl, fun m => isSome_update net.signals n m _, fun _ => rfl⟩

theorem alike_scheduleEffect (net : Net V) (e : NodeId) : net.Alike (net.scheduleEffect e) := by
  unfold scheduleEffect
  split
  · exact .refl net
  · split
    · exact .refl net
    · exact (alike_modifyEffect net e _).trans (alike_jobs _ _)

theorem alike_openFlush (net : Net V) : net.Alike net.openFlush :=
  ⟨rfl, rfl, rfl, rfl, rfl, rfl, rfl, fun _ => rfl, fun _ => rfl⟩

theorem alike_closeFlush (net : Net V) : net.Alike net.closeFlush :=
  ⟨rfl, rfl, rfl, rfl, rfl, rfl, rfl, fun _ => rfl, fun _ => rfl⟩

theorem alike_countRun (net : Net V) (e : NodeId) : net.Alike (net.countRun e) :=
  alike_modifyEffect net e _

end Alike

theorem cycleCheck_isSome (net : Net V) (n : NodeId) :
    (net.cycleCheck n).isSome = true ↔ n ∈ net.activeComputations := by
  unfold Net.cycleCheck
  by_cases hn : n ∈ net.activeComputations
  · rw [if_pos hn]
    split <;> exact ⟨fun _ => hn, fun _ => rfl⟩
  · rw [if_neg hn]
    exact ⟨fun h => absurd h Bool.false_ne_true, fun h => absurd h hn⟩

theorem Wired.idle (h : net.Wired) (hc : (net.cycleCheck n).isSome = false) : n ∉ net.stack := by
  rw [← h.running]
  intro hn
  rw [(cycleCheck_isSome net n).mpr hn] at hc
  cases hc

section Nodes

theorem Wired.newSignal (h : net.Wired) (v : V) (same : V → V → Bool) :
    (net.newSignal v same).Wired :=
  { h with
    busy := fun z hz => Nat.lt_succ_of_lt (h.busy z hz)
    below := fun o e he =>
      ⟨Nat.lt_succ_of_lt (h.below o e he).1, Nat.lt_succ_of_lt (h.below o e he).2⟩
    known := fun n x hx => Nat.lt_succ_of_lt (h.known n x hx)
    source := by
      intro n s hs
      by_cases hn : n = net.nextNode
      · refine ⟨hn ▸ Nat.lt_succ_self _, ?_⟩
        by_contra hc
        obtain ⟨x, hx⟩ := Option.ne_none_iff_exists'.mp hc
        exact absurd (h.known n x hx) (by rw [hn]; exact lt_irrefl _)
      · obtain ⟨h1, h2⟩ := h.source n s ((Function.update_of_ne hn _ _).symm.trans hs)
        exact ⟨Nat.lt_succ_of_lt h1, h2⟩
    effect := fun e y hy => ⟨Nat.lt_succ_of_lt (h.effect e y hy).1, (h.effect e y hy).2⟩ }

theorem Wired.newComputed (h : net.Wired) (compute : Option V → Script V)
    (equals : Option (Equals V)) : (net.newComputed compute equals).Wired := by
  have hother : ∀ n, n < net.nextNode →
      (net.newComputed compute equals).computed n = net.computed n := fun n hn =>
    Function.update_of_ne (Nat.ne_of_lt hn) _ _
  exact { h with
    busy := fun z hz => Nat.lt_succ_of_lt (h.busy z hz)
    below := fun o e he =>
      ⟨Nat.lt_succ_of_lt (h.below o e he).1, Nat.lt_succ_of_lt (h.below o e he).2⟩
    known := by
      intro n x hx
      by_cases hn : n = net.nextNode
      · exact hn ▸ Nat.lt_succ_self _
      · exact Nat.lt_succ_of_lt (h.known n x ((Function.update_of_ne hn _ _).symm.trans hx))
    source := by
      intro n s hs
      obtain ⟨h1, h2⟩ := h.source n s hs
      exact ⟨Nat.lt_succ_of_lt h1, (hother n h1).trans h2⟩
    effect := by
      intro e y hy
      obtain ⟨h1, h2⟩ := h.effect e y hy
      exact ⟨Nat.lt_succ_of_lt h1, (hother e h1).trans h2⟩ }

theorem Wired.addEffect (h : net.Wired) (y : NetEffect V) : Wired
    { net with
      nextNode := net.nextNode + 1
      effects := Function.update net.effects net.nextNode (some y) } :=
  { h with
    busy := fun z hz => Nat.lt_succ_of_lt (h.busy z hz)
    below := fun o e he =>
      ⟨Nat.lt_succ_of_lt (h.below o e he).1, Nat.lt_succ_of_lt (h.below o e he).2⟩
    known := fun n x hx => Nat.lt_succ_of_lt (h.known n x hx)
    source := fun n s hs => ⟨Nat.lt_succ_of_lt (h.source n s hs).1, (h.source n s hs).2⟩
    effect := by
      intro e z hz
      by_cases he : e = net.nextNode
      · refine ⟨he ▸ Nat.lt_succ_self _, ?_⟩
        by_contra hc
        obtain ⟨x, hx⟩ := Option.ne_none_iff_exists'.mp hc
        exact absurd (h.known e x hx) (by rw [he]; exact lt_irrefl _)
      · obtain ⟨h1, h2⟩ := h.effect e z ((Function.update_of_ne he _ _).symm.trans hz)
        exact ⟨Nat.lt_succ_of_lt h1, h2⟩ }

theorem Wired.newEffect (h : net.Wired) (body : Script V) : (net.newEffect body).Wired :=
  (h.addEffect { body }).alike (alike_scheduleEffect _ _)

/-- A node that has just been made is nobody's dependency, and has none. -/
theorem Exact.grown (h : net.Exact) (hw : net.Wired) (h1 : t.dependencies = net.dependencies)
    (h2 : t.stack = net.stack) (h3 : t.version = net.version)
    (h4 : ∀ n, n < net.nextNode → t.computed n = net.computed n) : t.Exact := by
  intro n x hx hc e he
  rw [h1] at he
  obtain ⟨hn, hd⟩ := hw.below n e he
  rw [h4 n hn] at hx
  obtain ⟨hv, hs⟩ := h n x hx hc e he
  refine ⟨by rw [h3, hv], fun z hz => ?_⟩
  rw [h4 e.1 hd] at hz
  rw [h2]
  exact hs z hz

theorem Exact.newComputed (h : net.Exact) (hw : net.Wired) (compute : Option V → Script V)
    (equals : Option (Equals V)) : (net.newComputed compute equals).Exact :=
  h.grown hw rfl rfl rfl fun _ hn => Function.update_of_ne (Nat.ne_of_lt hn) _ _

theorem Exact.newEffect (h : net.Exact) (body : Script V) : (net.newEffect body).Exact := by
  have hgrown : Exact
      { net with
        nextNode := net.nextNode + 1
        effects := Function.update net.effects net.nextNode (some { body }) } := h
  exact hgrown.alike (alike_scheduleEffect _ _)

end Nodes

/-- No clean node depends on `n`. -/
def Lonely (net : Net V) (n : NodeId) : Prop :=
  ∀ o y, net.computed o = some y → y.state = .clean → ∀ e ∈ net.dependencies o, e.1 ≠ n

/-- What is stale or running is not up to date for anybody. -/
theorem Exact.lonely (h : net.Exact) (hx : net.computed n = some x)
    (hn : x.state ≠ .clean ∨ n ∈ net.stack) : net.Lonely n := by
  rintro o y hy hc e he rfl
  obtain ⟨hclean, hidle⟩ := (h o y hy hc e he).2 x hx
  rcases hn with hn | hn
  · exact hn hclean
  · exact hidle hn

section States

theorem Wired.setState (h : net.Wired) (n : NodeId) (state : State) :
    (net.setState n state).Wired := by
  have hnone : ∀ m, net.computed m = none → (net.setState n state).computed m = none := by
    intro m hm
    rw [computed_setState]
    split
    · rename_i he; rw [← he, hm]; rfl
    · exact hm
  exact { h with
    known := by
      intro m y hy
      rw [computed_setState] at hy
      split at hy
      · rename_i he
        obtain ⟨z, hz, -⟩ := Option.map_eq_some_iff.mp hy
        exact he ▸ h.known n z hz
      · exact h.known m y hy
    source := fun m s hs => ⟨(h.source m s hs).1, hnone m (h.source m s hs).2⟩
    effect := fun m s hs => ⟨(h.effect m s hs).1, hnone m (h.effect m s hs).2⟩ }

/-- A node may be called up to date when its dependencies are. -/
theorem Exact.settle (h : net.Exact) (hn : ∀ e ∈ net.dependencies n, net.Current e) :
    (net.setState n .clean).Exact := by
  have hsettled : ∀ m, net.Settled m → (net.setState n .clean).Settled m := by
    intro m hm z hz
    rw [computed_setState] at hz
    split at hz
    · rename_i he
      obtain ⟨w, hw, rfl⟩ := Option.map_eq_some_iff.mp hz
      exact ⟨rfl, (hm w (he ▸ hw)).2⟩
    · exact hm z hz
  have hcurrent : ∀ e, net.Current e → (net.setState n .clean).Current e :=
    fun e he => ⟨he.1, hsettled e.1 he.2⟩
  intro m y hy hc e he
  rw [computed_setState] at hy
  split at hy
  · rename_i hm
    exact hcurrent e (hn e (hm ▸ he))
  · exact hcurrent e (h m y hy hc e he)

/-- A node that no clean node depends on may be called stale. -/
theorem Exact.spoil (h : net.Exact) (state : State) (hs : state ≠ .clean) (hn : net.Lonely n) :
    (net.setState n state).Exact := by
  intro m y hy hc e he
  have hm : m ≠ n := by
    rintro rfl
    rw [computed_setState, if_pos rfl] at hy
    obtain ⟨w, -, rfl⟩ := Option.map_eq_some_iff.mp hy
    exact hs hc
  rw [computed_setState, if_neg hm] at hy
  obtain ⟨hv, hset⟩ := h m y hy hc e he
  refine ⟨hv, fun z hz => ?_⟩
  rw [computed_setState] at hz
  split at hz
  · rename_i hen
    exact absurd hen (hn m y hy hc e he)
  · exact hset z hz

end States

section Contexts

theorem Wired.enter (h : net.Wired) (hn : n ∉ net.activeComputations) (below : n < net.nextNode) :
    (net.enter n).Wired := by
  have hdeps : ∀ m, m ≠ n → (net.enter n).dependencies m = net.dependencies m := fun m hm =>
    Function.update_of_ne hm _ _
  have hnil : (net.enter n).dependencies n = [] := Function.update_self _ _ _
  exact {
    running := congrArg (List.cons n) h.running
    nodup := List.nodup_cons.mpr ⟨h.running ▸ hn, h.nodup⟩
    busy := fun z hz => by
      rcases List.mem_cons.mp hz with rfl | hz
      · exact below
      · exact h.busy z hz
    inverse := by
      intro o d
      refine Iff.trans ?_ (dependents_clear (n := n) d o).symm
      rw [← h.inverse]
      by_cases ho : o = n
      · rw [ho, hnil]
        constructor
        · rintro ⟨v, hv⟩; cases hv
        · rintro ⟨⟨v, hv⟩, hno⟩
          exact absurd ⟨rfl, List.mem_map_of_mem hv⟩ hno
      · rw [hdeps o ho]
        exact ⟨fun hv => ⟨hv, fun hc => ho hc.1⟩, And.left⟩
    below := by
      intro o e he
      by_cases ho : o = n
      · rw [ho, hnil] at he; cases he
      · rw [hdeps o ho] at he; exact h.below o e he
    known := h.known
    source := h.source
    effect := h.effect }

theorem Exact.enter (h : net.Exact) (hn : net.Lonely n ∨ net.computed n = none) :
    (net.enter n).Exact := by
  intro m y hy hc e he
  by_cases hm : m = n
  · have hnil : (net.enter n).dependencies n = [] := Function.update_self _ _ _
    rw [hm, hnil] at he
    cases he
  · have hdeps : (net.enter n).dependencies m = net.dependencies m := Function.update_of_ne hm _ _
    rw [hdeps] at he
    obtain ⟨hv, hs⟩ := h m y hy hc e he
    refine ⟨hv, fun z hz => ⟨(hs z hz).1, fun hin => ?_⟩⟩
    rcases List.mem_cons.mp hin with hen | hin
    · rcases hn with hn | hn
      · exact hn m y hy hc e he hen
      · have hz : net.computed e.1 = some z := hz
        rw [hen, hn] at hz
        cases hz
    · exact (hs z hz).2 hin

theorem leave_eq (net : Net V) (untracked : ℕ) :
    (net.leave untracked).computed = net.computed ∧
      (net.leave untracked).dependencies = net.dependencies ∧
      (net.leave untracked).version = net.version ∧
      (net.leave untracked).signals = net.signals ∧
      (net.leave untracked).effects = net.effects ∧
      (net.leave untracked).nextNode = net.nextNode ∧
      (net.leave untracked).dependents = net.dependents ∧
      (net.leave untracked).stack = net.stack.tail := by
  unfold Net.leave
  split
  · rename_i hs
    exact ⟨rfl, rfl, rfl, rfl, rfl, rfl, rfl, by rw [hs]; rfl⟩
  · rename_i hs
    exact ⟨rfl, rfl, rfl, rfl, rfl, rfl, rfl, by rw [hs]; rfl⟩

theorem Wired.leave (h : net.Wired) (untracked : ℕ) : (net.leave untracked).Wired := by
  unfold Net.leave
  split
  · exact h.alike (alike_untracked net untracked)
  · rename_i z rest hs
    have hnd := h.nodup
    rw [hs, List.nodup_cons] at hnd
    exact { h with
      running := by
        change net.activeComputations.erase z = rest
        rw [h.running, hs, List.erase_cons_head]
      nodup := hnd.2
      busy := fun m hm => h.busy m (hs ▸ List.mem_cons_of_mem z hm) }

theorem Settled.leave (h : net.Settled n) (untracked : ℕ) : (net.leave untracked).Settled n := by
  obtain ⟨h1, -, -, -, -, -, -, h8⟩ := leave_eq net untracked
  intro z hz
  rw [h1] at hz
  rw [h8]
  exact ⟨(h z hz).1, fun hin => (h z hz).2 (List.mem_of_mem_tail hin)⟩

theorem Exact.leave (h : net.Exact) (untracked : ℕ) : (net.leave untracked).Exact := by
  obtain ⟨h1, h2, h3, -⟩ := leave_eq net untracked
  intro m y hy hc e he
  rw [h1] at hy
  rw [h2] at he
  obtain ⟨hv, hs⟩ := h m y hy hc e he
  exact ⟨by rw [h3, hv], hs.leave untracked⟩

end Contexts

section Values

theorem Wired.modifyComputed (h : net.Wired) (n : NodeId)
    (f : NetComputed V → NetComputed V) : (net.modifyComputed n f).Wired := by
  have hnone : ∀ m, net.computed m = none → (net.modifyComputed n f).computed m = none := by
    intro m hm
    rw [computed_modifyComputed]
    split
    · rename_i he; rw [← he, hm]; rfl
    · exact hm
  exact { h with
    known := by
      intro m y hy
      rw [computed_modifyComputed] at hy
      split at hy
      · rename_i he
        obtain ⟨z, hz, -⟩ := Option.map_eq_some_iff.mp hy
        exact he ▸ h.known n z hz
      · exact h.known m y hy
    source := fun m s hs => ⟨(h.source m s hs).1, hnone m (h.source m s hs).2⟩
    effect := fun m s hs => ⟨(h.effect m s hs).1, hnone m (h.effect m s hs).2⟩ }

theorem Wired.bumpVersion (h : net.Wired) (n : NodeId) : (net.bumpVersion n).Wired :=
  { h with }

theorem Wired.accept (h : net.Wired) (n : NodeId) (v : V) (changed : Bool) :
    (net.accept n v changed).Wired := by
  unfold Net.accept
  split
  · exact (h.modifyComputed n _).bumpVersion n
  · exact h.modifyComputed n _

theorem state_store {m : NodeId} {v : V} (hy : (net.store n v).computed m = some y) :
    ∃ z, net.computed m = some z ∧ z.state = y.state := by
  unfold Net.store at hy
  rw [computed_modifyComputed] at hy
  split at hy
  · rename_i he
    obtain ⟨z, hz, rfl⟩ := Option.map_eq_some_iff.mp hy
    exact ⟨z, he ▸ hz, rfl⟩
  · exact ⟨y, hy, rfl⟩

theorem Exact.store (h : net.Exact) (n : NodeId) (v : V) : (net.store n v).Exact := by
  intro m y hy hc e he
  obtain ⟨z, hz, hs⟩ := state_store hy
  obtain ⟨hv, hset⟩ := h m z hz (hs.trans hc) e he
  refine ⟨hv, fun w hw => ?_⟩
  obtain ⟨w', hw', hs'⟩ := state_store hw
  exact ⟨hs' ▸ (hset w' hw').1, (hset w' hw').2⟩

theorem Lonely.store (h : net.Lonely n) (m : NodeId) (v : V) : (net.store m v).Lonely n := by
  intro o y hy hc e he
  obtain ⟨z, hz, hs⟩ := state_store hy
  exact h o z hz (hs.trans hc) e he

theorem Exact.bumpVersion (h : net.Exact) (hn : net.Lonely n) : (net.bumpVersion n).Exact := by
  intro m y hy hc e he
  obtain ⟨hv, hs⟩ := h m y hy hc e he
  exact ⟨(Function.update_of_ne (hn m y hy hc e he) _ _).trans hv, hs⟩

theorem Exact.accept (h : net.Exact) (hn : net.Lonely n) (v : V) (changed : Bool) :
    (net.accept n v changed).Exact := by
  unfold Net.accept
  split
  · exact (h.store n v).bumpVersion (hn.store n v)
  · exact h.store n v

theorem Lonely.alike (h : net.Lonely n) (ha : net.Alike t) : t.Lonely n := by
  intro o y hy hc e he
  rw [ha.computed] at hy
  rw [ha.dependencies] at he
  exact h o y hy hc e he

theorem Lonely.leave (h : net.Lonely n) (untracked : ℕ) : (net.leave untracked).Lonely n := by
  obtain ⟨h1, h2, -⟩ := leave_eq net untracked
  intro o y hy hc e he
  rw [h1] at hy
  rw [h2] at he
  exact h o y hy hc e he

end Values

section Edges

theorem Wired.recordEdge (h : net.Wired) (below : m < net.nextNode) :
    (net.recordEdge layout m).Wired := by
  rcases @recordEdge_eq V net layout m with he | ⟨o, rest, hs, _, he⟩
  · rw [he]; exact h
  rw [he]
  set t := (net.insertEdge layout o m).insertDependent layout m o with ht
  have ho : o ∈ net.stack := hs ▸ List.mem_cons_self
  have hdeps : ∀ x, x ≠ o → t.dependencies x = net.dependencies x := fun x hx =>
    Function.update_of_ne hx _ _
  have hmem : ∀ e, e ∈ t.dependencies o ↔
      e = (m, net.version m) ∨ e ∈ net.dependencies o ∧ e.1 ≠ m := mem_insertEdge o m
  have hwatch : ∀ x, x ≠ m → t.dependents x = net.dependents x := fun x hx =>
    Function.update_of_ne hx _ _
  have hwatchers : ∀ x, x ∈ t.dependents m ↔ x = o ∨ x ∈ net.dependents m :=
    mem_insertDependent m o
  exact { h with
    inverse := by
      intro x d
      by_cases hx : x = o
      · subst hx
        by_cases hd : d = m
        · subst hd
          exact ⟨fun _ => (hwatchers x).mpr (.inl rfl),
            fun _ => ⟨_, (hmem _).mpr (.inl rfl)⟩⟩
        · rw [hwatch d hd, ← h.inverse]
          refine exists_congr fun v => (hmem _).trans ⟨?_, fun hv => .inr ⟨hv, hd⟩⟩
          rintro (hv | hv)
          · exact absurd (congrArg Prod.fst hv) hd
          · exact hv.1
      · rw [hdeps x hx]
        by_cases hd : d = m
        · subst hd
          rw [h.inverse, hwatchers]
          exact ⟨.inr, fun hw => hw.resolve_left hx⟩
        · rw [hwatch d hd, h.inverse]
    below := by
      intro x e he
      by_cases hx : x = o
      · subst hx
        rcases (hmem e).mp he with rfl | ⟨he, -⟩
        · exact ⟨h.busy _ ho, below⟩
        · exact h.below x e he
      · rw [hdeps x hx] at he
        exact h.below x e he }

/-- The edges of the innermost observer after a read, and of everybody else. -/
theorem mem_recordEdge {e : NodeId × ℕ} (he : e ∈ (net.recordEdge layout m).dependencies o) :
    e ∈ net.dependencies o ∨ net.stack.head? = some o ∧ net.untracked = 0 ∧
      e = (m, net.version m) := by
  rcases @recordEdge_eq V net layout m with hr | ⟨z, rest, hs, hu, hr⟩
  · rw [hr] at he
    exact .inl he
  · rw [hr] at he
    by_cases hz : o = z
    · subst hz
      have he : e ∈ (net.insertEdge layout o m).dependencies o := he
      rcases (mem_insertEdge o m e).mp he with rfl | ⟨he, -⟩
      · exact .inr ⟨by rw [hs]; rfl, hu, rfl⟩
      · exact .inl he
    · have hsame : ((net.insertEdge layout z m).insertDependent layout m z).dependencies o =
          net.dependencies o := Function.update_of_ne hz _ _
      rw [hsame] at he
      exact .inl he

theorem recordEdge_same (net : Net V) (layout : Layout) (m : NodeId) :
    (net.recordEdge layout m).computed = net.computed ∧
      (net.recordEdge layout m).version = net.version ∧
      (net.recordEdge layout m).stack = net.stack ∧
      (net.recordEdge layout m).signals = net.signals ∧
      (net.recordEdge layout m).effects = net.effects ∧
      (net.recordEdge layout m).nextNode = net.nextNode := by
  rcases @recordEdge_eq V net layout m with hr | ⟨z, rest, hs, hu, hr⟩ <;> rw [hr] <;>
    exact ⟨rfl, rfl, rfl, rfl, rfl, rfl⟩

/-- The innermost observer, where it is a clean thunk or memo, records what is settled. -/
theorem Exact.recordEdge (h : net.Exact)
    (hm : net.untracked = 0 → ∀ o y, net.stack.head? = some o → net.computed o = some y →
      y.state = .clean → net.Settled m) : (net.recordEdge layout m).Exact := by
  obtain ⟨h1, h2, h3, -⟩ := recordEdge_same net layout m
  intro o y hy hc e he
  rw [h1] at hy
  have hcurrent : net.Current e := by
    rcases mem_recordEdge he with he | ⟨ho, hu, rfl⟩
    · exact h o y hy hc e he
    · exact ⟨rfl, hm hu o y ho hy hc⟩
  refine ⟨by rw [h2]; exact hcurrent.1, fun z hz => ?_⟩
  rw [h1] at hz
  rw [h3]
  exact hcurrent.2 z hz

end Edges

section Marks

theorem Wired.marked (h : net.Wired) (hm : net.Marked t)
    (he : ∀ e, (t.effects e).isSome = (net.effects e).isSome) : t.Wired := by
  have hf := hm.frame
  have hnext := hm.nextNode
  have hnone : ∀ n, net.computed n = none → t.computed n = none := fun n hn =>
    rel_none (hn ▸ hm.computed n)
  have hsig : t.signals = net.signals := by rw [hf]
  exact {
    running := by rw [hf]; exact h.running
    nodup := by rw [hf]; exact h.nodup
    busy := by rw [hf]; exact h.busy
    inverse := by rw [hf]; exact h.inverse
    below := by rw [hf]; exact h.below
    known := by
      intro n y hy
      obtain ⟨x, hx, -⟩ := rel_right (hy ▸ hm.computed n)
      exact hnext ▸ h.known n x hx
    source := by
      rw [hsig, hnext]
      exact fun n s hs => ⟨(h.source n s hs).1, hnone n (h.source n s hs).2⟩
    effect := by
      intro e y hy
      obtain ⟨y', hy'⟩ := exists_of_isSome (he e) hy
      obtain ⟨h1, h2⟩ := h.effect e y' hy'
      exact ⟨hnext ▸ h1, hnone e h2⟩ }

theorem seals_trigger (net : Net V) (n : NodeId)
    (known : ∀ m x, net.computed m = some x → m < net.nextNode) :
    (net.bumpVersion n).Sealing (net.trigger n) ∧ (net.trigger n).Sealed n := by
  refine seals (net.nextNode + 1) V .dirty (net.bumpVersion n) n ?_ known
  have := cleanCount_le (net.bumpVersion n)
  exact Nat.lt_succ_of_le this

/-- What stays clean through a write does not depend on what the write turned stale, nor on
the source that was written. -/
theorem Exact.trigger (h : net.Exact) (hw : net.Wired) (n : NodeId) : (net.trigger n).Exact := by
  obtain ⟨hs, hsealed⟩ := seals_trigger net n hw.known
  have hm : (net.bumpVersion n).Marked (net.trigger n) := hs.toMarked
  have hf := hm.frame
  intro m y hy hc e he
  obtain ⟨x, hx, hxy⟩ := rel_right (hy ▸ hm.computed m)
  have hclean : x.state = .clean := by
    by_contra hns
    exact hxy.stale hns hc
  have hdeps : (net.trigger n).dependencies = net.dependencies := by rw [hf]; rfl
  have hwatch : (net.trigger n).dependents = net.dependents := by rw [hf]; rfl
  have hversion : (net.trigger n).version = (net.bumpVersion n).version := by rw [hf]
  have hstack : (net.trigger n).stack = net.stack := by rw [hf]; rfl
  rw [hdeps] at he
  have hmem : m ∈ (net.trigger n).dependents e.1 := by
    rw [hwatch]
    exact (hw.inverse m e.1).mp ⟨e.2, he⟩
  obtain ⟨hv, hset⟩ := h m x hx hclean e he
  refine ⟨?_, fun z hz => ?_⟩
  · rw [hversion]
    refine (Function.update_of_ne ?_ _ _).trans hv
    intro hen
    rw [hen] at hmem
    exact hsealed m hmem y hy hc
  · obtain ⟨w, hw', hwz⟩ := rel_right (hz ▸ hm.computed e.1)
    obtain ⟨h1, h2⟩ := hset w hw'
    rw [hstack]
    refine ⟨?_, h2⟩
    by_contra hzs
    refine hs.turned e.1 (isClean_iff.mpr ⟨w, hw', h1⟩) ?_ m hmem y hy hc
    refine Bool.eq_false_iff.mpr fun ht => ?_
    obtain ⟨z', hz', hc'⟩ := isClean_iff.mp ht
    rw [hz] at hz'
    cases hz'
    exact hzs hc'

theorem markDependents_keeps {P : Net V → Prop}
    (state : ∀ net n state, P net → P (net.setState n state))
    (effect : ∀ net e mark, P net → P (net.markEffect e mark)) (levels : ℕ) (mark : Mark)
    (net : Net V) (n : NodeId) (h : P net) : P (markDependents levels mark net n) := by
  induction levels generalizing mark net n with
  | zero => exact h
  | succ levels ih =>
    unfold markDependents
    generalize net.dependents n = l
    induction l generalizing net with
    | nil => exact h
    | cons d l hl =>
      refine hl _ ?_
      unfold deliverMark
      split
      · unfold markComputed
        split
        · split
          · exact ih .check _ d (state _ d _ h)
          · exact state _ d _ h
        · exact h
      · exact effect _ d mark h

theorem map_markDependents {g : Net V → Net V}
    (dependents : ∀ net, (g net).dependents = net.dependents)
    (computed : ∀ net, (g net).computed = net.computed)
    (state : ∀ net n state, g (net.setState n state) = (g net).setState n state)
    (effect : ∀ net e mark, g (net.markEffect e mark) = (g net).markEffect e mark) (levels : ℕ)
    (mark : Mark) (net : Net V) (n : NodeId) :
    g (markDependents levels mark net n) = markDependents levels mark (g net) n := by
  induction levels generalizing mark net n with
  | zero => rfl
  | succ levels ih =>
    have hone : ∀ (t : Net V) (d : NodeId),
        g (deliverMark (markDependents levels .check) mark t d) =
          deliverMark (markDependents levels .check) mark (g t) d := by
      intro t d
      unfold deliverMark
      rw [computed]
      split
      · unfold markComputed
        split
        · split
          · rw [ih, state]
          · exact state t d _
        · rfl
      · exact effect t d mark
    have hall : ∀ (l : List NodeId) (t : Net V),
        g (l.foldl (deliverMark (markDependents levels .check) mark) t) =
          l.foldl (deliverMark (markDependents levels .check) mark) (g t) := by
      intro l
      induction l with
      | nil => exact fun _ => rfl
      | cons d l ihl =>
        intro t
        rw [List.foldl_cons, List.foldl_cons, ihl, hone]
    unfold markDependents
    rw [dependents]
    exact hall (net.dependents n) net

/-- An effect keeps its mark and its pending run, and gets a run with a mark only. -/
structure Roused (x y : NetEffect V) : Prop where
  scheduled : x.scheduled = true → y.scheduled = true
  stale : x.state ≠ .clean → y.state ≠ .clean
  marked : y.scheduled = true → x.scheduled = true ∨ y.state ≠ .clean

theorem Roused.refl (x : NetEffect V) : Roused x x := ⟨id, id, .inl⟩

theorem Roused.trans {x y z : NetEffect V} (h : Roused x y) (h' : Roused y z) : Roused x z :=
  ⟨h'.scheduled ∘ h.scheduled, h'.stale ∘ h.stale, fun hz =>
    (h'.marked hz).elim (fun hy => (h.marked hy).imp_right h'.stale) .inr⟩

/-- A computation that may be pending stays so, and whatever turned stale has alerted the
effects that depend on it. -/
structure Alerting (net t : Net V) : Prop extends net.Marked t where
  effects : ∀ e, Option.Rel Roused (net.effects e) (t.effects e)
  alerted : ∀ d, net.isClean d = true → t.isClean d = false →
    ∀ o ∈ t.dependents d, ∀ y, t.effects o = some y → y.scheduled = true

theorem Alerting.refl (net : Net V) : net.Alerting net :=
  ⟨.refl net, fun _ => rel_refl Roused.refl _, fun d h h' => by rw [h] at h'; cases h'⟩

theorem Alerting.trans (h : net.Alerting t) (h' : t.Alerting u) : net.Alerting u := by
  refine ⟨h.toMarked.trans h'.toMarked, fun e => ?_, fun d hd hu o ho y hy => ?_⟩
  · exact rel_trans (R := Roused) (fun _ _ _ => Roused.trans) (h.effects e) (h'.effects e)
  · cases ht : t.isClean d with
    | true => exact h'.alerted d ht hu o ho y hy
    | false =>
      obtain ⟨x, hx, hxy⟩ := rel_right (hy ▸ h'.effects o)
      have ho' : o ∈ t.dependents d := by
        rw [h'.toMarked.frame] at ho
        exact ho
      exact hxy.scheduled (h.alerted d hd ht o ho' x hx)

theorem Alerting.known (h : net.Alerting t) (hk : ∀ e y, net.effects e = some y →
    net.computed e = none) : ∀ e y, t.effects e = some y → t.computed e = none := by
  intro e y hy
  obtain ⟨x, hx, -⟩ := rel_right (hy ▸ h.effects e)
  exact rel_none (hk e x hx ▸ h.toMarked.computed e)

theorem markEffect_alerts (net : Net V) (e : NodeId) (mark : Mark) :
    net.Alerting (net.markEffect e mark) ∧
      ∀ y, (net.markEffect e mark).effects e = some y → y.scheduled = true := by
  have hm := Marked.markEffect net e mark
  have hsame : (net.markEffect e mark).computed = net.computed := by
    unfold Net.markEffect
    split
    · rfl
    · dsimp only
      split <;> rfl
  have heff : (net.markEffect e mark).effects = Function.update net.effects e
      ((net.effects e).map fun x => { x with state := x.state.raise mark, scheduled := true }) := by
    unfold Net.markEffect
    cases hx : net.effects e with
    | none =>
      dsimp only
      rw [Option.map_none, ← hx, Function.update_eq_self]
    | some x =>
      dsimp only
      split <;> (unfold modifyEffect; dsimp only; rw [hx])
  refine ⟨⟨hm, fun i => ?_, fun d hd ht => ?_⟩, fun y hy => ?_⟩
  · rw [heff]
    by_cases hi : i = e
    · rw [hi, Function.update_self]
      cases net.effects e with
      | none => exact .none
      | some x =>
        have hs : x.state.raise mark ≠ .clean :=
          (State.rank_pos_iff _).mp (mark.rank_pos.trans_le (x.state.mark_le_raise mark))
        exact .some ⟨fun _ => rfl, fun _ => hs, fun _ => .inr hs⟩
    · rw [Function.update_of_ne hi]
      exact rel_refl Roused.refl _
  · unfold Net.isClean at hd ht
    rw [hsame, hd] at ht
    cases ht
  · rw [heff, Function.update_self] at hy
    obtain ⟨x, -, rfl⟩ := Option.map_eq_some_iff.mp hy
    rfl

theorem setState_alerts {state : State} (hx : net.computed n = some x)
    (le : x.state.rank ≤ state.rank) (hc : x.state ≠ .clean) :
    net.Alerting (net.setState n state) := by
  refine ⟨.setState hx le, fun _ => rel_refl Roused.refl _, fun d hd ht => ?_⟩
  unfold Net.isClean at hd ht
  rw [computed_setState] at ht
  by_cases hdn : d = n
  · rw [hdn, hx] at hd
    exact absurd (of_decide_eq_true hd) hc
  · rw [if_neg hdn, hd] at ht
    cases ht

/-- Marking what depends on `n`, within so many levels. -/
def Alerts (levels : ℕ) (V : Type) : Prop :=
  ∀ (mark : Mark) (net : Net V) (n : NodeId), net.cleanCount < levels →
    (∀ m x, net.computed m = some x → m < net.nextNode) →
      (∀ e y, net.effects e = some y → net.computed e = none) →
      net.Alerting (markDependents levels mark net n) ∧
        ∀ o ∈ net.dependents n, ∀ y, (markDependents levels mark net n).effects o = some y →
          y.scheduled = true

theorem Alerting.deliverMark {levels : ℕ} (hl : Alerts levels V)
    (hc : net.cleanCount < levels + 1)
    (known : ∀ m x, net.computed m = some x → m < net.nextNode)
    (plain : ∀ e y, net.effects e = some y → net.computed e = none) (mark : Mark) (d : NodeId) :
    net.Alerting (deliverMark (markDependents levels .check) mark net d) ∧
      ∀ y, (deliverMark (markDependents levels .check) mark net d).effects d = some y →
        y.scheduled = true := by
  unfold Net.deliverMark
  cases hx : net.computed d with
  | none => exact markEffect_alerts net d mark
  | some x =>
    have hnone : ∀ {t : Net V}, net.Alerting t → ∀ y, t.effects d = some y → y.scheduled = true := by
      intro t ht y hy
      have := ht.known plain d y hy
      obtain ⟨z, hz, -⟩ := rel_left (hx ▸ ht.toMarked.computed d)
      rw [this] at hz
      cases hz
    dsimp only
    unfold Net.markComputed
    have hpos := mark.rank_pos
    split
    · rename_i lt
      split
      · rename_i clean
        have hm : net.Marked (net.setState d mark.toState) := .setState hx lt.le
        have hself : (net.setState d mark.toState).computed d =
            some { x with state := mark.toState } := by
          rw [computed_setState, if_pos rfl, hx]
          rfl
        have hstale : (net.setState d mark.toState).isClean d = false := by
          unfold Net.isClean
          rw [hself]
          simpa using (State.rank_pos_iff mark.toState).mp hpos
        have hlt := hm.cleanCount_lt (known d x hx) (isClean_iff.mpr ⟨x, hx, clean⟩) hstale
        have hknown : ∀ m y, (net.setState d mark.toState).computed m = some y →
            m < (net.setState d mark.toState).nextNode := by
          intro m y hy
          obtain ⟨z, hz, -⟩ := rel_right (hy ▸ hm.computed m)
          exact known m z hz
        have hplain : ∀ e y, (net.setState d mark.toState).effects e = some y →
            (net.setState d mark.toState).computed e = none := fun e y hy =>
          rel_none (plain e y hy ▸ hm.computed e)
        obtain ⟨h1, h2⟩ := hl .check (net.setState d mark.toState) d (by omega) hknown hplain
        have halert : net.Alerting
            (markDependents levels .check (net.setState d mark.toState) d) := by
          refine ⟨hm.trans h1.toMarked, h1.effects, fun n hn ht o ho y hy => ?_⟩
          by_cases hnd : n = d
          · subst hnd
            have ho' : o ∈ (net.setState n mark.toState).dependents n := by
              rw [h1.toMarked.frame] at ho
              exact ho
            exact h2 o ho' y hy
          · refine h1.alerted n ?_ ht o ho y hy
            unfold Net.isClean at hn ⊢
            rw [computed_setState, if_neg hnd]
            exact hn
        exact ⟨halert, hnone halert⟩
      · rename_i stale
        have halert : net.Alerting (net.setState d mark.toState) := setState_alerts hx lt.le stale
        exact ⟨halert, hnone halert⟩
    · exact ⟨.refl net, hnone (.refl net)⟩

theorem alerts (levels : ℕ) (V : Type) : Alerts levels V := by
  induction levels with
  | zero => intro mark net n h; omega
  | succ levels hl =>
    intro mark net n hc known plain
    unfold markDependents
    -- over the dependents, an effect that has a run pending keeps it
    have loop : ∀ (l : List NodeId) (t : Net V), t.cleanCount < levels + 1 →
        (∀ m x, t.computed m = some x → m < t.nextNode) →
        (∀ e y, t.effects e = some y → t.computed e = none) →
        t.Alerting (l.foldl (deliverMark (markDependents levels .check) mark) t) ∧
          ∀ d ∈ l, ∀ y, (l.foldl (deliverMark (markDependents levels .check) mark) t).effects d =
            some y → y.scheduled = true := by
      intro l
      induction l with
      | nil => exact fun t _ _ _ => ⟨.refl t, by simp⟩
      | cons d l ih =>
        intro t ht hk hp
        obtain ⟨h1, h2⟩ := Alerting.deliverMark hl ht hk hp mark d
        have hk' : ∀ m x, (deliverMark (markDependents levels .check) mark t d).computed m =
            some x → m < (deliverMark (markDependents levels .check) mark t d).nextNode := by
          intro m y hy
          obtain ⟨z, hz, -⟩ := rel_right (hy ▸ h1.toMarked.computed m)
          rw [h1.toMarked.nextNode]
          exact hk m z hz
        obtain ⟨h3, h4⟩ := ih _ (h1.toMarked.cleanCount_le.trans_lt ht) hk' (h1.known hp)
        refine ⟨h1.trans h3, fun m hm y hy => ?_⟩
        rcases List.mem_cons.mp hm with rfl | hm
        · obtain ⟨x, hx, hxy⟩ := rel_right (hy ▸ h3.effects m)
          exact hxy.scheduled (h2 x hx)
        · exact h4 m hm y hy
    exact loop (net.dependents n) net hc known plain

theorem alerts_trigger (h : net.Wired) (n : NodeId) :
    (net.bumpVersion n).Alerting (net.trigger n) ∧
      ∀ o ∈ net.dependents n, ∀ y, (net.trigger n).effects o = some y → y.scheduled = true := by
  refine alerts (net.nextNode + 1) V .dirty (net.bumpVersion n) n ?_ h.known
    fun e y hy => (h.effect e y hy).2
  have := cleanCount_le (net.bumpVersion n)
  exact Nat.lt_succ_of_le this

theorem Wired.trigger (h : net.Wired) (n : NodeId) : (net.trigger n).Wired := by
  obtain ⟨ha, -⟩ := alerts_trigger h n
  refine (h.bumpVersion n).marked ha.toMarked fun e => ?_
  have := ha.effects e
  revert this
  generalize (net.bumpVersion n).effects e = a
  generalize (net.trigger n).effects e = b
  rintro (_ | _) <;> rfl

end Marks

end Net

end Adaptite

import Adaptite.Marking
import Adaptite.NetSound

set_option autoImplicit false

namespace Adaptite

namespace Net

variable {V : Type} {net t u : Net V} {n d : NodeId} {mark : Mark}

def MoreStale (x y : NetComputed V) : Prop :=
  y = { x with state := y.state } ∧ x.state.rank ≤ y.state.rank

structure Marked (net t : Net V) : Prop where
  frame : t = { net with
    computed := t.computed, effects := t.effects, pendingJobs := t.pendingJobs }
  computed : ∀ n, Option.Rel MoreStale (net.computed n) (t.computed n)

theorem Marked.refl (net : Net V) : net.Marked net :=
  ⟨rfl, fun _ => rel_refl (fun _ => ⟨rfl, le_refl _⟩) _⟩

theorem Marked.trans (h : net.Marked t) (h' : t.Marked u) : net.Marked u := by
  refine ⟨by rw [h'.frame, h.frame], fun n => ?_⟩
  refine rel_trans (fun x y z hxy hyz => ?_) (h.computed n) (h'.computed n)
  exact ⟨by rw [hyz.1, hxy.1], hxy.2.trans hyz.2⟩

theorem Marked.setState {x : NetComputed V} {state : State} (hx : net.computed n = some x)
    (le : x.state.rank ≤ state.rank) : net.Marked (net.setState n state) := by
  refine ⟨rfl, fun m => ?_⟩
  rw [computed_setState]
  by_cases hm : m = n
  · rw [if_pos hm, hm, hx]
    exact .some ⟨rfl, le⟩
  · rw [if_neg hm]
    exact rel_refl (fun _ => ⟨rfl, le_refl _⟩) _

theorem Marked.markEffect (net : Net V) (e : NodeId) (mark : Mark) :
    net.Marked (net.markEffect e mark) := by
  unfold Net.markEffect
  split
  · exact .refl net
  · have same : ∀ n, Option.Rel MoreStale (net.computed n) (net.computed n) :=
      fun n => rel_refl (fun _ => ⟨rfl, le_refl _⟩) _
    dsimp only
    split <;> exact ⟨rfl, same⟩

def Stale (net : Net V) (n : NodeId) : Prop := ∃ x, net.computed n = some x ∧ x.state ≠ .clean

/-- No clean node depends on `d`. -/
def Sealed (net : Net V) (d : NodeId) : Prop :=
  ∀ o ∈ net.dependents d, ∀ x, net.computed o = some x → x.state ≠ .clean

theorem MoreStale.stale {x y : NetComputed V} (h : MoreStale x y) (hx : x.state ≠ .clean) :
    y.state ≠ .clean := by
  rw [← State.rank_pos_iff] at hx ⊢
  exact hx.trans_le h.2

theorem Marked.sealed (h : net.Marked t) (hd : net.Sealed d) : t.Sealed d := by
  intro o ho y hy
  rw [h.frame] at ho
  obtain ⟨x, hx, hxy⟩ := rel_right (hy ▸ h.computed o)
  exact hxy.stale (hd o ho x hx)

theorem Marked.stale (h : net.Marked t) (hn : net.Stale n) : t.Stale n := by
  obtain ⟨x, hx, hs⟩ := hn
  obtain ⟨y, hy, hxy⟩ := rel_left (hx ▸ h.computed n)
  exact ⟨y, hy, hxy.stale hs⟩

def isClean (net : Net V) (n : NodeId) : Bool := (net.computed n).any fun x => x.state = .clean

theorem isClean_iff : net.isClean n = true ↔ ∃ x, net.computed n = some x ∧ x.state = .clean := by
  unfold isClean
  cases net.computed n <;> simp

def cleanCount (net : Net V) : ℕ := (List.range net.nextNode).countP net.isClean

theorem Marked.isClean (h : net.Marked t) (hn : t.isClean n = true) : net.isClean n = true := by
  obtain ⟨y, hy, hc⟩ := isClean_iff.mp hn
  obtain ⟨x, hx, hxy⟩ := rel_right (hy ▸ h.computed n)
  refine isClean_iff.mpr ⟨x, hx, ?_⟩
  by_contra hs
  exact hxy.stale hs hc

theorem Marked.nextNode (h : net.Marked t) : t.nextNode = net.nextNode := by rw [h.frame]

theorem Marked.cleanCount_le (h : net.Marked t) : t.cleanCount ≤ net.cleanCount := by
  unfold cleanCount
  rw [h.nextNode]
  exact List.countP_mono_left fun _ _ hn => h.isClean hn

theorem Marked.cleanCount_lt (h : net.Marked t) (below : n < net.nextNode)
    (clean : net.isClean n = true) (stale : t.isClean n = false) : t.cleanCount < net.cleanCount := by
  unfold cleanCount
  rw [h.nextNode]
  have hmem : n ∈ List.range net.nextNode := List.mem_range.mpr below
  obtain ⟨l₁, l₂, hl⟩ := List.append_of_mem hmem
  rw [hl, List.countP_append, List.countP_append, List.countP_cons, List.countP_cons, clean, stale]
  have h1 : l₁.countP t.isClean ≤ l₁.countP net.isClean :=
    List.countP_mono_left fun _ _ hn => h.isClean hn
  have h2 : l₂.countP t.isClean ≤ l₂.countP net.isClean :=
    List.countP_mono_left fun _ _ hn => h.isClean hn
  simp only [if_true]
  have : (if false = true then 1 else 0 : ℕ) = 0 := rfl
  omega

/-- What a marking leaves: whatever it turned stale is sealed. -/
structure Sealing (net t : Net V) : Prop extends net.Marked t where
  turned : ∀ d, net.isClean d = true → t.isClean d = false → t.Sealed d

theorem Sealing.refl (net : Net V) : net.Sealing net :=
  ⟨.refl net, fun d h h' => by rw [h] at h'; cases h'⟩

theorem Sealing.trans (h : net.Sealing t) (h' : t.Sealing u) : net.Sealing u := by
  refine ⟨h.toMarked.trans h'.toMarked, fun d hd hu => ?_⟩
  cases ht : t.isClean d with
  | true => exact h'.turned d ht hu
  | false => exact h'.toMarked.sealed (h.turned d hd ht)

/-- Marking what depends on `n`, within so many levels. -/
def Seals (levels : ℕ) (V : Type) : Prop :=
  ∀ (mark : Mark) (net : Net V) (n : NodeId), net.cleanCount < levels →
    (∀ m x, net.computed m = some x → m < net.nextNode) →
      net.Sealing (markDependents levels mark net n) ∧ (markDependents levels mark net n).Sealed n

theorem Sealing.deliverMark {levels : ℕ} (hl : Seals levels V) (hc : net.cleanCount < levels + 1)
    (known : ∀ m x, net.computed m = some x → m < net.nextNode) (mark : Mark) (d : NodeId) :
    net.Sealing (deliverMark (markDependents levels .check) mark net d) ∧
      ∀ x, (deliverMark (markDependents levels .check) mark net d).computed d = some x →
        x.state ≠ .clean := by
  unfold Net.deliverMark
  cases hx : net.computed d with
  | none =>
    dsimp only
    have h := Marked.markEffect net d mark
    refine ⟨⟨h, fun n hn ht => ?_⟩, fun x hy => ?_⟩
    · obtain ⟨x, hx, hc⟩ := isClean_iff.mp hn
      have hsame : (net.markEffect d mark).computed = net.computed := by
        unfold Net.markEffect
        split
        · rfl
        · dsimp only
          split <;> rfl
      have : (net.markEffect d mark).isClean n = net.isClean n := by
        unfold Net.isClean
        rw [hsame]
      rw [this, hn] at ht
      cases ht
    · have := rel_none (hx ▸ h.computed d)
      rw [this] at hy
      cases hy
  | some x =>
    dsimp only
    unfold Net.markComputed
    have hpos := mark.rank_pos
    have hself : ∀ state, (net.setState d state).computed d = some { x with state } := by
      intro state
      rw [computed_setState, if_pos rfl, hx]
      rfl
    split
    · rename_i lt
      have hm : net.Marked (net.setState d mark.toState) := .setState hx lt.le
      have hstale : (net.setState d mark.toState).isClean d = false := by
        unfold Net.isClean
        rw [hself]
        simpa using (State.rank_pos_iff mark.toState).mp hpos
      have hstate : mark.toState ≠ .clean := (State.rank_pos_iff _).mp hpos
      split
      · rename_i clean
        have hclean : net.isClean d = true := isClean_iff.mpr ⟨x, hx, clean⟩
        have hlt := hm.cleanCount_lt (known d x hx) hclean hstale
        have hknown : ∀ m y, (net.setState d mark.toState).computed m = some y →
            m < (net.setState d mark.toState).nextNode := by
          intro m y hy
          obtain ⟨z, hz, -⟩ := rel_right (hy ▸ hm.computed m)
          exact known m z hz
        obtain ⟨h1, h2⟩ := hl .check (net.setState d mark.toState) d (by omega) hknown
        refine ⟨⟨hm.trans h1.toMarked, fun n hn ht => ?_⟩, fun y hy => ?_⟩
        · by_cases hnd : n = d
          · rw [hnd]; exact h2
          · refine h1.turned n ?_ ht
            unfold Net.isClean at hn ⊢
            rw [computed_setState, if_neg hnd]
            exact hn
        · obtain ⟨z, hz, hs⟩ := h1.toMarked.stale ⟨_, hself _, hstate⟩
          rw [hy] at hz
          cases hz
          exact hs
      · rename_i stale
        refine ⟨⟨hm, fun n hn ht => ?_⟩, fun y hy => ?_⟩
        · by_cases hnd : n = d
          · subst hnd
            obtain ⟨y, hy, hc⟩ := isClean_iff.mp hn
            rw [hx] at hy
            cases hy
            exact absurd hc stale
          · unfold Net.isClean at hn ht
            rw [computed_setState, if_neg hnd, hn] at ht
            cases ht
        · rw [hself] at hy
          cases hy
          exact hstate
    · rename_i ge
      refine ⟨.refl net, fun y hy => ?_⟩
      rw [hx] at hy
      cases hy
      exact (State.rank_pos_iff _).mp (by omega)

theorem seals (levels : ℕ) (V : Type) : Seals levels V := by
  induction levels with
  | zero => intro mark net n h; omega
  | succ levels hl =>
    intro mark net n hc known
    unfold markDependents
    -- over the dependents, those already marked stay stale
    have loop : ∀ (l : List NodeId) (t : Net V), t.cleanCount < levels + 1 →
        (∀ m x, t.computed m = some x → m < t.nextNode) →
        t.Sealing (l.foldl (deliverMark (markDependents levels .check) mark) t) ∧
          ∀ d ∈ l, ∀ x, (l.foldl (deliverMark (markDependents levels .check) mark) t).computed d =
            some x → x.state ≠ .clean := by
      intro l
      induction l with
      | nil => exact fun t _ _ => ⟨.refl t, by simp⟩
      | cons d l ih =>
        intro t ht hk
        obtain ⟨h1, h2⟩ := Sealing.deliverMark hl ht hk mark d
        have hk' : ∀ m x, (deliverMark (markDependents levels .check) mark t d).computed m =
            some x → m < (deliverMark (markDependents levels .check) mark t d).nextNode := by
          intro m y hy
          obtain ⟨z, hz, -⟩ := rel_right (hy ▸ h1.toMarked.computed m)
          rw [h1.toMarked.nextNode]
          exact hk m z hz
        obtain ⟨h3, h4⟩ := ih _ (h1.toMarked.cleanCount_le.trans_lt ht) hk'
        refine ⟨h1.trans h3, fun m hm x hx => ?_⟩
        rcases List.mem_cons.mp hm with rfl | hm
        · obtain ⟨y, hy, hyx⟩ := rel_right (hx ▸ h3.toMarked.computed m)
          exact hyx.stale (h2 y hy)
        · exact h4 m hm x hx
    obtain ⟨h1, h2⟩ := loop (net.dependents n) net hc known
    refine ⟨h1, fun o ho x hx => h2 o ?_ x hx⟩
    have : (List.foldl (deliverMark (markDependents levels .check) mark) net
        (net.dependents n)).dependents = net.dependents := by rw [h1.toMarked.frame]
    rw [← this]
    exact ho

theorem cleanCount_le (net : Net V) : net.cleanCount ≤ net.nextNode := by
  have := List.countP_le_length (p := net.isClean) (l := List.range net.nextNode)
  rwa [List.length_range] at this

theorem Sound.sealing_trigger (h : net.Sound) (n : NodeId) :
    (net.bumpVersion n).Sealing (net.trigger n) ∧ (net.trigger n).Sealed n := by
  refine seals (net.nextNode + 1) V .dirty (net.bumpVersion n) n ?_ h.known
  have := cleanCount_le (net.bumpVersion n)
  exact Nat.lt_succ_of_le this

/-- Marks keep what holds between calls, where no thunk or memo is running. -/
theorem Sound.sealing (h : net.Sound) (hs : net.Sealing t)
    (quiet : ∀ z ∈ net.stack, net.computed z = none) : t.Sound := by
  have hf := hs.toMarked.frame
  have hstack : t.stack = net.stack := by rw [hf]
  have hdeps : t.dependencies = net.dependencies := by rw [hf]
  have hnext := hs.toMarked.nextNode
  have hback : ∀ m y, t.computed m = some y → ∃ x, net.computed m = some x ∧ MoreStale x y :=
    fun m y hy => rel_right (hy ▸ hs.toMarked.computed m)
  have hfresh : ∀ m, t.Fresh m → net.Fresh m := by
    rintro m ⟨y, hy, hd⟩
    obtain ⟨x, hx, -, hr⟩ := hback m y hy
    refine ⟨x, hx, fun he => hd ?_⟩
    rw [he] at hr
    cases hys : y.state <;> rw [hys] at hr <;> first | rfl | exact absurd hr (by decide)
  exact {
    running := by rw [hf]; exact h.running
    nodup := hstack ▸ h.nodup
    busy := by
      intro z hz
      rw [hstack] at hz
      refine ⟨hnext ▸ (h.busy z hz).1, fun y hy => ?_⟩
      obtain ⟨x, hx, -⟩ := hback z y hy
      rw [quiet z hz] at hx
      cases hx
    inverse := by rw [hf]; exact h.inverse
    below := by rw [hdeps, hnext]; exact h.below
    known := by
      intro m y hy
      obtain ⟨x, hx, -⟩ := hback m y hy
      exact hnext ▸ h.known m x hx
    source := by
      intro m s hm
      rw [show t.signals = net.signals by rw [hf]] at hm
      obtain ⟨h1, h2⟩ := h.source m s hm
      exact ⟨hnext ▸ h1, rel_none (h2 ▸ hs.toMarked.computed m)⟩
    settled := by
      intro m y hy hc e he z hz
      obtain ⟨x, hx, hxy⟩ := hback m y hy
      obtain ⟨w, hw, hwz⟩ := hback e.1 z hz
      have hxc : x.state = .clean := by
        by_contra hs'
        exact hxy.stale hs' hc
      rw [hdeps] at he
      have hset := h.settled m x hx hxc e he w hw
      refine ⟨?_, hstack ▸ hset.2⟩
      by_contra hzs
      have h1 : net.isClean e.1 = true := isClean_iff.mpr ⟨w, hw, hset.1⟩
      have h2 : t.isClean e.1 = false := by
        rw [Bool.eq_false_iff]
        intro ht
        obtain ⟨z', hz', hc'⟩ := isClean_iff.mp ht
        rw [hz] at hz'
        cases hz'
        exact hzs hc'
      have hm : m ∈ t.dependents e.1 := by
        rw [show t.dependents = net.dependents by rw [hf]]
        exact (h.inverse m e.1).mp ⟨e.2, he⟩
      exact hs.turned e.1 h1 h2 m hm y hy hc
    acyclic := h.acyclic.mono fun a b hab =>
      ⟨hdeps ▸ hab.1, hfresh a hab.2.1, hfresh b hab.2.2⟩
    readOnly := by
      intro m y hy p
      obtain ⟨x, hx, hxy⟩ := hback m y hy
      rw [hxy.1]
      exact h.readOnly m x hx p
    genuine := by
      rw [show t.raised = net.raised by rw [hf]]
      exact h.genuine }

theorem Sound.setValue (h : net.Sound) (n : NodeId) (v : V) : (net.setValue n v).Sound := by
  have hsig : ∀ m s, (net.setValue n v).signals m = some s → ∃ s', net.signals m = some s' := by
    intro m s hs
    unfold Net.setValue at hs
    dsimp only at hs
    by_cases hm : m = n
    · subst hm
      rw [Function.update_self, Option.map_eq_some_iff] at hs
      obtain ⟨s', hs', -⟩ := hs
      exact ⟨s', hs'⟩
    · rw [Function.update_of_ne hm] at hs
      exact ⟨s, hs⟩
  exact { h with
    source := fun m s hs => by
      obtain ⟨s', hs'⟩ := hsig m s hs
      exact h.source m s' hs' }

theorem Sound.trigger (h : net.Sound) (n : NodeId)
    (quiet : ∀ z ∈ net.stack, net.computed z = none) : (net.trigger n).Sound :=
  (h.same rfl rfl rfl rfl rfl rfl rfl rfl : (net.bumpVersion n).Sound).sealing
    (h.sealing_trigger n).1 quiet

end Net

end Adaptite

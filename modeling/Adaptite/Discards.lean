import Adaptite.Latches
import Adaptite.Preservation

set_option autoImplicit false

namespace Adaptite

open Unwinding

variable {V : Type} {env : Enumeration} {w w' : World V}

theorem CleanPath.congr (hg : ∀ n, w'.graph.observersOf n = w.graph.observersOf n)
    (hc : ∀ n, w'.isClean n = w.isClean n) {n o : NodeId} (h : w'.CleanPath n o) :
    w.CleanPath n o := by
  induction h with
  | edge ho => exact .edge (hg _ ▸ ho)
  | through hm hcl _ ih => exact .through (hg _ ▸ hm) (hc _ ▸ hcl) ih

theorem cleanPath_iff (hg : ∀ n, w'.graph.observersOf n = w.graph.observersOf n)
    (hc : ∀ n, w'.isClean n = w.isClean n) (n o : NodeId) : w'.CleanPath n o ↔ w.CleanPath n o :=
  ⟨CleanPath.congr hg hc, CleanPath.congr (fun i => (hg i).symm) fun i => (hc i).symm⟩

theorem cleanPath_bumpVersion (n d e : NodeId) :
    (w.bumpVersion n).CleanPath d e ↔ w.CleanPath d e := by
  have hc : ∀ i, (w.bumpVersion n).isClean i = w.isClean i := fun _ => rfl
  exact cleanPath_iff (Graph.observersOf_bumpVersion w.graph n) hc d e

theorem World.WellFormed.below (h : w.WellFormed) : w.Below := by
  intro m hm
  obtain ⟨x, hx, _⟩ := isClean_iff.mp hm
  rcases (h.computed m (by rw [hx]; rfl)).1 with hk | hk <;>
    exact h.graph.below m (Graph.mem_of_nodeKind hk)

/-- What lies at the end of a clean path has been told. -/
theorem delivered_of_cleanPath (hw : w.WellFormed) (hr : w.Raised w') (hs : w.Spread w')
    {n e : NodeId} (he : e ∈ w.graph.observers) (p : w.CleanPath n e) (ht : w'.Told .check n) :
    w'.Delivered .check e := by
  induction p with
  | edge ho =>
    exact ht _ (hr.graph.symm ▸ ho) (hr.graph.symm ▸ he)
  | @through n m o hm hc _ ih =>
    refine ih he (hs m hc ?_)
    obtain ⟨x, hx, _⟩ := isClean_iff.mp hc
    have hreg : m ∈ w.graph.observers := (hw.computed m (by rw [hx]; rfl)).2
    have hd := ht m (hr.graph.symm ▸ hm) (hr.graph.symm ▸ hreg)
    obtain ⟨y, hy, _⟩ := rel_left (hx ▸ hr.computed m)
    unfold World.Delivered at hd
    rw [hy] at hd
    unfold World.isClean
    rw [hy, Option.any_some, decide_eq_false_iff_not]
    exact (State.rank_pos_iff _).mp (Nat.lt_of_lt_of_le (Mark.rank_pos _) hd)

/-- An idle effect of a custom scheduler gets its run exactly where the marks arrive. -/
theorem trigger_hands_out_run_iff (hw : w.WellFormed) (hl : w.Latched) {e : NodeId}
    {x : EffectInner V} (hx : w.effects e = some x) (external : x.external = true)
    (live : x.disposed = false) (idle : e ∉ w.lane) (n : NodeId) :
    e ∈ (w.trigger env n).lane ↔ w.CleanPath n e := by
  have hraised : (w.bumpVersion n).Raised (w.trigger env n) := (marks_trigger env w n).raised
  have hunlatched : x.scheduled = false := by
    rw [Bool.eq_false_iff]
    exact fun hs => idle (hl.lane e x hx external live hs)
  refine ⟨fun h => ?_, fun h => ?_⟩
  · have hne : (w.trigger env n).effects e ≠ (w.bumpVersion n).effects e := by
      intro heq
      rcases hraised.lane e h with hin | ⟨y, hy, hs⟩
      · exact idle hin
      · change _ = w.effects e at heq
        rw [heq, hx] at hy
        cases hy
        rw [hunlatched] at hs
        cases hs
    exact (cleanPath_bumpVersion n n e).mp (sound_markDependents env _ _ _ n e hne)
  · have hcomplete := complete_trigger env w n hw.below
    have hb : (w.bumpVersion n).WellFormed :=
      hw.kept (hw.graph.bumpVersion n) (Graph.sameNodes_bumpVersion _ n)
        (.of_eq rfl rfl rfl rfl rfl rfl rfl rfl)
    obtain ⟨_, _, hkind⟩ := hw.effects e x hx
    rcases hkind with ⟨hk, hreg⟩ | ⟨_, hd⟩
    · have hd : (w.trigger env n).Delivered .check e :=
        delivered_of_cleanPath hb hraised hcomplete.spread
          ((Graph.observers_bumpVersion w.graph n).symm ▸ hreg live)
          ((cleanPath_bumpVersion n n e).mpr h)
          fun d hd hr => delivered_of_le (by decide) (hcomplete.told d hd hr)
      have hc : w.computed e = none := by
        refine World.WellFormed.none_of_kind (P := fun k => k = some .thunk ∨ k = some .memo)
          (fun hc => (hw.computed e hc).1) ?_
        rw [hk]
        decide
      have hc' : (w.trigger env n).computed e = none := by
        have := hraised.computed e
        rw [computed_bumpVersion, hc] at this
        exact rel_none this
      obtain ⟨y, hy, hxy⟩ := rel_left ((show (w.bumpVersion n).effects e = some x from hx) ▸
        hraised.effects e)
      unfold World.Delivered at hd
      rw [hc'] at hd
      have hlive : y.disposed = false := by rw [hxy.1]; exact live
      refine (hl.trigger n).lane e y hy ?_ hlive ((hd y hy).2 hlive)
      rw [hxy.1]
      exact external
    · rw [live] at hd
      cases hd

theorem write_hands_out_run_iff (hw : w.WellFormed) (hl : w.Latched) {e : NodeId}
    {x : EffectInner V} (hx : w.effects e = some x) (external : x.external = true)
    (live : x.disposed = false) (idle : e ∉ w.lane) (n : NodeId) (v : V) :
    e ∈ (w.write env n v).lane ↔ w.CleanPath n e := by
  have hs : (w.setValue n v).WellFormed := hw.same rfl (World.sameNodes_setValue w n v)
  have h : e ∈ ((w.setValue n v).trigger env n).lane ↔ _ :=
    trigger_hands_out_run_iff hs (hl.same rfl rfl rfl rfl) hx external live idle n
  have hc : ∀ i, (w.setValue n v).isClean i = w.isClean i := fun _ => rfl
  have hg : ∀ i, (w.setValue n v).graph.observersOf i = w.graph.observersOf i := fun _ => rfl
  exact h.trans (cleanPath_iff hg hc n e)

theorem setSignal_of_change {n : NodeId} {v : V} {s : SignalInner V} (hs : w.signals n = some s)
    (changed : s.same s.value v = false) :
    setSignal env n v w = .ok (some s.value) (w.write env n v) := by
  unfold setSignal
  rw [Act.get_bind]
  simp only [hs, changed]
  rfl

/-- In every world that is visited, a live effect of a custom scheduler with no run
outstanding is handed one by a write exactly when a recorded path leads
from the source to it through computed nodes that are all clean. -/
theorem write_hands_out_run_iff_clean_path (hw : Visited env w) {e : NodeId} {x : EffectInner V}
    (hx : w.effects e = some x) (external : x.external = true) (live : x.disposed = false)
    (idle : e ∉ w.lane) (n : NodeId) :
    (∀ s v, w.signals n = some s → s.same s.value v = false → ∃ w',
      setSignal env n v w = .ok (some s.value) w' ∧ (e ∈ w'.lane ↔ w.CleanPath n e)) ∧
    (∀ s f, w.signals n = some s → ∃ w',
      updateSignal env n f w = .ok s.value w' ∧ (e ∈ w'.lane ↔ w.CleanPath n e)) ∧
    (e ∈ (w.trigger env n).lane ↔ w.CleanPath n e) := by
  have hwf := hw.wellFormed
  have hl := hw.latched
  refine ⟨fun s v hs changed => ⟨w.write env n v, ?_, ?_⟩, fun s f hs => ⟨w.write env n (f s.value),
    ?_, ?_⟩, trigger_hands_out_run_iff hwf hl hx external live idle n⟩
  · exact setSignal_of_change hs changed
  · exact write_hands_out_run_iff hwf hl hx external live idle n v
  · unfold updateSignal
    rw [Act.get_bind]
    simp only [hs]
    rfl
  · exact write_hands_out_run_iff hwf hl hx external live idle n _

section Stranded

/-- The run that a write handed out is dropped, and the memo stays stale. -/
def droppedBehindMemo : Prog ℕ :=
  .signal 0 fun s => .memo (.get s .ret) fun m => .effectWith (.get m .ret) fun e =>
    .runReady e <| .set s 1 <| .dropReady e <| .ret 0

def droppedBehindSignal : Prog ℕ :=
  .signal 0 fun s => .effectWith (.get s .ret) fun e =>
    .runReady e <| .set s 1 <| .dropReady e <| .ret 0

theorem write_hands_out_run_to_direct_reader :
    ∃ w' : World ℕ, setSignal .insertion 1 2 (World.after .insertion 20 droppedBehindSignal) =
      .ok (some 1) w' ∧ 2 ∈ w'.lane := by
  obtain ⟨x, hx, hp⟩ : ∃ x, (World.after .insertion 20 droppedBehindSignal).effects 2 = some x ∧
      (x.external && !x.disposed) = true :=
    Option.any_eq_true _ _ |>.mp (by decide +kernel)
  obtain ⟨s, hs, hq⟩ : ∃ s, (World.after .insertion 20 droppedBehindSignal).signals 1 = some s ∧
      (s.value = 1 && !s.same s.value 2) = true :=
    Option.any_eq_true _ _ |>.mp (by decide +kernel)
  simp only [Bool.and_eq_true, Bool.not_eq_true', decide_eq_true_eq] at hp hq
  obtain ⟨w', hw, h⟩ := (write_hands_out_run_iff_clean_path (reached_after .insertion 20
    droppedBehindSignal).visited hx hp.1 hp.2 (by decide +kernel) 1).1 s 2 hs hq.2
  refine ⟨w', hq.1 ▸ hw, h.mpr (.edge ?_)⟩
  decide +kernel

/-- The claim as stated: a recorded path is enough. -/
theorem write_behind_stale_memo_hands_out_nothing :
    ¬ ∀ (w w' : World ℕ) (e n v : ℕ) (x : EffectInner ℕ) (s : SignalInner ℕ),
      Reached .insertion w → w.effects e = some x → x.external = true → x.disposed = false →
      e ∉ w.lane → w.signals n = some s → s.same s.value v = false →
      Relation.TransGen (fun d o => o ∈ w.graph.observersOf d) n e →
      setSignal .insertion n v w = .ok (some s.value) w' → e ∈ w'.lane := by
  intro claim
  obtain ⟨x, hx, hp⟩ : ∃ x, (World.after .insertion 20 droppedBehindMemo).effects 3 = some x ∧
      (x.external && !x.disposed) = true :=
    Option.any_eq_true _ _ |>.mp (by decide +kernel)
  obtain ⟨s, hs, hq⟩ : ∃ s, (World.after .insertion 20 droppedBehindMemo).signals 1 = some s ∧
      (!s.same s.value 2) = true :=
    Option.any_eq_true _ _ |>.mp (by decide +kernel)
  simp only [Bool.and_eq_true, Bool.not_eq_true'] at hp hq
  have hset : setSignal .insertion 1 2 (World.after .insertion 20 droppedBehindMemo) =
      .ok (some s.value) ((World.after .insertion 20 droppedBehindMemo).write .insertion 1 2) :=
    setSignal_of_change hs hq
  refine absurd (claim _ _ 3 1 2 x s (reached_after .insertion 20 droppedBehindMemo) hx hp.1 hp.2
    (by decide +kernel) hs hq ?_ hset) (by decide +kernel)
  exact .tail (b := 2) (.single (by decide +kernel)) (by decide +kernel)

end Stranded

end Adaptite

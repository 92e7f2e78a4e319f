import Adaptite.Ledger

set_option autoImplicit false

namespace Adaptite

open NetFrame

namespace Net

variable {V : Type} {net t u : Net V} {n m : NodeId} {but : NodeId → Prop}

/-- The thunk or memo is to be recomputed, or is being so. -/
def Pending (net : Net V) (n : NodeId) : Prop :=
  ∃ x, net.computed n = some x ∧ (x.state = .dirty ∨ n ∈ net.stack)

def Ready (net : Net V) (n : NodeId) : Prop :=
  ∃ x, net.computed n = some x ∧ x.state = .clean ∧ n ∉ net.stack

/-- No recomputation has ended, and no verification has passed, except of the given nodes. -/
structure Slack (but : NodeId → Prop) (net t : Net V) : Prop where
  pending : ∀ n, ¬ but n → net.Pending n → t.Pending n
  ready : ∀ n, ¬ but n → t.Ready n → net.Ready n

theorem slack_of_eq (hc : t.computed = net.computed) (hs : t.stack = net.stack) :
    Slack but net t := by
  refine ⟨fun n _ hn => ?_, fun n _ hn => ?_⟩
  · unfold Pending
    rw [hc, hs]
    exact hn
  · unfold Ready at hn
    rw [hc, hs] at hn
    exact hn

theorem Alike.slack (h : net.Alike t) : Slack but net t := slack_of_eq h.computed h.stack

theorem Slack.trans (h : Slack but net t) (h' : Slack but t u) : Slack but net u :=
  ⟨fun n hb hn => h'.pending n hb (h.pending n hb hn), fun n hb hn => h.ready n hb (h'.ready n hb hn)⟩

theorem slack_spoil (net : Net V) (n : NodeId) : Slack but net (net.setState n .dirty) := by
  refine ⟨fun m _ hm => ?_, fun m _ hm => ?_⟩
  · obtain ⟨x, hx, hd⟩ := hm
    by_cases hmn : m = n
    · refine ⟨{ x with state := .dirty }, ?_, .inl rfl⟩
      rw [computed_setState, if_pos hmn, ← hmn, hx]
      rfl
    · refine ⟨x, ?_, hd⟩
      rw [computed_setState, if_neg hmn]
      exact hx
  · obtain ⟨x, hx, hc, hi⟩ := hm
    rw [computed_setState] at hx
    split at hx
    · obtain ⟨y, -, rfl⟩ := Option.map_eq_some_iff.mp hx
      cases hc
    · exact ⟨x, hx, hc, hi⟩

theorem slack_start (hc : ∀ m, m ≠ n → t.computed m = net.computed m)
    (hn : (t.computed n).isSome = (net.computed n).isSome) (hs : t.stack = n :: net.stack) :
    Slack but net t := by
  refine ⟨fun m _ hm => ?_, fun m _ hm => ?_⟩
  · obtain ⟨x, hx, hd⟩ := hm
    by_cases hmn : m = n
    · obtain ⟨y, hy⟩ := Option.isSome_iff_exists.mp (hn.trans (by rw [← hmn, hx]; rfl))
      exact ⟨y, hmn ▸ hy, .inr (by rw [hs, hmn]; exact List.mem_cons_self)⟩
    · exact ⟨x, (hc m hmn).trans hx, hd.imp_right fun hin => by
        rw [hs]; exact List.mem_cons_of_mem _ hin⟩
  · obtain ⟨x, hx, hclean, hi⟩ := hm
    rw [hs] at hi
    have hmn : m ≠ n := fun hmn => hi (hmn ▸ List.mem_cons_self)
    exact ⟨x, (hc m hmn).symm.trans hx, hclean, fun hin => hi (List.mem_cons_of_mem _ hin)⟩

/-- The innermost observer is left, dirty or no thunk and no memo. -/
theorem slack_pop {stack : List NodeId} (hs : net.stack = n :: stack) (ht : t.stack = stack)
    (hc : ∀ m, m ≠ n → t.computed m = net.computed m)
    (hn : ¬ but n → (t.computed n = none ∧ net.computed n = none) ∨
      ∃ y, t.computed n = some y ∧ y.state = .dirty) : Slack but net t := by
  refine ⟨fun m hb hm => ?_, fun m hb hm => ?_⟩
  · obtain ⟨x, hx, hd⟩ := hm
    by_cases hmn : m = n
    · subst hmn
      rcases hn hb with ⟨-, hnone⟩ | ⟨y, hy, hdirty⟩
      · cases hnone.symm.trans hx
      · exact ⟨y, hy, .inl hdirty⟩
    · refine ⟨x, (hc m hmn).trans hx, hd.imp_right fun hin => ?_⟩
      rw [ht]
      rw [hs] at hin
      exact List.mem_of_ne_of_mem hmn hin
  · obtain ⟨x, hx, hclean, hi⟩ := hm
    by_cases hmn : m = n
    · subst hmn
      rcases hn hb with ⟨hnone, -⟩ | ⟨y, hy, hdirty⟩
      · cases hnone.symm.trans hx
      · cases hx.symm.trans hy
        cases hclean.symm.trans hdirty
    · refine ⟨x, (hc m hmn).symm.trans hx, hclean, fun hin => hi ?_⟩
      rw [ht]
      rw [hs] at hin
      exact List.mem_of_ne_of_mem hmn hin

theorem Marked.slack (h : net.Marked t) : Slack but net t := by
  have hs : t.stack = net.stack := by rw [h.frame]
  refine ⟨fun n _ hn => ?_, fun n _ hn => ?_⟩
  · obtain ⟨x, hx, hd⟩ := hn
    obtain ⟨y, hy, hxy⟩ := rel_left (hx ▸ h.computed n)
    refine ⟨y, hy, hd.imp (fun hd => ?_) fun hin => by rw [hs]; exact hin⟩
    have hle := hxy.2
    rw [hd] at hle
    cases hstate : y.state with
    | dirty => rfl
    | check => rw [hstate] at hle; exact absurd hle (by decide)
    | clean => rw [hstate] at hle; exact absurd hle (by decide)
  · obtain ⟨y, hy, hc, hi⟩ := hn
    obtain ⟨x, hx, hxy⟩ := rel_right (hy ▸ h.computed n)
    refine ⟨x, hx, ?_, by rw [← hs]; exact hi⟩
    by_contra hne
    exact hxy.stale hne hc

theorem slack_made (hw : net.Wired) (hs : t.stack = net.stack)
    (hc : ∀ m, m < net.nextNode → t.computed m = net.computed m)
    (hn : ∀ m x, net.nextNode ≤ m → t.computed m = some x → x.state = .dirty) :
    Slack but net t := by
  refine ⟨fun m _ hm => ?_, fun m _ hm => ?_⟩
  · obtain ⟨x, hx, hd⟩ := hm
    exact ⟨x, (hc m (hw.known m x hx)).trans hx, by rw [hs]; exact hd⟩
  · obtain ⟨x, hx, hclean, hi⟩ := hm
    rcases Nat.lt_or_ge m net.nextNode with hlt | hge
    · exact ⟨x, (hc m hlt).symm.trans hx, hclean, by rw [← hs]; exact hi⟩
    · rw [hn m x hge hx] at hclean
      cases hclean

end Net

namespace NetHost

variable {V : Type} {layout : Layout} {s t : NetHost V} {n m e : NodeId} {rest : List NetFrame}
  {but : NodeId → Prop} {op : NetStep V}

/-- The recomputation or the verification of a thunk or a memo ends. -/
inductive Settles (s : NetHost V) (op : NetStep V) (n : NodeId) : Prop where
  | returned (v : V) (untracked : ℕ) (rest : List NetFrame) (hop : op = .finish v)
      (hs : s.frames = .computing n untracked :: rest)
  | verified (rest : List NetFrame) (hop : op = .next) (hs : s.frames = .verifying n [] :: rest)

/-- What runs and did not run before has been entered, and what is entered runs. -/
structure Slackens (but : NodeId → Prop) (s t : NetHost V) : Prop where
  net : Net.Slack but s.net t.net
  grown : ∀ n ∈ t.net.stack, n ∈ s.net.stack ∨ t.started = n :: s.started
  begun : ∀ n, t.started = n :: s.started → n ∈ t.net.stack

theorem slackens_of_slack (h : Net.Slack but s.net t.net)
    (hs : ∀ n ∈ t.net.stack, n ∈ s.net.stack) (he : t.started = s.started) : Slackens but s t :=
  ⟨h, fun n hn => .inl (hs n hn), fun _ hn => absurd (he.symm.trans hn).symm (List.cons_ne_self _ _)⟩

theorem slackens_of_eq (hc : t.net.computed = s.net.computed) (hs : t.net.stack = s.net.stack)
    (he : t.started = s.started) : Slackens but s t :=
  slackens_of_slack (Net.slack_of_eq hc hs) (fun _ hn => hs ▸ hn) he

theorem slackens_of_alike (h : s.net.Alike t.net) (he : t.started = s.started) :
    Slackens but s t :=
  slackens_of_eq h.computed h.stack he

theorem slackens_of_start (h : Net.Slack but s.net t.net) (hs : t.net.stack = n :: s.net.stack)
    (he : t.started = n :: s.started) : Slackens but s t := by
  refine ⟨h, fun m hm => ?_, fun m hm => ?_⟩
  · rw [hs] at hm
    rcases List.mem_cons.mp hm with rfl | hm
    · exact .inr he
    · exact .inl hm
  · cases (List.cons.inj (he.symm.trans hm)).1
    rw [hs]
    exact List.mem_cons_self

theorem slackens_recompute (frames : List NetFrame) (n : NodeId) :
    Slackens but s (({ s with frames } : NetHost V).recompute n) := by
  unfold NetHost.recompute
  dsimp only
  cases hx : s.net.computed n with
  | none => exact slackens_of_eq rfl rfl rfl
  | some x =>
    dsimp only
    split
    · exact slackens_of_slack (Net.slack_spoil s.net n) (fun _ hm => hm) rfl
    · have hstack : (s.net.beginCompute n x).stack = n :: s.net.stack :=
        congrArg (List.cons n) (Net.alike_occupy (s.net.setState n .clean) n x).stack
      have hc : (s.net.beginCompute n x).computed = (s.net.setState n .clean).computed :=
        (Net.alike_occupy (s.net.setState n .clean) n x).computed
      refine slackens_of_start
        (Net.slack_start (fun m hm => computed_beginCompute hm x) ?_ hstack) hstack rfl
      change ((s.net.beginCompute n x).computed n).isSome = _
      rw [hc, Net.computed_setState, if_pos rfl, Option.isSome_map]

theorem slackens_refresh (frames : List NetFrame) (n : NodeId) :
    Slackens but s (({ s with frames } : NetHost V).refresh n) := by
  unfold NetHost.refresh
  dsimp only
  split
  · exact slackens_of_eq rfl rfl rfl
  · split
    · exact slackens_of_eq rfl rfl rfl
    · exact slackens_of_eq rfl rfl rfl
    · exact slackens_recompute frames n

theorem slackens_read (s : NetHost V) (n : NodeId) (tracked : Bool) :
    Slackens but s (s.read n tracked) := by
  unfold NetHost.read
  split
  · exact slackens_of_eq rfl rfl rfl
  · split
    · exact slackens_of_eq rfl rfl rfl
    · exact slackens_refresh _ n
  · exact slackens_of_eq rfl rfl rfl

theorem slackens_lend (frames : List NetFrame) (n : NodeId) (tracked : Bool) :
    Slackens but s (({ s with frames } : NetHost V).lend layout n tracked) := by
  obtain ⟨hc, -, hs, -⟩ := Net.recordEdge_same s.net layout n
  unfold NetHost.lend
  dsimp only
  split
  · exact slackens_of_eq rfl rfl rfl
  · split
    · refine slackens_of_eq ?_ ?_ rfl <;> dsimp only [raise] <;> split
      · exact hc
      · rfl
      · exact hs
      · rfl
    · refine slackens_of_eq ?_ ?_ ?_ <;> dsimp only [push, Net.borrow] <;> split
      · exact hc
      · rfl
      · exact hs
      · rfl
      · exact (noteSaw_same _ n _).2.2.2.2.1
      · rfl

theorem slackens_write (hw : s.Wired) (n : NodeId) (v : V) : Slackens but s (s.write n v) := by
  have ha := Net.alike_setValue s.net n v
  obtain ⟨ht, -⟩ := Net.alerts_trigger (hw.net.alike ha) n
  have hbump : Net.Slack but (s.net.setValue n v) ((s.net.setValue n v).bumpVersion n) :=
    Net.slack_of_eq rfl rfl
  refine slackens_of_slack (ha.slack.trans (hbump.trans ht.toMarked.slack)) (fun m hm => ?_) rfl
  have hstack : ((s.net.setValue n v).trigger n).stack = s.net.stack := by
    rw [ht.toMarked.frame]
    rfl
  have hm : m ∈ ((s.net.setValue n v).trigger n).stack := hm
  rwa [hstack] at hm

theorem slackens_overwrite (hw : s.Wired) (n : NodeId) (f : V → V) :
    Slackens but s (s.overwrite n f) := by
  unfold NetHost.overwrite
  split
  · exact slackens_of_eq rfl rfl rfl
  · split
    · exact slackens_of_eq rfl rfl rfl
    · exact slackens_write hw n _

theorem slackens_set (hw : s.Wired) (n : NodeId) (v : V) : Slackens but s (s.set n v) := by
  unfold NetHost.set
  split
  · exact slackens_of_eq rfl rfl rfl
  · split
    · exact slackens_of_eq rfl rfl rfl
    · exact slackens_overwrite hw n _

theorem slackens_attempt {net : Net V} (ha : s.net.Alike net) (frames : List NetFrame)
    (e : NodeId) : Slackens but s (({ s with net, frames } : NetHost V).attempt e) := by
  unfold NetHost.attempt
  dsimp only
  split <;> exact slackens_of_alike (ha.trans (Net.alike_countRun net e)) rfl

theorem slackens_changed (frames : List NetFrame) (n : NodeId) :
    Slackens but s (({ s with frames } : NetHost V).changed n) := by
  unfold NetHost.changed
  dsimp only
  split
  · exact slackens_recompute frames n
  · exact slackens_attempt (.refl _) frames n

theorem slackens_runScheduled {net : Net V} (ha : s.net.Alike net) (e : NodeId) :
    Slackens but s (({ s with net } : NetHost V).runScheduled e) := by
  have hu : s.net.Alike (net.unlatch e) := ha.trans (Net.alike_modifyEffect net e _)
  unfold NetHost.runScheduled
  split
  · exact slackens_of_alike ha rfl
  · dsimp only
    split
    · exact slackens_of_alike hu rfl
    · split
      · exact slackens_attempt (hu.trans (Net.alike_modifyEffect _ e _)) s.frames e
      · exact slackens_of_alike (hu.trans (Net.alike_modifyEffect _ e _)) rfl
      · exact slackens_of_alike (hu.trans (Net.alike_modifyEffect _ e _)) rfl

theorem slackens_enterBody (s : NetHost V) (rest : List NetFrame) (e : NodeId) :
    Slackens but s (s.enterBody rest e) := by
  unfold NetHost.enterBody
  dsimp only
  split
  · exact slackens_of_eq rfl rfl rfl
  · exact slackens_of_start (Net.slack_start (fun _ _ => rfl) rfl rfl) rfl rfl

theorem slackens_pop (hw : s.Wired) {f : NetFrame} (hs : s.frames = f :: rest)
    (hf : f.context = some n) (he : t.started = s.started)
    (ht : t.net.stack = s.net.stack.tail)
    (hc : ∀ m, m ≠ n → t.net.computed m = s.net.computed m)
    (hn : ¬ but n → (t.net.computed n = none ∧ s.net.computed n = none) ∨
      ∃ y, t.net.computed n = some y ∧ y.state = .dirty) : Slackens but s t := by
  have hstack := hw.head hs hf
  refine slackens_of_slack (Net.slack_pop hstack ?_ hc hn) (fun m hm => ?_) he
  · rw [ht, hstack]
    rfl
  · rw [ht] at hm
    exact List.mem_of_mem_tail hm

theorem slackens_leave (hw : s.Wired) {untracked : ℕ} (hs : s.frames = .running e untracked :: rest)
    (ha : (s.net.leave untracked).Alike t.net) (he : t.started = s.started) :
    Slackens but s t := by
  obtain ⟨hc, -, -, -, -, -, -, htail⟩ := Net.leave_eq s.net untracked
  have hnone : s.net.computed e = none :=
    (hw.fits (.running e untracked) (by rw [hs]; exact List.mem_cons_self)).2
  refine slackens_pop hw hs rfl he (ha.stack.trans htail) (fun m _ => ?_) fun _ => .inl ⟨?_, hnone⟩
  · rw [ha.computed, hc]
  · rw [ha.computed, hc]
    exact hnone

theorem slackens_settle (hw : s.Wired) {untracked : ℕ}
    (hs : s.frames = .running e untracked :: rest) :
    Slackens but s (s.settle rest e untracked) := by
  refine slackens_leave hw hs ?_ rfl
  unfold NetHost.settle
  dsimp only
  split
  · exact Net.alike_scheduleEffect _ e
  · exact .refl _

theorem slackens_conclude (hw : s.Wired) {untracked : ℕ}
    (hs : s.frames = .computing n untracked :: rest) (x : NetComputed V) (v : V) (hb : but n) :
    Slackens but s (s.conclude rest n x untracked v) := by
  obtain ⟨-, -, htail⟩ := Wired.endCompute hw.net n x untracked
  have hcomp : (s.net.endCompute n x untracked).computed = s.net.computed :=
    (Net.level_endCompute s.net n x untracked).computed
  unfold NetHost.conclude
  dsimp only
  split
  · exact slackens_pop hw hs rfl rfl htail (fun m _ => congrFun hcomp m) fun hn => absurd hb hn
  · split
    · exact slackens_pop hw hs rfl rfl htail (fun m _ => congrFun hcomp m) fun hn => absurd hb hn
    · refine slackens_pop hw hs rfl rfl ((accept_stack _ n v _).trans htail) (fun m hm => ?_)
        fun hn => absurd hb hn
      rw [← hcomp]
      unfold Net.accept
      split <;> exact Function.update_of_ne hm _ _

theorem slackens_finish (hw : s.Wired) {v : V} (ht : s.finish v = some t) :
    Slackens (s.Settles (.finish v)) s t := by
  unfold NetHost.finish at ht
  split at ht
  · rename_i n untracked rest hs
    obtain ⟨x, -, rfl⟩ := Option.map_eq_some_iff.mp ht
    exact slackens_conclude hw hs x v (.returned v untracked rest rfl hs)
  · cases ht
    exact slackens_enterBody s _ _
  · rename_i hs
    cases ht
    exact slackens_settle hw hs
  · cases ht
    exact slackens_of_alike (Net.alike_giveBack _ _) rfl
  · cases ht
    exact slackens_of_alike (Net.alike_untracked _ _) rfl
  · cases ht

theorem slackens_next (ht : s.next layout = some t) :
    Slackens (s.Settles .next) s t := by
  unfold NetHost.next at ht
  split at ht
  · split at ht
    · cases ht
      exact slackens_of_alike (Net.alike_closeFlush s.net) rfl
    · cases ht
      exact slackens_runScheduled (Net.alike_jobs s.net _) _
  · rename_i n rest hs
    cases ht
    refine slackens_of_slack ⟨fun m hm hp => ?_, fun m hm hr => ?_⟩ (fun _ hm => hm) rfl
    · have hmn : m ≠ n := fun hmn => hm (.verified rest rfl (hmn ▸ hs))
      unfold Net.Pending at hp ⊢
      rw [Net.computed_setState, if_neg hmn]
      exact hp
    · have hmn : m ≠ n := fun hmn => hm (.verified rest rfl (hmn ▸ hs))
      unfold Net.Ready at hr ⊢
      rw [Net.computed_setState, if_neg hmn] at hr
      exact hr
  · split at ht
    · cases ht
      exact slackens_of_eq rfl rfl rfl
    · cases ht
      exact slackens_refresh _ _
  · split at ht
    · cases ht
      exact slackens_changed _ _
    · cases ht
      exact slackens_of_eq rfl rfl rfl
  · cases ht
    exact slackens_lend _ _ _
  · cases ht

theorem slackens_unwind (hw : s.Wired) (ht : s.unwind = some t) : Slackens but s t := by
  have hrecover : ∀ rest n, Slackens but s (s.recover rest n) := fun rest n =>
    slackens_of_alike ((Net.alike_modifyEffect s.net n _).trans (Net.alike_scheduleEffect _ n)) rfl
  unfold NetHost.unwind at ht
  split at ht
  · cases ht
  · rename_i n untracked rest hs
    obtain ⟨x, hx, rfl⟩ := Option.map_eq_some_iff.mp ht
    obtain ⟨-, -, htail⟩ := Wired.endCompute hw.net n x untracked
    have hcomp : (s.net.endCompute n x untracked).computed = s.net.computed :=
      (Net.level_endCompute s.net n x untracked).computed
    refine slackens_pop hw hs rfl rfl htail (fun m hm => ?_) fun _ => .inr ⟨{ x with state := .dirty }, ?_, rfl⟩
    · dsimp only
      rw [Net.computed_setState, if_neg hm, hcomp]
    · dsimp only
      rw [Net.computed_setState, if_pos rfl, hcomp, hx]
      rfl
  · rename_i hs
    cases ht
    exact slackens_leave hw hs (.refl _) rfl
  · cases ht
    exact hrecover _ _
  · cases ht
    exact hrecover _ _
  · cases ht
    exact slackens_of_alike (Net.alike_giveBack _ _) rfl
  · cases ht
    exact slackens_of_alike (Net.alike_untracked _ _) rfl
  · cases ht
    exact slackens_of_alike (Net.alike_closeFlush _) rfl
  · cases ht
    exact slackens_of_eq rfl rfl rfl
  · cases ht
    exact slackens_of_eq rfl rfl rfl

theorem slackens_made {net : Net V} (hw : s.Wired) (hs : net.stack = s.net.stack)
    (hc : ∀ m, m < s.net.nextNode → net.computed m = s.net.computed m)
    (hn : ∀ m x, s.net.nextNode ≤ m → net.computed m = some x → x.state = .dirty) :
    Slackens but s { s with net } :=
  slackens_of_slack (Net.slack_made hw.net hs hc hn) (fun _ hm => hs ▸ hm) rfl

/-- Only where a recomputation returns or a verification passes is a node settled. -/
theorem slackens_step (hw : s.Wired) (ht : s.step layout op = some t) :
    Slackens (s.Settles op) s t := by
  have hnew : ∀ (compute : Option V → Script V) (equals : Option (Equals V)),
      Slackens (s.Settles op) s { s with net := s.net.newComputed compute equals } := by
    intro compute equals
    refine slackens_made hw rfl (fun m hm => Function.update_of_ne (Nat.ne_of_lt hm) _ _)
      fun m x hm hx => ?_
    by_cases hmn : m = s.net.nextNode
    · have hx := (Function.update_self s.net.nextNode _ s.net.computed).symm.trans (hmn ▸ hx)
      cases hx
      rfl
    · have hx : s.net.computed m = some x := (Function.update_of_ne hmn _ _).symm.trans hx
      exact absurd (hw.net.known m x hx) (Nat.not_lt.mpr hm)
  cases op <;> simp only [NetHost.step] at ht <;> split at ht <;> try cases ht
  case signal v same _ => exact slackens_of_eq rfl rfl rfl
  case thunk p _ => exact hnew _ none
  case memo f equals _ => exact hnew f (some equals)
  case effect p _ =>
    have ha := Net.alike_scheduleEffect ({ s.net with
      nextNode := s.net.nextNode + 1
      effects := Function.update s.net.effects s.net.nextNode (some { body := p }) } : Net V)
      s.net.nextNode
    exact slackens_of_eq ha.computed ha.stack rfl
  case read n tracked _ => exact slackens_read s n tracked
  case set n v _ => exact slackens_set hw n v
  case update n f _ => exact slackens_overwrite hw n f
  case untrack => exact slackens_of_alike (Net.alike_untracked s.net _) rfl
  case flushNow =>
    unfold NetHost.flushNow
    split
    · exact slackens_of_eq rfl rfl rfl
    · exact slackens_of_alike (Net.alike_openFlush s.net) rfl
  case finish => exact slackens_finish hw ht
  case next => exact slackens_next ht
  case panic => exact slackens_of_eq rfl rfl rfl
  case catchUnwind => exact slackens_of_eq rfl rfl rfl
  case unwind => exact slackens_unwind hw ht

end NetHost

end Adaptite

import Adaptite.NetFrames

set_option autoImplicit false

namespace Adaptite

namespace Net

variable {V : Type} {net t : Net V} {n : NodeId}

/-- The recorded dependency is stale or running, or has changed since it was recorded. -/
def outdated (net : Net V) (e : NodeId × ℕ) : Bool :=
  net.version e.1 ≠ e.2 || net.isStale e.1 || (net.computed e.1).isSome && e.1 ∈ net.stack

theorem current_iff (net : Net V) (e : NodeId × ℕ) : net.Current e ↔ net.outdated e = false := by
  unfold Current outdated Settled isStale
  cases hx : net.computed e.1 with
  | none => simp
  | some x => simp [and_assoc]

end Net

namespace NetHost

variable {V : Type} {layout : Layout} {s t : NetHost V} {n e : NodeId} {rest : List NetFrame}

/-- A clean thunk or memo is about to record a node that is stale, a verification to end
over a recorded dependency that is out of date, or a recomputation to start that a clean
thunk or memo has recorded as it was. -/
def misses (s : NetHost V) : NetStep V → Bool
  | .next =>
    match s.frames with
    | .reading n true :: _ =>
      s.net.untracked = 0 && s.net.stack.head?.any s.net.isClean && s.net.isStale n
    | .verifying n [] :: _ =>
      (s.net.computed n).isSome && (s.net.dependencies n).any s.net.outdated
    | .awaiting n d version _ :: _ =>
      s.net.version d ≠ version && (s.net.computed n).isSome &&
        (s.net.dependents n).any s.net.isClean
    | _ => false
  | _ => false

section Exact

theorem exact_recompute (h : s.net.Exact) (hl : s.net.Lonely n) : (s.recompute n).net.Exact := by
  unfold NetHost.recompute
  cases hx : s.net.computed n with
  | none => exact h
  | some x =>
    dsimp only
    split
    · exact h.spoil .dirty State.noConfusion hl
    · have hset : ∀ o, o ≠ n → (s.net.setState n .clean).computed o = s.net.computed o :=
        fun o ho => by rw [Net.computed_setState, if_neg ho]
      have ha := Net.alike_occupy (s.net.setState n .clean) n x
      intro o y hy hc e he
      by_cases ho : o = n
      · have hnil : (s.net.beginCompute n x).dependencies n = [] := Function.update_self _ _ _
        rw [ho] at he
        have he : e ∈ (s.net.beginCompute n x).dependencies n := he
        rw [hnil] at he
        cases he
      · have hcomp : (s.net.beginCompute n x).computed = (s.net.setState n .clean).computed :=
          ha.computed
        have hdeps : (s.net.beginCompute n x).dependencies o = s.net.dependencies o :=
          (Function.update_of_ne ho _ _).trans (congrFun ha.dependencies o)
        have hy : (s.net.beginCompute n x).computed o = some y := hy
        rw [hcomp, hset o ho] at hy
        have he : e ∈ (s.net.beginCompute n x).dependencies o := he
        rw [hdeps] at he
        have hne := hl o y hy hc e he
        obtain ⟨hv, hs⟩ := h o y hy hc e he
        refine ⟨?_, fun z hz => ?_⟩
        · exact (congrFun ha.version e.1).trans hv
        · have hz : (s.net.beginCompute n x).computed e.1 = some z := hz
          rw [hcomp, hset e.1 hne] at hz
          refine ⟨(hs z hz).1, fun hin => ?_⟩
          have hstack : (s.net.beginCompute n x).stack = n :: s.net.stack :=
            congrArg (List.cons n) ha.stack
          have hin : e.1 ∈ (s.net.beginCompute n x).stack := hin
          rw [hstack] at hin
          exact (hs z hz).2 (List.mem_of_ne_of_mem hne hin)

theorem exact_refresh (h : s.net.Exact) (n : NodeId) : (s.refresh n).net.Exact := by
  unfold NetHost.refresh
  cases hx : s.net.computed n with
  | none => exact h
  | some x =>
    dsimp only
    split
    · exact h
    · exact h
    · rename_i hd
      exact exact_recompute h (h.lonely hx (.inl (by rw [hd]; exact State.noConfusion)))

theorem exact_read (h : s.net.Exact) (n : NodeId) (tracked : Bool) :
    (s.read n tracked).net.Exact := by
  unfold NetHost.read
  split
  · exact h
  · split
    · exact h
    · exact exact_refresh (s := s.push (.reading n tracked)) h n
  · exact h

theorem exact_lend (hw : s.Wired) (h : s.net.Exact) {tracked : Bool}
    (hm : tracked = true → s.net.untracked = 0 → s.net.stack.head?.any s.net.isClean = true →
      s.net.isStale n = false) : (s.lend layout n tracked).net.Exact := by
  unfold NetHost.lend
  split
  · exact h
  · rename_i hcycle
    have hrec : (if tracked = true then s.net.recordEdge layout n else s.net).Exact := by
      split
      · rename_i htr
        refine h.recordEdge fun hu o y ho hy hc x hx => ?_
        refine ⟨Net.not_isStale (hm htr hu ?_) hx, fun hin => ?_⟩
        · rw [ho]
          exact Net.isClean_iff.mpr ⟨y, hy, hc⟩
        · rw [htr, Bool.true_and, Bool.not_eq_true] at hcycle
          exact hw.net.idle hcycle hin
      · exact h
    dsimp only
    split
    · exact hrec
    · exact hrec.alike (Net.alike_borrow _ n)

theorem exact_write (hw : s.Wired) (h : s.net.Exact) (n : NodeId) (v : V) :
    (s.write n v).net.Exact := by
  have ha := Net.alike_setValue s.net n v
  exact (h.alike ha).trigger (hw.net.alike ha) n

theorem exact_overwrite (hw : s.Wired) (h : s.net.Exact) (n : NodeId) (f : V → V) :
    (s.overwrite n f).net.Exact := by
  unfold NetHost.overwrite
  split
  · exact h
  · split
    · exact h
    · exact exact_write hw h n _

theorem exact_set (hw : s.Wired) (h : s.net.Exact) (n : NodeId) (v : V) :
    (s.set n v).net.Exact := by
  unfold NetHost.set
  split
  · exact h
  · split
    · exact h
    · exact exact_overwrite hw h n _

theorem exact_endCompute (hw : s.Wired) (h : s.net.Exact) {untracked : ℕ} {x : NetComputed V}
    (hs : s.frames = .computing n untracked :: rest) (hx : s.net.computed n = some x) :
    (s.net.endCompute n x untracked).Exact ∧ (s.net.endCompute n x untracked).Lonely n := by
  have hin : n ∈ s.net.stack := by
    rw [hw.head hs rfl]
    exact List.mem_cons_self
  have hv := Net.alike_vacate (s.net.leave untracked) n x
  exact ⟨(h.leave untracked).alike hv, ((h.lonely hx (.inr hin)).leave untracked).alike hv⟩

theorem exact_conclude (hw : s.Wired) (h : s.net.Exact) {untracked : ℕ} {x : NetComputed V}
    (hs : s.frames = .computing n untracked :: rest) (hx : s.net.computed n = some x) (v : V) :
    (s.conclude rest n x untracked v).net.Exact := by
  obtain ⟨h1, h2⟩ := exact_endCompute hw h hs hx
  unfold NetHost.conclude
  dsimp only
  split
  · exact h1
  · split
    · exact h1
    · exact h1.accept h2 v _

theorem exact_attempt (h : s.net.Exact) (e : NodeId) : (s.attempt e).net.Exact := by
  unfold NetHost.attempt
  dsimp only
  split
  · exact h.alike (Net.alike_countRun s.net e)
  · exact h.alike (Net.alike_countRun s.net e)

theorem exact_changed (hw : s.Wired) (h : s.net.Exact)
    (hm : (s.net.computed n).isSome = true → (s.net.dependents n).any s.net.isClean = false) :
    (s.changed n).net.Exact := by
  unfold NetHost.changed
  split
  · rename_i x hx
    refine exact_recompute h fun o y hy hc e he hne => ?_
    have ho : o ∈ s.net.dependents n := (hw.net.inverse o n).mp ⟨e.2, hne ▸ he⟩
    have := List.any_eq_false.mp (hm (by rw [hx]; rfl)) o ho
    exact this (Net.isClean_iff.mpr ⟨y, hy, hc⟩)
  · exact exact_attempt h n

theorem exact_runScheduled (h : s.net.Exact) (e : NodeId) : (s.runScheduled e).net.Exact := by
  have hu := h.alike (Net.alike_modifyEffect s.net e fun x => { x with scheduled := false })
  unfold NetHost.runScheduled
  split
  · exact h
  · dsimp only
    split
    · exact hu
    · have hm := hu.alike (Net.alike_modifyEffect (s.net.unlatch e) e fun x =>
        { x with state := .clean })
      split
      · exact exact_attempt (s := { s with net := (s.net.unlatch e).modifyEffect e fun x =>
          { x with state := .clean } }) hm e
      · exact hm
      · exact hm

theorem exact_enterBody (hw : s.Wired) (h : s.net.Exact) (hs : s.frames = .resetting e :: rest) :
    (s.enterBody rest e).net.Exact := by
  obtain ⟨-, hc⟩ : e < s.net.nextNode ∧ s.net.computed e = none :=
    hw.fits (.resetting e) (by rw [hs]; exact List.mem_cons_self)
  unfold NetHost.enterBody
  dsimp only
  split
  · exact h
  · exact h.enter (.inr hc)

theorem exact_settle (h : s.net.Exact) (untracked : ℕ) :
    (s.settle rest e untracked).net.Exact := by
  unfold NetHost.settle
  dsimp only
  split
  · exact (h.leave untracked).alike (Net.alike_scheduleEffect _ e)
  · exact h.leave untracked

theorem exact_finish (hw : s.Wired) (h : s.net.Exact) {v : V} (ht : s.finish v = some t) :
    t.net.Exact := by
  unfold NetHost.finish at ht
  split at ht
  · rename_i hs
    obtain ⟨x, hx, rfl⟩ := Option.map_eq_some_iff.mp ht
    exact exact_conclude hw h hs hx v
  · rename_i hs
    cases ht
    exact exact_enterBody hw h hs
  · cases ht
    exact exact_settle h _
  · cases ht
    exact h.alike (Net.alike_giveBack _ _)
  · cases ht
    exact h.alike (Net.alike_untracked _ _)
  · cases ht

theorem exact_next (hw : s.Wired) (h : s.net.Exact) (hm : s.misses .next = false)
    (ht : s.next layout = some t) : t.net.Exact := by
  unfold NetHost.misses at hm
  unfold NetHost.next at ht
  split at ht
  · split at ht
    · cases ht
      exact h.alike (Net.alike_closeFlush _)
    · rename_i e jobs _
      cases ht
      exact exact_runScheduled (s := { s with net := { s.net with pendingJobs := jobs } })
        (h.alike (Net.alike_jobs _ _)) e
  · rename_i n rest hs
    cases ht
    simp only [hs] at hm
    cases hx : s.net.computed n with
    | none =>
      have hsame : s.net.setState n .clean = s.net := by
        unfold Net.setState Net.modifyComputed
        rw [hx, Option.map_none, ← hx, Function.update_eq_self]
      change (s.net.setState n .clean).Exact
      rw [hsame]
      exact h
    | some x =>
      rw [hx, Option.isSome_some, Bool.true_and] at hm
      refine h.settle fun e he => (Net.current_iff s.net e).mpr ?_
      exact Bool.eq_false_iff.mpr (List.any_eq_false.mp hm e he)
  · rename_i n d version entries rest hs
    split at ht
    · cases ht
      exact h
    · cases ht
      exact exact_refresh (s := { s with frames := .awaiting n d version entries :: rest }) h d
  · rename_i n d version entries rest hs
    split at ht
    · rename_i hne
      cases ht
      simp only [hs] at hm
      refine exact_changed (hw.pop hs rfl) (s := { s with frames := rest }) h fun hx => ?_
      rw [decide_eq_true hne, Bool.true_and, hx, Bool.true_and] at hm
      exact hm
    · cases ht
      exact h
  · rename_i n tracked rest hs
    cases ht
    simp only [hs] at hm
    refine exact_lend (hw.pop hs rfl) (s := { s with frames := rest }) h fun htr hu ho => ?_
    subst htr
    dsimp only at hm hu ho
    rw [decide_eq_true hu, ho, Bool.true_and, Bool.true_and] at hm
    exact hm
  · cases ht

theorem exact_unwind (hw : s.Wired) (h : s.net.Exact) (ht : s.unwind = some t) : t.net.Exact := by
  have hrecover : ∀ (rest : List NetFrame) (n : NodeId), (s.recover rest n).net.Exact :=
    fun rest n => h.alike
      ((Net.alike_modifyEffect _ n _).trans (Net.alike_scheduleEffect _ n))
  unfold NetHost.unwind at ht
  split at ht
  · cases ht
  · rename_i hs
    obtain ⟨x, hx, rfl⟩ := Option.map_eq_some_iff.mp ht
    obtain ⟨h1, h2⟩ := exact_endCompute hw h hs hx
    exact h1.spoil .dirty State.noConfusion h2
  · cases ht
    exact h.leave _
  · cases ht
    exact hrecover _ _
  · cases ht
    exact hrecover _ _
  · cases ht
    exact h.alike (Net.alike_giveBack _ _)
  · cases ht
    exact h.alike (Net.alike_untracked _ _)
  · cases ht
    exact h.alike (Net.alike_closeFlush _)
  · cases ht
    exact h
  · cases ht
    exact h

theorem exact_step (hw : s.Wired) (h : s.net.Exact) (op : NetStep V) (hm : s.misses op = false)
    (ht : s.step layout op = some t) : t.net.Exact := by
  cases op <;> simp only [NetHost.step] at ht <;> split at ht <;> try cases ht
  case signal v same _ => exact h.grown hw.net rfl rfl rfl fun _ _ => rfl
  case thunk => exact h.newComputed hw.net _ _
  case memo => exact h.newComputed hw.net _ _
  case effect p _ => exact h.newEffect p
  case read => exact exact_read h _ _
  case set => exact exact_set hw h _ _
  case update => exact exact_overwrite hw h _ _
  case untrack => exact h.alike (Net.alike_untracked _ _)
  case flushNow =>
    unfold NetHost.flushNow
    split
    · exact h
    · exact h.alike (Net.alike_openFlush _)
  case finish => exact exact_finish hw h ht
  case next => exact exact_next hw h hm ht
  case panic => exact h
  case catchUnwind => exact h
  case unwind => exact exact_unwind hw h ht

end Exact

/-- The states that a run reaches in which no mark is missed. -/
def ReachedUnmissed (layout : Layout) (s : NetHost V) : Prop :=
  Runs.Reaches (NetHost.step layout) (fun s op => (!s.misses op) = true) {} s

theorem ReachedUnmissed.exact (h : s.ReachedUnmissed layout) : s.Wired ∧ s.net.Exact := by
  refine h.invariant (fun s => s.Wired ∧ s.net.Exact) ⟨wired_empty, fun n x hx => by cases hx⟩ ?_
  rintro s op t ⟨hw, he⟩ ok ht
  exact ⟨hw.step op ht, exact_step hw he op (by simpa using ok) ht⟩

/-- A thunk reads a signal, and a second thunk reads the first. -/
def chain : List (NetStep ℕ) :=
  [.signal 0 (· == ·), .thunk (.get 1 fun v => .ret v), .thunk (.get 2 fun v => .ret v),
    .read 3 true, .read 2 true, .read 1 true, .next, .finish 0, .finish 0, .next, .finish 0,
    .finish 0]

end NetHost

end Adaptite

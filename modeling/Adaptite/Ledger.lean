import Adaptite.PureRuns

set_option autoImplicit false

namespace Adaptite

def NetComputed.unmarked {V : Type} (x : NetComputed V) : NetComputed V :=
  { x with state := .clean }

/-- What reads and runs leave behind. -/
structure Ledger (V : Type) where
  nextNode : ℕ
  signals : NodeId → Option (NetSignal V)
  cells : NodeId → Option (NetComputed V)
  version : NodeId → ℕ
  dependencies : NodeId → EdgeTable
  saw : NodeId → List (NodeId × ℕ × V)
  ran : List NodeId
  started : List NodeId

namespace Net

variable {V : Type} {net t u : Net V} {n m : NodeId} {x y : NetComputed V}

structure Level (net t : Net V) : Prop where
  nextNode : t.nextNode = net.nextNode
  signals : t.signals = net.signals
  version : t.version = net.version
  dependencies : t.dependencies = net.dependencies
  computed : t.computed = net.computed

theorem Level.refl (net : Net V) : net.Level net := ⟨rfl, rfl, rfl, rfl, rfl⟩

theorem Level.trans (h : net.Level t) (h' : t.Level u) : net.Level u :=
  ⟨h'.nextNode.trans h.nextNode, h'.signals.trans h.signals, h'.version.trans h.version,
    h'.dependencies.trans h.dependencies, h'.computed.trans h.computed⟩

theorem level_occupy (net : Net V) (n : NodeId) (x : NetComputed V) :
    net.Level (net.occupy n x) := by
  unfold occupy
  split
  · exact ⟨rfl, rfl, rfl, rfl, rfl⟩
  · exact .refl net

theorem level_vacate (net : Net V) (n : NodeId) (x : NetComputed V) :
    net.Level (net.vacate n x) := by
  unfold vacate
  split
  · exact ⟨rfl, rfl, rfl, rfl, rfl⟩
  · exact .refl net

theorem level_leave (net : Net V) (untracked : ℕ) : net.Level (net.leave untracked) := by
  obtain ⟨h1, h2, h3, h4, -, h6, -⟩ := leave_eq net untracked
  exact ⟨h6, h4, h3, h2, h1⟩

theorem level_endCompute (net : Net V) (n : NodeId) (x : NetComputed V) (untracked : ℕ) :
    net.Level (net.endCompute n x untracked) :=
  (level_leave net untracked).trans (level_vacate _ n x)

theorem level_scheduleEffect (net : Net V) (e : NodeId) : net.Level (net.scheduleEffect e) := by
  unfold scheduleEffect
  split
  · exact .refl net
  · split
    · exact .refl net
    · exact ⟨rfl, rfl, rfl, rfl, rfl⟩

/-- No thunk or memo has been marked, and none has been made. -/
def Calmed (net t : Net V) : Prop :=
  ∀ n y, t.computed n = some y → ∃ x, net.computed n = some x ∧
    (y.state = x.state ∨ y.state = .clean)

theorem calmed_of_eq (h : t.computed = net.computed) : net.Calmed t := by
  intro n y hy
  rw [h] at hy
  exact ⟨y, hy, .inl rfl⟩

theorem calmed_setState (net : Net V) (n : NodeId) : net.Calmed (net.setState n .clean) := by
  intro m y hy
  rw [computed_setState] at hy
  split at hy
  · rename_i hm
    obtain ⟨z, hz, rfl⟩ := Option.map_eq_some_iff.mp hy
    exact ⟨z, hm ▸ hz, .inr rfl⟩
  · exact ⟨y, hy, .inl rfl⟩

theorem Calmed.same (h : net.Calmed t) (hu : u.computed = t.computed) : net.Calmed u := by
  intro n y hy
  rw [hu] at hy
  exact h n y hy

end Net

namespace NetHost

variable {V : Type} {layout : Layout} {s t : NetHost V} {n e : NodeId} {rest : List NetFrame}
  {net : Net V} {x : NetComputed V}

def ledger (s : NetHost V) : Ledger V where
  nextNode := s.net.nextNode
  signals := s.net.signals
  cells n := (s.net.computed n).map NetComputed.unmarked
  version := s.net.version
  dependencies := s.net.dependencies
  saw := s.saw
  ran := s.ran
  started := s.started

/-- What makes a compute or a body run: a mark, a dependency found to have changed, or the
end of the teardown before the body. -/
inductive Calls (s : NetHost V) (op : NetStep V) (n : NodeId) : Prop where
  | marked (x : NetComputed V) (hx : s.net.computed n = some x) (hs : x.state = .dirty)
  | changed (d : NodeId) (version : ℕ) (entries : EdgeTable) (rest : List NetFrame)
      (hs : s.frames = .awaiting n d version entries :: rest) (hv : s.net.version d ≠ version)
      (hn : (s.net.computed n).isSome = true)
  | body (v : V) (rest : List NetFrame) (hop : op = .finish v) (hs : s.frames = .resetting n :: rest)

inductive Shift (layout : Layout) (s : NetHost V) (op : NetStep V) (t : NetHost V) : Prop where
  | steady (h : t.ledger = s.ledger) (calm : t.unwinding = false → s.net.Calmed t.net)
  | signal (value : V) (same : V → V → Bool)
      (h : t.ledger = { s.ledger with
        nextNode := s.net.nextNode + 1
        signals := Function.update s.net.signals s.net.nextNode (some { value, same }) })
      (calm : s.net.Calmed t.net)
  | computed (compute : Option V → Script V) (equals : Option (Equals V))
      (hop : ∀ k, equals = some k → op = .memo compute k)
      (ht : t.net = s.net.newComputed compute equals)
      (h : t.ledger = { s.ledger with
        nextNode := s.net.nextNode + 1
        cells := Function.update s.ledger.cells s.net.nextNode
          (some { compute, equals, state := .clean }) })
  | effect (body : Script V) (ht : t = { s with net := s.net.newEffect body })
      (h : t.ledger = { s.ledger with nextNode := s.net.nextNode + 1 })
      (calm : s.net.Calmed t.net)
  | entered (n : NodeId) (why : s.Calls op n) (hu : s.unwinding = false)
      (h : t.ledger = { s.ledger with
        dependencies := Function.update s.net.dependencies n []
        saw := Function.update s.saw n []
        ran := n :: s.ran
        started := n :: s.started })
      (calm : s.net.Calmed t.net)
      (clean : ∀ y, t.net.computed n = some y → y.state = .clean)
  | lent (n o : NodeId) (rest : List NetFrame) (stack : List NodeId)
      (hs : s.frames = .reading n true :: rest) (hn : s.net.untracked = 0)
      (ho : s.net.stack = o :: stack) (hu : s.unwinding = false)
      (h : t.ledger = { s.ledger with
        dependencies := (s.net.recordEdge layout n).dependencies
        saw := (s.net.cached n).elim s.saw fun v =>
          Function.update s.saw o ((n, s.net.version n, v) :: s.saw o) })
      (calm : s.net.Calmed t.net)
  | stored (n : NodeId) (v : V) (changed : Bool) (untracked : ℕ) (rest : List NetFrame)
      (x : NetComputed V) (hs : s.frames = .computing n untracked :: rest) (hop : op = .finish v)
      (hx : s.net.computed n = some x) (hd : x.differs v = .ok changed)
      (hb : t.unwinding = false)
      (h : t.ledger = { s.ledger with
        cells := Function.update s.ledger.cells n (some { x.unmarked with value := some v })
        version := if changed then Function.update s.net.version n (s.net.version n + 1)
          else s.net.version })
      (calm : s.net.Calmed t.net)
  | wrote (n : NodeId) (v : V) (y : NetSignal V) (hy : s.net.signals n = some y)
      (hop : op.isWrite = true) (hu : s.calling = true)
      (ht : t = s.write n v)
      (h : t.ledger = { s.ledger with
        signals := Function.update s.net.signals n (some { y with value := v })
        version := Function.update s.net.version n (s.net.version n + 1)
        ran := [] })

theorem Shift.level {op : NetStep V} (h : s.net.Level t.net) (hs : t.saw = s.saw)
    (hr : t.ran = s.ran) (hst : t.started = s.started) : Shift layout s op t := by
  refine .steady ?_ fun _ => Net.calmed_of_eq h.computed
  unfold ledger
  rw [h.nextNode, h.signals, h.computed, h.version, h.dependencies, hs, hr, hst]

theorem cells_marked {u : Net V} (h : net.Marked u) (n : NodeId) :
    (u.computed n).map NetComputed.unmarked = (net.computed n).map NetComputed.unmarked := by
  have hn := h.computed n
  generalize net.computed n = a at hn
  generalize u.computed n = b at hn
  cases hn with
  | none => rfl
  | some hxy =>
    rw [hxy.1]
    rfl

theorem ledger_setState (s : NetHost V) (n : NodeId) (state : State) :
    ({ s with net := s.net.setState n state } : NetHost V).ledger = s.ledger := by
  unfold ledger
  congr 1
  funext m
  change ((s.net.setState n state).computed m).map NetComputed.unmarked = _
  rw [Net.computed_setState]
  split
  · rename_i hm
    subst hm
    cases s.net.computed m with
    | none => rfl
    | some x => rfl
  · rfl

theorem ledger_newComputed (s : NetHost V) (compute : Option V → Script V)
    (equals : Option (Equals V)) :
    ({ s with net := s.net.newComputed compute equals } : NetHost V).ledger = { s.ledger with
      nextNode := s.net.nextNode + 1
      cells := Function.update s.ledger.cells s.net.nextNode
        (some { compute, equals, state := .clean }) } := by
  unfold ledger
  congr 1
  funext m
  exact Function.apply_update (fun _ => Option.map NetComputed.unmarked) s.net.computed _ _ m

theorem unwinding_of_calling (h : s.calling = true) : s.unwinding = false := by
  unfold calling at h
  rw [Bool.and_eq_true, Bool.not_eq_true'] at h
  exact h.1

section Functions

variable {op : NetStep V} {frames : List NetFrame}

theorem shift_recompute (why : s.Calls op n) (hu : s.unwinding = false) :
    Shift layout s op (({ s with frames } : NetHost V).recompute n) := by
  unfold NetHost.recompute
  dsimp only
  cases hx : s.net.computed n with
  | none => exact .level (.refl _) rfl rfl rfl
  | some x =>
    dsimp only
    split
    · exact .steady (ledger_setState s n .dirty) fun h => by cases h
    · have ho := Net.level_occupy (s.net.setState n .clean) n x
      have hcells := ledger_setState s n .clean
      refine .entered n why hu ?_ ?_ ?_
      · have hdeps : (s.net.beginCompute n x).dependencies =
            Function.update s.net.dependencies n [] := by
          change Function.update ((s.net.setState n .clean).occupy n x).dependencies n [] = _
          rw [ho.dependencies]
          rfl
        unfold ledger at hcells ⊢
        unfold begin
        congr 1
        · exact ho.nextNode
        · exact ho.signals
        · exact (congrArg (fun (f : NodeId → Option (NetComputed V)) m =>
            (f m).map NetComputed.unmarked) ho.computed).trans (congrArg Ledger.cells hcells)
        · exact ho.version
      · exact (Net.calmed_setState s.net n).same ho.computed
      · intro y hy
        have hy := (congrFun ho.computed n).symm.trans hy
        rw [Net.computed_setState, if_pos rfl] at hy
        obtain ⟨z, -, rfl⟩ := Option.map_eq_some_iff.mp hy
        rfl

theorem shift_refresh (hu : s.unwinding = false) (n : NodeId) :
    Shift layout s op (({ s with frames } : NetHost V).refresh n) := by
  unfold NetHost.refresh
  dsimp only
  cases hx : s.net.computed n with
  | none => exact .level (.refl _) rfl rfl rfl
  | some x =>
    dsimp only
    split
    · exact .level (.refl _) rfl rfl rfl
    · exact .level (.refl _) rfl rfl rfl
    · rename_i hd
      exact shift_recompute (.marked x hx hd) hu

theorem shift_read (hu : s.unwinding = false) (n : NodeId) (tracked : Bool) :
    Shift layout s op (s.read n tracked) := by
  unfold NetHost.read
  split
  · exact .level (.refl _) rfl rfl rfl
  · split
    · exact .level (.refl _) rfl rfl rfl
    · exact shift_refresh hu n
  · exact .level (.refl _) rfl rfl rfl

theorem ledger_lend (hc : (s.net.cycleCheck n).isSome = false) :
    (s.lend layout n true).ledger = { s.ledger with
      dependencies := (s.net.recordEdge layout n).dependencies
      saw := (s.net.cached n).elim s.saw fun v => (s.noteSaw n v).saw } ∧
    (s.lend layout n true).net.computed = s.net.computed := by
  obtain ⟨hcomp, hversion, -, hsignals, -, hnext⟩ := Net.recordEdge_same s.net layout n
  unfold NetHost.lend
  rw [Bool.true_and, if_neg (Bool.eq_false_iff.mp hc)]
  dsimp only
  cases s.net.cached n with
  | none =>
    refine ⟨?_, hcomp⟩
    unfold ledger
    simp only [if_true, hcomp, hversion, hsignals, hnext]
    rfl
  | some v =>
    obtain ⟨-, -, -, hran, hstarted, -⟩ := noteSaw_same s n v
    refine ⟨?_, hcomp⟩
    unfold ledger push Net.borrow
    simp only [if_true, hcomp, hversion, hsignals, hnext, hran, hstarted]
    rfl

theorem shift_peeked (n : NodeId) : Shift layout s op
    (({ s with frames } : NetHost V).lend layout n false) := by
  unfold NetHost.lend
  dsimp only
  split
  · exact .level (.refl _) rfl rfl rfl
  · split
    · exact .level (.refl _) rfl rfl rfl
    · exact .level ⟨rfl, rfl, rfl, rfl, rfl⟩ rfl rfl rfl

theorem shift_lend {tracked : Bool} (hu : s.unwinding = false)
    (hs : s.frames = .reading n tracked :: rest) :
    Shift layout s op (({ s with frames := rest } : NetHost V).lend layout n tracked) := by
  cases tracked with
  | false => exact shift_peeked n
  | true =>
    cases hc : (s.net.cycleCheck n).isSome with
    | true =>
      unfold NetHost.lend
      dsimp only
      rw [hc]
      exact .level (.refl _) rfl rfl rfl
    | false =>
      obtain ⟨hl, hcomp⟩ :=
        @ledger_lend V layout ({ s with frames := rest } : NetHost V) n hc
      have hnone : ∀ {k : V → NodeId → List (NodeId × ℕ × V)},
          (∀ v, k v = s.saw) → (s.net.cached n).elim s.saw k = s.saw := by
        intro k hk
        cases s.net.cached n with
        | none => rfl
        | some v => exact hk v
      by_cases hz : 0 < s.net.untracked
      · have hr : s.net.recordEdge layout n = s.net := if_pos hz
        refine .steady (hl.trans ?_) fun _ => Net.calmed_of_eq hcomp
        rw [hr, hnone fun v => by unfold noteSaw; rw [if_pos hz]]
        rfl
      · cases ho : s.net.stack with
        | nil =>
          have hr : s.net.recordEdge layout n = s.net := by
            unfold Net.recordEdge
            rw [if_neg hz, ho]
          refine .steady (hl.trans ?_) fun _ => Net.calmed_of_eq hcomp
          rw [hr, hnone fun v => by unfold noteSaw; rw [if_neg hz, ho]]
          rfl
        | cons o stack =>
          refine .lent n o rest stack hs (by omega) ho hu (hl.trans ?_) (Net.calmed_of_eq hcomp)
          have hsaw : ∀ v, (({ s with frames := rest } : NetHost V).noteSaw n v).saw =
              Function.update s.saw o ((n, s.net.version n, v) :: s.saw o) := by
            intro v
            unfold noteSaw
            rw [if_neg hz, ho]
          simp only [hsaw]
          rfl

theorem shift_attempt (hl : s.net.Level net) (frames : List NetFrame) (e : NodeId) :
    Shift layout s op (({ s with net, frames } : NetHost V).attempt e) := by
  unfold NetHost.attempt
  dsimp only
  split
  · exact .level (hl.trans ⟨rfl, rfl, rfl, rfl, rfl⟩) rfl rfl rfl
  · exact .level (hl.trans ⟨rfl, rfl, rfl, rfl, rfl⟩) rfl rfl rfl

theorem shift_runScheduled (hl : s.net.Level net) (e : NodeId) :
    Shift layout s op (({ s with net } : NetHost V).runScheduled e) := by
  have hu : s.net.Level (net.unlatch e) := hl.trans ⟨rfl, rfl, rfl, rfl, rfl⟩
  unfold NetHost.runScheduled
  split
  · exact .level hl rfl rfl rfl
  · dsimp only
    split
    · exact .level hu rfl rfl rfl
    · split
      · refine shift_attempt (hu.trans ?_) s.frames e
        exact ⟨rfl, rfl, rfl, rfl, rfl⟩
      · exact .level (hu.trans ⟨rfl, rfl, rfl, rfl, rfl⟩) rfl rfl rfl
      · exact .level (hu.trans ⟨rfl, rfl, rfl, rfl, rfl⟩) rfl rfl rfl

theorem shift_write {y : NetSignal V} (hw : s.Wired) (hy : s.net.signals n = some y)
    (hop : op.isWrite = true) (hc : s.calling = true) (v : V) :
    Shift layout s op (s.write n v) := by
  obtain ⟨ha, -⟩ := Net.alerts_trigger (hw.net.alike (Net.alike_setValue s.net n v)) n
  have hm := ha.toMarked
  have hsignals : (s.net.setValue n v).signals =
      Function.update s.net.signals n (some { y with value := v }) := by
    unfold Net.setValue
    rw [hy]
    rfl
  refine .wrote n v y hy hop hc rfl ?_
  have hcells : (fun m => (((s.net.setValue n v).trigger n).computed m).map NetComputed.unmarked) =
      s.ledger.cells := funext fun m => cells_marked hm m
  unfold ledger write
  congr 1
  · rw [hm.frame]
    rfl
  · rw [hm.frame]
    exact hsignals
  · rw [hm.frame]
    rfl
  · rw [hm.frame]
    rfl

theorem shift_overwrite (hw : s.Wired) (hop : op.isWrite = true) (hc : s.calling = true)
    (n : NodeId) (f : V → V) : Shift layout s op (s.overwrite n f) := by
  unfold NetHost.overwrite
  split
  · exact .level (.refl _) rfl rfl rfl
  · rename_i y hy
    split
    · exact .level (.refl _) rfl rfl rfl
    · exact shift_write hw hy hop hc _

theorem shift_set (hw : s.Wired) (hop : op.isWrite = true) (hc : s.calling = true)
    (n : NodeId) (v : V) : Shift layout s op (s.set n v) := by
  unfold NetHost.set
  split
  · exact .level (.refl _) rfl rfl rfl
  · split
    · exact .level (.refl _) rfl rfl rfl
    · exact shift_overwrite hw hop hc n _

theorem shift_conclude {untracked : ℕ} (hs : s.frames = .computing n untracked :: rest)
    (hx : s.net.computed n = some x) (hu : s.unwinding = false) (v : V) :
    Shift layout s (.finish v) (s.conclude rest n x untracked v) := by
  have hl := Net.level_endCompute s.net n x untracked
  unfold NetHost.conclude
  dsimp only
  cases hd : x.differs v with
  | error w => exact .level hl rfl rfl rfl
  | ok changed =>
    dsimp only
    split
    · exact .level hl rfl rfl rfl
    · have hstore : ∀ m, (((s.net.endCompute n x untracked).accept n v changed).computed m) =
          if m = n then some { x with value := some v } else s.net.computed m := by
        intro m
        have ha : ((s.net.endCompute n x untracked).accept n v changed).computed =
            ((s.net.endCompute n x untracked).store n v).computed := by
          unfold Net.accept
          split <;> rfl
        rw [ha]
        unfold Net.store Net.modifyComputed
        dsimp only
        rw [hl.computed, hx]
        split
        · rename_i hm
          rw [hm, Function.update_self]
          rfl
        · rename_i hm
          exact Function.update_of_ne hm _ _
      refine .stored n v changed untracked rest x hs rfl hx hd hu ?_ fun m y hy => ?_
      · unfold ledger
        congr 1
        · rw [← hl.nextNode]
          unfold Net.accept
          split <;> rfl
        · rw [← hl.signals]
          unfold Net.accept
          split <;> rfl
        · funext m
          dsimp only
          rw [hstore]
          split
          · rename_i hm
            rw [hm, Function.update_self]
            rfl
          · rename_i hm
            rw [Function.update_of_ne hm]
        · rw [← hl.version]
          unfold Net.accept
          split <;> rfl
        · rw [← hl.dependencies]
          unfold Net.accept
          split <;> rfl
      · have hy := (hstore m).symm.trans hy
        split at hy
        · rename_i hm
          cases hy
          exact ⟨x, hm ▸ hx, .inl rfl⟩
        · exact ⟨y, hy, .inl rfl⟩

theorem shift_enterBody (hw : s.Wired) (hs : s.frames = .resetting e :: rest)
    (hu : s.unwinding = false) (v : V) : Shift layout s (.finish v) (s.enterBody rest e) := by
  have hnone : s.net.computed e = none :=
    (hw.fits (.resetting e) (by rw [hs]; exact List.mem_cons_self)).2
  unfold NetHost.enterBody
  dsimp only
  split
  · exact .level (.refl _) rfl rfl rfl
  · exact .entered e (.body v rest rfl hs) hu rfl (Net.calmed_of_eq rfl) fun y hy => by
      cases hnone.symm.trans hy

theorem shift_settle (e : NodeId) (untracked : ℕ) :
    Shift layout s op (s.settle rest e untracked) := by
  have hl := Net.level_leave s.net untracked
  unfold NetHost.settle
  dsimp only
  split
  · exact .level (hl.trans (Net.level_scheduleEffect _ e)) rfl rfl rfl
  · exact .level hl rfl rfl rfl

theorem shift_finish (hw : s.Wired) (hu : s.unwinding = false) {v : V} (ht : s.finish v = some t) :
    Shift layout s (.finish v) t := by
  unfold NetHost.finish at ht
  split at ht
  · rename_i hs
    obtain ⟨x, hx, rfl⟩ := Option.map_eq_some_iff.mp ht
    exact shift_conclude hs hx hu v
  · rename_i hs
    cases ht
    exact shift_enterBody hw hs hu v
  · cases ht
    exact shift_settle _ _
  · cases ht
    exact .level ⟨rfl, rfl, rfl, rfl, rfl⟩ rfl rfl rfl
  · cases ht
    exact .level ⟨rfl, rfl, rfl, rfl, rfl⟩ rfl rfl rfl
  · cases ht

theorem shift_next (hu : s.unwinding = false) (ht : s.next layout = some t) :
    Shift layout s .next t := by
  unfold NetHost.next at ht
  split at ht
  · split at ht
    · cases ht
      exact .level ⟨rfl, rfl, rfl, rfl, rfl⟩ rfl rfl rfl
    · cases ht
      refine shift_runScheduled ?_ _
      exact ⟨rfl, rfl, rfl, rfl, rfl⟩
  · rename_i n rest hs
    cases ht
    exact .steady (ledger_setState s n .clean) fun _ => Net.calmed_setState s.net n
  · split at ht
    · cases ht
      exact .level (.refl _) rfl rfl rfl
    · cases ht
      exact shift_refresh hu _
  · rename_i n d version entries rest hs
    split at ht
    · rename_i hv
      cases ht
      unfold NetHost.changed
      dsimp only
      cases hx : s.net.computed n with
      | some x => exact shift_recompute (.changed d version entries rest hs hv (by rw [hx]; rfl)) hu
      | none => exact shift_attempt (.refl _) rest n
    · cases ht
      exact .level (.refl _) rfl rfl rfl
  · rename_i hs
    cases ht
    exact shift_lend hu hs
  · cases ht

theorem shift_unwind (hu : s.unwinding = true) (ht : s.unwind = some t) :
    Shift layout s .unwind t := by
  have hrecover : ∀ rest n, Shift layout s .unwind (s.recover rest n) := fun rest n => by
    refine .level (Net.Level.trans ?_ (Net.level_scheduleEffect _ n)) rfl rfl rfl
    exact ⟨rfl, rfl, rfl, rfl, rfl⟩
  unfold NetHost.unwind at ht
  split at ht
  · cases ht
  · rename_i n untracked rest hs
    obtain ⟨x, hx, rfl⟩ := Option.map_eq_some_iff.mp ht
    have hl := Net.level_endCompute s.net n x untracked
    refine .steady ((ledger_setState { s with
      net := s.net.endCompute n x untracked, frames := rest } n .dirty).trans ?_) fun h => ?_
    · unfold ledger
      dsimp only
      rw [hl.nextNode, hl.signals, hl.computed, hl.version, hl.dependencies]
    · cases hu.symm.trans h
  · cases ht
    exact .level (Net.level_leave s.net _) rfl rfl rfl
  · cases ht
    exact hrecover _ _
  · cases ht
    exact hrecover _ _
  all_goals
    cases ht
    exact .level ⟨rfl, rfl, rfl, rfl, rfl⟩ rfl rfl rfl

end Functions

/-- Every step is one of these. -/
theorem shift_step (hw : s.Wired) {op : NetStep V} (ht : s.step layout op = some t) :
    Shift layout s op t := by
  cases op <;> simp only [NetHost.step] at ht <;> split at ht <;> try cases ht
  case signal v same hc => exact .signal v same rfl (Net.calmed_of_eq rfl)
  case thunk p _ =>
    exact .computed (fun _ => p) none (fun _ hk => by cases hk) rfl (ledger_newComputed s _ none)
  case memo f equals _ =>
    exact .computed f (some equals) (fun k hk => by cases hk; rfl) rfl
      (ledger_newComputed s f (some equals))
  case effect p _ =>
    have hl := Net.level_scheduleEffect ({ s.net with
      nextNode := s.net.nextNode + 1
      effects := Function.update s.net.effects s.net.nextNode (some { body := p }) } : Net V)
      s.net.nextNode
    refine .effect p rfl ?_ (Net.calmed_of_eq hl.computed)
    unfold ledger
    congr 1
    · exact hl.nextNode
    · exact hl.signals
    · funext m
      exact congrArg (Option.map NetComputed.unmarked) (congrFun hl.computed m)
    · exact hl.version
    · exact hl.dependencies
  case read n tracked hc => exact shift_read (unwinding_of_calling hc) n tracked
  case set n v hc => exact shift_set hw rfl hc n v
  case update n f hc => exact shift_overwrite hw rfl hc n f
  case untrack => exact .level ⟨rfl, rfl, rfl, rfl, rfl⟩ rfl rfl rfl
  case flushNow =>
    unfold NetHost.flushNow
    split
    · exact .level (.refl _) rfl rfl rfl
    · exact .level ⟨rfl, rfl, rfl, rfl, rfl⟩ rfl rfl rfl
  case finish hc => exact shift_finish hw (unwinding_of_calling hc) ht
  case next hu => exact shift_next (Bool.eq_false_iff.mpr hu) ht
  case panic => exact .level (.refl _) rfl rfl rfl
  case catchUnwind => exact .level (.refl _) rfl rfl rfl
  case unwind hu => exact shift_unwind hu ht

end NetHost

end Adaptite

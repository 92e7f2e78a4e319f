import Adaptite.Ledger

set_option autoImplicit false

namespace Adaptite

namespace Net

variable {V : Type} {net t u : Net V} {n m : NodeId}

/-- A dependency has changed since it was recorded. -/
def Outdated (net : Net V) (n : NodeId) : Prop :=
  ∃ e ∈ net.dependencies n, e.2 < net.version e.1

/-- No version is recorded that the node has not reached. -/
def Bounded (net : Net V) : Prop := ∀ o, ∀ e ∈ net.dependencies o, e.2 ≤ net.version e.1

/-- Only what `S` allows has turned dirty. -/
structure Dirtied (S : NodeId → Prop) (net t : Net V) : Prop where
  dependents : t.dependents = net.dependents
  computed : ∀ m y, t.computed m = some y → y.state = .dirty →
    S m ∨ ∃ x, net.computed m = some x ∧ x.state = .dirty
  effects : ∀ m y, t.effects m = some y → y.state = .dirty →
    S m ∨ ∃ x, net.effects m = some x ∧ x.state = .dirty

variable {S S' : NodeId → Prop}

theorem Dirtied.refl (S : NodeId → Prop) (net : Net V) : net.Dirtied S net :=
  ⟨rfl, fun _ y hy hd => .inr ⟨y, hy, hd⟩, fun _ y hy hd => .inr ⟨y, hy, hd⟩⟩

theorem Dirtied.trans (h : net.Dirtied S t) (h' : t.Dirtied S u) : net.Dirtied S u := by
  refine ⟨h'.dependents.trans h.dependents, fun m y hy hd => ?_, fun m y hy hd => ?_⟩
  · rcases h'.computed m y hy hd with hS | ⟨x, hx, hxd⟩
    · exact .inl hS
    · exact h.computed m x hx hxd
  · rcases h'.effects m y hy hd with hS | ⟨x, hx, hxd⟩
    · exact .inl hS
    · exact h.effects m x hx hxd

theorem Dirtied.mono (h : net.Dirtied S t) (hS : ∀ m, S m → S' m) : net.Dirtied S' t :=
  ⟨h.dependents, fun m y hy hd => (h.computed m y hy hd).imp_left (hS m),
    fun m y hy hd => (h.effects m y hy hd).imp_left (hS m)⟩

theorem dirtied_setState (net : Net V) {mark : Mark} (hS : mark = .dirty → S m) :
    net.Dirtied S (net.setState m mark.toState) := by
  refine ⟨rfl, fun i y hy hd => ?_, fun i y hy hd => .inr ⟨y, hy, hd⟩⟩
  rw [computed_setState] at hy
  split at hy
  · rename_i hi
    obtain ⟨x, -, rfl⟩ := Option.map_eq_some_iff.mp hy
    subst hi
    cases mark with
    | check => cases hd
    | dirty => exact .inl (hS rfl)
  · exact .inr ⟨y, hy, hd⟩

theorem dirtied_markEffect (net : Net V) {mark : Mark} (hS : mark = .dirty → S m) :
    net.Dirtied S (net.markEffect m mark) := by
  have hraise : ∀ s : State, s.raise mark = .dirty → mark = .dirty ∨ s = .dirty := by
    intro s
    unfold State.raise
    cases mark <;> cases s <;> decide
  have hmodify : ∀ i y, (net.modifyEffect m fun x =>
      { x with state := x.state.raise mark, scheduled := true }).effects i = some y →
      y.state = .dirty → S i ∨ ∃ x, net.effects i = some x ∧ x.state = .dirty := by
    intro i y hy hd
    by_cases hi : i = m
    · rw [hi] at hy
      have hy := (Function.update_self _ _ _).symm.trans hy
      obtain ⟨x, hx, rfl⟩ := Option.map_eq_some_iff.mp hy
      rw [hi]
      exact (hraise x.state hd).imp hS fun hs => ⟨x, hx, hs⟩
    · exact .inr ⟨y, (Function.update_of_ne hi _ _).symm.trans hy, hd⟩
  unfold Net.markEffect
  split
  · exact .refl S net
  · dsimp only
    split
    · exact ⟨rfl, fun i y hy hd => .inr ⟨y, hy, hd⟩, hmodify⟩
    · exact ⟨rfl, fun i y hy hd => .inr ⟨y, hy, hd⟩, hmodify⟩

/-- Marks other than those of the source's own dependents are not dirty. -/
theorem dirtied (levels : ℕ) (mark : Mark) (net : Net V) (n : NodeId) :
    net.Dirtied (fun m => mark = .dirty ∧ m ∈ net.dependents n)
      (markDependents levels mark net n) := by
  induction levels generalizing mark net n with
  | zero => exact .refl _ net
  | succ levels ih =>
    unfold markDependents
    have hfold : ∀ (l : List NodeId) (t : Net V),
        t.Dirtied (fun m => mark = .dirty ∧ m ∈ l)
          (l.foldl (deliverMark (markDependents levels .check) mark) t) := by
      intro l
      induction l with
      | nil => exact fun t => .refl _ t
      | cons d l hl =>
        intro t
        refine Dirtied.trans ?_ ((hl _).mono fun m hm => ⟨hm.1, List.mem_cons_of_mem d hm.2⟩)
        have hd : mark = .dirty → mark = .dirty ∧ d ∈ d :: l := fun h => ⟨h, List.mem_cons_self⟩
        unfold deliverMark
        split
        · unfold markComputed
          split
          · split
            · exact (dirtied_setState t hd).trans
                ((ih .check _ d).mono fun m hm => by cases hm.1)
            · exact dirtied_setState t hd
          · exact .refl _ t
        · exact dirtied_markEffect t hd
    exact hfold (net.dependents n) net

end Net

namespace NetHost

variable {V : Type} {layout : Layout} {s t : NetHost V} {n e d : NodeId} {rest : List NetFrame}
  {f : NetFrame} {op : NetStep V}

open NetFrame

/-- The compute or the body of `n` is not entered. -/
structure Keeping (s t : NetHost V) (n : NodeId) : Prop where
  nextNode : s.net.nextNode ≤ t.net.nextNode
  version : ∀ d, s.net.version d ≤ t.net.version d
  dependencies : n ∉ s.net.stack → t.net.dependencies n = s.net.dependencies n
  started : t.started.count n = s.started.count n
  ran : t.ran.count n ≤ s.ran.count n

theorem Keeping.mem_ran (h : Keeping s t n) (hn : n ∈ t.ran) : n ∈ s.ran :=
  List.count_pos_iff.mp (lt_of_lt_of_le (List.count_pos_iff.mpr hn) h.ran)

theorem Keeping.mem_started (h : Keeping s t n) : n ∈ t.started ↔ n ∈ s.started := by
  rw [← List.count_pos_iff, ← List.count_pos_iff, h.started]

theorem Keeping.outdated (h : Keeping s t n) (hn : n ∉ s.net.stack) (ho : s.net.Outdated n) :
    t.net.Outdated n := by
  obtain ⟨e, he, hlt⟩ := ho
  exact ⟨e, (h.dependencies hn).symm ▸ he, lt_of_lt_of_le hlt (h.version e.1)⟩

/-- The step enters the compute or the body of `n`. -/
structure Enters (s : NetHost V) (op : NetStep V) (t : NetHost V) (n : NodeId) : Prop where
  why : s.Calls op n
  calm : s.unwinding = false
  started : t.started = n :: s.started
  ran : t.ran = n :: s.ran
  version : t.net.version = s.net.version
  nextNode : t.net.nextNode = s.net.nextNode
  clean : ∀ x, t.net.computed n = some x → x.state = .clean

theorem le_bump (version : NodeId → ℕ) (n d : NodeId) :
    version d ≤ Function.update version n (version n + 1) d := by
  by_cases hd : d = n
  · rw [hd, Function.update_self]
    exact Nat.le_succ _
  · rw [Function.update_of_ne hd]

theorem Shift.keeping (h : Shift layout s op t) (n : NodeId) :
    Enters s op t n ∨ Keeping s t n := by
  have hsame : s.net.nextNode ≤ t.net.nextNode → t.net.version = s.net.version →
      t.net.dependencies = s.net.dependencies → t.started = s.started → t.ran = s.ran →
      Keeping s t n := fun h0 h1 h2 h3 h4 =>
    ⟨h0, fun d => by rw [h1], fun _ => by rw [h2], by rw [h3], by rw [h4]⟩
  cases h with
  | steady hl =>
    exact .inr (hsame (congrArg Ledger.nextNode hl).ge (congrArg Ledger.version hl) (congrArg Ledger.dependencies hl)
      (congrArg Ledger.started hl) (congrArg Ledger.ran hl))
  | signal v same hl =>
    exact .inr (hsame ((Nat.le_succ _).trans (congrArg Ledger.nextNode hl).ge) (congrArg Ledger.version hl) (congrArg Ledger.dependencies hl)
      (congrArg Ledger.started hl) (congrArg Ledger.ran hl))
  | computed compute equals hop hnet hl =>
    exact .inr (hsame ((Nat.le_succ _).trans (congrArg Ledger.nextNode hl).ge) (congrArg Ledger.version hl) (congrArg Ledger.dependencies hl)
      (congrArg Ledger.started hl) (congrArg Ledger.ran hl))
  | effect body hnet hl =>
    exact .inr (hsame ((Nat.le_succ _).trans (congrArg Ledger.nextNode hl).ge) (congrArg Ledger.version hl) (congrArg Ledger.dependencies hl)
      (congrArg Ledger.started hl) (congrArg Ledger.ran hl))
  | entered m why hu hl _ clean =>
    by_cases hm : m = n
    · subst hm
      exact .inl ⟨why, hu, congrArg Ledger.started hl, congrArg Ledger.ran hl,
        congrArg Ledger.version hl, congrArg Ledger.nextNode hl, clean⟩
    · refine .inr ⟨(congrArg Ledger.nextNode hl).ge, fun d => (congrArg (Ledger.version · d) hl).ge, fun _ => ?_, ?_, ?_⟩
      · exact (congrArg (Ledger.dependencies · n) hl).trans (Function.update_of_ne (Ne.symm hm) _ _)
      · have hst : t.started = m :: s.started := congrArg Ledger.started hl
        rw [hst, List.count_cons_of_ne hm]
      · have hr : t.ran = m :: s.ran := congrArg Ledger.ran hl
        rw [hr, List.count_cons_of_ne hm]
  | lent m o rest stack hs hz ho hu hl =>
    refine .inr ⟨(congrArg Ledger.nextNode hl).ge,
      fun d => (congrArg (Ledger.version · d) hl).ge, fun hn => ?_,
      congrArg (fun l => List.count n (Ledger.started l)) hl,
      (congrArg (fun l => List.count n (Ledger.ran l)) hl).le⟩
    refine (congrArg (Ledger.dependencies · n) hl).trans ?_
    have hno : n ≠ o := by
      rintro rfl
      exact hn (by rw [ho]; exact List.mem_cons_self)
    rcases @Net.recordEdge_eq V s.net layout m with hr | ⟨o', stack', ho', -, hr⟩
    · exact congrFun (congrArg Net.dependencies hr) n
    · cases ho.symm.trans ho'
      exact (congrFun (congrArg Net.dependencies hr) n).trans (Function.update_of_ne hno _ _)
  | stored m v changed untracked rest x hs hop hx hd hb hl =>
    refine .inr ⟨(congrArg Ledger.nextNode hl).ge, fun d => ?_,
      fun _ => congrArg (Ledger.dependencies · n) hl,
      congrArg (fun l => List.count n (Ledger.started l)) hl,
      (congrArg (fun l => List.count n (Ledger.ran l)) hl).le⟩
    have hv := congrArg (Ledger.version · d) hl
    refine le_of_le_of_eq ?_ hv.symm
    cases changed with
    | true => exact le_bump _ _ _
    | false => exact le_refl _
  | wrote m v y hy hop hu hwrite hl =>
    refine .inr ⟨(congrArg Ledger.nextNode hl).ge, fun d => ?_,
      fun _ => congrArg (Ledger.dependencies · n) hl,
      congrArg (fun l => List.count n (Ledger.started l)) hl, ?_⟩
    · exact le_of_le_of_eq (le_bump _ _ _) (congrArg (Ledger.version · d) hl).symm
    · have hr : t.ran = [] := congrArg Ledger.ran hl
      rw [hr]
      exact Nat.zero_le _

/-- What a run leaves behind, in runs without panics. -/
structure Frugal (s : NetHost V) (n : NodeId) : Prop where
  bounded : s.net.Bounded
  known : n ∈ s.started → n < s.net.nextNode
  begun : n ∈ s.ran → n ∈ s.started
  once : s.ran.count n ≤ 1
  fresh : n ∈ s.ran → ∀ x, s.net.computed n = some x → x.state = .clean
  due : n ∈ s.started → ∀ x, s.net.computed n = some x → x.state = .dirty → s.net.Outdated n

theorem Shift.bounded (h : Shift layout s op t) (hb : s.net.Bounded) : t.net.Bounded := by
  have hle : (∀ o, ∀ e ∈ t.net.dependencies o, e ∈ s.net.dependencies o ∨ e.2 ≤ s.net.version e.1) →
      (∀ d, s.net.version d ≤ t.net.version d) → t.net.Bounded := fun hd hv o e he =>
    (((hd o e he).elim (hb o e)) id).trans (hv e.1)
  have hv : ∀ d, s.net.version d ≤ t.net.version d := fun d =>
    (h.keeping d).elim (fun h => (congrFun h.version d).ge) fun h => h.version d
  refine hle (fun o e he => ?_) hv
  cases h with
  | steady hl => exact .inl ((congrArg (fun l => e ∈ Ledger.dependencies l o) hl).mp he)
  | signal v same hl => exact .inl ((congrArg (fun l => e ∈ Ledger.dependencies l o) hl).mp he)
  | computed compute equals hop hnet hl => exact .inl ((congrArg (fun l => e ∈ Ledger.dependencies l o) hl).mp he)
  | effect body hnet hl => exact .inl ((congrArg (fun l => e ∈ Ledger.dependencies l o) hl).mp he)
  | entered m why hu hl =>
    have hd : t.net.dependencies o = Function.update s.net.dependencies m [] o :=
      congrArg (Ledger.dependencies · o) hl
    rw [hd] at he
    by_cases ho : o = m
    · rw [ho, Function.update_self] at he
      cases he
    · rw [Function.update_of_ne ho] at he
      exact .inl he
  | lent m o' rest stack hs hz ho hu hl =>
    have hd : t.net.dependencies o = (s.net.recordEdge layout m).dependencies o :=
      congrArg (Ledger.dependencies · o) hl
    rw [hd] at he
    refine (Net.mem_recordEdge he).imp_right fun hm => ?_
    rw [hm.2.2]
  | stored m v changed untracked rest x hs hop hx hd hb hl =>
    exact .inl ((congrArg (fun l => e ∈ Ledger.dependencies l o) hl).mp he)
  | wrote m v y hy hop hu hwrite hl => exact .inl ((congrArg (fun l => e ∈ Ledger.dependencies l o) hl).mp he)

theorem Shift.turned (h : Shift layout s op t) (hu : t.unwinding = false) :
    s.net.Calmed t.net ∨
      (∃ compute equals, t.net = s.net.newComputed compute equals ∧ t.started = s.started ∧
        t.ran = s.ran) ∨
      ∃ m v, t = s.write m v ∧ op.isWrite = true := by
  cases h with
  | steady hl calm => exact .inl (calm hu)
  | signal v same hl calm => exact .inl calm
  | computed compute equals hop hnet hl =>
    exact .inr (.inl ⟨compute, equals, hnet, congrArg Ledger.started hl, congrArg Ledger.ran hl⟩)
  | effect body hnet hl calm => exact .inl calm
  | entered m why hu hl calm => exact .inl calm
  | lent m o rest stack hs hz ho hu hl calm => exact .inl calm
  | stored m v changed untracked rest x hs hop hx hd hb hl calm => exact .inl calm
  | wrote m v y hy hop hu hwrite hl => exact .inr (.inr ⟨m, v, hwrite, hop⟩)

theorem outdated_write (hw : s.Wired) (hb : s.net.Bounded) {m : NodeId}
    (hm : n ∈ s.net.dependents m) (v : V) : (s.write m v).net.Outdated n := by
  obtain ⟨k, hk⟩ := (hw.net.inverse n m).mpr hm
  obtain ⟨ha, -⟩ := Net.alerts_trigger (hw.net.alike (Net.alike_setValue s.net m v)) m
  have hf := ha.toMarked.frame
  refine ⟨(m, k), ?_, ?_⟩
  · change (m, k) ∈ ((s.net.setValue m v).trigger m).dependencies n
    rw [hf]
    exact hk
  · change k < ((s.net.setValue m v).trigger m).version m
    rw [hf]
    change k < Function.update s.net.version m (s.net.version m + 1) m
    rw [Function.update_self]
    exact Nat.lt_succ_of_le (hb n (m, k) hk)

theorem dirtied_write (s : NetHost V) (m : NodeId) (v : V) :
    s.net.Dirtied (· ∈ s.net.dependents m) (s.write m v).net := by
  have h := (Net.dirtied ((s.net.setValue m v).nextNode + 1) .dirty
    ((s.net.setValue m v).bumpVersion m) m).mono fun _ hi => hi.2
  exact ⟨h.dependents, h.computed, h.effects⟩

/-- A compute is entered that the last write, or the creation of its node, has made run. -/
theorem Frugal.step (h : s.Frugal n) (hs : s.Undisturbed)
    (hbody : ∀ rest, s.frames = .resetting n :: rest → n ∉ s.ran)
    (ht : s.step layout op = some t) (hu : t.unwinding = false) : t.Frugal n := by
  have hshift := shift_step hs.wired ht
  have hbounded := hshift.bounded h.bounded
  rcases hshift.keeping n with he | hk
  · have hn : n ∉ s.ran ∧ n < s.net.nextNode := by
      cases he.why with
      | marked x hx hd =>
        refine ⟨fun hin => ?_, hs.wired.net.known n x hx⟩
        have := h.fresh hin x hx
        rw [hd] at this
        cases this
      | changed d version entries rest hf hv hsome =>
        obtain ⟨x, hx⟩ := Option.isSome_iff_exists.mp hsome
        refine ⟨fun hin => ?_, hs.wired.net.known n x hx⟩
        have hc := hs.nested.check (.awaiting n d version entries)
          (by rw [hf]; exact List.mem_cons_self) n (decide_eq_true rfl) x hx
        rw [h.fresh hin x hx] at hc
        cases hc
      | body v rest hop hf =>
        exact ⟨hbody rest hf, (hs.wired.fits (.resetting n) (by rw [hf]; exact List.mem_cons_self)).1⟩
    refine ⟨hbounded, fun _ => he.nextNode ▸ hn.2, fun _ => ?_, ?_, fun _ => he.clean,
      fun _ x hx hd => ?_⟩
    · rw [he.started]
      exact List.mem_cons_self
    · rw [he.ran, List.count_cons_self, List.count_eq_zero_of_not_mem hn.1]
    · have := he.clean x hx
      rw [hd] at this
      cases this
  · have hfresh : ∀ x, t.net.computed n = some x → x.state ≠ .clean → n ∈ t.started →
        (∃ y, s.net.computed n = some y ∧ y.state = x.state) ∨
          t.ran = [] ∧ (x.state = .dirty → t.net.Outdated n ∨
            ∃ y, s.net.computed n = some y ∧ y.state = .dirty) := by
      intro x hx hne hstarted
      rcases hshift.turned hu with hc | ⟨compute, equals, hnet, -⟩ | ⟨m, v, hwrite, -⟩
      · obtain ⟨y, hy, hyx⟩ := hc n x hx
        exact .inl ⟨y, hy, (hyx.resolve_right hne).symm⟩
      · have hlt := h.known (hk.mem_started.mp hstarted)
        rw [hnet] at hx
        have hx := (Function.update_of_ne (Nat.ne_of_lt hlt) _ _).symm.trans hx
        exact .inl ⟨x, hx, rfl⟩
      · subst hwrite
        refine .inr ⟨rfl, fun hd => ?_⟩
        exact ((dirtied_write s m v).computed n x hx hd).imp_left fun hm =>
          outdated_write hs.wired h.bounded hm v
    have hdue : n ∈ t.started → ∀ y, s.net.computed n = some y → y.state = .dirty →
        t.net.Outdated n := fun hst y hy hd =>
      hk.outdated (hs.idle hy (by rw [hd]; exact State.noConfusion))
        (h.due (hk.mem_started.mp hst) y hy hd)
    refine ⟨hbounded, fun hst => (h.known (hk.mem_started.mp hst)).trans_le hk.nextNode, ?_,
      hk.ran.trans h.once, fun hin x hx => ?_, fun hst x hx hd => ?_⟩
    · exact fun hin => hk.mem_started.mpr (h.begun (hk.mem_ran hin))
    · by_contra hne
      have hst := hk.mem_started.mpr (h.begun (hk.mem_ran hin))
      rcases hfresh x hx hne hst with ⟨y, hy, hyx⟩ | ⟨hnil, -⟩
      · exact hne (hyx.symm.trans (h.fresh (hk.mem_ran hin) y hy))
      · rw [hnil] at hin
        cases hin
    · rcases hfresh x hx (by rw [hd]; exact State.noConfusion) hst with ⟨y, hy, hyx⟩ | ⟨-, ho⟩
      · exact hdue hst y hy (hyx.trans hd)
      · rcases ho hd with ho | ⟨y, hy, hyd⟩
        · exact ho
        · exact hdue hst y hy hyd

section Roles

inductive Role where
  | verifying | resetting | running
deriving DecidableEq

def role (n : NodeId) : NetFrame → Option Role
  | verifying m _ | awaiting m _ _ _ => if m = n then some .verifying else none
  | resetting m => if m = n then some .resetting else none
  | running m _ => if m = n then some .running else none
  | _ => none

theorem role_verifying {entries : EdgeTable} : role n (.verifying n entries) = some .verifying :=
  if_pos rfl

theorem role_awaiting {version : ℕ} {entries : EdgeTable} :
    role n (.awaiting n d version entries) = some .verifying := if_pos rfl

theorem role_resetting : role n (.resetting n) = some .resetting := if_pos rfl

theorem role_running {untracked : ℕ} : role n (.running n untracked) = some .running := if_pos rfl

/-- The frames in which a run of the effect stands, innermost first. -/
def roles (s : NetHost V) (n : NodeId) : List Role := s.frames.filterMap (role n)

/-- A run that is taken up is the only one, and has no other one queued: no source is
written while it lasts. -/
structure Tended (s : NetHost V) (n : NodeId) : Prop where
  rerun : s.rerunAfterCurrent n = false
  single : (s.roles n).length ≤ 1
  window : s.roles n ≠ [] → ∀ y, s.net.effects n = some y → y.scheduled = false ∧ y.state = .clean
  latched : ∀ y, s.net.effects n = some y → y.scheduled = true → n ∉ s.ran
  due : ∀ y, s.net.effects n = some y → y.state = .dirty → n ∈ s.started → s.net.Outdated n
  taken : ∀ r ∈ s.roles n, r ≠ .running → n ∉ s.ran
  torn : Role.resetting ∈ s.roles n → n ∈ s.started → s.net.Outdated n

theorem running_mem (hw : s.Wired) (hn : s.net.computed n = none) (hin : n ∈ s.net.stack) :
    Role.running ∈ s.roles n := by
  rw [hw.stack] at hin
  obtain ⟨f, hf, hc⟩ := List.mem_filterMap.mp hin
  refine List.mem_filterMap.mpr ⟨f, hf, ?_⟩
  cases f with
  | computing m u =>
    cases hc
    have hsome : (s.net.computed n).isSome = true := hw.fits _ hf
    rw [hn] at hsome
    cases hsome
  | running m u =>
    cases hc
    exact if_pos rfl
  | _ => cases hc

theorem Tended.alone (h : s.Tended n) {r r' : Role} (hr : r ∈ s.roles n) (hr' : r' ∈ s.roles n) :
    r = r' := by
  have hlen := h.single
  generalize s.roles n = l at hr hr' hlen
  cases l with
  | nil => cases hr
  | cons a l =>
    cases List.length_eq_zero_iff.mp (Nat.le_zero.mp (Nat.le_of_succ_le_succ hlen))
    rw [List.mem_singleton.mp hr, List.mem_singleton.mp hr']

structure Apart (s t : NetHost V) (n : NodeId) : Prop where
  effects : ∀ y, t.net.effects n = some y → ∃ x, s.net.effects n = some x ∧
    x.scheduled = y.scheduled ∧ x.state = y.state
  rerun : t.rerunAfterCurrent n = s.rerunAfterCurrent n
  roles : t.roles n = s.roles n

theorem Apart.trans {u : NetHost V} (h : Apart s t n) (h' : Apart t u n) : Apart s u n := by
  refine ⟨fun y hy => ?_, h'.rerun.trans h.rerun, h'.roles.trans h.roles⟩
  obtain ⟨x, hx, h1, h2⟩ := h'.effects y hy
  obtain ⟨w, hw, h3, h4⟩ := h.effects x hx
  exact ⟨w, hw, h3.trans h1, h4.trans h2⟩

theorem Tended.apart (h : s.Tended n) (hw : s.Wired) (hn : s.net.computed n = none)
    (hk : Keeping s t n) (ha : Apart s t n) : t.Tended n where
  rerun := ha.rerun.trans h.rerun
  single := by rw [ha.roles]; exact h.single
  window hr y hy := by
    obtain ⟨x, hx, h1, h2⟩ := ha.effects y hy
    rw [ha.roles] at hr
    rw [← h1, ← h2]
    exact h.window hr x hx
  latched y hy hs hin := by
    obtain ⟨x, hx, h1, -⟩ := ha.effects y hy
    exact h.latched x hx (h1.trans hs) (hk.mem_ran hin)
  due y hy hd hst := by
    obtain ⟨x, hx, -, h2⟩ := ha.effects y hy
    refine hk.outdated (fun hin => ?_) (h.due x hx (h2.trans hd) (hk.mem_started.mp hst))
    have hclean := (h.window (List.ne_nil_of_mem (running_mem hw hn hin)) x hx).2
    rw [h2.trans hd] at hclean
    cases hclean
  taken r hr hne hin := h.taken r (ha.roles ▸ hr) hne (hk.mem_ran hin)
  torn hr hst := by
    rw [ha.roles] at hr
    refine hk.outdated (fun hin => ?_) (h.torn hr (hk.mem_started.mp hst))
    cases h.alone hr (running_mem hw hn hin)

theorem apart_of_frames (he : SameLane s.net t.net)
    (hr : t.rerunAfterCurrent = s.rerunAfterCurrent) (hf : t.roles n = s.roles n) : Apart s t n :=
  ⟨fun y hy => ⟨y, by rw [← he.1]; exact hy, rfl, rfl⟩, by rw [hr], hf⟩

theorem roles_push (hf : t.frames = f :: s.frames) (hn : role n f = none) :
    t.roles n = s.roles n := by
  unfold roles
  rw [hf, List.filterMap_cons_none hn]

theorem roles_start {r : Role} (hf : t.frames = f :: s.frames) (hn : role n f = some r) :
    t.roles n = r :: s.roles n := by
  unfold roles
  rw [hf, List.filterMap_cons_some hn]

theorem roles_pop (hf : s.frames = f :: t.frames) (hn : role n f = none) :
    t.roles n = s.roles n := (roles_push hf hn).symm

theorem apart_recompute (s : NetHost V) (m n : NodeId) : Apart s (s.recompute m) n := by
  unfold NetHost.recompute
  cases hx : s.net.computed m with
  | none => exact apart_of_frames ⟨rfl, rfl⟩ rfl rfl
  | some x =>
    dsimp only
    split
    · exact apart_of_frames ⟨rfl, rfl⟩ rfl rfl
    · have ho : SameLane s.net (s.net.beginCompute m x) := by
        unfold Net.beginCompute Net.occupy
        split <;> exact ⟨rfl, rfl⟩
      exact apart_of_frames ho rfl (roles_push rfl rfl)

theorem apart_refresh (hn : s.net.computed n = none) (m : NodeId) : Apart s (s.refresh m) n := by
  unfold NetHost.refresh
  cases hx : s.net.computed m with
  | none => exact apart_of_frames ⟨rfl, rfl⟩ rfl rfl
  | some x =>
    dsimp only
    split
    · exact apart_of_frames ⟨rfl, rfl⟩ rfl rfl
    · refine apart_of_frames ⟨rfl, rfl⟩ rfl (roles_push rfl (if_neg ?_))
      rintro rfl
      cases hn.symm.trans hx
    · exact apart_recompute s m n

theorem apart_read (hn : s.net.computed n = none) (m : NodeId) (tracked : Bool) :
    Apart s (s.read m tracked) n := by
  have hp : Apart s (s.push (.reading m tracked)) n :=
    apart_of_frames ⟨rfl, rfl⟩ rfl (roles_push rfl rfl)
  unfold NetHost.read
  split
  · exact hp
  · split
    · exact apart_of_frames ⟨rfl, rfl⟩ rfl rfl
    · exact hp.trans (@apart_refresh V (s.push (.reading m tracked)) n hn m)
  · exact apart_of_frames ⟨rfl, rfl⟩ rfl rfl

theorem apart_lend (s : NetHost V) (m n : NodeId) (tracked : Bool) :
    Apart s (s.lend layout m tracked) n := by
  have hrec : SameLane s.net (if tracked = true then s.net.recordEdge layout m else s.net) := by
    split
    · rcases @Net.recordEdge_eq V s.net layout m with hr | ⟨z, rest, -, -, hr⟩ <;> rw [hr] <;>
        exact ⟨rfl, rfl⟩
    · exact ⟨rfl, rfl⟩
  unfold NetHost.lend
  split
  · exact apart_of_frames ⟨rfl, rfl⟩ rfl rfl
  · dsimp only
    split
    · exact apart_of_frames hrec rfl rfl
    · rename_i v _
      obtain ⟨-, h2, -, -, -, h6⟩ := noteSaw_same s m v
      cases tracked with
      | true => exact apart_of_frames hrec h6 (roles_push (congrArg _ h2) rfl)
      | false => exact apart_of_frames ⟨rfl, rfl⟩ rfl (roles_push rfl rfl)

theorem apart_conclude {m untracked : ℕ} (hs : s.frames = .computing m untracked :: rest)
    (x : NetComputed V) (v : V) (n : NodeId) : Apart s (s.conclude rest m x untracked v) n := by
  have he := sameLane_endCompute s.net m x untracked
  unfold NetHost.conclude
  dsimp only
  split
  · exact apart_of_frames he rfl (roles_pop hs rfl)
  · split
    · exact apart_of_frames he rfl (roles_pop hs rfl)
    · exact apart_of_frames (he.trans (sameLane_accept _ m v _)) rfl (roles_pop hs rfl)

theorem apart_of_eq (he : t.net.effects n = s.net.effects n)
    (hr : t.rerunAfterCurrent n = s.rerunAfterCurrent n) (hf : t.roles n = s.roles n) :
    Apart s t n :=
  ⟨fun y hy => ⟨y, he ▸ hy, rfl, rfl⟩, hr, hf⟩

theorem apart_attempt (hne : n ≠ e) (s : NetHost V) : Apart s (s.attempt e) n := by
  have he : (s.net.countRun e).effects n = s.net.effects n := Function.update_of_ne hne _ _
  unfold NetHost.attempt
  dsimp only
  split
  · exact apart_of_eq he rfl rfl
  · exact apart_of_eq he rfl (roles_push rfl (if_neg (Ne.symm hne)))

theorem apart_changed (hne : n ≠ d) (s : NetHost V) : Apart s (s.changed d) n := by
  unfold NetHost.changed
  split
  · exact apart_recompute s d n
  · exact apart_attempt hne s

theorem apart_runScheduled (hne : n ≠ e) (s : NetHost V) : Apart s (s.runScheduled e) n := by
  have hu : (s.net.unlatch e).effects n = s.net.effects n := Function.update_of_ne hne _ _
  unfold NetHost.runScheduled
  split
  · exact apart_of_eq rfl rfl rfl
  · dsimp only
    split
    · exact apart_of_eq hu (Function.update_of_ne hne _ _) rfl
    · have hc : ((s.net.unlatch e).modifyEffect e fun x =>
          { x with state := .clean }).effects n = s.net.effects n :=
        (Function.update_of_ne hne _ _).trans hu
      split
      · refine Apart.trans ?_ (apart_attempt hne _)
        exact apart_of_eq hc rfl rfl
      · exact apart_of_eq hc rfl (roles_push rfl (if_neg (Ne.symm hne)))
      · exact apart_of_eq hc rfl rfl

theorem roles_swap {g : NetFrame} (hs : s.frames = f :: rest) (ht : t.frames = g :: rest)
    (hn : role n f = role n g) : t.roles n = s.roles n := by
  unfold roles
  rw [hs, ht]
  cases hg : role n g with
  | none => rw [List.filterMap_cons_none hg, List.filterMap_cons_none (hn.trans hg)]
  | some r => rw [List.filterMap_cons_some hg, List.filterMap_cons_some (hn.trans hg)]

theorem apart_enterBody (hne : n ≠ e) (hs : s.frames = .resetting e :: rest) :
    Apart s (s.enterBody rest e) n := by
  have hr : role n (.resetting e) = none := if_neg (Ne.symm hne)
  unfold NetHost.enterBody
  dsimp only
  split
  · exact apart_of_eq rfl rfl (roles_pop hs hr)
  · exact apart_of_eq rfl rfl (roles_swap hs rfl (hr.trans (if_neg (Ne.symm hne)).symm))

theorem apart_settle (hne : n ≠ e) {untracked : ℕ} (hs : s.frames = .running e untracked :: rest) :
    Apart s (s.settle rest e untracked) n := by
  have hl := (sameLane_leave s.net untracked).1
  refine apart_of_eq ?_ (Function.update_of_ne hne _ _) (roles_pop hs (if_neg (Ne.symm hne)))
  unfold NetHost.settle
  dsimp only
  split
  · rw [effects_scheduleEffect hne, hl]
  · rw [hl]

/-- The run of the effect is taken up or over, and nothing stands against it. -/
theorem Tended.clear (hrerun : t.rerunAfterCurrent n = false) (hlen : (t.roles n).length ≤ 1)
    (hclean : ∀ y, t.net.effects n = some y → y.scheduled = false ∧ y.state = .clean)
    (htaken : ∀ r ∈ t.roles n, r ≠ .running → n ∉ t.ran)
    (htorn : Role.resetting ∈ t.roles n → n ∈ t.started → t.net.Outdated n) : t.Tended n where
  rerun := hrerun
  single := hlen
  window _ := hclean
  latched y hy hs := by
    rw [(hclean y hy).1] at hs
    cases hs
  due y hy hd := by
    rw [(hclean y hy).2] at hd
    cases hd
  taken := htaken
  torn := htorn

/-- The run that is at the top is the only one of its effect. -/
theorem Tended.head (h : s.Tended n) {r : Role} (hs : s.frames = f :: rest)
    (hf : role n f = some r) : s.roles n = [r] ∧ rest.filterMap (role n) = [] := by
  have hr : s.roles n = r :: rest.filterMap (role n) := by
    unfold roles
    rw [hs, List.filterMap_cons_some hf]
  have hlen := h.single
  rw [hr] at hlen
  have hnil := List.length_eq_zero_iff.mp (Nat.le_zero.mp (Nat.le_of_succ_le_succ hlen))
  exact ⟨by rw [hr, hnil], hnil⟩

theorem Tended.attempt (hrerun : s.rerunAfterCurrent n = false) (hroles : s.roles n = [])
    (hclean : ∀ y, s.net.effects n = some y → y.scheduled = false ∧ y.state = .clean)
    (hran : n ∉ s.ran) (hdue : n ∈ s.started → s.net.Outdated n)
    (hu : (s.attempt n).unwinding = false) : (s.attempt n).Tended n := by
  have hcount : ∀ y, (s.net.countRun n).effects n = some y →
      y.scheduled = false ∧ y.state = .clean := by
    intro y hy
    have hy := (Function.update_self _ _ _).symm.trans hy
    obtain ⟨x, hx, rfl⟩ := Option.map_eq_some_iff.mp hy
    exact hclean x hx
  unfold NetHost.attempt at hu ⊢
  dsimp only at hu ⊢
  split
  · rename_i hlimit
    rw [if_pos hlimit] at hu
    cases hu
  · have hr : NetHost.roles (push { s with net := s.net.countRun n } (.resetting n)) n =
        [.resetting] :=
      (roles_start (s := s) rfl role_resetting).trans (congrArg _ hroles)
    exact .clear hrerun (congrArg List.length hr).le hcount (fun _ _ _ => hran) fun _ => hdue

theorem Tended.runScheduled (h : s.Tended n) (hl : Lane s.net) {jobs : List NodeId}
    (hj : s.net.pendingJobs = n :: jobs)
    (hu : (runScheduled { s with net := { s.net with pendingJobs := jobs } } n).unwinding = false) :
    (runScheduled { s with net := { s.net with pendingJobs := jobs } } n).Tended n := by
  obtain ⟨x, hx, hs⟩ := hl.queued n (by rw [hj]; exact List.mem_cons_self)
  have hroles : s.roles n = [] := by
    by_contra hne
    have := (h.window hne x hx).1
    rw [hs] at this
    cases this
  have hwindow : s.frames.any (isWindow n) = false := by
    refine List.any_eq_false.mpr fun f hf hw => ?_
    have hmem : ∃ r, r ∈ s.roles n := by
      cases f with
      | resetting m => exact ⟨.resetting, List.mem_filterMap.mpr ⟨_, hf, if_pos (of_decide_eq_true hw)⟩⟩
      | running m u => exact ⟨.running, List.mem_filterMap.mpr ⟨_, hf, if_pos (of_decide_eq_true hw)⟩⟩
      | _ => cases hw
    obtain ⟨r, hr⟩ := hmem
    rw [hroles] at hr
    cases hr
  have hcell : ∀ y, (({ s.net with pendingJobs := jobs }.unlatch n).modifyEffect n fun x =>
      { x with state := .clean }).effects n = some y → y.scheduled = false ∧ y.state = .clean := by
    intro y hy
    unfold Net.unlatch Net.modifyEffect at hy
    dsimp only at hy
    rw [Function.update_self, Function.update_self, hx] at hy
    cases hy
    exact ⟨rfl, rfl⟩
  have hran := h.latched x hx hs
  unfold NetHost.runScheduled at hu ⊢
  dsimp only at hu ⊢
  rw [hx] at hu ⊢
  dsimp only at hu ⊢
  rw [hwindow] at hu ⊢
  rw [if_neg Bool.false_ne_true] at hu ⊢
  cases hstate : x.state with
  | clean =>
    refine .clear h.rerun ?_ hcell (fun r hr => ?_) fun hr => ?_
    · exact h.single
    · have hr : r ∈ s.roles n := hr
      rw [hroles] at hr
      cases hr
    · have hr : Role.resetting ∈ s.roles n := hr
      rw [hroles] at hr
      cases hr
  | check =>
    have hr : ∀ u : NetHost V, u.frames = .verifying n (s.net.dependencies n) :: s.frames →
        u.roles n = [.verifying] := fun u hf =>
      (roles_start (s := s) hf role_verifying).trans (congrArg _ hroles)
    refine .clear h.rerun (congrArg List.length (hr _ rfl)).le hcell (fun _ _ _ => hran)
      fun hm => ?_
    rw [hr _ rfl] at hm
    cases List.mem_singleton.mp hm
  | dirty =>
    rw [hstate] at hu
    exact .attempt h.rerun hroles hcell hran (h.due x hx hstate) hu

theorem Tended.enterBody (h : s.Tended n) (hs : s.frames = .resetting n :: rest)
    (hu : (s.enterBody rest n).unwinding = false) : (s.enterBody rest n).Tended n := by
  obtain ⟨hroles, hrest⟩ := h.head hs role_resetting
  have hclean := h.window (by rw [hroles]; exact List.cons_ne_nil _ _)
  unfold NetHost.enterBody at hu ⊢
  dsimp only at hu ⊢
  split
  · rename_i hin
    rw [if_pos hin] at hu
    cases hu
  · have hr : ∀ u : NetHost V, u.frames = .running n s.net.untracked :: rest →
        u.roles n = [.running] := fun u hf => by
      unfold roles
      rw [hf, List.filterMap_cons_some role_running, hrest]
    refine .clear h.rerun (congrArg List.length (hr _ rfl)).le hclean (fun r hm hne => ?_)
      fun hm => ?_
    · rw [hr _ rfl] at hm
      exact absurd (List.mem_singleton.mp hm) hne
    · rw [hr _ rfl] at hm
      cases List.mem_singleton.mp hm

theorem Tended.over (h : s.Tended n) (hs : s.roles n ≠ []) (hr : t.rerunAfterCurrent n = false)
    (hroles : t.roles n = []) (he : t.net.effects n = s.net.effects n) : t.Tended n := by
  refine .clear hr (by rw [hroles]; exact Nat.zero_le _) (fun y hy => h.window hs y (he ▸ hy))
    (fun r hm => ?_) fun hm => ?_
  · rw [hroles] at hm
    cases hm
  · rw [hroles] at hm
    cases hm

theorem Tended.settle (h : s.Tended n) {untracked : ℕ}
    (hs : s.frames = .running n untracked :: rest) : (s.settle rest n untracked).Tended n := by
  obtain ⟨hroles, hrest⟩ := h.head hs role_running
  refine h.over (by rw [hroles]; exact List.cons_ne_nil _ _) (Function.update_self _ _ _) hrest ?_
  unfold NetHost.settle
  dsimp only
  rw [h.rerun, if_neg Bool.false_ne_true, (sameLane_leave s.net untracked).1]

theorem Tended.verified (h : s.Tended n) (hs : s.frames = .verifying n [] :: rest) :
    Tended { s with net := s.net.setState n .clean, frames := rest } n := by
  obtain ⟨hroles, hrest⟩ := h.head hs role_verifying
  exact h.over (by rw [hroles]; exact List.cons_ne_nil _ _) h.rerun hrest rfl

theorem Tended.changed (h : s.Tended n) (hb : s.net.Bounded) (ho : Nested s.net s.frames)
    (hn : s.net.computed n = none) {version : ℕ} {entries : EdgeTable}
    (hs : s.frames = .awaiting n d version entries :: rest) (hne : s.net.version d ≠ version)
    (hu : (NetHost.changed { s with frames := rest } n).unwinding = false) :
    (NetHost.changed { s with frames := rest } n).Tended n := by
  obtain ⟨hroles, hrest⟩ := h.head hs role_awaiting
  have hmem : Role.verifying ∈ s.roles n := by
    rw [hroles]
    exact List.mem_cons_self
  have hout : s.net.Outdated n := by
    obtain ⟨before, hd, -⟩ := ho.passed (.awaiting n d version entries)
      (by rw [hs]; exact List.mem_cons_self) n (decide_eq_true rfl)
    have hin : (d, version) ∈ s.net.dependencies n := by
      rw [hd]
      exact List.mem_append_right _ List.mem_cons_self
    exact ⟨(d, version), hin, lt_of_le_of_ne (hb n _ hin) (Ne.symm hne)⟩
  unfold NetHost.changed at hu ⊢
  dsimp only at hu ⊢
  rw [hn] at hu ⊢
  exact .attempt h.rerun hrest (h.window (List.ne_nil_of_mem hmem))
    (h.taken _ hmem Role.noConfusion) (fun _ => hout) hu

theorem Tended.write (h : s.Tended n) (hw : s.Wired) (hb : s.net.Bounded) (hroles : s.roles n = []) (m : NodeId) (v : V) :
    (s.write m v).Tended n where
  rerun := h.rerun
  single := h.single
  window hr := absurd hroles hr
  latched _ _ _ hin := by cases hin
  due y hy hd hst := by
    rcases (dirtied_write s m v).effects n y hy hd with hm | ⟨x, hx, hxd⟩
    · exact outdated_write hw hb hm v
    · obtain ⟨ha, -⟩ := Net.alerts_trigger (hw.net.alike (Net.alike_setValue s.net m v)) m
      have hf := ha.toMarked.frame
      obtain ⟨e, he, hlt⟩ := h.due x hx hxd hst
      refine ⟨e, ?_, lt_of_lt_of_le hlt ?_⟩
      · change e ∈ ((s.net.setValue m v).trigger m).dependencies n
        rw [hf]
        exact he
      · change _ ≤ ((s.net.setValue m v).trigger m).version e.1
        rw [hf]
        exact le_bump _ _ _
  taken r hr := by
    have hr : r ∈ s.roles n := hr
    rw [hroles] at hr
    cases hr
  torn hr := by
    have hr : Role.resetting ∈ s.roles n := hr
    rw [hroles] at hr
    cases hr

theorem roles_fresh (hw : s.Wired) (hn : s.net.nextNode ≤ n) : s.roles n = [] := by
  refine List.filterMap_eq_nil_iff.mpr fun f hf => ?_
  have hfits := hw.fits f hf
  have hne : ∀ m, m < s.net.nextNode → m ≠ n := fun m hm => Nat.ne_of_lt (hm.trans_le hn)
  cases f with
  | verifying m l => exact if_neg (hne m hfits)
  | awaiting m d v l => exact if_neg (hne m hfits)
  | resetting m => exact if_neg (hne m hfits.1)
  | running m u => exact if_neg (hne m hfits.1)
  | _ => rfl

theorem Tended.newEffect (h : s.Tended n) (hw : s.Wired) (hf : s.Frugal n) (body : Script V) :
    Tended { s with net := s.net.newEffect body } n := by
  by_cases hn : n = s.net.nextNode
  · have hroles : s.roles n = [] := roles_fresh hw hn.ge
    have hstarted : n ∉ s.started := fun hin => absurd (hf.known hin) (by rw [hn]; exact lt_irrefl _)
    exact {
      rerun := h.rerun
      single := h.single
      window := fun hr => absurd hroles hr
      latched := fun _ _ _ hin => hstarted (hf.begun hin)
      due := fun _ _ _ hst => absurd hst hstarted
      taken := h.taken
      torn := fun _ hst => absurd hst hstarted }
  · have he : (s.net.newEffect body).effects n = s.net.effects n :=
      (effects_scheduleEffect hn).trans (Function.update_of_ne hn _ _)
    have ha : (s.net.newEffect body).Alike (s.net.newEffect body) := .refl _
    have hd : (s.net.newEffect body).dependencies = s.net.dependencies ∧
        (s.net.newEffect body).version = s.net.version := by
      have hl := Net.level_scheduleEffect ({ s.net with
        nextNode := s.net.nextNode + 1
        effects := Function.update s.net.effects s.net.nextNode (some { body }) } : Net V)
        s.net.nextNode
      exact ⟨hl.dependencies, hl.version⟩
    have hout : s.net.Outdated n → (s.net.newEffect body).Outdated n := fun ho => by
      unfold Net.Outdated at ho ⊢
      rw [hd.1, hd.2]
      exact ho
    exact {
      rerun := h.rerun
      single := h.single
      window := fun hr y hy => h.window hr y (he ▸ hy)
      latched := fun y hy => h.latched y (he ▸ hy)
      due := fun y hy hdirty hst => hout (h.due y (he ▸ hy) hdirty hst)
      taken := h.taken
      torn := fun hr hst => hout (h.torn hr hst) }

theorem Tended.finish (h : s.Tended n) (hs : s.Undisturbed) (hn : s.net.computed n = none)
    (hk : (∀ rest, s.frames ≠ .resetting n :: rest) → Keeping s t n) {v : V}
    (ht : s.finish v = some t) (hu : t.unwinding = false) : t.Tended n := by
  have hother : ∀ f rest, s.frames = f :: rest → (∀ e, f ≠ .resetting e) → Keeping s t n :=
    fun f rest hf hne => hk fun rest' hf' => by
      cases hf.symm.trans hf'
      exact hne n rfl
  unfold NetHost.finish at ht
  split at ht
  · rename_i hf
    have hkeep := hother _ _ hf fun _ => NetFrame.noConfusion
    obtain ⟨x, -, rfl⟩ := Option.map_eq_some_iff.mp ht
    exact h.apart hs.wired hn hkeep (apart_conclude hf x v n)
  · rename_i e rest hf
    by_cases hne : n = e
    · subst hne
      cases ht
      exact h.enterBody hf hu
    · have hkeep := hk fun rest' hf' => by
        cases hf.symm.trans hf'
        exact hne rfl
      cases ht
      exact h.apart hs.wired hn hkeep (apart_enterBody hne hf)
  · rename_i e untracked rest hf
    by_cases hne : n = e
    · subst hne
      cases ht
      exact h.settle hf
    · have hkeep := hother _ _ hf fun _ => NetFrame.noConfusion
      cases ht
      exact h.apart hs.wired hn hkeep (apart_settle hne hf)
  · rename_i hf
    have hkeep := hother _ _ hf fun _ => NetFrame.noConfusion
    cases ht
    exact h.apart hs.wired hn hkeep (apart_of_eq rfl rfl (roles_pop hf rfl))
  · rename_i hf
    have hkeep := hother _ _ hf fun _ => NetFrame.noConfusion
    cases ht
    exact h.apart hs.wired hn hkeep (apart_of_eq rfl rfl (roles_pop hf rfl))
  · cases ht

theorem Tended.next (h : s.Tended n) (hs : s.Undisturbed) (hb : s.net.Bounded)
    (hn : s.net.computed n = none) (hk : Keeping s t n) (ht : s.next layout = some t)
    (hu : t.unwinding = false) : t.Tended n := by
  unfold NetHost.next at ht
  split at ht
  · rename_i rest hf
    split at ht
    · cases ht
      exact h.apart hs.wired hn hk (apart_of_eq rfl rfl (roles_pop hf rfl))
    · rename_i e jobs hj
      by_cases hne : n = e
      · subst hne
        cases ht
        exact h.runScheduled hs.lane hj hu
      · cases ht
        refine h.apart hs.wired hn hk (Apart.trans (t := { s with
          net := { s.net with pendingJobs := jobs } }) ?_ (apart_runScheduled hne _))
        exact apart_of_eq rfl rfl rfl
  · rename_i m rest hf
    by_cases hne : n = m
    · subst hne
      cases ht
      exact h.verified hf
    · cases ht
      exact h.apart hs.wired hn hk
        (apart_of_eq rfl rfl (roles_pop hf (if_neg (Ne.symm hne))))
  · rename_i m d version entries rest hf
    split at ht
    · cases ht
      cases hu
    · cases ht
      have hr : Apart { s with frames := .awaiting m d version entries :: rest }
          (NetHost.refresh { s with frames := .awaiting m d version entries :: rest } d) n :=
        apart_refresh (s := { s with frames := .awaiting m d version entries :: rest }) hn d
      refine h.apart hs.wired hn hk (Apart.trans ?_ hr)
      exact apart_of_eq rfl rfl (roles_swap hf rfl rfl)
  · rename_i m d version entries rest hf
    split at ht
    · rename_i hv
      by_cases hne : n = m
      · subst hne
        cases ht
        exact h.changed hb hs.nested hn hf hv hu
      · cases ht
        refine h.apart hs.wired hn hk (Apart.trans (t := { s with frames := rest }) ?_
          (apart_changed hne _))
        exact apart_of_eq rfl rfl (roles_pop hf (if_neg (Ne.symm hne)))
    · cases ht
      exact h.apart hs.wired hn hk (apart_of_eq rfl rfl (roles_swap hf rfl rfl))
  · rename_i m tracked rest hf
    cases ht
    refine h.apart hs.wired hn hk (Apart.trans (t := { s with frames := rest }) ?_
      (apart_lend _ m n tracked))
    exact apart_of_eq rfl rfl (roles_pop hf rfl)
  · cases ht

/-- A source is written in a run of the effect, a compute writes, or a panic is under way. -/
def interferes (n : NodeId) (s : NetHost V) (op : NetStep V) : Bool :=
  s.unwinding || s.disturbs op || op.isWrite && s.frames.any (isWindow n)

theorem Shift.computed_isSome (h : Shift layout s op t) (hn : (s.net.computed n).isSome = true) :
    (t.net.computed n).isSome = true := by
  have hcell : ∀ u : NetHost V, (u.ledger.cells n).isSome = (u.net.computed n).isSome := fun u =>
    Option.isSome_map
  have hupdate : ∀ m c, (Function.update s.ledger.cells m (some c) n).isSome = true := by
    intro m c
    by_cases hm : n = m
    · rw [hm, Function.update_self]
      rfl
    · rw [Function.update_of_ne hm, hcell]
      exact hn
  rw [← hcell]
  have hn : (s.ledger.cells n).isSome = true := (hcell s).trans hn
  cases h with
  | steady hl => rw [hl]; exact hn
  | signal v same hl => rw [hl]; exact hn
  | computed compute equals hop hnet hl => rw [hl]; exact hupdate _ _
  | effect body hnet hl => rw [hl]; exact hn
  | entered m why hu hl => rw [hl]; exact hn
  | lent m o rest stack hs hz ho hu hl => rw [hl]; exact hn
  | stored m v changed untracked rest x hs hop hx hd hb hl => rw [hl]; exact hupdate _ _
  | wrote m v y hy hop hu hwrite hl => rw [hl]; exact hn

theorem Tended.step (h : s.Tended n) (hf : s.Frugal n) (hs : s.Undisturbed)
    (hn : s.net.computed n = none) (hi : s.interferes n op = false)
    (ht : s.step layout op = some t) (hu : t.unwinding = false) : t.Tended n := by
  unfold interferes at hi
  rw [Bool.or_eq_false_iff, Bool.or_eq_false_iff] at hi
  obtain ⟨⟨hcalm, hdisturb⟩, hwindow⟩ := hi
  have hk : (∀ v rest, op = .finish v → s.frames ≠ .resetting n :: rest) → Keeping s t n := by
    intro hne
    refine ((shift_step hs.wired ht).keeping n).resolve_left fun he => ?_
    cases he.why with
    | marked x hx hd =>
      cases hn.symm.trans hx
    | changed d version entries rest hf hv hsome =>
      rw [hn] at hsome
      cases hsome
    | body v rest hop hf => exact hne v rest hop hf
  have hwrite : op.isWrite = true → s.inCode = true → ∀ m v, (s.write m v).Tended n := by
    intro hop hc m v
    refine h.write hs.wired hf.bounded (List.filterMap_eq_nil_iff.mpr fun f hm => ?_) m v
    unfold disturbs at hdisturb
    rw [hop, Bool.true_and] at hdisturb hwindow
    have hopen := hs.nothing_open hc hdisturb f hm
    have hno := List.any_eq_false.mp hwindow f hm
    cases f with
    | verifying m l => cases hopen
    | awaiting m d v l => cases hopen
    | resetting m => exact if_neg fun hmn => hno (decide_eq_true hmn)
    | running m u => exact if_neg fun hmn => hno (decide_eq_true hmn)
    | _ => rfl
  have hover : op.isWrite = true → s.inCode = true → ∀ m f, (s.overwrite m f).unwinding = false →
      (s.overwrite m f).Tended n := by
    intro hop hc m f hu
    unfold NetHost.overwrite at hu ⊢
    split at hu
    · cases hu
    · split at hu
      · cases hu
      · rename_i hb
        rw [if_neg hb]
        exact hwrite hop hc m _
  have hcode : s.calling = true → s.inCode = true := fun hc => by
    unfold calling at hc
    rw [Bool.and_eq_true] at hc
    exact hc.2
  cases op <;> simp only [NetHost.step] at ht <;> split at ht <;> try cases ht
  case signal => exact h.apart hs.wired hn (hk fun _ _ hop => by cases hop) (apart_of_eq rfl rfl rfl)
  case thunk => exact h.apart hs.wired hn (hk fun _ _ hop => by cases hop) (apart_of_eq rfl rfl rfl)
  case memo => exact h.apart hs.wired hn (hk fun _ _ hop => by cases hop) (apart_of_eq rfl rfl rfl)
  case effect p _ => exact h.newEffect hs.wired hf p
  case read m tracked _ =>
    exact h.apart hs.wired hn (hk fun _ _ hop => by cases hop) (apart_read hn m tracked)
  case set m v hc =>
    unfold NetHost.set at hu ⊢
    split at hu
    · cases hu
    · split at hu
      · rename_i hsame
        rw [if_pos hsame]
        exact h
      · rename_i hsame
        rw [if_neg hsame]
        exact hover rfl (hcode hc) m _ hu
  case update m f hc => exact hover rfl (hcode hc) m f hu
  case untrack =>
    exact h.apart hs.wired hn (hk fun _ _ hop => by cases hop)
      (apart_of_eq rfl rfl (roles_push rfl rfl))
  case flushNow =>
    have hkeep := hk fun _ _ hop => by cases hop
    unfold NetHost.flushNow at hkeep ⊢
    split
    · exact h
    · rename_i hq
      rw [if_neg hq] at hkeep
      exact h.apart hs.wired hn hkeep (apart_of_eq rfl rfl (roles_push rfl rfl))
  case finish v hc =>
    exact h.finish hs hn (fun hne => hk fun _ rest _ => hne rest) ht hu
  case next => exact h.next hs hf.bounded hn (hk fun _ _ hop => by cases hop) ht hu
  case panic => cases hu
  case catchUnwind hc =>
    rw [hcalm, Bool.false_and] at hc
    cases hc
  case unwind hc =>
    rw [hcalm] at hc
    cases hc

end Roles

structure Thrifty (s : NetHost V) (n : NodeId) : Prop extends s.Frugal n where
  tended : s.net.computed n = none → s.Tended n

theorem Thrifty.step (h : s.Thrifty n) (hs : s.Undisturbed) (hi : s.interferes n op = false)
    (ht : s.step layout op = some t) (hu : t.unwinding = false) : t.Thrifty n where
  toFrugal := by
    refine h.toFrugal.step hs (fun rest hf => ?_) ht hu
    have hn : s.net.computed n = none :=
      (hs.wired.fits (.resetting n) (by rw [hf]; exact List.mem_cons_self)).2
    refine (h.tended hn).taken .resetting ?_ Role.noConfusion
    rw [((h.tended hn).head hf role_resetting).1]
    exact List.mem_cons_self
  tended hn := by
    have hn : s.net.computed n = none := by
      by_contra hsome
      have := (shift_step hs.wired ht).computed_isSome (Option.isSome_iff_ne_none.mpr hsome)
      rw [hn] at this
      cases this
    exact (h.tended hn).step h.toFrugal hs hn hi ht hu

end NetHost

end Adaptite

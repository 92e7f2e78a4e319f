import Adaptite.Scratch
import Adaptite.SingleRuns
import Adaptite.Slackening
import Adaptite.Suppression

set_option autoImplicit false

namespace Adaptite

open NetFrame

namespace NetHost

variable {V : Type} {layout : Layout} {s t : NetHost V} {n m e : NodeId} {rest : List NetFrame}
  {x : NetComputed V} {op : NetStep V}

section Due

/-- The thunk or memo is dirty, and not running. -/
def Due (s : NetHost V) (n : NodeId) : Prop :=
  ∃ x, s.net.computed n = some x ∧ x.state = .dirty ∧ n ∉ s.net.stack

/-- What is due is due until it is entered. -/
theorem Due.step (h : s.Due n) (hs : s.Undisturbed) (ht : s.step layout op = some t) :
    t.started = n :: s.started ∨ t.Due n := by
  obtain ⟨x, hx, hd, hidle⟩ := h
  have hsl := slackens_step hs.wired ht
  have hfree : ¬ s.Settles op n := by
    rintro (⟨v, untracked, rest, -, hf⟩ | ⟨rest, -, hf⟩)
    · exact hidle (hs.wired.computing_mem (by rw [hf]; exact List.mem_cons_self))
    · have hc := hs.nested.check (.verifying n []) (by rw [hf]; exact List.mem_cons_self) n
        (decide_eq_true rfl) x hx
      cases hd.symm.trans hc
  obtain ⟨y, hy, hp⟩ := hsl.net.pending n hfree ⟨x, hx, .inl hd⟩
  by_cases hin : n ∈ t.net.stack
  · exact .inl ((hsl.grown n hin).resolve_left hidle)
  · exact .inr ⟨y, hy, hp.resolve_right hin, hin⟩

theorem Due.read (h : s.Due n) (hw : s.Wired) (tracked : Bool) :
    (s.read n tracked).started = n :: s.started := by
  obtain ⟨x, hx, hd, hidle⟩ := h
  have hsig : s.net.signals n = none := by
    by_contra hne
    obtain ⟨y, hy⟩ := Option.ne_none_iff_exists'.mp hne
    rw [(hw.net.source n y hy).2] at hx
    cases hx
  have hact : n ∉ s.net.activeComputations := hw.net.running ▸ hidle
  have hcycle : ¬ (s.net.cycleCheck n).isSome = true := fun hc =>
    hact ((Net.cycleCheck_isSome s.net n).mp hc)
  unfold NetHost.read
  rw [hsig, hx]
  dsimp only
  rw [if_neg hcycle]
  unfold NetHost.refresh push
  dsimp only
  rw [hx]
  dsimp only
  rw [hd]
  dsimp only
  unfold NetHost.recompute
  dsimp only
  rw [hx]
  dsimp only
  rw [if_neg hact]
  rfl

end Due

section Botches

/-- The compute has returned, and the comparator panics on its value, or the value that it is
to replace is borrowed. -/
def botches (s : NetHost V) : NetStep V → Bool
  | .finish v =>
    match s.frames with
    | .computing n untracked :: _ =>
      (s.net.computed n).any fun x =>
        match x.differs v with
        | .error _ => true
        | .ok _ => decide (0 < (s.net.endCompute n x untracked).borrows n)
    | _ => false
  | _ => false

/-- A panic leaves a recomputation of `n`: its compute, or what follows once that has
returned. -/
def Fails (s : NetHost V) (op : NetStep V) (t : NetHost V) (n : NodeId) : Prop :=
  (op = .unwind ∨ ∃ v, op = .finish v) ∧ t.unwinding = true ∧
    ∃ untracked rest, s.frames = .computing n untracked :: rest

theorem botches_returned {untracked : ℕ} (hs : s.frames = .computing n untracked :: rest)
    (hx : s.net.computed n = some x) (hu : s.unwinding = false) (v : V) :
    s.botches (.finish v) = (s.conclude rest n x untracked v).unwinding := by
  unfold botches NetHost.conclude
  rw [hs]
  dsimp only
  rw [hx, Option.any_some]
  cases x.differs v with
  | error w => rfl
  | ok changed =>
    dsimp only
    split
    · rename_i hb
      exact decide_eq_true hb
    · rename_i hb
      exact (decide_eq_false hb).trans hu.symm

/-- A node whose recomputation has failed is dirty, but after a botch. -/
theorem Fails.due (hf : s.Fails op t n) (hs : s.Undisturbed) (ht : s.step layout op = some t) :
    (t.net.isClean n = true ↔ s.botches op = true) ∧ (s.botches op = false → t.Due n) := by
  obtain ⟨hop, hu, untracked, rest, hframes⟩ := hf
  have hmem : computing n untracked ∈ s.frames := by
    rw [hframes]
    exact List.mem_cons_self
  obtain ⟨x, hx, hclean⟩ := Net.isClean_iff.mp (hs.nested.clean n untracked hmem)
  obtain ⟨-, -, htail⟩ := Wired.endCompute hs.wired.net n x untracked
  have hcomp : (s.net.endCompute n x untracked).computed = s.net.computed :=
    (Net.level_endCompute s.net n x untracked).computed
  rcases hop with rfl | ⟨v, rfl⟩
  · simp only [NetHost.step] at ht
    split at ht
    · unfold NetHost.unwind at ht
      rw [hframes] at ht
      dsimp only at ht
      rw [hx] at ht
      cases ht
      have hdirty : ((s.net.endCompute n x untracked).setState n .dirty).computed n =
          some { x with state := .dirty } := by
        rw [Net.computed_setState, if_pos rfl, hcomp, hx]
        rfl
      refine ⟨⟨fun hc => ?_, fun hb => by cases hb⟩, fun _ => ⟨_, hdirty, rfl, ?_⟩⟩
      · obtain ⟨y, hy, hyc⟩ := Net.isClean_iff.mp hc
        cases hdirty.symm.trans hy
        cases hyc
      · change n ∉ (s.net.endCompute n x untracked).stack
        rw [htail, hs.wired.head hframes rfl]
        exact hs.alone hframes
    · cases ht
  · simp only [NetHost.step] at ht
    split at ht
    · rename_i hc
      unfold NetHost.finish at ht
      rw [hframes] at ht
      dsimp only at ht
      rw [hx] at ht
      cases ht
      have hb : s.botches (.finish v) = true :=
        (botches_returned hframes hx (unwinding_of_calling hc) v).trans hu
      refine ⟨⟨fun _ => hb, fun _ => Net.isClean_iff.mpr ?_⟩, fun hn => ?_⟩
      · unfold NetHost.conclude at hu ⊢
        dsimp only at hu ⊢
        split
        · exact ⟨x, (congrFun hcomp n).trans hx, hclean⟩
        · split
          · exact ⟨x, (congrFun hcomp n).trans hx, hclean⟩
          · rename_i hd hfree
            rw [hd] at hu
            dsimp only at hu
            rw [if_neg hfree, unwinding_of_calling hc] at hu
            cases hu
      · cases hb.symm.trans hn
    · cases ht

end Botches

section Truth

/-- What `n` has read in its last run. -/
def Answers (s : NetHost V) (n d : NodeId) (u : V) : Prop := ∃ k, (d, k, u) ∈ s.saw n

/-- Comparators relate equal values only, and a compute returns what its code returns on the
values that it has read. -/
def Conforms (s : NetHost V) : NetStep V → Prop
  | .memo _ equals => ∀ u v, Relates equals u v → u = v
  | .finish v => ∀ n untracked rest x, s.frames = .computing n untracked :: rest →
      s.net.computed n = some x → (x.compute none).Replays (s.Answers n) v
  | _ => True

/-- No compute writes, and every recomputation that has returned is stored. -/
def Faithful (s : NetHost V) (op : NetStep V) : Prop :=
  s.disturbs op = false ∧ s.botches op = false ∧ s.Conforms op

def ReachedFaithful (layout : Layout) (s : NetHost V) : Prop :=
  Runs.Reaches (NetHost.step layout) Faithful {} s

/-- Whatever is not to be recomputed has the value that its last answers give, and whatever
is up to date the one from scratch. -/
structure Truthful (s : NetHost V) : Prop where
  honest : ∀ n x equals, s.net.computed n = some x → x.equals = some equals →
    ∀ u v, Relates equals u v → u = v
  replayed : ∀ n x, s.net.computed n = some x → ¬ s.net.Pending n →
    ∃ v, x.value = some v ∧ (x.compute none).Replays (s.Answers n) v
  scratch : ∀ n x v, s.net.computed n = some x → s.net.Ready n → x.value = some v →
    s.net.Scratch n v

theorem not_pending (h : s.net.Ready n) : ¬ s.net.Pending n := by
  obtain ⟨x, hx, hc, hi⟩ := h
  rintro ⟨y, hy, hp⟩
  cases hx.symm.trans hy
  rcases hp with hd | hin
  · cases hc.symm.trans hd
  · exact hi hin

theorem ready_of_settled (h : s.net.Settled n) (hx : s.net.computed n = some x) : s.net.Ready n :=
  ⟨x, hx, (h x hx).1, (h x hx).2⟩

/-- What was read at the present version is the value from scratch. -/
theorem Truthful.answer (h : s.Truthful) (hl : s.ledger.Drifted)
    {e : NodeId × ℕ × V} (he : e ∈ s.saw n) (hc : s.net.Current (e.1, e.2.1)) :
    s.net.Scratch e.1 e.2.2 := by
  have hk : e.2.1 = s.ledger.version e.1 := hc.1.symm
  obtain ⟨hsig, hcell⟩ := hl.holds n e he hk
  rcases hl.valued n e he with hv | ⟨x, hx, hv⟩
  · obtain ⟨y, hy⟩ := Option.isSome_iff_exists.mp hv
    exact (Net.scratch_signal hy).mpr (hsig y hy)
  · obtain ⟨z, hz, rfl⟩ := Option.map_eq_some_iff.mp hx
    obtain ⟨v, hv⟩ := Option.isSome_iff_exists.mp hv
    have hchain := hcell _ v hx hv
    -- an honest comparator suppresses nothing but equal values
    have heq : e.2.2 = v := by
      clear hv
      induction hchain with
      | refl => rfl
      | tail _ hstep ih =>
        obtain ⟨equals, heq, hrel⟩ := hstep
        exact ih.trans (h.honest e.1 z equals hz heq _ _ hrel)
    rw [heq]
    exact h.scratch e.1 z v hz (ready_of_settled hc.2 hz) hv

/-- A node is worth what its answers give, where these are current. -/
theorem Truthful.compose (h : s.Truthful) (hs : s.Undisturbed) (hl : s.ledger.Drifted)
    (hx : s.net.computed n = some x) {v : V} (hv : (x.compute none).Replays (s.Answers n) v)
    (hc : ∀ e ∈ s.net.dependencies n, s.net.Current e) : s.net.Scratch n v := by
  have hsig : s.net.signals n = none := by
    by_contra hne
    obtain ⟨y, hy⟩ := Option.ne_none_iff_exists'.mp hne
    rw [(hs.wired.net.source n y hy).2] at hx
    cases hx
  refine (Net.scratch_computed hsig hx).mpr (hv.mono fun d u hu => ?_)
  obtain ⟨k, hk⟩ := hu
  have hcell : (s.ledger.cells n).isSome = true := by
    change ((s.net.computed n).map NetComputed.unmarked).isSome = true
    rw [hx]
    rfl
  exact h.answer hl hk (hc (d, k) (hl.recorded n hcell (d, k, u) hk))

/-- A thunk or a memo keeps its code, and its value until it is stored. -/
theorem Shift.cells (h : Shift layout s op t) (hw : s.Wired) (hx : s.ledger.cells n = some x) :
    t.ledger.cells n = some x ∨ ∃ v untracked rest, op = .finish v ∧
      s.frames = .computing n untracked :: rest ∧
      t.ledger.cells n = some { x with value := some v } := by
  have hbelow : n ≠ s.net.nextNode := by
    obtain ⟨z, hz, -⟩ := Option.map_eq_some_iff.mp hx
    exact Nat.ne_of_lt (hw.net.known n z hz)
  cases h with
  | steady hl => exact .inl (by rw [hl]; exact hx)
  | signal v same hl => exact .inl (by rw [hl]; exact hx)
  | computed compute equals hop ht hl =>
    refine .inl ?_
    rw [hl]
    exact (Function.update_of_ne hbelow _ _).trans hx
  | effect body ht hl => exact .inl (by rw [hl]; exact hx)
  | entered m why hu hl => exact .inl (by rw [hl]; exact hx)
  | lent m o rest stack hs hn ho hu hl => exact .inl (by rw [hl]; exact hx)
  | wrote m v y hy hop hu ht hl => exact .inl (by rw [hl]; exact hx)
  | stored m v changed untracked rest z hs hop hz hd hb hl =>
    by_cases hm : n = m
    · subst hm
      refine .inr ⟨v, untracked, rest, hop, hs, ?_⟩
      rw [hl]
      have hzx : some z.unmarked = some x := by
        rw [← hx]
        exact (congrArg (Option.map _) hz).symm
      cases hzx
      exact Function.update_self _ _ _
    · refine .inl ?_
      rw [hl]
      exact (Function.update_of_ne hm _ _).trans hx

/-- A thunk or a memo is made dirty, with the comparator that it is given. -/
theorem Shift.made (h : Shift layout s op t) (hn : s.net.computed n = none)
    (hx : t.net.computed n = some x) :
    x.state = .dirty ∧ ∀ equals, x.equals = some equals → ∃ f, op = .memo f equals := by
  have hnone : s.ledger.cells n = none := congrArg (Option.map _) hn
  have hsome : t.ledger.cells n = some x.unmarked := congrArg (Option.map _) hx
  have hkept : t.ledger.cells n = s.ledger.cells n → False := fun he => by
    rw [hnone, hsome] at he
    cases he
  cases h with
  | steady hl => exact (hkept (by rw [hl])).elim
  | signal v same hl => exact (hkept (by rw [hl])).elim
  | computed compute equals hop ht hl =>
    by_cases hm : n = s.net.nextNode
    · rw [ht, hm] at hx
      cases (Function.update_self s.net.nextNode _ s.net.computed).symm.trans hx
      exact ⟨rfl, fun k hk => ⟨compute, hop k hk⟩⟩
    · refine (hkept ?_).elim
      rw [hl]
      exact Function.update_of_ne hm _ _
  | effect body ht hl => exact (hkept (by rw [hl])).elim
  | entered m why hu hl => exact (hkept (by rw [hl])).elim
  | lent m o rest stack hs hn ho hu hl => exact (hkept (by rw [hl])).elim
  | wrote m v y hy hop hu ht hl => exact (hkept (by rw [hl])).elim
  | stored m v changed untracked rest z hs hop hz hd hb hl =>
    by_cases hm : n = m
    · rw [hm, hz] at hn
      cases hn
    · refine (hkept ?_).elim
      rw [hl]
      exact Function.update_of_ne hm _ _

/-- Only the innermost observer reads, and only what is entered forgets what it has read. -/
theorem Shift.saw (h : Shift layout s op t) (hn : n ∉ s.net.stack)
    (he : t.started ≠ n :: s.started) : t.saw n = s.saw n := by
  cases h with
  | steady hl => exact congrArg (Ledger.saw · n) hl
  | signal v same hl => exact congrArg (Ledger.saw · n) hl
  | computed compute equals hop ht hl => exact congrArg (Ledger.saw · n) hl
  | effect body ht hl => exact congrArg (Ledger.saw · n) hl
  | entered m why hu hl =>
    have hm : n ≠ m := by
      rintro rfl
      exact he (congrArg Ledger.started hl)
    exact (congrArg (Ledger.saw · n) hl).trans (Function.update_of_ne hm _ _)
  | lent m o rest stack hs hz ho hu hl =>
    have hno : n ≠ o := by
      rintro rfl
      rw [ho] at hn
      exact hn List.mem_cons_self
    refine (congrArg (Ledger.saw · n) hl).trans ?_
    change (s.net.cached m).elim s.saw _ n = s.saw n
    cases s.net.cached m with
    | none => rfl
    | some v => exact Function.update_of_ne hno _ _
  | wrote m v y hy hop hu ht hl => exact congrArg (Ledger.saw · n) hl
  | stored m v changed untracked rest z hs hop hz hd hb hl => exact congrArg (Ledger.saw · n) hl

theorem Shift.scratch (h : Shift layout s op t) (hw : s.Wired) :
    (∃ (m : NodeId) (v : V) (y : NetSignal V), op.isWrite = true ∧ t = s.write m v ∧
      t.ledger = { s.ledger with
        signals := Function.update s.net.signals m (some { y with value := v })
        version := Function.update s.net.version m (s.net.version m + 1)
        ran := [] }) ∨
      ∀ m v, s.net.Scratch m v → t.net.Scratch m v := by
  have hcode : ∀ m z, s.net.signals m = none → s.net.computed m = some z →
      ∃ y, t.net.computed m = some y ∧ y.compute none = z.compute none := by
    intro m z _ hz
    have hcell : s.ledger.cells m = some z.unmarked := congrArg (Option.map _) hz
    rcases h.cells hw hcell with hy | ⟨v, untracked, rest, -, -, hy⟩
    · obtain ⟨y, hy, he⟩ := Option.map_eq_some_iff.mp hy
      exact ⟨y, hy, congrArg (fun z => z.compute none) he⟩
    · obtain ⟨y, hy, he⟩ := Option.map_eq_some_iff.mp hy
      exact ⟨y, hy, congrArg (fun z => z.compute none) he⟩
  have hkeep : t.net.signals = s.net.signals → ∀ m v, s.net.Scratch m v → t.net.Scratch m v := by
    intro hs m v hv
    refine hv.mono (fun d y hy => ⟨y, by rw [hs]; exact hy, rfl⟩) fun d z hd hz => ?_
    exact ⟨by rw [hs]; exact hd, hcode d z hd hz⟩
  cases h with
  | steady hl => exact .inr (hkeep (congrArg Ledger.signals hl))
  | computed compute equals hop ht hl => exact .inr (hkeep (congrArg Ledger.signals hl))
  | effect body ht hl => exact .inr (hkeep (congrArg Ledger.signals hl))
  | entered m why hu hl => exact .inr (hkeep (congrArg Ledger.signals hl))
  | lent m o rest stack hs hn ho hu hl => exact .inr (hkeep (congrArg Ledger.signals hl))
  | stored m v changed untracked rest z hs hop hz hd hb hl =>
    exact .inr (hkeep (congrArg Ledger.signals hl))
  | wrote m v y hy hop hu ht hl => exact .inl ⟨m, v, y, hop, ht, hl⟩
  | signal w same hl =>
    have hs : t.net.signals = Function.update s.net.signals s.net.nextNode (some { value := w, same }) :=
      congrArg Ledger.signals hl
    refine .inr fun m v hv => hv.mono (fun d y hy => ⟨y, ?_, rfl⟩) fun d z hd hz => ⟨?_, hcode d z hd hz⟩
    · rw [hs, Function.update_of_ne (Nat.ne_of_lt (hw.net.source d y hy).1)]
      exact hy
    · rw [hs, Function.update_of_ne (Nat.ne_of_lt (hw.net.known d z hz))]
      exact hd

theorem returned_stored {untracked : ℕ} {v : V} (hs : s.frames = .computing n untracked :: rest)
    (hx : s.net.computed n = some x) (hb : s.botches (.finish v) = false)
    (ht : s.step layout (.finish v) = some t) :
    t.net.computed n = some { x with value := some v } ∧ t.saw = s.saw := by
  simp only [NetHost.step] at ht
  split at ht
  · rename_i hc
    have hu := unwinding_of_calling hc
    unfold NetHost.finish at ht
    rw [hs] at ht
    dsimp only at ht
    rw [hx] at ht
    cases ht
    have hun := (botches_returned hs hx hu v).symm.trans hb
    have hcomp : (s.net.endCompute n x untracked).computed = s.net.computed :=
      (Net.level_endCompute s.net n x untracked).computed
    unfold NetHost.conclude at hun ⊢
    dsimp only at hun ⊢
    split
    · rename_i hd
      rw [hd] at hun
      cases hun
    · rename_i changed hd
      rw [hd] at hun
      dsimp only at hun
      split
      · rename_i hbusy
        rw [if_pos hbusy] at hun
        cases hun
      · refine ⟨?_, rfl⟩
        have hstore : ((s.net.endCompute n x untracked).store n v).computed n =
            some { x with value := some v } := by
          unfold Net.store
          rw [Net.computed_modifyComputed, if_pos rfl, hcomp, hx]
          rfl
        change ((s.net.endCompute n x untracked).accept n v changed).computed n = _
        unfold Net.accept
        split <;> exact hstore
  · cases ht

/-- What is not to be recomputed has been recomputed by this step, or is as it was. -/
theorem Truthful.replay (h : s.Truthful) (hs : s.Undisturbed) (hf : s.Faithful op)
    (ht : s.step layout op = some t) {y : NetComputed V} (hy : t.net.computed n = some y)
    (hp : ¬ t.net.Pending n) : ∃ x v, s.net.computed n = some x ∧ y.compute = x.compute ∧
      y.value = some v ∧ (x.compute none).Replays (s.Answers n) v ∧ t.saw n = s.saw n ∧
      (¬ s.Settles op n → x.value = some v) := by
  have hsh := shift_step hs.wired ht
  have hsl := slackens_step hs.wired ht
  cases hx : s.net.computed n with
  | none => exact absurd ⟨y, hy, .inl (hsh.made hx hy).1⟩ hp
  | some x =>
    by_cases hret : ∃ v untracked rest, op = .finish v ∧ s.frames = .computing n untracked :: rest
    · obtain ⟨v, untracked, rest, rfl, hframes⟩ := hret
      obtain ⟨hstored, hsaw⟩ := returned_stored hframes hx hf.2.1 ht
      cases hy.symm.trans hstored
      exact ⟨x, v, rfl, rfl, rfl, hf.2.2 n untracked rest x hframes hx, congrFun hsaw n,
        fun hn => absurd (.returned v untracked rest rfl hframes) hn⟩
    · have hsp : ¬ s.net.Pending n := by
        intro hsp
        by_cases hset : s.Settles op n
        · rcases hset with ⟨v, untracked, rest, rfl, hframes⟩ | ⟨rest, rfl, hframes⟩
          · exact hret ⟨v, untracked, rest, rfl, hframes⟩
          · have hmem : NetFrame.verifying n [] ∈ s.frames := by
              rw [hframes]
              exact List.mem_cons_self
            obtain ⟨z, hz, hd⟩ := hsp
            rcases hd with hd | hin
            · cases (hs.nested.check _ hmem n (decide_eq_true rfl) z hz).symm.trans hd
            · exact hs.verified_idle hmem (decide_eq_true rfl) hin
        · exact hp (hsl.net.pending n hset hsp)
      obtain ⟨v, hv, hr⟩ := h.replayed n x hx hsp
      have hcell : s.ledger.cells n = some x.unmarked := congrArg (Option.map _) hx
      have hkept : y.unmarked = x.unmarked := by
        rcases hsh.cells hs.wired hcell with hk | ⟨w, untracked, rest, hop, hframes, -⟩
        · have hk : (t.net.computed n).map NetComputed.unmarked = some x.unmarked := hk
          rw [hy] at hk
          exact Option.some.inj hk
        · exact absurd ⟨w, untracked, rest, hop, hframes⟩ hret
      have hcompute : y.unmarked.compute = x.unmarked.compute := congrArg _ hkept
      have hvalue : y.unmarked.value = x.unmarked.value := congrArg _ hkept
      refine ⟨x, v, rfl, hcompute, hvalue.trans hv, hr, ?_, fun _ => hv⟩
      exact hsh.saw (fun hin => hsp ⟨x, hx, .inr hin⟩) fun he => hp ⟨y, hy, .inr (hsl.begun n he)⟩

/-- After a write, whatever is still up to date has none of its answers changed. -/
theorem Truthful.write_scratch (h : s.Truthful) (hs : s.Undisturbed) (hl : s.ledger.Drifted)
    {w : NodeId} {v : V} {y : NetSignal V} (ht : (s.write w v).Undisturbed)
    (htl : (s.write w v).ledger.Drifted) (hled : (s.write w v).ledger = { s.ledger with
      signals := Function.update s.net.signals w (some { y with value := v })
      version := Function.update s.net.version w (s.net.version w + 1)
      ran := [] }) {u : V} {depth : ℕ} (hn : s.net.Naive depth n u)
    (hr : (s.write w v).net.Ready n) : (s.write w v).net.Scratch n u := by
  have hcells : (s.write w v).ledger.cells = s.ledger.cells := by rw [hled]
  have hdeps : (s.write w v).net.dependencies = s.net.dependencies :=
    congrArg Ledger.dependencies hled
  have hversion : (s.write w v).net.version = Function.update s.net.version w (s.net.version w + 1) :=
    congrArg Ledger.version hled
  have hsl : Slackens (fun _ => False) s (s.write w v) := slackens_write hs.wired w v
  have hback : ∀ d, (s.write w v).net.Ready d → s.net.Ready d := fun d => hsl.net.ready d not_false
  induction depth generalizing n u with
  | zero => exact hn.elim
  | succ depth ih =>
    obtain ⟨z, hz, hclean, hidle⟩ := hr
    have hcell : (s.net.computed n).map NetComputed.unmarked = some z.unmarked :=
      (congrFun hcells n).symm.trans (congrArg (Option.map _) hz)
    obtain ⟨x, hx, hxz⟩ := Option.map_eq_some_iff.mp hcell
    have hcode : z.unmarked.compute none = x.unmarked.compute none := by rw [hxz]
    have hsome : (s.ledger.cells n).isSome = true := Option.isSome_iff_exists.mpr ⟨_, hcell⟩
    have hcurrent : ∀ d k b, (d, k, b) ∈ s.saw n → (s.write w v).net.Current (d, k) := by
      intro d k b hb
      refine ht.exact n z hz hclean (d, k) ?_
      rw [hdeps]
      exact hl.recorded n hsome _ hb
    -- what was current after the write was current before it
    have hbefore : ∀ d k b, (d, k, b) ∈ s.saw n → s.net.Current (d, k) := by
      intro d k b hb
      obtain ⟨hk, hsettled⟩ := hcurrent d k b hb
      refine ⟨?_, fun c hc => ?_⟩
      · have hle : k ≤ s.net.version d := hl.below n _ hb
        have hge := le_bump s.net.version w d
        have hk : (s.write w v).net.version d = k := hk
        rw [hversion] at hk
        change s.net.version d = k
        omega
      · have hcd : ((s.write w v).net.computed d).map NetComputed.unmarked = some c.unmarked :=
          (congrFun hcells d).trans (congrArg (Option.map _) hc)
        obtain ⟨c', hc', -⟩ := Option.map_eq_some_iff.mp hcd
        obtain ⟨b', hb', hbc, hbi⟩ := hback d (ready_of_settled hsettled hc')
        cases hc.symm.trans hb'
        exact ⟨hbc, hbi⟩
    have hsig : s.net.signals n = none := by
      by_contra hne
      obtain ⟨c, hc⟩ := Option.ne_none_iff_exists'.mp hne
      rw [(hs.wired.net.source n c hc).2] at hx
      cases hx
    have hreplay : (x.compute none).Replays (s.net.Naive depth) u := by
      rcases hn with ⟨c, hc, -⟩ | ⟨-, x', hx', hp⟩
      · cases hsig.symm.trans hc
      · cases hx.symm.trans hx'
        exact hp
    obtain ⟨v₀, -, hv₀⟩ := h.replayed n x hx (not_pending (hback n ⟨z, hz, hclean, hidle⟩))
    obtain ⟨-, hboth⟩ := hreplay.both hv₀ fun d b b' hb hb' => by
      obtain ⟨k, hk⟩ := hb'
      exact Net.Scratch.unique ⟨depth, hb⟩ (h.answer hl hk (hbefore d k b' hk))
    have hsigt : (s.write w v).net.signals n = none := by
      by_contra hne
      obtain ⟨c, hc⟩ := Option.ne_none_iff_exists'.mp hne
      rw [(ht.wired.net.source n c hc).2] at hz
      cases hz
    refine (Net.scratch_computed hsigt hz).mpr ?_
    have hcode : z.compute none = x.compute none := hcode
    rw [hcode]
    refine hboth.mono fun d b hb => ?_
    obtain ⟨hnaive, k, hk⟩ := hb
    have hkt : (d, k, b) ∈ (s.write w v).ledger.saw n := by
      rw [hled]
      exact hk
    obtain ⟨hver, hsettled⟩ := hcurrent d k b hk
    rcases htl.valued n _ hkt with hv | ⟨c, hc, -⟩
    · obtain ⟨c, hc⟩ := Option.isSome_iff_exists.mp hv
      exact (Net.scratch_signal hc).mpr ((htl.holds n _ hkt hver.symm).1 c hc)
    · obtain ⟨c', hc', -⟩ := Option.map_eq_some_iff.mp hc
      exact ih hnaive (ready_of_settled hsettled hc')

theorem Truthful.step (h : s.Truthful) (hs : s.Undisturbed) (hl : s.ledger.Drifted)
    (hf : s.Faithful op) (ht : s.step layout op = some t) : t.Truthful := by
  have hsh := shift_step hs.wired ht
  have hsl := slackens_step hs.wired ht
  have htund := hs.step hf.1 ht
  have htl := hs.drifted hl ht
  refine { honest := ?_, replayed := ?_, scratch := ?_ }
  · intro n y equals hy heq
    cases hx : s.net.computed n with
    | none =>
      obtain ⟨f, rfl⟩ := (hsh.made hx hy).2 equals heq
      exact hf.2.2
    | some x =>
      have hcell : s.ledger.cells n = some x.unmarked := congrArg (Option.map _) hx
      have hty : t.ledger.cells n = some y.unmarked := congrArg (Option.map _) hy
      refine h.honest n x equals hx ?_
      rcases hsh.cells hs.wired hcell with hk | ⟨v, untracked, rest, -, -, hk⟩
      · exact (congrArg NetComputed.equals (Option.some.inj (hk.symm.trans hty))).trans heq
      · exact (congrArg NetComputed.equals (Option.some.inj (hk.symm.trans hty))).trans heq
  · intro n y hy hp
    obtain ⟨x, v, -, hcode, hv, hr, hsaw, -⟩ := h.replay hs hf ht hy hp
    refine ⟨v, hv, ?_⟩
    rw [hcode]
    refine hr.mono fun d u hu => ?_
    obtain ⟨k, hk⟩ := hu
    exact ⟨k, hsaw ▸ hk⟩
  · intro n y v hy hready hv
    obtain ⟨x, w, hx, hcode, hw, hr, hsaw, hold⟩ := h.replay hs hf ht hy (not_pending hready)
    cases hv.symm.trans hw
    rcases hsh.scratch hs.wired with ⟨m, u, z, hop, rfl, hled⟩ | hkeep
    · have hset : ¬ s.Settles op n := by
        rintro (⟨b, untracked, rest, rfl, -⟩ | ⟨rest, rfl, -⟩) <;> cases hop
      obtain ⟨depth, hn⟩ := h.scratch n x v hx (hsl.net.ready n hset hready) (hold hset)
      exact h.write_scratch hs hl htund htl hled hn hready
    · refine hkeep n v ?_
      by_cases hset : s.Settles op n
      · refine h.compose hs hl hx hr ?_
        rcases hset with ⟨z, untracked, rest, rfl, hframes⟩ | ⟨rest, rfl, hframes⟩
        · obtain ⟨x', hx', hc⟩ := Net.isClean_iff.mp
            (hs.nested.clean n untracked (by rw [hframes]; exact List.mem_cons_self))
          exact hs.exact n x' hx' hc
        · have hmem : NetFrame.verifying n [] ∈ s.frames := by
            rw [hframes]
            exact List.mem_cons_self
          obtain ⟨before, hdeps, hpassed⟩ := hs.nested.passed _ hmem n (decide_eq_true rfl)
          intro e he
          rw [hdeps, NetFrame.left, List.append_nil] at he
          exact hpassed e he
      · exact h.scratch n x v hx (hsl.net.ready n hset hready) (hold hset)

theorem truthful_empty : ({} : NetHost V).Truthful where
  honest n x equals hx := by cases hx
  replayed n x hx := by cases hx
  scratch n x v hx := by cases hx

theorem ReachedFaithful.truthful (h : s.ReachedFaithful layout) :
    s.Undisturbed ∧ s.ledger.Drifted ∧ s.Truthful := by
  have hempty : ({} : NetHost V).ReachedPure layout := .init
  refine h.invariant (fun s => s.Undisturbed ∧ s.ledger.Drifted ∧ s.Truthful)
    ⟨undisturbed_empty, hempty.drifted.2, truthful_empty⟩ ?_
  intro s op t hs ok ht
  obtain ⟨hund, hl, htruth⟩ := hs
  exact ⟨hund.step ok.1 ht, hund.drifted hl ht, htruth.step hund hl ok ht⟩

theorem Truthful.lends (h : s.Truthful) (hs : s.Undisturbed) {tracked : Bool}
    (hf : s.frames = .reading n tracked :: rest) (ht : s.step layout .next = some t)
    (hu : t.unwinding = false) :
    ∃ v, t.frames = .holding n :: rest ∧ s.net.cached n = some v ∧ s.net.Scratch n v := by
  simp only [NetHost.step] at ht
  split at ht
  · cases ht
  rename_i hrun
  unfold NetHost.next at ht
  rw [hf] at ht
  cases ht
  have hsettled : s.net.Settled n :=
    hs.returned (Bool.eq_false_iff.mpr hrun) _ (by rw [hf]; rfl) n rfl
  unfold NetHost.lend at hu ⊢
  split at hu
  · cases hu
  · rename_i hcycle
    rw [if_neg hcycle]
    dsimp only at hu ⊢
    cases hv : s.net.cached n with
    | none =>
      rw [hv] at hu
      cases hu
    | some v =>
      have hframes : (if tracked = true then NetHost.noteSaw { s with frames := rest } n v
          else { s with frames := rest }).frames = rest := by
        split
        · exact (noteSaw_same _ n v).2.1
        · rfl
      refine ⟨v, ?_, rfl, ?_⟩
      · dsimp only [push]
        rw [hframes]
      unfold Net.cached at hv
      split at hv
      · rename_i y hy
        exact (Net.scratch_signal hy).mpr (Option.some.inj hv)
      · obtain ⟨x, hx, hxv⟩ := Option.bind_eq_some_iff.mp hv
        exact h.scratch n x v hx (ready_of_settled hsettled hx) hxv

end Truth

def panicking : List (NetStep ℕ) :=
  [.signal 0 (· == ·), .memo (fun _ => .get 1 fun v => .ret v) fun u v => .ok (u == v),
    .read 2 true, .read 1 true, .next, .panic, .unwind]

end NetHost

end Adaptite

import Adaptite.Playing

set_option autoImplicit false

namespace Adaptite

open Unwinding Runs NetFrame

namespace NetHost

variable {V α : Type} {layout : Layout} {P : Prop} {frames rest : List NetFrame} {b : Bool}
  {codes : NodeId → Option ((Option V → Script V) × Option (Equals V))} {s t u : NetHost V}
  {net net' : Net V} {n m : NodeId} {op : NetStep V} {f : NetFrame} {tracked : Bool}

section Recomputing

variable {next : NodeId → Pull V Unit} {x y : NetComputed V} {body : Pull V V} {v : V}
  {untracked : ℕ} {Q : V → Net V → NetHost V → Prop} {E : Fault V → Net V → NetHost V → Prop}

theorem bare_occupy (n : NodeId) (x : NetComputed V) (net : Net V) :
    (net.occupy n x).bare = net.bare.occupy n x := by
  unfold Net.occupy
  split <;> rfl

theorem bare_vacate (n : NodeId) (x : NetComputed V) (net : Net V) :
    (net.vacate n x).bare = net.bare.vacate n x := by
  unfold Net.vacate
  split <;> rfl

theorem bare_endCompute (n : NodeId) (x : NetComputed V) (untracked : ℕ) (net : Net V) :
    (net.endCompute n x untracked).bare = net.bare.endCompute n x untracked := by
  unfold Net.endCompute
  rw [bare_vacate, Net.bare_leave]

theorem bare_accept (n : NodeId) (v : V) (changed : Bool) (net : Net V) :
    (net.accept n v changed).bare = net.bare.accept n v changed := by
  unfold Net.accept
  split <;> rfl

theorem computed_endCompute (net : Net V) (n : NodeId) (x : NetComputed V) (untracked : ℕ) :
    (net.endCompute n x untracked).computed = net.computed :=
  (Net.alike_vacate (net.leave untracked) n x).computed.trans (Net.leave_eq net untracked).1

theorem mimics_occupied (h : Mimics (NetHost.step layout) (Admits P) s body
      (fun a t u => Q a (t.vacate n x) u) (fun e t u => E e (t.vacate n x) u) (net.occupy n x)) :
    Mimics (NetHost.step layout) (Admits P) s
      ((if x.equals.isSome then Pull.borrowing n else id) body) Q E net := by
  unfold Net.occupy Net.vacate at h
  split
  · rename_i hm
    simp only [hm, if_true] at h
    refine Mimics.modify (.guarded ?_)
    exact h.mono (fun _ _ u hu => ⟨u, .init, hu⟩) fun _ _ u hu => ⟨u, .init, hu⟩
  · rename_i hm
    simp only [hm, Bool.false_eq_true, if_false] at h
    exact h

theorem mimics_runInContext (idle : n ∉ net.activeComputations)
    (h : Mimics (NetHost.step layout) (Admits P) s body (fun a t u => Q a (t.leave net.untracked) u)
      (fun e t u => E e (t.leave net.untracked) u) (net.enter n)) :
    Mimics (NetHost.step layout) (Admits P) s (Pull.runInContext n body) Q E net := by
  refine .get ?_
  rw [if_neg idle]
  refine Mimics.modify (.guarded ?_)
  exact h.mono (fun _ _ u hu => ⟨u, .init, hu⟩) fun _ _ u hu => ⟨u, .init, hu⟩

theorem mimics_runInContext_active (active : n ∈ net.activeComputations)
    (h : E (.reentered n) net s) :
    Mimics (NetHost.step layout) (Admits P) s (Pull.runInContext n body) Q E net := by
  refine .get ?_
  rw [if_pos active]
  exact .raise h

theorem mimics_changed {Q : Bool → Net V → NetHost V → Prop} (hy : net.computed n = some y)
    (hok : ∀ c, y.differs v = .ok c → Q c net s)
    (herror : ∀ w, y.differs v = .error w → E (.user w) net s) :
    Mimics (NetHost.step layout) (Admits P) s (Pull.changed n v) Q E net := by
  refine .get ?_
  rw [hy]
  unfold NetComputed.differs at hok herror
  dsimp only
  cases he : y.equals with
  | none =>
    rw [he] at hok
    exact .pure (hok true rfl)
  | some equals =>
    cases hv : y.value with
    | none =>
      rw [he, hv] at hok
      exact .pure (hok true rfl)
    | some current =>
      rw [he, hv] at hok herror
      dsimp only at hok herror ⊢
      cases hc : equals current v with
      | ok same => exact .pure (hok (!same) (by rw [hc]; rfl))
      | error w => exact .raise (herror w (by rw [hc]; rfl))

theorem comes_conclude (h : Stands codes (.computing n untracked :: frames) false net s)
    (hx : codes n = some (x.compute, x.equals)) (v : V) :
    Comes layout P codes frames s (Pull.changed n v >>= fun changed =>
      Pull.replaceValue n v >>= fun _ =>
        if changed then Act.modify fun net => net.bumpVersion n else pure ())
      (net.endCompute n x untracked) := by
  obtain ⟨y, hy, hsy, hcode⟩ := h.computed (by rw [hx]; rfl)
  have hequals : y.equals = x.equals := congrArg Prod.snd (Option.some.inj (hcode.symm.trans hx))
  have hend : ∀ net : Net V, net.endCompute n y untracked = net.endCompute n x untracked := by
    intro net
    unfold Net.endCompute Net.vacate
    rw [hequals]
  have hagree : (s.net.endCompute n y untracked).Agree (net.endCompute n x untracked) := by
    rw [hend]
    exact h.agree.map (bare_endCompute n x untracked)
  have hcodes : (net.endCompute n x untracked).codes = codes :=
    (Net.codes_of_eq (computed_endCompute net n x untracked)).trans h.codes
  have hret : s.finish v = some (s.conclude frames n y untracked v) := by
    unfold NetHost.finish
    rw [h.frames]
    dsimp only
    rw [hsy]
    rfl
  have hstep : s.step layout (.finish v) = some (s.conclude frames n y untracked v) :=
    h.finishes rfl hret
  have hwired := h.wired.step _ hstep
  refine Mimics.after ?_ (.single (fun _ => rfl) hstep)
  have hcomputed : (net.endCompute n x untracked).computed n = some y := by
    rw [computed_endCompute, hy]
  unfold NetHost.conclude at hwired ⊢
  dsimp only at hwired ⊢
  refine .bind (mimics_changed hcomputed (fun changed hd => ?_) fun w hd => ?_)
  · rw [hd] at hwired ⊢
    dsimp only at hwired ⊢
    rw [hagree.borrows] at hwired ⊢
    refine .bind (.get ?_)
    split
    · rename_i hb
      rw [if_pos hb] at hwired
      exact .raise ⟨rfl, rfl, hagree, hcodes, hwired⟩
    · rename_i hb
      rw [if_neg hb] at hwired
      refine .modified ?_
      have hstored : (((net.endCompute n x untracked).store n v)).codes = codes :=
        (Net.codes_store _ n v).trans hcodes
      have haccept := hagree.map (bare_accept n v changed)
      cases changed with
      | true => exact .modified ⟨rfl, h.unwinding, haccept, hstored, hwired⟩
      | false => exact .pure ⟨rfl, h.unwinding, haccept, hstored, hwired⟩
  · rw [hd] at hwired ⊢
    exact ⟨rfl, rfl, hagree, hcodes, hwired⟩

theorem Stands.leaves_computing (h : Stands codes (.computing n untracked :: rest) true net s)
    (hx : codes n = some (x.compute, x.equals)) :
    ∃ w, Reaches (NetHost.step layout) (Admits P) s w ∧
      Stands codes rest true ((net.endCompute n x untracked).setState n .dirty) w := by
  obtain ⟨y, hy, hsy, hcode⟩ := h.computed (by rw [hx]; rfl)
  have hequals : y.equals = x.equals := congrArg Prod.snd (Option.some.inj (hcode.symm.trans hx))
  have hend : s.net.endCompute n y untracked = s.net.endCompute n x untracked := by
    unfold Net.endCompute Net.vacate
    rw [hequals]
  refine ⟨{ s with net := (s.net.endCompute n y untracked).setState n .dirty, frames := rest },
    h.moves (h.unwind ?_) rfl rfl h.unwinding ?_ ?_⟩
  · unfold NetHost.unwind
    rw [h.frames]
    dsimp only
    rw [hsy]
    rfl
  · rw [hend]
    exact (h.agree.map (bare_endCompute n x untracked)).map
      (f := fun net => net.setState n .dirty) fun _ => rfl
  · exact (Net.codes_setState _ n _).trans (Net.codes_of_eq (computed_endCompute net n x untracked))

theorem spoiled_agrees (net : Net V) (n : NodeId) (x : NetComputed V) :
    ((((net.setState n .clean).occupy n x).vacate n x).setState n .dirty) =
      net.setState n .dirty := by
  have hvacate : ((net.setState n .clean).occupy n x).vacate n x = net.setState n .clean := by
    unfold Net.occupy Net.vacate
    split
    · exact giveBack_borrow _ n
    · rfl
  rw [hvacate]
  unfold Net.setState Net.modifyComputed
  dsimp only
  rw [Function.update_self, Function.update_idem, Option.map_map]
  rfl

/-- A compute is never written from, where `P` asks for it. -/
def Harmless (P : Prop) (codes : NodeId → Option ((Option V → Script V) × Option (Equals V))) :
    Prop :=
  P → ∀ n c, codes n = some c → ∀ previous, (c.1 previous).ReadOnly

theorem comes_recompute (hnext : Refreshes layout P codes next) (hp : Harmless P codes)
    (h : Stands codes frames false net s) :
    Comes layout P codes frames (s.recompute n) (Pull.recompute layout next n) net := by
  have hwired := h.wired.recompute n
  refine .get ?_
  unfold NetHost.recompute at hwired ⊢
  rw [h.agree.computed] at hwired ⊢
  cases hx : net.computed n with
  | none => exact .pure h
  | some x =>
    rw [hx] at hwired
    dsimp only at hwired ⊢
    have hcode : codes n = some (x.compute, x.equals) := by
      rw [← h.codes]
      unfold Net.codes
      rw [hx]
      rfl
    have hactive : ((net.setState n .clean).occupy n x).activeComputations =
        net.activeComputations := by
      unfold Net.occupy
      split <;> rfl
    have huntracked : ((net.setState n .clean).occupy n x).untracked = net.untracked := by
      unfold Net.occupy
      split <;> rfl
    rw [h.agree.active] at hwired ⊢
    split
    · rename_i hin
      rw [if_pos hin] at hwired
      refine .modify (.bind (.onUnwind (mimics_occupied (mimics_runInContext_active ?_ ?_))))
      · rw [hactive]
        exact hin
      · refine ⟨_, .init, h.frames, rfl, ?_, ?_, hwired⟩
        · rw [spoiled_agrees]
          exact h.agree.map (f := fun net => net.setState n .dirty) fun _ => rfl
        · rw [spoiled_agrees]
          exact (Net.codes_setState net n .dirty).trans h.codes
    · rename_i hin
      rw [if_neg hin] at hwired
      have hbegun : Stands codes (.computing n net.untracked :: frames) false
          (((net.setState n .clean).occupy n x).enter n)
          (s.begin n (s.net.beginCompute n x) (.computing n s.net.untracked)) := by
        refine ⟨?_, h.unwinding, ?_, ?_, hwired⟩
        · change .computing n s.net.untracked :: s.frames = _
          rw [h.agree.untracked, h.frames]
        · refine h.agree.map (f := fun net => ((net.setState n .clean).occupy n x).enter n) ?_
          exact fun net => congrArg (Net.enter · n) (bare_occupy n x (net.setState n .clean))
        · refine (Net.codes_of_eq ?_).trans ((Net.codes_setState net n .clean).trans h.codes)
          unfold Net.occupy
          split <;> rfl
      have hplay := plays_exec hnext (x.compute x.value) (.computing n net.untracked :: frames)
        (by rintro f ⟨⟩; rfl) (fun hP _ => hp hP n _ hcode x.value) _ _ hbegun
      refine .modify (.bind (.onUnwind (mimics_occupied (mimics_runInContext ?_ ?_))))
      · rw [hactive]
        exact hin
      · rw [huntracked]
        refine hplay.mono (fun v t u hu => ?_) fun e t u hu => ?_
        · exact comes_conclude hu hcode v
        · exact hu.leaves_computing hcode

end Recomputing

section Refreshing

variable {next : NodeId → Pull V Unit}

/-- `anyChanged`, from the verification of a thunk or a memo on: where it finds a change, the
node is recomputed. -/
theorem mimics_anyChanged (hnext : Refreshes layout P codes next)
    (hn : (codes n).isSome = true) (entries : EdgeTable) (net : Net V) (s : NetHost V)
    (h : Stands codes (.verifying n entries :: frames) false net s) :
    Mimics (NetHost.step layout) (Admits P) s (Pull.anyChanged next entries)
      (fun changed t u =>
        (changed = true ∧ ∃ w, Stands codes frames false t w ∧ u = w.recompute n) ∨
          changed = false ∧ Stands codes (.verifying n [] :: frames) false t u)
      (fun _ t u => Stands codes frames true t u) net := by
  induction entries generalizing net s with
  | nil => exact .pure (.inr ⟨rfl, h⟩)
  | cons entry entries ih =>
    obtain ⟨d, version⟩ := entry
    have hcycle := h.agree.cycleCheck d
    obtain ⟨x, -, hx, -⟩ := h.computed hn
    have below := h.wired.net.known n x hx
    cases hc : net.cycleCheck d with
    | some fault =>
      rw [hc] at hcycle
      have hstep : s.step layout .next = some s.raise := by
        refine h.next ?_
        unfold NetHost.next
        rw [h.frames]
        dsimp only
        rw [hcycle]
        rfl
      obtain ⟨w, hr, hw⟩ : ∃ w, Reaches (NetHost.step layout) (Admits P) s.raise w ∧
          Stands codes frames true net w := h.raised.leaves_verifying (decide_eq_true rfl) hn
      refine Mimics.after ?_ ((Reaches.single (fun _ => rfl) hstep).trans hr)
      refine .bind (mimics_assertNoCycle (fun hnone => ?_) fun fault' _ => hw.ghost rfl rfl)
      cases hnone.symm.trans hc
    | none =>
      rw [hc] at hcycle
      have hstep : s.step layout .next = some (({ s with
          frames := .awaiting n d version entries :: frames } : NetHost V).refresh d) := by
        refine h.next ?_
        unfold NetHost.next
        rw [h.frames]
        dsimp only
        rw [hcycle]
        rfl
      have hawait : Stands codes (.awaiting n d version entries :: frames) false net
          { s with frames := .awaiting n d version entries :: frames } :=
        ⟨rfl, h.unwinding, h.agree, h.codes, h.wired.swap h.frames rfl rfl below⟩
      refine Mimics.after ?_ (.single (fun _ => rfl) hstep)
      refine .bind (mimics_assertNoCycle (fun _ => ?_) fun fault hf => ?_)
      · refine (hnext d _ net _ hawait).extend (fun _ t w hw => ?_) fun e t w hw =>
          hw.leaves_verifying (decide_eq_true rfl) hn
        obtain ⟨y, -, hy, -⟩ := hw.computed hn
        have hpopped : Stands codes frames false t { w with frames } :=
          ⟨rfl, hw.unwinding, hw.agree, hw.codes, hw.wired.pop hw.frames rfl⟩
        have hnext' : w.next layout = if w.net.version d ≠ version then
            some (({ w with frames } : NetHost V).changed n)
          else some { w with frames := .verifying n entries :: frames } := by
          unfold NetHost.next
          rw [hw.frames]
        by_cases hv : t.version d ≠ version
        · have hchanged : ({ w with frames } : NetHost V).changed n =
              ({ w with frames } : NetHost V).recompute n := by
            unfold NetHost.changed
            dsimp only
            rw [hy]
          have hgo : w.step layout .next = some (({ w with frames } : NetHost V).recompute n) := by
            refine hw.next ?_
            rw [hnext', hw.agree.version, if_pos hv, hchanged]
          refine ⟨_, .single (fun _ => rfl) hgo, .get ?_⟩
          rw [if_pos hv]
          exact .pure (.inl ⟨rfl, _, hpopped, rfl⟩)
        · have hgo : w.step layout .next =
              some { w with frames := .verifying n entries :: frames } := by
            refine hw.next ?_
            rw [hnext', hw.agree.version, if_neg hv]
          refine ⟨_, .single (fun _ => rfl) hgo, .get ?_⟩
          rw [if_neg hv]
          exact ih t _ ⟨rfl, hw.unwinding, hw.agree, hw.codes, hw.wired.step _ hgo⟩
      · cases hc.symm.trans hf

theorem comes_refresh (hnext : Refreshes layout P codes next) (hp : Harmless P codes)
    (h : Stands codes frames false net s) :
    Comes layout P codes frames (s.refresh n) (Pull.refresh layout next n) net := by
  refine .get ?_
  unfold NetHost.refresh
  rw [h.agree.computed]
  cases hx : net.computed n with
  | none => exact .pure h
  | some x =>
    dsimp only
    cases hstate : x.state with
    | clean => exact .pure h
    | dirty => exact comes_recompute hnext hp h
    | check =>
      have hn : (codes n).isSome = true := by
        rw [← h.codes]
        unfold Net.codes
        rw [hx]
        rfl
      have hverify : Stands codes (.verifying n (net.dependencies n) :: frames) false net
          (s.push (.verifying n (s.net.dependencies n))) := by
        refine ⟨?_, h.unwinding, h.agree, h.codes, ?_⟩
        · change _ :: s.frames = _
          rw [h.frames, h.agree.dependencies]
        · exact h.wired.frame rfl rfl rfl (h.wired.net.known n x (h.agree.computed ▸ hx))
      refine .bind (.get ?_)
      refine (mimics_anyChanged hnext hn _ net _ hverify).mono (fun changed t w hw => ?_)
        fun _ _ _ => id
      rcases hw with ⟨rfl, u, hu, rfl⟩ | ⟨rfl, hw⟩
      · exact comes_recompute hnext hp hu
      · have hstep : w.step layout .next =
            some { w with net := w.net.setState n .clean, frames } := by
          refine hw.next ?_
          unfold NetHost.next
          rw [hw.frames]
        obtain ⟨hr, hdone⟩ := hw.moves (P := P) hstep rfl rfl hw.unwinding
          (hw.agree.map (f := fun net => net.setState n .clean) fun _ => rfl)
          (Net.codes_setState t n .clean)
        exact Mimics.after (.modified hdone) hr

theorem refreshes_refreshing (hp : Harmless P codes) (depth : ℕ) :
    Refreshes layout P codes (Pull.refreshing layout depth) := by
  induction depth with
  | zero => exact fun n frames net s h => .stop
  | succ depth ih => exact fun n frames net s h => comes_refresh ih hp h

end Refreshing

/-- Whatever a script does in one go, code that is in control can do step by step: it ends on
the same net, with the same calls left and a panic under way where the script unwinds. With `P`,
where no compute writes, no step of the run is a write by a compute. -/
theorem evaluations_are_runs (P : Prop) (p : Script V) (depth : ℕ) (s : NetHost V) (hw : s.Wired)
    (hc : s.calling = true)
    (hp : P → (∀ n x previous, s.net.computed n = some x → (x.compute previous).ReadOnly) ∧
      (s.frames.any isComputing = true → p.ReadOnly)) :
    (∀ v t, Pull.exec layout (Pull.refreshing layout depth) p s.net = .ok v t →
      ∃ u, Reaches (NetHost.step layout) (Admits P) s u ∧ u.frames = s.frames ∧
        u.unwinding = false ∧ u.net.Agree t) ∧
    ∀ e t, Pull.exec layout (Pull.refreshing layout depth) p s.net = .panic e t →
      ∃ u, Reaches (NetHost.step layout) (Admits P) s u ∧ u.frames = s.frames ∧
        u.unwinding = true ∧ u.net.Agree t := by
  have hcalling : s.unwinding = false ∧ s.inCode = true := by
    unfold NetHost.calling at hc
    rwa [Bool.and_eq_true, Bool.not_eq_true'] at hc
  have hcode : InCode s.frames := by
    intro f hf
    have hin := hcalling.2
    unfold NetHost.inCode at hin
    cases hs : s.frames with
    | nil => rw [hs] at hf; cases hf
    | cons g rest =>
      rw [hs] at hf hin
      cases hf
      exact hin
  have hharmless : Harmless P s.net.codes := by
    intro hP n c hn previous
    obtain ⟨x, hx, rfl⟩ := Option.map_eq_some_iff.mp hn
    exact (hp hP).1 n x previous hx
  have hplays : Plays layout P s.net.codes s.frames
      (Pull.exec layout (Pull.refreshing layout depth) p) :=
    plays_exec (refreshes_refreshing hharmless depth) p s.frames hcode fun hP => (hp hP).2
  have hplay := hplays s.net s ⟨rfl, hcalling.1, .refl _, rfl, hw⟩
  refine ⟨fun v t h => ?_, fun e t h => ?_⟩
  · obtain ⟨u, hr, hu⟩ := hplay.returns h
    exact ⟨u, hr, hu.frames, hu.unwinding, hu.agree⟩
  · obtain ⟨u, hr, hu⟩ := hplay.unwinds h
    exact ⟨u, hr, hu.frames, hu.unwinding, hu.agree⟩

def chained : List (NetStep ℕ) :=
  [.signal 1 (· == ·), .memo (fun _ => .get 1 fun v => .ret (v + 1)) sameValue,
    .memo (fun _ => .get 2 fun v => .ret (v * 2)) sameValue]

theorem chained_memos_are_played : ∃ (s u : NetHost ℕ) (t : Net ℕ),
    Pull.exec .insertion (Pull.refreshing .insertion 4) (.set 1 5 (.get 3 .ret)) s.net = .ok 12 t ∧
      Reaches (NetHost.step .insertion) (Admits True) s u ∧ u.frames = [] ∧ u.net.Agree t := by
  obtain ⟨s, hs, hf, hc, hread, t, ht⟩ : ∃ s : NetHost ℕ, s.Wired ∧ s.frames = [] ∧
      s.calling = true ∧ (∀ n x previous, s.net.computed n = some x →
        (x.compute previous).ReadOnly) ∧
      ∃ t, Pull.exec .insertion (Pull.refreshing .insertion 4) (.set 1 5 (.get 3 .ret)) s.net =
        .ok 12 t := by
    have hreach : ReachedPure .insertion (Runs.after (NetHost.step .insertion) {} chained) :=
      Runs.Reaches.after (fun s op => !NetHost.disturbs s op) chained .init (by decide +kernel)
        (by decide +kernel)
    refine ⟨_, hreach.undisturbed.wired, rfl, rfl, fun n x previous hx => ?_,
      Res.returned_eq_some.mp (by decide +kernel)⟩
    by_cases h3 : n = 3
    · subst h3
      cases hx
      exact ⟨rfl, fun _ => True.intro, fun _ => True.intro⟩
    · by_cases h2 : n = 2
      · subst h2
        cases hx
        exact ⟨rfl, fun _ => True.intro, fun _ => True.intro⟩
      · have hnone : (Runs.after (NetHost.step .insertion) {} chained).net.computed n = none :=
          (Function.update_of_ne h3 _ _).trans (Function.update_of_ne h2 _ _)
        cases hnone.symm.trans hx
  obtain ⟨u, hr, hframes, -, hagree⟩ := (evaluations_are_runs True _ 4 s hs hc fun _ =>
    ⟨hread, fun hany => by rw [hf] at hany; cases hany⟩).1 12 t ht
  exact ⟨s, u, t, ht, hr, hframes.trans hf, hagree⟩

end NetHost

open NetHost

section Interpreter

variable {V : Type} {layout : Layout} {net t : Net V} {s : NetHost V} {n : NodeId}

theorem Net.Reached.readOnly {admits : NetOp V → Prop} (h : Net.Reached layout admits net)
    (ha : ∀ op, admits op → op.ReadOnly) :
    ∀ n x previous, net.computed n = some x → (x.compute previous).ReadOnly := by
  have hidle : Net.Reached layout NetOp.ReadOnly net := by
    induction h with
    | init => exact .init
    | returned before op ok depth a hs ih => exact .returned ih op (ha op ok) depth a hs
    | unwound before op ok depth e hs ih => exact .unwound ih op (ha op ok) depth e hs
  exact fun n x previous hx => hidle.idle.sound.readOnly n x hx previous

/-- A borrow is given back in the step that takes it. -/
def NetOp.Brief {V : Type} : NetOp V → Prop
  | .hold _ _ | .release _ => False
  | _ => True

/-- What the host has and the interpreter has, between two operations of the interpreter. -/
structure Matched (layout : Layout) (net : Net V) (s : NetHost V) : Prop where
  reached : s.ReachedPure layout
  stands : Stands net.codes [] false net s

theorem plays_pure {frames : List NetFrame} {P : Prop}
    {codes : NodeId → Option ((Option V → Script V) × Option (Equals V))} (v : V) :
    Plays layout P codes frames (Pure.pure v : Pull V V) := fun _ _ hs => .pure hs

/-- What the host does for an operation of the interpreter that makes no node. -/
theorem comes_step {op : NetOp V} {depth : ℕ} (hb : op.Brief)
    (hmake : ∀ v same, op ≠ .signal v same) (hthunk : ∀ p, op ≠ .thunk p)
    (hmemo : ∀ k equals, op ≠ .memo k equals)
    (hread : ∀ n previous x, net.computed n = some x → (x.compute previous).ReadOnly)
    (h : Stands net.codes [] false net s) :
    Comes layout True net.codes [] s (Pull.step layout depth op) net := by
  have hcode : InCode [] := fun f hf => by cases hf
  have hnext : Refreshes layout True net.codes (Pull.refreshing layout depth) := by
    refine refreshes_refreshing (fun _ n c hn previous => ?_) depth
    obtain ⟨x, hx, rfl⟩ := Option.map_eq_some_iff.mp hn
    exact hread n previous x hx
  have hplay : ∀ tracked n (frames : List NetFrame), InCode frames →
      Plays layout True net.codes frames
        (Pull.read layout (Pull.refreshing layout depth) tracked n Pure.pure) :=
    fun tracked n frames hf => plays_read hf hnext fun v => plays_pure v
  have hafter : ∀ {α : Type} {x : Pull V α} (a : α → Option V),
      Plays layout True net.codes [] x →
      Comes layout True net.codes [] s (x >>= fun v => Pure.pure (a v)) net := fun a hx =>
    .bind ((hx net s h).mono (fun _ _ _ hu => .pure hu) fun _ _ _ => id)
  cases op with
  | signal v same => exact absurd rfl (hmake v same)
  | thunk p => exact absurd rfl (hthunk p)
  | memo k equals => exact absurd rfl (hmemo k equals)
  | hold mode n => exact hb.elim
  | release n => exact hb.elim
  | read mode n =>
    refine hafter some ?_
    cases mode with
    | tracked => exact hplay true n [] hcode
    | untracked => exact (hplay true n [.untracking] (by rintro f ⟨⟩; rfl)).untrack hcode
    | peek => exact hplay false n [] hcode
  | set n v => exact hafter (fun _ => none) (plays_set v hcode fun _ => rfl)
  | replace n v => exact hafter (fun _ => none) (plays_overwrite (fun _ => v) hcode fun _ => rfl)
  | update n f => exact hafter (fun _ => none) (plays_overwrite f hcode fun _ => rfl)

theorem Matched.go {u : NetHost V} (h : Matched layout net s)
    (hr : Reaches (NetHost.step layout) (Admits True) s u) (hu : Stands t.codes [] false t u) :
    Matched layout t u := by
  refine ⟨h.reached.trans (hr.weaken fun s op ok => ?_), hu⟩
  rw [ok True.intro]
  rfl

theorem Matched.make {u : NetHost V} (h : Matched layout net s) {op : NetStep V}
    (ht : s.step layout op = some u) (hop : op.isWrite = false) (hf : u.frames = s.frames)
    (hu : u.unwinding = s.unwinding) (ha : u.net.Agree t) : ∃ u, Matched layout t u := by
  refine ⟨u, h.go (.single (fun _ => ?_) ht) ⟨?_, ?_, ha, rfl, h.stands.wired.step op ht⟩⟩
  · unfold NetHost.disturbs
    rw [hop, Bool.false_and]
  · exact hf.trans h.stands.frames
  · exact hu.trans h.stands.unwinding

/-- What the interpreter does next, the host can do, and catch the panic. -/
theorem Matched.step (h : Matched layout net s) {op : NetOp V} {depth : ℕ} (hb : op.Brief)
    (hread : ∀ n x previous, net.computed n = some x → (x.compute previous).ReadOnly) :
    (∀ a t, Pull.step layout depth op net = .ok a t → ∃ u, Matched layout t u) ∧
      ∀ e t, Pull.step layout depth op net = .panic e t → ∃ u, Matched layout t u := by
  have hcalling : s.calling = true := h.stands.calling fun f hf => by cases hf
  have hplayed : Comes layout True net.codes [] s (Pull.step layout depth op) net →
      (∀ a t, Pull.step layout depth op net = .ok a t → ∃ u, Matched layout t u) ∧
        ∀ e t, Pull.step layout depth op net = .panic e t → ∃ u, Matched layout t u := by
    refine fun hplay => ⟨fun a t ht => ?_, fun e t ht => ?_⟩
    · obtain ⟨u, hr, hu⟩ := hplay.returns ht
      exact ⟨u, h.go hr ⟨hu.frames, hu.unwinding, hu.agree, rfl, hu.wired⟩⟩
    · obtain ⟨u, hr, hu⟩ := hplay.unwinds ht
      have hcatch : u.step layout .catchUnwind = some { u with unwinding := false } := by
        unfold NetHost.step NetHost.inCode
        rw [hu.unwinding, hu.frames]
        rfl
      exact ⟨_, h.go (hr.trans (.single (fun _ => rfl) hcatch))
        ⟨hu.frames, rfl, hu.agree, rfl, hu.wired.step _ hcatch⟩⟩
  cases op with
  | signal v same =>
    refine ⟨fun a t ht => ?_, fun e t ht => by cases ht⟩
    cases ht
    have hstep : s.step layout (.signal v same) = some { s with net := s.net.newSignal v same } :=
      if_pos hcalling
    exact h.make hstep rfl rfl rfl
      (h.stands.agree.map (f := fun net => net.newSignal v same) fun _ => rfl)
  | thunk p =>
    refine ⟨fun a t ht => ?_, fun e t ht => by cases ht⟩
    cases ht
    have hstep : s.step layout (.thunk p) =
        some { s with net := s.net.newComputed (fun _ => p) none } := if_pos hcalling
    exact h.make hstep rfl rfl rfl
      (h.stands.agree.map (f := fun net => net.newComputed (fun _ => p) none) fun _ => rfl)
  | memo k equals =>
    refine ⟨fun a t ht => ?_, fun e t ht => by cases ht⟩
    cases ht
    have hstep : s.step layout (.memo k equals) =
        some { s with net := s.net.newComputed k (some equals) } := if_pos hcalling
    exact h.make hstep rfl rfl rfl
      (h.stands.agree.map (f := fun net => net.newComputed k (some equals)) fun _ => rfl)
  | _ =>
    exact hplayed (comes_step hb (by simp) (by simp) (by simp)
      (fun n previous x hx => hread n x previous hx) h.stands)

end Interpreter

end Adaptite

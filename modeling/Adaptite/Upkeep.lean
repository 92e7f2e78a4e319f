import Adaptite.Slackening
import Adaptite.Suppression
import Adaptite.SingleRuns

set_option autoImplicit false

namespace Adaptite

open NetFrame

namespace NetHost

variable {V : Type} {layout : Layout} {s t : NetHost V} {n e : NodeId} {rest : List NetFrame}
  {op : NetStep V} {r : NodeId × ℕ}

section Clean

def Spares (s t : NetHost V) : Prop :=
  ∀ d, s.net.isClean d = true → d ∉ s.net.stack → t.net.isClean d = true

theorem spares_of_eq (h : t.net.computed = s.net.computed) : Spares s t := fun d hd _ => by
  rwa [isClean_congr h]

theorem clean_setState {net : Net V} {d : NodeId} (h : net.isClean d = true) :
    (net.setState n .clean).isClean d = true := by
  by_cases hd : d = n
  · subst hd
    obtain ⟨x, hx, -⟩ := Net.isClean_iff.mp h
    refine Net.isClean_iff.mpr ⟨{ x with state := .clean }, ?_, rfl⟩
    rw [Net.computed_setState, if_pos rfl, hx]
    rfl
  · rwa [isClean_setState hd]

theorem spares_recompute (hw : s.Wired) (frames : List NetFrame) (n : NodeId) :
    Spares s (NetHost.recompute { s with frames } n) := by
  unfold NetHost.recompute
  dsimp only
  cases hx : s.net.computed n with
  | none => exact spares_of_eq rfl
  | some x =>
    dsimp only
    split
    · rename_i hin
      intro d hd hn
      have hne : d ≠ n := fun h => hn (h ▸ hw.net.running ▸ hin)
      exact (isClean_setState hne).trans hd
    · have ho := Net.alike_occupy (s.net.setState n .clean) n x
      intro d hd _
      have hc : (s.net.beginCompute n x).computed = (s.net.setState n .clean).computed :=
        ho.computed
      exact (isClean_congr hc d).trans (clean_setState hd)

theorem spares_refresh (hw : s.Wired) (frames : List NetFrame) (n : NodeId) :
    Spares s (NetHost.refresh { s with frames } n) := by
  unfold NetHost.refresh
  dsimp only
  split
  · exact spares_of_eq rfl
  · split
    · exact spares_of_eq rfl
    · exact spares_of_eq rfl
    · exact spares_recompute hw frames n

theorem spares_conclude {untracked : ℕ} (x : NetComputed V) (v : V) :
    Spares s (s.conclude rest n x untracked v) := by
  have ha := Net.alike_vacate (s.net.leave untracked) n x
  have hc : (s.net.endCompute n x untracked).computed = s.net.computed :=
    ha.computed.trans (Net.leave_eq s.net untracked).1
  unfold NetHost.conclude
  dsimp only
  split
  · exact spares_of_eq hc
  · split
    · exact spares_of_eq hc
    · rename_i changed _ _
      intro d hd _
      have hstore : ((s.net.endCompute n x untracked).accept n v changed).computed =
          ((s.net.endCompute n x untracked).store n v).computed := by
        unfold Net.accept
        split <;> rfl
      obtain ⟨y, hy, hyc⟩ := Net.isClean_iff.mp hd
      change ((s.net.endCompute n x untracked).accept n v changed).isClean d = true
      rw [isClean_congr hstore]
      unfold Net.isClean Net.store Net.modifyComputed
      dsimp only
      rw [hc]
      by_cases hdn : d = n
      · rw [hdn, Function.update_self, ← hdn, hy, Option.map_some, Option.any_some, hyc]
        rfl
      · rw [Function.update_of_ne hdn, hy, Option.any_some, hyc]
        rfl

theorem spares_finish {v : V} (ht : s.finish v = some t) : Spares s t := by
  unfold NetHost.finish at ht
  split at ht
  · obtain ⟨x, -, rfl⟩ := Option.map_eq_some_iff.mp ht
    exact spares_conclude x v
  · cases ht
    unfold NetHost.enterBody
    dsimp only
    split <;> exact spares_of_eq rfl
  · rename_i n untracked rest _
    cases ht
    refine spares_of_eq ?_
    unfold NetHost.settle
    dsimp only
    split
    · exact (Net.alike_scheduleEffect _ n).computed.trans (Net.leave_eq s.net untracked).1
    · exact (Net.leave_eq s.net untracked).1
  · cases ht
    exact spares_of_eq rfl
  · cases ht
    exact spares_of_eq rfl
  · cases ht

theorem computed_attempt (s : NetHost V) (n : NodeId) :
    (s.attempt n).net.computed = s.net.computed := by
  unfold NetHost.attempt
  dsimp only
  split <;> rfl

theorem computed_lend (s : NetHost V) (n : NodeId) (tracked : Bool) :
    (s.lend layout n tracked).net.computed = s.net.computed := by
  have hrec : (if tracked = true then s.net.recordEdge layout n else s.net).computed =
      s.net.computed := by
    split
    · exact (Net.recordEdge_same s.net layout n).1
    · rfl
  unfold NetHost.lend
  split
  · rfl
  · dsimp only
    split
    · exact hrec
    · exact hrec

theorem spares_next (hw : s.Wired) (ht : s.next layout = some t) : Spares s t := by
  unfold NetHost.next at ht
  split at ht
  · split at ht
    · cases ht
      exact spares_of_eq rfl
    · rename_i i jobs _
      cases ht
      refine spares_of_eq ?_
      unfold NetHost.runScheduled
      split
      · rfl
      · dsimp only
        split
        · rfl
        · split
          · exact computed_attempt _ _
          · rfl
          · rfl
  · cases ht
    exact fun d hd _ => clean_setState hd
  · split at ht
    · cases ht
      exact spares_of_eq rfl
    · cases ht
      exact spares_refresh hw _ _
  · rename_i n d version entries rest _
    split at ht
    · cases ht
      unfold NetHost.changed
      split
      · exact spares_recompute hw rest n
      · exact spares_of_eq (computed_attempt _ _)
    · cases ht
      exact spares_of_eq rfl
  · rename_i n tracked rest _
    cases ht
    exact spares_of_eq (computed_lend { s with frames := rest } n tracked)
  · cases ht

theorem spares_unwind (hw : s.Wired) (ht : s.unwind = some t) : Spares s t := by
  have hrecover : ∀ rest n, Spares s (s.recover rest n) := fun rest n =>
    spares_of_eq (Net.alike_scheduleEffect _ n).computed
  unfold NetHost.unwind at ht
  split at ht
  · cases ht
  · rename_i n untracked rest hf
    obtain ⟨x, -, rfl⟩ := Option.map_eq_some_iff.mp ht
    have ha := Net.alike_vacate (s.net.leave untracked) n x
    have hc : (s.net.endCompute n x untracked).computed = s.net.computed :=
      ha.computed.trans (Net.leave_eq s.net untracked).1
    intro d hd hn
    have hne : d ≠ n := by
      rintro rfl
      refine hn ?_
      rw [hw.head hf rfl]
      exact List.mem_cons_self
    exact (isClean_setState hne).trans ((isClean_congr hc d).trans hd)
  · cases ht
    exact spares_of_eq (Net.leave_eq s.net _).1
  · cases ht
    exact hrecover _ _
  · cases ht
    exact hrecover _ _
  all_goals
    cases ht
    exact spares_of_eq rfl

theorem spares_newComputed (hw : s.Wired) (compute : Option V → Script V)
    (equals : Option (Equals V)) : Spares s { s with net := s.net.newComputed compute equals } := by
  intro d hd _
  obtain ⟨x, hx, hc⟩ := Net.isClean_iff.mp hd
  refine Net.isClean_iff.mpr ⟨x, ?_, hc⟩
  exact (Function.update_of_ne (Nat.ne_of_lt (hw.net.known d x hx)) _ _).trans hx

/-- Only a write makes stale what is clean and not running. -/
theorem spares_step (hw : s.Wired) (ht : s.step layout op = some t) :
    Spares s t ∨ op.isWrite = true ∧ ∃ m v, t = s.write m v := by
  have hover : op.isWrite = true → ∀ m k, t = s.overwrite m k →
      Spares s t ∨ op.isWrite = true ∧ ∃ m v, t = s.write m v := by
    intro hop m k hk
    unfold NetHost.overwrite at hk
    split at hk
    · exact .inl (spares_of_eq (by rw [hk]; rfl))
    · split at hk
      · exact .inl (spares_of_eq (by rw [hk]; rfl))
      · exact .inr ⟨hop, m, _, hk⟩
  cases op <;> simp only [NetHost.step] at ht <;> split at ht <;> try cases ht
  case signal => exact .inl (spares_of_eq rfl)
  case thunk => exact .inl (spares_newComputed hw _ _)
  case memo => exact .inl (spares_newComputed hw _ _)
  case effect body _ =>
    exact .inl (spares_of_eq (Net.alike_scheduleEffect _ s.net.nextNode).computed)
  case read m tracked _ =>
    left
    unfold NetHost.read
    split
    · exact spares_of_eq rfl
    · split
      · exact spares_of_eq rfl
      · exact spares_refresh hw (.reading m tracked :: s.frames) m
    · exact spares_of_eq rfl
  case set m v _ =>
    by_cases hset : s.set m v = s.overwrite m fun _ => v
    · exact hover rfl m _ hset
    · left
      unfold NetHost.set at hset ⊢
      split
      · exact spares_of_eq rfl
      · rename_i x hx
        rw [hx] at hset
        dsimp only at hset
        split
        · exact spares_of_eq rfl
        · rename_i hsame
          exact absurd (if_neg hsame) hset
  case update m k _ => exact hover rfl m k rfl
  case untrack => exact .inl (spares_of_eq rfl)
  case flushNow =>
    left
    unfold NetHost.flushNow
    split <;> exact spares_of_eq rfl
  case finish => exact .inl (spares_finish ht)
  case next => exact .inl (spares_next hw ht)
  case panic => exact .inl (spares_of_eq rfl)
  case catchUnwind => exact .inl (spares_of_eq rfl)
  case unwind => exact .inl (spares_unwind hw ht)

end Clean

section Upkeep

theorem Shift.uncomputed (h : Shift layout s op t) {d : NodeId} (below : d < s.net.nextNode)
    (hd : s.net.computed d = none) : t.net.computed d = none := by
  have hsame : t.ledger.cells d = s.ledger.cells d → t.net.computed d = none := fun hc => by
    have hnone : s.ledger.cells d = none := by
      change (s.net.computed d).map NetComputed.unmarked = none
      rw [hd]
      rfl
    exact Option.map_eq_none_iff.mp (hc.trans hnone)
  cases h with
  | steady hl => exact hsame (by rw [hl])
  | signal v same hl => exact hsame (by rw [hl])
  | computed compute equals hop hnet hl =>
    rw [hnet]
    exact (Function.update_of_ne (Nat.ne_of_lt below) _ _).trans hd
  | effect body hnet hl => exact hsame (by rw [hl])
  | entered m why hu hl => exact hsame (by rw [hl])
  | lent m o rest stack hs hz ho hu hl => exact hsame (by rw [hl])
  | stored m v changed untracked rest x hs hop hx hdiff hb hl =>
    refine hsame ?_
    rw [hl]
    refine Function.update_of_ne ?_ _ _
    rintro rfl
    rw [hx] at hd
    cases hd
  | wrote m v y hy hop hu hwrite hl => exact hsame (by rw [hl])

/-- Only the end of a recomputation and a write change a version. -/
theorem version_settled (hw : s.Wired) (ht : s.step layout op = some t) {d : NodeId}
    (hd : s.net.Settled d) (hn : ¬ ∃ m v, op.isWrite = true ∧ t = s.write m v) :
    t.net.version d = s.net.version d := by
  cases shift_step hw ht with
  | steady hl => exact congrArg (Ledger.version · d) hl
  | signal v same hl => exact congrArg (Ledger.version · d) hl
  | computed compute equals hop hnet hl => exact congrArg (Ledger.version · d) hl
  | effect body hnet hl => exact congrArg (Ledger.version · d) hl
  | entered m why hu hl => exact congrArg (Ledger.version · d) hl
  | lent m o rest stack hs hz ho hu hl => exact congrArg (Ledger.version · d) hl
  | stored m v changed untracked rest x hs hop hx hdiff hb hl =>
    refine (congrArg (Ledger.version · d) hl).trans ?_
    have hne : d ≠ m := by
      rintro rfl
      refine (hd x hx).2 ?_
      rw [hw.head hs rfl]
      exact List.mem_cons_self
    cases changed with
    | false => rfl
    | true => exact Function.update_of_ne hne _ _
  | wrote m v y hy hop hu hwrite hl => exact absurd ⟨m, v, hop, hwrite⟩ hn

/-- What is settled is not entered. -/
theorem idle_step (h : s.Undisturbed) (ht : s.step layout op = some t) {d : NodeId}
    {x : NetComputed V} (hx : s.net.computed d = some x) (hc : x.state = .clean)
    (hn : d ∉ s.net.stack) : d ∉ t.net.stack := by
  intro hin
  rcases (slackens_step h.wired ht).grown d hin with hin | hst
  · exact hn hin
  · rcases (shift_step h.wired ht).keeping d with hent | hk
    · rcases hent.why with ⟨y, hy, hdirty⟩ | ⟨d', version, entries, rest, hs, hv, hsome⟩ |
        ⟨v, rest, hop, hs⟩
      · cases hx.symm.trans hy
        rw [hc] at hdirty
        cases hdirty
      · have hmem : NetFrame.awaiting d d' version entries ∈ s.frames := by
          rw [hs]
          exact List.mem_cons_self
        have hcheck := h.nested.check _ hmem d (decide_eq_true rfl) x hx
        rw [hc] at hcheck
        cases hcheck
      · have hmem : NetFrame.resetting d ∈ s.frames := by
          rw [hs]
          exact List.mem_cons_self
        have hfits := (h.wired.fits _ hmem).2
        rw [hx] at hfits
        cases hfits
    · have hcount := hk.started
      rw [hst, List.count_cons_self] at hcount
      omega

/-- What is up to date stays so until something is written. -/
theorem current_step (h : s.Undisturbed) (ht : s.step layout op = some t)
    (below : r.1 < s.net.nextNode) (hr : s.net.Current r)
    (hn : ¬ ∃ m v, op.isWrite = true ∧ t = s.write m v) : t.net.Current r := by
  refine ⟨(version_settled h.wired ht hr.2 hn).trans hr.1, fun y hy => ?_⟩
  cases hx : s.net.computed r.1 with
  | none =>
    rw [(shift_step h.wired ht).uncomputed below hx] at hy
    cases hy
  | some x =>
    obtain ⟨hc, hidle⟩ := hr.2 x hx
    rcases spares_step h.wired ht with hspares | ⟨hop, m, v, hwrite⟩
    · have hclean := hspares r.1 (Net.isClean_iff.mpr ⟨x, hx, hc⟩) hidle
      obtain ⟨z, hz, hzc⟩ := Net.isClean_iff.mp hclean
      cases hy.symm.trans hz
      exact ⟨hzc, idle_step h ht hx hc hidle⟩
    · exact absurd ⟨m, v, hop, hwrite⟩ hn

/-- A write that puts an entry out of date has alerted the effect that recorded it. -/
theorem current_write (hw : s.Wired) {m : NodeId} {v : V} (he : r ∈ s.net.dependencies e)
    (hr : s.net.Current r) :
    (s.write m v).net.Current r ∨
      ∀ y, (s.write m v).net.effects e = some y → y.scheduled = true := by
  have hset : (s.net.setValue m v).Wired := hw.net.alike (Net.alike_setValue s.net m v)
  obtain ⟨halert, hdirect⟩ := Net.alerts_trigger hset m
  have hmarked := halert.toMarked
  have hmem : e ∈ s.net.dependents r.1 := (hw.net.inverse e r.1).mp ⟨r.2, he⟩
  by_cases hm : r.1 = m
  · exact .inr (hdirect e (hm ▸ hmem))
  · have hversion : (s.write m v).net.version r.1 = r.2 := by
      change ((s.net.setValue m v).trigger m).version r.1 = r.2
      rw [hmarked.frame]
      exact (Function.update_of_ne hm _ _).trans hr.1
    have hstack : (s.write m v).net.stack = s.net.stack := by
      change ((s.net.setValue m v).trigger m).stack = _
      rw [hmarked.frame]
      rfl
    cases hx : s.net.computed r.1 with
    | none =>
      left
      refine ⟨hversion, fun y hy => ?_⟩
      have hnone : (s.write m v).net.computed r.1 = none := rel_none (hx ▸ hmarked.computed r.1)
      rw [hnone] at hy
      cases hy
    | some x =>
      obtain ⟨hc, hidle⟩ := hr.2 x hx
      cases ht : (s.write m v).net.isClean r.1 with
      | true =>
        left
        obtain ⟨z, hz, hzc⟩ := Net.isClean_iff.mp ht
        refine ⟨hversion, fun y hy => ?_⟩
        cases hz.symm.trans hy
        refine ⟨hzc, ?_⟩
        rw [hstack]
        exact hidle
      | false =>
        refine .inr (halert.alerted r.1 (Net.isClean_iff.mpr ⟨x, hx, hc⟩) ht e ?_)
        rw [hmarked.frame]
        exact hmem

theorem dependencies_write (s : NetHost V) (m : NodeId) (v : V) :
    (s.write m v).net.dependencies = s.net.dependencies :=
  Net.markDependents_keeps (P := fun net => net.dependencies = s.net.dependencies)
    (fun _ _ _ => id)
    (fun net e mark h => by rw [(Net.Marked.markEffect net e mark).frame]; exact h) _ _ _ m rfl

theorem recorded_step (h : s.Undisturbed) (ht : s.step layout op = some t)
    (hr : r ∈ t.net.dependencies e) : r ∈ s.net.dependencies e ∨ t.net.Current r := by
  by_cases hwrite : ∃ m v, op.isWrite = true ∧ t = s.write m v
  · obtain ⟨m, v, -, rfl⟩ := hwrite
    rw [dependencies_write] at hr
    exact .inl hr
  · cases shift_step h.wired ht with
    | steady hl => exact .inl ((congrArg (fun l => r ∈ Ledger.dependencies l e) hl).mp hr)
    | signal v same hl => exact .inl ((congrArg (fun l => r ∈ Ledger.dependencies l e) hl).mp hr)
    | computed compute equals hop hnet hl =>
      exact .inl ((congrArg (fun l => r ∈ Ledger.dependencies l e) hl).mp hr)
    | effect body hnet hl =>
      exact .inl ((congrArg (fun l => r ∈ Ledger.dependencies l e) hl).mp hr)
    | entered m why hu hl =>
      have hd : t.net.dependencies e = Function.update s.net.dependencies m [] e :=
        congrArg (Ledger.dependencies · e) hl
      rw [hd] at hr
      by_cases hm : e = m
      · rw [hm, Function.update_self] at hr
        cases hr
      · rw [Function.update_of_ne hm] at hr
        exact .inl hr
    | lent m o rest stack hs hz ho hu hl =>
      have hd : t.net.dependencies e = (s.net.recordEdge layout m).dependencies e :=
        congrArg (Ledger.dependencies · e) hl
      rw [hd] at hr
      refine (Net.mem_recordEdge hr).imp_right fun hm => ?_
      have hmem : NetFrame.reading m true ∈ s.frames := by
        rw [hs]
        exact List.mem_cons_self
      have hset := h.returned hu _ (by rw [hs]; rfl) m rfl
      rw [hm.2.2]
      exact current_step h ht (h.wired.fits _ hmem) ⟨rfl, hset⟩ hwrite
    | stored m v changed untracked rest x hs hop hx hdiff hb hl =>
      exact .inl ((congrArg (fun l => r ∈ Ledger.dependencies l e) hl).mp hr)
    | wrote m v y hy hop hu hw hl => exact absurd ⟨m, v, hop, hw⟩ hwrite

/-- Whatever an effect has recorded stays up to date, or a write latches the effect. -/
theorem tuned_step (h : s.Undisturbed) (ht : s.step layout op = some t)
    (hall : ∀ r ∈ s.net.dependencies e, s.net.Current r) :
    (∀ r ∈ t.net.dependencies e, t.net.Current r) ∨
      ∀ y, t.net.effects e = some y → y.scheduled = true := by
  by_cases hwrite : ∃ m v, op.isWrite = true ∧ t = s.write m v
  · obtain ⟨m, v, -, rfl⟩ := hwrite
    by_cases hall' : ∀ r ∈ (s.write m v).net.dependencies e, (s.write m v).net.Current r
    · exact .inl hall'
    · push Not at hall'
      obtain ⟨r, hr, hstale⟩ := hall'
      rw [dependencies_write] at hr
      exact .inr ((current_write h.wired hr (hall r hr)).resolve_left hstale)
  · refine .inl fun r hr => ?_
    rcases recorded_step h ht hr with hold | hnew
    · exact current_step h ht (h.wired.net.below e r hold).2 (hall r hold) hwrite
    · exact hnew

end Upkeep

end NetHost

end Adaptite

import Adaptite.Takings
import Adaptite.Upkeep

set_option autoImplicit false

namespace Adaptite

open NetFrame

namespace Standing

variable {a : Standing} {r : NetHost.Role} {roles : List NetHost.Role}

/-- A run is queued, deferred, or under way before its body. -/
def pending (a : Standing) : Prop :=
  a.latched = true ∨ a.deferred = true ∨ .verifying ∈ a.roles ∨ .resetting ∈ a.roles

/-- How an effect stands while nothing cuts its runs short. -/
structure Sound (a : Standing) : Prop where
  single : a.roles.length ≤ 1
  marked : a.latched = true ∨ a.deferred = true → a.state ≠ .clean
  stale : a.state ≠ .clean → a.latched = true ∨ a.deferred = true
  window : a.deferred = true → a.windowed
  enlisted : a.latched = true → a.queued = true

theorem Sound.alone (h : a.Sound) (hr : a.roles = r :: roles) : roles = [] := by
  have hlen := h.single
  rw [hr, List.length_cons] at hlen
  exact List.length_eq_zero_iff.mp (by omega)

theorem Sound.eq_of_mem (h : a.Sound) {r' : NetHost.Role} (hr : a.roles = r :: roles)
    (hm : r' ∈ a.roles) : r' = r := by
  rw [hr, h.alone hr] at hm
  exact List.mem_singleton.mp hm

theorem Sound.undeferred (h : a.Sound) (hr : a.roles = .verifying :: roles) :
    a.deferred = false := by
  rw [← Bool.not_eq_true]
  intro hd
  have hw := h.window hd
  unfold windowed at hw
  rw [hr, h.alone hr] at hw
  simp at hw

theorem Sound.claim (h : a.Sound) {state : State} {deferred : Bool} (stale : state ≠ .clean)
    (hlen : roles.length ≤ 1)
    (hw : deferred = true → .resetting ∈ roles ∨ .running ∈ roles) :
    Sound { a.claim with state, deferred, roles } where
  single := hlen
  marked _ := stale
  stale _ := .inl rfl
  window := hw
  enlisted _ := by
    change (a.queued || !a.latched) = true
    cases hl : a.latched with
    | true => rw [h.enlisted hl]; rfl
    | false => simp

end Standing

namespace NetHost

variable {V : Type} {layout : Layout} {s t : NetHost V} {n e : NodeId} {rest : List NetFrame}
  {op : NetStep V} {r : NodeId × ℕ}

section Minding

/-- The step cuts a run short: the teardown panics, the divergence guard stops the run, or the
body panics while another run is deferred. -/
def cutsShort (layout : Layout) (e : NodeId) (s : NetHost V) (op : NetStep V) : Bool :=
  match op, s.frames with
  | .unwind, .resetting i :: _ => i = e
  | .unwind, .running i _ :: _ => i = e && s.rerunAfterCurrent e
  | .next, .flushing :: _ =>
    s.net.pendingJobs.head? = some e && (s.next layout).any fun t => t.unwinding
  | .next, .awaiting i _ _ _ :: _ => i = e && (s.next layout).any fun t => t.unwinding
  | _, _ => false

/-- A run of the effect is pending, or all that it has recorded is up to date. -/
structure Minded (s : NetHost V) (e : NodeId) : Prop where
  absent : s.standing e = none → s.net.computed e = none → s.rerunAfterCurrent e = false
  sound : ∀ a, s.standing e = some a → a.Sound
  tuned : ∀ a, s.standing e = some a → a.pending ∨ ∀ r ∈ s.net.dependencies e, s.net.Current r

theorem verifies_of_role {f : NetFrame} (h : role e f = some .verifying) : f.verifies e = true := by
  have hif : ∀ {m : NodeId} {r : Role}, (if m = e then some r else none) = some .verifying →
      m = e ∧ r = .verifying := fun h => by
    split at h
    · rename_i hm
      exact ⟨hm, Option.some.inj h⟩
    · cases h
  cases f with
  | verifying m entries => exact decide_eq_true (hif h).1
  | awaiting m d version entries => exact decide_eq_true (hif h).1
  | resetting m => cases (hif h).2
  | running m untracked => cases (hif h).2
  | _ => cases h

theorem Undisturbed.unlatched (h : s.Undisturbed) {a : Standing} (ha : s.standing e = some a)
    (hv : .verifying ∈ a.roles) : a.latched = false := by
  obtain ⟨x, hx, rfl⟩ := effect_of_standing ha
  obtain ⟨f, hf, hrole⟩ := List.mem_filterMap.mp hv
  exact (h.nested.still f hf e (verifies_of_role hrole) (standing_computed h.wired ha)).1 x hx

theorem cutsShort_refused {a : Standing} {queued : Bool} (ht : s.step layout op = some t)
    (hq : s.Taken op e a queued) (panics : t.unwinding = true) :
    cutsShort layout e s op = true := by
  obtain ⟨rest, hf⟩ := hq.flush
  obtain ⟨jobs, hj, -⟩ := hq.first
  obtain rfl := hq.next
  have hnext : s.next layout = some t := by
    simp only [NetHost.step] at ht
    split at ht
    · cases ht
    · exact ht
  unfold cutsShort
  rw [hf]
  simp only [hj, hnext, List.head?_cons, Option.any_some, panics, decide_true, Bool.and_true]

theorem cutsShort_stopped {d version : ℕ} {entries : EdgeTable}
    (ht : s.step layout .next = some t) (hf : s.frames = .awaiting e d version entries :: rest)
    (panics : t.unwinding = true) : cutsShort layout e s .next = true := by
  have hnext : s.next layout = some t := by
    simp only [NetHost.step] at ht
    split at ht
    · cases ht
    · exact ht
  unfold cutsShort
  rw [hf]
  simp only [hnext, Option.any_some, panics, decide_true, Bool.and_true]

/-- A body that has been left by a panic had nothing deferred. -/
theorem aborted_running {a : Standing} {f : NetFrame} {role : Role} {roles : List Role}
    (hcut : cutsShort layout e s .unwind = false) (hf : s.frames = f :: rest)
    (hw : f.isWindow e = true) (hs : s.standing e = some a) (hr : a.roles = role :: roles) :
    role = .running ∧ a.deferred = false := by
  obtain ⟨x, hx, rfl⟩ := effect_of_standing hs
  unfold cutsShort at hcut
  rw [hf] at hcut
  have hroles : s.roles e = role :: roles := hr
  unfold NetHost.roles at hroles
  rw [hf] at hroles
  cases f with
  | resetting i =>
    have hi : i = e := of_decide_eq_true hw
    simp only [hi, decide_true] at hcut
    cases hcut
  | running i u =>
    have hi : i = e := of_decide_eq_true hw
    subst hi
    rw [List.filterMap_cons_some role_running] at hroles
    cases hroles
    simpa using hcut
  | _ => cases hw

theorem sound_turn {a b : Standing} (h : a.Sound) (hu : s.Undisturbed)
    (hcut : cutsShort layout e s op = false) (ht : s.step layout op = some t)
    (turn : Turn s op t e) (ha : s.standing e = some a) (hb : t.standing e = some b) :
    b.Sound := by
  have hkey : ∀ {a' : Standing}, s.standing e = some a' → a' = a := fun h =>
    Option.some.inj (h.symm.trans ha)
  cases turn with
  | aside h' hd =>
    cases (hb.symm.trans h').trans ha
    exact h
  | created fresh hs h' => cases hs.symm.trans ha
  | marked a' state hop hs stale raised h' =>
    cases hkey hs
    cases hb.symm.trans h'
    exact h.claim stale h.single h.window
  | taken a' queued hq how =>
    cases hkey hq.stood
    have hlatched := latched_of_taken hu.lane (takes_of_taken hq) ha
    have hnot : .verifying ∉ a.roles := fun hv => by
      rw [hu.unlatched ha hv] at hlatched
      cases hlatched
    have hfree : ¬ a.windowed → a.roles = [] ∧ a.deferred = false := fun hw => by
      refine ⟨List.eq_nil_iff_forall_not_mem.mpr fun r hr => ?_, ?_⟩
      · cases r with
        | verifying => exact hnot hr
        | resetting => exact hw (.inl hr)
        | running => exact hw (.inr hr)
      · rw [← Bool.not_eq_true]
        exact fun hd => hw (h.window hd)
    cases how with
    | deferred open' h' =>
      cases hb.symm.trans h'
      exact ⟨h.single, fun _ => h.marked (.inl hlatched), fun _ => .inr rfl, fun _ => open',
        fun hl => by cases hl⟩
    | dropped free clean h' => exact absurd clean (h.marked (.inl hlatched))
    | verifying free check h' =>
      obtain ⟨hroles, hd⟩ := hfree free
      cases hb.symm.trans h'
      refine ⟨?_, fun hm => ?_, fun hs => absurd rfl hs, fun hd' => ?_, fun hl => by cases hl⟩
      · change (Role.verifying :: a.roles).length ≤ 1
        rw [hroles]
        exact le_refl 1
      · rcases hm with hl | hd'
        · cases hl
        · cases hd.symm.trans hd'
      · cases hd.symm.trans hd'
    | resetting free dirty passed h' =>
      obtain ⟨hroles, hd⟩ := hfree free
      cases hb.symm.trans h'
      refine ⟨?_, fun hm => ?_, fun hs => absurd rfl hs, fun hd' => ?_, fun hl => by cases hl⟩
      · change (Role.resetting :: a.roles).length ≤ 1
        rw [hroles]
        exact le_refl 1
      · rcases hm with hl | hd'
        · cases hl
        · cases hd.symm.trans hd'
      · cases hd.symm.trans hd'
    | refused free dirty exceeds panics h' =>
      rw [cutsShort_refused ht hq panics] at hcut
      cases hcut
  | skipped a' roles rest hop hf hs hr h' =>
    cases hkey hs
    have hd := h.undeferred hr
    cases hb.symm.trans h'
    refine ⟨?_, h.marked, h.stale, fun hd' => ?_, h.enlisted⟩
    · change roles.length ≤ 1
      rw [h.alone hr]
      exact Nat.zero_le 1
    · cases hd.symm.trans hd'
  | found a' roles d version entries rest hop hf hv hs hr passed h' =>
    cases hkey hs
    have hd := h.undeferred hr
    cases hb.symm.trans h'
    refine ⟨?_, h.marked, h.stale, fun hd' => ?_, h.enlisted⟩
    · change (Role.resetting :: roles).length ≤ 1
      rw [h.alone hr]
      exact le_refl 1
    · cases hd.symm.trans hd'
  | stopped a' roles d version entries rest hop hf hv hs hr exceeds panics h' =>
    subst hop
    rw [cutsShort_stopped ht hf panics] at hcut
    cases hcut
  | entered a' roles v rest hop hf hs hr idle started cleared h' =>
    cases hkey hs
    cases hb.symm.trans h'
    refine ⟨?_, h.marked, h.stale, fun _ => .inr List.mem_cons_self, h.enlisted⟩
    change (Role.running :: roles).length ≤ 1
    rw [h.alone hr]
    exact le_refl 1
  | barred a' roles v rest hop hf hs hr active h' =>
    cases hkey hs
    have hin : e ∈ s.net.stack := hu.wired.net.running ▸ active
    have hrun := running_mem hu.wired (standing_computed hu.wired ha) hin
    obtain ⟨x, hx, rfl⟩ := effect_of_standing ha
    dsimp only at hr
    rw [hr, h.alone hr] at hrun
    simp at hrun
  | ended a' roles v untracked rest hop hf hs hr h' =>
    cases hkey hs
    have hlen : roles.length ≤ 1 := by
      rw [h.alone hr]
      exact Nat.zero_le 1
    cases hd : a.deferred with
    | true =>
      rw [hd, if_pos rfl] at h'
      cases hb.symm.trans h'
      exact h.claim (h.marked (.inr hd)) hlen fun hd' => by cases hd'
    | false =>
      rw [hd, if_neg Bool.false_ne_true] at h'
      cases hb.symm.trans h'
      refine ⟨hlen, fun hm => ?_, fun hs => ?_, fun hd' => ?_, h.enlisted⟩
      · exact h.marked (hm.imp_right fun hd' => absurd hd' Bool.false_ne_true)
      · refine .inl ((h.stale hs).resolve_right fun hd' => ?_)
        cases hd.symm.trans hd'
      · cases hd'
  | recovered a' roles f rest hop hf hv hs hr h' =>
    cases hkey hs
    have hd := h.undeferred hr
    cases hb.symm.trans h'
    have hstale : State.dirty ≠ .clean := State.noConfusion
    refine h.claim hstale ?_ fun hd' => ?_
    · rw [h.alone hr]
      exact Nat.zero_le 1
    · cases hd.symm.trans hd'
  | aborted a' r roles f rest hop hf hw hs hr h' =>
    cases hkey hs
    subst hop
    obtain ⟨-, hd⟩ := aborted_running hcut hf hw hs hr
    cases hb.symm.trans h'
    refine ⟨?_, h.marked, h.stale, fun hd' => ?_, h.enlisted⟩
    · change roles.length ≤ 1
      rw [h.alone hr]
      exact Nat.zero_le 1
    · cases hd.symm.trans hd'

theorem Undisturbed.skipped (h : s.Undisturbed) (hf : s.frames = .verifying e [] :: rest) :
    ∀ r ∈ s.net.dependencies e, s.net.Current r := by
  have hn := h.nested
  rw [hf] at hn
  obtain ⟨before, hdeps, hpassed⟩ := hn.passed _ List.mem_cons_self e (decide_eq_true rfl)
  rw [hdeps, NetFrame.left, List.append_nil]
  exact hpassed

/-- A pending run stays so until its body is entered or its verification has passed. -/
theorem pending_turn {a b : Standing} (hp : a.pending) (h : a.Sound)
    (hu : s.Undisturbed) (hcut : cutsShort layout e s op = false) (ht : s.step layout op = some t)
    (turn : Turn s op t e) (ha : s.standing e = some a) (hb : t.standing e = some b) :
    b.pending ∨ ∀ r ∈ t.net.dependencies e, t.net.Current r := by
  have hkey : ∀ {a' : Standing}, s.standing e = some a' → a' = a := fun h =>
    Option.some.inj (h.symm.trans ha)
  have hfree : ∀ {r roles}, a.roles = r :: roles → r ≠ .verifying → r ≠ .resetting →
      a.latched = true ∨ a.deferred = true := fun hr hv hreset => by
    rcases hp with hl | hd | hm | hm
    · exact .inl hl
    · exact .inr hd
    · exact absurd (h.eq_of_mem hr hm).symm hv
    · exact absurd (h.eq_of_mem hr hm).symm hreset
  cases turn with
  | aside h' hd =>
    cases (hb.symm.trans h').trans ha
    exact .inl hp
  | created fresh hs h' => cases hs.symm.trans ha
  | marked a' state hop hs stale raised h' =>
    cases hb.symm.trans h'
    exact .inl (.inl rfl)
  | taken a' queued hq how =>
    cases hkey hq.stood
    cases how with
    | deferred open' h' =>
      cases hb.symm.trans h'
      exact .inl (.inr (.inl rfl))
    | dropped free clean h' =>
      exact absurd clean (h.marked (.inl (latched_of_taken hu.lane (takes_of_taken hq) ha)))
    | verifying free check h' =>
      cases hb.symm.trans h'
      exact .inl (.inr (.inr (.inl List.mem_cons_self)))
    | resetting free dirty passed h' =>
      cases hb.symm.trans h'
      exact .inl (.inr (.inr (.inr List.mem_cons_self)))
    | refused free dirty exceeds panics h' =>
      rw [cutsShort_refused ht hq panics] at hcut
      cases hcut
  | skipped a' roles rest hop hf hs hr h' =>
    rcases tuned_step hu ht (hu.skipped hf) with hall | hlatched
    · exact .inr hall
    · obtain ⟨y, hy, rfl⟩ := effect_of_standing hb
      exact .inl (.inl (hlatched y hy))
  | found a' roles d version entries rest hop hf hv hs hr passed h' =>
    cases hb.symm.trans h'
    exact .inl (.inr (.inr (.inr List.mem_cons_self)))
  | stopped a' roles d version entries rest hop hf hv hs hr exceeds panics h' =>
    subst hop
    rw [cutsShort_stopped ht hf panics] at hcut
    cases hcut
  | entered a' roles v rest hop hf hs hr idle started cleared h' =>
    right
    rw [cleared]
    exact fun r hr => absurd hr List.not_mem_nil
  | barred a' roles v rest hop hf hs hr active h' =>
    cases hkey hs
    have hin : e ∈ s.net.stack := hu.wired.net.running ▸ active
    have hrun := running_mem hu.wired (standing_computed hu.wired ha) hin
    obtain ⟨x, hx, rfl⟩ := effect_of_standing ha
    cases h.eq_of_mem hr hrun
  | ended a' roles v untracked rest hop hf hs hr h' =>
    cases hkey hs
    left
    rcases hfree hr Role.noConfusion Role.noConfusion with hl | hd
    · cases hd : a.deferred <;> rw [hd] at h' <;> cases hb.symm.trans h'
      · exact .inl hl
      · exact .inl rfl
    · rw [hd, if_pos rfl] at h'
      cases hb.symm.trans h'
      exact .inl rfl
  | recovered a' roles f rest hop hf hv hs hr h' =>
    cases hb.symm.trans h'
    exact .inl (.inl rfl)
  | aborted a' r roles f rest hop hf hw hs hr h' =>
    cases hkey hs
    subst hop
    obtain ⟨rfl, hd⟩ := aborted_running hcut hf hw hs hr
    cases hb.symm.trans h'
    rcases hfree hr Role.noConfusion Role.noConfusion with hl | hd'
    · exact .inl (.inl hl)
    · cases hd.symm.trans hd'

theorem Minded.step (h : s.Minded e) (hu : s.Undisturbed)
    (hcut : cutsShort layout e s op = false) (ht : s.step layout op = some t) : t.Minded e := by
  have hw := hu.wired
  cases ha : s.standing e with
  | none =>
    have hmade : ∀ b, t.standing e = some b →
        b = ⟨true, true, .dirty, false, none, 0, []⟩ := fun b hb => by
      have hn := uncomputed_before hw ht (standing_computed (hw.step op ht) hb)
      obtain ⟨rfl, rfl⟩ := standing_made hw hu.lane ht ha hb
      rw [h.absent ha hn, roles_fresh hw (le_refl s.net.nextNode)]
    refine ⟨fun hnone hn => ?_, fun b hb => ?_, fun b hb => ?_⟩
    · have hbefore := uncomputed_before hw ht hn
      have hfalse := h.absent ha hbefore
      rw [← Bool.not_eq_true] at hfalse ⊢
      rcases (turn_step hw hu.lane hbefore ht).absent ha with ⟨-, hd⟩ | ⟨-, hsome⟩
      · exact fun hr => hfalse (hd hr)
      · cases hnone.symm.trans hsome
    · obtain rfl := hmade b hb
      exact ⟨Nat.zero_le 1, fun _ => State.noConfusion, fun _ => .inl rfl,
        fun hd => absurd hd Bool.false_ne_true, fun _ => rfl⟩
    · obtain rfl := hmade b hb
      exact .inl (.inl rfl)
  | some a =>
    have turn := turn_step hw hu.lane (standing_computed hw ha) ht
    refine ⟨fun hnone _ => ?_, fun b hb => sound_turn (h.sound a ha) hu hcut ht turn ha hb,
      fun b hb => ?_⟩
    · obtain ⟨b, hb⟩ := turn.persists ha
      rw [hnone] at hb
      cases hb
    · rcases h.tuned a ha with hp | hall
      · exact pending_turn hp (h.sound a ha) hu hcut ht turn ha hb
      · rcases tuned_step hu ht hall with hall' | hlatched
        · exact .inr hall'
        · obtain ⟨y, hy, rfl⟩ := effect_of_standing hb
          exact .inl (.inl (hlatched y hy))

end Minding

/-- The states that a run reaches in which no compute writes and nothing cuts a run of the
effect short. -/
def ReachedWhole (layout : Layout) (e : NodeId) (s : NetHost V) : Prop :=
  Runs.Reaches (NetHost.step layout)
    (fun s op => (!s.disturbs op && !cutsShort layout e s op) = true) {} s

/-- The body has been entered since, or what it has recorded is still outdated. -/
structure Owes (start : NetHost V) (e : NodeId) (s : NetHost V) : Prop where
  undisturbed : s.Undisturbed
  stands : ∃ a, s.standing e = some a
  grown : start.started.count e ≤ s.started.count e
  owes : s.started.count e = start.started.count e → e ∉ s.net.stack ∧ s.net.Outdated e

theorem Owes.step {start : NetHost V} (h : Owes start e s) (hd : s.disturbs op = false)
    (ht : s.step layout op = some t) : Owes start e t := by
  obtain ⟨a, ha⟩ := h.stands
  have hw := h.undisturbed.wired
  refine ⟨h.undisturbed.step hd ht, ?_, ?_, fun hcount => ?_⟩
  · exact (turn_step hw h.undisturbed.lane (standing_computed hw ha) ht).persists ha
  · rcases (shift_step hw ht).keeping e with hent | hk
    · rw [hent.started, List.count_cons_self]
      exact h.grown.trans (Nat.le_succ _)
    · exact h.grown.trans hk.started.ge
  · rcases (shift_step hw ht).keeping e with hent | hk
    · have hgrown := h.grown
      rw [hent.started, List.count_cons_self] at hcount
      omega
    · obtain ⟨hidle, hout⟩ := h.owes (hk.started.symm.trans hcount)
      refine ⟨fun hin => ?_, hk.outdated hidle hout⟩
      rcases (slackens_step hw ht).grown e hin with hin | hst
      · exact hidle hin
      · have hsame := hk.started
        rw [hst, List.count_cons_self] at hsame
        omega

/-- The second memo panics while the effect is verified, and does not when it is read again. -/
def recovering : List (NetStep ℕ) :=
  [.flushNow, .next, .next, .panic, .unwind, .unwind, .unwind, .catchUnwind, .flushNow, .next,
    .finish 0, .read 2 true, .next, .finish 0, .read 3 true, .read 1 true, .next, .finish 0,
    .finish 9, .next, .finish 0, .finish 0, .next]

end NetHost

end Adaptite

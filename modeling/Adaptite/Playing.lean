import Adaptite.Base.Mimicry
import Adaptite.Cycles
import Adaptite.Suppression

set_option autoImplicit false

namespace Adaptite

open Unwinding Runs NetFrame

namespace Net

variable {V : Type} {net t a b : Net V} {layout : Layout} {n m : NodeId}

/-- What is not in the source is left out, except the values of the past. -/
def bare (net : Net V) : Net V := { net with raised := [], seen := [] }

def Agree (a b : Net V) : Prop := a.bare = b.bare

/-- What a thunk or a memo computes, and how it compares. -/
def codes (net : Net V) (n : NodeId) : Option ((Option V → Script V) × Option (Equals V)) :=
  (net.computed n).map fun x => (x.compute, x.equals)

section Agreement

theorem Agree.map {f : Net V → Net V} (hf : ∀ net, (f net).bare = f net.bare) (h : a.Agree b) :
    (f a).Agree (f b) := by
  unfold Agree at h ⊢
  rw [hf, hf, h]

theorem Agree.refl (net : Net V) : net.Agree net := rfl

theorem Agree.trans {c : Net V} (h : a.Agree b) (h' : b.Agree c) : a.Agree c := Eq.trans h h'

theorem Agree.eq {α : Type} (h : a.Agree b) (f : Net V → α) (hf : ∀ net, f net.bare = f net) :
    f a = f b := by
  unfold Agree at h
  rw [← hf a, h, hf b]

theorem Agree.computed (h : a.Agree b) : a.computed = b.computed := h.eq _ fun _ => rfl

theorem Agree.signals (h : a.Agree b) : a.signals = b.signals := h.eq _ fun _ => rfl

theorem Agree.active (h : a.Agree b) : a.activeComputations = b.activeComputations :=
  h.eq _ fun _ => rfl

theorem Agree.untracked (h : a.Agree b) : a.untracked = b.untracked := h.eq _ fun _ => rfl

theorem Agree.version (h : a.Agree b) : a.version = b.version := h.eq _ fun _ => rfl

theorem Agree.borrows (h : a.Agree b) : a.borrows = b.borrows := h.eq _ fun _ => rfl

theorem Agree.dependencies (h : a.Agree b) : a.dependencies = b.dependencies :=
  h.eq _ fun _ => rfl

theorem Agree.cached (h : a.Agree b) (n : NodeId) : a.cached n = b.cached n :=
  h.eq (Net.cached · n) fun _ => rfl

theorem Agree.cycleCheck (h : a.Agree b) (n : NodeId) : a.cycleCheck n = b.cycleCheck n :=
  h.eq (Net.cycleCheck · n) fun _ => rfl

theorem bare_recordEdge (layout : Layout) (n : NodeId) (net : Net V) :
    (net.recordEdge layout n).bare = net.bare.recordEdge layout n := by
  have hu : net.bare.untracked = net.untracked := rfl
  have hs : net.bare.stack = net.stack := rfl
  unfold Net.recordEdge
  rw [hu, hs]
  split
  · rfl
  · split <;> rfl

theorem bare_leave (untracked : ℕ) (net : Net V) :
    (net.leave untracked).bare = net.bare.leave untracked := by
  have hs : net.bare.stack = net.stack := rfl
  unfold Net.leave
  rw [hs]
  split <;> rfl

theorem bare_markEffect (e : NodeId) (mark : Mark) (net : Net V) :
    (net.markEffect e mark).bare = net.bare.markEffect e mark := by
  have he : net.bare.effects = net.effects := rfl
  unfold Net.markEffect
  rw [he]
  split
  · rfl
  · dsimp only
    split <;> rfl

theorem bare_markDependents (levels : ℕ) (mark : Mark) (net : Net V) (n : NodeId) :
    (markDependents levels mark net n).bare = markDependents levels mark net.bare n :=
  map_markDependents (g := bare) (fun _ => rfl) (fun _ => rfl) (fun _ _ _ => rfl)
    (fun net e mark => bare_markEffect e mark net) levels mark net n

theorem bare_trigger (n : NodeId) (net : Net V) : (net.trigger n).bare = net.bare.trigger n :=
  bare_markDependents _ _ (net.bumpVersion n) n

theorem bare_write (n : NodeId) (v : V) (net : Net V) :
    ((net.setValue n v).trigger n).bare = (net.bare.setValue n v).trigger n :=
  bare_trigger n (net.setValue n v)

end Agreement

section Codes

theorem codes_of_eq (h : t.computed = net.computed) : t.codes = net.codes := by
  unfold codes
  rw [h]

theorem codes_modifyComputed {f : NetComputed V → NetComputed V} (n : NodeId)
    (hf : ∀ x, (f x).compute = x.compute ∧ (f x).equals = x.equals) :
    (net.modifyComputed n f).codes = net.codes := by
  funext m
  unfold codes Net.modifyComputed
  dsimp only
  by_cases hm : m = n
  · subst hm
    rw [Function.update_self, Option.map_map]
    refine congrFun (congrArg Option.map (funext fun x => ?_)) _
    exact Prod.ext (hf x).1 (hf x).2
  · rw [Function.update_of_ne hm]

theorem codes_setState (net : Net V) (n : NodeId) (state : State) :
    (net.setState n state).codes = net.codes := codes_modifyComputed n fun _ => ⟨rfl, rfl⟩

theorem codes_store (net : Net V) (n : NodeId) (v : V) : (net.store n v).codes = net.codes :=
  codes_modifyComputed n fun _ => ⟨rfl, rfl⟩

theorem codes_markEffect (net : Net V) (e : NodeId) (mark : Mark) :
    (net.markEffect e mark).codes = net.codes := by
  refine codes_of_eq ?_
  unfold Net.markEffect
  split
  · rfl
  · dsimp only
    split <;> rfl

theorem codes_write (net : Net V) (n : NodeId) (v : V) :
    ((net.setValue n v).trigger n).codes = net.codes :=
  Net.markDependents_keeps (P := fun t => t.codes = net.codes)
    (fun t m state h => (codes_setState t m state).trans h)
    (fun t e mark h => (codes_markEffect t e mark).trans h) _ _ _ n rfl

end Codes

end Net

namespace NetHost

variable {V α : Type} {layout : Layout} {P : Prop} {frames rest : List NetFrame} {b : Bool}
  {codes : NodeId → Option ((Option V → Script V) × Option (Equals V))} {s t u : NetHost V}
  {net net' : Net V} {n m : NodeId} {op : NetStep V} {f : NetFrame} {tracked : Bool}

/-- Every step is admitted; where `P` holds, those in which no compute writes. -/
def Admits (P : Prop) (s : NetHost V) (op : NetStep V) : Prop := P → s.disturbs op = false

/-- The host has this net, up to what is not in the source, and these calls left. -/
structure Stands (codes : NodeId → Option ((Option V → Script V) × Option (Equals V)))
    (frames : List NetFrame) (unwinding : Bool) (net : Net V) (s : NetHost V) : Prop where
  frames : s.frames = frames
  unwinding : s.unwinding = unwinding
  agree : s.net.Agree net
  codes : net.codes = codes
  wired : s.Wired

/-- From `s`, some run comes to the end to which `x` comes. -/
def Comes (layout : Layout) (P : Prop)
    (codes : NodeId → Option ((Option V → Script V) × Option (Equals V)))
    (frames : List NetFrame) (s : NetHost V) (x : Pull V α) (net : Net V) : Prop :=
  Mimics (NetHost.step layout) (Admits P) s x (fun _ t u => Stands codes frames false t u)
    (fun _ t u => Stands codes frames true t u) net

def InCode (frames : List NetFrame) : Prop := ∀ f ∈ frames.head?, f.isCode = true

/-- Code that is in control on these frames does what `x` does. -/
def Plays (layout : Layout) (P : Prop)
    (codes : NodeId → Option ((Option V → Script V) × Option (Equals V)))
    (frames : List NetFrame) (x : Pull V α) : Prop :=
  ∀ net s, Stands codes frames false net s → Comes layout P codes frames s x net

/-- The refresh of a node does what `x` does. -/
def Refreshes (layout : Layout) (P : Prop)
    (codes : NodeId → Option ((Option V → Script V) × Option (Equals V)))
    (next : NodeId → Pull V Unit) : Prop :=
  ∀ n frames net s, Stands codes frames false net s →
    Comes layout P codes frames (s.refresh n) (next n) net

section Moves

theorem Stands.moves (h : Stands codes frames b net s) {frames' : List NetFrame} {b' : Bool}
    (ht : s.step layout op = some t) (hop : op.isWrite = false) (hf : t.frames = frames')
    (hu : t.unwinding = b') (ha : t.net.Agree net') (hc : net'.codes = net.codes) :
    Reaches (NetHost.step layout) (Admits P) s t ∧ Stands codes frames' b' net' t := by
  refine ⟨.single (fun _ => ?_) ht, hf, hu, ha, hc.trans h.codes, h.wired.step op ht⟩
  unfold disturbs
  rw [hop, Bool.false_and]

theorem Stands.calling (h : Stands codes frames false net s) (hf : InCode frames) :
    s.calling = true := by
  unfold NetHost.calling NetHost.inCode
  rw [h.unwinding, h.frames]
  cases frames with
  | nil => rfl
  | cons f rest => exact hf f rfl

theorem Stands.computed (h : Stands codes frames b net s) (hn : (codes n).isSome = true) :
    ∃ x, net.computed n = some x ∧ s.net.computed n = some x ∧
      codes n = some (x.compute, x.equals) := by
  rw [← h.codes] at hn ⊢
  unfold Net.codes at hn ⊢
  rw [Option.isSome_map] at hn
  obtain ⟨x, hx⟩ := Option.isSome_iff_exists.mp hn
  exact ⟨x, hx, h.agree.computed ▸ hx, by rw [hx]; rfl⟩

theorem Stands.raised (h : Stands codes frames false net s) :
    Stands codes frames true net s.raise :=
  ⟨h.frames, rfl, h.agree, h.codes, h.wired.raise⟩

theorem Stands.next (h : Stands codes frames false net s) (ht : s.next layout = some t) :
    s.step layout .next = some t := by
  unfold NetHost.step
  rw [h.unwinding]
  exact ht

theorem Stands.unwind (h : Stands codes frames true net s) (ht : s.unwind = some t) :
    s.step layout .unwind = some t := by
  unfold NetHost.step
  rw [h.unwinding]
  exact ht

theorem Stands.finishes (h : Stands codes (f :: rest) false net s) (hf : f.isCode = true) {v : V}
    (ht : s.finish v = some t) : s.step layout (.finish v) = some t := by
  refine (if_pos (h.calling ?_)).trans ht
  rintro g ⟨⟩
  exact hf

theorem Stands.leaves_reading (h : Stands codes (.reading n tracked :: rest) true net s) :
    ∃ w, Reaches (NetHost.step layout) (Admits P) s w ∧ Stands codes rest true net w := by
  refine ⟨{ s with frames := rest }, h.moves (h.unwind ?_) rfl rfl h.unwinding h.agree rfl⟩
  unfold NetHost.unwind
  rw [h.frames]

theorem Stands.leaves_holding (h : Stands codes (.holding n :: rest) true net s) :
    ∃ w, Reaches (NetHost.step layout) (Admits P) s w ∧
      Stands codes rest true (net.giveBack n) w := by
  refine ⟨{ s with net := s.net.giveBack n, frames := rest },
    h.moves (h.unwind ?_) rfl rfl h.unwinding ?_ rfl⟩
  · unfold NetHost.unwind
    rw [h.frames]
  · exact h.agree.map (f := fun net => net.giveBack n) fun _ => rfl

theorem Stands.leaves_untracking (h : Stands codes (.untracking :: rest) true net s) :
    ∃ w, Reaches (NetHost.step layout) (Admits P) s w ∧
      Stands codes rest true { net with untracked := net.untracked - 1 } w := by
  refine ⟨{ s with net := { s.net with untracked := s.net.untracked - 1 }, frames := rest },
    h.moves (h.unwind ?_) rfl rfl h.unwinding ?_ rfl⟩
  · unfold NetHost.unwind
    rw [h.frames]
  · exact h.agree.map (f := fun net => { net with untracked := net.untracked - 1 }) fun _ => rfl

/-- The guard of a verification has nothing to do for a thunk or a memo. -/
theorem Stands.recover (h : Stands codes frames b net s) (hn : (codes n).isSome = true) :
    s.recover rest n = { s with frames := rest } := by
  obtain ⟨x, -, hx, -⟩ := h.computed hn
  have hnone : s.net.effects n = none := by
    by_contra hne
    obtain ⟨y, hy⟩ := Option.ne_none_iff_exists'.mp hne
    rw [(h.wired.net.effect n y hy).2] at hx
    cases hx
  have hmod : (s.net.modifyEffect n fun x => { x with state := .dirty }) = s.net := by
    unfold Net.modifyEffect
    rw [hnone, Option.map_none, ← hnone, Function.update_eq_self]
  unfold NetHost.recover
  rw [hmod]
  unfold Net.scheduleEffect
  rw [hnone]

theorem Stands.leaves_verifying (h : Stands codes (f :: rest) true net s)
    (hv : f.verifies n = true) (hn : (codes n).isSome = true) :
    ∃ w, Reaches (NetHost.step layout) (Admits P) s w ∧ Stands codes rest true net w := by
  refine ⟨{ s with frames := rest }, h.moves (h.unwind ?_) rfl rfl h.unwinding h.agree rfl⟩
  have hrec : s.recover rest n = { s with frames := rest } := h.recover hn
  unfold NetHost.unwind
  rw [h.frames]
  rcases verifies_iff.mp hv with ⟨entries, rfl⟩ | ⟨d, version, entries, rfl⟩
  · exact congrArg some hrec
  · exact congrArg some hrec

end Moves

section Code

variable {x : Pull V α} {body : V → Pull V α} {next : NodeId → Pull V Unit} {k : Unit → Pull V α}
  {Q : α → Net V → NetHost V → Prop} {E : Fault V → Net V → NetHost V → Prop}

theorem Stands.ghost (h : Stands codes frames b net s) (ha : net.Agree net')
    (hc : net'.codes = net.codes) : Stands codes frames b net' s :=
  ⟨h.frames, h.unwinding, h.agree.trans ha, hc.trans h.codes, h.wired⟩

theorem giveBack_borrow (net : Net V) (n : NodeId) : (net.borrow n).giveBack n = net := by
  unfold Net.borrow Net.giveBack
  dsimp only
  rw [Function.update_self, Function.update_idem, Nat.add_sub_cancel, Function.update_eq_self]

theorem mimics_assertNoCycle
    (hok : net.cycleCheck n = none → Mimics (NetHost.step layout) (Admits P) s (k ()) Q E net)
    (hcycle : ∀ fault, net.cycleCheck n = some fault → E fault (net.note n fault) s) :
    Mimics (NetHost.step layout) (Admits P) s (Pull.assertNoCycle n >>= k) Q E net := by
  refine .bind (.get ?_)
  cases hc : net.cycleCheck n with
  | none => exact .pure (hok hc)
  | some fault => exact .modify (.raise (hcycle fault hc))

theorem plays_raise (hf : InCode frames) (e : Fault V) :
    Plays layout P codes frames (Act.raise e : Pull V α) := by
  intro net s hs
  have hstep : s.step layout .panic = some s.raise := if_pos (hs.calling hf)
  obtain ⟨hr, ht⟩ := hs.moves hstep rfl hs.frames rfl hs.agree rfl
  refine Mimics.after ?_ hr
  exact .raise ht

theorem Plays.attempt (hx : Plays layout P codes frames x) (hf : InCode frames) :
    Plays layout P codes frames x.attempt := by
  intro net s hs
  refine .attempt ((hx net s hs).mono (fun _ _ _ => id) fun e t v hv => ?_)
  have hcode : v.inCode = true := by
    unfold NetHost.inCode
    rw [hv.frames]
    cases frames with
    | nil => rfl
    | cons f rest => exact hf f rfl
  have hstep : v.step layout .catchUnwind = some { v with unwinding := false } := by
    unfold NetHost.step
    rw [hv.unwinding, hcode]
    rfl
  exact ⟨_, hv.moves hstep rfl hv.frames rfl hv.agree rfl⟩

theorem Plays.untrack {x : Pull V V} (hx : Plays layout P codes (.untracking :: frames) x)
    (hf : InCode frames) :
    Plays layout P codes frames (Pull.untrack x) := by
  intro net s hs
  have hstep : s.step layout .untrack = some
      (({ s with net := { s.net with untracked := s.net.untracked + 1 } } :
        NetHost V).push .untracking) := if_pos (hs.calling hf)
  have hframes : .untracking :: s.frames = .untracking :: frames := congrArg _ hs.frames
  obtain ⟨hr, ht⟩ := hs.moves hstep rfl hframes hs.unwinding
    (hs.agree.map (f := fun net => { net with untracked := net.untracked + 1 }) fun _ => rfl) rfl
  refine Mimics.after ?_ hr
  refine .modify (.guarded ((hx _ _ ht).mono (fun a t v hv => ?_) fun e t v hv => ?_))
  · have hret : v.finish a = some
        { v with net := { v.net with untracked := v.net.untracked - 1 }, frames } := by
      unfold NetHost.finish
      rw [hv.frames]
    exact ⟨_, hv.moves (hv.finishes rfl hret) rfl rfl hv.unwinding
      (hv.agree.map (f := fun net => { net with untracked := net.untracked - 1 }) fun _ => rfl) rfl⟩
  · exact hv.leaves_untracking

theorem comes_readCached {body : V → Pull V V} (hnone : net.cached n = none →
      Stands codes frames true net s)
    (hsome : ∀ v, net.cached n = some v →
      Stands codes (.holding n :: frames) false (net.borrow n) s)
    (hbody : ∀ v, Plays layout P codes (.holding n :: frames) (body v)) :
    Comes layout P codes frames s (Pull.readCached n body) net := by
  refine Mimics.modify (.guarded (.get ?_))
  have hcached : (net.borrow n).cached n = net.cached n := rfl
  cases hc : net.cached n with
  | none =>
    rw [hcached, hc]
    refine .raise ⟨s, .init, ?_⟩
    rw [giveBack_borrow]
    exact hnone hc
  | some v =>
    rw [hcached, hc]
    have hghost : ((net.borrow n).noteSeen n v).bare = (net.borrow n).bare := by
      unfold Net.noteSeen
      split <;> rfl
    have hcodes : ((net.borrow n).noteSeen n v).codes = (net.borrow n).codes := by
      unfold Net.noteSeen
      split <;> rfl
    have hplay := hbody v _ s ((hsome v hc).ghost hghost.symm hcodes)
    refine .modify (hplay.mono (fun a t w hw => ?_) fun e t w hw => ?_)
    · have hret : w.finish a = some { w with net := w.net.giveBack n, frames } := by
        unfold NetHost.finish
        rw [hw.frames]
      exact ⟨_, hw.moves (hw.finishes rfl hret) rfl rfl hw.unwinding
        (hw.agree.map (f := fun net => net.giveBack n) fun _ => rfl) rfl⟩
    · exact hw.leaves_holding

theorem Stands.lends {body : V → Pull V V}
    (h : Stands codes (.reading n tracked :: frames) false net s)
    (hbody : ∀ v, Plays layout P codes (.holding n :: frames) (body v)) :
    Comes layout P codes frames s ((if tracked then Pull.observe layout n else pure ()) >>= fun _ =>
      Pull.readCached n body) net := by
  have hstep : s.step layout .next =
      some (({ s with frames } : NetHost V).lend layout n tracked) := by
    refine h.next ?_
    unfold NetHost.next
    rw [h.frames]
  have hwired := h.wired.step _ hstep
  have hreach : Reaches (NetHost.step layout) (Admits P) s
      (({ s with frames } : NetHost V).lend layout n tracked) := .single (fun _ => rfl) hstep
  -- once the edge is recorded, the value is lent
  have hlent : ∀ recorded : Net V, (if tracked then s.net.recordEdge layout n else s.net).Agree
      recorded → recorded.codes = net.codes →
      (tracked && (s.net.cycleCheck n).isSome) = false →
      Comes layout P codes frames s (Pull.readCached n body) recorded := by
    intro recorded ha hc hcycle
    refine Mimics.after ?_ hreach
    have hcached : (if tracked then s.net.recordEdge layout n else s.net).cached n =
        s.net.cached n := by
      split
      · unfold Net.cached
        rw [(Net.recordEdge_same s.net layout n).2.2.2.1, (Net.recordEdge_same s.net layout n).1]
      · rfl
    have hval := hcached.symm.trans (ha.cached n)
    have hframes : ∀ v, (if tracked then ({ s with frames } : NetHost V).noteSaw n v
        else { s with frames }).frames = frames ∧
        (if tracked then ({ s with frames } : NetHost V).noteSaw n v
          else { s with frames }).unwinding = false := by
      intro v
      split
      · obtain ⟨-, h2, h3, -⟩ := noteSaw_same ({ s with frames } : NetHost V) n v
        exact ⟨h2, h3.trans h.unwinding⟩
      · exact ⟨rfl, h.unwinding⟩
    refine comes_readCached (fun hn => ?_) (fun v hv => ?_) hbody
    · have hlend : ({ s with frames } : NetHost V).lend layout n tracked =
          { ({ s with frames } : NetHost V).raise with
            net := if tracked then s.net.recordEdge layout n else s.net } := by
        unfold NetHost.lend
        dsimp only
        rw [hcycle, hval, hn]
        rfl
      rw [hlend] at hwired ⊢
      exact ⟨rfl, rfl, ha, hc.trans h.codes, hwired⟩
    · have hlend : ({ s with frames } : NetHost V).lend layout n tracked =
          ({ (if tracked then ({ s with frames } : NetHost V).noteSaw n v
              else { s with frames }) with
            net := (if tracked then s.net.recordEdge layout n else s.net).borrow n } :
              NetHost V).push (.holding n) := by
        unfold NetHost.lend
        dsimp only
        rw [hcycle, hval, hv]
        rfl
      rw [hlend] at hwired ⊢
      refine ⟨?_, (hframes v).2, ha.map (f := fun net => net.borrow n) fun _ => rfl,
        hc.trans h.codes, hwired⟩
      change _ :: _ = _
      rw [(hframes v).1]
  cases tracked with
  | false => exact hlent net h.agree rfl rfl
  | true =>
    have hcycle := h.agree.cycleCheck n
    cases hc : net.cycleCheck n with
    | none =>
      rw [hc] at hcycle
      refine .bind (mimics_assertNoCycle (fun _ => .modified ?_) fun fault hf => ?_)
      · refine hlent _ (h.agree.map (Net.bare_recordEdge layout n)) ?_ (by rw [hcycle]; rfl)
        exact Net.codes_of_eq (Net.recordEdge_same net layout n).1
      · cases hc.symm.trans hf
    | some fault =>
      rw [hc] at hcycle
      have hlend : ({ s with frames } : NetHost V).lend layout n true =
          ({ s with frames } : NetHost V).raise := by
        unfold NetHost.lend
        dsimp only
        rw [hcycle]
        rfl
      refine Mimics.after ?_ hreach
      rw [hlend] at hwired ⊢
      refine .bind (mimics_assertNoCycle (fun hn => ?_) fun fault' hf => ?_)
      · cases hn.symm.trans hc
      · exact ⟨rfl, rfl, h.agree, h.codes, hwired⟩

theorem plays_read {body : V → Pull V V} (hf : InCode frames)
    (hnext : Refreshes layout P codes next)
    (hbody : ∀ v, Plays layout P codes (.holding n :: frames) (body v)) :
    Plays layout P codes frames (Pull.read layout next tracked n body) := by
  intro net s hs
  have hstep : s.step layout (.read n tracked) = some (s.read n tracked) :=
    if_pos (hs.calling hf)
  have hwired := hs.wired.step _ hstep
  refine Mimics.after ?_ (.single (fun _ => rfl) hstep)
  unfold NetHost.read at hwired ⊢
  rw [hs.agree.signals, hs.agree.computed, hs.agree.cycleCheck] at hwired ⊢
  refine .get ?_
  cases hsig : net.signals n with
  | some y =>
    rw [hsig] at hwired
    have hreading : Stands codes (.reading n tracked :: frames) false net
        (s.push (.reading n tracked)) :=
      ⟨congrArg _ hs.frames, hs.unwinding, hs.agree, hs.codes, hwired⟩
    exact hreading.lends hbody
  | none =>
    cases hx : net.computed n with
    | none => exact .raise hs.raised
    | some x =>
      dsimp only
      cases hc : net.cycleCheck n with
      | some fault =>
        refine mimics_assertNoCycle (fun hn => ?_) fun fault' hf => ?_
        · cases hn.symm.trans hc
        · exact hs.raised.ghost rfl rfl
      | none =>
        refine mimics_assertNoCycle (fun _ => .bind ?_) fun fault' hf => ?_
        · have hpush : Stands codes (.reading n tracked :: frames) false net
              (s.push (.reading n tracked)) := by
            refine ⟨congrArg _ hs.frames, hs.unwinding, hs.agree, hs.codes, ?_⟩
            exact hs.wired.frame rfl rfl rfl (hs.wired.net.known n x (hs.agree.computed ▸ hx))
          exact (hnext n _ _ _ hpush).extend (fun _ t w hw => ⟨w, .init, hw.lends hbody⟩)
            fun e t w hw => hw.leaves_reading
        · cases hc.symm.trans hf

theorem Stands.writes (h : Stands codes frames false net s) (hop : op.isWrite = true)
    (hp : P → frames.any isComputing = false) (ht : s.step layout op = some t) :
    Reaches (NetHost.step layout) (Admits P) s t := by
  refine .single (fun hP => ?_) ht
  unfold disturbs
  rw [hop, h.frames, hp hP]
  rfl

theorem comes_overwrite (f : V → V) (hs : Stands codes frames false net s)
    (hw : (s.overwrite n f).Wired) :
    Comes layout P codes frames (s.overwrite n f) (Pull.overwrite n f) net := by
  refine .get ?_
  unfold NetHost.overwrite at hw ⊢
  rw [hs.agree.signals, hs.agree.borrows] at hw ⊢
  cases hsig : net.signals n with
  | none => exact .raise hs.raised
  | some x =>
    rw [hsig] at hw
    dsimp only at hw ⊢
    split
    · exact .raise hs.raised
    · rename_i hb
      rw [if_neg hb] at hw
      refine .modify (.pure ⟨hs.frames, hs.unwinding, ?_, ?_, hw⟩)
      · exact hs.agree.map (f := fun net => (net.setValue n (f x.value)).trigger n)
          (Net.bare_write n _)
      · exact (Net.codes_write net n _).trans hs.codes

theorem plays_overwrite (f : V → V) (hf : InCode frames)
    (hp : P → frames.any isComputing = false) :
    Plays layout P codes frames (Pull.overwrite n f) := by
  intro net s hs
  have hstep : s.step layout (.update n f) = some (s.overwrite n f) := if_pos (hs.calling hf)
  refine Mimics.after ?_ (hs.writes rfl hp hstep)
  exact comes_overwrite f hs (hs.wired.overwrite n f)

theorem plays_set (v : V) (hf : InCode frames) (hp : P → frames.any isComputing = false) :
    Plays layout P codes frames (Pull.set n v) := by
  intro net s hs
  have hstep : s.step layout (.set n v) = some (s.set n v) := if_pos (hs.calling hf)
  have hwired := hs.wired.set n v
  refine Mimics.after ?_ (hs.writes rfl hp hstep)
  refine .get ?_
  unfold NetHost.set at hwired ⊢
  rw [hs.agree.signals] at hwired ⊢
  cases hsig : net.signals n with
  | none => exact .raise hs.raised
  | some x =>
    rw [hsig] at hwired
    dsimp only at hwired ⊢
    split
    · exact .pure hs
    · rename_i hsame
      rw [if_neg hsame] at hwired
      exact .bind ((comes_overwrite _ hs hwired).mono (fun _ _ _ hu => .pure hu) fun _ _ _ => id)

/-- Code that is in control does what its script does. -/
theorem plays_exec (hnext : Refreshes layout P codes next) (p : Script V) :
    ∀ frames, InCode frames → (P → frames.any isComputing = true → p.ReadOnly) →
      Plays layout P codes frames (Pull.exec layout next p) := by
  induction p with
  | ret r => exact fun frames hf hp net s hs => .pure hs
  | call op f k ihf ihk =>
    intro frames hf hp
    have hcalled : ∀ (g : NetFrame), g.isCode = true → g.isComputing = false → ∀ a,
        Plays layout P codes (g :: frames) (Pull.exec layout next (f a)) := by
      intro g hg hcomp a
      refine ihf a (g :: frames) ?_ fun hP hany => ?_
      · rintro g' ⟨⟩
        exact hg
      · rw [List.any_cons, hcomp, Bool.false_or] at hany
        exact (hp hP hany).2.1 a
    have hsame : ∀ a, Plays layout P codes frames (Pull.exec layout next (f a)) := fun a =>
      ihf a frames hf fun hP hany => (hp hP hany).2.1 a
    have hcalm : Ask.isWrite op = true → P → frames.any isComputing = false := by
      intro hop hP
      rw [← Bool.not_eq_true]
      intro hany
      cases hop.symm.trans (hp hP hany).1
    have hperform : Plays layout P codes frames
        (Pull.perform layout next op fun a => Pull.exec layout next (f a)) := by
      cases op with
      | panic v => exact plays_raise hf _
      | catchUnwind => exact (hsame ()).attempt hf
      | untrack =>
        change Plays layout P codes frames (Pull.untrack (Pull.exec layout next (f ())))
        exact (hcalled .untracking rfl rfl ()).untrack hf
      | withValue n =>
        change Plays layout P codes frames
          (Pull.read layout next true n fun v => Pull.exec layout next (f v))
        exact plays_read hf hnext fun v => hcalled (.holding n) rfl rfl v
      | withPeek n =>
        change Plays layout P codes frames
          (Pull.read layout next false n fun v => Pull.exec layout next (f v))
        exact plays_read hf hnext fun v => hcalled (.holding n) rfl rfl v
      | set n v => exact plays_set v hf (hcalm rfl)
      | replace n v =>
        change Plays layout P codes frames (Pull.overwrite n fun _ => v)
        exact plays_overwrite (fun _ => v) hf (hcalm rfl)
      | update n g =>
        change Plays layout P codes frames (Pull.overwrite n g >>= fun _ => pure ())
        intro net s hs
        have hplay : Comes layout P codes frames s (Pull.overwrite n g) net :=
          plays_overwrite g hf (hcalm rfl) net s hs
        exact .bind (hplay.mono (fun _ _ _ hu => .pure hu) fun _ _ _ => id)
    intro net s hs
    change Comes layout P codes frames s
      (Pull.perform layout next op (fun a => Pull.exec layout next (f a)) >>= fun a =>
        Pull.exec layout next (k a)) net
    have hplay := hperform net s hs
    refine .bind (hplay.mono (fun a t u hu => ?_) fun _ _ _ => id)
    exact ihk a frames hf (fun hP hany => (hp hP hany).2.2 a) t u hu

end Code

end NetHost

end Adaptite

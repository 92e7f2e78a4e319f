import Adaptite.Coherence

set_option autoImplicit false

namespace Adaptite

open Unwinding

namespace Net

variable {V : Type} {net s t u : Net V} {n m d : NodeId} {v : V} {running : List NodeId}

/-- The value of `n` from scratch counts as a change. -/
def Differs (net : Net V) (n : NodeId) : Prop :=
  ∃ x v, net.computed n = some x ∧ net.Scratch n v ∧
    ∀ equals old, x.equals = some equals → x.value = some old → equals old v ≠ .ok true

/-- Bringing `n` up to date changes its version. -/
inductive Bumps (net : Net V) : NodeId → Prop where
  | dirty (n : NodeId) (x : NetComputed V) (hx : net.computed n = some x)
      (hs : x.state = .dirty) (hd : net.Differs n) : net.Bumps n
  | outdated (n : NodeId) (x : NetComputed V) (e : NodeId × ℕ) (hx : net.computed n = some x)
      (hs : x.state = .check) (he : e ∈ net.dependencies n) (hv : net.version e.1 ≠ e.2)
      (hd : net.Differs n) : net.Bumps n
  | through (n : NodeId) (x : NetComputed V) (e : NodeId × ℕ) (hx : net.computed n = some x)
      (hs : x.state = .check) (he : e ∈ net.dependencies n) (hb : net.Bumps e.1)
      (hd : net.Differs n) : net.Bumps n

/-- Verification finds a change among what is recorded for `n`. -/
def Moved (net : Net V) (n : NodeId) : Prop :=
  ∃ e ∈ net.dependencies n, net.version e.1 ≠ e.2 ∨ net.Bumps e.1

/-- Bringing `n` up to date runs its compute. -/
def Reruns (net : Net V) (n : NodeId) : Prop :=
  ∃ x, net.computed n = some x ∧ (x.state = .dirty ∨ x.state = .check ∧ net.Moved n)

theorem bumps_iff : net.Bumps n ↔ net.Differs n ∧ net.Reruns n := by
  constructor
  · intro h
    cases h with
    | dirty _ x hx hs hd => exact ⟨hd, x, hx, .inl hs⟩
    | outdated _ x e hx hs he hv hd => exact ⟨hd, x, hx, .inr ⟨hs, e, he, .inl hv⟩⟩
    | through _ x e hx hs he hb hd => exact ⟨hd, x, hx, .inr ⟨hs, e, he, .inr hb⟩⟩
  · rintro ⟨hd, x, hx, hs | ⟨hs, e, he, hv | hb⟩⟩
    · exact .dirty n x hx hs hd
    · exact .outdated n x e hx hs he hv hd
    · exact .through n x e hx hs he hb hd

/-- To bring `n` up to date, `d` may have to be brought up to date first. -/
inductive Consults (net : Net V) (n d : NodeId) : Prop where
  | verified (x : NetComputed V) (e : NodeId × ℕ) (hx : net.computed n = some x)
      (hs : x.state = .check) (he : e ∈ net.dependencies n) (hd : e.1 = d)
  | read (x : NetComputed V) (hx : net.computed n = some x) (hr : net.Reruns n)
      (hd : net.Asks (x.compute none) d)

/-- All that may have to be brought up to date for `n` has a value from scratch, and
nothing of it consults itself. -/
inductive Safe (net : Net V) : NodeId → Prop where
  | intro (n : NodeId) (v : V) (hv : net.Scratch n v)
      (h : ∀ d, net.Consults n d → net.Safe d) : net.Safe n

theorem Safe.scratch (h : net.Safe n) : ∃ v, net.Scratch n v := by
  cases h with
  | intro _ v hv _ => exact ⟨v, hv⟩

theorem Safe.consults (h : net.Safe n) (hd : net.Consults n d) : net.Safe d := by
  cases h with
  | intro _ _ _ h => exact h d hd

theorem Safe.acyclic (h : net.Safe n) : ¬ Relation.TransGen net.Consults n n := by
  induction h with
  | intro n v hv h ih =>
    intro hn
    obtain ⟨d, hd, hback⟩ := Relation.TransGen.head'_iff.mp hn
    exact ih d hd (Relation.TransGen.tail' hback hd)

theorem Safe.of_clean (hv : net.Scratch n v)
    (hc : ∀ x, net.computed n = some x → x.state = .clean) : net.Safe n := by
  refine .intro n v hv fun d hd => ?_
  cases hd with
  | verified x e hx hs he hd =>
    rw [hc x hx] at hs
    cases hs
  | read x hx hr hd =>
    obtain ⟨y, hy, hs | ⟨hs, -⟩⟩ := hr <;>
    · rw [hc y hy] at hs
      cases hs

/-- Where verification may consult a node that is not safe, it does so first. -/
def Adverse (net : Net V) : Prop :=
  ∀ n x e rest, net.computed n = some x → x.state = .check → net.dependencies n = e :: rest →
    net.Safe e.1 → ∀ e' ∈ rest, net.Safe e'.1

/-- What reads have made of `s`, where the computes of `running` have not returned. -/
structure Since (s : Net V) (running : List NodeId) (t : Net V) : Prop where
  signals : t.signals = s.signals
  code : ∀ n, (t.computed n).map (fun x => (x.compute, x.equals)) =
    (s.computed n).map fun x => (x.compute, x.equals)
  version : ∀ n, s.version n ≤ t.version n
  stale : ∀ n x, t.computed n = some x → x.state ≠ .clean → s.computed n = some x ∧
    t.dependencies n = s.dependencies n ∧ t.version n = s.version n
  moved : ∀ n, t.version n ≠ s.version n → s.Bumps n
  bumped : ∀ n x, s.Bumps n → n ∉ running → t.computed n = some x → x.state = .clean →
    s.version n < t.version n
  safe : s.Adverse → ∀ n x, n ∉ running → t.computed n = some x → x.state = .clean → s.Safe n

theorem Since.forth (h : s.Since running t) {x : NetComputed V} (hx : s.computed n = some x) :
    ∃ y, t.computed n = some y ∧ y.compute = x.compute ∧ y.equals = x.equals := by
  have := h.code n
  rw [hx, Option.map_some, Option.map_eq_some_iff] at this
  obtain ⟨y, hy, he⟩ := this
  exact ⟨y, hy, congrArg Prod.fst he, congrArg Prod.snd he⟩

theorem Since.back (h : s.Since running t) {y : NetComputed V} (hy : t.computed n = some y) :
    ∃ x, s.computed n = some x ∧ y.compute = x.compute ∧ y.equals = x.equals := by
  have := h.code n
  rw [hy, Option.map_some, eq_comm, Option.map_eq_some_iff] at this
  obtain ⟨x, hx, he⟩ := this
  exact ⟨x, hx, (congrArg Prod.fst he).symm, (congrArg Prod.snd he).symm⟩

theorem Since.scratch (h : s.Since running t) : t.Scratch n v ↔ s.Scratch n v := by
  constructor
  · refine fun hn => hn.code h.signals.symm fun m y hy => ?_
    obtain ⟨x, hx, hc, -⟩ := h.back hy
    exact ⟨x, hx, hc.symm⟩
  · refine fun hn => hn.code h.signals fun m x hx => ?_
    obtain ⟨y, hy, hc, -⟩ := h.forth hx
    exact ⟨y, hy, hc⟩

theorem Since.refl (hs : s.Sound) (hc : s.Coherent []) (idle : s.stack = []) : s.Since [] s where
  signals := rfl
  code _ := rfl
  version _ := le_refl _
  stale _ _ hx _ := ⟨hx, rfl, rfl⟩
  moved _ h := absurd rfl h
  bumped n x hb _ hx hclean := by
    obtain ⟨-, y, hy, hst⟩ := bumps_iff.mp hb
    rw [hx] at hy
    cases hy
    rw [hclean] at hst
    rcases hst with hst | ⟨hst, -⟩ <;> cases hst
  safe _ n x _ hx hclean := by
    have hset : s.Settled n := fun y hy => by
      rw [hx] at hy
      cases hy
      exact ⟨hclean, by rw [idle]; exact List.not_mem_nil⟩
    obtain ⟨v, -, hv⟩ := hc.cached_of_settled hs (by simp) hset (.inr ⟨x, hx⟩)
    refine .of_clean hv fun y hy => ?_
    rw [hx] at hy
    cases hy
    exact hclean

theorem Since.same (h : s.Since running t) (h1 : u.computed = t.computed)
    (h2 : u.signals = t.signals) (h3 : u.version = t.version)
    (h4 : ∀ n x, t.computed n = some x → x.state ≠ .clean →
      u.dependencies n = t.dependencies n) : s.Since running u where
  signals := h2.trans h.signals
  code n := by rw [h1]; exact h.code n
  version n := by rw [h3]; exact h.version n
  stale n x hx hs := by
    rw [h1] at hx
    obtain ⟨g1, g2, g3⟩ := h.stale n x hx hs
    exact ⟨g1, (h4 n x hx hs).trans g2, by rw [h3]; exact g3⟩
  moved n hn := h.moved n (by rw [← h3]; exact hn)
  bumped n x hb hn hx hs := by
    rw [h3]
    exact h.bumped n x hb hn (h1 ▸ hx) hs
  safe ha n x hn hx hs := h.safe ha n x hn (h1 ▸ hx) hs

theorem Since.weaken (h : s.Since running t) {running' : List NodeId}
    (hr : ∀ m ∈ running, m ∈ running') : s.Since running' t :=
  { h with
    bumped := fun n x hb hn => h.bumped n x hb fun hm => hn (hr n hm)
    safe := fun ha n x hn => h.safe ha n x fun hm => hn (hr n hm) }

theorem Since.recordEdge (h : s.Since running t) (hs : t.Sound) (layout : Layout) (m : NodeId) :
    s.Since running (t.recordEdge layout m) := by
  rcases @recordEdge_eq V t layout m with he | ⟨o, rest, ho, _, he⟩
  · rw [he]; exact h
  · rw [he]
    refine h.same rfl rfl rfl fun n x hx hst => Function.update_of_ne ?_ _ _
    rintro rfl
    exact hst ((hs.busy n (ho ▸ List.mem_cons_self)).2 x hx)

theorem Since.enter (h : s.Since running t) (n : NodeId) :
    s.Since (n :: running) ((t.setState n .clean).enter n) := by
  have hcomp : ∀ m, ((t.setState n .clean).enter n).computed m =
      if m = n then (t.computed n).map fun x => { x with state := .clean }
      else t.computed m := computed_setState
  have hsame : ∀ m, m ≠ n → ((t.setState n .clean).enter n).computed m = t.computed m :=
    fun m hm => by rw [hcomp, if_neg hm]
  refine {
    signals := h.signals, code := fun m => ?_, version := h.version, stale := fun m x hx hst => ?_
    moved := h.moved, bumped := fun m x hb hm hx hst => ?_, safe := fun ha m x hm hx hst => ?_ }
  · rw [← h.code m, hcomp]
    by_cases hm : m = n
    · rw [if_pos hm, hm, Option.map_map]
      rfl
    · rw [if_neg hm]
  · by_cases hm : m = n
    · subst hm
      rw [hcomp, if_pos rfl, Option.map_eq_some_iff] at hx
      obtain ⟨y, -, rfl⟩ := hx
      exact absurd rfl hst
    · rw [hsame m hm] at hx
      obtain ⟨h1, h2, h3⟩ := h.stale m x hx hst
      exact ⟨h1, (Function.update_of_ne hm _ _).trans h2, h3⟩
  · rw [List.mem_cons, not_or] at hm
    rw [hsame m hm.1] at hx
    exact h.bumped m x hb hm.2 hx hst
  · rw [List.mem_cons, not_or] at hm
    rw [hsame m hm.1] at hx
    exact h.safe ha m x hm.2 hx hst

/-- `n` is up to date: its version is bumped if that was due. -/
theorem Since.finish (h : s.Since (n :: running) t) {x y : NetComputed V}
    (hx : t.computed n = some x) (hy : u.computed n = some y)
    (code : y.compute = x.compute ∧ y.equals = x.equals) (clean : y.state = .clean)
    (h1 : ∀ m, m ≠ n → u.computed m = t.computed m) (h2 : u.signals = t.signals)
    (h3 : ∀ m, m ≠ n → u.dependencies m = t.dependencies m)
    (h4 : ∀ m, m ≠ n → u.version m = t.version m) (hv : t.version n = s.version n)
    (h5 : (s.Bumps n → u.version n = t.version n + 1) ∧
      (¬ s.Bumps n → u.version n = t.version n))
    (safe : s.Adverse → s.Safe n) : s.Since running u where
  signals := h2.trans h.signals
  code m := by
    by_cases hm : m = n
    · subst hm
      rw [← h.code m, hx, hy, Option.map_some, Option.map_some, code.1, code.2]
    · rw [h1 m hm, h.code m]
  version m := by
    by_cases hm : m = n
    · subst hm
      by_cases hb : s.Bumps m
      · rw [h5.1 hb, hv]
        exact Nat.le_succ _
      · rw [h5.2 hb, hv]
    · rw [h4 m hm]
      exact h.version m
  stale m z hz hst := by
    by_cases hm : m = n
    · subst hm
      rw [hy] at hz
      cases hz
      exact absurd clean hst
    · rw [h1 m hm] at hz
      rw [h3 m hm, h4 m hm]
      exact h.stale m z hz hst
  moved m hm := by
    by_cases hmn : m = n
    · subst hmn
      by_contra hb
      exact hm ((h5.2 hb).trans hv)
    · rw [h4 m hmn] at hm
      exact h.moved m hm
  bumped m z hb hm hz hst := by
    by_cases hmn : m = n
    · subst hmn
      rw [h5.1 hb, hv]
      exact Nat.lt_succ_self _
    · rw [h1 m hmn] at hz
      rw [h4 m hmn]
      exact h.bumped m z hb (by simp [hmn, hm]) hz hst
  safe ha m z hm hz hst := by
    by_cases hmn : m = n
    · exact hmn ▸ safe ha
    · rw [h1 m hmn] at hz
      exact h.safe ha m z (by simp [hmn, hm]) hz hst

end Net

end Adaptite

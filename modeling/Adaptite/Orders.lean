import Adaptite.Glitches

set_option autoImplicit false

namespace Adaptite

open Unwinding

namespace Net

variable {V : Type} {net : Net V} {n m d : NodeId} {v : V} {order : NodeId → EdgeTable}

/-- The same net with other enumeration orders of the recorded dependencies. -/
def rearrange (net : Net V) (order : NodeId → EdgeTable) : Net V :=
  { net with dependencies := order }

def Order (net : Net V) (order : NodeId → EdgeTable) : Prop :=
  ∀ n, (order n).Perm (net.dependencies n)

section Rearrange

variable (ho : net.Order order)

include ho

theorem Order.mem (n : NodeId) (e : NodeId × ℕ) : e ∈ order n ↔ e ∈ net.dependencies n :=
  (ho n).mem_iff

theorem Order.back : (net.rearrange order).Order net.dependencies := fun n => (ho n).symm

theorem Sound.rearrange (h : net.Sound) : (net.rearrange order).Sound :=
  { h with
    inverse := fun o d => by
      change (∃ v, (d, v) ∈ order o) ↔ o ∈ net.dependents d
      rw [← h.inverse o d]
      exact exists_congr fun v => ho.mem o (d, v)
    below := fun o e he => h.below o e ((ho.mem o e).mp he)
    settled := fun n x hx hc e he => h.settled n x hx hc e ((ho.mem n e).mp he)
    acyclic := h.acyclic.mono fun a b hab => by
      obtain ⟨⟨v, hv⟩, ha, hb⟩ := hab
      exact ⟨⟨v, (ho.mem a _).mp hv⟩, ha, hb⟩ }

omit ho in
theorem scratch_rearrange : (net.rearrange order).Scratch n v ↔ net.Scratch n v :=
  ⟨fun h => h.code rfl fun _ x hx => ⟨x, hx, rfl⟩, fun h => h.code rfl fun _ x hx => ⟨x, hx, rfl⟩⟩

theorem Coherent.rearrange {running : List NodeId} (h : net.Coherent running) :
    (net.rearrange order).Coherent running where
  plain := h.plain
  present n e he := (h.present n e ((ho.mem n e).mp he)).code rfl fun _ x hx => ⟨x, hx⟩
  mentioned n x hx e he := h.mentioned n x hx e ((ho.mem n e).mp he)
  old n e he := h.old n e ((ho.mem n e).mp he)
  cached := h.cached
  kept n x hx hs hn := by
    obtain ⟨v, hv, hp⟩ := h.kept n x hx hs hn
    refine ⟨v, hv, hp.mono fun d u hd => ?_⟩
    obtain ⟨version, he, hd⟩ := hd
    exact ⟨version, (ho.mem n _).mpr he, hd⟩
  current n x hx hc e he := h.current n x hx hc e ((ho.mem n e).mp he)
  lent := h.lent
  seen e he := scratch_rearrange.mpr (h.seen e he)

omit ho in
theorem Asks.rearrange {p : Script V} (h : (net.rearrange order).Asks p d) : net.Asks p d := by
  induction h with
  | here n f k => exact .here n f k
  | closure n d f k u hn _ ih => exact .closure n d f k u (scratch_rearrange.mp hn) ih
  | rest n d f k u w hn hf _ ih =>
    exact .rest n d f k u w (scratch_rearrange.mp hn) (hf.mono fun _ _ => scratch_rearrange.mp) ih

omit ho in
theorem Differs.rearrange (h : (net.rearrange order).Differs n) : net.Differs n := by
  obtain ⟨x, v, hx, hv, hd⟩ := h
  exact ⟨x, v, hx, scratch_rearrange.mp hv, hd⟩

theorem Bumps.rearrange (h : (net.rearrange order).Bumps n) : net.Bumps n := by
  induction h with
  | dirty n x hx hs hd => exact .dirty n x hx hs hd.rearrange
  | outdated n x e hx hs he hv hd =>
    exact .outdated n x e hx hs ((ho.mem n e).mp he) hv hd.rearrange
  | through n x e hx hs he _ hd ih =>
    exact .through n x e hx hs ((ho.mem n e).mp he) ih hd.rearrange

theorem Consults.rearrange (h : (net.rearrange order).Consults n d) : net.Consults n d := by
  cases h with
  | verified x e hx hs he hd => exact .verified x e hx hs ((ho.mem n e).mp he) hd
  | read x hx hr hd =>
    obtain ⟨y, hy, hs⟩ := hr
    refine .read x hx ⟨y, hy, hs.imp id fun h => ⟨h.1, ?_⟩⟩ hd.rearrange
    obtain ⟨-, e, he, hm⟩ := h
    exact ⟨e, (ho.mem n e).mp he, hm.imp id (Bumps.rearrange ho)⟩

theorem Safe.rearrange (h : net.Safe n) : (net.rearrange order).Safe n := by
  induction h with
  | intro n v hv _ ih =>
    exact .intro n v (scratch_rearrange.mpr hv) fun d hd => ih d (hd.rearrange ho)

end Rearrange

end Net

namespace Pull

open Net

variable {V : Type} {net t : Net V} {layout : Layout} {n : NodeId} {mode : ReadMode} {v : V}

def Returns (layout : Layout) (net : Net V) (mode : ReadMode) (n : NodeId) (v : V) : Prop :=
  ∃ depth, (readAs layout (refreshing layout depth) n mode net).returned = some v

theorem Quiet.rearrange (h : Quiet net) {order : NodeId → EdgeTable} (ho : net.Order order) :
    Quiet (net.rearrange order) :=
  ⟨⟨h.sound.rearrange ho, h.stack⟩, h.coherent.rearrange ho, h.free⟩

theorem Quiet.readAs_of_any (h : Quiet net) (depth : ℕ) (n : NodeId) (mode : ReadMode) :
    (Pull.readAs layout (refreshing layout depth) n mode).wp
      (fun v t => Quiet t ∧ net.Since [] t ∧ net.Scratch n v ∧ (net.Adverse → net.Safe n))
      (fun _ t => Quiet t ∧ ¬ net.Safe n) True net :=
  (below_readAs layout (Nat.le_max_left depth (2 * net.nextNode + 1)) n mode).wp
    (h.readAs (Nat.lt_of_lt_of_le (Nat.lt_succ_self _) (Nat.le_max_right _ _)) n mode)

theorem Returns.scratch (hr : Returns layout net mode n v) (h : Quiet net) :
    net.Scratch n v ∧ (net.Adverse → net.Safe n) := by
  obtain ⟨depth, hr⟩ := hr
  obtain ⟨t, ht⟩ := Res.returned_eq_some.mp hr
  exact ((Act.wp_of_ok ht).mp (h.readAs_of_any depth n mode)).2.2

end Pull

namespace Net

variable {V : Type} {net : Net V} {layout : Layout} {n : NodeId}

/-- `a` reads a memo over a switch, and a thunk only while the switch is on; the thunk
panics while it is off. -/
def guarded : List (NetOp ℕ) :=
  [.signal 1 (· == ·), .memo (fun _ => .get 1 .ret) fun a b => .ok (a == b),
    .thunk (.get 1 fun on => if on = 0 then .panic 7 else .ret 10),
    .thunk (.get 2 fun on => if on = 0 then .ret 0 else .get 3 .ret),
    .read .tracked 4, .set 1 0]

end Net

end Adaptite

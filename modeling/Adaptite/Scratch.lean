import Adaptite.NetSound

set_option autoImplicit false

/-!
# Evaluation from scratch

What a node is worth by its definition: its compute is replayed over what the nodes
that it reads are worth, with no cache. A node that panics or reads itself is worth
nothing.
-/
namespace Adaptite

open Unwinding

/-- Tracked reads and panics. -/
def Ask.isPure {V : Type} : Ask V → Bool
  | .panic _ | .withValue _ => true
  | _ => false

namespace Script

variable {V : Type} {p : Script V}

def Pure (p : Script V) : Prop := p.Only fun op => Ask.isPure op = true

theorem Pure.readOnly (h : p.Pure) : p.ReadOnly := by
  induction p with
  | ret v => trivial
  | call op f k ihf ihk =>
    refine ⟨?_, fun a => ihf a (h.2.1 a), fun a => ihk a (h.2.2 a)⟩
    have hop := h.1
    cases op <;> first | rfl | cases hop

/-- The script only makes tracked reads, of nodes that it may read. -/
def Reading (may : NodeId → Prop) (p : Script V) : Prop :=
  p.Only fun op => ∃ n, op = Ask.withValue n ∧ may n

/-- The script returns `v`, given what each node that it reads is worth. -/
inductive Replays (worth : NodeId → V → Prop) : Script V → V → Prop where
  | ret (v : V) : Replays worth (.ret v) v
  | read (n : NodeId) (f k : V → Script V) (u w v : V) (hn : worth n u)
      (hf : Replays worth (f u) w) (hk : Replays worth (k w) v) :
      Replays worth (.call (.withValue n) f k) v

/-- The script reads `d`, for some answers to its earlier reads. -/
inductive Mentions : Script V → NodeId → Prop where
  | here (d : NodeId) (f k : V → Script V) : Mentions (.call (.withValue d) f k) d
  | closure (n d : NodeId) (f k : V → Script V) (u : V) (hd : Mentions (f u) d) :
      Mentions (.call (.withValue n) f k) d
  | rest (n d : NodeId) (f k : V → Script V) (w : V) (hd : Mentions (k w) d) :
      Mentions (.call (.withValue n) f k) d

variable {r r' : NodeId → V → Prop} {n : NodeId} {f k : V → Script V} {u v w : V}

theorem Replays.mono (h : Replays r p v) (hr : ∀ n v, r n v → r' n v) : Replays r' p v := by
  induction h with
  | ret v => exact .ret v
  | read n f k u w v hn _ _ ihf ihk => exact .read n f k u w v (hr n u hn) ihf ihk

theorem replays_read : Replays r (.call (.withValue n) f k) v ↔
    ∃ u w, r n u ∧ Replays r (f u) w ∧ Replays r (k w) v := by
  constructor
  · intro h
    cases h with
    | read _ _ _ u w _ hn hf hk => exact ⟨u, w, hn, hf, hk⟩
  · rintro ⟨u, w, hn, hf, hk⟩
    exact .read n f k u w v hn hf hk

theorem Replays.both (h : Replays r p v) (hw : Replays r' p w)
    (hr : ∀ n u u', r n u → r' n u' → u = u') :
    v = w ∧ Replays (fun n u => r n u ∧ r' n u) p v := by
  induction h generalizing w with
  | ret v => cases hw; exact ⟨rfl, .ret v⟩
  | read n f k u a v hn _ _ ihf ihk =>
    obtain ⟨u', a', hn', hf', hk'⟩ := replays_read.mp hw
    cases hr n u u' hn hn'
    obtain ⟨rfl, hf⟩ := ihf hf'
    obtain ⟨rfl, hk⟩ := ihk hk'
    exact ⟨rfl, .read n f k u a v ⟨hn, hn'⟩ hf hk⟩

theorem Replays.unique (h : Replays r p v) (hw : Replays r p w)
    (hr : ∀ n u u', r n u → r n u' → u = u') : v = w := (h.both hw hr).1

end Script

/-- The compute makes tracked reads and panics only, whatever its previous value, and
a comparator holds of equal values only and does not panic. -/
structure NetComputed.Pure {V : Type} (x : NetComputed V) : Prop where
  script : (x.compute none).Pure
  fixed : ∀ previous, x.compute previous = x.compute none
  total : ∀ equals, x.equals = some equals → ∀ a b, ∃ same, equals a b = .ok same
  honest : ∀ equals, x.equals = some equals → ∀ a b, equals a b = .ok true → a = b

namespace Net

variable {V : Type} {net t : Net V} {n m : NodeId} {v w : V}

def Present (net : Net V) (n : NodeId) : Prop :=
  (∃ s, net.signals n = some s) ∨ ∃ x, net.computed n = some x

def Naive (net : Net V) : ℕ → NodeId → V → Prop
  | 0, _, _ => False
  | depth + 1, n, v =>
    (∃ s, net.signals n = some s ∧ s.value = v) ∨
      net.signals n = none ∧ ∃ x, net.computed n = some x ∧
        (x.compute none).Replays (net.Naive depth) v

/-- Evaluating `n` from scratch over the current signal values yields `v`. -/
def Scratch (net : Net V) (n : NodeId) (v : V) : Prop := ∃ depth, net.Naive depth n v

theorem Naive.succ {depth : ℕ} (h : net.Naive depth n v) : net.Naive (depth + 1) n v := by
  induction depth generalizing n v with
  | zero => exact h.elim
  | succ depth ih =>
    rcases h with h | ⟨hs, x, hx, hp⟩
    · exact .inl h
    · exact .inr ⟨hs, x, hx, hp.mono fun _ _ => ih⟩

theorem Naive.deeper {depth depth' : ℕ} (h : net.Naive depth n v) (hd : depth ≤ depth') :
    net.Naive depth' n v := by
  induction hd with
  | refl => exact h
  | step _ ih => exact ih.succ

theorem Naive.unique {depth : ℕ} (h : net.Naive depth n v) (hw : net.Naive depth n w) : v = w := by
  induction depth generalizing n v w with
  | zero => exact h.elim
  | succ depth ih =>
    rcases h with ⟨s, hs, rfl⟩ | ⟨hs, x, hx, hp⟩ <;>
      rcases hw with ⟨s', hs', rfl⟩ | ⟨hs', x', hx', hp'⟩
    · rw [hs] at hs'; cases hs'; rfl
    · rw [hs] at hs'; cases hs'
    · rw [hs] at hs'; cases hs'
    · rw [hx] at hx'
      cases hx'
      exact hp.unique hp' fun _ _ _ => ih

theorem Scratch.unique (h : net.Scratch n v) (hw : net.Scratch n w) : v = w := by
  obtain ⟨d, h⟩ := h
  obtain ⟨d', hw⟩ := hw
  exact (h.deeper (Nat.le_max_left d d')).unique (hw.deeper (Nat.le_max_right d d'))

/-- A script makes finitely many reads, so one depth serves them all. -/
theorem naive_of_replays {p : Script V} (h : p.Replays net.Scratch v) :
    ∃ depth, p.Replays (net.Naive depth) v := by
  induction h with
  | ret v => exact ⟨0, .ret v⟩
  | read n f k u w v hn _ _ ihf ihk =>
    obtain ⟨d, hn⟩ := hn
    obtain ⟨d₁, hf⟩ := ihf
    obtain ⟨d₂, hk⟩ := ihk
    have h : d ≤ max d (max d₁ d₂) := Nat.le_max_left _ _
    have h₁ : d₁ ≤ max d (max d₁ d₂) := (Nat.le_max_left _ _).trans (Nat.le_max_right _ _)
    have h₂ : d₂ ≤ max d (max d₁ d₂) := (Nat.le_max_right _ _).trans (Nat.le_max_right _ _)
    exact ⟨_, .read n f k u w v (hn.deeper h) (hf.mono fun _ _ hm => hm.deeper h₁)
      (hk.mono fun _ _ hm => hm.deeper h₂)⟩

theorem scratch_signal {s : NetSignal V} (hs : net.signals n = some s) :
    net.Scratch n v ↔ s.value = v := by
  constructor
  · rintro ⟨_ | d, h⟩
    · exact h.elim
    · rcases h with ⟨s', hs', rfl⟩ | ⟨hs', -⟩
      · rw [hs] at hs'; cases hs'; rfl
      · rw [hs] at hs'; cases hs'
  · exact fun h => ⟨1, .inl ⟨s, hs, h⟩⟩

theorem scratch_computed {x : NetComputed V} (hs : net.signals n = none)
    (hx : net.computed n = some x) :
    net.Scratch n v ↔ (x.compute none).Replays net.Scratch v := by
  constructor
  · rintro ⟨_ | d, h⟩
    · exact h.elim
    · rcases h with ⟨s, hs', -⟩ | ⟨-, x', hx', hp⟩
      · rw [hs] at hs'; cases hs'
      · rw [hx] at hx'
        cases hx'
        exact hp.mono fun m u hm => ⟨d, hm⟩
  · intro h
    obtain ⟨d, hd⟩ := naive_of_replays h
    exact ⟨d + 1, .inr ⟨hs, x, hx, hd⟩⟩

theorem Scratch.present (h : net.Scratch n v) : net.Present n := by
  obtain ⟨_ | d, h⟩ := h
  · exact h.elim
  · rcases h with ⟨s, hs, -⟩ | ⟨-, x, hx, -⟩
    · exact .inl ⟨s, hs⟩
    · exact .inr ⟨x, hx⟩

/-- Evaluation looks at the values of signals and the code of computes only, and a
new node is one that nothing read before. -/
theorem Scratch.mono (h : net.Scratch n v)
    (hs : ∀ n s, net.signals n = some s → ∃ s', t.signals n = some s' ∧ s'.value = s.value)
    (hx : ∀ n x, net.signals n = none → net.computed n = some x →
      t.signals n = none ∧ ∃ y, t.computed n = some y ∧ y.compute none = x.compute none) :
    t.Scratch n v := by
  obtain ⟨depth, h⟩ := h
  induction depth generalizing n v with
  | zero => exact h.elim
  | succ depth ih =>
    rcases h with ⟨s, hn, rfl⟩ | ⟨hn, x, hc, hp⟩
    · obtain ⟨s', hs', hv⟩ := hs n s hn
      exact (scratch_signal hs').mpr hv
    · obtain ⟨hn', y, hy, hcode⟩ := hx n x hn hc
      refine (scratch_computed hn' hy).mpr ?_
      rw [hcode]
      exact hp.mono fun _ _ => ih

inductive Asks (net : Net V) : Script V → NodeId → Prop where
  | here (n : NodeId) (f k : V → Script V) : net.Asks (.call (.withValue n) f k) n
  | closure (n d : NodeId) (f k : V → Script V) (u : V) (hn : net.Scratch n u)
      (hd : net.Asks (f u) d) : net.Asks (.call (.withValue n) f k) d
  | rest (n d : NodeId) (f k : V → Script V) (u w : V) (hn : net.Scratch n u)
      (hf : (f u).Replays net.Scratch w) (hd : net.Asks (k w) d) :
      net.Asks (.call (.withValue n) f k) d

theorem asks_read {f k : V → Script V} {d : NodeId} (h : net.Asks (.call (.withValue n) f k) d) :
    d = n ∨ ∃ u, net.Scratch n u ∧
      (net.Asks (f u) d ∨ ∃ w, (f u).Replays net.Scratch w ∧ net.Asks (k w) d) := by
  cases h with
  | here => exact .inl rfl
  | closure _ _ _ _ u hn hd => exact .inr ⟨u, hn, .inl hd⟩
  | rest _ _ _ _ u w hn hf hd => exact .inr ⟨u, hn, .inr ⟨w, hf, hd⟩⟩

end Net

end Adaptite

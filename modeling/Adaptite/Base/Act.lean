import Mathlib.Logic.Basic
import Mathlib.Tactic.Common

set_option autoImplicit false

/-!
# Stateful computations that may unwind

An `Act` takes a state and returns, unwinds with a payload, or is cut off by
its caller (`stuck`: no fuel left, or an ill-formed request). Both exits carry
the state they leave behind. `wp` is the weakest precondition of the two exits;
its third argument says whether being cut off is tolerated, so that one set of
rules serves partial correctness (`True`) and total correctness (`False`).
-/
namespace Unwinding

inductive Res (σ ε α : Type) where
  | ok (value : α) (state : σ)
  | panic (payload : ε) (state : σ)
  | stuck

namespace Res

variable {σ ε α : Type}

def returned : Res σ ε α → Option α
  | ok a _ => some a
  | _ => none

def raised : Res σ ε α → Option ε
  | panic e _ => some e
  | _ => none

theorem returned_eq_some {r : Res σ ε α} {a : α} : r.returned = some a ↔ ∃ s, r = ok a s := by
  cases r <;> simp [returned]

end Res

def Act (σ ε α : Type) : Type := σ → Res σ ε α

namespace Act

variable {σ ε α β : Type}

def pure (a : α) : Act σ ε α := fun s => .ok a s

def bind (x : Act σ ε α) (f : α → Act σ ε β) : Act σ ε β := fun s =>
  match x s with
  | .ok a t => f a t
  | .panic e t => .panic e t
  | .stuck => .stuck

instance : Monad (Act σ ε) where
  pure := Act.pure
  bind := Act.bind

def raise (e : ε) : Act σ ε α := fun s => .panic e s
def stop : Act σ ε α := fun _ => .stuck
def get : Act σ ε σ := fun s => .ok s s
def gets (f : σ → α) : Act σ ε α := fun s => .ok (f s) s
def modify (f : σ → σ) : Act σ ε Unit := fun s => .ok () (f s)

/-- A drop guard: `g` runs on both exits of `x`, and its own unwinding wins. -/
def guarded (x : Act σ ε α) (g : Act σ ε Unit) : Act σ ε α := fun s =>
  match x s with
  | .ok a t => (Act.bind g fun _ => Act.pure a) t
  | .panic e t => (Act.bind g fun _ => Act.raise e) t
  | .stuck => .stuck

/-- A drop guard that only acts on the unwinding exit. -/
def onUnwind (x : Act σ ε α) (g : Act σ ε Unit) : Act σ ε α := fun s =>
  match x s with
  | .ok a t => .ok a t
  | .panic e t => (Act.bind g fun _ => Act.raise e) t
  | .stuck => .stuck

/-- `catch_unwind`. -/
def attempt (x : Act σ ε α) : Act σ ε (Except ε α) := fun s =>
  match x s with
  | .ok a t => .ok (.ok a) t
  | .panic e t => .ok (.error e) t
  | .stuck => .stuck

def wp (x : Act σ ε α) (Q : α → σ → Prop) (E : ε → σ → Prop) (d : Prop) (s : σ) : Prop :=
  match x s with
  | .ok a t => Q a t
  | .panic e t => E e t
  | .stuck => d

variable {x : Act σ ε α} {f : α → Act σ ε β} {Q Q' : α → σ → Prop} {R : β → σ → Prop}
  {E E' : ε → σ → Prop} {d d' : Prop} {s t : σ}

theorem wp_mono (h : x.wp Q E d s) (hq : ∀ a t, Q a t → Q' a t)
    (he : ∀ e t, E e t → E' e t) (hd : d → d') : x.wp Q' E' d' s := by
  unfold wp at h ⊢
  cases hx : x s with
  | ok a t => simp only [hx] at h ⊢; exact hq a t h
  | panic e t => simp only [hx] at h ⊢; exact he e t h
  | stuck => simp only [hx] at h ⊢; exact hd h

theorem wp_of_ok {a : α} (h : x s = .ok a t) : x.wp Q E d s ↔ Q a t := by
  unfold wp
  rw [h]

theorem wp_post (h : x.wp Q E d s) (hq : ∀ a t, Q a t → Q' a t) : x.wp Q' E d s :=
  wp_mono h hq (fun _ _ he => he) id

theorem wp_of_ne_panic (h : x.wp Q E d s) (hn : ∀ e t, x s ≠ .panic e t) :
    x.wp Q (fun _ _ => False) d s := by
  unfold wp at h ⊢
  cases hx : x s with
  | ok a t => rw [hx] at h; exact h
  | panic e t => exact hn e t hx
  | stuck => rw [hx] at h; exact h

theorem wp_and (h : x.wp Q E d s) (h' : x.wp Q' E' d s) :
    x.wp (fun a t => Q a t ∧ Q' a t) (fun e t => E e t ∧ E' e t) d s := by
  unfold wp at h h' ⊢
  cases hx : x s <;> simp_all

theorem wp_true (d : Prop) (hd : d) : x.wp (fun _ _ => True) (fun _ _ => True) d s := by
  unfold wp
  cases hx : x s <;> simp_all

@[simp] theorem wp_pure (a : α) : (Pure.pure a : Act σ ε α).wp Q E d s ↔ Q a s := Iff.rfl

@[simp] theorem wp_get {Q : σ → σ → Prop} : (get : Act σ ε σ).wp Q E d s ↔ Q s s := Iff.rfl

@[simp] theorem wp_modify {Q : Unit → σ → Prop} (g : σ → σ) :
    (modify g : Act σ ε Unit).wp Q E d s ↔ Q () (g s) := Iff.rfl

@[simp] theorem wp_bind :
    (x >>= f).wp R E d s ↔ x.wp (fun a t => (f a).wp R E d t) E d s := by
  change (Act.bind x f).wp R E d s ↔ _
  unfold wp Act.bind
  cases x s <;> rfl

@[simp] theorem wp_guarded {g : Act σ ε Unit} :
    (x.guarded g).wp Q E d s ↔
      x.wp (fun a t => g.wp (fun _ u => Q a u) E d t)
        (fun e t => g.wp (fun _ u => E e u) E d t) d s := by
  unfold wp guarded
  cases x s with
  | ok a t => simp only [Act.bind, Act.pure]; cases g t <;> rfl
  | panic e t => simp only [Act.bind, raise]; cases g t <;> rfl
  | stuck => rfl

@[simp] theorem wp_onUnwind {g : Act σ ε Unit} :
    (x.onUnwind g).wp Q E d s ↔ x.wp Q (fun e t => g.wp (fun _ u => E e u) E d t) d s := by
  unfold wp onUnwind
  cases x s with
  | ok a t => rfl
  | panic e t => simp only [Act.bind, raise]; cases g t <;> rfl
  | stuck => rfl

@[simp] theorem wp_attempt {Q : Except ε α → σ → Prop} :
    x.attempt.wp Q E d s ↔ x.wp (fun a t => Q (.ok a) t) (fun e t => Q (.error e) t) d s := by
  unfold wp attempt
  cases x s <;> rfl

section Exits

variable {a : α} {b : β} {e : ε} {u : σ} {g : σ → σ}

theorem get_bind (k : σ → Act σ ε α) : ((get : Act σ ε σ) >>= k) s = k s s := rfl

theorem bind_of_ok (h : x s = .ok a t) : (x >>= f) s = f a t := by
  change Act.bind x f s = _
  unfold Act.bind
  rw [h]

theorem bind_of_panic (h : x s = .panic e t) : (x >>= f) s = .panic e t := by
  change Act.bind x f s = _
  unfold Act.bind
  rw [h]

theorem bind_eq_panic : (x >>= f) s = .panic e u ↔
    x s = .panic e u ∨ ∃ a t, x s = .ok a t ∧ f a t = .panic e u := by
  change Act.bind x f s = _ ↔ _
  unfold Act.bind
  cases hx : x s <;> simp

theorem guarded_modify_eq_ok : x.guarded (modify g) s = .ok a u ↔ ∃ t, x s = .ok a t ∧ u = g t := by
  unfold guarded
  cases hx : x s with
  | ok a' t' =>
    change Res.ok a' (g t') = _ ↔ _
    simp [and_assoc, eq_comm]
  | panic e' t' =>
    change Res.panic e' (g t') = _ ↔ _
    simp
  | stuck => simp

theorem guarded_modify_eq_panic :
    x.guarded (modify g) s = .panic e u ↔ ∃ t, x s = .panic e t ∧ u = g t := by
  unfold guarded
  cases hx : x s with
  | ok a' t' =>
    change Res.ok a' (g t') = _ ↔ _
    simp
  | panic e' t' =>
    change Res.panic e' (g t') = _ ↔ _
    simp [and_assoc, eq_comm]
  | stuck => simp

end Exits

/-- Wherever `x` comes to an end, `y` does the same. -/
def Below (x y : Act σ ε α) : Prop := ∀ s, x s = .stuck ∨ x s = y s

section Below

variable {y : Act σ ε α} {f' : α → Act σ ε β}

theorem Below.refl (x : Act σ ε α) : Below x x := fun _ => .inr rfl

theorem Below.stop (y : Act σ ε α) : Below stop y := fun _ => .inl rfl

theorem Below.bind (hx : Below x y) (hf : ∀ a, Below (f a) (f' a)) :
    Below (x >>= f) (y >>= f') := by
  intro s
  change Act.bind x f s = .stuck ∨ Act.bind x f s = Act.bind y f' s
  unfold Act.bind
  rcases hx s with hs | hs
  · exact .inl (by rw [hs])
  · rw [hs]
    cases y s with
    | ok a t => exact hf a t
    | panic e t => exact .inr rfl
    | stuck => exact .inl rfl

theorem Below.guarded (hx : Below x y) (g : Act σ ε Unit) :
    Below (x.guarded g) (y.guarded g) := by
  intro s
  unfold Act.guarded
  rcases hx s with hs | hs
  · exact .inl (by rw [hs])
  · exact .inr (by rw [hs])

theorem Below.onUnwind (hx : Below x y) (g : Act σ ε Unit) :
    Below (x.onUnwind g) (y.onUnwind g) := by
  intro s
  unfold Act.onUnwind
  rcases hx s with hs | hs
  · exact .inl (by rw [hs])
  · exact .inr (by rw [hs])

theorem Below.attempt (hx : Below x y) : Below x.attempt y.attempt := by
  intro s
  unfold Act.attempt
  rcases hx s with hs | hs
  · exact .inl (by rw [hs])
  · exact .inr (by rw [hs])

theorem Below.wp (h : Below x y) (hy : y.wp Q E d s) : x.wp Q E True s := by
  unfold Act.wp at hy ⊢
  rcases h s with hs | hs
  · rw [hs]
    trivial
  · rw [hs]
    cases hr : y s <;> simp_all

theorem Below.get {k k' : σ → Act σ ε α} (h : ∀ s, k s s = .stuck ∨ k s s = k' s s) :
    Below (Act.get >>= k) (Act.get >>= k') := h

end Below

def sequence (l : List β) (f : β → Act σ ε Unit) : Act σ ε Unit :=
  match l with
  | [] => Pure.pure ()
  | b :: l => f b >>= fun _ => sequence l f

@[simp] theorem sequence_cons (b : β) (l : List β) (f : β → Act σ ε Unit) :
    sequence (b :: l) f = (f b >>= fun _ => sequence l f) := rfl

/-- Both exits of `x` from `s` are related to `s₀` by `T`. -/
def MovesFrom (T : σ → σ → Prop) (s₀ : σ) (x : Act σ ε α) (s : σ) : Prop :=
  x.wp (fun _ t => T s₀ t) (fun _ t => T s₀ t) True s

abbrev MovesAt (T : σ → σ → Prop) (x : Act σ ε α) (s : σ) : Prop := MovesFrom T s x s

def Moves (T : σ → σ → Prop) (x : Act σ ε α) : Prop := ∀ s, MovesAt T x s

section Moves

variable {T : σ → σ → Prop} {s₀ s : σ}

theorem MovesFrom.mono {T' : σ → σ → Prop} {s₁ : σ} (h : MovesFrom T s₀ x s)
    (ht : ∀ t, T s₀ t → T' s₁ t) : MovesFrom T' s₁ x s :=
  wp_mono h (fun _ => ht) (fun _ => ht) id

theorem MovesFrom.after (ht : ∀ a b c, T a b → T b c → T a c) (h : T s₀ s)
    (hx : MovesAt T x s) : MovesFrom T s₀ x s :=
  wp_mono hx (fun _ _ hst => ht _ _ _ h hst) (fun _ _ hst => ht _ _ _ h hst) id

theorem MovesFrom.bind (ht : ∀ a b c, T a b → T b c → T a c) (hx : MovesFrom T s₀ x s)
    (hf : ∀ a t, T s₀ t → MovesAt T (f a) t) : MovesFrom T s₀ (x >>= f) s := by
  unfold MovesFrom
  rw [wp_bind]
  exact wp_post hx fun a t hst => MovesFrom.after ht hst (hf a t hst)

theorem MovesFrom.bind_of (ht : ∀ a b c, T a b → T b c → T a c) (hx : MovesFrom T s₀ x s)
    (hf : ∀ a t, x s = .ok a t → T s₀ t → MovesAt T (f a) t) : MovesFrom T s₀ (x >>= f) s := by
  unfold MovesFrom at hx ⊢
  rw [wp_bind]
  unfold wp at hx ⊢
  cases hr : x s with
  | ok a t =>
    rw [hr] at hx
    exact MovesFrom.after ht hx (hf a t hr hx)
  | panic e t => rw [hr] at hx; exact hx
  | stuck => trivial

theorem MovesFrom.bind' (hx : MovesFrom T s₀ x s) (hf : ∀ a t, T s₀ t → MovesFrom T s₀ (f a) t) :
    MovesFrom T s₀ (x >>= f) s := by
  unfold MovesFrom
  rw [wp_bind]
  exact wp_post hx hf

/-- After reading the state, the rest runs from the state that was read. -/
theorem MovesFrom.get_bind {f : σ → Act σ ε β} (h : MovesFrom T s₀ (f s) s) :
    MovesFrom T s₀ (get >>= f) s := h

theorem MovesFrom.stop : MovesFrom T s₀ (stop : Act σ ε α) s := trivial

theorem MovesFrom.modify {g : σ → σ} (h : T s₀ (g s)) :
    MovesFrom T s₀ (modify g : Act σ ε Unit) s := h

theorem MovesFrom.pure (h : T s₀ s) (a : α) : MovesFrom T s₀ (Pure.pure a : Act σ ε α) s := h

theorem MovesFrom.raise (h : T s₀ s) (e : ε) : MovesFrom T s₀ (raise e : Act σ ε α) s := h

theorem MovesFrom.modify_bind (ht : ∀ a b c, T a b → T b c → T a c) {g : σ → σ}
    {f : Unit → Act σ ε β} (h : T s₀ (g s)) (hf : MovesAt T (f ()) (g s)) :
    MovesFrom T s₀ (Act.modify g >>= f) s := .after (s := g s) ht h hf

theorem MovesFrom.after_modify {g : σ → σ} {f : Unit → Act σ ε β}
    (hf : MovesFrom T s₀ (f ()) (g s)) : MovesFrom T s₀ (Act.modify g >>= f) s := hf

theorem MovesFrom.guarded (ht : ∀ a b c, T a b → T b c → T a c) {g : Act σ ε Unit}
    (hx : MovesFrom T s₀ x s) (hg : ∀ t, T s₀ t → MovesAt T g t) :
    MovesFrom T s₀ (x.guarded g) s := by
  unfold MovesFrom
  rw [wp_guarded]
  exact wp_mono hx (fun _ t hst => MovesFrom.after ht hst (hg t hst))
    (fun _ t hst => MovesFrom.after ht hst (hg t hst)) id

/-- A change that is taken back on both exits, so that only the whole is related. -/
theorem MovesFrom.bracket {g : σ → σ} {x : Act σ ε α} {k : Act σ ε Unit} (hx : MovesAt T x (g s))
    (hk : ∀ t, T (g s) t → MovesFrom T s₀ k t) :
    MovesFrom T s₀ (Act.modify g >>= fun _ => x.guarded k) s := by
  unfold MovesFrom
  rw [wp_bind, wp_modify, wp_guarded]
  exact wp_mono hx (fun _ t => hk t) (fun _ t => hk t) id

/-- What one change opens another closes, as far as `view` shows the state. -/
theorem MovesFrom.bracket_view {τ : Type} {view : σ → τ} {g k : σ → σ} {opened closed : τ → τ}
    (hg : view (g s) = opened (view s)) (hk : ∀ t, view (k t) = closed (view t))
    (hc : closed (opened (view s)) = view s)
    (hx : MovesAt (fun a b => view b = view a) x (g s)) :
    MovesAt (fun a b => view b = view a)
      (Act.modify g >>= fun _ => x.guarded (Act.modify k)) s := by
  refine .bracket hx fun t ht => .modify ?_
  rw [hk, ht, hg, hc]

theorem MovesFrom.onUnwind (ht : ∀ a b c, T a b → T b c → T a c) {g : Act σ ε Unit}
    (hx : MovesFrom T s₀ x s) (hg : ∀ t, T s₀ t → MovesAt T g t) :
    MovesFrom T s₀ (x.onUnwind g) s := by
  unfold MovesFrom
  rw [wp_onUnwind]
  exact wp_mono hx (fun _ _ h => h) (fun _ t hst => MovesFrom.after ht hst (hg t hst)) id

theorem MovesFrom.attempt (hx : MovesFrom T s₀ x s) : MovesFrom T s₀ x.attempt s := by
  unfold MovesFrom
  rw [wp_attempt]
  exact hx

theorem Moves.bind (ht : ∀ a b c, T a b → T b c → T a c) (hx : Moves T x)
    (hf : ∀ a, Moves T (f a)) : Moves T (x >>= f) :=
  fun s => (hx s).bind ht fun a t _ => hf a t

theorem Moves.pure (hr : ∀ a, T a a) (a : α) : Moves T (Pure.pure a : Act σ ε α) :=
  fun s => hr s

theorem Moves.sequence (hr : ∀ a, T a a) (ht : ∀ a b c, T a b → T b c → T a c) (l : List β)
    (f : β → Act σ ε Unit) (h : ∀ b ∈ l, Moves T (f b)) : Moves T (sequence l f) := by
  induction l with
  | nil => exact Moves.pure hr ()
  | cons b l ih =>
    rw [sequence_cons]
    exact Moves.bind ht (h b (by simp)) fun _ => ih fun c hc => h c (by simp [hc])

/-- What holds of the state an exit leaves, if `T` carries it there. -/
theorem MovesFrom.ok {a : α} {t : σ} (h : MovesFrom T s₀ x s) (hx : x s = .ok a t) : T s₀ t := by
  unfold MovesFrom wp at h
  rw [hx] at h
  exact h

theorem MovesFrom.panic {e : ε} {t : σ} (h : MovesFrom T s₀ x s) (hx : x s = .panic e t) :
    T s₀ t := by
  unfold MovesFrom wp at h
  rw [hx] at h
  exact h

end Moves

end Act

end Unwinding

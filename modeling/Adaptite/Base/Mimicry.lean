import Adaptite.Base.Act
import Adaptite.Base.Runs

set_option autoImplicit false

/-!
# Computations that a machine mimics

`Mimics` compares a computation with a machine that takes one step at a time: wherever the
computation comes to an end, some run of the machine does, in a state that fits. One rule for
each way to compose computations.
-/
namespace Runs

open Unwinding

variable {σ τ ι ε α β : Type} {step : τ → ι → Option τ} {admits : τ → ι → Prop} {u v : τ}
  {x : Act σ ε α} {f : α → Act σ ε β} {g : σ → σ} {s : σ} {Q Q' : α → σ → τ → Prop}
  {R : β → σ → τ → Prop} {E E' : ε → σ → τ → Prop}

/-- Where `x` returns from `s`, a run from `u` leads to a state that `Q` allows, and where it
unwinds, to one that `E` allows. -/
def Mimics (step : τ → ι → Option τ) (admits : τ → ι → Prop) (u : τ) (x : Act σ ε α)
    (Q : α → σ → τ → Prop) (E : ε → σ → τ → Prop) (s : σ) : Prop :=
  x.wp (fun a t => ∃ v, Reaches step admits u v ∧ Q a t v)
    (fun e t => ∃ v, Reaches step admits u v ∧ E e t v) True s

namespace Mimics

theorem returns {a : α} {t : σ} (h : Mimics step admits u x Q E s) (hx : x s = .ok a t) :
    ∃ v, Reaches step admits u v ∧ Q a t v := by
  unfold Mimics Act.wp at h
  rw [hx] at h
  exact h

theorem unwinds {e : ε} {t : σ} (h : Mimics step admits u x Q E s) (hx : x s = .panic e t) :
    ∃ v, Reaches step admits u v ∧ E e t v := by
  unfold Mimics Act.wp at h
  rw [hx] at h
  exact h

theorem pure {a : α} (h : Q a s u) : Mimics step admits u (Pure.pure a : Act σ ε α) Q E s :=
  ⟨u, .init, h⟩

theorem raise {e : ε} (h : E e s u) : Mimics step admits u (Act.raise e : Act σ ε α) Q E s :=
  ⟨u, .init, h⟩

theorem stop : Mimics step admits u (Act.stop : Act σ ε α) Q E s := True.intro

theorem extend (h : Mimics step admits u x Q E s)
    (hq : ∀ a t v, Q a t v → ∃ w, Reaches step admits v w ∧ Q' a t w)
    (he : ∀ e t v, E e t v → ∃ w, Reaches step admits v w ∧ E' e t w) :
    Mimics step admits u x Q' E' s := by
  refine Act.wp_mono h (fun a t h => ?_) (fun e t h => ?_) id
  · obtain ⟨v, hr, h⟩ := h
    obtain ⟨w, hw, h⟩ := hq a t v h
    exact ⟨w, hr.trans hw, h⟩
  · obtain ⟨v, hr, h⟩ := h
    obtain ⟨w, hw, h⟩ := he e t v h
    exact ⟨w, hr.trans hw, h⟩

theorem mono (h : Mimics step admits u x Q E s) (hq : ∀ a t v, Q a t v → Q' a t v)
    (he : ∀ e t v, E e t v → E' e t v) : Mimics step admits u x Q' E' s :=
  h.extend (fun a t v h => ⟨v, .init, hq a t v h⟩) fun e t v h => ⟨v, .init, he e t v h⟩

theorem after (h : Mimics step admits v x Q E s) (hr : Reaches step admits u v) :
    Mimics step admits u x Q E s := by
  refine Act.wp_mono h (fun a t h => ?_) (fun e t h => ?_) id
  · obtain ⟨w, hw, h⟩ := h
    exact ⟨w, hr.trans hw, h⟩
  · obtain ⟨w, hw, h⟩ := h
    exact ⟨w, hr.trans hw, h⟩

theorem bind (h : Mimics step admits u x (fun a t v => Mimics step admits v (f a) R E t) E s) :
    Mimics step admits u (x >>= f) R E s := by
  unfold Mimics
  rw [Act.wp_bind]
  refine Act.wp_post h fun a t h => ?_
  obtain ⟨v, hr, h⟩ := h
  exact h.after hr

theorem get {k : σ → Act σ ε α} (h : Mimics step admits u (k s) Q E s) :
    Mimics step admits u (Act.get >>= k) Q E s := h

theorem modify {k : Unit → Act σ ε α} (h : Mimics step admits u (k ()) Q E (g s)) :
    Mimics step admits u (Act.modify g >>= k) Q E s := h

theorem modified {Q : Unit → σ → τ → Prop} (h : Q () (g s) u) :
    Mimics step admits u (Act.modify g : Act σ ε Unit) Q E s :=
  ⟨u, .init, h⟩

theorem guarded (h : Mimics step admits u x
      (fun a t v => ∃ w, Reaches step admits v w ∧ Q a (g t) w)
      (fun e t v => ∃ w, Reaches step admits v w ∧ E e (g t) w) s) :
    Mimics step admits u (x.guarded (Act.modify g)) Q E s := by
  unfold Mimics
  rw [Act.wp_guarded]
  refine Act.wp_mono h (fun a t h => ?_) (fun e t h => ?_) id
  · obtain ⟨v, hr, w, hw, h⟩ := h
    exact ⟨w, hr.trans hw, h⟩
  · obtain ⟨v, hr, w, hw, h⟩ := h
    exact ⟨w, hr.trans hw, h⟩

theorem onUnwind (h : Mimics step admits u x Q
      (fun e t v => ∃ w, Reaches step admits v w ∧ E e (g t) w) s) :
    Mimics step admits u (x.onUnwind (Act.modify g)) Q E s := by
  unfold Mimics
  rw [Act.wp_onUnwind]
  refine Act.wp_mono h (fun a t h => h) (fun e t h => ?_) id
  obtain ⟨v, hr, w, hw, h⟩ := h
  exact ⟨w, hr.trans hw, h⟩

theorem attempt {Q : Except ε α → σ → τ → Prop}
    (h : Mimics step admits u x (fun a t v => Q (.ok a) t v)
      (fun e t v => ∃ w, Reaches step admits v w ∧ Q (.error e) t w) s) :
    Mimics step admits u x.attempt Q E s := by
  unfold Mimics
  rw [Act.wp_attempt]
  refine Act.wp_mono h (fun a t h => h) (fun e t h => ?_) id
  obtain ⟨v, hr, w, hw, h⟩ := h
  exact ⟨w, hr.trans hw, h⟩

end Mimics

end Runs

import Adaptite.Base.Act

set_option autoImplicit false

/-!
# Computations that follow another one

`Shadows` compares two computations from related states. Unless the second unwinds with a
panic that `escapes`, the first ends in the same way, and in a related state.
-/
namespace Unwinding

namespace Act

variable {σ ε α β : Type} {escapes : ε → Prop} {R R' : σ → σ → Prop} {x y : Act σ ε α}
  {f g : α → Act σ ε β} {k l : σ → σ} {s t : σ}

def Shadows (escapes : ε → Prop) (R : σ → σ → Prop) (x y : Act σ ε α) (s t : σ) : Prop :=
  y.wp (fun a v => ∃ u, x s = .ok a u ∧ R u v)
    (fun e v => escapes e ∨ ∃ u, x s = .panic e u ∧ R u v) (x s = .stuck) t

namespace Shadows

theorem pure (h : R s t) (a : α) : Shadows escapes R (Pure.pure a : Act σ ε α) (Pure.pure a) s t :=
  ⟨s, rfl, h⟩

theorem raise (h : R s t) (e : ε) :
    Shadows escapes R (Act.raise e : Act σ ε α) (Act.raise e) s t :=
  .inr ⟨s, rfl, h⟩

/-- What the first computation does before such a panic does not matter. -/
theorem escape {e : ε} (h : escapes e) : Shadows escapes R x (Act.raise e) s t := .inl h

theorem stop : Shadows escapes R (Act.stop : Act σ ε α) Act.stop s t := rfl

theorem modify (h : R (k s) (l t)) :
    Shadows escapes R (Act.modify k : Act σ ε Unit) (Act.modify l) s t :=
  ⟨k s, rfl, h⟩

theorem bind (h : Shadows escapes R x y s t)
    (hf : ∀ a u v, R u v → Shadows escapes R' (f a) (g a) u v) (hr : ∀ u v, R u v → R' u v) :
    Shadows escapes R' (x >>= f) (y >>= g) s t := by
  unfold Shadows
  rw [wp_bind]
  refine wp_mono h ?_ ?_ ?_
  · rintro a v ⟨u, hx, hu⟩
    rw [bind_of_ok hx]
    exact hf a u v hu
  · rintro e v (he | ⟨u, hx, hu⟩)
    · exact .inl he
    · exact .inr ⟨u, bind_of_panic hx, hr u v hu⟩
  · intro hx
    change Act.bind x f s = .stuck
    unfold Act.bind
    rw [hx]

theorem get_bind {f g : σ → Act σ ε β} (h : Shadows escapes R (f s) (g t) s t) :
    Shadows escapes R (Act.get >>= f) (Act.get >>= g) s t := h

theorem modify_bind {f g : Unit → Act σ ε β} (h : Shadows escapes R (f ()) (g ()) (k s) (l t)) :
    Shadows escapes R (Act.modify k >>= f) (Act.modify l >>= g) s t := h

theorem guarded (h : Shadows escapes R x y s t) (hr : ∀ u v, R u v → R' (k u) (l v)) :
    Shadows escapes R' (x.guarded (Act.modify k)) (y.guarded (Act.modify l)) s t := by
  unfold Shadows
  rw [wp_guarded]
  refine wp_mono h ?_ ?_ ?_
  · rintro a v ⟨u, hx, hu⟩
    exact ⟨k u, guarded_modify_eq_ok.mpr ⟨u, hx, rfl⟩, hr u v hu⟩
  · rintro e v (he | ⟨u, hx, hu⟩)
    · exact .inl he
    · exact .inr ⟨k u, guarded_modify_eq_panic.mpr ⟨u, hx, rfl⟩, hr u v hu⟩
  · intro hx
    unfold Act.guarded
    rw [hx]

theorem onUnwind (h : Shadows escapes R x y s t) (hr : ∀ u v, R u v → R (k u) (l v)) :
    Shadows escapes R (x.onUnwind (Act.modify k)) (y.onUnwind (Act.modify l)) s t := by
  unfold Shadows
  rw [wp_onUnwind]
  refine wp_mono h ?_ ?_ ?_
  · rintro a v ⟨u, hx, hu⟩
    refine ⟨u, ?_, hu⟩
    unfold Act.onUnwind
    rw [hx]
  · rintro e v (he | ⟨u, hx, hu⟩)
    · exact .inl he
    · refine .inr ⟨k u, ?_, hr u v hu⟩
      unfold Act.onUnwind
      rw [hx]
      rfl
  · intro hx
    unfold Act.onUnwind
    rw [hx]

theorem wp {Q : α → σ → Prop} {E : ε → σ → Prop} {d : Prop} (h : Shadows escapes R x y s t)
    (hx : x.wp Q E d s) : y.wp (fun a v => ∃ u, Q a u ∧ R u v)
      (fun e v => escapes e ∨ ∃ u, E e u ∧ R u v) d t := by
  unfold Act.wp at hx
  refine wp_mono h ?_ ?_ ?_
  · rintro a v ⟨u, hu, hr⟩
    rw [hu] at hx
    exact ⟨u, hx, hr⟩
  · rintro e v (he | ⟨u, hu, hr⟩)
    · exact .inl he
    · rw [hu] at hx
      exact .inr ⟨u, hx, hr⟩
  · intro hs
    rw [hs] at hx
    exact hx

end Shadows

end Act

end Unwinding

import Adaptite.Base.Program

set_option autoImplicit false

/-!
# Computations that a part of the state does not influence

A projection `π` of the state keeps what an observer can see. Two computations agree
if, from states that look alike, they end alike: both return the same value, or unwind
with the same payload, in states that look alike, or both are cut off. A computation
that agrees with itself is not influenced by what `π` hides.
-/
namespace Unwinding

namespace Res

variable {σ τ ε α : Type}

def mapState (f : σ → τ) : Res σ ε α → Res τ ε α
  | ok a s => ok a (f s)
  | panic e s => panic e (f s)
  | stuck => stuck

end Res

namespace Act

variable {σ τ ε α β γ : Type}

def Agree (π : σ → τ) (x y : Act σ ε α) : Prop :=
  ∀ s t, π s = π t → (x s).mapState π = (y t).mapState π

variable {π : σ → τ} {x y z : Act σ ε α}

theorem Agree.symm (h : Agree π x y) : Agree π y x :=
  fun s t hst => (h t s hst.symm).symm

theorem Agree.trans (h : Agree π x y) (h' : Agree π y z) : Agree π x z :=
  fun s t hst => (h s s rfl).trans (h' s t hst)

theorem Agree.pure (a : α) : Agree π (Pure.pure a : Act σ ε α) (Pure.pure a) := by
  intro s t hst
  exact congrArg (Res.ok a) hst

theorem Agree.raise (e : ε) : Agree π (raise e : Act σ ε α) (raise e) := by
  intro s t hst
  exact congrArg (Res.panic e) hst

theorem Agree.stop : Agree π (stop : Act σ ε α) stop := fun _ _ _ => rfl

theorem Agree.gets {f g : σ → α} (h : ∀ s t, π s = π t → f s = g t) :
    Agree π (gets f : Act σ ε α) (gets g) := by
  intro s t hst
  exact congrArg₂ Res.ok (h s t hst) hst

theorem Agree.modify {f g : σ → σ} (h : ∀ s t, π s = π t → π (f s) = π (g t)) :
    Agree π (modify f : Act σ ε Unit) (modify g) := by
  intro s t hst
  exact congrArg (Res.ok ()) (h s t hst)

theorem Agree.cases (h : Agree π x y) {s t : σ} (hst : π s = π t) :
    (∃ a u v, x s = .ok a u ∧ y t = .ok a v ∧ π u = π v) ∨
    (∃ e u v, x s = .panic e u ∧ y t = .panic e v ∧ π u = π v) ∨
    (x s = .stuck ∧ y t = .stuck) := by
  have hends := h s t hst
  cases hx : x s <;> cases hy : y t <;> simp_all [Res.mapState]

theorem Agree.bind {f g : α → Act σ ε β} (h : Agree π x y) (hf : ∀ a, Agree π (f a) (g a)) :
    Agree π (x >>= f) (y >>= g) := by
  intro s t hst
  change (Act.bind x f s).mapState π = (Act.bind y g t).mapState π
  unfold Act.bind
  rcases h.cases hst with ⟨a, u, v, hx, hy, huv⟩ | ⟨e, u, v, hx, hy, huv⟩ | ⟨hx, hy⟩
  · rw [hx, hy]
    exact hf a u v huv
  · rw [hx, hy]
    exact congrArg (Res.panic e) huv
  · rw [hx, hy]

theorem Agree.guarded {g g' : Act σ ε Unit} (h : Agree π x y) (hg : Agree π g g') :
    Agree π (x.guarded g) (y.guarded g') := by
  intro s t hst
  unfold Act.guarded
  rcases h.cases hst with ⟨a, u, v, hx, hy, huv⟩ | ⟨e, u, v, hx, hy, huv⟩ | ⟨hx, hy⟩
  · rw [hx, hy]
    exact hg.bind (fun _ => .pure a) u v huv
  · rw [hx, hy]
    exact hg.bind (fun _ => .raise e) u v huv
  · rw [hx, hy]

theorem Agree.onUnwind {g g' : Act σ ε Unit} (h : Agree π x y) (hg : Agree π g g') :
    Agree π (x.onUnwind g) (y.onUnwind g') := by
  intro s t hst
  unfold Act.onUnwind
  rcases h.cases hst with ⟨a, u, v, hx, hy, huv⟩ | ⟨e, u, v, hx, hy, huv⟩ | ⟨hx, hy⟩
  · rw [hx, hy]
    exact congrArg (Res.ok a) huv
  · rw [hx, hy]
    exact hg.bind (fun _ => .raise e) u v huv
  · rw [hx, hy]

theorem Agree.attempt (h : Agree π x y) : Agree π x.attempt y.attempt := by
  intro s t hst
  unfold Act.attempt
  rcases h.cases hst with ⟨a, u, v, hx, hy, huv⟩ | ⟨e, u, v, hx, hy, huv⟩ | ⟨hx, hy⟩
  · rw [hx, hy]
    exact congrArg (Res.ok (Except.ok a)) huv
  · rw [hx, hy]
    exact congrArg (Res.ok (Except.error e)) huv
  · rw [hx, hy]

/-- Even what is hidden may be asked for, if the answer makes no difference. -/
theorem Agree.ask {f g : σ → γ} {k l : γ → Act σ ε α} (h : ∀ a b, Agree π (k a) (l b)) :
    Agree π (Act.gets f >>= k) (Act.gets g >>= l) :=
  fun s t hst => h (f s) (g t) s t hst

theorem Agree.skip {f : σ → σ} (h : ∀ s, π (f s) = π s) :
    Agree π (Act.modify f : Act σ ε Unit) (Pure.pure ()) := by
  intro s t hst
  exact congrArg (Res.ok ()) ((h s).trans hst)

theorem Agree.skip_bind {f : σ → σ} {k : Unit → Act σ ε α} (h : ∀ s, π (f s) = π s)
    (hk : Agree π (k ()) y) : Agree π (Act.modify f >>= k) y :=
  (Agree.skip h).bind (g := fun _ => y) fun _ => hk

theorem Agree.gets_bind {f : σ → γ} {k : γ → Act σ ε α} (hk : ∀ a, Agree π (k a) y) :
    Agree π (Act.gets f >>= k) y := fun s t hst => hk (f s) s t hst

theorem Agree.onUnwind_skip {f : σ → σ} (hx : Agree π x y) (h : ∀ s, π (f s) = π s) :
    Agree π (x.onUnwind (Act.modify f)) y := by
  intro s t hst
  unfold Act.onUnwind
  rcases hx.cases hst with ⟨a, u, v, hx, hy, huv⟩ | ⟨e, u, v, hx, hy, huv⟩ | ⟨hx, hy⟩
  · rw [hx, hy]
    exact congrArg (Res.ok a) huv
  · rw [hx, hy]
    exact congrArg (Res.panic e) ((h u).trans huv)
  · rw [hx, hy]

theorem Agree.guarded_skip {f : σ → σ} (hx : Agree π x y) (h : ∀ s, π (f s) = π s) :
    Agree π (x.guarded (Act.modify f)) y := by
  intro s t hst
  unfold Act.guarded
  rcases hx.cases hst with ⟨a, u, v, hx, hy, huv⟩ | ⟨e, u, v, hx, hy, huv⟩ | ⟨hx, hy⟩
  · rw [hx, hy]
    exact congrArg (Res.ok a) ((h u).trans huv)
  · rw [hx, hy]
    exact congrArg (Res.panic e) ((h u).trans huv)
  · rw [hx, hy]

theorem Agree.sequence {f g : β → Act σ ε Unit} (h : ∀ b, Agree π (f b) (g b)) (l : List β) :
    Agree π (sequence l f) (sequence l g) := by
  induction l with
  | nil => exact .pure ()
  | cons b l ih =>
    rw [sequence_cons, sequence_cons]
    exact (h b).bind fun _ => ih

end Act

/-- A program over agreeing operations. -/
theorem Program.agree_run {S : Signature} {R σ τ ε : Type} {π : σ → τ}
    {perform perform' : (op : S.Op) → (S.Closure op → Program S R) → Act σ ε (S.Answer op)}
    (h : ∀ op f, Act.Agree π (perform op f) (perform' op f)) (p : Program S R) :
    Act.Agree π (p.run perform) (p.run perform') := by
  induction p with
  | ret r => exact .pure r
  | call op f k _ ih => exact (h op f).bind ih

end Unwinding

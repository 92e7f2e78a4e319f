import Adaptite.Base.Act

set_option autoImplicit false

/-!
# Programs over a library

A program calls operations of a library, hands them closures (programs again)
and goes on with their answers. `Program.run` interprets it, given what each
operation does.
-/
namespace Unwinding

structure Signature where
  Op : Type
  Closure : Op → Type
  Answer : Op → Type

inductive Program (S : Signature) (R : Type) : Type where
  | ret (result : R)
  | call (op : S.Op) (closures : S.Closure op → Program S R) (k : S.Answer op → Program S R)

namespace Program

variable {S : Signature} {R σ ε : Type}

def run (perform : (op : S.Op) → (S.Closure op → Program S R) → Act σ ε (S.Answer op)) :
    Program S R → Act σ ε R
  | ret r => Pure.pure r
  | call op closures k => perform op closures >>= fun a => run perform (k a)

variable {perform : (op : S.Op) → (S.Closure op → Program S R) → Act σ ε (S.Answer op)}

/-- What every operation keeps, every program keeps. -/
theorem moves_run {T : σ → σ → Prop} (hr : ∀ a, T a a) (ht : ∀ a b c, T a b → T b c → T a c)
    (h : ∀ op f, Act.Moves T (perform op f)) (p : Program S R) : Act.Moves T (p.run perform) := by
  induction p with
  | ret r => exact Act.Moves.pure hr r
  | call op f k _ ih => exact Act.Moves.bind ht (h op f) ih

/-- The interpretation of a program whose operations call their closures by
interpretation as well, as part of the same call. -/
def interp (perform : (op : S.Op) → (S.Closure op → Act σ ε R) → Act σ ε (S.Answer op)) :
    Program S R → Act σ ε R
  | ret r => Pure.pure r
  | call op closures k =>
    perform op (fun a => interp perform (closures a)) >>= fun a => interp perform (k a)

/-- Every operation of the program, its closures included, is allowed. -/
def Only (allowed : S.Op → Prop) : Program S R → Prop
  | ret _ => True
  | call op closures k => allowed op ∧ (∀ a, (closures a).Only allowed) ∧ ∀ a, (k a).Only allowed

theorem Only.mono {allowed allowed' : S.Op → Prop} {p : Program S R} (hp : p.Only allowed)
    (h : ∀ op, allowed op → allowed' op) : p.Only allowed' := by
  induction p with
  | ret r => trivial
  | call op f k ihf ihk => exact ⟨h op hp.1, fun a => ihf a (hp.2.1 a), fun a => ihk a (hp.2.2 a)⟩

/-- The rule of `interp`: what the operations keep, given that their closures keep
it, a program of allowed operations keeps. -/
theorem wp_interp {perform : (op : S.Op) → (S.Closure op → Act σ ε R) → Act σ ε (S.Answer op)}
    {allowed : S.Op → Prop} {I : σ → Prop} {T : σ → σ → Prop} {E : ε → σ → Prop} {d : Prop}
    (hr : ∀ s, I s → T s s) (ht : ∀ s t u, T s t → T t u → T s u)
    (h : ∀ op f, allowed op →
      (∀ a s, I s → (f a).wp (fun _ t => I t ∧ T s t) (fun e t => I t ∧ T s t ∧ E e t) d s) →
      ∀ s, I s → (perform op f).wp (fun _ t => I t ∧ T s t)
        (fun e t => I t ∧ T s t ∧ E e t) d s)
    (p : Program S R) (hp : p.Only allowed) (s : σ) (hs : I s) :
    (p.interp perform).wp (fun _ t => I t ∧ T s t) (fun e t => I t ∧ T s t ∧ E e t) d s := by
  induction p generalizing s with
  | ret r => exact ⟨hs, hr s hs⟩
  | call op f k ihf ihk =>
    obtain ⟨ho, hf, hk⟩ := hp
    unfold interp
    rw [Act.wp_bind]
    refine Act.wp_post (h op _ ho (fun a t ht => ihf a (hf a) t ht) s hs) fun a t hst => ?_
    exact Act.wp_mono (ihk a (hk a) t hst.1) (fun _ u hu => ⟨hu.1, ht s t u hst.2 hu.2⟩)
      (fun _ u hu => ⟨hu.1, ht s t u hst.2 hu.2.1, hu.2.2⟩) id

theorem below_interp
    {perform perform' : (op : S.Op) → (S.Closure op → Act σ ε R) → Act σ ε (S.Answer op)}
    (h : ∀ op f f', (∀ a, Act.Below (f a) (f' a)) → Act.Below (perform op f) (perform' op f'))
    (p : Program S R) : Act.Below (p.interp perform) (p.interp perform') := by
  induction p with
  | ret r => exact .refl _
  | call op f k ihf ihk => exact (h op _ _ ihf).bind ihk

end Program

end Unwinding

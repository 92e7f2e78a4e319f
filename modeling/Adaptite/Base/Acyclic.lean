import Mathlib.Data.Set.Finite.Basic
import Mathlib.Logic.Relation
import Mathlib.Order.WellFounded

set_option autoImplicit false

namespace Relation

variable {α : Type} {r s : α → α → Prop} {a b x y : α}

def Acyclic (r : α → α → Prop) : Prop := ∀ a, ¬ TransGen r a a

theorem Acyclic.mono (h : Acyclic r) (hs : ∀ a b, s a b → r a b) : Acyclic s :=
  fun a ha => h a (TransGen.mono hs _ _ ha)

/-- A path in the larger relation either avoids the new edge, or starts and ends
outside it. -/
theorem path_of_added (hs : ∀ a b, s a b → r a b ∨ a = x ∧ b = y) (h : TransGen s a b) :
    TransGen r a b ∨ ReflTransGen r a x ∧ ReflTransGen r y b := by
  induction h with
  | single h =>
    rcases hs _ _ h with h | ⟨rfl, rfl⟩
    · exact .inl (.single h)
    · exact .inr ⟨.refl, .refl⟩
  | tail _ h ih =>
    rcases ih with hab | ⟨hax, hyb⟩ <;> rcases hs _ _ h with hr | ⟨rfl, rfl⟩
    · exact .inl (hab.tail hr)
    · exact .inr ⟨hab.to_reflTransGen, .refl⟩
    · exact .inr ⟨hax, hyb.tail hr⟩
    · exact .inr ⟨hax, .refl⟩

theorem Acyclic.add (h : Acyclic r) (hs : ∀ a b, s a b → r a b ∨ a = x ∧ b = y)
    (back : ¬ ReflTransGen r y x) : Acyclic s := by
  intro a ha
  rcases path_of_added hs ha with hr | ⟨hax, hya⟩
  · exact h a hr
  · exact back (hya.trans hax)

theorem Acyclic.sink (h : Acyclic r) (hs : ∀ a b, s a b → b = x ∨ r a b)
    (sink : ∀ b, ¬ s x b) : Acyclic s := by
  have key : ∀ a b, TransGen s a b → b = x ∨ TransGen r a b := by
    intro a b hab
    induction hab with
    | single h => exact (hs _ _ h).imp id .single
    | tail _ h ih =>
      rcases ih with rfl | hab
      · exact absurd h (sink _)
      · exact (hs _ _ h).imp id hab.tail
  intro a ha
  rcases key a a ha with rfl | hr
  · obtain ⟨b, hab, -⟩ := TransGen.head'_iff.mp ha
    exact sink b hab
  · exact h a hr

/-- Without cycles among finitely many points, one may argue from what comes next. -/
theorem Acyclic.wellFounded (h : Acyclic r) {s : Set α} (finite : s.Finite)
    (hr : ∀ a b, r a b → a ∈ s ∧ b ∈ s) : WellFounded fun b a => r a b := by
  have := finite.to_subtype
  let path : s → s → Prop := fun b a => TransGen r a b
  have trans : IsTrans s path := ⟨fun _ _ _ hab hbc => hbc.trans hab⟩
  have irrefl : Std.Irrefl path := ⟨fun a => h a⟩
  have wf := Finite.wellFounded_of_trans_of_irrefl path
  refine ⟨fun a => ⟨a, fun b hab => ?_⟩⟩
  have hb : ∀ b : s, Acc (fun b a => r a b) b.1 := fun b => by
    induction b using wf.induction with
    | _ b ih => exact ⟨_, fun c hbc => ih ⟨c, (hr _ _ hbc).2⟩ (.single hbc)⟩
  exact hb ⟨b, (hr _ _ hab).2⟩

end Relation

import Mathlib.Logic.Basic

set_option autoImplicit false

/-!
# Runs of a labelled step function

`Reaches` closes the initial states under steps that are enabled and whose label
is admitted in the state it is taken from. A property kept by every admitted
step holds in every state reached.
-/
namespace Runs

variable {σ ι : Type}

/-- `step s i = none` where the step is not enabled. -/
inductive Reaches (step : σ → ι → Option σ) (admits : σ → ι → Prop) (init : σ) : σ → Prop where
  | init : Reaches step admits init init
  | next {s t : σ} (i : ι) (before : Reaches step admits init s) (ok : admits s i)
      (h : step s i = some t) : Reaches step admits init t

theorem Reaches.invariant {step : σ → ι → Option σ} {admits : σ → ι → Prop} {init : σ}
    (P : σ → Prop) (base : P init)
    (keep : ∀ s i t, P s → admits s i → step s i = some t → P t) {s : σ}
    (h : Reaches step admits init s) : P s := by
  induction h with
  | init => exact base
  | next i _ ok hs ih => exact keep _ i _ ih ok hs

theorem Reaches.trans {step : σ → ι → Option σ} {admits : σ → ι → Prop} {init s t : σ}
    (h : Reaches step admits init s) (h' : Reaches step admits s t) :
    Reaches step admits init t := by
  induction h' with
  | init => exact h
  | next i _ ok hs ih => exact .next i ih ok hs

theorem Reaches.single {step : σ → ι → Option σ} {admits : σ → ι → Prop} {s t : σ} {i : ι}
    (ok : admits s i) (h : step s i = some t) : Reaches step admits s t := .next i .init ok h

theorem Reaches.weaken {step : σ → ι → Option σ} {admits admits' : σ → ι → Prop} {s t : σ}
    (h : Reaches step admits s t) (hw : ∀ s i, admits s i → admits' s i) :
    Reaches step admits' s t := by
  induction h with
  | init => exact .init
  | next i _ ok hs ih => exact .next i ih (hw _ i ok) hs

def run (step : σ → ι → Option σ) : σ → List ι → Option σ
  | s, [] => some s
  | s, i :: l =>
    match step s i with
    | none => none
    | some t => run step t l

/-- Every step of a run is admitted, by a test that can be computed. -/
def admitted (step : σ → ι → Option σ) (admits : σ → ι → Bool) : σ → List ι → Bool
  | _, [] => true
  | s, i :: l =>
    admits s i && match step s i with
      | none => true
      | some t => admitted step admits t l

theorem Reaches.run {step : σ → ι → Option σ} {init s t : σ} (admits : σ → ι → Bool)
    (l : List ι) (h : Reaches step (fun s i => admits s i = true) init s)
    (ha : admitted step admits s l = true) (hl : Runs.run step s l = some t) :
    Reaches step (fun s i => admits s i = true) init t := by
  induction l generalizing s with
  | nil => cases hl; exact h
  | cons i l ih =>
    unfold Runs.run at hl
    unfold admitted at ha
    rw [Bool.and_eq_true] at ha
    cases hs : step s i with
    | none => simp [hs] at hl
    | some u =>
      simp only [hs] at hl ha
      exact ih (h.next i ha.1 hs) ha.2 hl

/-- Where the given steps lead, if they can all be taken. -/
def after (step : σ → ι → Option σ) (s : σ) (l : List ι) : σ := (run step s l).getD s

theorem Reaches.after {step : σ → ι → Option σ} {init s : σ} (admits : σ → ι → Bool)
    (l : List ι) (h : Reaches step (fun s i => admits s i = true) init s)
    (ha : admitted step admits s l = true) (hl : (Runs.run step s l).isSome = true) :
    Reaches step (fun s i => admits s i = true) init (Runs.after step s l) := by
  obtain ⟨t, ht⟩ := Option.isSome_iff_exists.mp hl
  have hafter : Runs.after step s l = t := by
    unfold Runs.after
    rw [ht]
    rfl
  rw [hafter]
  exact h.run admits l ha ht

theorem admitted_true {step : σ → ι → Option σ} (s : σ) (l : List ι) :
    admitted step (fun _ _ => true) s l = true := by
  induction l generalizing s with
  | nil => rfl
  | cons i l ih =>
    unfold admitted
    cases step s i with
    | none => rfl
    | some t => exact ih t

theorem step_after {step : σ → ι → Option σ} {s : σ} {i : ι}
    (h : (Runs.run step s [i]).isSome = true) : step s i = some (after step s [i]) := by
  unfold after
  unfold run at *
  cases hs : step s i with
  | none => simp [hs] at h
  | some t => rfl

end Runs

import Adaptite.OwnerHost

set_option autoImplicit false

namespace Adaptite

namespace OwnerCall

variable {P : Type}

def isEntry : OwnerCall P → Bool
  | cleaning _ | disposing _ | releasing _ => true
  | _ => false

def isTearing : OwnerCall P → Bool
  | tearing _ _ _ _ _ => true
  | _ => false

def isPlain : OwnerCall P → Bool
  | tearing _ _ _ _ _ | dropping _ => false
  | _ => true

end OwnerCall

namespace OwnerHost

open OwnerCall

variable {P : Type} {s t : OwnerHost P} {op : OwnerStep P}

def spills (s : OwnerHost P) (op : OwnerStep P) : Bool :=
  match op, s.calls with
  | .unwind, .releasing _ :: _ => s.unwinding.isSome
  | _, _ => false

def resets (s : OwnerHost P) (f : FrameId) (op : OwnerStep P) : Bool :=
  match op with
  | .reset g => g = f
  | .dispose g | .drop g => g = f && (s.frames f).any fun x => !x.disposed
  | .proceed =>
    match s.calls with
    | .verifying g :: _ => g = f
    | _ => false
  | _ => false

/-- A call may be made where the code is in control, but a drop of a frame only where nobody
uses it, and a run of an effect only where none is in progress. -/
inductive Pushes (s : OwnerHost P) : OwnerCall P → Option P → Prop where
  | verifying (f : FrameId) (x : OwnerFrameState) (hf : s.frames f = some x)
      (he : x.effect = true) (hw : s.calls.any (isWindow f) = false) (hu : s.unwinding = none) :
      Pushes s (.verifying f) none
  | destructor (p : P) (hu : s.unwinding = some p) : Pushes s (.destructor p) none
  | dropping (f : FrameId) (x : OwnerFrameState) (hf : s.frames f = some x)
      (hx : x.disposed = true) (hd : x.effect = true → s.discarded f = true)
      (hn : s.calls.any (uses f) = false) (hu : s.unwinding = none) : Pushes s (.dropping f) none

/-- Where a teardown begins: on top of the running code, after the last reference to the frame
was dropped, or in the window of a run. -/
inductive Opens (s : OwnerHost P) (f : FrameId) (x y : OwnerFrameState) :
    List (OwnerCall P) → OwnershipStats → Prop where
  | reset (hc : s.inCode = true) (he : x.effect = false) (hy : y = x) :
      Opens s f x y s.calls s.stats
  | dispose (hc : s.inCode = true) (hx : x.disposed = false)
      (hd : x.effect = true → s.discarded f = true) (hy : y = { x with disposed := true }) :
      Opens s f x y s.calls s.stats.ownerDisposed
  | drop (hc : s.inCode = true) (hx : x.disposed = false)
      (hd : x.effect = true → s.discarded f = true) (hy : y = { x with disposed := true })
      (hn : s.calls.any (uses f) = false) :
      Opens s f x y (.dropping f :: s.calls) s.stats.ownerDisposed
  | proceed (rest : List (OwnerCall P)) (hs : s.calls = .verifying f :: rest)
      (hd : s.discarded f = false) (hy : y = x) : Opens s f x y (.resetting f :: rest) s.stats

inductive Turn (s t : OwnerHost P) : Prop where
  | marked (unwinding : Option P) (gone : ℕ → Bool) (discarded : FrameId → Bool)
      (hu : unwinding = s.unwinding ∨ unwinding = none ∨ s.inCode = true)
      (hg : ∀ c, s.gone c = true → gone c = true)
      (hd : ∀ f, s.discarded f = true → discarded f = true)
      (ht : t = { s with unwinding, gone, discarded })
  | pushed (call : OwnerCall P) (unwinding : Option P) (hc : s.inCode = true)
      (hp : s.Pushes call unwinding) (ht : t = { s with calls := call :: s.calls, unwinding })
  | popped (call : OwnerCall P) (rest : List (OwnerCall P)) (unwinding : Option P)
      (hs : s.calls = call :: rest) (hp : call.isPlain = true)
      (hu : unwinding = none ∨ call.isEntry = false ∨ ∀ g ∈ rest.head?, g.isTearing = false)
      (ht : t = { s with calls := rest, unwinding })
  | swapped (c : ℕ) (rest : List (OwnerCall P)) (hs : s.calls = .disposing c :: rest)
      (ht : t = { s with calls := .releasing c :: rest })
  | spilled (c : ℕ) (rest : List (OwnerCall P)) (hs : s.calls = .releasing c :: rest)
      (hu : s.unwinding.isSome = true) (ht : t = { s with calls := rest })
  | abandoned (f : FrameId) (r : ℕ) (cleanups children : List ℕ) (first : Option P)
      (rest : List (OwnerCall P)) (hs : s.calls = .tearing f r cleanups children first :: rest)
      (hu : s.unwinding.isSome = true) (ht : t = { s with calls := rest })
  | created (effect : Bool) (ht : t = s.create effect)
  | adopted (f : FrameId) (x : OwnerFrameState) (hc : s.calling = true)
      (hf : s.frames f = some x) (ht : t = s.adopt f x)
  | added (f : FrameId) (x : OwnerFrameState) (hc : s.calling = true)
      (hf : s.frames f = some x) (ht : t = s.addCleanup f x)
  | taken (f : FrameId) (x y : OwnerFrameState) (calls : List (OwnerCall P))
      (stats : OwnershipStats) (hf : s.frames f = some x) (ho : s.Opens f x y calls stats)
      (hu : s.unwinding = none) (ht : t = ({ s with calls, stats } : OwnerHost P).reset f y)
  | cleaned (f : FrameId) (r c : ℕ) (cleanups children : List ℕ) (first : Option P)
      (rest : List (OwnerCall P)) (hs : s.calls = .tearing f r (c :: cleanups) children first :: rest)
      (hu : s.unwinding = none)
      (ht : t = { s with
        calls := .cleaning c :: .tearing f r cleanups children first :: rest
        ran := c :: s.ran
        done := Function.update s.done r (.cleanup c :: s.done r) })
  | disposed (f : FrameId) (r c : ℕ) (children : List ℕ) (first : Option P)
      (rest : List (OwnerCall P)) (hs : s.calls = .tearing f r [] (c :: children) first :: rest)
      (hu : s.unwinding = none)
      (ht : t = { s with
        calls := .disposing c :: .tearing f r [] children first :: rest
        attempted := c :: s.attempted
        done := Function.update s.done r (.child c :: s.done r) })
  | ended (f : FrameId) (r : ℕ) (first : Option P) (rest : List (OwnerCall P))
      (hs : s.calls = .tearing f r [] [] first :: rest) (hu : s.unwinding = none)
      (ht : t = { s with calls := rest, unwinding := if panicking rest then none else first })
  | caught (entry : OwnerCall P) (above : List (OwnerCall P)) (f : FrameId) (r : ℕ)
      (cleanups children : List ℕ) (first : Option P) (rest : List (OwnerCall P)) (p : P)
      (hs : s.calls = entry :: .tearing f r cleanups children first :: rest)
      (he : entry.isEntry = true)
      (ha : above = [] ∨ ∃ c, entry = .disposing c ∧ above = [.releasing c])
      (hu : s.unwinding = some p)
      (ht : t = { s with
        calls := above ++ .tearing f r cleanups children (first.or (some p)) :: rest
        unwinding := none
        panics := Function.update s.panics r (p :: s.panics r) })
  | entered (f : FrameId) (rest : List (OwnerCall P)) (hs : s.calls = .resetting f :: rest)
      (hd : s.discarded f = false) (hu : s.unwinding = none)
      (ht : t = { s with
        calls := .running f (s.executions f + 1) :: rest
        executions := Function.update s.executions f (s.executions f + 1) })
  | vanished (f : FrameId) (rest : List (OwnerCall P)) (hs : s.calls = .dropping f :: rest)
      (ht : t = ({ s with calls := rest } : OwnerHost P).vanish f)

theorem unwinding_of_calling (h : s.calling = true) : s.unwinding = none ∧ s.inCode = true := by
  unfold calling at h
  rw [Bool.and_eq_true, Option.isNone_iff_eq_none] at h
  exact h

section Functions

theorem discarded_of_guard {f : FrameId} {x : OwnerFrameState} (he : ¬ (x.effect && !s.discarded f) = true) :
    x.effect = true → s.discarded f = true := by
  intro hx
  by_contra hne
  exact he (by rw [hx, Bool.eq_false_iff.mpr hne]; rfl)

theorem turn_finish (hu : s.unwinding = none) (ht : s.finish = some t) : Turn s t := by
  unfold finish at ht
  split at ht
  · rename_i c rest hs
    cases ht
    exact .swapped c rest hs rfl
  · rename_i p rest hs
    cases ht
    exact .popped (.destructor p) rest (some p) hs rfl (.inr (.inl rfl)) rfl
  · cases ht
  · cases ht
  · cases ht
  · cases ht
  · rename_i call rest _ _ hr htear hdrop hs
    cases ht
    have hplain : call.isPlain = true := by
      cases call with
      | tearing f r cs ch first => exact absurd rfl (htear f r cs ch first)
      | dropping f => exact absurd rfl (hdrop f)
      | _ => rfl
    refine .popped call rest none hs hplain (.inl rfl) ?_
    rw [← hu]

theorem turn_proceed (hu : s.unwinding = none) (ht : s.proceed = some t) : Turn s t := by
  unfold proceed at ht
  split at ht
  · rename_i f rest hs
    split at ht
    · cases ht
    · rename_i hd
      obtain ⟨x, hx, rfl⟩ := Option.map_eq_some_iff.mp ht
      exact .taken f x x _ _ hx (.proceed rest hs (Bool.eq_false_iff.mpr hd) rfl) hu rfl
  · cases ht

theorem turn_next (hu : s.unwinding = none) (ht : s.next = some t) : Turn s t := by
  unfold next at ht
  split at ht
  · rename_i f r c cleanups children first rest hs
    cases ht
    exact .cleaned f r c cleanups children first rest hs hu rfl
  · rename_i f r c children first rest hs
    cases ht
    exact .disposed f r c children first rest hs hu rfl
  · rename_i f r first rest hs
    cases ht
    exact .ended f r first rest hs hu rfl
  · rename_i f rest hs
    split at ht
    · cases ht
      refine .popped (.resetting f) rest none hs rfl (.inl rfl) ?_
      rw [← hu]
    · rename_i hd
      cases ht
      exact .entered f rest hs (Bool.eq_false_iff.mpr hd) hu rfl
  · rename_i f rest hs
    cases ht
    exact .vanished f rest hs rfl
  · cases ht

/-- Where no loop is next on the stack, a panic goes on. -/
theorem capture_eq (s : OwnerHost P) (p : P) (calls : List (OwnerCall P)) :
    (∃ f r cleanups children first rest, calls = .tearing f r cleanups children first :: rest ∧
      s.capture p calls = { s with
        calls := .tearing f r cleanups children (first.or (some p)) :: rest
        unwinding := none
        panics := Function.update s.panics r (p :: s.panics r) }) ∨
      (∀ g ∈ calls.head?, g.isTearing = false) ∧ s.capture p calls = { s with calls } := by
  unfold capture
  split
  · rename_i f r cleanups children first rest
    exact .inl ⟨f, r, cleanups, children, first, rest, rfl, rfl⟩
  · rename_i hn
    refine .inr ⟨fun g hg => ?_, rfl⟩
    cases calls with
    | nil => cases hg
    | cons call rest =>
      cases hg
      cases g with
      | tearing f r cs ch first => exact absurd rfl (hn f r cs ch first rest)
      | _ => rfl

theorem turn_unwind {p : P} (hu : s.unwinding = some p) (ht : s.unwind p = some t) : Turn s t := by
  have hsome : s.unwinding.isSome = true := by rw [hu]; rfl
  unfold unwind at ht
  split at ht
  · cases ht
  · cases ht
  · rename_i c rest hs
    cases ht
    rcases capture_eq s p rest with ⟨f, r, cs, ch, first, rest', rfl, heq⟩ | ⟨hn, heq⟩
    · exact .caught (.cleaning c) [] f r cs ch first rest' p hs rfl (.inl rfl) hu heq
    · exact .popped (.cleaning c) rest s.unwinding hs rfl (.inr (.inr hn)) heq
  · rename_i c rest hs
    cases ht
    rcases capture_eq s p rest with ⟨f, r, cs, ch, first, rest', rfl, heq⟩ | ⟨hn, heq⟩
    · refine .caught (.disposing c) [.releasing c] f r cs ch first rest' p hs rfl
        (.inr ⟨c, rfl, rfl⟩) hu ?_
      rw [heq]
      rfl
    · refine .swapped c rest hs ?_
      rw [heq]
  · rename_i f rest hs
    cases ht
    exact .vanished f rest hs rfl
  · rename_i call rest _ hc hd hdrop hs
    cases ht
    cases call with
    | tearing f r cs ch first => exact .abandoned f r cs ch first rest hs hsome rfl
    | dropping f => exact absurd rfl (hdrop f)
    | releasing c => exact .spilled c rest hs hsome rfl
    | cleaning c => exact absurd rfl (hc c)
    | disposing c => exact absurd rfl (hd c)
    | _ => exact .popped _ rest s.unwinding hs rfl (.inr (.inl rfl)) rfl

end Functions

/-- Only a panic that leaves the innermost call makes the stack shorter while it is on its
way. -/
theorem spills_of_spilled {c : ℕ} {rest : List (OwnerCall P)} (ht : s.step op = some t)
    (hs : s.calls = .releasing c :: rest) (hu : s.unwinding.isSome = true)
    (hc : t.calls = rest) : s.spills op = true := by
  have hcalling : s.calling ≠ true := by
    intro h
    rw [(unwinding_of_calling h).1] at hu
    cases hu
  have hnone : s.unwinding.isNone ≠ true := by
    intro h
    rw [Option.isNone_iff_eq_none.mp h] at hu
    cases hu
  have hlonger : ∀ calls : List (OwnerCall P), rest.length < calls.length → t.calls = calls →
      False := by
    intro calls hlt heq
    rw [← heq, hc] at hlt
    exact Nat.lt_irrefl _ hlt
  have hlen : rest.length < s.calls.length := by
    rw [hs]
    exact Nat.lt_succ_self _
  cases op with
  | unwind =>
    unfold spills
    rw [hs]
    exact hu
  | catchUnwind =>
    simp only [step] at ht
    split at ht
    · cases ht
      exact (hlonger s.calls hlen rfl).elim
    · cases ht
  | destructor =>
    simp only [step] at ht
    split at ht
    · obtain ⟨p, -, rfl⟩ := Option.map_eq_some_iff.mp ht
      exact (hlonger (.destructor p :: s.calls) (Nat.lt_succ_of_lt hlen) rfl).elim
    · cases ht
  | drop f =>
    simp only [step] at ht
    rw [if_neg (by rw [Bool.and_eq_true]; exact fun h => hcalling h.1)] at ht
    cases ht
  | finish | proceed | next =>
    simp only [step] at ht
    rw [if_neg hnone] at ht
    cases ht
  | _ =>
    simp only [step] at ht
    rw [if_neg hcalling] at ht
    cases ht

/-- Every step is one of these. -/
theorem turn_step (ht : s.step op = some t) : Turn s t := by
  have hsame : Turn s s := .marked s.unwinding s.gone s.discarded (.inl rfl) (fun _ => id)
    (fun _ => id) rfl
  cases op with
  | create effect =>
    simp only [step] at ht
    split at ht
    · cases ht
      exact .created effect rfl
    · cases ht
  | adopt f =>
    simp only [step] at ht
    split at ht
    · rename_i hc
      obtain ⟨x, hx, rfl⟩ := Option.map_eq_some_iff.mp ht
      exact .adopted f x hc hx rfl
    · cases ht
  | addCleanup f =>
    simp only [step] at ht
    split at ht
    · rename_i hc
      obtain ⟨x, hx, rfl⟩ := Option.map_eq_some_iff.mp ht
      exact .added f x hc hx rfl
    · cases ht
  | reset f =>
    simp only [step] at ht
    split at ht
    · rename_i hc
      obtain ⟨hu, hcode⟩ := unwinding_of_calling hc
      obtain ⟨x, hx, ht⟩ := Option.bind_eq_some_iff.mp ht
      split at ht
      · cases ht
      · rename_i he
        cases ht
        exact .taken f x x s.calls s.stats hx (.reset hcode (Bool.eq_false_iff.mpr he) rfl) hu rfl
    · cases ht
  | dispose f =>
    simp only [step] at ht
    split at ht
    · rename_i hc
      obtain ⟨hu, hcode⟩ := unwinding_of_calling hc
      obtain ⟨x, hx, ht⟩ := Option.bind_eq_some_iff.mp ht
      split at ht
      · cases ht
      · rename_i he
        cases ht
        have hd := discarded_of_guard he
        unfold OwnerHost.dispose
        split
        · exact hsame
        · rename_i hdis
          exact .taken f x { x with disposed := true } s.calls s.stats.ownerDisposed hx
            (.dispose hcode (Bool.eq_false_iff.mpr hdis) hd rfl) hu rfl
    · cases ht
  | drop f =>
    simp only [step] at ht
    split at ht
    · rename_i hc
      rw [Bool.and_eq_true, Bool.not_eq_true'] at hc
      obtain ⟨hu, hcode⟩ := unwinding_of_calling hc.1
      obtain ⟨x, hx, ht⟩ := Option.bind_eq_some_iff.mp ht
      split at ht
      · cases ht
      · rename_i he
        cases ht
        have hd := discarded_of_guard he
        unfold OwnerHost.dispose
        split
        · rename_i hdis
          refine .pushed (.dropping f) none hcode (.dropping f x hx hdis hd hc.2 hu) ?_
          unfold push
          rw [← hu]
        · rename_i hdis
          exact .taken f x { x with disposed := true } (.dropping f :: s.calls)
            s.stats.ownerDisposed hx (.drop hcode (Bool.eq_false_iff.mpr hdis) hd rfl hc.2) hu rfl
    · cases ht
  | discardEffect f =>
    simp only [step] at ht
    split at ht
    · cases ht
      refine .marked s.unwinding s.gone _ (.inl rfl) (fun _ => id) (fun g hg => ?_) rfl
      by_cases hgf : g = f
      · rw [hgf, Function.update_self]
      · rw [Function.update_of_ne hgf]
        exact hg
    · cases ht
  | discardChild c =>
    simp only [step] at ht
    split at ht
    · cases ht
      refine .marked s.unwinding _ s.discarded (.inl rfl) (fun d hd => ?_) (fun _ => id) rfl
      by_cases hdc : d = c
      · rw [hdc, Function.update_self]
      · rw [Function.update_of_ne hdc]
        exact hd
    · cases ht
  | run f =>
    simp only [step] at ht
    split at ht
    · rename_i hc
      obtain ⟨hu, hcode⟩ := unwinding_of_calling hc
      obtain ⟨x, hx, ht⟩ := Option.bind_eq_some_iff.mp ht
      split at ht
      · rename_i he
        cases ht
        unfold OwnerHost.run
        split
        · exact hsame
        · rename_i hw
          rw [Bool.or_eq_true, not_or] at hw
          refine .pushed (.verifying f) none hcode
            (.verifying f x hx he (Bool.eq_false_iff.mpr hw.2) hu) ?_
          unfold push
          rw [← hu]
      · cases ht
    · cases ht
  | panic p =>
    simp only [step] at ht
    split at ht
    · rename_i hc
      cases ht
      exact .marked (some p) s.gone s.discarded (.inr (.inr (unwinding_of_calling hc).2))
        (fun _ => id) (fun _ => id) rfl
    · cases ht
  | finish =>
    simp only [step] at ht
    split at ht
    · rename_i hu
      exact turn_finish (Option.isNone_iff_eq_none.mp hu) ht
    · cases ht
  | proceed =>
    simp only [step] at ht
    split at ht
    · rename_i hu
      exact turn_proceed (Option.isNone_iff_eq_none.mp hu) ht
    · cases ht
  | next =>
    simp only [step] at ht
    split at ht
    · rename_i hu
      exact turn_next (Option.isNone_iff_eq_none.mp hu) ht
    · cases ht
  | catchUnwind =>
    simp only [step] at ht
    split at ht
    · cases ht
      exact .marked none s.gone s.discarded (.inr (.inl rfl)) (fun _ => id) (fun _ => id) rfl
    · cases ht
  | unwind =>
    simp only [step] at ht
    obtain ⟨p, hp, ht⟩ := Option.bind_eq_some_iff.mp ht
    exact turn_unwind hp ht
  | destructor =>
    simp only [step] at ht
    split at ht
    · rename_i hc
      obtain ⟨p, hp, rfl⟩ := Option.map_eq_some_iff.mp ht
      exact .pushed (.destructor p) none hc (.destructor p hp) rfl
    · cases ht

section Resets

variable {f : FrameId}

theorem opens_of_any {x : OwnerFrameState} (hx : s.frames f = some x)
    (hd : (s.frames f).any (fun x => !x.disposed) = true) : x.disposed = false := by
  rw [hx] at hd
  exact Bool.not_eq_true' x.disposed ▸ hd

theorem resets_step (ht : s.step op = some t) (hr : s.resets f op = true) :
    ∃ (x y : OwnerFrameState) (calls : List (OwnerCall P)) (stats : OwnershipStats),
      s.frames f = some x ∧ s.Opens f x y calls stats ∧
        t = ({ s with calls, stats } : OwnerHost P).reset f y := by
  unfold resets at hr
  split at hr
  · rename_i g
    cases of_decide_eq_true hr
    simp only [step] at ht
    split at ht
    · rename_i hc
      obtain ⟨x, hx, ht⟩ := Option.bind_eq_some_iff.mp ht
      split at ht
      · cases ht
      · rename_i he
        cases ht
        exact ⟨x, x, s.calls, s.stats, hx,
          .reset (unwinding_of_calling hc).2 (Bool.eq_false_iff.mpr he) rfl, rfl⟩
    · cases ht
  · rename_i g
    rw [Bool.and_eq_true] at hr
    cases of_decide_eq_true hr.1
    simp only [step] at ht
    split at ht
    · rename_i hc
      obtain ⟨x, hx, ht⟩ := Option.bind_eq_some_iff.mp ht
      split at ht
      · cases ht
      · rename_i he
        cases ht
        have hdis := opens_of_any hx hr.2
        unfold OwnerHost.dispose
        rw [if_neg (by rw [hdis]; exact Bool.false_ne_true)]
        exact ⟨x, _, s.calls, s.stats.ownerDisposed, hx,
          .dispose (unwinding_of_calling hc).2 hdis (discarded_of_guard he) rfl, rfl⟩
    · cases ht
  · rename_i g
    rw [Bool.and_eq_true] at hr
    cases of_decide_eq_true hr.1
    simp only [step] at ht
    split at ht
    · rename_i hc
      rw [Bool.and_eq_true, Bool.not_eq_true'] at hc
      obtain ⟨x, hx, ht⟩ := Option.bind_eq_some_iff.mp ht
      split at ht
      · cases ht
      · rename_i he
        cases ht
        have hdis := opens_of_any hx hr.2
        unfold OwnerHost.dispose
        rw [if_neg (by rw [hdis]; exact Bool.false_ne_true)]
        exact ⟨x, _, .dropping f :: s.calls, s.stats.ownerDisposed, hx,
          .drop (unwinding_of_calling hc.1).2 hdis (discarded_of_guard he) rfl hc.2, rfl⟩
    · cases ht
  · split at hr
    · rename_i g rest hs
      cases of_decide_eq_true hr
      simp only [step, proceed] at ht
      split at ht
      · rw [hs] at ht
        dsimp only at ht
        split at ht
        · cases ht
        · rename_i hd
          obtain ⟨x, hx, rfl⟩ := Option.map_eq_some_iff.mp ht
          exact ⟨x, x, .resetting f :: rest, s.stats, hx,
            .proceed rest hs (Bool.eq_false_iff.mpr hd) rfl, rfl⟩
      · cases ht
    · cases hr
  · cases hr

end Resets

end OwnerHost

end Adaptite

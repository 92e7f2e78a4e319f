import Adaptite.OwnerCustody
import Adaptite.Sweeps

set_option autoImplicit false

namespace Adaptite

def OwnerCall.claims {P : Type} (f : FrameId) : OwnerCall P → Bool
  | verifying g | resetting g | running g _ => g = f
  | _ => false

namespace OwnerHost

open OwnerCall

variable {P : Type} {s t : OwnerHost P} {op : OwnerStep P} {f : FrameId}
  {x y : OwnerFrameState} {call : OwnerCall P} {calls rest : List (OwnerCall P)}

/-- No window of the effect is open below a run of it; a frame of an effect is torn down in the
window of a run or after the effect was disposed; and only the latest execution of a body is in
progress. -/
structure Placed (s : OwnerHost P) (call : OwnerCall P) (rest : List (OwnerCall P)) : Prop where
  alone : ∀ f, call.claims f = true → rest.any (isWindow f) = false
  effect : ∀ f, call.claims f = true → ∀ x, s.frames f = some x → x.effect = true
  torn : ∀ f r cleanups children first, call = .tearing f r cleanups children first →
    ∀ x, s.frames f = some x → x.effect = true →
      s.discarded f = true ∨ rest.head? = some (.resetting f)
  current : ∀ f k, call = .running f k → k = s.executions f

section Placed

theorem uses_of_claims (h : call.claims f = true) : call.uses f = true := by
  cases call with
  | verifying => exact h
  | resetting => exact h
  | running => exact h
  | _ => cases h

theorem Turn.discarded (ht : Turn s t) (h : s.discarded f = true) : t.discarded f = true := by
  cases ht with
  | marked unwinding gone discarded hu hg hd ht =>
    subst ht
    exact hd f h
  | adopted g x hc hx ht =>
    subst ht
    unfold OwnerHost.adopt
    dsimp only
    split
    · exact h
    · split
      · exact h
      · exact h
  | added g x hc hx ht =>
    subst ht
    unfold OwnerHost.addCleanup
    dsimp only
    split
    · exact h
    · exact h
  | pushed call unwinding hc hp ht => exact ht ▸ h
  | popped call rest unwinding hs hp hu ht => exact ht ▸ h
  | swapped c rest hs ht => exact ht ▸ h
  | spilled c rest hs hu ht => exact ht ▸ h
  | abandoned g r cs ch first rest hs hu ht => exact ht ▸ h
  | created effect ht => exact ht ▸ h
  | taken g x z calls stats hx ho hu ht => exact ht ▸ h
  | cleaned g r c cs ch first rest hs hu ht => exact ht ▸ h
  | disposed g r c ch first rest hs hu ht => exact ht ▸ h
  | ended g r first rest hs hu ht => exact ht ▸ h
  | caught entry above g r cs ch first rest p hs he ha hu ht => exact ht ▸ h
  | entered g rest hs hd hu ht => exact ht ▸ h
  | vanished g rest hs ht => exact ht ▸ h

/-- A frame that was in use is that of an effect after the step if it was before. -/
theorem Turn.effect (ht : Turn s t) (hs : s.Sane) (hu : (s.frames f).isSome = true)
    (hy : t.frames f = some y) : ∃ x, s.frames f = some x ∧ y.effect = x.effect := by
  cases ht.entry hy with
  | same x hx hc hl hw he => exact ⟨x, hx, he⟩
  | adopted x hx hc hl hw he => exact ⟨x, hx, he⟩
  | added x hx hc hl hw he => exact ⟨x, hx, he⟩
  | empty hc hl hw he =>
    rcases he with rfl | he
    · obtain ⟨x, hx⟩ := Option.isSome_iff_exists.mp hu
      exact absurd (hs.below _ x hx) (Nat.lt_irrefl _)
    · exact he

theorem Placed.turn (h : s.Placed call rest) (hs : s.Sane) (hc : call ∈ s.calls)
    (ht : Turn s t) (hx : ∀ f k, call = .running f k → t.executions f = s.executions f) :
    t.Placed call rest where
  alone := h.alone
  effect f hf y hy := by
    obtain ⟨x, hx, he⟩ := ht.effect hs (hs.used call hc f (uses_of_claims hf)) hy
    rw [he]
    exact h.effect f hf x hx
  torn f r cs ch first heq y hy he := by
    have hused := hs.used call hc f (by rw [heq]; exact decide_eq_true rfl)
    obtain ⟨x, hx, hsame⟩ := ht.effect hs hused hy
    rcases h.torn f r cs ch first heq x hx (hsame ▸ he) with hd | hhead
    · exact .inl (ht.discarded hd)
    · exact .inr hhead
  current f k heq := (h.current f k heq).trans (hx f k heq).symm

theorem placed_of_idle (h : ∀ f, call.claims f = false) (ht : call.isTearing = false) :
    s.Placed call rest where
  alone f hf := by
    rw [h f] at hf
    cases hf
  effect f hf := by
    rw [h f] at hf
    cases hf
  torn f r cs ch first heq := by
    rw [heq] at ht
    cases ht
  current f k heq := by
    have hf := h f
    rw [heq] at hf
    exact absurd rfl (of_decide_eq_false hf)

theorem placed_of_window (ha : ∀ f, call.claims f = true → rest.any (isWindow f) = false)
    (he : ∀ f, call.claims f = true → ∀ x, s.frames f = some x → x.effect = true)
    (ht : call.isTearing = false) (hk : ∀ f k, call = .running f k → k = s.executions f) :
    s.Placed call rest where
  alone := ha
  effect := he
  torn f r cs ch first heq := by
    rw [heq] at ht
    cases ht
  current := hk

theorem Placed.progress {r : ℕ} {cleanups children cleanups' children' : List ℕ}
    {first first' : Option P} (h : s.Placed (.tearing f r cleanups children first) rest) :
    s.Placed (.tearing f r cleanups' children' first') rest where
  alone g hg := by cases hg
  effect g hg := by cases hg
  torn g q cs ch p heq := by
    cases heq
    exact h.torn _ _ _ _ _ rfl
  current g k heq := by cases heq

end Placed

def Windowed (s : OwnerHost P) : Prop := Stacked s.Placed s.calls

section Windowed

/-- The calls that there were are still placed so, where no body is entered. -/
theorem Windowed.keep (h : s.Windowed) (hs : s.Sane) (ht : Turn s t)
    (hx : t.executions = s.executions) : Stacked t.Placed s.calls :=
  h.imp fun _ _ hsuf hq => hq.turn hs (hsuf.subset List.mem_cons_self) ht fun f _ _ =>
    congrFun hx f

theorem Windowed.taken (h : s.Windowed) (hs : s.Sane) {stats : OwnershipStats}
    (ho : s.Opens f x y calls stats)
    (ht : Turn s (({ s with calls, stats } : OwnerHost P).reset f y)) :
    (({ s with calls, stats } : OwnerHost P).reset f y).Windowed := by
  have hkeep := h.keep hs ht rfl
  have hframe : (({ s with calls, stats } : OwnerHost P).reset f y).frames f =
      some { y with children := [], sweptAt := 0, cleanups := [] } :=
    Function.update_self f _ _
  have htearing : (y.effect = true → s.discarded f = true ∨
      calls.head? = some (.resetting f)) →
        (({ s with calls, stats } : OwnerHost P).reset f y).Placed
          (.tearing f s.nextReset y.cleanups.reverse y.children.reverse none) calls := by
    intro htorn
    refine ⟨fun g hg => ?_, fun g hg => ?_, fun g q cs ch p heq z hz he => ?_, fun g k heq => ?_⟩
    · cases hg
    · cases hg
    · cases heq
      cases hframe.symm.trans hz
      exact htorn he
    · cases heq
  have heffect : y.effect = x.effect := ho.lists.2.2.1
  cases ho with
  | reset hc he hy =>
    refine hkeep.cons (htearing fun htrue => ?_)
    rw [heffect, he] at htrue
    cases htrue
  | dispose hc hx' hd hy => exact hkeep.cons (htearing fun htrue => .inl (hd (heffect ▸ htrue)))
  | drop hc hx' hd hy hn =>
    exact (hkeep.cons (placed_of_idle (fun g => rfl) rfl)).cons
      (htearing fun htrue => .inl (hd (heffect ▸ htrue)))
  | proceed rest hc hd hy =>
    rw [hc] at hkeep
    have hverifying := hkeep.top
    refine ((hkeep.tail rfl).cons ?_).cons (htearing fun _ => .inr rfl)
    exact placed_of_window hverifying.alone hverifying.effect rfl fun g k heq => by cases heq

theorem Windowed.turn (h : s.Windowed) (hs : s.Sane) (ht : Turn s t) : t.Windowed := by
  have hturn := ht
  have hkeep : t.executions = s.executions → Stacked t.Placed s.calls := h.keep hs ht
  cases ht with
  | marked unwinding gone discarded hu hg hd ht =>
    subst ht
    exact hkeep rfl
  | pushed call unwinding hc hp ht =>
    subst ht
    refine (hkeep rfl).cons ?_
    cases hp with
    | verifying g x hx he hw =>
      refine placed_of_window (fun f hf => ?_) (fun f hf z hz => ?_) rfl fun f k heq => by cases heq
      · cases of_decide_eq_true hf
        exact hw
      · cases of_decide_eq_true hf
        cases hx.symm.trans hz
        exact he
    | destructor p => exact placed_of_idle (fun f => rfl) rfl
    | dropping g x hx hd he hn => exact placed_of_idle (fun f => rfl) rfl
  | popped call rest unwinding hc hp hu ht =>
    subst ht
    exact (hkeep rfl).tail hc
  | swapped c rest hc ht =>
    subst ht
    exact ((hkeep rfl).tail hc).cons (placed_of_idle (fun f => rfl) rfl)
  | spilled c rest hc hu ht =>
    subst ht
    exact (hkeep rfl).tail hc
  | abandoned g r cs ch first rest hc hu ht =>
    subst ht
    exact (hkeep rfl).tail hc
  | created effect ht =>
    subst ht
    exact hkeep rfl
  | adopted g x hc hx ht =>
    subst ht
    unfold OwnerHost.adopt at hkeep ⊢
    dsimp only at hkeep ⊢
    split at hkeep
    · rename_i hd
      rw [if_pos hd]
      exact (hkeep rfl).cons (placed_of_idle (fun f => rfl) rfl)
    · rename_i hd
      rw [if_neg hd]
      split at hkeep
      · rename_i he
        rw [if_pos he]
        exact hkeep rfl
      · rename_i he
        rw [if_neg he]
        exact (hkeep rfl).cons (placed_of_idle (fun f => rfl) rfl)
  | added g x hc hx ht =>
    subst ht
    unfold OwnerHost.addCleanup at hkeep ⊢
    dsimp only at hkeep ⊢
    split at hkeep
    · rename_i hd
      rw [if_pos hd]
      exact (hkeep rfl).cons (placed_of_idle (fun f => rfl) rfl)
    · rename_i hd
      rw [if_neg hd]
      exact hkeep rfl
  | taken g x z calls stats hx ho hu ht =>
    subst ht
    exact h.taken hs ho hturn
  | cleaned g r c cs ch first rest hc hu ht =>
    subst ht
    rw [hc] at hkeep
    have hloop := hkeep rfl
    exact ((hloop.tail rfl).cons hloop.top.progress).cons (placed_of_idle (fun f => rfl) rfl)
  | disposed g r c ch first rest hc hu ht =>
    subst ht
    rw [hc] at hkeep
    have hloop := hkeep rfl
    exact ((hloop.tail rfl).cons hloop.top.progress).cons (placed_of_idle (fun f => rfl) rfl)
  | ended g r first rest hc hu ht =>
    subst ht
    exact (hkeep rfl).tail hc
  | caught entry above g r cs ch first rest p hc he ha hu ht =>
    subst ht
    have hloop := (hkeep rfl).tail hc
    have hcaught := (hloop.tail rfl).cons
      (show Placed _ (.tearing g r cs ch (first.or (some p))) rest from hloop.top.progress)
    rcases ha with rfl | ⟨c, -, rfl⟩
    · exact hcaught
    · exact hcaught.cons (placed_of_idle (fun f => rfl) rfl)
  | entered g rest hc hd hu ht =>
    subst ht
    have hold := h
    unfold Windowed at hold
    rw [hc] at hold
    have htop := hold.top
    have hnone := htop.alone g (decide_eq_true rfl)
    refine Stacked.cons ((hold.tail rfl).imp fun call below hsuf hq => ?_) ?_
    · have hmem : call ∈ rest := hsuf.subset List.mem_cons_self
      refine hq.turn hs (hc ▸ List.mem_cons_of_mem _ hmem) hturn fun f k heq => ?_
      have hne : f ≠ g := by
        rintro rfl
        subst heq
        rw [List.any_eq_false] at hnone
        exact hnone _ hmem (decide_eq_true rfl)
      exact Function.update_of_ne hne _ _
    · refine placed_of_window htop.alone (fun f hf y hy => htop.effect f hf y hy) rfl
        fun f k heq => ?_
      cases heq
      change _ = Function.update s.executions g _ g
      rw [Function.update_self]
  | vanished g rest hc ht =>
    subst ht
    exact (hkeep rfl).tail hc

theorem Reached.windowed (h : Reached s) : s.Windowed := by
  have hall : s.Sane ∧ s.Windowed :=
    Runs.Reaches.invariant (fun s => s.Sane ∧ s.Windowed) ⟨sane_empty, stacked_nil⟩
      (fun _ _ _ hs _ ht => ⟨hs.1.turn (turn_step ht), hs.2.turn hs.1 (turn_step ht)⟩) h
  exact hall.2

/-- While the lists of an effect are being taken down, its body is not in progress. -/
theorem Windowed.not_running (h : s.Windowed) (hr : .resetting f ∈ s.calls) (k : ℕ) :
    .running f k ∉ s.calls := by
  intro hk
  obtain ⟨rest, hsuf, hq⟩ := h.of_mem hr
  obtain ⟨rest', hsuf', hq'⟩ := h.of_mem hk
  have halone := hq.alone f (decide_eq_true (rfl : f = f))
  have halone' := hq'.alone f (decide_eq_true (rfl : f = f))
  rw [List.any_eq_false] at halone halone'
  -- one of the two stands above the other
  rcases List.suffix_or_suffix_of_suffix hsuf hsuf' with hle | hle
  · rcases List.suffix_cons_iff.mp hle with heq | hle
    · cases heq
    · exact halone' _ (hle.subset List.mem_cons_self) (decide_eq_true (rfl : f = f))
  · rcases List.suffix_cons_iff.mp hle with heq | hle
    · cases heq
    · exact halone _ (hle.subset List.mem_cons_self) (decide_eq_true (rfl : f = f))

end Windowed

/-- Who has registered what is on the lists of a frame. -/
def marks (s : OwnerHost P) (x : OwnerFrameState) : List OwnerOrigin :=
  x.cleanups.map s.cleanupBy ++ x.children.map s.childBy

/-- What is on the lists of a frame was registered by the latest execution of the body or by
none, and by none while the previous lists are being taken down. -/
structure Generational (s : OwnerHost P) : Prop where
  held : ∀ f x, s.frames f = some x → ∀ o ∈ s.marks x, ∀ k, o.execution = some k →
    k = s.executions f
  between : ∀ f, .resetting f ∈ s.calls → ∀ x, s.frames f = some x → ∀ o ∈ s.marks x,
    o.execution = none

section Generational

theorem marks_of_empty (hc : x.cleanups = []) (hl : x.children = []) : s.marks x = [] := by
  unfold marks
  rw [hc, hl]
  rfl

/-- What was on the lists before has been registered by whom it was. -/
theorem Turn.marks (ht : Turn s t) (hh : s.Home) (hx : s.frames f = some x) {o : OwnerOrigin}
    (hc : ∀ c ∈ y.cleanups, c ∈ x.cleanups) (hl : ∀ c ∈ y.children, c ∈ x.children)
    (ho : o ∈ t.marks y) : o ∈ s.marks x := by
  rcases List.mem_append.mp ho with ho | ho
  · obtain ⟨c, hm, rfl⟩ := List.mem_map.mp ho
    have hin := hc c hm
    rw [ht.origins.1 c (hh.cleanups f x hx c hin).1]
    exact List.mem_append_left _ (List.mem_map.mpr ⟨c, hin, rfl⟩)
  · obtain ⟨c, hm, rfl⟩ := List.mem_map.mp ho
    have hin := hl c hm
    rw [ht.origins.2 c (hh.children f x hx c hin).1]
    exact List.mem_append_right _ (List.mem_map.mpr ⟨c, hin, rfl⟩)

/-- Whoever has registered what is on a list after a step had registered it before, or does so
in this step. -/
theorem Turn.mark_cases (ht : Turn s t) (hh : s.Home) (hy : t.frames f = some y)
    {o : OwnerOrigin} (ho : o ∈ t.marks y) :
    (∃ x, s.frames f = some x ∧ o ∈ s.marks x) ∨ o = s.origin f := by
  cases ht.entry hy with
  | same x hx hc hl =>
    exact .inl ⟨x, hx, ht.marks hh hx (fun c hm => hc ▸ hm) (fun c hm => hl ▸ hm) ho⟩
  | empty hc hl =>
    rw [marks_of_empty hc hl] at ho
    cases ho
  | added x hx hc hl hw he hn hb =>
    rcases List.mem_append.mp ho with hm | hm
    · rw [hc, List.map_append] at hm
      rcases List.mem_append.mp hm with hm | hm
      · refine .inl ⟨x, hx, ht.marks (y := x) hh hx (fun c => id) (fun c => id) ?_⟩
        exact List.mem_append_left _ hm
      · rw [hb] at hm
        refine .inr ((List.mem_singleton.mp hm).trans ?_)
        exact Function.update_self _ _ _
    · rw [hl] at hm
      refine .inl ⟨x, hx, ht.marks (y := x) hh hx (fun c => id) (fun c => id) ?_⟩
      exact List.mem_append_right _ hm
  | adopted x hx hc hl hw he hn hb =>
    rcases List.mem_append.mp ho with hm | hm
    · rw [hc] at hm
      refine .inl ⟨x, hx, ht.marks (y := x) hh hx (fun c => id) (fun c => id) ?_⟩
      exact List.mem_append_left _ hm
    · rw [hl, List.map_append] at hm
      rcases List.mem_append.mp hm with hm | hm
      · refine .inl ⟨x, hx, ht.marks (y := { x with children := (sweep s.gone x).1.children }) hh hx
          (fun c => id) (fun c hc => (sweep_sublist s.gone x).subset hc) ?_⟩
        exact List.mem_append_right _ hm
      · rw [hb] at hm
        refine .inr ((List.mem_singleton.mp hm).trans ?_)
        exact Function.update_self _ _ _

theorem execution_of_origin {k : ℕ} (h : (s.origin f).execution = some k) :
    .running f k ∈ s.calls := by
  obtain ⟨call, hm, hk⟩ := List.exists_of_findSome?_eq_some h
  cases call with
  | running g j =>
    change (if g = f then some j else none) = some k at hk
    by_cases hg : g = f
    · rw [if_pos hg] at hk
      cases hk
      exact hg ▸ hm
    · rw [if_neg hg] at hk
      cases hk
  | _ => cases hk

theorem generational_empty : ({} : OwnerHost P).Generational where
  held f x hx := by cases hx
  between f hf := by cases hf

/-- A window that is open after a step was open before, or the lists of the frame are empty. -/
theorem Turn.resetting (ht : Turn s t) (hm : .resetting f ∈ t.calls) :
    .resetting f ∈ s.calls ∨
      ∀ y, t.frames f = some y → y.cleanups = [] ∧ y.children = [] := by
  cases ht with
  | marked unwinding gone discarded hu hg hd ht => exact .inl (by rwa [ht] at hm)
  | created effect ht => exact .inl (by rwa [ht] at hm)
  | pushed call unwinding hc hp ht =>
    subst ht
    rcases List.mem_cons.mp hm with heq | hm
    · cases hp <;> cases heq
    · exact .inl hm
  | popped call rest unwinding hs hp hu ht =>
    subst ht
    exact .inl (hs ▸ List.mem_cons_of_mem _ hm)
  | swapped c rest hs ht =>
    subst ht
    rcases List.mem_cons.mp hm with heq | hm
    · cases heq
    · exact .inl (hs ▸ List.mem_cons_of_mem _ hm)
  | spilled c rest hs hu ht =>
    subst ht
    exact .inl (hs ▸ List.mem_cons_of_mem _ hm)
  | abandoned g r cs ch first rest hs hu ht =>
    subst ht
    exact .inl (hs ▸ List.mem_cons_of_mem _ hm)
  | adopted g x hc hx ht =>
    subst ht
    left
    unfold OwnerHost.adopt at hm
    dsimp only at hm
    split at hm
    · rcases List.mem_cons.mp hm with heq | hm
      · cases heq
      · exact hm
    · split at hm
      · exact hm
      · rcases List.mem_cons.mp hm with heq | hm
        · cases heq
        · exact hm
  | added g x hc hx ht =>
    subst ht
    left
    unfold OwnerHost.addCleanup at hm
    dsimp only at hm
    split at hm
    · rcases List.mem_cons.mp hm with heq | hm
      · cases heq
      · exact hm
    · exact hm
  | taken g x z calls stats hx ho hu ht =>
    subst ht
    rcases List.mem_cons.mp hm with heq | hm
    · cases heq
    · cases ho with
      | reset => exact .inl hm
      | dispose => exact .inl hm
      | drop =>
        rcases List.mem_cons.mp hm with heq | hm
        · cases heq
        · exact .inl hm
      | proceed rest hs =>
        rcases List.mem_cons.mp hm with heq | hm
        · cases heq
          refine .inr fun y hy => ?_
          rcases update_eq_some hy with ⟨-, rfl⟩ | ⟨hne, -⟩
          · exact ⟨rfl, rfl⟩
          · exact absurd rfl hne
        · exact .inl (hs ▸ List.mem_cons_of_mem _ hm)
  | cleaned g r c cs ch first rest hs hu ht =>
    subst ht
    rcases List.mem_cons.mp hm with heq | hm
    · cases heq
    · rcases List.mem_cons.mp hm with heq | hm
      · cases heq
      · exact .inl (hs ▸ List.mem_cons_of_mem _ hm)
  | disposed g r c ch first rest hs hu ht =>
    subst ht
    rcases List.mem_cons.mp hm with heq | hm
    · cases heq
    · rcases List.mem_cons.mp hm with heq | hm
      · cases heq
      · exact .inl (hs ▸ List.mem_cons_of_mem _ hm)
  | ended g r first rest hs hu ht =>
    subst ht
    exact .inl (hs ▸ List.mem_cons_of_mem _ hm)
  | caught entry above g r cs ch first rest p hs he ha hu ht =>
    subst ht
    rcases List.mem_append.mp hm with hm | hm
    · rcases ha with rfl | ⟨c, -, rfl⟩
      · cases hm
      · cases List.mem_singleton.mp hm
    · rcases List.mem_cons.mp hm with heq | hm
      · cases heq
      · exact .inl (hs ▸ List.mem_cons_of_mem _ (List.mem_cons_of_mem _ hm))
  | entered g rest hs hd hu ht =>
    subst ht
    rcases List.mem_cons.mp hm with heq | hm
    · cases heq
    · exact .inl (hs ▸ List.mem_cons_of_mem _ hm)
  | vanished g rest hs ht =>
    subst ht
    exact .inl (hs ▸ List.mem_cons_of_mem _ hm)

theorem Turn.executions (ht : Turn s t) (g : FrameId) :
    t.executions g = s.executions g ∨
      (∃ rest, s.calls = .resetting g :: rest ∧ s.discarded g = false) ∧
        t.frames = s.frames ∧ t.cleanupBy = s.cleanupBy ∧ t.childBy = s.childBy := by
  cases ht with
  | entered f rest hs hd hu ht =>
    subst ht
    by_cases hg : g = f
    · subst hg
      exact .inr ⟨⟨rest, hs, hd⟩, rfl, rfl, rfl⟩
    · exact .inl (Function.update_of_ne hg _ _)
  | adopted f x hc hx ht =>
    subst ht
    left
    unfold OwnerHost.adopt
    dsimp only
    split
    · rfl
    · split
      · rfl
      · rfl
  | added f x hc hx ht =>
    subst ht
    left
    unfold OwnerHost.addCleanup
    dsimp only
    split
    · rfl
    · rfl
  | marked unwinding gone discarded hu hg hd ht => exact .inl (ht ▸ rfl)
  | pushed call unwinding hc hp ht => exact .inl (ht ▸ rfl)
  | popped call rest unwinding hs hp hu ht => exact .inl (ht ▸ rfl)
  | swapped c rest hs ht => exact .inl (ht ▸ rfl)
  | spilled c rest hs hu ht => exact .inl (ht ▸ rfl)
  | abandoned f r cs ch first rest hs hu ht => exact .inl (ht ▸ rfl)
  | created effect ht => exact .inl (ht ▸ rfl)
  | taken f x z calls stats hx ho hu ht => exact .inl (ht ▸ rfl)
  | cleaned f r c cs ch first rest hs hu ht => exact .inl (ht ▸ rfl)
  | disposed f r c ch first rest hs hu ht => exact .inl (ht ▸ rfl)
  | ended f r first rest hs hu ht => exact .inl (ht ▸ rfl)
  | caught entry above f r cs ch first rest p hs he ha hu ht => exact .inl (ht ▸ rfl)
  | vanished f rest hs ht => exact .inl (ht ▸ rfl)

theorem Generational.turn (h : s.Generational) (hh : s.Home) (hw : s.Windowed) (ht : Turn s t) :
    t.Generational where
  held f y hy o ho k hk := by
    rcases ht.executions f with hx | ⟨⟨rest, hs, -⟩, hf, hc, hl⟩
    · rw [hx]
      rcases ht.mark_cases hh hy ho with ⟨x, hx, hm⟩ | rfl
      · exact h.held f x hx o hm k hk
      · have hrunning := execution_of_origin hk
        obtain ⟨rest, -, hq⟩ := hw.of_mem hrunning
        exact hq.current f k rfl
    -- the body is entered, and nothing was registered in between
    · rw [hf] at hy
      have hm : o ∈ s.marks y := by
        unfold OwnerHost.marks at ho
        rwa [hc, hl] at ho
      rw [h.between f (hs ▸ List.mem_cons_self) y hy o hm] at hk
      cases hk
  between f hm y hy o ho := by
    rcases ht.resetting hm with hr | hempty
    · rcases ht.mark_cases hh hy ho with ⟨x, hx, hm⟩ | rfl
      · exact h.between f hr x hx o hm
      · cases hk : (s.origin f).execution with
        | none => rfl
        | some k => exact absurd (execution_of_origin hk) (hw.not_running hr k)
    · obtain ⟨hc, hl⟩ := hempty y hy
      rw [marks_of_empty hc hl] at ho
      cases ho

theorem Reached.generational (h : Reached s) : s.Generational := by
  have hall : Reached s ∧ s.Generational :=
    Runs.Reaches.invariant (fun s => Reached s ∧ s.Generational) ⟨.init, generational_empty⟩
      (fun _ op _ hs _ ht => ⟨hs.1.next op rfl ht,
        hs.2.turn hs.1.home hs.1.windowed (turn_step ht)⟩) h
  exact hall.2

/-- Where a body is about to be entered, no teardown of its frame is in progress. -/
theorem Windowed.no_teardown (hw : s.Windowed) (hs : s.calls = .resetting f :: rest)
    (hd : s.discarded f = false) (hx : s.frames f = some x) (r : ℕ) (cleanups children : List ℕ)
    (first : Option P) : .tearing f r cleanups children first ∉ s.calls := by
  intro hm
  have htop := hw
  unfold Windowed at htop
  rw [hs] at htop
  have heffect := htop.top.effect f (decide_eq_true rfl) x hx
  have halone := htop.top.alone f (decide_eq_true rfl)
  obtain ⟨below, hsuf, hq⟩ := hw.of_mem hm
  rcases hq.torn f r cleanups children first rfl x hx heffect with hdis | hhead
  · rw [hd] at hdis
    cases hdis
  -- a second window, below the one that is about to be entered
  · rw [hs] at hsuf
    rcases List.suffix_cons_iff.mp hsuf with heq | hle
    · cases heq
    · rw [List.any_eq_false] at halone
      have hin : .resetting f ∈ below := List.mem_of_mem_head? hhead
      exact halone _ (hle.subset (List.mem_cons_of_mem _ hin)) (decide_eq_true (rfl : f = f))

end Generational

/-- Where a body is about to be entered, what earlier executions have registered is in no frame
and before no teardown. -/
theorem ReachedWhole.cleaned (h : ReachedWhole s) (hs : s.calls = .resetting f :: rest)
    (hd : s.discarded f = false) {c k : ℕ} (hc : c < s.nextCleanup)
    (hby : s.cleanupBy c = ⟨f, some k⟩) : c ∈ s.ran ∧ .cleaning c ∉ s.calls := by
  have hmem : .resetting f ∈ s.calls := hs ▸ List.mem_cons_self
  have hsome := h.reached.sane.used _ hmem f (decide_eq_true rfl)
  obtain ⟨x, hx⟩ := Option.isSome_iff_exists.mp hsome
  have hnone := h.reached.windowed.no_teardown hs hd hx
  have hhome := h.reached.home
  have hframe : ∀ g, s.ownsCleanup g c → g = f := fun g hg => by
    rw [← hg.2, hby]
  refine ⟨?_, fun hin => ?_⟩
  · have hsettled : s.settled (.cleanup c) = 1 := by
      refine h.conserved.settled (i := .cleanup c) hc (fun g y hy => ?_) fun call hcall => ?_
      · by_contra hne
        have hin := List.count_pos_iff.mp (Nat.pos_of_ne_zero hne)
        cases hframe g (hhome.cleanups g y hy c hin)
        have hbetween := h.reached.generational.between f hmem y hy (s.cleanupBy c)
          (List.mem_append_left _ (List.mem_map.mpr ⟨c, hin, rfl⟩))
        rw [hby] at hbetween
        cases hbetween
      · by_contra hne
        cases call with
        | tearing g r cs ch first =>
          have hin := List.count_pos_iff.mp (Nat.pos_of_ne_zero hne)
          cases hframe g ((hhome.loops g r cs ch first hcall).1 c hin)
          exact hnone r cs ch first hcall
        | _ => exact hne rfl
    change s.ran.count c = 1 at hsettled
    exact List.count_pos_iff.mp (hsettled ▸ Nat.one_pos)
  · obtain ⟨below, hsuf, hq⟩ := h.shaped.fits.of_mem hin
    obtain ⟨g, r, cs, ch, first, below', rfl, hown⟩ := hq.2.1 c rfl
    cases hframe g hown
    exact hnone r cs ch first (hsuf.subset (List.mem_cons_of_mem _ List.mem_cons_self))

theorem ReachedWhole.disposed (h : ReachedWhole s) (hs : s.calls = .resetting f :: rest)
    (hd : s.discarded f = false) {c k : ℕ} (hc : c < s.nextChild)
    (hby : s.childBy c = ⟨f, some k⟩) :
    (c ∈ s.attempted ∨ c ∈ s.released) ∧ .disposing c ∉ s.calls := by
  have hmem : .resetting f ∈ s.calls := hs ▸ List.mem_cons_self
  have hsome := h.reached.sane.used _ hmem f (decide_eq_true rfl)
  obtain ⟨x, hx⟩ := Option.isSome_iff_exists.mp hsome
  have hnone := h.reached.windowed.no_teardown hs hd hx
  have hhome := h.reached.home
  have hframe : ∀ g, s.ownsChild g c → g = f := fun g hg => by
    rw [← hg.2, hby]
  refine ⟨?_, fun hin => ?_⟩
  · have hsettled : s.settled (.child c) = 1 := by
      refine h.conserved.settled (i := .child c) hc (fun g y hy => ?_) fun call hcall => ?_
      · by_contra hne
        have hin := List.count_pos_iff.mp (Nat.pos_of_ne_zero hne)
        cases hframe g (hhome.children g y hy c hin)
        have hbetween := h.reached.generational.between f hmem y hy (s.childBy c)
          (List.mem_append_right _ (List.mem_map.mpr ⟨c, hin, rfl⟩))
        rw [hby] at hbetween
        cases hbetween
      · by_contra hne
        cases call with
        | tearing g r cs ch first =>
          have hin := List.count_pos_iff.mp (Nat.pos_of_ne_zero hne)
          cases hframe g ((hhome.loops g r cs ch first hcall).2 c hin)
          exact hnone r cs ch first hcall
        | _ => exact hne rfl
    change s.attempted.count c + s.released.count c = 1 at hsettled
    by_cases ha : c ∈ s.attempted
    · exact .inl ha
    · rw [List.count_eq_zero_of_not_mem ha, Nat.zero_add] at hsettled
      exact .inr (List.count_pos_iff.mp (hsettled ▸ Nat.one_pos))
  · obtain ⟨below, hsuf, hq⟩ := h.shaped.fits.of_mem hin
    obtain ⟨g, r, cs, ch, first, below', rfl, hown⟩ := hq.2.2 c (.inl rfl)
    cases hframe g hown
    exact hnone r cs ch first (hsuf.subset (List.mem_cons_of_mem _ List.mem_cons_self))

/-- Unless a destructor that a teardown runs panics: what is on the lists of a frame was
registered by one execution of the body at most, and when a body is entered, whatever its
executions have registered on its frame has been run, disposed, or released when it was
disposed already. -/
theorem one_generation_at_a_time (h : ReachedWhole s) :
    (∀ f x, s.frames f = some x → ∀ o ∈ s.marks x, ∀ o' ∈ s.marks x, ∀ k k',
      o.execution = some k → o'.execution = some k' → k = k') ∧
    ∀ op t f, s.step op = some t → t.executions f ≠ s.executions f →
      (∀ c < s.nextCleanup, ∀ k, s.cleanupBy c = ⟨f, some k⟩ →
        c ∈ s.ran ∧ .cleaning c ∉ s.calls) ∧
      ∀ c < s.nextChild, ∀ k, s.childBy c = ⟨f, some k⟩ →
        (c ∈ s.attempted ∨ c ∈ s.released ∧ s.gone c = true) ∧ .disposing c ∉ s.calls := by
  refine ⟨fun f x hx o ho o' ho' k k' hk hk' => ?_, fun op t f ht hne => ?_⟩
  · have hheld := h.reached.generational.held f x hx
    exact (hheld o ho k hk).trans (hheld o' ho' k' hk').symm
  · rcases (turn_step ht).executions f with heq | ⟨⟨rest, hs, hd⟩, -⟩
    · exact absurd heq hne
    · refine ⟨fun c hc k hby => h.cleaned hs hd hc hby, fun c hc k hby => ?_⟩
      obtain ⟨hwhere, hno⟩ := h.disposed hs hd hc hby
      exact ⟨hwhere.imp_right fun hr => ⟨hr, h.reached.released_gone c hr⟩, hno⟩

/-- An effect whose body registers a cleanup and a child and runs again; the cleanup runs the
effect, and panics. -/
def regenerating : List (OwnerStep ℕ) :=
  [.create true, .run 0, .proceed, .next, .next, .addCleanup 0, .adopt 0, .finish, .run 0,
    .proceed, .next, .run 0, .panic 5, .unwind, .next, .finish, .finish, .next, .unwind,
    .catchUnwind, .run 0, .proceed, .next]

theorem regenerated_effect : ∃ s t : OwnerHost ℕ, s.ReachedWhole ∧ s.step .next = some t ∧
    s.executions 0 = 1 ∧ t.executions 0 = 2 ∧ s.cleanupBy 0 = ⟨0, some 1⟩ ∧ 0 ∈ s.ran ∧
    s.childBy 0 = ⟨0, some 1⟩ ∧ (0 ∈ s.attempted ∨ 0 ∈ s.released ∧ s.gone 0 = true) := by
  let s := Runs.after (step (P := ℕ)) {} regenerating
  let t := Runs.after (step (P := ℕ)) s [.next]
  have hs : ReachedWhole s := Runs.Reaches.after (fun s op => !spills s op) _ .init
    (by decide +kernel) (by decide +kernel)
  have ht : s.step .next = some t := Runs.step_after (by decide +kernel)
  have hold : s.executions 0 = 1 := by decide +kernel
  have hnew : t.executions 0 = 2 := by decide +kernel
  have hcleanup : s.cleanupBy 0 = ⟨0, some 1⟩ := by decide +kernel
  have hchild : s.childBy 0 = ⟨0, some 1⟩ := by decide +kernel
  have hne : t.executions 0 ≠ s.executions 0 := by
    rw [hold, hnew]
    decide
  obtain ⟨hcleanups, hchildren⟩ := (one_generation_at_a_time hs).2 .next t 0 ht hne
  exact ⟨s, t, hs, ht, hold, hnew, hcleanup, (hcleanups 0 (by decide +kernel) 1 hcleanup).1,
    hchild, (hchildren 0 (by decide +kernel) 1 hchild).1⟩

/-- The body of an effect registers two children. The second holds the handle of a scope with a
cleanup that panics, and nothing else does; when the effect runs again, the second child is
disposed and dropped, and the panic leaves the teardown. -/
def mingling : List (OwnerStep ℕ) :=
  [.create true, .run 0, .proceed, .next, .next, .adopt 0, .create false, .addCleanup 1,
    .adopt 0, .finish, .run 0, .proceed, .next, .discardChild 1, .finish, .drop 1, .next,
    .panic 7, .unwind, .next, .unwind, .unwind, .unwind, .unwind, .catchUnwind, .run 0, .proceed,
    .next]

/-- The first child is still there when the body is entered again, disposed by nobody. -/
theorem generations_mingle : ∃ s t : OwnerHost ℕ, s.Reached ∧ s.step .next = some t ∧
    s.executions 0 = 1 ∧ t.executions 0 = 2 ∧ s.childBy 0 = ⟨0, some 1⟩ ∧ 0 ∉ s.attempted ∧
    0 ∉ s.released ∧ s.gone 0 = false := by
  let s := Runs.after (step (P := ℕ)) {} mingling
  let t := Runs.after (step (P := ℕ)) s [.next]
  have hs : Reached s :=
    Runs.Reaches.after (fun _ _ => true) _ .init (by decide +kernel) (by decide +kernel)
  have ht : s.step .next = some t := Runs.step_after (by decide +kernel)
  exact ⟨s, t, hs, ht, by decide +kernel, by decide +kernel, by decide +kernel, by decide +kernel,
    by decide +kernel, by decide +kernel⟩

end OwnerHost

end Adaptite

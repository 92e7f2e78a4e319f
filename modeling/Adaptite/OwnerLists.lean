import Adaptite.OwnerBooks

set_option autoImplicit false

namespace Adaptite

namespace OwnerHost

open OwnerCall

variable {P : Type} {s t : OwnerHost P} {f : FrameId} {x y : OwnerFrameState}

/-- What the lists of a frame are after a step. -/
inductive Entry (s t : OwnerHost P) (f : FrameId) (y : OwnerFrameState) : Prop where
  | same (x : OwnerFrameState) (hx : s.frames f = some x) (hc : y.cleanups = x.cleanups)
      (hl : y.children = x.children) (hw : y.sweptAt = x.sweptAt) (he : y.effect = x.effect)
  | adopted (x : OwnerFrameState) (hx : s.frames f = some x) (hc : y.cleanups = x.cleanups)
      (hl : y.children = (sweep s.gone x).1.children ++ [s.nextChild])
      (hw : y.sweptAt = (sweep s.gone x).1.sweptAt) (he : y.effect = x.effect)
      (hn : t.nextChild = s.nextChild + 1)
      (hb : t.childBy = Function.update s.childBy s.nextChild (s.origin f))
  | added (x : OwnerFrameState) (hx : s.frames f = some x)
      (hc : y.cleanups = x.cleanups ++ [s.nextCleanup]) (hl : y.children = x.children)
      (hw : y.sweptAt = x.sweptAt) (he : y.effect = x.effect)
      (hn : t.nextCleanup = s.nextCleanup + 1)
      (hb : t.cleanupBy = Function.update s.cleanupBy s.nextCleanup (s.origin f))
  | empty (hc : y.cleanups = []) (hl : y.children = []) (hw : y.sweptAt = 0)
      (he : f = s.nextFrame ∨ ∃ x, s.frames f = some x ∧ y.effect = x.effect)

inductive Loop (s : OwnerHost P) (f : FrameId) (r : ℕ) (cleanups children : List ℕ) : Prop where
  | same (past : List ℕ) (first : Option P)
      (hs : .tearing f r (past ++ cleanups) children first ∈ s.calls)
  | disposing (past : List ℕ) (first : Option P)
      (hs : .tearing f r cleanups (past ++ children) first ∈ s.calls)
  | taken (x : OwnerFrameState) (hx : s.frames f = some x) (hr : r = s.nextReset)
      (hc : cleanups = x.cleanups.reverse) (hl : children = x.children.reverse)

section Turns

theorem update_eq_some {frames : FrameId → Option OwnerFrameState} {g : FrameId}
    {z : OwnerFrameState} (h : Function.update frames g (some z) f = some y) :
    f = g ∧ y = z ∨ f ≠ g ∧ frames f = some y := by
  by_cases hf : f = g
  · subst hf
    rw [Function.update_self] at h
    exact .inl ⟨rfl, (Option.some.inj h).symm⟩
  · rw [Function.update_of_ne hf] at h
    exact .inr ⟨hf, h⟩

theorem Entry.kept (hf : t.frames = s.frames) (hy : t.frames f = some y) : Entry s t f y :=
  .same y (hf ▸ hy) rfl rfl rfl rfl

theorem entry_adopt {g : FrameId} (hx : s.frames g = some x)
    (hy : (s.adopt g x).frames f = some y) : Entry s (s.adopt g x) f y := by
  unfold OwnerHost.adopt at *
  dsimp only at *
  split at hy
  · rename_i hd
    rw [if_pos hd]
    exact .kept rfl hy
  · rename_i hd
    rw [if_neg hd]
    -- whether a child is released or not, the frame is the same
    have hframe : Function.update s.frames g (some { (sweep s.gone x).1 with
        children := (sweep s.gone x).1.children ++ [s.nextChild] }) f = some y := by
      split at hy
      · exact hy
      · exact hy
    obtain ⟨hc, -, he, -⟩ := sweep_fields s.gone x
    rcases update_eq_some hframe with ⟨rfl, rfl⟩ | ⟨hne, hsame⟩
    · refine .adopted x hx hc rfl rfl he ?_ ?_
      · split <;> rfl
      · split <;> rfl
    · exact .same y hsame rfl rfl rfl rfl

theorem entry_addCleanup {g : FrameId} (hx : s.frames g = some x)
    (hy : (s.addCleanup g x).frames f = some y) : Entry s (s.addCleanup g x) f y := by
  unfold OwnerHost.addCleanup at *
  dsimp only at *
  split at hy
  · rename_i hd
    rw [if_pos hd]
    exact .kept rfl hy
  · rename_i hd
    rw [if_neg hd]
    rcases update_eq_some hy with ⟨rfl, rfl⟩ | ⟨hne, hsame⟩
    · exact .added x hx rfl rfl rfl rfl rfl rfl
    · exact .same y hsame rfl rfl rfl rfl

theorem Turn.entry (ht : Turn s t) (hy : t.frames f = some y) : Entry s t f y := by
  cases ht with
  | marked unwinding gone discarded hu hg hd ht => exact .kept (ht ▸ rfl) hy
  | pushed call unwinding hc hp ht => exact .kept (ht ▸ rfl) hy
  | popped call rest unwinding hs hp hu ht => exact .kept (ht ▸ rfl) hy
  | swapped c rest hs ht => exact .kept (ht ▸ rfl) hy
  | spilled c rest hs hu ht => exact .kept (ht ▸ rfl) hy
  | abandoned g r cleanups children first rest hs hu ht => exact .kept (ht ▸ rfl) hy
  | created effect ht =>
    subst ht
    rcases update_eq_some hy with ⟨rfl, rfl⟩ | ⟨hne, hsame⟩
    · exact .empty rfl rfl rfl (.inl rfl)
    · exact .same y hsame rfl rfl rfl rfl
  | adopted g x hc hx ht =>
    subst ht
    exact entry_adopt hx hy
  | added g x hc hx ht =>
    subst ht
    exact entry_addCleanup hx hy
  | taken g x z calls stats hx ho hu ht =>
    subst ht
    rcases update_eq_some hy with ⟨rfl, rfl⟩ | ⟨hne, hsame⟩
    · exact .empty rfl rfl rfl (.inr ⟨x, hx, ho.lists.2.2.1⟩)
    · exact .same y hsame rfl rfl rfl rfl
  | cleaned g r c cleanups children first rest hs hu ht => exact .kept (ht ▸ rfl) hy
  | disposed g r c children first rest hs hu ht => exact .kept (ht ▸ rfl) hy
  | ended g r first rest hs hu ht => exact .kept (ht ▸ rfl) hy
  | caught entry above g r cleanups children first rest p hs he ha hu ht =>
    exact .kept (ht ▸ rfl) hy
  | entered g rest hs hd hu ht => exact .kept (ht ▸ rfl) hy
  | vanished g rest hs ht =>
    subst ht
    change Function.update s.frames g none f = some y at hy
    by_cases hf : f = g
    · rw [hf, Function.update_self] at hy
      cases hy
    · rw [Function.update_of_ne hf] at hy
      exact .same y hy rfl rfl rfl rfl

variable {r : ℕ} {cleanups children : List ℕ} {first : Option P}

theorem Loop.kept (hc : ∀ call ∈ t.calls, call.isTearing = true → call ∈ s.calls)
    (hm : .tearing f r cleanups children first ∈ t.calls) : Loop s f r cleanups children :=
  .same [] first (hc _ hm rfl)

theorem mem_of_cons {call g : OwnerCall P} {calls rest : List (OwnerCall P)}
    (hs : calls ⊆ rest) (hcall : call.isTearing = false) (hg : g ∈ call :: calls)
    (ht : g.isTearing = true) : g ∈ rest := by
  rcases List.mem_cons.mp hg with rfl | hg
  · rw [hcall] at ht
    cases ht
  · exact hs hg

theorem Turn.loop (ht : Turn s t) (hm : .tearing f r cleanups children first ∈ t.calls) :
    Loop s f r cleanups children := by
  cases ht with
  | marked unwinding gone discarded hu hg hd ht => exact .kept (fun _ hm _ => by rwa [ht] at hm) hm
  | pushed call unwinding hc hp ht =>
    subst ht
    refine .kept (fun g hg htear => ?_) hm
    exact mem_of_cons (List.Subset.refl _) (by cases hp <;> rfl) hg htear
  | popped call rest unwinding hs hp hu ht =>
    subst ht
    exact .kept (fun g hg _ => hs ▸ List.mem_cons_of_mem _ hg) hm
  | swapped c rest hs ht =>
    subst ht
    refine .kept (fun g hg htear => ?_) hm
    rw [hs]
    exact mem_of_cons (List.subset_cons_self _ _) rfl hg htear
  | spilled c rest hs hu ht =>
    subst ht
    exact .kept (fun g hg _ => hs ▸ List.mem_cons_of_mem _ hg) hm
  | abandoned g r' cs ch first' rest hs hu ht =>
    subst ht
    exact .kept (fun g hg _ => hs ▸ List.mem_cons_of_mem _ hg) hm
  | created effect ht => exact .kept (fun _ hm _ => by rwa [ht] at hm) hm
  | adopted g x hc hx ht =>
    subst ht
    refine .kept (fun call hcall htear => ?_) hm
    unfold OwnerHost.adopt at hcall
    dsimp only at hcall
    split at hcall
    · exact mem_of_cons (List.Subset.refl _) rfl hcall htear
    · split at hcall
      · exact hcall
      · exact mem_of_cons (List.Subset.refl _) rfl hcall htear
  | added g x hc hx ht =>
    subst ht
    refine .kept (fun call hcall htear => ?_) hm
    unfold OwnerHost.addCleanup at hcall
    dsimp only at hcall
    split at hcall
    · exact mem_of_cons (List.Subset.refl _) rfl hcall htear
    · exact hcall
  | taken g x z calls stats hx ho hu ht =>
    subst ht
    obtain ⟨hc, hl, -, -⟩ := ho.lists
    rcases List.mem_cons.mp hm with heq | hm
    · cases heq
      exact .taken x hx rfl (congrArg List.reverse hc) (congrArg List.reverse hl)
    · refine .same [] first ?_
      cases ho with
      | reset => exact hm
      | dispose => exact hm
      | drop => exact mem_of_cons (List.Subset.refl _) rfl hm rfl
      | proceed rest hs =>
        rw [hs]
        exact mem_of_cons (List.subset_cons_self _ _) rfl hm rfl
  | cleaned g r' c cs ch first' rest hs hu ht =>
    subst ht
    rcases List.mem_cons.mp hm with heq | hm
    · cases heq
    · rcases List.mem_cons.mp hm with heq | hm
      · cases heq
        exact .same [c] first (hs ▸ List.mem_cons_self)
      · exact .same [] first (hs ▸ List.mem_cons_of_mem _ hm)
  | disposed g r' c ch first' rest hs hu ht =>
    subst ht
    rcases List.mem_cons.mp hm with heq | hm
    · cases heq
    · rcases List.mem_cons.mp hm with heq | hm
      · cases heq
        exact .disposing [c] first (hs ▸ List.mem_cons_self)
      · exact .same [] first (hs ▸ List.mem_cons_of_mem _ hm)
  | ended g r' first' rest hs hu ht =>
    subst ht
    exact .kept (fun g hg _ => hs ▸ List.mem_cons_of_mem _ hg) hm
  | caught entry above g r' cs ch first' rest p hs he ha hu ht =>
    subst ht
    rcases List.mem_append.mp hm with hm | hm
    · rcases ha with rfl | ⟨c, -, rfl⟩
      · cases hm
      · cases List.mem_singleton.mp hm
    · rcases List.mem_cons.mp hm with heq | hm
      · cases heq
        exact .same [] first' (hs ▸ List.mem_cons_of_mem _ List.mem_cons_self)
      · exact .same [] first (hs ▸ List.mem_cons_of_mem _ (List.mem_cons_of_mem _ hm))
  | entered g rest hs hd hu ht =>
    subst ht
    refine .kept (fun g hg htear => ?_) hm
    rw [hs]
    exact mem_of_cons (List.subset_cons_self _ _) rfl hg htear
  | vanished g rest hs ht =>
    subst ht
    exact .kept (fun g hg _ => hs ▸ List.mem_cons_of_mem _ hg) hm

theorem Turn.fresh (ht : Turn s t) :
    s.nextCleanup ≤ t.nextCleanup ∧ s.nextChild ≤ t.nextChild := by
  cases ht with
  | adopted g x hc hx ht =>
    subst ht
    unfold OwnerHost.adopt
    dsimp only
    split
    · exact ⟨Nat.le_refl _, Nat.le_succ _⟩
    · split
      · exact ⟨Nat.le_refl _, Nat.le_succ _⟩
      · exact ⟨Nat.le_refl _, Nat.le_succ _⟩
  | added g x hc hx ht =>
    subst ht
    unfold OwnerHost.addCleanup
    dsimp only
    split
    · exact ⟨Nat.le_succ _, Nat.le_refl _⟩
    · exact ⟨Nat.le_succ _, Nat.le_refl _⟩
  | marked unwinding gone discarded hu hg hd ht => exact ht ▸ ⟨Nat.le_refl _, Nat.le_refl _⟩
  | pushed call unwinding hc hp ht => exact ht ▸ ⟨Nat.le_refl _, Nat.le_refl _⟩
  | popped call rest unwinding hs hp hu ht => exact ht ▸ ⟨Nat.le_refl _, Nat.le_refl _⟩
  | swapped c rest hs ht => exact ht ▸ ⟨Nat.le_refl _, Nat.le_refl _⟩
  | spilled c rest hs hu ht => exact ht ▸ ⟨Nat.le_refl _, Nat.le_refl _⟩
  | abandoned g r' cs ch first' rest hs hu ht => exact ht ▸ ⟨Nat.le_refl _, Nat.le_refl _⟩
  | created effect ht => exact ht ▸ ⟨Nat.le_refl _, Nat.le_refl _⟩
  | taken g x z calls stats hx ho hu ht => exact ht ▸ ⟨Nat.le_refl _, Nat.le_refl _⟩
  | cleaned g r' c cs ch first' rest hs hu ht => exact ht ▸ ⟨Nat.le_refl _, Nat.le_refl _⟩
  | disposed g r' c ch first' rest hs hu ht => exact ht ▸ ⟨Nat.le_refl _, Nat.le_refl _⟩
  | ended g r' first' rest hs hu ht => exact ht ▸ ⟨Nat.le_refl _, Nat.le_refl _⟩
  | caught entry above g r' cs ch first' rest p hs he ha hu ht =>
    exact ht ▸ ⟨Nat.le_refl _, Nat.le_refl _⟩
  | entered g rest hs hd hu ht => exact ht ▸ ⟨Nat.le_refl _, Nat.le_refl _⟩
  | vanished g rest hs ht => exact ht ▸ ⟨Nat.le_refl _, Nat.le_refl _⟩

end Turns

/-- A list of ids in the order in which they were given out. -/
def Ascending (l : List ℕ) (next : ℕ) : Prop := l.Pairwise (· < ·) ∧ ∀ c ∈ l, c < next

/-- The lists are in the order of registration, and what a teardown has before it in the
reverse. -/
structure Listed (s : OwnerHost P) : Prop where
  cleanups : ∀ f x, s.frames f = some x → Ascending x.cleanups s.nextCleanup
  children : ∀ f x, s.frames f = some x → Ascending x.children s.nextChild
  loops : ∀ f r cleanups children first, .tearing f r cleanups children first ∈ s.calls →
    cleanups.Pairwise (· > ·) ∧ children.Pairwise (· > ·)

section Listed

theorem Ascending.mono {l : List ℕ} {n m : ℕ} (h : Ascending l n) (hm : n ≤ m) : Ascending l m :=
  ⟨h.1, fun c hc => Nat.lt_of_lt_of_le (h.2 c hc) hm⟩

theorem Ascending.sublist {l k : List ℕ} {n : ℕ} (h : Ascending l n) (hk : k.Sublist l) :
    Ascending k n :=
  ⟨h.1.sublist hk, fun c hc => h.2 c (hk.subset hc)⟩

theorem Ascending.append {l : List ℕ} {n : ℕ} (h : Ascending l n) : Ascending (l ++ [n]) (n + 1) := by
  refine ⟨List.pairwise_append.mpr ⟨h.1, List.pairwise_singleton _ _, fun a ha b hb => ?_⟩,
    fun c hc => ?_⟩
  · rw [List.mem_singleton.mp hb]
    exact h.2 a ha
  · rcases List.mem_append.mp hc with hc | hc
    · exact Nat.lt_succ_of_lt (h.2 c hc)
    · rw [List.mem_singleton.mp hc]
      exact Nat.lt_succ_self n

theorem ascending_nil (n : ℕ) : Ascending [] n := ⟨.nil, fun c hc => by cases hc⟩

theorem sweep_sublist (gone : ℕ → Bool) (x : OwnerFrameState) :
    (sweep gone x).1.children.Sublist x.children := by
  unfold sweep
  split
  · exact List.Sublist.refl _
  · exact List.filter_sublist

theorem sweep_perm (gone : ℕ → Bool) (x : OwnerFrameState) :
    x.children.Perm ((sweep gone x).1.children ++ (sweep gone x).2) := by
  unfold sweep
  split
  · rw [List.append_nil]
  · have h := List.filter_append_perm (fun c => !gone c) x.children
    simp only [Bool.not_not] at h
    exact h.symm

theorem listed_empty : ({} : OwnerHost P).Listed where
  cleanups f x hx := by cases hx
  children f x hx := by cases hx
  loops f r cs ch first hm := by cases hm

theorem Listed.turn (h : s.Listed) (ht : Turn s t) : t.Listed where
  cleanups f y hy := by
    cases ht.entry hy with
    | same x hx hc => exact hc ▸ (h.cleanups f x hx).mono ht.fresh.1
    | adopted x hx hc => exact hc ▸ (h.cleanups f x hx).mono ht.fresh.1
    | added x hx hc hl hw he hn =>
      rw [hc, hn]
      exact (h.cleanups f x hx).append
    | empty hc => exact hc ▸ ascending_nil _
  children f y hy := by
    cases ht.entry hy with
    | same x hx hc hl => exact hl ▸ (h.children f x hx).mono ht.fresh.2
    | adopted x hx hc hl hw he hn =>
      rw [hl, hn]
      exact ((h.children f x hx).sublist (sweep_sublist _ _)).append
    | added x hx hc hl => exact hl ▸ (h.children f x hx).mono ht.fresh.2
    | empty hc hl => exact hl ▸ ascending_nil _
  loops f r cs ch first hm := by
    cases ht.loop hm with
    | same past first' hs =>
      obtain ⟨hcs, hch⟩ := h.loops f r _ ch first' hs
      exact ⟨hcs.sublist (List.sublist_append_right _ _), hch⟩
    | disposing past first' hs =>
      obtain ⟨hcs, hch⟩ := h.loops f r cs _ first' hs
      exact ⟨hcs, hch.sublist (List.sublist_append_right _ _)⟩
    | taken x hx hr hc hl =>
      rw [hc, hl]
      exact ⟨List.pairwise_reverse.mpr (h.cleanups f x hx).1,
        List.pairwise_reverse.mpr (h.children f x hx).1⟩

end Listed

theorem Reached.listed (h : Reached s) : s.Listed :=
  Runs.Reaches.invariant Listed listed_empty (fun _ _ _ hs _ ht => hs.turn (turn_step ht)) h

end OwnerHost

end Adaptite

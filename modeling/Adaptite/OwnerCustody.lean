import Adaptite.OwnerStacks

set_option autoImplicit false

namespace Adaptite

/-- How often an entry is on the lists of a frame. -/
def OwnerFrameState.holds (x : OwnerFrameState) : OwnerItem → ℕ
  | .cleanup c => x.cleanups.count c
  | .child c => x.children.count c

/-- How often a call has still to come to an entry. -/
def OwnerCall.due {P : Type} : OwnerCall P → OwnerItem → ℕ
  | .tearing _ _ cleanups _ _, .cleanup c => cleanups.count c
  | .tearing _ _ _ children _, .child c => children.count c
  | _, _ => 0

namespace OwnerHost

open OwnerCall

variable {P : Type} {s t : OwnerHost P} {f : FrameId} {x y : OwnerFrameState}
  {call : OwnerCall P} {rest : List (OwnerCall P)}

/-- How often a cleanup was run, or a child disposed by its owner or released by it. -/
def settled (s : OwnerHost P) : OwnerItem → ℕ
  | .cleanup c => s.ran.count c
  | .child c => s.attempted.count c + s.released.count c

def known (s : OwnerHost P) : OwnerItem → Prop
  | .cleanup c => c < s.nextCleanup
  | .child c => c < s.nextChild

instance (s : OwnerHost P) (i : OwnerItem) : Decidable (s.known i) :=
  match i with
  | .cleanup c => inferInstanceAs (Decidable (c < s.nextCleanup))
  | .child c => inferInstanceAs (Decidable (c < s.nextChild))

/-- How often the teardowns in progress have still to come to an entry. -/
def dueOf (calls : List (OwnerCall P)) (i : OwnerItem) : ℕ := (calls.map (·.due i)).sum

def places (s : OwnerHost P) (i : OwnerItem) : ℕ :=
  s.settled i + s.total (·.holds i) + dueOf s.calls i

def Conserved (s : OwnerHost P) : Prop := ∀ i, s.places i = if s.known i then 1 else 0

section Places

variable (i : OwnerItem)

theorem dueOf_cons (call : OwnerCall P) (rest : List (OwnerCall P)) :
    dueOf (call :: rest) i = call.due i + dueOf rest i := by
  unfold dueOf
  rw [List.map_cons, List.sum_cons]

theorem due_of_not_tearing (h : call.isTearing = false) : call.due i = 0 := by
  cases call with
  | tearing => cases h
  | _ => rfl

theorem dueOf_plain (h : call.isTearing = false) : dueOf (call :: rest) i = dueOf rest i := by
  rw [dueOf_cons, due_of_not_tearing i h, Nat.zero_add]

theorem isTearing_of_isPlain (h : call.isPlain = true) : call.isTearing = false := by
  cases call with
  | tearing => cases h
  | _ => rfl

theorem isTearing_of_isEntry (h : call.isEntry = true) : call.isTearing = false := by
  cases call with
  | tearing => cases h
  | _ => rfl

/-- Taking the lists of a frame leaves every entry to the teardown. -/
theorem due_reverse (r : ℕ) (first : Option P) :
    (OwnerCall.tearing f r x.cleanups.reverse x.children.reverse first).due i = x.holds i := by
  cases i with
  | cleanup c => exact List.count_reverse
  | child c => exact List.count_reverse

theorem conserved_empty : ({} : OwnerHost P).Conserved := by
  intro i
  cases i with
  | cleanup c => rfl
  | child c => rfl

theorem Conserved.same (h : s.Conserved) (hp : ∀ i, t.places i = s.places i)
    (hc : t.nextCleanup = s.nextCleanup) (hl : t.nextChild = s.nextChild) : t.Conserved := by
  intro i
  rw [hp, h i]
  have hknown : t.known i ↔ s.known i := by
    cases i with
    | cleanup c => exact iff_of_eq (congrArg (c < ·) hc)
    | child c => exact iff_of_eq (congrArg (c < ·) hl)
  exact if_congr hknown.symm rfl rfl

/-- Only the stack changes, and no teardown begins or goes on. -/
theorem Conserved.calls (h : s.Conserved) (hf : t.frames = s.frames)
    (hn : t.nextFrame = s.nextFrame) (hset : t.settled = s.settled)
    (hd : ∀ i, dueOf t.calls i = dueOf s.calls i) (hc : t.nextCleanup = s.nextCleanup)
    (hl : t.nextChild = s.nextChild) : t.Conserved := by
  refine h.same (fun i => ?_) hc hl
  unfold places total
  rw [hf, hn, hset, hd]

theorem Conserved.register (h : s.Conserved) {j : OwnerItem} (hj : ¬ s.known j)
    (hp : ∀ i, t.places i = s.places i + if i = j then 1 else 0)
    (hk : ∀ i, t.known i ↔ s.known i ∨ i = j) : t.Conserved := by
  intro i
  rw [hp, h i]
  by_cases hij : i = j
  · subst hij
    rw [if_neg hj, if_pos rfl, if_pos ((hk i).mpr (.inr rfl))]
  · rw [if_neg hij, Nat.add_zero]
    exact if_congr ⟨fun hs => (hk i).mpr (.inl hs), fun ht => ((hk i).mp ht).resolve_right hij⟩
      rfl rfl

end Places

section Turns

theorem known_succ_cleanup {s t : OwnerHost P} (hc : t.nextCleanup = s.nextCleanup + 1)
    (hl : t.nextChild = s.nextChild) (i : OwnerItem) :
    t.known i ↔ s.known i ∨ i = .cleanup s.nextCleanup := by
  cases i with
  | cleanup c =>
    change c < t.nextCleanup ↔ c < s.nextCleanup ∨ _
    rw [hc, OwnerItem.cleanup.injEq]
    omega
  | child c =>
    change c < t.nextChild ↔ c < s.nextChild ∨ _
    rw [hl]
    simp

theorem known_succ_child {s t : OwnerHost P} (hc : t.nextCleanup = s.nextCleanup)
    (hl : t.nextChild = s.nextChild + 1) (i : OwnerItem) :
    t.known i ↔ s.known i ∨ i = .child s.nextChild := by
  cases i with
  | cleanup c =>
    change c < t.nextCleanup ↔ c < s.nextCleanup ∨ _
    rw [hc]
    simp
  | child c =>
    change c < t.nextChild ↔ c < s.nextChild ∨ _
    rw [hl, OwnerItem.child.injEq]
    omega

theorem count_cons_eq (c d : ℕ) (l : List ℕ) :
    (c :: l).count d = l.count d + if d = c then 1 else 0 := by
  rw [List.count_cons]
  by_cases h : d = c
  · rw [if_pos h, if_pos (beq_iff_eq.mpr h.symm)]
  · rw [if_neg h, if_neg fun hc => h (beq_iff_eq.mp hc).symm]

theorem count_snoc_eq (c d : ℕ) (l : List ℕ) :
    (l ++ [c]).count d = l.count d + if d = c then 1 else 0 := by
  rw [List.count_append, count_cons_eq, List.count_nil, Nat.zero_add]

/-- An adoption adds the child to the frame, and moves those that the sweep releases. -/
theorem holds_adopt (gone : ℕ → Bool) (c : ℕ) (i : OwnerItem) :
    ({ (sweep gone x).1 with children := (sweep gone x).1.children ++ [c] } :
        OwnerFrameState).holds i + (OwnerFrameState.mk (sweep gone x).2 0 [] false false).holds i =
      x.holds i + if i = .child c then 1 else 0 := by
  cases i with
  | cleanup d =>
    change (sweep gone x).1.cleanups.count d + 0 = x.cleanups.count d + _
    rw [(sweep_fields gone x).1, if_neg (fun h => by cases h)]
  | child d =>
    change ((sweep gone x).1.children ++ [c]).count d + (sweep gone x).2.count d =
      x.children.count d + _
    have hperm := (sweep_perm gone x).count_eq d
    rw [List.count_append] at hperm
    rw [count_snoc_eq, hperm]
    simp only [OwnerItem.child.injEq]
    omega

theorem Conserved.adopt (h : s.Conserved) (hf : s.frames f = some x) (hb : f < s.nextFrame) :
    (s.adopt f x).Conserved := by
  have hnew : ¬ s.known (.child s.nextChild) := Nat.lt_irrefl _
  unfold OwnerHost.adopt
  dsimp only
  split
  · refine h.register hnew (fun i => ?_) (known_succ_child rfl rfl)
    unfold places
    rw [push, dueOf_plain i rfl]
    cases i with
    | cleanup c => rfl
    | child c =>
      change (s.nextChild :: s.attempted).count c + s.released.count c + s.total _ +
        dueOf s.calls _ = _
      rw [count_cons_eq]
      simp only [OwnerItem.child.injEq]
      change _ = s.attempted.count c + s.released.count c + s.total _ + dueOf s.calls _ + _
      omega
  · -- dropping the released children is a call on top
    have hplaces : ∀ i, (({ s.setFrame f { (sweep s.gone x).1 with
        children := (sweep s.gone x).1.children ++ [s.nextChild] } with
        nextChild := s.nextChild + 1
        released := (sweep s.gone x).2 ++ s.released } : OwnerHost P)).places i =
          s.places i + if i = .child s.nextChild then 1 else 0 := by
      intro i
      have hsum := total_setFrame (y := { (sweep s.gone x).1 with
        children := (sweep s.gone x).1.children ++ [s.nextChild] })
        (fun x : OwnerFrameState => x.holds i) hf hb
      have hadopt := holds_adopt (x := x) s.gone s.nextChild i
      unfold places
      cases i with
      | cleanup c =>
        change s.ran.count c + (s.setFrame f _).total _ + dueOf s.calls _ =
          s.ran.count c + s.total _ + dueOf s.calls _ + _
        change _ + (0 : ℕ) = _ at hadopt
        omega
      | child c =>
        change s.attempted.count c + ((sweep s.gone x).2 ++ s.released).count c +
          (s.setFrame f _).total _ + dueOf s.calls _ =
          s.attempted.count c + s.released.count c + s.total _ + dueOf s.calls _ + _
        change _ + (sweep s.gone x).2.count c = _ at hadopt
        rw [List.count_append]
        omega
    have hset := h.register hnew hplaces (known_succ_child rfl rfl)
    split
    · exact hset.same (fun _ => rfl) rfl rfl
    · refine hset.same (fun i => ?_) rfl rfl
      unfold places
      rw [push, dueOf_plain i rfl]
      rfl

theorem Conserved.addCleanup (h : s.Conserved) (hf : s.frames f = some x)
    (hb : f < s.nextFrame) : (s.addCleanup f x).Conserved := by
  have hnew : ¬ s.known (.cleanup s.nextCleanup) := Nat.lt_irrefl _
  unfold OwnerHost.addCleanup
  dsimp only
  split
  · refine h.register hnew (fun i => ?_) (known_succ_cleanup rfl rfl)
    unfold places
    rw [push, dueOf_plain i rfl]
    cases i with
    | child c => rfl
    | cleanup c =>
      change (s.nextCleanup :: s.ran).count c + s.total _ + dueOf s.calls _ = _
      rw [count_cons_eq]
      simp only [OwnerItem.cleanup.injEq]
      change _ = s.ran.count c + s.total _ + dueOf s.calls _ + _
      omega
  · refine h.register hnew (fun i => ?_) (known_succ_cleanup rfl rfl)
    have hsum := total_setFrame (y := { x with cleanups := x.cleanups ++ [s.nextCleanup] })
      (fun x : OwnerFrameState => x.holds i) hf hb
    unfold places
    cases i with
    | child c =>
      change s.settled (.child c) + (s.setFrame f _).total _ + dueOf s.calls _ = _
      change _ + x.children.count c = _ + x.children.count c at hsum
      rw [Nat.add_right_cancel hsum, if_neg (fun h => by cases h), Nat.add_zero]
    | cleanup c =>
      change s.ran.count c + (s.setFrame f _).total _ + dueOf s.calls _ =
        s.ran.count c + s.total _ + dueOf s.calls _ + _
      change _ + x.cleanups.count c = _ + (x.cleanups ++ [s.nextCleanup]).count c at hsum
      rw [count_snoc_eq] at hsum
      simp only [OwnerItem.cleanup.injEq]
      omega

theorem Conserved.taken (h : s.Conserved) {calls : List (OwnerCall P)} {stats : OwnershipStats}
    (hf : s.frames f = some x) (hb : f < s.nextFrame) (ho : s.Opens f x y calls stats) :
    (({ s with calls, stats } : OwnerHost P).reset f y).Conserved := by
  refine h.same (fun i => ?_) rfl rfl
  obtain ⟨hc, hl, -, -⟩ := ho.lists
  have hcalls : dueOf calls i = dueOf s.calls i := by
    cases ho with
    | reset => rfl
    | dispose => rfl
    | drop => exact dueOf_plain i rfl
    | proceed rest hs => rw [hs, dueOf_plain i rfl, dueOf_plain i rfl]
  have hsum := total_setFrame (y := { y with children := [], sweptAt := 0, cleanups := [] })
    (fun x : OwnerFrameState => x.holds i) hf hb
  have hempty : ({ y with children := [], sweptAt := 0, cleanups := [] } :
      OwnerFrameState).holds i = 0 := by
    cases i with
    | cleanup c => rfl
    | child c => rfl
  have hdue : (OwnerCall.tearing f s.nextReset y.cleanups.reverse y.children.reverse
      (none : Option P)).due i = x.holds i := by
    rw [hc, hl]
    exact due_reverse i _ _
  have hplaces : (({ s with calls, stats } : OwnerHost P).reset f y).places i = s.settled i +
      (s.setFrame f { y with children := [], sweptAt := 0, cleanups := [] }).total (·.holds i) +
      dueOf (.tearing f s.nextReset y.cleanups.reverse y.children.reverse none :: calls) i := by
    cases i with
    | cleanup c => rfl
    | child c => rfl
  rw [hplaces, dueOf_cons, hdue, hcalls]
  unfold places
  omega

/-- A step keeps every entry in one place, unless a teardown is left by a panic. -/
theorem Conserved.turn (h : s.Conserved) (hs : s.Sane) (ht : Turn s t)
    (hu : s.unwinding.isSome = true → ∀ g ∈ s.calls.head?, g.isTearing = false) :
    t.Conserved := by
  have hcalls : ∀ {calls : List (OwnerCall P)}, t.calls = calls → t.frames = s.frames →
      t.nextFrame = s.nextFrame → t.settled = s.settled → t.nextCleanup = s.nextCleanup →
      t.nextChild = s.nextChild → (∀ i, dueOf calls i = dueOf s.calls i) → t.Conserved :=
    fun hcs hf hn hset hc hl hd => h.calls hf hn hset (by rw [hcs]; exact hd) hc hl
  cases ht with
  | marked unwinding gone discarded hu hg hd ht =>
    subst ht
    exact h.same (fun _ => rfl) rfl rfl
  | pushed call unwinding hc hp ht =>
    subst ht
    exact hcalls rfl rfl rfl rfl rfl rfl fun i => dueOf_plain i (by cases hp <;> rfl)
  | popped call rest unwinding hc hp hu ht =>
    subst ht
    exact hcalls rfl rfl rfl rfl rfl rfl fun i => by
      rw [hc, dueOf_plain i (isTearing_of_isPlain hp)]
  | swapped c rest hc ht =>
    subst ht
    exact hcalls rfl rfl rfl rfl rfl rfl fun i => by
      rw [hc, dueOf_plain i rfl, dueOf_plain i rfl]
  | spilled c rest hc hu ht =>
    subst ht
    exact hcalls rfl rfl rfl rfl rfl rfl fun i => by rw [hc, dueOf_plain i rfl]
  | abandoned g r cs ch first rest hc hsome ht =>
    have hno := hu hsome (.tearing g r cs ch first) (hc ▸ rfl)
    cases hno
  | created effect ht =>
    subst ht
    refine h.same (fun i => ?_) rfl rfl
    have hempty : ({ effect } : OwnerFrameState).holds i = 0 := by
      cases i with
      | cleanup c => rfl
      | child c => rfl
    unfold places
    rw [total_create, hempty]
    rfl
  | adopted g x hc hx ht => exact ht ▸ h.adopt hx (hs.below g x hx)
  | added g x hc hx ht => exact ht ▸ h.addCleanup hx (hs.below g x hx)
  | taken g x z calls stats hx ho hu ht => exact ht ▸ h.taken hx (hs.below g x hx) ho
  | cleaned g r c cs ch first rest hc hu ht =>
    subst ht
    refine h.same (fun i => ?_) rfl rfl
    unfold places
    rw [dueOf_plain i rfl, hc, dueOf_cons, dueOf_cons]
    cases i with
    | child d => rfl
    | cleanup d =>
      change (c :: s.ran).count d + s.total _ + (cs.count d + _) =
        s.ran.count d + s.total _ + ((c :: cs).count d + _)
      rw [count_cons_eq, count_cons_eq]
      omega
  | disposed g r c ch first rest hc hu ht =>
    subst ht
    refine h.same (fun i => ?_) rfl rfl
    unfold places
    rw [dueOf_plain i rfl, hc, dueOf_cons, dueOf_cons]
    cases i with
    | cleanup d => rfl
    | child d =>
      change (c :: s.attempted).count d + s.released.count d + s.total _ + (ch.count d + _) =
        s.attempted.count d + s.released.count d + s.total _ + ((c :: ch).count d + _)
      rw [count_cons_eq, count_cons_eq]
      omega
  | ended g r first rest hc hu ht =>
    subst ht
    refine hcalls rfl rfl rfl rfl rfl rfl fun i => ?_
    rw [hc, dueOf_cons]
    cases i with
    | cleanup d => exact (Nat.zero_add _).symm
    | child d => exact (Nat.zero_add _).symm
  | caught entry above g r cs ch first rest p hc he ha hu ht =>
    subst ht
    refine hcalls rfl rfl rfl rfl rfl rfl fun i => ?_
    have hloop : dueOf (.tearing g r cs ch (first.or (some p)) :: rest) i = dueOf s.calls i := by
      rw [hc, dueOf_plain i (isTearing_of_isEntry he), dueOf_cons, dueOf_cons]
      cases i with
      | cleanup d => rfl
      | child d => rfl
    rcases ha with rfl | ⟨c, -, rfl⟩
    · exact hloop
    · exact (dueOf_plain i rfl).trans hloop
  | entered g rest hc hd hu ht =>
    subst ht
    exact hcalls rfl rfl rfl rfl rfl rfl fun i => by
      rw [hc, dueOf_plain i rfl, dueOf_plain i rfl]
  | vanished g rest hc ht =>
    subst ht
    have hmem : OwnerCall.dropping g ∈ s.calls := hc ▸ List.mem_cons_self
    obtain ⟨x, hx⟩ := Option.isSome_iff_exists.mp (hs.used _ hmem g (decide_eq_true rfl))
    obtain ⟨hcl, hch⟩ := hs.emptied g x hx (hs.dying g hmem x hx)
    refine h.same (fun i => ?_) rfl rfl
    have hsum := total_vanish (fun x : OwnerFrameState => x.holds i) hx (hs.below g x hx)
    have hempty : x.holds i = 0 := by
      cases i with
      | cleanup d =>
        change x.cleanups.count d = 0
        rw [hcl, List.count_nil]
      | child d =>
        change x.children.count d = 0
        rw [hch, List.count_nil]
    have hplaces : (({ s with calls := rest } : OwnerHost P).vanish g).places i =
        s.settled i + (s.vanish g).total (·.holds i) + dueOf rest i := by
      cases i with
      | cleanup d => rfl
      | child d => rfl
    rw [hplaces]
    unfold places
    rw [hc, dueOf_plain i rfl]
    omega

end Turns

theorem ReachedWhole.conserved (h : ReachedWhole s) : s.Conserved := by
  have hall : ReachedWhole s ∧ s.Conserved := by
    refine Runs.Reaches.invariant (fun s => ReachedWhole s ∧ s.Conserved)
      ⟨.init, conserved_empty⟩ (fun s op t hs hok ht => ⟨hs.1.next op hok ht, ?_⟩) h
    exact hs.2.turn hs.1.reached.sane (turn_step ht) hs.1.shaped.caught
  exact hall.2

section Whereabouts

variable {i : OwnerItem}

theorem holds_of_total (h : s.total (·.holds i) ≠ 0) :
    ∃ f x, s.frames f = some x ∧ x.holds i ≠ 0 := by
  by_contra hno
  push Not at hno
  refine h (Finset.sum_eq_zero fun f _ => ?_)
  cases hf : s.frames f with
  | none => rfl
  | some x => exact hno f x hf

theorem due_of_dueOf (h : dueOf s.calls i ≠ 0) : ∃ call ∈ s.calls, call.due i ≠ 0 := by
  by_contra hno
  push Not at hno
  refine h ?_
  unfold dueOf
  rw [List.sum_eq_zero_iff]
  intro n hn
  obtain ⟨call, hcall, rfl⟩ := List.mem_map.mp hn
  exact hno call hcall

theorem Conserved.settled (h : s.Conserved) (hi : s.known i)
    (hf : ∀ f x, s.frames f = some x → x.holds i = 0) (hc : ∀ call ∈ s.calls, call.due i = 0) :
    s.settled i = 1 := by
  have hplaces := h i
  rw [if_pos hi] at hplaces
  have htotal : s.total (·.holds i) = 0 := by
    by_contra hne
    obtain ⟨f, x, hx, hh⟩ := holds_of_total hne
    exact hh (hf f x hx)
  have hdue : dueOf s.calls i = 0 := by
    by_contra hne
    obtain ⟨call, hcall, hh⟩ := due_of_dueOf hne
    exact hh (hc call hcall)
  unfold places at hplaces
  omega

end Whereabouts

end OwnerHost

end Adaptite

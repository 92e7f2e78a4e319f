import Adaptite.OwnerLists

set_option autoImplicit false

namespace Adaptite

namespace OwnerHost

open OwnerCall

variable {P : Type} {s t : OwnerHost P} {op : OwnerStep P} {f : FrameId}
  {x y : OwnerFrameState} {call : OwnerCall P} {calls rest : List (OwnerCall P)}
  {Q R : OwnerCall P → List (OwnerCall P) → Prop}

/-- Each call stands as it should on the calls below it. -/
def Stacked (Q : OwnerCall P → List (OwnerCall P) → Prop) (calls : List (OwnerCall P)) : Prop :=
  ∀ call rest, call :: rest <:+ calls → Q call rest

section Stacked

theorem stacked_nil : Stacked Q [] := by
  intro call rest h
  cases List.suffix_nil.mp h

theorem Stacked.top (h : Stacked Q (call :: rest)) : Q call rest :=
  h call rest (List.suffix_refl _)

theorem Stacked.below (h : Stacked Q calls) (hs : rest <:+ calls) : Stacked Q rest :=
  fun c r hc => h c r (hc.trans hs)

theorem Stacked.tail (h : Stacked Q calls) (hs : calls = call :: rest) : Stacked Q rest :=
  h.below (hs ▸ List.suffix_cons call rest)

theorem Stacked.cons (h : Stacked Q rest) (hq : Q call rest) : Stacked Q (call :: rest) := by
  intro c r hc
  rcases List.suffix_cons_iff.mp hc with heq | hc
  · cases heq
    exact hq
  · exact h c r hc

theorem Stacked.imp (h : Stacked Q calls)
    (hr : ∀ call rest, call :: rest <:+ calls → Q call rest → R call rest) : Stacked R calls :=
  fun c r hc => hr c r hc (h c r hc)

theorem Stacked.of_mem (h : Stacked Q calls) (hm : call ∈ calls) :
    ∃ rest, call :: rest <:+ calls ∧ Q call rest := by
  obtain ⟨above, rest, rfl⟩ := List.append_of_mem hm
  exact ⟨rest, List.suffix_append _ _, h call rest (List.suffix_append _ _)⟩

end Stacked

section Origins

theorem Turn.origins (ht : Turn s t) :
    (∀ c < s.nextCleanup, t.cleanupBy c = s.cleanupBy c) ∧
      ∀ c < s.nextChild, t.childBy c = s.childBy c := by
  have hsame : t.cleanupBy = s.cleanupBy → t.childBy = s.childBy →
      (∀ c < s.nextCleanup, t.cleanupBy c = s.cleanupBy c) ∧
        ∀ c < s.nextChild, t.childBy c = s.childBy c :=
    fun hc hl => ⟨fun c _ => congrFun hc c, fun c _ => congrFun hl c⟩
  cases ht with
  | adopted g x hc hx ht =>
    subst ht
    have hupdate : (s.adopt g x).cleanupBy = s.cleanupBy ∧
        (s.adopt g x).childBy = Function.update s.childBy s.nextChild (s.origin g) := by
      unfold OwnerHost.adopt
      dsimp only
      split
      · exact ⟨rfl, rfl⟩
      · split
        · exact ⟨rfl, rfl⟩
        · exact ⟨rfl, rfl⟩
    rw [hupdate.1, hupdate.2]
    exact ⟨fun c _ => rfl, fun c hc => Function.update_of_ne (Nat.ne_of_lt hc) _ _⟩
  | added g x hc hx ht =>
    subst ht
    have hupdate : (s.addCleanup g x).childBy = s.childBy ∧ (s.addCleanup g x).cleanupBy =
        Function.update s.cleanupBy s.nextCleanup (s.origin g) := by
      unfold OwnerHost.addCleanup
      dsimp only
      split
      · exact ⟨rfl, rfl⟩
      · exact ⟨rfl, rfl⟩
    rw [hupdate.1, hupdate.2]
    exact ⟨fun c hc => Function.update_of_ne (Nat.ne_of_lt hc) _ _, fun c _ => rfl⟩
  | marked unwinding gone discarded hu hg hd ht => exact hsame (ht ▸ rfl) (ht ▸ rfl)
  | pushed call unwinding hc hp ht => exact hsame (ht ▸ rfl) (ht ▸ rfl)
  | popped call rest unwinding hs hp hu ht => exact hsame (ht ▸ rfl) (ht ▸ rfl)
  | swapped c rest hs ht => exact hsame (ht ▸ rfl) (ht ▸ rfl)
  | spilled c rest hs hu ht => exact hsame (ht ▸ rfl) (ht ▸ rfl)
  | abandoned g r cs ch first rest hs hu ht => exact hsame (ht ▸ rfl) (ht ▸ rfl)
  | created effect ht => exact hsame (ht ▸ rfl) (ht ▸ rfl)
  | taken g x z calls stats hx ho hu ht => exact hsame (ht ▸ rfl) (ht ▸ rfl)
  | cleaned g r c cs ch first rest hs hu ht => exact hsame (ht ▸ rfl) (ht ▸ rfl)
  | disposed g r c ch first rest hs hu ht => exact hsame (ht ▸ rfl) (ht ▸ rfl)
  | ended g r first rest hs hu ht => exact hsame (ht ▸ rfl) (ht ▸ rfl)
  | caught entry above g r cs ch first rest p hs he ha hu ht => exact hsame (ht ▸ rfl) (ht ▸ rfl)
  | entered g rest hs hd hu ht => exact hsame (ht ▸ rfl) (ht ▸ rfl)
  | vanished g rest hs ht => exact hsame (ht ▸ rfl) (ht ▸ rfl)

/-- The cleanup, or the child, has been registered on the frame. -/
def ownsCleanup (s : OwnerHost P) (f : FrameId) (c : ℕ) : Prop :=
  c < s.nextCleanup ∧ (s.cleanupBy c).frame = f

def ownsChild (s : OwnerHost P) (f : FrameId) (c : ℕ) : Prop :=
  c < s.nextChild ∧ (s.childBy c).frame = f

theorem Turn.ownsCleanup {c : ℕ} (ht : Turn s t) (h : s.ownsCleanup f c) : t.ownsCleanup f c :=
  ⟨Nat.lt_of_lt_of_le h.1 ht.fresh.1, by rw [ht.origins.1 c h.1]; exact h.2⟩

theorem Turn.ownsChild {c : ℕ} (ht : Turn s t) (h : s.ownsChild f c) : t.ownsChild f c :=
  ⟨Nat.lt_of_lt_of_le h.1 ht.fresh.2, by rw [ht.origins.2 c h.1]; exact h.2⟩

/-- What is on the lists of a frame, or before a teardown of it, was registered on it. -/
structure Home (s : OwnerHost P) : Prop where
  cleanups : ∀ f x, s.frames f = some x → ∀ c ∈ x.cleanups, s.ownsCleanup f c
  children : ∀ f x, s.frames f = some x → ∀ c ∈ x.children, s.ownsChild f c
  loops : ∀ f r cleanups children first, .tearing f r cleanups children first ∈ s.calls →
    (∀ c ∈ cleanups, s.ownsCleanup f c) ∧ ∀ c ∈ children, s.ownsChild f c

theorem home_empty : ({} : OwnerHost P).Home where
  cleanups f x hx := by cases hx
  children f x hx := by cases hx
  loops f r cs ch first hm := by cases hm

theorem Home.turn (h : s.Home) (ht : Turn s t) : t.Home where
  cleanups f y hy c hc := by
    cases ht.entry hy with
    | same x hx hcl => exact ht.ownsCleanup (h.cleanups f x hx c (hcl ▸ hc))
    | adopted x hx hcl => exact ht.ownsCleanup (h.cleanups f x hx c (hcl ▸ hc))
    | added x hx hcl hl hw he hn hb =>
      rw [hcl] at hc
      rcases List.mem_append.mp hc with hc | hc
      · exact ht.ownsCleanup (h.cleanups f x hx c hc)
      · cases List.mem_singleton.mp hc
        refine ⟨hn ▸ Nat.lt_succ_self _, ?_⟩
        rw [hb, Function.update_self]
        rfl
    | empty hcl =>
      rw [hcl] at hc
      cases hc
  children f y hy c hc := by
    cases ht.entry hy with
    | same x hx hcl hl => exact ht.ownsChild (h.children f x hx c (hl ▸ hc))
    | added x hx hcl hl => exact ht.ownsChild (h.children f x hx c (hl ▸ hc))
    | adopted x hx hcl hl hw he hn hb =>
      rw [hl] at hc
      rcases List.mem_append.mp hc with hc | hc
      · exact ht.ownsChild (h.children f x hx c ((sweep_sublist _ _).subset hc))
      · cases List.mem_singleton.mp hc
        refine ⟨hn ▸ Nat.lt_succ_self _, ?_⟩
        rw [hb, Function.update_self]
        rfl
    | empty hcl hl =>
      rw [hl] at hc
      cases hc
  loops f r cs ch first hm := by
    cases ht.loop hm with
    | same past first' hs =>
      obtain ⟨hcs, hch⟩ := h.loops f r _ ch first' hs
      exact ⟨fun c hc => ht.ownsCleanup (hcs c (List.mem_append_right _ hc)),
        fun c hc => ht.ownsChild (hch c hc)⟩
    | disposing past first' hs =>
      obtain ⟨hcs, hch⟩ := h.loops f r cs _ first' hs
      exact ⟨fun c hc => ht.ownsCleanup (hcs c hc),
        fun c hc => ht.ownsChild (hch c (List.mem_append_right _ hc))⟩
    | taken x hx hr hcl hl =>
      subst hcl hl
      exact ⟨fun c hc => ht.ownsCleanup (h.cleanups f x hx c (List.mem_reverse.mp hc)),
        fun c hc => ht.ownsChild (h.children f x hx c (List.mem_reverse.mp hc))⟩

end Origins

/-- The calls that the loops of a teardown make stand directly on it, and nothing else does. -/
def Fits (s : OwnerHost P) (call : OwnerCall P) (rest : List (OwnerCall P)) : Prop :=
  (∀ g ∈ rest.head?, g.isTearing = true → call.isEntry = true) ∧
  (∀ c, call = .cleaning c → ∃ f r cleanups children first below,
    rest = .tearing f r cleanups children first :: below ∧ s.ownsCleanup f c) ∧
  ∀ c, call = .disposing c ∨ call = .releasing c → ∃ f r cleanups children first below,
    rest = .tearing f r cleanups children first :: below ∧ s.ownsChild f c

/-- No panic is on its way where a teardown is next on the stack. -/
structure Shaped (s : OwnerHost P) : Prop where
  fits : Stacked s.Fits s.calls
  caught : s.unwinding.isSome = true → ∀ g ∈ s.calls.head?, g.isTearing = false

section Shaped

/-- A call that is not an entry may stand on anything but a teardown. -/
theorem fits_of_not_entry (he : call.isEntry = false)
    (hr : ∀ g ∈ rest.head?, g.isTearing = false) : s.Fits call rest := by
  refine ⟨fun g hg ht => ?_, fun c hc => ?_, fun c hc => ?_⟩
  · rw [hr g hg] at ht
    cases ht
  · rw [hc] at he
    cases he
  · rcases hc with hc | hc
    · rw [hc] at he
      cases he
    · rw [hc] at he
      cases he

section Entries

variable {r c : ℕ} {cleanups children : List ℕ} {first : Option P}

theorem fits_cleaning (h : s.ownsCleanup f c) :
    s.Fits (.cleaning c) (.tearing f r cleanups children first :: rest) := by
  refine ⟨fun g _ _ => rfl, fun c' hc => ?_, fun c' hc => ?_⟩
  · cases hc
    exact ⟨f, r, cleanups, children, first, rest, rfl, h⟩
  · rcases hc with hc | hc
    · cases hc
    · cases hc

theorem fits_child (hcall : call = .disposing c ∨ call = .releasing c) (h : s.ownsChild f c) :
    s.Fits call (.tearing f r cleanups children first :: rest) := by
  refine ⟨fun g _ _ => ?_, fun c' hc => ?_, fun c' hc => ?_⟩
  · rcases hcall with rfl | rfl
    · rfl
    · rfl
  · rcases hcall with rfl | rfl
    · cases hc
    · cases hc
  · have hc' : c' = c := by
      rcases hcall with rfl | rfl
      · rcases hc with hc | hc
        · exact (OwnerCall.disposing.inj hc).symm
        · cases hc
      · rcases hc with hc | hc
        · cases hc
        · exact (OwnerCall.releasing.inj hc).symm
    exact hc' ▸ ⟨f, r, cleanups, children, first, rest, rfl, h⟩

end Entries

theorem Fits.turn (h : s.Fits call rest) (ht : Turn s t) : t.Fits call rest := by
  refine ⟨h.1, fun c hc => ?_, fun c hc => ?_⟩
  · obtain ⟨f, r, cs, ch, first, below, hrest, hown⟩ := h.2.1 c hc
    exact ⟨f, r, cs, ch, first, below, hrest, ht.ownsCleanup hown⟩
  · obtain ⟨f, r, cs, ch, first, below, hrest, hown⟩ := h.2.2 c hc
    exact ⟨f, r, cs, ch, first, below, hrest, ht.ownsChild hown⟩

theorem head_of_inCode (h : s.inCode = true) : ∀ g ∈ s.calls.head?, g.isTearing = false := by
  intro g hg
  unfold inCode at h
  cases hc : s.calls with
  | nil =>
    rw [hc] at hg
    cases hg
  | cons call rest =>
    rw [hc] at h hg
    cases hg
    cases g with
    | tearing => cases h
    | _ => rfl

theorem Fits.head (h : s.Fits call rest) (he : call.isEntry = false) :
    ∀ g ∈ rest.head?, g.isTearing = false := by
  intro g hg
  by_contra ht
  rw [h.1 g hg (Bool.eq_true_of_not_eq_false ht)] at he
  cases he

theorem shaped_empty : ({} : OwnerHost P).Shaped where
  fits := stacked_nil
  caught h := by cases h

theorem Shaped.same (h : s.Shaped) (ht : Turn s t) (hc : t.calls = s.calls)
    (hu : t.unwinding.isSome = true → ∀ g ∈ s.calls.head?, g.isTearing = false) : t.Shaped where
  fits := hc ▸ h.fits.imp fun _ _ _ hf => hf.turn ht
  caught hs := by
    rw [hc]
    exact hu hs

/-- A call that is not an entry is made where code is in control. -/
theorem Shaped.push (h : s.Shaped) (ht : Turn s t) (hc : t.calls = call :: s.calls)
    (he : call.isEntry = false) (hcode : s.inCode = true) (hu : t.unwinding = none) :
    t.Shaped where
  fits := by
    rw [hc]
    refine Stacked.cons (h.fits.imp fun _ _ _ hf => hf.turn ht) ?_
    exact fits_of_not_entry he (head_of_inCode hcode)
  caught hs := by
    rw [hu] at hs
    cases hs

theorem Shaped.pop (h : s.Shaped) (ht : Turn s t) (hs : s.calls = call :: rest)
    (hc : t.calls = rest)
    (hu : t.unwinding.isSome = true → ∀ g ∈ rest.head?, g.isTearing = false) : t.Shaped where
  fits := by
    rw [hc]
    exact (h.fits.tail hs).imp fun _ _ _ hf => hf.turn ht
  caught hsome := by
    rw [hc]
    exact hu hsome

theorem Shaped.taken (h : s.Shaped) {calls : List (OwnerCall P)} {stats : OwnershipStats}
    (ht : Turn s (({ s with calls, stats } : OwnerHost P).reset f y))
    (ho : s.Opens f x y calls stats) (hu : s.unwinding = none) :
    (({ s with calls, stats } : OwnerHost P).reset f y).Shaped where
  fits := by
    have hkeep : Stacked (({ s with calls, stats } : OwnerHost P).reset f y).Fits s.calls :=
      h.fits.imp fun _ _ _ hf => hf.turn ht
    cases ho with
    | reset hc => exact hkeep.cons (fits_of_not_entry rfl (head_of_inCode hc))
    | dispose hc => exact hkeep.cons (fits_of_not_entry rfl (head_of_inCode hc))
    | drop hc =>
      refine Stacked.cons (hkeep.cons (fits_of_not_entry rfl (head_of_inCode hc))) ?_
      refine fits_of_not_entry rfl fun g hg => ?_
      cases hg
      rfl
    | proceed rest hs =>
      rw [hs] at hkeep
      refine Stacked.cons ((hkeep.tail rfl).cons ?_) ?_
      · exact fits_of_not_entry rfl (hkeep.top.head rfl)
      · refine fits_of_not_entry rfl fun g hg => ?_
        cases hg
        rfl
  caught hs := by
    change s.unwinding.isSome = true at hs
    rw [hu] at hs
    cases hs

theorem Shaped.turn (h : s.Shaped) (hh : s.Home) (ht : Turn s t)
    (hsp : ∀ c rest, s.calls = .releasing c :: rest → s.unwinding.isSome = true →
      t.calls ≠ rest) : t.Shaped := by
  have hturn := ht
  have hkeep : Stacked t.Fits s.calls := h.fits.imp fun _ _ _ hf => hf.turn hturn
  cases ht with
  | marked unwinding gone discarded hu hg hd ht =>
    subst ht
    refine h.same hturn rfl fun hs => ?_
    rcases hu with rfl | rfl | hc
    · exact h.caught hs
    · cases hs
    · exact head_of_inCode hc
  | pushed call unwinding hc hp ht =>
    subst ht
    refine h.push hturn rfl ?_ hc ?_
    · cases hp <;> rfl
    · cases hp <;> rfl
  | popped call rest unwinding hs hp hu ht =>
    subst ht
    refine h.pop hturn hs rfl fun hsome => ?_
    rcases hu with rfl | he | hr
    · cases hsome
    · rw [hs] at hkeep
      exact hkeep.top.head he
    · exact hr
  | swapped c rest hs ht =>
    subst ht
    rw [hs] at hkeep
    obtain ⟨f, r, cs, ch, first, below, rfl, hown⟩ := hkeep.top.2.2 c (.inl rfl)
    refine ⟨(hkeep.tail rfl).cons (fits_child (.inr rfl) hown), fun _ g hg => ?_⟩
    cases hg
    rfl
  | spilled c rest hs hu ht => exact absurd (ht ▸ rfl) (hsp c rest hs hu)
  | abandoned g r cs ch first rest hs hu ht =>
    have hno := h.caught hu (.tearing g r cs ch first) (hs ▸ rfl)
    cases hno
  | created effect ht =>
    subst ht
    exact h.same hturn rfl h.caught
  | adopted g x hc hx ht =>
    subst ht
    obtain ⟨hu, hcode⟩ := unwinding_of_calling hc
    unfold OwnerHost.adopt at hturn ⊢
    dsimp only at hturn ⊢
    split at hturn
    · rename_i hd
      rw [if_pos hd]
      exact h.push hturn rfl rfl hcode hu
    · rename_i hd
      rw [if_neg hd]
      split at hturn
      · rename_i he
        rw [if_pos he]
        exact h.same hturn rfl h.caught
      · rename_i he
        rw [if_neg he]
        exact h.push hturn rfl rfl hcode hu
  | added g x hc hx ht =>
    subst ht
    obtain ⟨hu, hcode⟩ := unwinding_of_calling hc
    unfold OwnerHost.addCleanup at hturn ⊢
    dsimp only at hturn ⊢
    split at hturn
    · rename_i hd
      rw [if_pos hd]
      exact h.push hturn rfl rfl hcode hu
    · rename_i hd
      rw [if_neg hd]
      exact h.same hturn rfl h.caught
  | taken g x z calls stats hx ho hu ht =>
    subst ht
    exact h.taken hturn ho hu
  | cleaned g r c cs ch first rest hs hu ht =>
    subst ht
    have hown := (hh.loops g r _ ch first (hs ▸ List.mem_cons_self)).1 c List.mem_cons_self
    rw [hs] at hkeep
    have hloop := (hkeep.tail rfl).cons
      (show Fits _ (.tearing g r cs ch first) rest from fits_of_not_entry rfl (hkeep.top.head rfl))
    refine ⟨hloop.cons (fits_cleaning (hturn.ownsCleanup hown)), fun hsome => ?_⟩
    change s.unwinding.isSome = true at hsome
    rw [hu] at hsome
    cases hsome
  | disposed g r c ch first rest hs hu ht =>
    subst ht
    have hown := (hh.loops g r [] _ first (hs ▸ List.mem_cons_self)).2 c List.mem_cons_self
    rw [hs] at hkeep
    have hloop := (hkeep.tail rfl).cons
      (show Fits _ (.tearing g r [] ch first) rest from fits_of_not_entry rfl (hkeep.top.head rfl))
    refine ⟨hloop.cons (fits_child (.inl rfl) (hturn.ownsChild hown)), fun hsome => ?_⟩
    change s.unwinding.isSome = true at hsome
    rw [hu] at hsome
    cases hsome
  | ended g r first rest hs hu ht =>
    subst ht
    rw [hs] at hkeep
    exact h.pop hturn hs rfl fun _ => hkeep.top.head rfl
  | caught entry above g r cs ch first rest p hs he ha hu ht =>
    subst ht
    rw [hs] at hkeep
    have hloop : Stacked _ (.tearing g r cs ch (first.or (some p)) :: rest) :=
      ((hkeep.tail rfl).tail rfl).cons
        (fits_of_not_entry rfl ((hkeep.tail rfl).top.head rfl))
    refine ⟨?_, fun hsome => by cases hsome⟩
    rcases ha with rfl | ⟨c, rfl, rfl⟩
    · exact hloop
    · obtain ⟨g', r', cs', ch', first', below, hrest, hown⟩ := hkeep.top.2.2 c (.inl rfl)
      cases hrest
      exact hloop.cons (fits_child (.inr rfl) hown)
  | entered g rest hs hd hu ht =>
    subst ht
    rw [hs] at hkeep
    refine ⟨(hkeep.tail rfl).cons (fits_of_not_entry rfl (hkeep.top.head rfl)), fun hsome => ?_⟩
    change s.unwinding.isSome = true at hsome
    rw [hu] at hsome
    cases hsome
  | vanished g rest hs ht =>
    subst ht
    rw [hs] at hkeep
    exact h.pop hturn hs rfl fun _ => hkeep.top.head rfl

end Shaped

abbrev ReachedWhole (s : OwnerHost P) : Prop :=
  Runs.Reaches step (fun s op => (!s.spills op) = true) {} s

theorem ReachedWhole.reached (h : ReachedWhole s) : Reached s :=
  Runs.Reaches.invariant Reached .init (fun _ _ _ hs _ ht => hs.next _ rfl ht) h

theorem Reached.home (h : Reached s) : s.Home :=
  Runs.Reaches.invariant Home home_empty (fun _ _ _ hs _ ht => hs.turn (turn_step ht)) h

theorem ReachedWhole.shaped (h : ReachedWhole s) : s.Shaped := by
  have hboth : s.Home ∧ s.Shaped := by
    refine Runs.Reaches.invariant (fun s => s.Home ∧ s.Shaped) ⟨home_empty, shaped_empty⟩
      (fun s op t hs hok ht => ⟨hs.1.turn (turn_step ht), ?_⟩) h
    refine hs.2.turn hs.1 (turn_step ht) fun c rest hc hu hcalls => ?_
    rw [spills_of_spilled ht hc hu hcalls] at hok
    cases hok
  exact hboth.2

end OwnerHost

end Adaptite

import Adaptite.OwnerCustody
import Adaptite.Sweeps

set_option autoImplicit false

namespace Adaptite

namespace OwnerHost

open OwnerCall

variable {P : Type} {s t : OwnerHost P} {op : OwnerStep P} {f : FrameId} {r : ℕ}
  {x y : OwnerFrameState} {call : OwnerCall P} {calls rest : List (OwnerCall P)}
  {cleanups children : List ℕ} {first : Option P}

/-- The entries in the order in which a teardown comes to them. -/
def entries (cleanups children : List ℕ) : List OwnerItem :=
  cleanups.map OwnerItem.cleanup ++ children.map OwnerItem.child

def resetsOf : List (OwnerCall P) → List ℕ
  | [] => []
  | .tearing _ r _ _ _ :: rest => r :: resetsOf rest
  | _ :: rest => resetsOf rest

/-- What a reset in progress has come to and what it has before it are what it has taken; it
knows the first panic; and it is on the stack once. -/
def Journal (s : OwnerHost P) (call : OwnerCall P) (rest : List (OwnerCall P)) : Prop :=
  ∀ f r cleanups children first, call = .tearing f r cleanups children first →
    r < s.nextReset ∧ (s.done r).reverse ++ entries cleanups children = s.taken r ∧
      first = (s.panics r).getLast? ∧ s.outset r = panicking rest ∧ r ∉ resetsOf rest

structure Logged (s : OwnerHost P) : Prop where
  loops : Stacked s.Journal s.calls
  ended : ∀ r < s.nextReset, r ∉ resetsOf s.calls → (s.done r).reverse = s.taken r
  fresh : ∀ r, s.nextReset ≤ r → s.done r = [] ∧ s.panics r = []
  ordered : ∀ r < s.nextReset, ∃ cleanups children, s.taken r = entries cleanups children ∧
    cleanups.Pairwise (· > ·) ∧ children.Pairwise (· > ·)

section Journal

theorem resetsOf_plain (h : call.isTearing = false) : resetsOf (call :: rest) = resetsOf rest := by
  cases call with
  | tearing => cases h
  | _ => rfl

theorem mem_resetsOf (h : .tearing f r cleanups children first ∈ calls) : r ∈ resetsOf calls := by
  induction calls with
  | nil => cases h
  | cons call rest ih =>
    rcases List.mem_cons.mp h with rfl | hm
    · exact List.mem_cons_self
    · cases call with
      | tearing => exact List.mem_cons_of_mem _ (ih hm)
      | _ => exact ih hm

theorem exists_of_mem_resetsOf (h : r ∈ resetsOf calls) :
    ∃ f cleanups children first, .tearing f r cleanups children first ∈ calls := by
  induction calls with
  | nil => cases h
  | cons call rest ih =>
    cases call with
    | tearing g q cs ch p =>
      rcases List.mem_cons.mp h with rfl | hm
      · exact ⟨g, cs, ch, p, List.mem_cons_self⟩
      · obtain ⟨g', cs', ch', p', hm⟩ := ih hm
        exact ⟨g', cs', ch', p', List.mem_cons_of_mem _ hm⟩
    | _ =>
      obtain ⟨g', cs', ch', p', hm⟩ := ih h
      exact ⟨g', cs', ch', p', List.mem_cons_of_mem _ hm⟩

theorem journal_of_not_tearing (h : call.isTearing = false) : s.Journal call rest := by
  intro f r cs ch first heq
  rw [heq] at h
  cases h

theorem Journal.same (h : s.Journal call rest) (hn : s.nextReset ≤ t.nextReset)
    (hr : ∀ f r cleanups children first, call = .tearing f r cleanups children first →
      r < s.nextReset → t.done r = s.done r ∧ t.taken r = s.taken r ∧ t.panics r = s.panics r ∧
        t.outset r = s.outset r) : t.Journal call rest := by
  intro f r cs ch first hc
  obtain ⟨hlt, htaken, hfirst, hout, hno⟩ := h f r cs ch first hc
  obtain ⟨hd, ht, hp, ho⟩ := hr f r cs ch first hc hlt
  rw [hd, ht, hp, ho]
  exact ⟨Nat.lt_of_lt_of_le hlt hn, htaken, hfirst, hout, hno⟩

theorem logged_empty : ({} : OwnerHost P).Logged where
  loops := stacked_nil
  ended r hr := absurd hr (Nat.not_lt_zero r)
  fresh _ _ := ⟨rfl, rfl⟩
  ordered r hr := absurd hr (Nat.not_lt_zero r)

structure SameJournal (s t : OwnerHost P) : Prop where
  nextReset : t.nextReset = s.nextReset
  taken : t.taken = s.taken
  done : t.done = s.done
  panics : t.panics = s.panics
  outset : t.outset = s.outset

theorem Logged.keep (h : s.Logged) (hj : SameJournal s t) : Stacked t.Journal s.calls :=
  h.loops.imp fun _ _ _ hq => hq.same (Nat.le_of_eq hj.nextReset.symm) fun _ _ _ _ _ _ _ =>
    ⟨congrFun hj.done _, congrFun hj.taken _, congrFun hj.panics _, congrFun hj.outset _⟩

/-- The journal is the same, and so are the resets on the stack. -/
theorem Logged.same (h : s.Logged) (hj : SameJournal s t) (hs : Stacked t.Journal t.calls)
    (hr : ∀ r, r ∈ resetsOf s.calls → r ∈ resetsOf t.calls) : t.Logged where
  loops := hs
  ended r hlt hno := by
    rw [hj.nextReset] at hlt
    rw [hj.done, hj.taken]
    exact h.ended r hlt fun hm => hno (hr r hm)
  fresh := by
    rw [hj.nextReset, hj.done, hj.panics]
    exact h.fresh
  ordered := by
    rw [hj.nextReset, hj.taken]
    exact h.ordered

theorem Logged.push (h : s.Logged) (hj : SameJournal s t) (hc : t.calls = call :: s.calls)
    (hcall : call.isTearing = false) : t.Logged := by
  refine h.same hj ?_ fun r hr => ?_
  · rw [hc]
    exact (h.keep hj).cons (journal_of_not_tearing hcall)
  · rw [hc, resetsOf_plain hcall]
    exact hr

/-- The innermost call, not a teardown, is left or replaced by another. -/
theorem Logged.swap (h : s.Logged) (hj : SameJournal s t) (hs : s.calls = call :: rest)
    (hcall : call.isTearing = false) {above : List (OwnerCall P)}
    (habove : above = [] ∨ ∃ c, above = [c] ∧ c.isTearing = false)
    (hc : t.calls = above ++ rest) : t.Logged := by
  have htail : Stacked t.Journal rest := (h.keep hj).tail hs
  have hmem : ∀ r, r ∈ resetsOf s.calls → r ∈ resetsOf rest := fun r hr => by
    rwa [hs, resetsOf_plain hcall] at hr
  rcases habove with rfl | ⟨c, rfl, hplain⟩
  · exact h.same hj (hc ▸ htail) fun r hr => hc ▸ hmem r hr
  · refine h.same hj ?_ fun r hr => ?_
    · rw [hc]
      exact htail.cons (journal_of_not_tearing hplain)
    · rw [hc]
      exact (resetsOf_plain hplain).symm ▸ hmem r hr

end Journal

section Turns

theorem Logged.adopt (h : s.Logged) : (s.adopt f x).Logged := by
  unfold OwnerHost.adopt
  dsimp only
  split
  · exact h.push ⟨rfl, rfl, rfl, rfl, rfl⟩ rfl rfl
  · split
    · exact h.same ⟨rfl, rfl, rfl, rfl, rfl⟩ (h.keep ⟨rfl, rfl, rfl, rfl, rfl⟩) fun _ => id
    · exact h.push ⟨rfl, rfl, rfl, rfl, rfl⟩ rfl rfl

theorem Logged.addCleanup (h : s.Logged) : (s.addCleanup f x).Logged := by
  unfold OwnerHost.addCleanup
  dsimp only
  split
  · exact h.push ⟨rfl, rfl, rfl, rfl, rfl⟩ rfl rfl
  · exact h.same ⟨rfl, rfl, rfl, rfl, rfl⟩ (h.keep ⟨rfl, rfl, rfl, rfl, rfl⟩) fun _ => id

theorem Opens.calls_cases {stats : OwnershipStats} (ho : s.Opens f x y calls stats) :
    calls = s.calls ∨ (calls = .dropping f :: s.calls) ∨
      ∃ rest, s.calls = .verifying f :: rest ∧ calls = .resetting f :: rest := by
  cases ho with
  | reset => exact .inl rfl
  | dispose => exact .inl rfl
  | drop => exact .inr (.inl rfl)
  | proceed rest hs => exact .inr (.inr ⟨rest, hs, rfl⟩)

theorem Logged.taken (h : s.Logged) (hl : s.Listed) {stats : OwnershipStats}
    (hx : s.frames f = some x) (ho : s.Opens f x y calls stats) :
    (({ s with calls, stats } : OwnerHost P).reset f y).Logged := by
  obtain ⟨hc, hch, -, -⟩ := ho.lists
  have hbelow : ({ s with calls, stats } : OwnerHost P).Logged := by
    rcases ho.calls_cases with rfl | rfl | ⟨rest, hs, rfl⟩
    · exact h.same ⟨rfl, rfl, rfl, rfl, rfl⟩ h.loops fun _ => id
    · exact h.push ⟨rfl, rfl, rfl, rfl, rfl⟩ rfl rfl
    · exact h.swap ⟨rfl, rfl, rfl, rfl, rfl⟩ hs rfl (.inr ⟨.resetting f, rfl, rfl⟩) rfl
  have hold : ∀ r, r ∈ resetsOf calls → r < s.nextReset := by
    intro r hr
    obtain ⟨g, cs, ch', first, hm⟩ := exists_of_mem_resetsOf hr
    obtain ⟨rest, -, hq⟩ := hbelow.loops.of_mem hm
    exact (hq g r cs ch' first rfl).1
  obtain ⟨hdone, hpanics⟩ := h.fresh s.nextReset (Nat.le_refl _)
  exact {
    loops := by
      refine Stacked.cons (hbelow.loops.imp fun call rest _ hq => hq.same (Nat.le_succ _)
        fun g r cs ch' first _ hlt => ?_) ?_
      · have hne : r ≠ s.nextReset := Nat.ne_of_lt hlt
        exact ⟨rfl, Function.update_of_ne hne _ _, rfl, Function.update_of_ne hne _ _⟩
      · intro g r cs ch' first heq
        cases heq
        refine ⟨Nat.lt_succ_self _, ?_, ?_, Function.update_self _ _ _,
          fun hm => Nat.lt_irrefl _ (hold _ hm)⟩
        · change (s.done s.nextReset).reverse ++ _ = Function.update s.taken s.nextReset _ _
          rw [hdone, Function.update_self]
          rfl
        · change none = (s.panics s.nextReset).getLast?
          rw [hpanics]
          rfl
    ended := by
      intro r hlt hno
      have hne : r ≠ s.nextReset := fun he => hno (he ▸ List.mem_cons_self)
      have hr : r < s.nextReset := Nat.lt_of_le_of_ne (Nat.le_of_lt_succ hlt) hne
      change (s.done r).reverse = Function.update s.taken s.nextReset _ r
      rw [Function.update_of_ne hne]
      exact hbelow.ended r hr fun hm => hno (List.mem_cons_of_mem _ hm)
    fresh := fun r hle => h.fresh r (Nat.le_of_succ_le hle)
    ordered := by
      intro r hlt
      change ∃ cs ch', Function.update s.taken s.nextReset _ r = entries cs ch' ∧ _
      by_cases hne : r = s.nextReset
      · subst hne
        refine ⟨y.cleanups.reverse, y.children.reverse, Function.update_self _ _ _, ?_, ?_⟩
        · rw [hc]
          exact List.pairwise_reverse.mpr (hl.cleanups f x hx).1
        · rw [hch]
          exact List.pairwise_reverse.mpr (hl.children f x hx).1
      · rw [Function.update_of_ne hne]
        exact h.ordered r (Nat.lt_of_le_of_ne (Nat.le_of_lt_succ hlt) hne) }

theorem Logged.advance (h : s.Logged) {cleanups' children' : List ℕ} {i : OwnerItem}
    (hs : s.calls = .tearing f r cleanups children first :: rest)
    (hi : entries cleanups children = i :: entries cleanups' children')
    (hcall : call.isTearing = false) (hn : t.nextReset = s.nextReset)
    (hk : t.taken = s.taken) (hd : t.done = Function.update s.done r (i :: s.done r))
    (hp : t.panics = s.panics) (ho : t.outset = s.outset)
    (hc : t.calls = call :: .tearing f r cleanups' children' first :: rest) : t.Logged := by
  have hloops := h.loops
  rw [hs] at hloops
  obtain ⟨hlt, htaken, hfirst, hout, hno⟩ := hloops.top f r cleanups children first rfl
  have hrest : Stacked t.Journal rest := by
    refine (hloops.tail rfl).imp fun call' rest' hsuf hq =>
      hq.same (Nat.le_of_eq hn.symm) fun g q cs ch p heq _ => ?_
    have hne : q ≠ r := by
      rintro rfl
      subst heq
      exact hno (mem_resetsOf (hsuf.subset List.mem_cons_self))
    rw [hd, hk, hp, ho, Function.update_of_ne hne]
    exact ⟨rfl, rfl, rfl, rfl⟩
  exact {
    loops := by
      rw [hc]
      refine (hrest.cons ?_).cons (journal_of_not_tearing hcall)
      intro g q cs ch p heq
      cases heq
      rw [hn, hd, hk, hp, ho, Function.update_self, List.reverse_cons, List.append_assoc,
        List.singleton_append, ← hi]
      exact ⟨hlt, htaken, hfirst, hout, hno⟩
    ended := by
      intro q hq hm
      rw [hc, resetsOf_plain hcall] at hm
      have hne : q ≠ r := fun he => hm (he ▸ List.mem_cons_self)
      rw [hd, hk, Function.update_of_ne hne]
      refine h.ended q (hn ▸ hq) fun hin => hm ?_
      rw [hs] at hin
      exact hin
    fresh := by
      intro q hq
      rw [hn] at hq
      have hne : q ≠ r := fun he => by omega
      rw [hd, hp, Function.update_of_ne hne]
      exact h.fresh q hq
    ordered := by
      rw [hn, hk]
      exact h.ordered }

theorem Logged.capture (h : s.Logged) {entry : OwnerCall P} {above : List (OwnerCall P)} {p : P}
    (hs : s.calls = entry :: .tearing f r cleanups children first :: rest)
    (he : entry.isEntry = true)
    (ha : above = [] ∨ ∃ c, entry = .disposing c ∧ above = [.releasing c])
    (hn : t.nextReset = s.nextReset) (hk : t.taken = s.taken) (hd : t.done = s.done)
    (hp : t.panics = Function.update s.panics r (p :: s.panics r)) (ho : t.outset = s.outset)
    (hc : t.calls = above ++ .tearing f r cleanups children (first.or (some p)) :: rest) :
    t.Logged := by
  have hloops := h.loops
  rw [hs] at hloops
  obtain ⟨hlt, htaken, hfirst, hout, hno⟩ :=
    (hloops.tail rfl).top f r cleanups children first rfl
  have hrest : Stacked t.Journal rest := by
    refine ((hloops.tail rfl).tail rfl).imp fun call' rest' hsuf hq =>
      hq.same (Nat.le_of_eq hn.symm) fun g q cs ch p heq _ => ?_
    have hne : q ≠ r := by
      rintro rfl
      subst heq
      exact hno (mem_resetsOf (hsuf.subset List.mem_cons_self))
    rw [hd, hk, hp, ho, Function.update_of_ne hne]
    exact ⟨rfl, rfl, rfl, rfl⟩
  have hloop : Stacked t.Journal
      (.tearing f r cleanups children (first.or (some p)) :: rest) := by
    refine hrest.cons fun g q cs ch p' heq => ?_
    cases heq
    rw [hn, hd, hk, hp, ho, Function.update_self, List.getLast?_cons, ← hfirst]
    refine ⟨hlt, htaken, ?_, hout, hno⟩
    cases first with
    | none => rfl
    | some q => rfl
  have hresets : resetsOf t.calls = resetsOf s.calls := by
    rw [hc, hs, resetsOf_plain (isTearing_of_isEntry he)]
    rcases ha with rfl | ⟨c, -, rfl⟩
    · rfl
    · rfl
  exact {
    loops := by
      rw [hc]
      rcases ha with rfl | ⟨c, -, rfl⟩
      · exact hloop
      · exact hloop.cons (journal_of_not_tearing rfl)
    ended := by
      rw [hn, hd, hk, hresets]
      exact h.ended
    fresh := by
      intro q hq
      rw [hn] at hq
      have hne : q ≠ r := fun he => by omega
      rw [hd, hp, Function.update_of_ne hne]
      exact h.fresh q hq
    ordered := by
      rw [hn, hk]
      exact h.ordered }

theorem Logged.turn (h : s.Logged) (hl : s.Listed) (ht : Turn s t)
    (hu : s.unwinding.isSome = true → ∀ g ∈ s.calls.head?, g.isTearing = false) : t.Logged := by
  cases ht with
  | marked unwinding gone discarded hu hg hd ht =>
    subst ht
    exact h.same ⟨rfl, rfl, rfl, rfl, rfl⟩ h.loops fun _ => id
  | pushed call unwinding hc hp ht =>
    subst ht
    exact h.push ⟨rfl, rfl, rfl, rfl, rfl⟩ rfl (by cases hp <;> rfl)
  | popped call rest unwinding hs hp hu ht =>
    subst ht
    exact h.swap ⟨rfl, rfl, rfl, rfl, rfl⟩ hs (isTearing_of_isPlain hp) (.inl rfl) rfl
  | swapped c rest hs ht =>
    subst ht
    exact h.swap ⟨rfl, rfl, rfl, rfl, rfl⟩ hs rfl (.inr ⟨_, rfl, rfl⟩) rfl
  | spilled c rest hs hu ht =>
    subst ht
    exact h.swap ⟨rfl, rfl, rfl, rfl, rfl⟩ hs rfl (.inl rfl) rfl
  | abandoned g r cs ch first rest hs hsome ht =>
    have hno := hu hsome (.tearing g r cs ch first) (hs ▸ rfl)
    cases hno
  | created effect ht =>
    subst ht
    exact h.same ⟨rfl, rfl, rfl, rfl, rfl⟩ (h.keep ⟨rfl, rfl, rfl, rfl, rfl⟩) fun _ => id
  | adopted g x hc hx ht => exact ht ▸ h.adopt
  | added g x hc hx ht => exact ht ▸ h.addCleanup
  | taken g x z calls stats hx ho hu ht => exact ht ▸ h.taken hl hx ho
  | cleaned g r c cs ch first rest hs hu ht =>
    subst ht
    exact h.advance hs rfl rfl rfl rfl rfl rfl rfl rfl
  | disposed g r c ch first rest hs hu ht =>
    subst ht
    exact h.advance hs rfl rfl rfl rfl rfl rfl rfl rfl
  | ended g r first rest hs hu ht =>
    subst ht
    have hloops := h.loops
    rw [hs] at hloops
    obtain ⟨hlt, htaken, hfirst, hout, hno⟩ := hloops.top g r [] [] first rfl
    exact {
      loops := hloops.tail rfl
      ended := by
        intro q hq hm
        by_cases hqr : q = r
        · rw [hqr, ← htaken]
          exact (List.append_nil _).symm
        · refine h.ended q hq fun hin => ?_
          rw [hs] at hin
          rcases List.mem_cons.mp hin with heq | hin
          · exact hqr heq
          · exact hm hin
      fresh := h.fresh
      ordered := h.ordered }
  | caught entry above g r cs ch first rest p hs he ha hu ht =>
    subst ht
    exact h.capture hs he ha rfl rfl rfl rfl rfl rfl
  | entered g rest hs hd hu ht =>
    subst ht
    exact h.swap ⟨rfl, rfl, rfl, rfl, rfl⟩ hs rfl (.inr ⟨_, rfl, rfl⟩) rfl
  | vanished g rest hs ht =>
    subst ht
    exact h.swap ⟨rfl, rfl, rfl, rfl, rfl⟩ hs rfl (.inl rfl) rfl

/-- A reset leaves the stack when it has come to everything that it has taken. -/
theorem Logged.leaves (h : s.Logged) (ht : Turn s t)
    (hu : s.unwinding.isSome = true → ∀ g ∈ s.calls.head?, g.isTearing = false)
    (hs : r ∈ resetsOf s.calls) (hr : r ∉ resetsOf t.calls) :
    (s.done r).reverse = s.taken r ∧
      t.unwinding = if s.outset r then none else (s.panics r).getLast? := by
  have hpop : ∀ {call : OwnerCall P} {rest : List (OwnerCall P)}, s.calls = call :: rest →
      call.isTearing = false → r ∈ resetsOf rest := fun heq hcall => by
    rwa [heq, resetsOf_plain hcall] at hs
  have hpush : ∀ {call : OwnerCall P}, call.isTearing = false →
      r ∈ resetsOf (call :: s.calls) := fun hcall => by
    rwa [resetsOf_plain hcall]
  cases ht with
  | ended g q first rest heq hu ht =>
    subst ht
    have hloops := h.loops
    rw [heq] at hloops hs
    obtain ⟨hlt, htaken, hfirst, hout, -⟩ := hloops.top g q [] [] first rfl
    rcases List.mem_cons.mp hs with rfl | hs
    · refine ⟨?_, ?_⟩
      · rw [← htaken]
        exact (List.append_nil _).symm
      · rw [hout, ← hfirst]
    · exact absurd hs hr
  | abandoned g q cs ch first rest heq hsome ht =>
    have hno := hu hsome (.tearing g q cs ch first) (heq ▸ rfl)
    cases hno
  | marked unwinding gone discarded hu hg hd ht =>
    subst ht
    exact absurd hs hr
  | created effect ht =>
    subst ht
    exact absurd hs hr
  | pushed call unwinding hc hp ht =>
    subst ht
    exact absurd (hpush (by cases hp <;> rfl)) hr
  | popped call rest unwinding heq hp hu ht =>
    subst ht
    exact absurd (hpop heq (isTearing_of_isPlain hp)) hr
  | swapped c rest heq ht =>
    subst ht
    exact absurd (hpop heq rfl) hr
  | spilled c rest heq hu ht =>
    subst ht
    exact absurd (hpop heq rfl) hr
  | adopted g x hc hx ht =>
    subst ht
    unfold OwnerHost.adopt at hr
    dsimp only at hr
    split at hr
    · exact absurd (hpush rfl) hr
    · split at hr
      · exact absurd hs hr
      · exact absurd (hpush rfl) hr
  | added g x hc hx ht =>
    subst ht
    unfold OwnerHost.addCleanup at hr
    dsimp only at hr
    split at hr
    · exact absurd (hpush rfl) hr
    · exact absurd hs hr
  | taken g x z calls stats hx ho hu ht =>
    subst ht
    refine absurd (List.mem_cons_of_mem _ ?_) hr
    rcases ho.calls_cases with rfl | rfl | ⟨rest, heq, rfl⟩
    · exact hs
    · exact hpush rfl
    · have hm := hpop heq rfl
      exact hm
  | cleaned g q c cs ch first rest heq hu ht =>
    subst ht
    rw [heq] at hs
    exact absurd hs hr
  | disposed g q c ch first rest heq hu ht =>
    subst ht
    rw [heq] at hs
    exact absurd hs hr
  | caught entry above g q cs ch first rest p heq he ha hu ht =>
    subst ht
    have hm := hpop heq (isTearing_of_isEntry he)
    rcases ha with rfl | ⟨c, -, rfl⟩
    · exact absurd hm hr
    · exact absurd hm hr
  | entered g rest heq hd hu ht =>
    subst ht
    exact absurd (hpop heq rfl) hr
  | vanished g rest heq ht =>
    subst ht
    exact absurd (hpop heq rfl) hr

end Turns

theorem ReachedWhole.logged (h : ReachedWhole s) : s.Logged := by
  have hall : ReachedWhole s ∧ s.Logged := by
    refine Runs.Reaches.invariant (fun s => ReachedWhole s ∧ s.Logged)
      ⟨.init, logged_empty⟩ (fun s op t hs hok ht => ⟨hs.1.next op hok ht, ?_⟩) h
    exact hs.2.turn hs.1.reached.listed (turn_step ht) hs.1.shaped.caught
  exact hall.2

section Drops

/-- What was registered on a frame that has been dropped is settled. -/
theorem ReachedWhole.settled_cleanup (h : ReachedWhole s) {c : ℕ} (hc : c < s.nextCleanup)
    (hf : s.frames (s.cleanupBy c).frame = none) : s.ran.count c = 1 := by
  have hhome := h.reached.home
  refine h.conserved.settled (i := .cleanup c) hc (fun g x hx => ?_) fun call hcall => ?_
  · by_contra hne
    have hmem := List.count_pos_iff.mp (Nat.pos_of_ne_zero hne)
    rw [(hhome.cleanups g x hx c hmem).2, hx] at hf
    cases hf
  · by_contra hne
    cases call with
    | tearing g r cs ch first =>
      have hmem := List.count_pos_iff.mp (Nat.pos_of_ne_zero hne)
      have hsome := h.reached.sane.used _ hcall g (decide_eq_true rfl)
      rw [((hhome.loops g r cs ch first hcall).1 c hmem).2] at hf
      rw [hf] at hsome
      cases hsome
    | _ => exact hne rfl

theorem ReachedWhole.settled_child (h : ReachedWhole s) {c : ℕ} (hc : c < s.nextChild)
    (hf : s.frames (s.childBy c).frame = none) :
    s.attempted.count c + s.released.count c = 1 := by
  have hhome := h.reached.home
  refine h.conserved.settled (i := .child c) hc (fun g x hx => ?_) fun call hcall => ?_
  · by_contra hne
    have hmem := List.count_pos_iff.mp (Nat.pos_of_ne_zero hne)
    rw [(hhome.children g x hx c hmem).2, hx] at hf
    cases hf
  · by_contra hne
    cases call with
    | tearing g r cs ch first =>
      have hmem := List.count_pos_iff.mp (Nat.pos_of_ne_zero hne)
      have hsome := h.reached.sane.used _ hcall g (decide_eq_true rfl)
      rw [((hhome.loops g r cs ch first hcall).2 c hmem).2] at hf
      rw [hf] at hsome
      cases hsome
    | _ => exact hne rfl

theorem Conserved.settled_le (h : s.Conserved) (i : OwnerItem) : s.settled i ≤ 1 := by
  have hplaces := h i
  unfold places at hplaces
  split at hplaces
  · omega
  · omega

end Drops

/-- A reset has come to some of what it has taken, in order. -/
theorem Logged.onward (h : s.Logged) (hr : r < s.nextReset) :
    (s.done r).reverse <+: s.taken r := by
  by_cases hm : r ∈ resetsOf s.calls
  · obtain ⟨f, cs, ch, first, hcall⟩ := exists_of_mem_resetsOf hm
    obtain ⟨rest, -, hq⟩ := h.loops.of_mem hcall
    exact ⟨entries cs ch, (hq f r cs ch first rfl).2.1⟩
  · exact ⟨[], (List.append_nil _).trans (h.ended r hr hm)⟩

/-- Unless a destructor that a teardown runs panics: no cleanup runs twice and no child is
disposed twice, and once the frame has been dropped each cleanup has run and each child was
disposed, or released when it was disposed already; a reset takes what the frame holds, comes to
the cleanups first and to the last registered first, and when it ends has come to all of it and
raises the first panic that it has captured, except where the thread was unwinding. -/
theorem teardown_is_total (h : ReachedWhole s) :
    (∀ c < s.nextCleanup, s.ran.count c ≤ 1 ∧
      (s.frames (s.cleanupBy c).frame = none → s.ran.count c = 1)) ∧
    (∀ c < s.nextChild, s.attempted.count c + s.released.count c ≤ 1 ∧
      (c ∈ s.released → s.gone c = true) ∧
      (s.frames (s.childBy c).frame = none → s.attempted.count c + s.released.count c = 1)) ∧
    (∀ f x op t, s.frames f = some x → s.step op = some t → s.resets f op = true →
      s.nextReset ∈ resetsOf t.calls ∧
        t.taken s.nextReset = entries x.cleanups.reverse x.children.reverse) ∧
    (∀ r < s.nextReset, ∃ cleanups children, s.taken r = entries cleanups children ∧
      cleanups.Pairwise (· > ·) ∧ children.Pairwise (· > ·) ∧
        (s.done r).reverse <+: s.taken r) ∧
    ∀ op t r, s.step op = some t → r ∈ resetsOf s.calls → r ∉ resetsOf t.calls →
      (s.done r).reverse = s.taken r ∧
        t.unwinding = if s.outset r then none else (s.panics r).getLast? := by
  refine ⟨fun c hc => ⟨h.conserved.settled_le (.cleanup c), h.settled_cleanup hc⟩,
    fun c hc => ⟨h.conserved.settled_le (.child c), h.reached.released_gone c, h.settled_child hc⟩,
    fun f x op t hx ht hr => ?_, fun r hr => ?_, fun op t r ht hs hr => ?_⟩
  · obtain ⟨x', y, calls, stats, hx', ho, rfl⟩ := resets_step ht hr
    cases hx.symm.trans hx'
    obtain ⟨hc, hl, -, -⟩ := ho.lists
    refine ⟨List.mem_cons_self, ?_⟩
    change Function.update s.taken s.nextReset _ s.nextReset = _
    rw [Function.update_self, hc, hl]
    rfl
  · obtain ⟨cs, ch, htaken, hcs, hch⟩ := h.logged.ordered r hr
    exact ⟨cs, ch, htaken, hcs, hch, h.logged.onward hr⟩
  · exact h.logged.leaves (turn_step ht) h.shaped.caught hs hr

/-- A scope with two children and a cleanup that panics, which also resets the scope and
registers another cleanup there; the scope is then dropped. -/
def tidying : List (OwnerStep ℕ) :=
  [.create false, .adopt 0, .adopt 0, .addCleanup 0, .addCleanup 0, .drop 0, .next, .finish,
    .next, .reset 0, .next, .addCleanup 0, .finish, .panic 5, .unwind, .next, .finish, .finish,
    .next, .discardChild 0, .finish, .finish]

theorem tidied_scope : ∃ s t : OwnerHost ℕ, s.ReachedWhole ∧ s.step .next = some t ∧
    0 ∈ resetsOf s.calls ∧ 0 ∉ resetsOf t.calls ∧
    (s.done 0).reverse = [.cleanup 1, .cleanup 0, .child 1, .child 0] ∧
    s.taken 0 = [.cleanup 1, .cleanup 0, .child 1, .child 0] ∧ t.unwinding = some 5 := by
  let s := Runs.after (step (P := ℕ)) {} tidying
  let t := Runs.after (step (P := ℕ)) s [.next]
  have hs : ReachedWhole s := Runs.Reaches.after (fun s op => !spills s op) _ .init
    (by decide +kernel) (by decide +kernel)
  have ht : s.step .next = some t := Runs.step_after (by decide +kernel)
  have hin : 0 ∈ resetsOf s.calls := by decide +kernel
  have hout : 0 ∉ resetsOf t.calls := by decide +kernel
  obtain ⟨hdone, hraised⟩ := (teardown_is_total hs).2.2.2.2 .next t 0 ht hin hout
  have htaken : s.taken 0 = [.cleanup 1, .cleanup 0, .child 1, .child 0] := by decide +kernel
  have hfirst : (if s.outset 0 then none else (s.panics 0).getLast?) = some 5 := by decide +kernel
  exact ⟨s, t, hs, ht, hin, hout, hdone.trans htaken, htaken, hraised.trans hfirst⟩

/-- A scope with two children. The second is an effect whose first run has registered a
cleanup; when the scope disposes it, what hears of that panics before the frame of the effect is
disposed, and dropping the effect then runs the cleanup, which panics too. -/
def straying : List (OwnerStep ℕ) :=
  [.create false, .adopt 0, .create true, .adopt 0, .run 1, .proceed, .next, .next, .addCleanup 1,
    .finish, .dispose 0, .next, .discardEffect 1, .discardChild 1, .panic 5, .unwind, .drop 1,
    .next, .panic 7, .unwind, .next, .unwind, .unwind]

/-- The first child is not disposed, and the panic that is raised is not the first one. -/
theorem stray_child_is_not_disposed : ∃ s t : OwnerHost ℕ, s.Reached ∧ s.step .unwind = some t ∧
    1 ∈ resetsOf s.calls ∧ 1 ∉ resetsOf t.calls ∧ t.taken 1 = [.child 1, .child 0] ∧
    t.done 1 = [.child 1] ∧ t.places (.child 0) = 0 ∧ t.gone 0 = false ∧ t.outset 1 = false ∧
    t.panics 1 = [5] ∧ t.unwinding = some 7 := by
  let s := Runs.after (step (P := ℕ)) {} straying
  let t := Runs.after (step (P := ℕ)) s [.unwind]
  have hs : Reached s :=
    Runs.Reaches.after (fun _ _ => true) _ .init (by decide +kernel) (by decide +kernel)
  have ht : s.step .unwind = some t := Runs.step_after (by decide +kernel)
  exact ⟨s, t, hs, ht, by decide +kernel, by decide +kernel, by decide +kernel, by decide +kernel,
    by decide +kernel, by decide +kernel, by decide +kernel, by decide +kernel, by decide +kernel⟩

end OwnerHost

end Adaptite

import Adaptite.CutOffs
import Adaptite.LostMarks
import Mathlib.Data.List.Chain

set_option autoImplicit false

namespace Adaptite

def NetStep.isWrite {V : Type} : NetStep V → Bool
  | set _ _ | update _ _ => true
  | _ => false

namespace NetFrame

variable {V : Type} {net t : Net V} {f g : NetFrame} {n d e : NodeId} {frames rest : List NetFrame}

def verifies (n : NodeId) : NetFrame → Bool
  | verifying m _ | awaiting m _ _ _ => m = n
  | _ => false

/-- The node is brought up to date in this frame. -/
def refreshes (d : NodeId) : NetFrame → Bool
  | verifying n _ | awaiting n _ _ _ | computing n _ => n = d
  | _ => false

def asks : NetFrame → Option NodeId
  | reading d _ | awaiting _ d _ _ => some d
  | _ => none

def isOpen : NetFrame → Bool
  | reading _ _ | awaiting _ _ _ _ | verifying _ _ => false
  | _ => true

def isComputing : NetFrame → Bool
  | computing _ _ => true
  | _ => false

def left : NetFrame → EdgeTable
  | verifying _ rest => rest
  | awaiting _ d version rest => (d, version) :: rest
  | _ => []

/-- A frame that waits has called the refresh that is next to it. -/
def Sits (net : Net V) (f g : NetFrame) : Prop :=
  g.isOpen = true ∨ ∃ d, g.asks = some d ∧ f.refreshes d = true ∧ (net.computed d).isSome = true

theorem verifies_iff : f.verifies n = true ↔
    (∃ rest, f = verifying n rest) ∨ ∃ d version rest, f = awaiting n d version rest := by
  cases f <;> simp [verifies]

theorem Sits.keep (h : Sits net f g) (hw : net.Wired) (hk : Keeps net t) : Sits t f g := by
  refine h.imp_right fun hd => ?_
  obtain ⟨d, ha, hr, hs⟩ := hd
  obtain ⟨x, hx⟩ := Option.isSome_iff_exists.mp hs
  exact ⟨d, ha, hr, (hk.computed d (hw.known d x hx)).trans hs⟩

/-- A frame that brings the same nodes up to date sits where the other one did. -/
theorem Sits.replace (h : Sits net f g) {f' : NetFrame}
    (hr : ∀ d, f.refreshes d = true → f'.refreshes d = true) : Sits net f' g := by
  refine h.imp_right fun hd => ?_
  obtain ⟨d, ha, hf, hs⟩ := hd
  exact ⟨d, ha, hr d hf, hs⟩

/-- A frame that refreshes nothing has been called by one that is open. -/
theorem Sits.opened (h : Sits net f g) (hf : ∀ d, (net.computed d).isSome = true →
    f.refreshes d = false) : g.isOpen = true := by
  rcases h with h | ⟨d, -, hr, hs⟩
  · exact h
  · rw [hf d hs] at hr
    cases hr

theorem all_open (h : frames.IsChain (Sits net)) (hhead : ∀ f ∈ frames.head?, f.isOpen = true)
    (hn : ∀ f ∈ frames, f.isComputing = false) : ∀ f ∈ frames, f.isOpen = true := by
  induction frames with
  | nil => exact fun f hf => by cases hf
  | cons f rest ih =>
    have hf : f.isOpen = true := hhead f rfl
    intro g hg
    rcases List.mem_cons.mp hg with rfl | hg
    · exact hf
    · refine ih h.tail (fun l hl => ?_) (fun l hl => hn l (List.mem_cons_of_mem _ hl)) g hg
      obtain ⟨tail, rfl⟩ : ∃ tail, rest = l :: tail := by
        cases rest with
        | nil => cases hl
        | cons a tail => cases hl; exact ⟨tail, rfl⟩
      refine Sits.opened (List.isChain_cons_cons.mp h).1 fun d _ => ?_
      have hnc := hn f List.mem_cons_self
      cases f <;> first | rfl | exact absurd hf Bool.false_ne_true | exact absurd hnc.symm Bool.false_ne_true

theorem asks_of_open (h : f.isOpen = true) : f.asks = none := by
  cases f <;> first | rfl | exact absurd h Bool.false_ne_true

theorem not_verifies_of_open (h : f.isOpen = true) : f.verifies n = false := by
  cases f <;> first | rfl | exact absurd h Bool.false_ne_true

end NetFrame

open NetFrame

/-- How the calls on the stack stand to the net. -/
structure Nested {V : Type} (net : Net V) (frames : List NetFrame) : Prop where
  chain : frames.IsChain (Sits net)
  clean : ∀ n untracked, computing n untracked ∈ frames → net.isClean n = true
  check : ∀ f ∈ frames, ∀ n, f.verifies n = true → ∀ x, net.computed n = some x →
    x.state = .check
  still : ∀ f ∈ frames, ∀ e, f.verifies e = true → net.computed e = none →
    (∀ y, net.effects e = some y → y.scheduled = false) ∧ frames.any (isWindow e) = false
  passed : ∀ f ∈ frames, ∀ n, f.verifies n = true →
    ∃ before, net.dependencies n = before ++ f.left ∧ ∀ e ∈ before, net.Current e
  apart : frames.Pairwise fun f g => ∀ n, f.verifies n = true → g.verifies n = true →
    (net.computed n).isSome = true ∧ g.left <:+ f.left

namespace Nested

variable {V : Type} {net t : Net V} {f g : NetFrame} {n d e : NodeId}
  {frames rest : List NetFrame}

theorem tail (h : Nested net (f :: rest)) : Nested net rest where
  chain := h.chain.tail
  clean n u hm := h.clean n u (List.mem_cons_of_mem _ hm)
  check g hg := h.check g (List.mem_cons_of_mem _ hg)
  still g hg e he hc := by
    obtain ⟨h1, h2⟩ := h.still g (List.mem_cons_of_mem _ hg) e he hc
    rw [List.any_cons, Bool.or_eq_false_iff] at h2
    exact ⟨h1, h2.2⟩
  passed g hg := h.passed g (List.mem_cons_of_mem _ hg)
  apart := (List.pairwise_cons.mp h.apart).2

theorem carry (h : Nested net frames) (hw : net.Wired) (hk : Keeps net t)
    (hclean : ∀ n u, computing n u ∈ frames → t.isClean n = true)
    (hsame : ∀ f ∈ frames, ∀ n, f.verifies n = true → t.dependencies n = net.dependencies n ∧
      t.computed n = net.computed n ∧ t.effects n = net.effects n)
    (hcurrent : ∀ n, ∀ e ∈ net.dependencies n, net.Current e → t.Current e) :
    Nested t frames where
  chain := h.chain.imp fun _ _ hs => hs.keep hw hk
  clean := hclean
  check f hf n hn := by
    rw [(hsame f hf n hn).2.1]
    exact h.check f hf n hn
  still f hf e he := by
    rw [(hsame f hf e he).2.1, (hsame f hf e he).2.2]
    exact h.still f hf e he
  passed f hf n hn := by
    obtain ⟨before, hd, hb⟩ := h.passed f hf n hn
    refine ⟨before, (hsame f hf n hn).1.trans hd, fun e he => hcurrent n e ?_ (hb e he)⟩
    rw [hd]
    exact List.mem_append_left _ he
  apart := by
    refine h.apart.imp_of_mem fun {f g} hf _ hfg n hn hg => ?_
    rw [(hsame f hf n hn).2.1]
    exact hfg n hn hg

theorem same (h : Nested net frames) (hw : net.Wired) (ha : net.Alike t)
    (he : ∀ f ∈ frames, ∀ n, f.verifies n = true → t.effects n = net.effects n) :
    Nested t frames := by
  refine h.carry hw ha.keeps (fun n u hm => ?_) (fun f hf n hn => ?_) fun _ e _ =>
    (ha.current e).mpr
  · rw [NetHost.isClean_congr ha.computed]
    exact h.clean n u hm
  · rw [ha.dependencies, ha.computed]
    exact ⟨rfl, rfl, he f hf n hn⟩

theorem push (h : Nested net frames) (hs : ∀ g ∈ frames.head?, Sits net f g)
    (hc : f.isComputing = false) (hv : ∀ n, f.verifies n = false)
    (hw : ∀ e, f.isWindow e = true → ∀ g ∈ frames, g.verifies e = false) :
    Nested net (f :: frames) where
  chain := List.isChain_cons.mpr ⟨hs, h.chain⟩
  clean n u hm := by
    rcases List.mem_cons.mp hm with rfl | hm
    · cases hc
    · exact h.clean n u hm
  check g hg n hn := by
    rcases List.mem_cons.mp hg with rfl | hg
    · rw [hv n] at hn; cases hn
    · exact h.check g hg n hn
  still g hg e he hce := by
    rcases List.mem_cons.mp hg with rfl | hg
    · rw [hv e] at he; cases he
    · obtain ⟨h1, h2⟩ := h.still g hg e he hce
      refine ⟨h1, ?_⟩
      rw [List.any_cons, h2, Bool.or_false]
      refine Bool.eq_false_iff.mpr fun hwin => ?_
      rw [hw e hwin g hg] at he
      cases he
  passed g hg n hn := by
    rcases List.mem_cons.mp hg with rfl | hg
    · rw [hv n] at hn; cases hn
    · exact h.passed g hg n hn
  apart := List.pairwise_cons.mpr ⟨fun g _ n hn => absurd hn (by rw [hv n]; exact Bool.false_ne_true),
    h.apart⟩

theorem compute (h : Nested net frames) (hs : ∀ g ∈ frames.head?, Sits net (computing n 0) g)
    (hc : net.isClean n = true) (untracked : ℕ) :
    Nested net (computing n untracked :: frames) where
  chain := List.isChain_cons.mpr ⟨fun g hg => (hs g hg).replace fun _ => id, h.chain⟩
  clean m u hm := by
    rcases List.mem_cons.mp hm with hm | hm
    · cases hm
      exact hc
    · exact h.clean m u hm
  check g hg m hm := by
    rcases List.mem_cons.mp hg with rfl | hg
    · cases hm
    · exact h.check g hg m hm
  still g hg e he hce := by
    rcases List.mem_cons.mp hg with rfl | hg
    · cases he
    · exact h.still g hg e he hce
  passed g hg m hm := by
    rcases List.mem_cons.mp hg with rfl | hg
    · cases hm
    · exact h.passed g hg m hm
  apart := List.pairwise_cons.mpr ⟨fun _ _ _ hm => absurd hm Bool.false_ne_true, h.apart⟩

theorem verify (h : Nested net frames) (hs : ∀ g ∈ frames.head?, Sits net (verifying n []) g)
    (hcheck : ∀ x, net.computed n = some x → x.state = .check)
    (hstill : net.computed n = none → (∀ y, net.effects n = some y → y.scheduled = false) ∧
      frames.any (isWindow n) = false ∧ ∀ g ∈ frames, g.verifies n = false) :
    Nested net (verifying n (net.dependencies n) :: frames) where
  chain := List.isChain_cons.mpr ⟨fun g hg => (hs g hg).replace fun _ => id, h.chain⟩
  clean m u hm := by
    rcases List.mem_cons.mp hm with hm | hm
    · cases hm
    · exact h.clean m u hm
  check g hg m hm := by
    rcases List.mem_cons.mp hg with rfl | hg
    · cases of_decide_eq_true hm
      exact hcheck
    · exact h.check g hg m hm
  still g hg e he hc := by
    rcases List.mem_cons.mp hg with rfl | hg
    · cases of_decide_eq_true he
      exact ⟨(hstill hc).1, (hstill hc).2.1⟩
    · exact h.still g hg e he hc
  passed g hg m hm := by
    rcases List.mem_cons.mp hg with rfl | hg
    · cases of_decide_eq_true hm
      exact ⟨[], rfl, fun e he => by cases he⟩
    · exact h.passed g hg m hm
  apart := by
    refine List.pairwise_cons.mpr ⟨fun g hg m hm hgm => ?_, h.apart⟩
    cases of_decide_eq_true hm
    obtain ⟨before, hd, -⟩ := h.passed g hg n hgm
    refine ⟨?_, before, hd.symm⟩
    by_contra hc
    rw [(hstill (Option.not_isSome_iff_eq_none.mp hc)).2.2 g hg] at hgm
    cases hgm

theorem called (h : Nested net (f :: frames)) (hg : g ∈ frames) :
    ∃ u ∈ f :: frames, Sits net u g := by
  have hc := h.chain
  clear h
  induction frames generalizing f with
  | nil => cases hg
  | cons l frames ih =>
    obtain ⟨hs, hc⟩ := List.isChain_cons_cons.mp hc
    rcases List.mem_cons.mp hg with rfl | hg
    · exact ⟨f, List.mem_cons_self, hs⟩
    · obtain ⟨u, hu, hsu⟩ := ih hg hc
      exact ⟨u, List.mem_cons_of_mem _ hu, hsu⟩

theorem unsettled (h : Nested net (f :: frames))
    (hstack : ∀ n u, computing n u ∈ f :: frames → n ∈ net.stack) (hg : g ∈ frames)
    (ha : g.asks = some d) : ¬ net.Settled d := by
  intro hd
  obtain ⟨u, hu, hs⟩ := h.called hg
  rcases hs with hs | ⟨d', hd', hr, hsome⟩
  · rw [asks_of_open hs] at ha
    cases ha
  · cases hd'.symm.trans ha
    obtain ⟨x, hx⟩ := Option.isSome_iff_exists.mp hsome
    obtain ⟨hclean, hidle⟩ := hd x hx
    have hcheck : u.verifies d = true → False := fun hv => by
      rw [h.check u hu d hv x hx] at hclean
      cases hclean
    cases u with
    | verifying m l => exact hcheck hr
    | awaiting m c v l => exact hcheck hr
    | computing m k =>
      cases of_decide_eq_true hr
      exact hidle (hstack d k hu)
    | _ => cases hr

theorem waits (h : Nested net (f :: frames)) (hg : g ∈ frames) (hn : g.verifies n = true) :
    ∃ d version rest, g = awaiting n d version rest := by
  rcases verifies_iff.mp hn with ⟨rest, rfl⟩ | hw
  · obtain ⟨u, -, hs | ⟨d, ha, -⟩⟩ := h.called hg
    · cases hs
    · cases ha
  · exact hw

section Awaiting

variable {version : ℕ} {entries : EdgeTable}

/-- The entry that is awaited further out is another one, which this verification has not
reached, or nothing is awaited further out. -/
theorem behind (h : Nested net (awaiting n d version entries :: frames))
    (hstack : ∀ m u, computing m u ∈ awaiting n d version entries :: frames → m ∈ net.stack)
    (hd : net.Settled d) (hg : g ∈ frames) (hn : g.verifies n = true) : g.left <:+ entries := by
  have hs : g.left <:+ (d, version) :: entries :=
    ((List.pairwise_cons.mp h.apart).1 g hg n (decide_eq_true rfl) hn).2
  rcases List.suffix_cons_iff.mp hs with heq | hs
  · exfalso
    obtain ⟨d', v, rest, rfl⟩ := h.waits hg hn
    have hd' : d' = d := congrArg Prod.fst (List.cons.inj heq).1
    exact h.unsettled hstack hg (congrArg some hd') hd
  · exact hs

theorem await (h : Nested net (verifying n ((d, version) :: entries) :: frames)) :
    Nested net (awaiting n d version entries :: frames) where
  chain := List.isChain_cons.mpr ⟨fun g hg =>
    ((List.isChain_cons.mp h.chain).1 g hg).replace fun _ => id, h.chain.tail⟩
  clean m u hm := by
    rcases List.mem_cons.mp hm with hm | hm
    · cases hm
    · exact h.clean m u (List.mem_cons_of_mem _ hm)
  check g hg m hm := by
    rcases List.mem_cons.mp hg with rfl | hg
    · exact h.check _ List.mem_cons_self m hm
    · exact h.check g (List.mem_cons_of_mem _ hg) m hm
  still g hg e he hc := by
    rcases List.mem_cons.mp hg with rfl | hg
    · exact h.still _ List.mem_cons_self e he hc
    · exact h.still g (List.mem_cons_of_mem _ hg) e he hc
  passed g hg m hm := by
    rcases List.mem_cons.mp hg with rfl | hg
    · exact h.passed _ List.mem_cons_self m hm
    · exact h.passed g (List.mem_cons_of_mem _ hg) m hm
  apart := List.pairwise_cons.mpr (List.pairwise_cons.mp h.apart)

theorem advance (h : Nested net (awaiting n d version entries :: frames))
    (hstack : ∀ m u, computing m u ∈ awaiting n d version entries :: frames → m ∈ net.stack)
    (hd : net.Current (d, version)) : Nested net (verifying n entries :: frames) where
  chain := List.isChain_cons.mpr ⟨fun g hg =>
    ((List.isChain_cons.mp h.chain).1 g hg).replace fun _ => id, h.chain.tail⟩
  clean m u hm := by
    rcases List.mem_cons.mp hm with hm | hm
    · cases hm
    · exact h.clean m u (List.mem_cons_of_mem _ hm)
  check g hg m hm := by
    rcases List.mem_cons.mp hg with rfl | hg
    · exact h.check _ List.mem_cons_self m hm
    · exact h.check g (List.mem_cons_of_mem _ hg) m hm
  still g hg e he hc := by
    rcases List.mem_cons.mp hg with rfl | hg
    · exact h.still _ List.mem_cons_self e he hc
    · exact h.still g (List.mem_cons_of_mem _ hg) e he hc
  passed g hg m hm := by
    rcases List.mem_cons.mp hg with rfl | hg
    · obtain ⟨before, hb, hpassed⟩ := h.passed _ List.mem_cons_self m hm
      refine ⟨before ++ [(d, version)], by rw [hb, List.append_assoc]; rfl, fun e he => ?_⟩
      rcases List.mem_append.mp he with he | he
      · exact hpassed e he
      · cases List.mem_singleton.mp he
        exact hd
    · exact h.passed g (List.mem_cons_of_mem _ hg) m hm
  apart := by
    refine List.pairwise_cons.mpr ⟨fun g hg m hm hgm => ?_, (List.pairwise_cons.mp h.apart).2⟩
    refine ⟨((List.pairwise_cons.mp h.apart).1 g hg m hm hgm).1, ?_⟩
    cases of_decide_eq_true hm
    exact h.behind hstack hd.2 hg hgm

/-- A verification that finds a change is the only one of its node. -/
theorem alone_changed (h : Nested net (awaiting n d version entries :: frames))
    (hstack : ∀ m u, computing m u ∈ awaiting n d version entries :: frames → m ∈ net.stack)
    (hd : net.Settled d) (hne : net.version d ≠ version) : ∀ g ∈ frames, g.verifies n = false := by
  intro g hg
  refine Bool.eq_false_iff.mpr fun hn => hne ?_
  obtain ⟨p, hp⟩ := h.behind hstack hd hg hn
  obtain ⟨before, hb, -⟩ := h.passed _ List.mem_cons_self n (decide_eq_true rfl)
  obtain ⟨passed, hpassed, hcurrent⟩ := h.passed g (List.mem_cons_of_mem _ hg) n hn
  -- further out the entry has been passed
  have heq : passed = before ++ (d, version) :: p := by
    have hlists : passed ++ g.left = (before ++ (d, version) :: p) ++ g.left := by
      rw [← hpassed, hb, List.append_assoc, List.cons_append, hp]
      rfl
    exact List.append_cancel_right hlists
  exact (hcurrent (d, version) (by rw [heq]; simp)).1

end Awaiting

theorem alone_ended (h : Nested net (verifying n [] :: frames)) :
    ∀ g ∈ frames, g.verifies n = false := by
  intro g hg
  refine Bool.eq_false_iff.mpr fun hn => ?_
  have hs : g.left <:+ [] :=
    ((List.pairwise_cons.mp h.apart).1 g hg n (decide_eq_true rfl) hn).2
  obtain ⟨d, version, rest, rfl⟩ := h.waits hg hn
  cases List.suffix_nil.mp hs

end Nested

end Adaptite

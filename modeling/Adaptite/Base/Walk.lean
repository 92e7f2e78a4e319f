import Mathlib.Data.Finset.Card
import Mathlib.Data.Finset.Filter

set_option autoImplicit false

/-!
# Depth-first walks that can stop

A walk calls on the neighbours of a node, in order and each with what it leads to before the
next. It goes on below a node that is open when it first calls there. Any call may end the
walk, before the node is told or after.
-/

structure Walk (α : Type) where
  told : List α := []
  calls : ℕ := 0
  stopped : Bool := false

namespace Walk

variable {α : Type} [DecidableEq α]

/-- The calls that end a walk are told by their number and the node. -/
structure Ground (α : Type) where
  next : α → List α
  isOpen : α → Bool
  early : ℕ → α → Bool
  late : ℕ → α → Bool

variable {g : Ground α}

def visit (g : Ground α) (below : Walk α → α → Walk α) (w : Walk α) (d : α) : Walk α :=
  if w.stopped then w
  else if g.early w.calls d then { w with calls := w.calls + 1, stopped := true }
  else
    let told : Walk α := { w with told := d :: w.told, calls := w.calls + 1 }
    if g.isOpen d && d ∉ w.told then below told d
    else if g.late w.calls d then { told with stopped := true }
    else told

def walk (g : Ground α) : ℕ → Walk α → α → Walk α
  | 0, w, _ => w
  | levels + 1, w, n => (g.next n).foldl (visit g (walk g levels)) w

theorem told_visit {below : Walk α → α → Walk α} (hb : ∀ w d, w.told ⊆ (below w d).told)
    (w : Walk α) (d : α) : w.told ⊆ (visit g below w d).told := by
  unfold visit
  split
  · exact List.Subset.refl _
  · split
    · exact List.Subset.refl _
    · dsimp only
      split
      · have hbelow := hb { w with told := d :: w.told, calls := w.calls + 1 } d
        exact List.Subset.trans (List.subset_cons_self d w.told) hbelow
      · split
        · exact List.subset_cons_self d w.told
        · exact List.subset_cons_self d w.told

theorem told_foldl {below : Walk α → α → Walk α} (hb : ∀ w d, w.told ⊆ (below w d).told)
    (l : List α) (w : Walk α) : w.told ⊆ (l.foldl (visit g below) w).told := by
  induction l generalizing w with
  | nil => exact List.Subset.refl _
  | cons d l ih => exact List.Subset.trans (told_visit hb w d) (ih _)

theorem told_walk (levels : ℕ) (w : Walk α) (n : α) : w.told ⊆ (walk g levels w n).told := by
  induction levels generalizing w n with
  | zero => exact List.Subset.refl _
  | succ levels ih => exact told_foldl ih _ w

def room (g : Ground α) (nodes : Finset α) (w : Walk α) : ℕ :=
  (nodes.filter fun d => g.isOpen d = true ∧ d ∉ w.told).card

variable {nodes : Finset α}

theorem room_le {w u : Walk α} (h : w.told ⊆ u.told) : room g nodes u ≤ room g nodes w := by
  refine Finset.card_le_card fun d hd => ?_
  rw [Finset.mem_filter] at hd ⊢
  exact ⟨hd.1, hd.2.1, fun hm => hd.2.2 (h hm)⟩

theorem room_lt {w u : Walk α} {d : α} (h : w.told ⊆ u.told) (hd : d ∈ nodes)
    (ho : g.isOpen d = true) (hw : d ∉ w.told) (hu : d ∈ u.told) :
    room g nodes u < room g nodes w := by
  refine Finset.card_lt_card ((Finset.ssubset_iff_of_subset fun c hc => ?_).mpr ⟨d, ?_, ?_⟩)
  · rw [Finset.mem_filter] at hc ⊢
    exact ⟨hc.1, hc.2.1, fun hm => hc.2.2 (h hm)⟩
  · exact Finset.mem_filter.mpr ⟨hd, ho, hw⟩
  · rw [Finset.mem_filter]
    exact fun hc => hc.2.2 hu

theorem walk_succ (hn : ∀ d, g.isOpen d = true → d ∈ nodes) (levels : ℕ) (w : Walk α) (n : α)
    (hr : room g nodes w < levels) : walk g levels w n = walk g (levels + 1) w n := by
  induction levels generalizing w n with
  | zero => exact absurd hr (Nat.not_lt_zero _)
  | succ levels ih =>
    have hvisit : ∀ u : Walk α, room g nodes u < levels + 1 → ∀ d,
        visit g (walk g levels) u d = visit g (walk g (levels + 1)) u d := by
      intro u hu d
      unfold visit
      dsimp only
      by_cases hf : (g.isOpen d && d ∉ u.told) = true
      · rw [if_pos hf, if_pos hf]
        rw [Bool.and_eq_true, decide_eq_true_eq] at hf
        have hlt : room g nodes { u with told := d :: u.told, calls := u.calls + 1 } <
            room g nodes u :=
          room_lt (List.subset_cons_self d u.told) (hn d hf.1) hf.1 hf.2 List.mem_cons_self
        rw [ih _ d (by omega)]
      · rw [if_neg hf, if_neg hf]
    have hloop : ∀ (l : List α) (u : Walk α), room g nodes u < levels + 1 →
        l.foldl (visit g (walk g levels)) u = l.foldl (visit g (walk g (levels + 1))) u := by
      intro l
      induction l with
      | nil => exact fun u _ => rfl
      | cons d l hl =>
        intro u hu
        change l.foldl _ (visit g _ u d) = l.foldl _ (visit g _ u d)
        rw [← hvisit u hu d]
        exact hl _ (Nat.lt_of_le_of_lt (room_le (told_visit (told_walk levels) u d)) hu)
    exact hloop _ w hr

theorem walk_stable (nodes : Finset α) (hn : ∀ d, g.isOpen d = true → d ∈ nodes) {levels more : ℕ} {w : Walk α}
    (n : α) (hr : room g nodes w < levels) (hm : levels ≤ more) :
    walk g more w n = walk g levels w n := by
  induction more, hm using Nat.le_induction with
  | base => rfl
  | succ more hle ih => rw [← walk_succ hn more w n (by omega), ih]

end Walk

import Mathlib.Data.List.Sort
import Mathlib.Data.Prod.Lex
import Mathlib.Order.Compare

set_option autoImplicit false

/-!
# Sorting and searching by a key

A list with distinct keys has one sorted rearrangement, whatever order it came in. Binary search
narrows an interval, comparing its middle, until one element is left. What it finds is there even
in a list that is not sorted; in one that is, it finds what is there.
-/
namespace Sorted

variable {α κ : Type} [LinearOrder κ] {key : α → κ} {l l' : List α} {a b : α}

def sortBy (key : α → κ) (l : List α) : List α := l.insertionSort fun a b => key a ≤ key b

section Sorting

instance total_key : Std.Total fun a b : α => key a ≤ key b :=
  ⟨fun a b => le_total (key a) (key b)⟩

instance trans_key : IsTrans α fun a b => key a ≤ key b := ⟨fun _ _ _ => le_trans⟩

theorem perm_sortBy (key : α → κ) (l : List α) : (sortBy key l).Perm l :=
  List.perm_insertionSort _ l

theorem pairwise_sortBy (hl : (l.map key).Nodup) :
    (sortBy key l).Pairwise fun a b => key a < key b := by
  have hsorted : (sortBy key l).Pairwise fun a b => key a ≤ key b :=
    List.pairwise_insertionSort _ l
  have hdistinct : (sortBy key l).Pairwise fun a b => key a ≠ key b :=
    List.pairwise_map.mp (((perm_sortBy key l).map key).nodup_iff.mpr hl)
  exact hsorted.imp₂ (fun _ _ hle hne => lt_of_le_of_ne hle hne) hdistinct

/-- The order that a list comes in makes no difference. -/
theorem sortBy_congr (h : l.Perm l') (hl : (l.map key).Nodup) : sortBy key l = sortBy key l' := by
  have hperm : (sortBy key l).Perm (sortBy key l') :=
    (perm_sortBy key l).trans (h.trans (perm_sortBy key l').symm)
  refine hperm.eq_of_pairwise (fun a b _ _ hab hba => absurd hba (lt_asymm hab))
    (pairwise_sortBy hl) (pairwise_sortBy ((h.map key).nodup_iff.mp hl))

end Sorting

section Searching

/-- The loop of a binary search, on the `size` elements from `base` on. -/
def narrow (f : ℕ → Ordering) : ℕ → ℕ → ℕ → ℕ
  | 0, base, _ => base
  | fuel + 1, base, size =>
    if size ≤ 1 then base
    else
      narrow f fuel (if f (base + size / 2) = .gt then base else base + size / 2) (size - size / 2)

/-- `f` compares an element with the one that is sought. The answer is its index, or else where
it belongs. -/
def binarySearchBy (f : α → Ordering) (l : List α) : Except ℕ ℕ :=
  let base := narrow (fun i => (l[i]?.map f).getD .gt) l.length 0 l.length
  match l[base]? with
  | none => .error 0
  | some a =>
    match f a with
    | .eq => .ok base
    | .lt => .error (base + 1)
    | .gt => .error base

def binarySearchByKey (key : α → κ) (k : κ) (l : List α) : Except ℕ ℕ :=
  binarySearchBy (fun a => compare (key a) k) l

variable {f : ℕ → Ordering} {g : α → Ordering} {i j n : ℕ}

/-- Of the elements that a search goes through, none is too large before one that is not. -/
structure Narrowed (f : ℕ → Ordering) (n base size : ℕ) : Prop where
  inside : base + size ≤ n
  nonempty : 0 < size
  before : base = 0 ∨ f base ≠ .gt
  after : ∀ i, base + size ≤ i → i < n → f i = .gt

theorem Narrowed.step {base size : ℕ} (h : Narrowed f n base size)
    (hf : ∀ i j, i ≤ j → j < n → f i = .gt → f j = .gt) (hs : 1 < size) :
    Narrowed f n (if f (base + size / 2) = .gt then base else base + size / 2)
      (size - size / 2) := by
  have hinside := h.inside
  split
  · rename_i hgt
    refine ⟨by omega, by omega, h.before, fun i hi hn => ?_⟩
    exact hf _ _ (by omega) hn hgt
  · rename_i hgt
    refine ⟨by omega, by omega, .inr hgt, fun i hi hn => ?_⟩
    exact h.after i (by omega) hn

theorem narrowed_narrow {fuel base size : ℕ} (h : Narrowed f n base size)
    (hf : ∀ i j, i ≤ j → j < n → f i = .gt → f j = .gt) (hfuel : size ≤ fuel + 1) :
    Narrowed f n (narrow f fuel base size) 1 := by
  induction fuel generalizing base size with
  | zero =>
    have hsize : size = 1 := by
      have := h.nonempty
      omega
    exact hsize ▸ h
  | succ fuel ih =>
    unfold narrow
    split
    · have hsize : size = 1 := by
        have := h.nonempty
        omega
      exact hsize ▸ h
    · exact ih (h.step hf (by omega)) (by omega)

theorem binarySearchBy_sound (h : binarySearchBy g l = .ok i) :
    ∃ a, l[i]? = some a ∧ g a = .eq := by
  unfold binarySearchBy at h
  dsimp only at h
  split at h
  · cases h
  · rename_i a ha
    split at h
    · rename_i heq
      cases h
      exact ⟨a, ha, heq⟩
    · cases h
    · cases h

theorem binarySearchBy_complete (hgt : l.Pairwise fun a b => g a = .gt → g b = .gt)
    (hlt : l.Pairwise fun a b => g b = .lt → g a = .lt) (ha : a ∈ l) (heq : g a = .eq) :
    ∃ i, binarySearchBy g l = .ok i := by
  obtain ⟨k, hk, hka⟩ := List.mem_iff_getElem.mp ha
  have hat : ∀ i (hi : i < l.length), (l[i]?.map g).getD .gt = g l[i] := fun i hi => by
    rw [List.getElem?_eq_getElem hi]
    rfl
  have hmono : ∀ i j, i ≤ j → j < l.length → (l[i]?.map g).getD .gt = .gt →
      (l[j]?.map g).getD .gt = .gt := by
    intro i j hij hj hi
    rcases Nat.lt_or_eq_of_le hij with hij | rfl
    · rw [hat i (by omega)] at hi
      rw [hat j hj]
      exact List.pairwise_iff_getElem.mp hgt i j (by omega) hj hij hi
    · exact hi
  have hstart : Narrowed (fun i => (l[i]?.map g).getD .gt) l.length 0 l.length :=
    ⟨by omega, by omega, .inl rfl, fun i hi hn => by omega⟩
  have hend := narrowed_narrow hstart hmono (Nat.le_succ _)
  unfold binarySearchBy
  generalize narrow _ _ _ _ = base at hend ⊢
  have hbase : base < l.length := by
    have := hend.inside
    omega
  have hfound : g l[base] = .eq := by
    -- the element that is sought is not too large, so it is not behind the last one left
    have hle : k ≤ base := by
      by_contra hlt
      have hafter := hend.after k (by omega) hk
      rw [hat k hk, hka, heq] at hafter
      cases hafter
    rcases Nat.lt_or_eq_of_le hle with hkb | rfl
    · have hngt : g l[base] ≠ .gt := by
        rcases hend.before with h0 | h
        · omega
        · rwa [hat base hbase] at h
      have hnlt : g l[base] ≠ .lt := fun h => by
        have := List.pairwise_iff_getElem.mp hlt k base hk hbase hkb h
        rw [hka, heq] at this
        cases this
      cases hg : g l[base] with
      | lt => exact absurd hg hnlt
      | eq => rfl
      | gt => exact absurd hg hngt
    · rw [hka, heq]
  refine ⟨base, ?_⟩
  dsimp only
  rw [List.getElem?_eq_getElem hbase]
  dsimp only
  rw [hfound]

/-- In a list that is sorted by its keys, the search finds the key that is there. -/
theorem binarySearchByKey_complete (hl : l.Pairwise fun a b => key a < key b) (ha : a ∈ l) :
    ∃ i, binarySearchByKey key (key a) l = .ok i := by
  refine binarySearchBy_complete ?_ ?_ ha (compare_eq_iff_eq.mpr rfl)
  · refine hl.imp fun {b c} hbc hb => ?_
    rw [compare_gt_iff_gt] at hb ⊢
    exact hb.trans hbc
  · refine hl.imp fun {b c} hbc hc => ?_
    rw [compare_lt_iff_lt] at hc ⊢
    exact hbc.trans hc

theorem binarySearchByKey_sound {k : κ} (h : binarySearchByKey key k l = .ok i) :
    ∃ a, l[i]? = some a ∧ key a = k := by
  obtain ⟨a, ha, heq⟩ := binarySearchBy_sound h
  exact ⟨a, ha, compare_eq_iff_eq.mp heq⟩

end Searching

end Sorted

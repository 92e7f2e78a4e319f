import Mathlib.Data.List.AList
import Mathlib.Algebra.BigOperators.Group.List.Basic
import Mathlib.Tactic.Linarith

set_option autoImplicit false

/-!
# Sums over finite tables

`AList.total w m` adds a weight over the values of a table. The three equations
below say how it moves under insertion and removal, which is what a maintained
counter has to follow.
-/
namespace AList

section Weights

variable {α β : Type}

def total (w : β → ℕ) (m : AList fun _ : α => β) : ℕ := (m.entries.map fun e => w e.2).sum

def size (m : AList fun _ : α => β) : ℕ := m.entries.length

theorem size_eq_total (m : AList fun _ : α => β) : m.size = m.total fun _ => 1 := by
  simp [size, total]

@[simp] theorem total_empty (w : β → ℕ) : (∅ : AList fun _ : α => β).total w = 0 := rfl

@[simp] theorem size_empty : (∅ : AList fun _ : α => β).size = 0 := rfl

theorem length_keys (m : AList fun _ : α => β) : m.keys.length = m.size := by
  simp [keys, size, List.keys]

end Weights

variable {α β : Type} [DecidableEq α]

theorem filterMap_keys {γ : Type} (f : α → β → γ) (m : AList fun _ : α => β) :
    (m.keys.filterMap fun a => (m.lookup a).map (f a)) = m.entries.map fun e => f e.1 e.2 := by
  unfold keys List.keys
  rw [List.filterMap_map, ← List.filterMap_eq_map]
  refine List.filterMap_congr fun e he => ?_
  have hlookup : m.lookup e.1 = some e.2 := mem_lookup_iff.mpr he
  rw [Function.comp_apply, hlookup]
  rfl

theorem total_insert (w : β → ℕ) (a : α) (b : β) (m : AList fun _ : α => β) :
    (m.insert a b).total w = w b + (m.erase a).total w := by
  unfold total
  rw [entries_insert, List.map_cons, List.sum_cons]
  rfl

theorem erase_of_notMem {a : α} {m : AList fun _ : α => β} (h : a ∉ m) : m.erase a = m := by
  apply AList.ext
  exact List.kerase_of_notMem_keys h

theorem entries_perm_of_lookup {a : α} {b : β} {m : AList fun _ : α => β}
    (h : m.lookup a = some b) : m.entries.Perm (⟨a, b⟩ :: (m.erase a).entries) := by
  have hmem : a ∈ m.entries.keys := List.dlookup_isSome.mp (Option.isSome_of_eq_some h)
  obtain ⟨c, l₁, l₂, _, hl, he⟩ := List.exists_of_kerase hmem
  have hc : (⟨a, c⟩ : Sigma fun _ : α => β) ∈ m.entries := by rw [hl]; simp
  have hbc : b = c := by
    have := mem_lookup_iff.mpr hc
    rw [h] at this
    exact Option.some.inj this
  subst hbc
  change m.entries.Perm (⟨a, b⟩ :: List.kerase a m.entries)
  rw [he]
  nth_rewrite 1 [hl]
  exact List.perm_middle

theorem total_of_lookup (w : β → ℕ) {a : α} {b : β} {m : AList fun _ : α => β}
    (h : m.lookup a = some b) : m.total w = w b + (m.erase a).total w := by
  unfold total
  rw [((entries_perm_of_lookup h).map fun e => w e.2).sum_eq]
  simp

/-- Replacing a value, where a missing key counts as a value of weight zero. -/
theorem total_insert_add (w : β → ℕ) (a : α) (b : β) (m : AList fun _ : α => β) (z : β)
    (hz : w z = 0) : (m.insert a b).total w + w ((m.lookup a).getD z) = m.total w + w b := by
  rw [total_insert]
  cases h : m.lookup a with
  | none => rw [erase_of_notMem (lookup_eq_none.mp h)]; simp [hz, Nat.add_comm]
  | some c => rw [total_of_lookup w h]; simp only [Option.getD_some]; omega

theorem total_erase_add (w : β → ℕ) (a : α) (m : AList fun _ : α => β) (z : β)
    (hz : w z = 0) : (m.erase a).total w + w ((m.lookup a).getD z) = m.total w := by
  cases h : m.lookup a with
  | none => rw [erase_of_notMem (lookup_eq_none.mp h)]; simp [hz]
  | some c => rw [total_of_lookup w h]; simp only [Option.getD_some]; omega

theorem size_insert_of_notMem {a : α} {b : β} {m : AList fun _ : α => β}
    (h : a ∉ m) : (m.insert a b).size = m.size + 1 := by
  rw [size_eq_total, size_eq_total, total_insert, erase_of_notMem h, Nat.add_comm]

theorem size_insert_of_mem {a : α} {b : β} {m : AList fun _ : α => β}
    (h : a ∈ m) : (m.insert a b).size = m.size := by
  obtain ⟨c, hc⟩ := Option.isSome_iff_exists.mp (lookup_isSome.mpr h)
  rw [size_eq_total, size_eq_total, total_insert, total_of_lookup _ hc]

theorem size_erase_of_mem {a : α} {m : AList fun _ : α => β} (h : a ∈ m) :
    (m.erase a).size + 1 = m.size := by
  obtain ⟨c, hc⟩ := Option.isSome_iff_exists.mp (lookup_isSome.mpr h)
  rw [size_eq_total, size_eq_total, total_of_lookup _ hc, Nat.add_comm]

theorem size_eq_zero {m : AList fun _ : α => β} : m.size = 0 ↔ ∀ a, a ∉ m := by
  constructor
  · intro h a ha
    have := size_erase_of_mem ha
    omega
  · intro h
    rw [← length_keys, List.length_eq_zero_iff, List.eq_nil_iff_forall_not_mem]
    exact h

/-- Adding up over a list of keys that misses nothing of weight. -/
theorem total_eq_sum (w : β → ℕ) (z : β) (hz : w z = 0) (l : List α) (hl : l.Nodup)
    (m : AList fun _ : α => β) (h : ∀ a b, m.lookup a = some b → a ∉ l → w b = 0) :
    m.total w = (l.map fun a => w ((m.lookup a).getD z)).sum := by
  induction l generalizing m with
  | nil =>
    unfold total
    rw [List.map_nil, List.sum_nil, List.sum_eq_zero]
    intro x hx
    obtain ⟨e, he, rfl⟩ := List.mem_map.mp hx
    exact h e.1 e.2 (mem_lookup_iff.mpr he) (by simp)
  | cons a l ih =>
    rw [List.nodup_cons] at hl
    have hsame : ∀ i, i ≠ a → (m.erase a).lookup i = m.lookup i := fun i hi => lookup_erase_ne hi
    have herase := total_erase_add w a m z hz
    have hrest := ih hl.2 (m.erase a) fun i b hi hil => by
      by_cases hia : i = a
      · subst hia
        rw [lookup_erase] at hi
        cases hi
      · exact h i b (hsame i hia ▸ hi) (by simp [hia, hil])
    have hmap : (l.map fun i => w (((m.erase a).lookup i).getD z)) =
        l.map fun i => w ((m.lookup i).getD z) :=
      List.map_congr_left fun i hi => by
        rw [hsame i]
        rintro rfl
        exact hl.1 hi
    rw [List.map_cons, List.sum_cons, ← hmap]
    omega

end AList

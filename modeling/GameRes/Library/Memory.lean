import Mathlib.Data.List.Basic

/-!
# Flat memory

A memory is a function from addresses to cells. `load` and `store` move blocks
of consecutive cells; a store changes the cells of its block and no others.
-/

namespace GameRes.Library
variable {α : Type*}

def load (m : ℕ → α) (a n : ℕ) : List α := (List.range n).map fun i => m (a + i)

def store (m : ℕ → α) (a : ℕ) (xs : List α) : ℕ → α :=
  fun i => if h : a ≤ i ∧ i < a + xs.length then xs[i - a] else m i

@[simp] theorem load_length (m : ℕ → α) (a n : ℕ) : (load m a n).length = n := by
  simp only [load, List.length_map, List.length_range]

@[simp] theorem load_zero (m : ℕ → α) (a : ℕ) : load m a 0 = [] := rfl

theorem load_succ (m : ℕ → α) (a n : ℕ) : load m a (n + 1) = m a :: load m (a + 1) n := by
  simp only [load, List.range_succ_eq_map, List.map_cons, List.map_map, Function.comp_def,
    Nat.add_zero]
  congr 1
  apply List.map_congr_left
  intro i _
  congr 1
  omega

theorem load_append (m : ℕ → α) (a n k : ℕ) : load m a (n + k) = load m a n ++ load m (a + n) k := by
  induction n generalizing a with
  | zero => simp only [Nat.zero_add, load_zero, List.nil_append, Nat.add_zero]
  | succ n ih =>
    rw [show n + 1 + k = n + k + 1 by omega, load_succ, load_succ, ih, List.cons_append,
      show a + 1 + n = a + (n + 1) by omega]

theorem load_congr {m m' : ℕ → α} {a n : ℕ} (h : ∀ i, a ≤ i → i < a + n → m i = m' i) :
    load m a n = load m' a n := by
  apply List.map_congr_left
  intro i hi
  rw [List.mem_range] at hi
  exact h (a + i) (by omega) (by omega)

theorem load_eq_iff {m : ℕ → α} {a : ℕ} {xs : List α} :
    load m a xs.length = xs ↔ ∀ i (h : i < xs.length), m (a + i) = xs[i] := by
  constructor
  · intro h i hi
    have hget := List.getElem_of_eq h (i := i) (by rw [load_length]; exact hi)
    simpa only [load, List.getElem_map, List.getElem_range] using hget
  · intro h
    apply List.ext_getElem (load_length _ _ _)
    intro i _ hi
    simp only [load, List.getElem_map, List.getElem_range]
    exact h i hi

theorem store_of_not_mem {m : ℕ → α} {a : ℕ} {xs : List α} {i : ℕ}
    (h : i < a ∨ a + xs.length ≤ i) : store m a xs i = m i := by
  rw [store, dif_neg]
  omega

theorem load_store (m : ℕ → α) (a : ℕ) (xs : List α) : load (store m a xs) a xs.length = xs := by
  rw [load_eq_iff]
  intro i hi
  rw [store, dif_pos (by omega)]
  congr 1
  omega

theorem store_append (m : ℕ → α) (a : ℕ) (xs ys : List α) :
    store m a (xs ++ ys) = store (store m a xs) (a + xs.length) ys := by
  funext i
  by_cases hxs : a ≤ i ∧ i < a + xs.length
  · rw [store_of_not_mem (a := a + xs.length) (Or.inl hxs.2), store, store, dif_pos hxs,
      dif_pos (by rw [List.length_append]; omega), List.getElem_append_left]
  · by_cases hys : a + xs.length ≤ i ∧ i < a + xs.length + ys.length
    · rw [store, store, dif_pos (by rw [List.length_append]; omega), dif_pos hys,
        List.getElem_append_right (by omega)]
      congr 1
      omega
    · rw [store_of_not_mem (by rw [List.length_append]; omega), store_of_not_mem (by omega),
        store_of_not_mem (by omega)]

end GameRes.Library

import Mathlib.Data.List.Basic
import Mathlib.Data.List.Nodup

/-!
# First entries of their keys

The entries a scan keeps when it takes no second one of a key: each is the first of its
key in the scanned list, and they stand in the order of that list.
-/

namespace GameRes.Library
variable {α κ : Type*} [DecidableEq κ] {key : α → κ} {x : α} {xs ys : List α}

structure Firsts (key : α → κ) (xs ys : List α) : Prop where
  first : ∀ y ∈ ys, xs.find? (fun x => key x = key y) = some y
  order : ys.Pairwise fun y z => (xs.map key).idxOf (key y) < (xs.map key).idxOf (key z)

namespace Firsts

theorem nil : Firsts key [] [] := by
  refine ⟨?_, List.Pairwise.nil⟩
  intro y hy
  cases hy

theorem nodup (h : Firsts key xs ys) : (ys.map key).Nodup := by
  rw [List.Nodup, List.pairwise_map]
  apply h.order.imp
  intro y z hlt heq
  rw [heq] at hlt
  exact Nat.lt_irrefl _ hlt

theorem find_cons (h : Firsts key xs ys) (hnew : ∀ y ∈ ys, key x ≠ key y) :
    ∀ y ∈ ys, (x :: xs).find? (fun z => key z = key y) = some y := by
  intro y hy
  have hx : ¬decide (key x = key y) = true := by
    rw [decide_eq_true_eq]
    exact hnew y hy
  rw [List.find?_cons_of_neg (p := fun z => key z = key y) hx]
  exact h.first y hy

theorem order_cons (h : Firsts key xs ys) (hnew : ∀ y ∈ ys, key x ≠ key y) :
    ys.Pairwise fun y z =>
      ((x :: xs).map key).idxOf (key y) < ((x :: xs).map key).idxOf (key z) := by
  apply h.order.imp_of_mem
  intro y z hy hz hlt
  rw [List.map_cons, List.idxOf_cons_ne _ (hnew y hy), List.idxOf_cons_ne _ (hnew z hz)]
  exact Nat.succ_lt_succ hlt

theorem skip (h : Firsts key xs ys) (hnew : ∀ y ∈ ys, key x ≠ key y) : Firsts key (x :: xs) ys :=
  ⟨h.find_cons hnew, h.order_cons hnew⟩

theorem take (h : Firsts key xs ys) (hnew : ∀ y ∈ ys, key x ≠ key y) :
    Firsts key (x :: xs) (x :: ys) := by
  refine ⟨?_, List.Pairwise.cons ?_ (h.order_cons hnew)⟩
  · intro y hy
    rcases List.mem_cons.mp hy with heq | hrest
    · rw [heq]
      exact List.find?_cons_of_pos (decide_eq_true rfl)
    · exact h.find_cons hnew y hrest
  · intro y hy
    rw [List.map_cons, List.idxOf_cons_self, List.idxOf_cons_ne _ (hnew y hy)]
    exact Nat.succ_pos _

end Firsts
end GameRes.Library

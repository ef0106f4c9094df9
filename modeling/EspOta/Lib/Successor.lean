/-
The next element after a key, round a list: the first one with a greater
key, or the first of all.
-/
import Mathlib.Data.List.Basic
import Mathlib.Order.Lattice

namespace EspOta.Lib

variable {α κ : Type*} [LinearOrder κ]

def successor? (key : α → κ) (xs : List α) (k : κ) : Option α := (xs.find? (k < key ·)).or xs.head?

theorem successor?_mem {key : α → κ} {xs : List α} {k : κ} {y : α} (h : successor? key xs k = some y) :
    y ∈ xs := by
  rcases Option.or_eq_some_iff.mp h with h | ⟨-, h⟩
  · exact List.mem_of_find?_eq_some h
  · exact List.mem_of_head? h

theorem successor?_isSome {key : α → κ} {xs : List α} {k : κ} (h : xs ≠ []) : (successor? key xs k).isSome := by
  rw [successor?, Option.isSome_or, Bool.or_eq_true]
  cases xs with
  | nil => exact absurd rfl h
  | cons x xs => exact .inr rfl

/-- Round a sorted list of two or more, the next element after one is another. -/
theorem successor?_ne {key : α → κ} {xs : List α} (hsorted : xs.Pairwise (key · < key ·))
    (hlen : 2 ≤ xs.length) {x y : α} (h : successor? key xs (key x) = some y) : y ≠ x := by
  rintro rfl
  rcases Option.or_eq_some_iff.mp h with h | ⟨hnone, hhead⟩
  · have hlt := List.find?_some h
    simp only [decide_eq_true_eq] at hlt
    exact lt_irrefl _ hlt
  -- Nothing comes after `y`, and everything but `y` comes after the first.
  · obtain ⟨z, zs, rfl⟩ : ∃ z zs, xs = y :: z :: zs := by
      match xs, hlen, hhead with
      | x :: z :: zs, _, rfl => exact ⟨z, zs, rfl⟩
    have hlt := List.rel_of_pairwise_cons hsorted List.mem_cons_self
    have := List.find?_eq_none.mp hnone z (by simp)
    simp only [decide_eq_true_eq] at this
    exact this hlt

end EspOta.Lib

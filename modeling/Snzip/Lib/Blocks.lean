import Mathlib.Algebra.Order.Floor.Div
import Mathlib.Data.List.Basic
import Mathlib.Data.Nat.Init

set_option autoImplicit false

/-!
# Cutting a list into blocks

`blocks n xs` is what a loop reads that takes up to `n` items at a time until there are none left:
every block but the last has `n` items and none is empty.

* `blocks_of_ne_nil`: the first block; **`flatten_blocks`**: nothing is lost;
* `length_of_mem_blocks`, `ne_nil_of_mem_blocks`; `length_blocks`: how many blocks there are.
-/

namespace CProg

variable {α : Type}

/-- The list cut into blocks of `n` items. -/
def blocks (n : ℕ) (xs : List α) : List (List α) :=
  if n = 0 ∨ xs = [] then [] else xs.take n :: blocks n (xs.drop n)
termination_by xs.length
decreasing_by
  have : 0 < xs.length := List.length_pos_iff.mpr (by tauto)
  rw [List.length_drop]
  omega

@[simp] theorem blocks_nil (n : ℕ) : blocks n ([] : List α) = [] := by
  rw [blocks, if_pos (Or.inr rfl)]

@[simp] theorem blocks_zero (xs : List α) : blocks 0 xs = [] := by
  rw [blocks, if_pos (Or.inl rfl)]

theorem blocks_of_ne_nil {n : ℕ} {xs : List α} (hn : 0 < n) (hxs : xs ≠ []) :
    blocks n xs = xs.take n :: blocks n (xs.drop n) := by
  rw [blocks, if_neg (by rintro (h | h); exacts [by omega, hxs h])]

theorem blocks_of_length_le {n : ℕ} {xs : List α} (hxs : xs ≠ []) (h : xs.length ≤ n) :
    blocks n xs = [xs] := by
  have hpos := List.length_pos_iff.mpr hxs
  rw [blocks_of_ne_nil (by omega) hxs, List.take_of_length_le h, List.drop_of_length_le h,
    blocks_nil]

theorem length_drop_lt {n : ℕ} {xs : List α} (hn : 0 < n) (hxs : xs ≠ []) :
    (xs.drop n).length < xs.length := by
  have := List.length_pos_iff.mpr hxs
  rw [List.length_drop]
  omega

theorem blocks_induction {n : ℕ} (hn : 0 < n) {P : List α → Prop} (nil : P [])
    (cons : ∀ xs, xs ≠ [] → P (xs.drop n) → P xs) (xs : List α) : P xs := by
  induction h : xs.length using Nat.strong_induction_on generalizing xs with
  | _ k ih =>
    by_cases hxs : xs = []
    · exact hxs ▸ nil
    · exact cons xs hxs (ih _ (h ▸ length_drop_lt hn hxs) _ rfl)

/-- **Nothing is lost.** -/
theorem flatten_blocks {n : ℕ} (hn : 0 < n) (xs : List α) : (blocks n xs).flatten = xs := by
  induction xs using blocks_induction hn with
  | nil => simp
  | cons xs hxs ih => rw [blocks_of_ne_nil hn hxs, List.flatten_cons, ih, List.take_append_drop]

theorem ne_nil_and_length_of_mem_blocks {n : ℕ} (hn : 0 < n) {xs b : List α}
    (h : b ∈ blocks n xs) : b ≠ [] ∧ b.length ≤ n := by
  induction xs using blocks_induction hn with
  | nil => simp at h
  | cons xs hxs ih =>
    rw [blocks_of_ne_nil hn hxs, List.mem_cons] at h
    rcases h with rfl | h
    · refine ⟨fun h0 => ?_, by rw [List.length_take]; omega⟩
      rw [List.take_eq_nil_iff] at h0
      exact h0.elim (by omega) hxs
    · exact ih h

theorem ne_nil_of_mem_blocks {n : ℕ} {xs b : List α} (h : b ∈ blocks n xs) : b ≠ [] := by
  rcases Nat.eq_zero_or_pos n with rfl | hn
  · simp at h
  · exact (ne_nil_and_length_of_mem_blocks hn h).1

theorem length_of_mem_blocks {n : ℕ} {xs b : List α} (h : b ∈ blocks n xs) : b.length ≤ n := by
  rcases Nat.eq_zero_or_pos n with rfl | hn
  · simp at h
  · exact (ne_nil_and_length_of_mem_blocks hn h).2

theorem length_blocks {n : ℕ} (hn : 0 < n) (xs : List α) :
    (blocks n xs).length = xs.length ⌈/⌉ n := by
  induction xs using blocks_induction hn with
  | nil => simp
  | cons xs hxs ih =>
    have hpos := List.length_pos_iff.mpr hxs
    rw [blocks_of_ne_nil hn hxs, List.length_cons, ih, List.length_drop,
      Nat.ceilDiv_eq_add_pred_div, Nat.ceilDiv_eq_add_pred_div]
    by_cases hle : n ≤ xs.length
    · rw [← Nat.add_div_right _ hn]
      congr 1
      omega
    · have h0 : (xs.length - n + n - 1) / n = 0 := Nat.div_eq_of_lt (by omega)
      have h1 : (xs.length + n - 1) / n = 1 := Nat.div_eq_of_lt_le (by omega) (by omega)
      rw [h0, h1]

end CProg

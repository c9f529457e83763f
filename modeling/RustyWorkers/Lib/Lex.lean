/-
The immediate successor of a list in the lexicographic order.

Over an alphabet with a least letter, no list lies strictly between `k` and
`k ++ [⊥]`. A scan that should start *after* `k` can therefore start *at*
`k ++ [⊥]`, which is how an exclusive cursor is turned into an inclusive bound.
-/
import Mathlib

set_option autoImplicit false

namespace RustyWorkers.Lib

variable {α : Type*} [LinearOrder α] [OrderBot α]

/-- `k ++ [⊥]` is the least list above `k`. -/
theorem lt_iff_append_bot_le (k x : List α) : k < x ↔ k ++ [⊥] ≤ x := by
  rw [← not_lt]
  induction k generalizing x with
  | nil =>
      cases x with
      | nil => simp
      | cons a x => simp [List.cons_lt_cons_iff]
  | cons b k ih =>
      cases x with
      | nil => simp
      | cons a x =>
          simp only [List.cons_append, List.cons_lt_cons_iff, ih x]
          rcases lt_trichotomy a b with h | rfl | h
          · simp [h, h.not_gt, h.ne']
          · simp
          · simp [h, h.not_gt, h.ne']

end RustyWorkers.Lib

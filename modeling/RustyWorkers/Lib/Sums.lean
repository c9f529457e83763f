/-
Sums over a list of which one entry is replaced at a time.

A system of many parties is a list of their states, and a step replaces one of
them. What the parties have of a resource is the sum over the list, so a step
lemma says how the sum changes with the entry. Where the things that are held can
be told apart, `perm_flatMap_set` says the same of the things themselves.
Nothing in this file is about one particular program.
-/
import Mathlib

set_option autoImplicit false

namespace RustyWorkers.Lib

variable {α : Type*} (f : α → ℕ)

/-- One summand is replaced. -/
theorem sum_map_set {l : List α} {i : ℕ} {x : α} (h : l[i]? = some x) (y : α) :
    ((l.set i y).map f).sum + f x = (l.map f).sum + f y := by
  induction l generalizing i with
  | nil => cases h
  | cons z l ih =>
      cases i with
      | zero =>
          cases h
          simp only [List.set_cons_zero, List.map_cons, List.sum_cons]
          omega
      | succ i =>
          have hrest := ih (i := i) h
          simp only [List.set_cons_succ, List.map_cons, List.sum_cons]
          omega

theorem le_sum_map {l : List α} {i : ℕ} {x : α} (h : l[i]? = some x) : f x ≤ (l.map f).sum :=
  List.single_le_sum (fun _ _ => Nat.zero_le _) _ (List.mem_map_of_mem (List.mem_of_getElem? h))

/-- Two summands together. -/
theorem add_le_sum_map {l : List α} {i j : ℕ} {x y : α} (hx : l[i]? = some x) (hy : l[j]? = some y)
    (hne : i ≠ j) : f x + f y ≤ (l.map f).sum := by
  induction l generalizing i j with
  | nil => cases hx
  | cons z l ih =>
      rw [List.map_cons, List.sum_cons]
      cases i with
      | zero =>
          cases j with
          | zero => exact absurd rfl hne
          | succ j =>
              cases hx
              have hle := le_sum_map f (l := l) (i := j) hy
              omega
      | succ i =>
          cases j with
          | zero =>
              cases hy
              have hle := le_sum_map f (l := l) (i := i) hx
              omega
          | succ j =>
              have hle := ih (i := i) (j := j) hx hy (by omega)
              omega

/-- Bounded summands, of which one is nothing. -/
theorem sum_map_le_of_zero {l : List α} {i : ℕ} {x : α} (h : l[i]? = some x) (hx : f x = 0) {b : ℕ}
    (hb : ∀ y ∈ l, f y ≤ b) : (l.map f).sum ≤ (l.length - 1) * b := by
  induction l generalizing i with
  | nil => cases h
  | cons z l ih =>
      have hle : (l.map f).sum ≤ l.length * b := by
        have hcard := List.sum_le_card_nsmul (l.map f) b (by
          intro n hn
          obtain ⟨y, hy, rfl⟩ := List.mem_map.1 hn
          exact hb y (List.mem_cons_of_mem z hy))
        rwa [List.length_map, smul_eq_mul] at hcard
      rw [List.map_cons, List.sum_cons, List.length_cons, Nat.add_sub_cancel]
      cases i with
      | zero =>
          cases h
          omega
      | succ i =>
          have hrest := ih (i := i) h fun y hy => hb y (List.mem_cons_of_mem z hy)
          have hz := hb z List.mem_cons_self
          have hpos : 0 < l.length := by
            rw [List.getElem?_cons_succ] at h
            have hlt := (List.getElem?_eq_some_iff.1 h).1
            omega
          have hmul : l.length * b = b + (l.length - 1) * b := by
            obtain ⟨n, hn⟩ := Nat.exists_eq_succ_of_ne_zero hpos.ne'
            rw [hn, Nat.succ_sub_one, Nat.succ_mul]
            omega
          omega

/-- What the replaced entry held, against what the new one holds. -/
theorem perm_flatMap_set {β : Type*} (f : α → List β) {l : List α} {i : ℕ} {x : α} (h : l[i]? = some x) (y : α) :
    (f x ++ (l.set i y).flatMap f).Perm (f y ++ l.flatMap f) := by
  induction l generalizing i with
  | nil => cases h
  | cons z l ih =>
      cases i with
      | zero =>
          cases h
          rw [List.set_cons_zero, List.flatMap_cons, List.flatMap_cons]
          exact List.perm_append_comm_assoc _ _ _
      | succ i =>
          rw [List.set_cons_succ, List.flatMap_cons, List.flatMap_cons]
          refine (List.perm_append_comm_assoc _ _ _).trans ?_
          refine ((ih (i := i) h).append_left _).trans ?_
          exact List.perm_append_comm_assoc _ _ _

/-- The entry gives `c` away and gets `c'`, and keeps `d`. -/
theorem perm_flatMap_exchange {β : Type*} {f : α → List β} {l : List α} {i : ℕ} {x y : α} (h : l[i]? = some x)
    {c c' d : List β} (hx : (f x).Perm (c ++ d)) (hy : (f y).Perm (c' ++ d)) :
    (c ++ (l.set i y).flatMap f).Perm (c' ++ l.flatMap f) := by
  have hset := ((hx.append_right _).symm.trans (perm_flatMap_set f h y)).trans (hy.append_right _)
  have hd : ∀ e t : List β, (e ++ d ++ t).Perm (d ++ (e ++ t)) := fun e t =>
    (List.perm_append_comm.append_right t).trans (List.Perm.of_eq (List.append_assoc d e t))
  exact (List.perm_append_left_iff d).1 (((hd c _).symm.trans hset).trans (hd c' _))

/-- The same where an entry holds at most one thing. -/
theorem perm_filterMap_set {β : Type*} (f : α → Option β) {l : List α} {i : ℕ} {x : α} (h : l[i]? = some x) (y : α) :
    ((f x).toList ++ (l.set i y).filterMap f).Perm ((f y).toList ++ l.filterMap f) := by
  have hflat := perm_flatMap_set (fun z => (f z).toList) h y
  rwa [← List.filterMap_eq_flatMap_toList, ← List.filterMap_eq_flatMap_toList] at hflat

end RustyWorkers.Lib

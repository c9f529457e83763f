/-
Reference-counted values with strong and weak pointers, as `std::sync::Arc` and
`Weak` have them.

An allocation is at an address and has two counts. The value lives as long as
there is a strong pointer, and the thread that drops the last one drops the value;
the memory stays for the weak pointers. `ArcHeap` is what is at each address, and
every operation is described by what it leaves at its own address and that it
leaves the others alone. Nothing in this file is about one particular program.
-/
import Mathlib

set_option autoImplicit false

namespace RustyWorkers.Lib

/-- An allocation; the value is gone once there is no strong pointer. -/
structure Arc (V : Type*) where
  strong : ℕ
  weak : ℕ
  value : Option V
deriving DecidableEq, Repr

/-- What is at each address. -/
abbrev ArcHeap (V : Type*) := ℕ → Option (Arc V)

namespace ArcHeap

variable {V : Type*} (h : ArcHeap V) (a : ℕ)

/-- `Arc::new` and `Arc::downgrade`, at a free address: one pointer of each kind. -/
def new_downgraded (v : V) : ArcHeap V := Function.update h a (some ⟨1, 1, some v⟩)

/-- `Arc::weak_count`. -/
def weak_count : ℕ :=
  match h a with
  | some arc => arc.weak
  | none => 0

/-- `Weak::upgrade`, which fails when the value is gone. -/
def upgrade : Option (ArcHeap V) :=
  match h a with
  | some arc => if arc.strong = 0 then none else some (Function.update h a (some { arc with strong := arc.strong + 1 }))
  | none => none

/-- The value behind a pointer is changed in place. -/
def modify (f : V → V) : ArcHeap V :=
  match h a with
  | some arc => Function.update h a (some { arc with value := arc.value.map f })
  | none => h

/-- A weak pointer is dropped; with the last pointer the memory goes. -/
def drop_weak : ArcHeap V :=
  match h a with
  | some arc =>
    Function.update h a (if arc.strong = 0 ∧ arc.weak = 1 then none else some { arc with weak := arc.weak - 1 })
  | none => h

/-- A strong pointer is dropped. With the last one the value goes, which is
returned. -/
def drop_strong : ArcHeap V × Option V :=
  match h a with
  | some arc =>
    if arc.strong = 1 then (Function.update h a (if arc.weak = 0 then none else some ⟨0, arc.weak, none⟩), arc.value)
    else (Function.update h a (some { arc with strong := arc.strong - 1 }), none)
  | none => (h, none)

/-! ## Other addresses -/

variable {h a} {b : ℕ}

theorem new_downgraded_ne (hne : b ≠ a) (v : V) : h.new_downgraded a v b = h b := Function.update_of_ne hne _ _

theorem upgrade_ne {h' : ArcHeap V} (hup : h.upgrade a = some h') (hne : b ≠ a) : h' b = h b := by
  unfold upgrade at hup
  split at hup
  · obtain ⟨-, hup⟩ := Option.ite_none_left_eq_some.1 hup
    rw [← Option.some.inj hup]
    exact Function.update_of_ne hne _ _
  · cases hup

theorem modify_ne (hne : b ≠ a) (f : V → V) : h.modify a f b = h b := by
  unfold modify
  rcases h a with _ | arc
  · rfl
  · exact Function.update_of_ne hne _ _

theorem drop_weak_ne (hne : b ≠ a) : h.drop_weak a b = h b := by
  unfold drop_weak
  rcases h a with _ | arc
  · rfl
  · exact Function.update_of_ne hne _ _

theorem drop_strong_ne (hne : b ≠ a) : (h.drop_strong a).1 b = h b := by
  unfold drop_strong
  split
  · split
    · exact Function.update_of_ne hne _ _
    · exact Function.update_of_ne hne _ _
  · rfl

/-! ## The own address -/

variable {strong weak : ℕ} {value : Option V}

theorem new_downgraded_self (v : V) : h.new_downgraded a v a = some ⟨1, 1, some v⟩ := Function.update_self _ _ _

theorem weak_count_eq (ha : h a = some ⟨strong, weak, value⟩) : h.weak_count a = weak := by
  rw [weak_count, ha]

theorem upgrade_self (ha : h a = some ⟨strong + 1, weak, value⟩) :
    ∃ h', h.upgrade a = some h' ∧ h' a = some ⟨strong + 2, weak, value⟩ := by
  refine ⟨Function.update h a (some ⟨strong + 2, weak, value⟩), ?_, Function.update_self _ _ _⟩
  rw [upgrade, ha]
  exact if_neg (Nat.succ_ne_zero strong)

theorem modify_self (ha : h a = some ⟨strong, weak, value⟩) (f : V → V) :
    h.modify a f a = some ⟨strong, weak, value.map f⟩ := by
  rw [modify, ha]
  exact Function.update_self _ _ _

theorem drop_weak_self (ha : h a = some ⟨strong, weak, value⟩) :
    h.drop_weak a a = if strong = 0 ∧ weak = 1 then none else some ⟨strong, weak - 1, value⟩ := by
  rw [drop_weak, ha]
  exact Function.update_self _ _ _

theorem drop_strong_last (ha : h a = some ⟨1, weak, value⟩) :
    (h.drop_strong a).1 a = (if weak = 0 then none else some ⟨0, weak, none⟩) ∧ (h.drop_strong a).2 = value := by
  rw [drop_strong, ha]
  exact ⟨Function.update_self _ _ _, rfl⟩

theorem drop_strong_more (ha : h a = some ⟨strong + 2, weak, value⟩) :
    (h.drop_strong a).1 a = some ⟨strong + 1, weak, value⟩ ∧ (h.drop_strong a).2 = none := by
  rw [drop_strong, ha]
  dsimp only
  rw [if_neg (by omega)]
  exact ⟨Function.update_self _ _ _, rfl⟩

end ArcHeap

end RustyWorkers.Lib

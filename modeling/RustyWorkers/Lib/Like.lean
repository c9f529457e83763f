/-
Patterns in the manner of SQL `LIKE`, over any alphabet.

A pattern is a list of symbols of which three are special: one stands for any
sequence, one for any single symbol, and one takes its meaning from the symbol
after it. `Wildcards.tokens` reads a pattern, `accepts` matches what was read,
and `accepts_append` is the rule from which all others follow: a text matches
one pattern after another if it can be cut between them.
-/
import Mathlib

set_option autoImplicit false

namespace RustyWorkers.Lib

namespace Like

variable {α : Type*}

/-- What a pattern asks for, piece by piece. -/
inductive Token (α : Type*) where
  | any
  | one
  | lit (a : α)

/-- The special symbols of a pattern. -/
structure Wildcards (α : Type*) where
  any : α
  one : α
  escape : α

/-- A symbol that stands for itself. -/
def Wildcards.Plain (w : Wildcards α) (a : α) : Prop := a ≠ w.any ∧ a ≠ w.one ∧ a ≠ w.escape

variable [DecidableEq α]

/-- A symbol that is not escaped. -/
def Wildcards.token (w : Wildcards α) (a : α) : Token α :=
  if a = w.any then .any else if a = w.one then .one else .lit a

/-- An escape at the end of the pattern stands for itself. -/
def Wildcards.tokens (w : Wildcards α) : List α → List (Token α)
  | [] => []
  | [a] => [w.token a]
  | a :: b :: p => if a = w.escape then .lit b :: w.tokens p else w.token a :: w.tokens (b :: p)

def accepts : List (Token α) → List α → Bool
  | [], s => s.isEmpty
  | .any :: p, s => s.tails.any (accepts p)
  | .one :: p, s =>
    match s with
    | [] => false
    | _ :: s => accepts p s
  | .lit a :: p, s =>
    match s with
    | [] => false
    | x :: s => decide (x = a) && accepts p s

/-- `text LIKE pattern`. -/
def Wildcards.like (w : Wildcards α) (pattern text : List α) : Bool := accepts (w.tokens pattern) text

/-! ## Matching -/

theorem accepts_any {p : List (Token α)} {s : List α} :
    accepts (.any :: p) s = true ↔ ∃ a b, s = a ++ b ∧ accepts p b = true := by
  rw [accepts, List.any_eq_true]
  constructor
  · rintro ⟨b, hb, hp⟩
    obtain ⟨a, rfl⟩ := (List.mem_tails _ _).1 hb
    exact ⟨a, b, rfl, hp⟩
  · rintro ⟨a, b, rfl, hp⟩
    exact ⟨b, (List.mem_tails _ _).2 (List.suffix_append a b), hp⟩

theorem accepts_one {p : List (Token α)} {s : List α} :
    accepts (.one :: p) s = true ↔ ∃ x b, s = x :: b ∧ accepts p b = true := by
  cases s <;> simp [accepts]

theorem accepts_lit {c : α} {p : List (Token α)} {s : List α} :
    accepts (.lit c :: p) s = true ↔ ∃ b, s = c :: b ∧ accepts p b = true := by
  cases s <;> simp [accepts]

/-- **Cutting.** A text matches a pattern and then another one if it can be cut
into a text that matches the first and one that matches the second. -/
theorem accepts_append {p q : List (Token α)} {s : List α} :
    accepts (p ++ q) s = true ↔ ∃ a b, s = a ++ b ∧ accepts p a = true ∧ accepts q b = true := by
  induction p generalizing s with
  | nil =>
    constructor
    · intro h
      exact ⟨[], s, rfl, rfl, h⟩
    · rintro ⟨a, b, rfl, ha, hb⟩
      rw [accepts, List.isEmpty_iff] at ha
      rw [ha]
      exact hb
  | cons t p ih =>
    rw [List.cons_append]
    cases t with
    | any =>
      rw [accepts_any]
      constructor
      · rintro ⟨a, s', rfl, h⟩
        obtain ⟨b, c, rfl, hb, hc⟩ := ih.1 h
        exact ⟨a ++ b, c, (List.append_assoc _ _ _).symm, accepts_any.2 ⟨a, b, rfl, hb⟩, hc⟩
      · rintro ⟨ab, c, rfl, hab, hc⟩
        obtain ⟨a, b, rfl, hb⟩ := accepts_any.1 hab
        exact ⟨a, b ++ c, List.append_assoc _ _ _, ih.2 ⟨b, c, rfl, hb, hc⟩⟩
    | one =>
      rw [accepts_one]
      constructor
      · rintro ⟨x, s', rfl, h⟩
        obtain ⟨b, c, rfl, hb, hc⟩ := ih.1 h
        exact ⟨x :: b, c, rfl, accepts_one.2 ⟨x, b, rfl, hb⟩, hc⟩
      · rintro ⟨xb, c, rfl, hxb, hc⟩
        obtain ⟨x, b, rfl, hb⟩ := accepts_one.1 hxb
        exact ⟨x, b ++ c, rfl, ih.2 ⟨b, c, rfl, hb, hc⟩⟩
    | lit y =>
      rw [accepts_lit]
      constructor
      · rintro ⟨s', rfl, h⟩
        obtain ⟨b, c, rfl, hb, hc⟩ := ih.1 h
        exact ⟨y :: b, c, rfl, accepts_lit.2 ⟨b, rfl, hb⟩, hc⟩
      · rintro ⟨yb, c, rfl, hyb, hc⟩
        obtain ⟨b, rfl, hb⟩ := accepts_lit.1 hyb
        exact ⟨b ++ c, rfl, ih.2 ⟨b, c, rfl, hb, hc⟩⟩

theorem accepts_lits {k s : List α} : accepts (k.map .lit) s = true ↔ s = k := by
  induction k generalizing s with
  | nil => rw [List.map_nil, accepts, List.isEmpty_iff]
  | cons c k ih =>
    rw [List.map_cons, accepts_lit]
    constructor
    · rintro ⟨b, rfl, hb⟩
      rw [ih.1 hb]
    · rintro rfl
      exact ⟨k, rfl, ih.2 rfl⟩

/-! ## Prefixes -/

/-- A pattern without special symbols, with the one for any sequence behind it. -/
theorem Wildcards.tokens_plain {w : Wildcards α} {k : List α} (h : ∀ a ∈ k, w.Plain a) :
    w.tokens (k ++ [w.any]) = k.map .lit ++ [.any] := by
  induction k with
  | nil =>
    show [w.token w.any] = [.any]
    rw [Wildcards.token, if_pos rfl]
  | cons c k ih =>
    obtain ⟨hany, hone, hescape⟩ := h c List.mem_cons_self
    have hc : w.token c = .lit c := by rw [Wildcards.token, if_neg hany, if_neg hone]
    have hk := ih fun a ha => h a (List.mem_cons_of_mem _ ha)
    rw [List.map_cons, List.cons_append, List.cons_append, ← hk, ← hc]
    cases k with
    | nil => exact if_neg hescape
    | cons d k => exact if_neg hescape

/-- Such a pattern asks for a prefix. -/
theorem Wildcards.like_plain {w : Wildcards α} {k s : List α} (h : ∀ a ∈ k, w.Plain a) :
    w.like (k ++ [w.any]) s = true ↔ k <+: s := by
  rw [Wildcards.like, w.tokens_plain h, accepts_append]
  constructor
  · rintro ⟨a, b, rfl, ha, -⟩
    rw [accepts_lits.1 ha]
    exact List.prefix_append _ _
  · rintro ⟨b, rfl⟩
    exact ⟨k, b, rfl, accepts_lits.2 rfl, accepts_any.2 ⟨b, [], (List.append_nil b).symm, rfl⟩⟩

end Like

end RustyWorkers.Lib

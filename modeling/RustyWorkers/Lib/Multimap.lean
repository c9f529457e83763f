/-
Multimaps as lists of pairs and as lists of groups.

A list of pairs gives each key the values that it is paired with, in their
order; which keys come first does not matter (`Same`). `push` adds a value to the
group of its key, `group` collects pairs that way, and `spread` takes the groups
apart again. Both ways no key gains, loses or reorders a value.
-/
import Mathlib

set_option autoImplicit false

namespace RustyWorkers.Lib

namespace Multimap

variable {K V : Type*} [DecidableEq K]

/-- The values of a key. -/
def values (ps : List (K × V)) (k : K) : List V := (ps.filter fun p => p.1 = k).map Prod.snd

/-- The same values for every key. -/
def Same (ps qs : List (K × V)) : Prop := ∀ k, values ps k = values qs k

/-- A value goes to the end of the group of its key. -/
def push (k : K) (v : V) : List (K × List V) → List (K × List V)
  | [] => [(k, [v])]
  | e :: m => if e.1 = k then (k, e.2 ++ [v]) :: m else e :: push k v m

def group (ps : List (K × V)) : List (K × List V) := ps.foldl (fun m p => push p.1 p.2 m) []

def spread (m : List (K × List V)) : List (K × V) := m.flatMap fun e => e.2.map fun v => (e.1, v)

/-! ## Values -/

theorem values_append (ps qs : List (K × V)) (k : K) : values (ps ++ qs) k = values ps k ++ values qs k := by
  rw [values, List.filter_append, List.map_append]
  rfl

theorem values_cons (p : K × V) (ps : List (K × V)) (k : K) :
    values (p :: ps) k = (if p.1 = k then [p.2] else []) ++ values ps k := by
  rw [values, List.filter_cons]
  by_cases hk : p.1 = k <;> simp [hk, values]

@[simp] theorem values_nil (k : K) : values ([] : List (K × V)) k = [] := rfl

theorem values_eq_nil {ps : List (K × V)} {k : K} : values ps k = [] ↔ k ∉ ps.map Prod.fst := by
  rw [values, List.map_eq_nil_iff, List.filter_eq_nil_iff, List.mem_map]
  constructor
  · rintro h ⟨p, hp, hk⟩
    exact h p hp (decide_eq_true hk)
  · intro h p hp hk
    exact h ⟨p, hp, of_decide_eq_true hk⟩

theorem mem_iff_values {ps : List (K × V)} {p : K × V} : p ∈ ps ↔ p.2 ∈ values ps p.1 := by
  rw [values, List.mem_map]
  constructor
  · intro hp
    exact ⟨p, List.mem_filter.2 ⟨hp, decide_eq_true rfl⟩, rfl⟩
  · rintro ⟨q, hq, hval⟩
    obtain ⟨hmem, hkey⟩ := List.mem_filter.1 hq
    rwa [← Prod.ext (of_decide_eq_true hkey) hval]

theorem Same.mem {ps qs : List (K × V)} (h : Same ps qs) (p : K × V) : p ∈ ps ↔ p ∈ qs := by
  rw [mem_iff_values, mem_iff_values, h p.1]

theorem Same.keys {ps qs : List (K × V)} (h : Same ps qs) (k : K) :
    k ∈ ps.map Prod.fst ↔ k ∈ qs.map Prod.fst := by
  rw [← not_iff_not, ← values_eq_nil, ← values_eq_nil, h k]

/-- The pairs of one key. -/
theorem values_pairs (k k' : K) (vs : List V) :
    values (vs.map fun v => (k, v)) k' = if k = k' then vs else [] := by
  rw [values, List.filter_map, List.map_map]
  by_cases hk : k = k' <;> simp [hk, Function.comp_def]

/-- No key is there twice exactly if every key has one value. -/
theorem nodup_keys_iff {ps : List (K × V)} :
    (ps.map Prod.fst).Nodup ↔ ∀ k ∈ ps.map Prod.fst, (values ps k).length = 1 := by
  have hcount : ∀ k, (values ps k).length = (ps.map Prod.fst).count k := by
    intro k
    rw [values, List.length_map, ← List.countP_eq_length_filter, List.count, List.countP_map]
    exact List.countP_congr fun p _ => by simp
  rw [List.nodup_iff_count_eq_one]
  simp only [hcount]

/-- A stable sort that does not tell pairs of one key apart keeps the values. -/
theorem same_mergeSort {le : K × V → K × V → Bool} (htrans : ∀ a b c, le a b → le b c → le a c)
    (htotal : ∀ a b, le a b || le b a) (hkey : ∀ a b, a.1 = b.1 → le a b) (ps : List (K × V)) :
    Same (ps.mergeSort le) ps := by
  intro k
  -- the pairs of the key are in order, so the sort leaves them as they are
  have hsorted : (ps.filter fun p => p.1 = k).Pairwise fun a b => le a b := by
    refine List.pairwise_of_forall_mem_list fun a ha b hb => hkey a b ?_
    rw [of_decide_eq_true (List.mem_filter.1 ha).2, of_decide_eq_true (List.mem_filter.1 hb).2]
  have hsub := (List.sublist_mergeSort htrans htotal hsorted List.filter_sublist).filter fun p => decide (p.1 = k)
  rw [List.filter_filter] at hsub
  simp only [Bool.and_self] at hsub
  rw [values, values, hsub.eq_of_length ((List.mergeSort_perm ps _).filter _).length_eq.symm]

/-! ## Groups -/

omit [DecidableEq K] in
theorem spread_cons (e : K × List V) (m : List (K × List V)) :
    spread (e :: m) = e.2.map (fun v => (e.1, v)) ++ spread m := List.flatMap_cons

theorem lookup_eq_none {k : K} {m : List (K × List V)} (h : k ∉ m.map Prod.fst) : m.lookup k = none := by
  rw [List.lookup_eq_none_iff]
  intro p hp
  rw [bne_iff_ne]
  rintro rfl
  exact h (List.mem_map_of_mem hp)

/-- The values of a key are its group. -/
theorem values_spread {m : List (K × List V)} (hm : (m.map Prod.fst).Nodup) (k : K) :
    values (spread m) k = (m.lookup k).getD [] := by
  induction m with
  | nil => rfl
  | cons e m ih =>
    obtain ⟨he, hrest⟩ := List.nodup_cons.1 hm
    rw [spread_cons, values_append, values_pairs, ih hrest, List.lookup_cons]
    by_cases hk : e.1 = k
    · subst hk
      rw [if_pos rfl, beq_self_eq_true, lookup_eq_none he]
      exact List.append_nil _
    · rw [if_neg hk, beq_false_of_ne (Ne.symm hk), List.nil_append]

theorem keys_push (k : K) (v : V) (m : List (K × List V)) (k' : K) :
    k' ∈ (push k v m).map Prod.fst ↔ k' = k ∨ k' ∈ m.map Prod.fst := by
  induction m with
  | nil => simp [push]
  | cons e m ih =>
    rw [push]
    by_cases hk : e.1 = k
    · rw [if_pos hk]
      simp [hk]
    · rw [if_neg hk, List.map_cons, List.mem_cons, ih, List.map_cons, List.mem_cons]
      exact or_left_comm

theorem nodup_push {k : K} {v : V} {m : List (K × List V)} (hm : (m.map Prod.fst).Nodup) :
    ((push k v m).map Prod.fst).Nodup := by
  induction m with
  | nil => exact List.nodup_singleton _
  | cons e m ih =>
    obtain ⟨he, hrest⟩ := List.nodup_cons.1 hm
    rw [push]
    by_cases hk : e.1 = k
    · rw [if_pos hk]
      exact List.nodup_cons.2 ⟨hk ▸ he, hrest⟩
    · rw [if_neg hk, List.map_cons]
      refine List.nodup_cons.2 ⟨fun hmem => ?_, ih hrest⟩
      rcases (keys_push k v m e.1).1 hmem with heq | hin
      · exact hk heq
      · exact he hin

/-- The first value of a key makes its group. -/
theorem push_new {k : K} {v : V} {m : List (K × List V)} (h : k ∉ m.map Prod.fst) :
    push k v m = m ++ [(k, [v])] := by
  induction m with
  | nil => rfl
  | cons e m ih =>
    rw [List.map_cons, List.mem_cons, not_or] at h
    rw [push, if_neg (Ne.symm h.1), ih h.2, List.cons_append]

/-- A pushed value is the last one of its key. -/
theorem same_push (k : K) (v : V) {m : List (K × List V)} (hm : (m.map Prod.fst).Nodup) :
    Same (spread (push k v m)) (spread m ++ [(k, v)]) := by
  intro k'
  induction m with
  | nil => rfl
  | cons e m ih =>
    obtain ⟨he, hrest⟩ := List.nodup_cons.1 hm
    rw [push]
    by_cases hk : e.1 = k
    · subst hk
      rw [if_pos rfl, spread_cons, spread_cons, values_append, values_append, values_append, values_pairs,
        values_pairs, values_cons, values_nil, List.append_nil]
      by_cases hk' : e.1 = k'
      · subst hk'
        rw [if_pos rfl, if_pos rfl, if_pos rfl, values_spread hrest, lookup_eq_none he, Option.getD_none,
          List.append_nil, List.append_nil]
      · rw [if_neg hk', if_neg hk', if_neg hk', List.append_nil]
    · rw [if_neg hk, spread_cons, spread_cons, values_append, ih hrest, List.append_assoc]
      exact (values_append _ _ _).symm

/-- **Grouping keeps the values.** -/
theorem same_group (ps : List (K × V)) :
    ((group ps).map Prod.fst).Nodup ∧ Same (spread (group ps)) ps := by
  -- induction from the right: the last pair is pushed last
  induction ps using List.reverseRecOn with
  | nil => exact ⟨List.nodup_nil, fun _ => rfl⟩
  | append_singleton ps p ih =>
    have hfold : group (ps ++ [p]) = push p.1 p.2 (group ps) := by
      rw [group, List.foldl_append]
      rfl
    rw [hfold]
    refine ⟨nodup_push ih.1, fun k => ?_⟩
    rw [same_push p.1 p.2 ih.1 k, values_append, ih.2 k, values_append]

/-- The groups of a list of keys. -/
theorem lookup_groups (f : K → List V) (ks : List K) (k : K) :
    (ks.map fun k => (k, f k)).lookup k = if k ∈ ks then some (f k) else none := by
  induction ks with
  | nil => rfl
  | cons k' ks ih =>
    rw [List.map_cons, List.lookup_cons, ih]
    by_cases hk : k = k'
    · subst hk
      rw [beq_self_eq_true, if_pos List.mem_cons_self]
    · rw [beq_false_of_ne hk]
      simp [hk]

/-- A multimap is made of the values of its keys. -/
theorem same_groups {ps : List (K × V)} {ks : List K} (hks : ks.Nodup) (hmem : ∀ k, k ∈ ks ↔ k ∈ ps.map Prod.fst) :
    Same (spread (ks.map fun k => (k, values ps k))) ps := by
  intro k
  rw [values_spread (by rw [List.map_map]; simpa [Function.comp_def] using hks), lookup_groups]
  by_cases hk : k ∈ ks
  · rw [if_pos hk, Option.getD_some]
  · rw [if_neg hk, Option.getD_none, values_eq_nil.2 fun h => hk ((hmem k).2 h)]

end Multimap

end RustyWorkers.Lib

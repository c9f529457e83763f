/-
Reading a set page by page with an exclusive cursor.

`collect` asks for a page of what is left, puts the largest position it has
reached, the last entry of the page, in the place of the cursor, and goes on
with what lies above the cursor until a page is empty. A page is any part of
what is left, of at most `limit` entries, in any order: that is what a store
without an ordering clause promises. Then the loop always ends, and it returns
the set in ascending order exactly when every page it would see on the
ascending way is the smallest part of what is left, in ascending order.
-/
import Mathlib

set_option autoImplicit false

namespace RustyWorkers.Lib.Paging

variable {α : Type*} [LinearOrder α]

/-- The entries in ascending order. -/
def asc (l : List α) : List α := l.insertionSort (· ≤ ·)

theorem asc_perm (l : List α) : (asc l).Perm l := List.perm_insertionSort _ l

theorem asc_le (l : List α) : (asc l).Pairwise (· ≤ ·) := List.pairwise_insertionSort _ l

theorem asc_lt {l : List α} (hl : l.Nodup) : (asc l).Pairwise (· < ·) := by
  have hne : (asc l).Pairwise (· ≠ ·) := (asc_perm l).nodup_iff.2 hl
  exact ((asc_le l).and hne).imp fun h => lt_of_le_of_ne h.1 h.2

/-- There is only one ascending list of given entries. -/
theorem eq_asc {l m : List α} (hm : m.Pairwise (· < ·)) (h : ∀ x, x ∈ m ↔ x ∈ l) (hl : l.Nodup) :
    m = asc l := by
  have hnodup : m.Nodup := hm.imp fun h => h.ne
  have hperm : m.Perm (asc l) :=
    (List.perm_ext_iff_of_nodup hnodup ((asc_perm l).nodup_iff.2 hl)).2 fun x =>
      (h x).trans (asc_perm l).mem_iff.symm
  exact hperm.eq_of_pairwise (fun _ _ _ _ hab hba => (lt_asymm hab hba).elim) hm (asc_lt hl)

/-- What is left once `p`, the smallest entries, have been read. -/
def above (l p : List α) : List α := l.filter fun x => decide (x ∉ p)

theorem asc_above {l : List α} (hl : l.Nodup) (n : ℕ) :
    asc (above l ((asc l).take n)) = (asc l).drop n := by
  symm
  refine eq_asc ((asc_lt hl).sublist (List.drop_sublist n _)) (fun x => ?_) (hl.filter _)
  have hnodup : ((asc l).take n ++ (asc l).drop n).Nodup := by
    rw [List.take_append_drop]
    exact (asc_perm l).nodup_iff.2 hl
  have hmem : x ∈ l ↔ x ∈ (asc l).take n ∨ x ∈ (asc l).drop n := by
    rw [← (asc_perm l).mem_iff, ← List.mem_append, List.take_append_drop]
  have hdisj := (List.nodup_append.1 hnodup).2.2
  simp only [above, List.mem_filter, decide_eq_true_eq, hmem]
  constructor
  · intro hx
    exact ⟨Or.inr hx, fun hx' => hdisj x hx' x hx rfl⟩
  · rintro ⟨hx | hx, hnot⟩
    · exact absurd hx hnot
    · exact hx

/-- What lies above the cursor. -/
def beyond (l : List α) : Option α → List α
  | none => l
  | some a => l.filter fun x => decide (a < x)

/-- The cursor only moves up. -/
theorem beyond_beyond {l : List α} {last : Option α} {a : α} (ha : a ∈ beyond l last) :
    beyond (beyond l last) (some a) = beyond l (some a) := by
  cases last with
  | none => rfl
  | some k =>
      have hka : k < a := of_decide_eq_true (List.mem_filter.1 ha).2
      simp only [beyond]
      rw [List.filter_filter]
      refine List.filter_congr fun x _ => ?_
      by_cases hax : a < x
      · simp [hax, hka.trans hax]
      · simp [hax]

/-- Reading on above the last entry read is reading what is left. -/
theorem beyond_last {l : List α} (hl : l.Nodup) {n : ℕ} {a : α}
    (ha : ((asc l).take n).getLast? = some a) :
    beyond l (some a) = above l ((asc l).take n) := by
  refine List.filter_congr fun x hx => ?_
  have hsorted : ((asc l).take n ++ (asc l).drop n).Pairwise (· < ·) := by
    rw [List.take_append_drop]
    exact asc_lt hl
  obtain ⟨hlow, _, hcross⟩ := List.pairwise_append.1 hsorted
  obtain ⟨init, hinit⟩ := List.getLast?_eq_some_iff.1 ha
  have hxl : x ∈ (asc l).take n ∨ x ∈ (asc l).drop n := by
    rw [← List.mem_append, List.take_append_drop]
    exact (asc_perm l).mem_iff.2 hx
  have hax : a < x ↔ x ∉ (asc l).take n := by
    constructor
    · intro hlt hmem
      rw [hinit] at hmem hlow
      rcases List.mem_append.1 hmem with hi | hi
      · exact lt_asymm hlt ((List.pairwise_append.1 hlow).2.2 x hi a (List.mem_singleton.2 rfl))
      · rw [List.mem_singleton.1 hi] at hlt
        exact lt_irrefl a hlt
    · intro hnot
      have hmem : a ∈ (asc l).take n := by
        rw [hinit]
        exact List.mem_append_right _ (List.mem_singleton.2 rfl)
      exact hcross a hmem x (hxl.resolve_left hnot)
  rw [decide_eq_decide]
  exact hax

/-! ## The loop -/

/-- A page of at most `limit` entries of what is left. -/
def Pages (limit : ℕ) (fetch : ℕ → List α → List α) : Prop :=
  ∀ i l, ∃ l' : List α, l'.Perm l ∧ fetch i l = l'.take limit

/-- Read page `i` and on, until a page is empty. -/
def collect (fetch : ℕ → List α → List α) : ℕ → ℕ → List α → Option (List (List α))
  | 0, _, _ => none
  | fuel + 1, i, l =>
    match (fetch i l).getLast? with
    | none => some []
    | some a =>
      (collect fetch fuel (i + 1) (beyond l (some a))).map (fetch i l :: ·)

/-- Every page on the ascending way is the smallest part of what is left, in
ascending order. -/
def Ordered (limit : ℕ) (fetch : ℕ → List α → List α) (i : ℕ) (l : List α) : Prop :=
  ∀ j, fetch (i + j) (above l ((asc l).take (j * limit))) = ((asc l).drop (j * limit)).take limit

variable {limit : ℕ} {fetch : ℕ → List α → List α}

omit [LinearOrder α] in
theorem Pages.length (h : Pages limit fetch) (i : ℕ) (l : List α) :
    (fetch i l).length = min limit l.length := by
  obtain ⟨l', hperm, hfetch⟩ := h i l
  rw [hfetch, List.length_take, hperm.length_eq]

omit [LinearOrder α] in
theorem Pages.mem (h : Pages limit fetch) {i : ℕ} {l : List α} {x : α} (hx : x ∈ fetch i l) :
    x ∈ l := by
  obtain ⟨l', hperm, hfetch⟩ := h i l
  rw [hfetch] at hx
  exact hperm.mem_iff.1 (List.mem_of_mem_take hx)

/-- Each page moves the cursor up, so the loop ends. -/
theorem collect_terminates (h : Pages limit fetch) {fuel i : ℕ} {l : List α} (hfuel : l.length < fuel) :
    ∃ ps, collect fetch fuel i l = some ps := by
  induction fuel generalizing i l with
  | zero => omega
  | succ fuel ih =>
      rw [collect]
      cases hlast : (fetch i l).getLast? with
      | none => exact ⟨[], rfl⟩
      | some a =>
          have ha : a ∈ l := h.mem (List.mem_of_getLast? hlast)
          have hshort : (beyond l (some a)).length < l.length :=
            List.length_filter_lt_length_iff_exists.2 ⟨a, ha, by simp⟩
          obtain ⟨ps, hps⟩ := ih (i := i + 1) (Nat.lt_of_lt_of_le hshort (by omega))
          exact ⟨fetch i l :: ps, by simp [hps]⟩

theorem above_above {l : List α} (hl : l.Nodup) (j : ℕ) :
    above (above l ((asc l).take limit)) ((asc (above l ((asc l).take limit))).take (j * limit))
      = above l ((asc l).take ((j + 1) * limit)) := by
  have htake : (asc l).take ((j + 1) * limit)
      = (asc l).take limit ++ ((asc l).drop limit).take (j * limit) := by
    rw [Nat.succ_mul, Nat.add_comm, List.take_add]
  rw [asc_above hl, htake]
  unfold above
  rw [List.filter_filter]
  congr 1
  funext x
  rw [Bool.eq_iff_iff]
  simp only [Bool.and_eq_true, decide_eq_true_eq, List.mem_append, not_or]
  exact and_comm

/-- The condition, page by page. -/
theorem ordered_iff {l : List α} (hl : l.Nodup) (i : ℕ) :
    Ordered limit fetch i l ↔ fetch i l = (asc l).take limit
      ∧ Ordered limit fetch (i + 1) (above l ((asc l).take limit)) := by
  have hfirst : above l ((asc l).take (0 * limit)) = l := by
    simp [above]
  have hrest : ∀ j, ((asc (above l ((asc l).take limit))).drop (j * limit)).take limit
      = ((asc l).drop ((j + 1) * limit)).take limit := by
    intro j
    rw [asc_above hl, List.drop_drop, Nat.succ_mul, Nat.add_comm]
  constructor
  · intro h
    refine ⟨?_, fun j => ?_⟩
    · have h0 := h 0
      rw [hfirst] at h0
      simpa using h0
    · rw [above_above hl, hrest, Nat.add_right_comm i 1 j]
      exact h (j + 1)
  · rintro ⟨h0, h⟩ j
    cases j with
    | zero =>
        rw [hfirst]
        simpa using h0
    | succ j =>
        have hj := h j
        rw [above_above hl, hrest, Nat.add_right_comm i 1 j] at hj
        exact hj

/-- **When paging is complete.** The pages together are the set in ascending
order exactly when the pages on the ascending way are in order. -/
theorem collect_eq_asc_iff (h : Pages limit fetch) (hlimit : 1 ≤ limit) {fuel i : ℕ} {l : List α}
    (hl : l.Nodup) {ps : List (List α)} (hps : collect fetch fuel i l = some ps) :
    ps.flatten = asc l ↔ Ordered limit fetch i l := by
  induction fuel generalizing i l ps with
  | zero => cases hps
  | succ fuel ih =>
      have hlen := h.length i l
      rw [collect] at hps
      cases hlast : (fetch i l).getLast? with
      | none =>
          -- an empty page: nothing is left
          rw [List.getLast?_eq_none_iff] at hlast
          rw [hlast, List.length_nil] at hlen
          obtain rfl : l = [] := List.eq_nil_of_length_eq_zero (by omega)
          have hnil : ∀ k, fetch k ([] : List α) = [] := fun k =>
            List.eq_nil_of_length_eq_zero (by rw [h.length]; simp)
          have hasc : asc ([] : List α) = [] := (asc_perm []).eq_nil
          rw [hlast] at hps
          cases hps
          simp [Ordered, above, hasc, hnil]
      | some a =>
          rw [hlast] at hps
          obtain ⟨rest, hrest, rfl⟩ := Option.map_eq_some_iff.1 hps
          rw [List.flatten_cons, ordered_iff hl]
          -- once the page is the smallest part, the loop goes on with what is left
          have hnext : fetch i l = (asc l).take limit →
              (rest.flatten = (asc l).drop limit
                ↔ Ordered limit fetch (i + 1) (above l ((asc l).take limit))) := by
            intro hpage
            rw [hpage] at hlast
            rw [beyond_last hl hlast] at hrest
            rw [← asc_above hl]
            exact ih (hl.filter _) hrest
          constructor
          · intro heq
            have hsplit : fetch i l ++ rest.flatten = (asc l).take limit ++ (asc l).drop limit := by
              rw [List.take_append_drop]
              exact heq
            have hsame : (fetch i l).length = ((asc l).take limit).length := by
              rw [hlen, List.length_take, (asc_perm l).length_eq]
            obtain ⟨hpage, htail⟩ := List.append_inj hsplit hsame
            exact ⟨hpage, (hnext hpage).1 htail⟩
          · rintro ⟨hpage, hordered⟩
            rw [(hnext hpage).2 hordered, hpage, List.take_append_drop]

end RustyWorkers.Lib.Paging

/-
Tables of rows with a primary key, where keys are compared by a relation that
may identify different spellings (a collation).

A `Keying` says which rows a query key hits and which key a row has. Two query
keys that hit a common row hit exactly the same rows, which is all that a
comparison has to satisfy for the primary key to make sense. `Unique` is the
primary-key constraint, and `upsert` and `erase` are the two ways a keyed
statement changes a table: each gets one lemma saying what every lookup finds
afterwards, so a proof about statements never looks at the list.
-/
import Mathlib

set_option autoImplicit false

namespace RustyWorkers.Lib

/-- How query keys select the rows of a table. -/
structure Keying (Q R : Type*) where
  hit : Q → R → Bool
  key : R → Q
  hit_key : ∀ r, hit (key r) r = true
  hit_eq : ∀ {q q' r}, hit q r = true → hit q' r = true → hit q = hit q'

namespace Keying

variable {Q R : Type*} (K : Keying Q R)

/-- The row that a query key finds. -/
def find (q : Q) (rows : List R) : Option R := rows.find? (K.hit q)

/-- The primary-key constraint: no row is hit by the key of an earlier one. -/
def Unique (rows : List R) : Prop := rows.Pairwise fun a b => K.hit (K.key a) b = false

/-- Update the row that has the key of `new`, or add `new`. -/
def upsert (upd : R → R) (new : R) : List R → List R
  | [] => [new]
  | r :: rows => if K.hit (K.key new) r then upd r :: rows else r :: upsert upd new rows

/-- Remove the rows that `q` hits. -/
def erase (q : Q) (rows : List R) : List R := rows.filter fun r => !K.hit q r

variable {K}

/-- Hitting is symmetric between rows. -/
theorem hit_comm (a b : R) : K.hit (K.key a) b = K.hit (K.key b) a := by
  have himp : ∀ c d, K.hit (K.key c) d = true → K.hit (K.key d) c = true := by
    intro c d h
    rw [← K.hit_eq h (K.hit_key d)]
    exact K.hit_key c
  rw [Bool.eq_iff_iff]
  exact ⟨himp a b, himp b a⟩

/-- A key that hits a row is compared like the row's own key. -/
theorem hit_eq_key {q : Q} {r : R} (h : K.hit q r = true) : K.hit q = K.hit (K.key r) :=
  K.hit_eq h (K.hit_key r)

/-! ## What lookups find -/

theorem find_mem {q : Q} {rows : List R} {r : R} (h : K.find q rows = some r) :
    r ∈ rows ∧ K.hit q r = true :=
  ⟨List.mem_of_find?_eq_some h, List.find?_some h⟩

/-- Under the primary key a lookup finds the row that the query hits. -/
theorem find_eq_some {q : Q} {rows : List R} (hu : K.Unique rows) {r : R} (hr : r ∈ rows)
    (hq : K.hit q r = true) : K.find q rows = some r := by
  induction rows with
  | nil => cases hr
  | cons a rows ih =>
      obtain ⟨ha, hrows⟩ := List.pairwise_cons.1 hu
      unfold find
      rcases List.mem_cons.1 hr with rfl | hmem
      · rw [List.find?_cons_of_pos hq]
      · have hna : K.hit q a = false := by
          rw [hit_eq_key hq, hit_comm]
          exact ha r hmem
        rw [List.find?_cons_of_neg (by simp [hna])]
        exact ih hrows hmem

theorem find_iff {q : Q} {rows : List R} (hu : K.Unique rows) {r : R} :
    K.find q rows = some r ↔ r ∈ rows ∧ K.hit q r = true :=
  ⟨find_mem, fun h => find_eq_some hu h.1 h.2⟩

theorem find_eq_none {q : Q} {rows : List R} :
    K.find q rows = none ↔ ∀ r ∈ rows, K.hit q r = false := by
  simp [find, List.find?_eq_none]

/-- A `where` clause with the key and a condition `p`, under the primary key:
look the key up, then test `p`. -/
theorem find?_and {q : Q} {rows : List R} (hu : K.Unique rows) (p : R → Bool) :
    rows.find? (fun r => K.hit q r && p r) = (K.find q rows).filter p := by
  cases hf : K.find q rows with
  | none =>
      rw [find_eq_none] at hf
      simp only [Option.filter_none, List.find?_eq_none, Bool.and_eq_true, not_and]
      intro r hr hq
      rw [hf r hr] at hq
      cases hq
  | some r =>
      obtain ⟨hr, hq⟩ := find_mem hf
      have honly : ∀ r' ∈ rows, K.hit q r' = true → r' = r := by
        intro r' hr' hq'
        have h := find_eq_some hu hr' hq'
        rw [hf] at h
        exact (Option.some.inj h).symm
      by_cases hp : p r = true
      · rw [Option.filter_some, if_pos hp]
        cases hg : rows.find? (fun r => K.hit q r && p r) with
        | none =>
            rw [List.find?_eq_none] at hg
            exact absurd (by simp [hq, hp]) (hg r hr)
        | some r' =>
            have hq' := List.find?_some hg
            rw [Bool.and_eq_true] at hq'
            rw [honly r' (List.mem_of_find?_eq_some hg) hq'.1]
      · rw [Option.filter_some, if_neg hp, List.find?_eq_none]
        intro r' hr' hboth
        rw [Bool.and_eq_true] at hboth
        exact hp (honly r' hr' hboth.1 ▸ hboth.2)

/-- After an upsert the key of the new row finds the updated or new row, and
every other key finds what it found before. -/
theorem find_upsert {upd : R → R} (hupd : ∀ q r, K.hit q (upd r) = K.hit q r) (new : R) (q : Q)
    (rows : List R) :
    K.find q (K.upsert upd new rows)
      = if K.hit q new then some ((K.find q rows).elim new upd) else K.find q rows := by
  unfold find
  induction rows with
  | nil => cases hq : K.hit q new <;> simp [upsert, hq]
  | cons r rows ih =>
      rw [upsert]
      by_cases hr : K.hit (K.key new) r = true
      · rw [if_pos hr]
        -- the row found for `new` is hit by `q` exactly when `new` is
        have hiff : K.hit q r = K.hit q new := by
          rw [Bool.eq_iff_iff]
          constructor
          · intro h
            rw [K.hit_eq h hr]
            exact K.hit_key new
          · intro h
            rw [hit_eq_key h]
            exact hr
        cases hq : K.hit q new <;> simp [hupd, hiff, hq]
      · rw [if_neg hr]
        cases hqr : K.hit q r with
        | true =>
            have hqn : K.hit q new = false := by
              rw [Bool.eq_false_iff]
              intro h
              rw [hit_eq_key h] at hqr
              exact hr hqr
            simp [hqr, hqn]
        | false => simpa [List.find?_cons, hqr] using ih

/-- After an erase the erased key's rows are gone, whatever key asks. -/
theorem find_erase (q q' : Q) (rows : List R) :
    K.find q' (K.erase q rows) = (K.find q' rows).filter fun r => !K.hit q r := by
  unfold find erase
  induction rows with
  | nil => rfl
  | cons r rows ih =>
      cases hq : K.hit q r with
      | false =>
          rw [List.filter_cons_of_pos (by simp [hq])]
          cases hq' : K.hit q' r <;> simp [hq', hq, ih, Option.filter_some]
      | true =>
          rw [List.filter_cons_of_neg (by simp [hq]), ih]
          cases hq' : K.hit q' r with
          | false => simp [hq']
          | true =>
              -- `q` and `q'` hit the same rows: nothing survives on either side
              simp only [List.find?_cons, hq', Option.filter_some, hq, Bool.not_true,
                Bool.false_eq_true, if_false, Option.filter_eq_none_iff]
              intro r' hr'
              rw [K.hit_eq hq hq', List.find?_some hr']
              exact Bool.false_ne_true

/-! ## The primary key is kept -/

theorem mem_upsert {upd : R → R} {new r : R} {rows : List R} (h : r ∈ K.upsert upd new rows) :
    r = new ∨ r ∈ rows ∨ ∃ r₀ ∈ rows, K.hit (K.key new) r₀ = true ∧ r = upd r₀ := by
  induction rows with
  | nil => exact Or.inl (List.mem_singleton.1 h)
  | cons a rows ih =>
      rw [upsert] at h
      split at h
      · rename_i ha
        rcases List.mem_cons.1 h with rfl | hmem
        · exact Or.inr (Or.inr ⟨a, List.mem_cons_self, ha, rfl⟩)
        · exact Or.inr (Or.inl (List.mem_cons_of_mem a hmem))
      · rcases List.mem_cons.1 h with rfl | hmem
        · exact Or.inr (Or.inl List.mem_cons_self)
        · rcases ih hmem with h1 | h2 | ⟨r₀, h3, h4⟩
          · exact Or.inl h1
          · exact Or.inr (Or.inl (List.mem_cons_of_mem a h2))
          · exact Or.inr (Or.inr ⟨r₀, List.mem_cons_of_mem a h3, h4⟩)

theorem unique_upsert {upd : R → R} (hupd : ∀ q r, K.hit q (upd r) = K.hit q r) (new : R)
    {rows : List R} (hu : K.Unique rows) : K.Unique (K.upsert upd new rows) := by
  induction rows with
  | nil => exact List.pairwise_singleton _ _
  | cons a rows ih =>
      obtain ⟨ha, hrows⟩ := List.pairwise_cons.1 hu
      rw [upsert]
      split
      · refine List.pairwise_cons.2 ⟨fun b hb => ?_, hrows⟩
        rw [hit_comm, hupd, hit_comm]
        exact ha b hb
      · rename_i hna
        refine List.pairwise_cons.2 ⟨fun b hb => ?_, ih hrows⟩
        rcases mem_upsert hb with rfl | hb | ⟨r₀, hr₀, _, rfl⟩
        · rw [hit_comm]
          simpa using hna
        · exact ha b hb
        · rw [hupd]
          exact ha r₀ hr₀

theorem unique_erase (q : Q) {rows : List R} (hu : K.Unique rows) : K.Unique (K.erase q rows) :=
  hu.sublist List.filter_sublist

/-! ## A part of the table

`p` selects rows. A statement whose key hits selected rows only acts on the
selected part alone; one whose key hits none of them leaves that part as it is. -/

theorem find_filter {p : R → Bool} {q : Q} (hq : ∀ r, K.hit q r = true → p r = true) (rows : List R) :
    K.find q (rows.filter p) = K.find q rows := by
  unfold find
  rw [List.find?_filter]
  congr 1
  funext r
  cases hr : K.hit q r with
  | false => simp
  | true => simp [hq r hr]

theorem filter_erase (p : R → Bool) (q : Q) (rows : List R) :
    (K.erase q rows).filter p = K.erase q (rows.filter p) := by
  unfold erase
  rw [List.filter_filter, List.filter_filter]
  congr 1
  funext r
  exact Bool.and_comm _ _

theorem filter_erase_other {p : R → Bool} {q : Q} {rows : List R}
    (hq : ∀ r ∈ rows, p r = true → K.hit q r = false) : (K.erase q rows).filter p = rows.filter p := by
  rw [filter_erase]
  unfold erase
  rw [List.filter_eq_self]
  intro r hr
  obtain ⟨hmem, hp⟩ := List.mem_filter.1 hr
  rw [hq r hmem hp]
  rfl

theorem filter_upsert {p : R → Bool} {upd : R → R} {new : R}
    (hq : ∀ r, K.hit (K.key new) r = true → p r = true) (hupd : ∀ r, p (upd r) = p r)
    (rows : List R) :
    (K.upsert upd new rows).filter p = K.upsert upd new (rows.filter p) := by
  have hnew : p new = true := hq new (K.hit_key new)
  induction rows with
  | nil =>
      rw [upsert, List.filter_cons_of_pos hnew]
      rfl
  | cons r rows ih =>
      rw [upsert]
      by_cases hr : K.hit (K.key new) r = true
      · have hpr : p r = true := hq r hr
        rw [if_pos hr, List.filter_cons_of_pos ((hupd r).trans hpr), List.filter_cons_of_pos hpr,
          upsert, if_pos hr]
      · rw [if_neg hr]
        by_cases hpr : p r = true
        · rw [List.filter_cons_of_pos hpr, List.filter_cons_of_pos hpr, upsert, if_neg hr, ih]
        · rw [List.filter_cons_of_neg hpr, List.filter_cons_of_neg hpr, ih]

theorem filter_upsert_other {p : R → Bool} {upd : R → R} {new : R} {rows : List R}
    (hnew : p new = false) (hq : ∀ r ∈ rows, p r = true → K.hit (K.key new) r = false)
    (hupd : ∀ r, p (upd r) = p r) : (K.upsert upd new rows).filter p = rows.filter p := by
  induction rows with
  | nil =>
      rw [upsert, List.filter_cons_of_neg (by simp [hnew])]
  | cons r rows ih =>
      obtain ⟨hqr, hrest⟩ := List.forall_mem_cons.1 hq
      rw [upsert]
      by_cases hr : K.hit (K.key new) r = true
      · have hpr : ¬ p r = true := by
          intro hpr
          rw [hqr hpr] at hr
          cases hr
        rw [if_pos hr, List.filter_cons_of_neg (by rw [hupd r]; exact hpr),
          List.filter_cons_of_neg hpr]
      · rw [if_neg hr]
        by_cases hpr : p r = true
        · rw [List.filter_cons_of_pos hpr, List.filter_cons_of_pos hpr, ih hrest]
        · rw [List.filter_cons_of_neg hpr, List.filter_cons_of_neg hpr, ih hrest]

/-- Keys that are compared by equality. -/
def exact {Q R : Type*} [DecidableEq Q] (key : R → Q) : Keying Q R where
  hit q r := q = key r
  key := key
  hit_key r := by simp
  hit_eq h h' := by
    simp only [decide_eq_true_eq] at h h'
    rw [h, h']

theorem unique_append {new : R} {rows : List R} (hu : K.Unique rows) (hnew : K.find (K.key new) rows = none) :
    K.Unique (rows ++ [new]) := by
  refine List.pairwise_append.2 ⟨hu, List.pairwise_singleton _ _, fun a ha b hb => ?_⟩
  rw [List.mem_singleton.1 hb, hit_comm]
  exact find_eq_none.1 hnew a ha

theorem find_append_of_some {q : Q} {rows : List R} {r : R} (h : K.find q rows = some r) (new : R) :
    K.find q (rows ++ [new]) = some r := by
  unfold find at h ⊢
  rw [List.find?_append, h]
  rfl

theorem find_erase_self (q : Q) (rows : List R) : K.find q (K.erase q rows) = none := by
  rw [find_erase, Option.filter_eq_none_iff]
  intro r hr
  simp [(find_mem hr).2]

end Keying

/-- The rows of a table, with its primary key. -/
structure Table {Q R : Type*} (K : Keying Q R) where
  rows : List R
  primary_key : K.Unique rows

namespace Table

variable {Q R : Type*} {K : Keying Q R}

def empty : Table K := ⟨[], List.Pairwise.nil⟩

def find (t : Table K) (q : Q) : Option R := K.find q t.rows

/-- `insert into ..`: a row whose key is there is refused. -/
def insert (t : Table K) (new : R) : Table K :=
  if h : t.find (K.key new) = none then ⟨t.rows ++ [new], Keying.unique_append t.primary_key h⟩ else t

/-- `replace into ..`. -/
def replace (t : Table K) (new : R) : Table K :=
  ⟨K.erase (K.key new) t.rows ++ [new],
    Keying.unique_append (Keying.unique_erase _ t.primary_key) (Keying.find_erase_self _ _)⟩

/-- `insert into .. on duplicate key update ..`. -/
def upsert (upd : R → R) (hupd : ∀ q r, K.hit q (upd r) = K.hit q r) (t : Table K) (new : R) : Table K :=
  ⟨K.upsert upd new t.rows, Keying.unique_upsert hupd new t.primary_key⟩

/-- `delete from .. where p`. -/
def delete (t : Table K) (p : R → Bool) : Table K :=
  ⟨t.rows.filter fun r => !p r, t.primary_key.sublist List.filter_sublist⟩

/-- What a table has is not changed by an insert. -/
theorem find_insert {t : Table K} {q : Q} {r : R} (h : t.find q = some r) (new : R) :
    (t.insert new).find q = some r := by
  unfold insert
  split
  · exact Keying.find_append_of_some h new
  · exact h

theorem find_insert_new {t : Table K} {new : R} (h : t.find (K.key new) = none) :
    (t.insert new).find (K.key new) = some new := by
  rw [insert, dif_pos h, find, Keying.find, List.find?_append]
  rw [find, Keying.find] at h
  rw [h, Option.none_or, List.find?_cons_of_pos (K.hit_key new)]

theorem find_upsert {upd : R → R} (hupd : ∀ q r, K.hit q (upd r) = K.hit q r) (t : Table K) (new : R) (q : Q) :
    (t.upsert upd hupd new).find q = if K.hit q new then some ((t.find q).elim new upd) else t.find q :=
  K.find_upsert hupd new q t.rows

/-- What is found after a deletion was there, and is not what was deleted. -/
theorem find_of_delete {t : Table K} {p : R → Bool} {q : Q} {r : R} (h : (t.delete p).find q = some r) :
    t.find q = some r ∧ p r = false := by
  obtain ⟨hmem, hhit⟩ := Keying.find_mem h
  obtain ⟨hmem, hp⟩ := List.mem_filter.1 hmem
  exact ⟨Keying.find_eq_some t.primary_key hmem hhit, by simpa using hp⟩

end Table

end RustyWorkers.Lib

/-
A map of bounded size that forgets the entry that has not been used for longest.

The entries are a list, the least recently used first, with one entry for each
key. `find` looks without use, `get` counts as a use. How a traversal reorders
the entries is left open (`reorder`). What a client needs to know is which
entries an operation can leave behind, and nothing here depends on keys or
values.
-/
import Mathlib

set_option autoImplicit false

namespace RustyWorkers.Lib

/-- The entries of the cache, the least recently used first. -/
structure LruCache (α β : Type*) where
  capacity : ℕ
  entries : List (α × β)
  nodup : (entries.map Prod.fst).Nodup

namespace LruCache

variable {α β : Type*} [DecidableEq α]

def empty (capacity : ℕ) : LruCache α β := ⟨capacity, [], List.nodup_nil⟩

def find (c : LruCache α β) (k : α) : Option β := c.entries.lookup k

/-- A traversal has left the entries in another order. -/
def reorder (c : LruCache α β) (entries : List (α × β)) (h : entries.Perm c.entries) : LruCache α β :=
  ⟨c.capacity, entries, (h.map Prod.fst).nodup_iff.2 c.nodup⟩

def remove (c : LruCache α β) (k : α) : LruCache α β :=
  ⟨c.capacity, c.entries.filter fun e => e.1 ≠ k,
    c.nodup.sublist (List.filter_sublist.map Prod.fst)⟩

/-- The entry of `k`, if there is one, becomes the last. -/
def touch (c : LruCache α β) (k : α) : LruCache α β :=
  c.reorder (c.entries.filter (fun e => e.1 ≠ k) ++ c.entries.filter fun e => !decide (e.1 ≠ k))
    (List.filter_append_perm _ _)

/-- A lookup, and the cache after it. -/
def get (c : LruCache α β) (k : α) : Option β × LruCache α β := (c.find k, c.touch k)

/-- A key that is not there pushes the first entries out. -/
def make_room (c : LruCache α β) (k : α) : List (α × β) :=
  if k ∈ c.entries.map Prod.fst then c.entries
  else c.entries.drop (c.entries.length + 1 - c.capacity)

theorem make_room_sublist (c : LruCache α β) (k : α) : (c.make_room k).Sublist c.entries := by
  unfold make_room
  split
  · exact List.Sublist.refl _
  · exact List.drop_sublist _ _

theorem insert_nodup (c : LruCache α β) (k : α) (v : β) :
    (((c.make_room k).filter (fun e => e.1 ≠ k) ++ [(k, v)]).map Prod.fst).Nodup := by
  have hsub : ((c.make_room k).filter fun e => e.1 ≠ k).Sublist c.entries :=
    List.filter_sublist.trans (c.make_room_sublist k)
  rw [List.map_append, List.nodup_append]
  refine ⟨c.nodup.sublist (hsub.map Prod.fst), List.nodup_singleton _, ?_⟩
  intro x hx y hy heq
  obtain ⟨e, he, rfl⟩ := List.mem_map.1 hx
  have hne := (List.mem_filter.1 he).2
  rw [List.map_singleton, List.mem_singleton] at hy
  rw [heq, hy] at hne
  simp at hne

def insert (c : LruCache α β) (k : α) (v : β) : LruCache α β :=
  ⟨c.capacity, (c.make_room k).filter (fun e => e.1 ≠ k) ++ [(k, v)], c.insert_nodup k v⟩

/-- The keys that an insert of `k` pushes out. -/
def evicted (c : LruCache α β) (k : α) : List α :=
  if k ∈ c.entries.map Prod.fst then []
  else (c.entries.take (c.entries.length + 1 - c.capacity)).map Prod.fst

/-! ## What an operation leaves behind -/

variable {c : LruCache α β} {k : α} {v : β} {e : α × β}

theorem mem_of_find (h : c.find k = some v) : (k, v) ∈ c.entries := by
  unfold find at h
  rw [List.lookup_eq_some_iff] at h
  obtain ⟨before, after, hsplit, -⟩ := h
  rw [hsplit]
  exact List.mem_append_right _ List.mem_cons_self

theorem find_eq_some_iff : c.find k = some v ↔ (k, v) ∈ c.entries := by
  refine ⟨mem_of_find, fun h => ?_⟩
  obtain ⟨x, hx⟩ : ∃ x, c.find k = some x := by
    rw [← Option.isSome_iff_exists, find, List.lookup_isSome_iff]
    exact ⟨(k, v), h, by simp⟩
  have heq := List.inj_on_of_nodup_map c.nodup h (mem_of_find hx) rfl
  rw [hx, (Prod.mk.inj heq).2]

omit [DecidableEq α] in
theorem mem_of_reorder {entries : List (α × β)} (hperm : entries.Perm c.entries)
    (h : e ∈ (c.reorder entries hperm).entries) : e ∈ c.entries := hperm.mem_iff.1 h

theorem mem_of_touch (h : e ∈ (c.touch k).entries) : e ∈ c.entries := mem_of_reorder _ h

theorem mem_of_remove (h : e ∈ (c.remove k).entries) : e ∈ c.entries := (List.mem_filter.1 h).1

theorem ne_of_mem_remove (h : e ∈ (c.remove k).entries) : e.1 ≠ k := by
  simpa using (List.mem_filter.1 h).2

theorem mem_of_insert (h : e ∈ (c.insert k v).entries) : e ∈ c.entries ∨ e = (k, v) := by
  rcases List.mem_append.1 h with h | h
  · exact Or.inl ((c.make_room_sublist k).subset (List.mem_filter.1 h).1)
  · exact Or.inr (List.mem_singleton.1 h)

/-! ## The keys that are there -/

theorem find_isSome_iff : (c.find k).isSome = true ↔ k ∈ c.entries.map Prod.fst := by
  rw [Option.isSome_iff_exists, List.mem_map]
  constructor
  · rintro ⟨v, hv⟩
    exact ⟨(k, v), mem_of_find hv, rfl⟩
  · rintro ⟨e, he, rfl⟩
    exact ⟨e.2, find_eq_some_iff.2 he⟩

theorem key_mem_touch {k' : α} (h : k' ∈ c.entries.map Prod.fst) (k : α) :
    k' ∈ (c.touch k).entries.map Prod.fst :=
  ((List.filter_append_perm (fun e : α × β => e.1 ≠ k) c.entries).map Prod.fst).mem_iff.2 h

theorem key_mem_insert_self : k ∈ (c.insert k v).entries.map Prod.fst :=
  List.mem_map.2 ⟨(k, v), List.mem_append_right _ (List.mem_singleton_self _), rfl⟩

/-- A key that is not pushed out stays. -/
theorem key_mem_insert {k' : α} (h : k' ∈ c.entries.map Prod.fst) (hk : k' ∉ c.evicted k) :
    k' ∈ (c.insert k v).entries.map Prod.fst := by
  by_cases heq : k' = k
  · rw [heq]
    exact key_mem_insert_self
  · obtain ⟨e, he, rfl⟩ := List.mem_map.1 h
    have hroom : e ∈ c.make_room k := by
      unfold evicted at hk
      unfold make_room
      split at hk
      · rename_i hin
        rw [if_pos hin]
        exact he
      · rename_i hout
        rw [if_neg hout]
        rw [← List.take_append_drop (c.entries.length + 1 - c.capacity) c.entries] at he
        rcases List.mem_append.1 he with hpushed | hkept
        · exact absurd (List.mem_map.2 ⟨e, hpushed, rfl⟩) hk
        · exact hkept
    refine List.mem_map.2 ⟨e, List.mem_append_left _ (List.mem_filter.2 ⟨hroom, ?_⟩), rfl⟩
    simpa using heq

theorem key_mem_remove {k' : α} (h : k' ∈ c.entries.map Prod.fst) (hne : k' ≠ k) :
    k' ∈ (c.remove k).entries.map Prod.fst := by
  obtain ⟨e, he, rfl⟩ := List.mem_map.1 h
  exact List.mem_map.2 ⟨e, List.mem_filter.2 ⟨he, by simpa using hne⟩, rfl⟩

end LruCache

end RustyWorkers.Lib

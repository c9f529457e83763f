/-
The order of the entries of an `LruCache`, as a function of its uses.

`uses` is the list of the keys that have been used, the last one at the end, and
`uses.dedup` keeps the last use of each. An accessor keeps the entries in this
order when it counts as a use of the key that it moves, or moves none (`Access`).
A traversal with `iter` uses every entry, the last used one first, and so turns
the order round: it does not fit into the uses of the clients. Nothing in this
file is about one particular program.
-/
import RustyWorkers.Lib.LruCache

set_option autoImplicit false

namespace RustyWorkers.Lib

variable {α β : Type*} [DecidableEq α]

/-! ## Uses -/

/-- `y` has been used after the last use of `x`. -/
def UsedBefore (uses : List α) (x y : α) : Prop :=
  ∃ before after, uses = before ++ y :: after ∧ x ∈ before ∧ x ≠ y ∧ x ∉ after

/-- A use makes the key the last one. -/
theorem dedup_concat (uses : List α) (k : α) : (uses ++ [k]).dedup = uses.dedup.filter (· ≠ k) ++ [k] := by
  induction uses with
  | nil => simp
  | cons x xs ih =>
    rw [List.cons_append, List.dedup_cons, List.dedup_cons, ih]
    by_cases hmem : x ∈ xs
    · rw [if_pos (List.mem_append_left _ hmem), if_pos hmem]
    · by_cases hk : x = k
      · rw [if_pos (by rw [hk]; simp), if_neg hmem, List.filter_cons_of_neg (by simpa using hk)]
      · rw [if_neg (by simp [hmem, hk]), if_neg hmem, List.filter_cons_of_pos (by simpa using hk), List.cons_append]

theorem used_before_of_sublist {uses : List α} {x y : α} (h : [x, y].Sublist uses.dedup) : UsedBefore uses x y := by
  induction uses with
  | nil => simp at h
  | cons z zs ih =>
    have hlater : [x, y].Sublist zs.dedup → UsedBefore (z :: zs) x y := by
      intro hsub
      obtain ⟨before, after, rfl, hx, hne, hafter⟩ := ih hsub
      exact ⟨z :: before, after, rfl, List.mem_cons_of_mem _ hx, hne, hafter⟩
    by_cases hz : z ∈ zs
    · rw [List.dedup_cons_of_mem hz] at h
      exact hlater h
    · rw [List.dedup_cons_of_notMem hz] at h
      cases h with
      | cons _ hsub => exact hlater hsub
      | cons_cons _ hsub =>
        have hy : y ∈ zs := List.mem_dedup.1 (List.singleton_sublist.1 hsub)
        have hne : x ≠ y := fun heq => hz (heq ▸ hy)
        obtain ⟨before, after, rfl⟩ := List.append_of_mem hy
        refine ⟨x :: before, after, rfl, List.mem_cons_self, hne, fun hafter => hz ?_⟩
        exact List.mem_append_right _ (List.mem_cons_of_mem _ hafter)

omit [DecidableEq α] in
/-- A list without duplicates that is its own reverse has at most one element. -/
theorem length_le_one_of_reverse_eq {l : List α} (hnodup : l.Nodup) (h : l.reverse = l) : l.length ≤ 1 := by
  by_contra hlen
  have hfirst : l.reverse[0]? = l[0]? := by rw [h]
  rw [List.getElem?_reverse (by omega)] at hfirst
  have hindex := (List.getElem?_inj (by omega) hnodup).1 hfirst
  omega

/-- A sublist of a list without duplicates is what remains of it. -/
theorem eq_filter_of_sublist {l d : List α} (hd : d.Nodup) (h : l.Sublist d) : l = d.filter (· ∈ l) := by
  have hl : l.filter (· ∈ l) = l := List.filter_eq_self.2 fun x hx => decide_eq_true hx
  have hsub := List.Sublist.filter (fun x => decide (x ∈ l)) h
  rw [hl] at hsub
  refine hsub.eq_of_length_le ?_
  refine ((hd.filter _).subperm fun x hx => ?_).length_le
  simpa using (List.mem_filter.1 hx).2

namespace LruCache

/-- The keys, the least recently used first. -/
def keys (c : LruCache α β) : List α := c.entries.map Prod.fst

/-- `iter`: every entry is used, the most recently used first. -/
def iter (c : LruCache α β) : LruCache α β := c.entries.reverse.foldl (fun c e => c.touch e.1) c

/-- The keys are in the order of their last uses. -/
def ByUse (c : LruCache α β) (uses : List α) : Prop := c.keys.Sublist uses.dedup

/-- The order of the entries depends on the uses and on which entries there are,
and an insert pushes out what has not been used for longest. -/
structure Undisturbed (c : LruCache α β) (uses : List α) : Prop where
  order : c.keys = uses.dedup.filter (· ∈ c.keys)
  evicts : ∀ k, ∀ x ∈ c.evicted k, ∀ y ∈ c.keys, y ∉ c.evicted k → UsedBefore uses x y

/-- What an accessor other than `iter` makes of the cache, and the keys it uses. -/
inductive Access (c : LruCache α β) : List α → LruCache α β → Prop
  | peek : Access c [] c
  | get (k : α) : Access c [k] (c.touch k)
  | insert (k : α) (v : β) : Access c [k] (c.insert k v)
  | remove (k : α) : Access c [] (c.remove k)

variable {c c' : LruCache α β} {uses : List α}

omit [DecidableEq α] in
theorem keys_filter (entries : List (α × β)) (p : α → Bool) :
    (entries.filter fun e => p e.1).map Prod.fst = (entries.map Prod.fst).filter p := by
  rw [List.filter_map]
  rfl

theorem keys_touch (c : LruCache α β) (k : α) :
    (c.touch k).keys = c.keys.filter (· ≠ k) ++ c.keys.filter fun x => !decide (x ≠ k) := by
  show (_ ++ _ : List (α × β)).map Prod.fst = _
  rw [List.map_append]
  exact congrArg₂ (· ++ ·) (keys_filter _ fun x => decide (x ≠ k)) (keys_filter _ fun x => !decide (x ≠ k))

theorem keys_remove (c : LruCache α β) (k : α) : (c.remove k).keys = c.keys.filter (· ≠ k) :=
  keys_filter _ fun x => decide (x ≠ k)

theorem keys_insert_sublist (c : LruCache α β) (k : α) (v : β) :
    (c.insert k v).keys.Sublist (c.keys.filter (· ≠ k) ++ [k]) := by
  show ((_ ++ _ : List (α × β)).map Prod.fst).Sublist _
  rw [List.map_append, keys_filter _ fun x => decide (x ≠ k)]
  exact (((c.make_room_sublist k).map Prod.fst).filter _).append (List.Sublist.refl _)

/-- Only the key itself is moved to the end. -/
theorem filter_eq_sublist (c : LruCache α β) (k : α) : (c.keys.filter fun x => !decide (x ≠ k)).Sublist [k] := by
  have hall : ∀ x ∈ c.keys.filter (fun x => !decide (x ≠ k)), x = k := by
    intro x hx
    simpa using (List.mem_filter.1 hx).2
  have hnodup : (c.keys.filter fun x => !decide (x ≠ k)).Nodup := c.nodup.filter _
  cases hl : c.keys.filter (fun x => !decide (x ≠ k)) with
  | nil => exact List.nil_sublist _
  | cons x xs =>
    rw [hl] at hall hnodup
    obtain rfl := hall x List.mem_cons_self
    cases xs with
    | nil => exact List.Sublist.refl _
    | cons y ys =>
      have hy := hall y (List.mem_cons_of_mem _ List.mem_cons_self)
      rw [hy] at hnodup
      exact absurd List.mem_cons_self (List.nodup_cons.1 hnodup).1

/-! ## Accessors keep the order -/

theorem by_use_access {ks : List α} (h : c.ByUse uses) (ha : Access c ks c') : c'.ByUse (uses ++ ks) := by
  have hfilter : ∀ k, (c.keys.filter (· ≠ k)).Sublist (uses.dedup.filter (· ≠ k)) := fun k => List.Sublist.filter _ h
  cases ha with
  | peek =>
    rw [List.append_nil]
    exact h
  | get k =>
    unfold ByUse
    rw [keys_touch, dedup_concat]
    exact (hfilter k).append (c.filter_eq_sublist k)
  | insert k v =>
    unfold ByUse
    rw [dedup_concat]
    exact (c.keys_insert_sublist k v).trans ((hfilter k).append (List.Sublist.refl _))
  | remove k =>
    unfold ByUse
    rw [List.append_nil, keys_remove]
    exact List.filter_sublist.trans h

theorem by_use_empty (capacity : ℕ) : (empty capacity : LruCache α β).ByUse [] := List.nil_sublist _

/-- What is pushed out comes before what stays. -/
theorem pair_of_evicted {k x y : α} (hx : x ∈ c.evicted k) (hy : y ∈ c.keys) (hstays : y ∉ c.evicted k) :
    [x, y].Sublist c.keys := by
  unfold evicted at hx hstays
  split at hx
  · cases hx
  · rename_i hnew
    rw [if_neg hnew] at hstays
    have hsplit := List.take_append_drop (c.entries.length + 1 - c.capacity) c.entries
    unfold keys at hy ⊢
    rw [← hsplit, List.map_append] at hy ⊢
    have hdrop := (List.mem_append.1 hy).resolve_left hstays
    exact (List.singleton_sublist.2 hx).append (List.singleton_sublist.2 hdrop)

theorem ByUse.undisturbed (h : c.ByUse uses) : c.Undisturbed uses where
  order := eq_filter_of_sublist (List.nodup_dedup uses) h
  evicts _ _ hx _ hy hstays := used_before_of_sublist ((pair_of_evicted hx hy hstays).trans h)

/-! ## A traversal does not -/

/-- There is one entry for a key. -/
theorem entries_filter_eq {e : α × β} (he : e ∈ c.entries) : c.entries.filter (fun x => !decide (x.1 ≠ e.1)) = [e] := by
  obtain ⟨before, after, hsplit⟩ := List.append_of_mem he
  have hnodup := c.nodup
  rw [hsplit, List.map_append, List.map_cons, List.nodup_append, List.nodup_cons] at hnodup
  obtain ⟨-, ⟨hafter, -⟩, hbefore⟩ := hnodup
  rw [hsplit, List.filter_append, List.filter_cons_of_pos (by simp), List.filter_eq_nil_iff.2, List.filter_eq_nil_iff.2]
  · rfl
  · intro x hx
    have hne : x.1 ≠ e.1 := fun heq => hafter (heq ▸ List.mem_map.2 ⟨x, hx, rfl⟩)
    simpa using hne
  · intro x hx
    have hne : x.1 ≠ e.1 := hbefore x.1 (List.mem_map.2 ⟨x, hx, rfl⟩) e.1 List.mem_cons_self
    simpa using hne

/-- The entries that have been used one after another are the last ones. -/
theorem touch_all (es : List (α × β)) (hnodup : (es.map Prod.fst).Nodup) (hmem : ∀ e ∈ es, e ∈ c.entries) :
    (es.foldl (fun c e => c.touch e.1) c).entries = c.entries.filter (fun e => e.1 ∉ es.map Prod.fst) ++ es := by
  induction es using List.reverseRecOn with
  | nil => simp
  | append_singleton es e ih =>
    rw [List.map_append, List.nodup_append] at hnodup
    obtain ⟨hes, -, hne⟩ := hnodup
    have hlast := ih hes fun x hx => hmem x (List.mem_append_left _ hx)
    have he : e ∈ c.entries := hmem e (List.mem_append_right _ (List.mem_singleton_self e))
    have hfresh : ∀ x ∈ es, x.1 ≠ e.1 := fun x hx =>
      hne x.1 (List.mem_map.2 ⟨x, hx, rfl⟩) e.1 (List.mem_singleton_self _)
    rw [List.foldl_append]
    show _ ++ _ = _
    rw [hlast, List.filter_append, List.filter_append, List.filter_filter, List.filter_filter]
    have hkept : es.filter (fun x => x.1 ≠ e.1) = es :=
      List.filter_eq_self.2 fun x hx => decide_eq_true (hfresh x hx)
    have hnone : es.filter (fun x => !decide (x.1 ≠ e.1)) = [] :=
      List.filter_eq_nil_iff.2 fun x hx => by simp [hfresh x hx]
    have hone : c.entries.filter (fun x => !decide (x.1 ≠ e.1) && decide (x.1 ∉ es.map Prod.fst)) = [e] := by
      rw [← entries_filter_eq he]
      refine List.filter_congr fun x _ => ?_
      by_cases hx : x.1 = e.1
      · have hout : e.1 ∉ es.map Prod.fst := fun hin => hne e.1 hin e.1 (List.mem_singleton_self _) rfl
        simpa [hx] using hout
      · simp [hx]
    rw [hkept, hnone, hone, List.append_nil, List.append_assoc]
    congr 1
    refine List.filter_congr fun x _ => ?_
    rw [List.map_append, List.map_singleton]
    simp only [List.mem_append, List.mem_singleton, not_or, Bool.decide_and, Bool.and_comm]

theorem iter_entries (c : LruCache α β) : c.iter.entries = c.entries.reverse := by
  unfold iter
  rw [touch_all c.entries.reverse]
  · rw [List.filter_eq_nil_iff.2, List.nil_append]
    intro e he
    simpa using ⟨e.2, he⟩
  · rw [List.map_reverse, List.nodup_reverse]
    exact c.nodup
  · intro e he
    exact List.mem_reverse.1 he

/-- A traversal disturbs the order as soon as there is one. -/
theorem not_undisturbed_of_reverse (h : c.ByUse uses) (hrev : c'.entries = c.entries.reverse)
    (hlen : 1 < c.entries.length) : ¬ c'.Undisturbed uses := by
  intro h'
  have hkeys : c'.keys = c.keys.reverse := by
    unfold keys
    rw [hrev, List.map_reverse]
  have horder := h'.order
  rw [hkeys] at horder
  simp only [List.mem_reverse] at horder
  rw [← h.undisturbed.order] at horder
  have hone : c.keys.length ≤ 1 := length_le_one_of_reverse_eq c.nodup horder
  rw [keys, List.length_map] at hone
  omega

theorem by_use_reverse (h : c.ByUse uses) (hrev : c'.entries = c.entries.reverse) (hlen : c.entries.length ≤ 1) :
    c'.ByUse uses := by
  have hsame : c'.keys = c.keys := by
    unfold keys
    rw [hrev]
    match hc : c.entries, hlen with
    | [], _ => rfl
    | [_], _ => rfl
  unfold ByUse
  rw [hsame]
  exact h

end LruCache

end RustyWorkers.Lib

/-
Strict two-phase locking over a store with keys.

A transaction locks each key when it first reads it or announces a write to it,
and gives all its locks back when it commits or is rolled back; its writes take
effect together at the commit. `Engine` holds the store, the lock table, and
for each transaction what it has read and what it will write. `Sound` says that
every recorded read is still what the store shows, because the key has been
locked ever since. So at a commit everything the transaction has read is true
*now*, and the order of the commits is a serial order: that is what
`Sound.reads_hold` is used for.

Transactions read before they write. Stores, keys and transaction names are
arbitrary types.
-/
import Mathlib

set_option autoImplicit false

namespace RustyWorkers.Lib

/-- A store whose writes each change what is seen under one key only. -/
structure KeyedStore (S K V W : Type*) where
  view : S → K → V
  apply : W → S → S
  key : W → K
  frame : ∀ w s k, k ≠ key w → view (apply w s) k = view s k

/-- The store, who has locked what, and what each open transaction did so far. -/
structure Engine (S K V W C : Type*) where
  store : S
  owner : K → Option C
  reads : C → List (K × V)
  pending : C → List W

namespace Engine

variable {S K V W C : Type*} [DecidableEq K] [DecidableEq C]

/-- No transaction is open. -/
def start (s : S) : Engine S K V W C := ⟨s, fun _ => none, fun _ => [], fun _ => []⟩

/-- The transaction can have the lock: nobody has it, or it has it already. -/
def free (e : Engine S K V W C) (c : C) (k : K) : Bool := e.owner k == none || e.owner k == some c

/-- Take the lock on `k`. -/
def lock (e : Engine S K V W C) (c : C) (k : K) : Engine S K V W C :=
  { e with owner := Function.update e.owner k (some c) }

/-- A locking read; it waits (`none`) while another transaction has the key. -/
def read (st : KeyedStore S K V W) (e : Engine S K V W C) (c : C) (k : K) :
    Option (Engine S K V W C) :=
  if e.free c k then
    some { e.lock c k with reads := Function.update e.reads c ((k, st.view e.store k) :: e.reads c) }
  else none

/-- Announce a write; it waits while another transaction has the key. -/
def write (st : KeyedStore S K V W) (e : Engine S K V W C) (c : C) (w : W) :
    Option (Engine S K V W C) :=
  if e.free c (st.key w) then
    some { e.lock c (st.key w) with pending := Function.update e.pending c (e.pending c ++ [w]) }
  else none

/-- Forget the transaction and its locks. -/
def release (e : Engine S K V W C) (c : C) : Engine S K V W C where
  store := e.store
  owner k := if e.owner k = some c then none else e.owner k
  reads := Function.update e.reads c []
  pending := Function.update e.pending c []

/-- The writes one after the other. -/
def apply_all (st : KeyedStore S K V W) (ws : List W) (s : S) : S :=
  ws.foldl (fun s w => st.apply w s) s

/-- The writes take effect, and the locks are given back. -/
def commit (st : KeyedStore S K V W) (e : Engine S K V W C) (c : C) : Engine S K V W C :=
  { e.release c with store := apply_all st (e.pending c) e.store }

/-- The writes are forgotten, and the locks are given back. -/
def rollback (e : Engine S K V W C) (c : C) : Engine S K V W C := e.release c

/-- A write outside a transaction: it needs the lock for as long as it takes. -/
def autocommit (st : KeyedStore S K V W) (e : Engine S K V W C) (w : W) :
    Option (Engine S K V W C) :=
  if e.owner (st.key w) = none then some { e with store := st.apply w e.store } else none

/-- What an open transaction has read is locked and still so; what it will
write is locked. -/
structure Sound (st : KeyedStore S K V W) (e : Engine S K V W C) : Prop where
  reads : ∀ c, ∀ kv ∈ e.reads c, e.owner kv.1 = some c ∧ st.view e.store kv.1 = kv.2
  pending : ∀ c, ∀ w ∈ e.pending c, e.owner (st.key w) = some c

variable {st : KeyedStore S K V W} {e e' : Engine S K V W C} {c : C}

omit [DecidableEq K] in
theorem free_iff {k : K} : e.free c k = true ↔ e.owner k = none ∨ e.owner k = some c := by
  unfold free
  rw [Bool.or_eq_true, beq_iff_eq, beq_iff_eq]

/-- Locking takes no lock away. -/
theorem owner_lock {k k' : K} {d : C} (hfree : e.free c k = true) (h : e.owner k' = some d) :
    (e.lock c k).owner k' = some d := by
  change Function.update e.owner k (some c) k' = some d
  by_cases hk : k' = k
  · subst hk
    rcases free_iff.1 hfree with hnone | hsome
    · rw [hnone] at h
      cases h
    · rw [hsome] at h
      rw [Function.update_self]
      exact h
  · rw [Function.update_of_ne hk]
    exact h

omit [DecidableEq K] [DecidableEq C] in
/-- Keys that no write touches keep what they show. -/
theorem view_apply_all {ws : List W} {k : K} (h : ∀ w ∈ ws, k ≠ st.key w) (s : S) :
    st.view (apply_all st ws s) k = st.view s k := by
  induction ws generalizing s with
  | nil => rfl
  | cons w ws ih =>
      have hw : k ≠ st.key w := h w List.mem_cons_self
      have hws : ∀ w' ∈ ws, k ≠ st.key w' := fun w' hw' => h w' (List.mem_cons_of_mem w hw')
      calc st.view (apply_all st (w :: ws) s) k
          = st.view (apply_all st ws (st.apply w s)) k := rfl
        _ = st.view (st.apply w s) k := ih hws _
        _ = st.view s k := st.frame w s k hw

/-! ## What the operations do -/

theorem read_eq_some {k : K} : e.read st c k = some e' ↔ e.free c k = true ∧
    e' = { e.lock c k with reads := Function.update e.reads c ((k, st.view e.store k) :: e.reads c) } := by
  unfold read
  split
  · rename_i h
    simp [h, eq_comm]
  · rename_i h
    simp [h]

theorem write_eq_some {w : W} : e.write st c w = some e' ↔ e.free c (st.key w) = true ∧
    e' = { e.lock c (st.key w) with pending := Function.update e.pending c (e.pending c ++ [w]) } := by
  unfold write
  split
  · rename_i h
    simp [h, eq_comm]
  · rename_i h
    simp [h]

omit [DecidableEq K] [DecidableEq C] in
theorem autocommit_eq_some {w : W} : e.autocommit st w = some e' ↔
    e.owner (st.key w) = none ∧ e' = { e with store := st.apply w e.store } := by
  unfold autocommit
  split
  · rename_i h
    simp [h, eq_comm]
  · rename_i h
    simp [h]

/-- Only `c` has done something. -/
def Others (c : C) (e e' : Engine S K V W C) : Prop :=
  ∀ d, d ≠ c → e'.reads d = e.reads d ∧ e'.pending d = e.pending d

omit [DecidableEq K] [DecidableEq C] in
theorem others_refl (c : C) (e : Engine S K V W C) : Others c e e := fun _ _ => ⟨rfl, rfl⟩

theorem others_read {k : K} (h : e.read st c k = some e') : Others c e e' := by
  obtain ⟨_, rfl⟩ := read_eq_some.1 h
  exact fun d hd => ⟨Function.update_of_ne hd .., rfl⟩

theorem others_write {w : W} (h : e.write st c w = some e') : Others c e e' := by
  obtain ⟨_, rfl⟩ := write_eq_some.1 h
  exact fun d hd => ⟨rfl, Function.update_of_ne hd ..⟩

omit [DecidableEq K] in
theorem others_release (c : C) (e : Engine S K V W C) : Others c e (e.release c) :=
  fun _ hd => ⟨Function.update_of_ne hd .., Function.update_of_ne hd ..⟩

omit [DecidableEq K] in
theorem others_commit (c : C) (e : Engine S K V W C) : Others c e (e.commit st c) :=
  others_release c e

omit [DecidableEq K] [DecidableEq C] in
theorem others_autocommit {w : W} (h : e.autocommit st w = some e') : Others c e e' := by
  obtain ⟨_, rfl⟩ := autocommit_eq_some.1 h
  exact fun _ _ => ⟨rfl, rfl⟩

/-! ## Soundness is kept -/

namespace Sound

omit [DecidableEq K] [DecidableEq C] in
theorem start (s : S) : Sound st (Engine.start s : Engine S K V W C) where
  reads _ _ h := by cases h
  pending _ _ h := by cases h

theorem read (h : Sound st e) {k : K} (hr : e.read st c k = some e') : Sound st e' := by
  obtain ⟨hfree, rfl⟩ := read_eq_some.1 hr
  refine ⟨fun d kv hkv => ?_, fun d w hw => owner_lock hfree (h.pending d w hw)⟩
  by_cases hd : d = c
  · subst hd
    dsimp only at hkv
    rw [Function.update_self] at hkv
    rcases List.mem_cons.1 hkv with rfl | hold
    · exact ⟨Function.update_self .., rfl⟩
    · exact ⟨owner_lock hfree (h.reads d kv hold).1, (h.reads d kv hold).2⟩
  · dsimp only at hkv
    rw [Function.update_of_ne hd] at hkv
    exact ⟨owner_lock hfree (h.reads d kv hkv).1, (h.reads d kv hkv).2⟩

theorem write (h : Sound st e) {w : W} (hw : e.write st c w = some e') : Sound st e' := by
  obtain ⟨hfree, rfl⟩ := write_eq_some.1 hw
  refine ⟨fun d kv hkv => ⟨owner_lock hfree (h.reads d kv hkv).1, (h.reads d kv hkv).2⟩,
    fun d w' hw' => ?_⟩
  by_cases hd : d = c
  · subst hd
    dsimp only at hw'
    rw [Function.update_self] at hw'
    rcases List.mem_append.1 hw' with hold | hnew
    · exact owner_lock hfree (h.pending d w' hold)
    · rw [List.mem_singleton.1 hnew]
      exact Function.update_self ..
  · dsimp only at hw'
    rw [Function.update_of_ne hd] at hw'
    exact owner_lock hfree (h.pending d w' hw')

omit [DecidableEq K] in
/-- The other transactions keep their locks when one is forgotten. -/
theorem release (h : Sound st e) (c : C) : Sound st (e.release c) := by
  have hkeep : ∀ {d : C} {k : K}, d ≠ c → e.owner k = some d → (e.release c).owner k = some d := by
    intro d k hd hk
    have hne : e.owner k ≠ some c := by
      rw [hk]
      exact fun heq => hd (Option.some.inj heq)
    change (if e.owner k = some c then none else e.owner k) = some d
    rw [if_neg hne, hk]
  refine ⟨fun d kv hkv => ?_, fun d w hw => ?_⟩
  · by_cases hd : d = c
    · subst hd
      simp only [Engine.release, Function.update_self, List.not_mem_nil] at hkv
    · have hkv' : kv ∈ e.reads d := by
        simpa only [Engine.release, Function.update_of_ne hd] using hkv
      exact ⟨hkeep hd (h.reads d kv hkv').1, (h.reads d kv hkv').2⟩
  · by_cases hd : d = c
    · subst hd
      simp only [Engine.release, Function.update_self, List.not_mem_nil] at hw
    · have hw' : w ∈ e.pending d := by
        simpa only [Engine.release, Function.update_of_ne hd] using hw
      exact hkeep hd (h.pending d w hw')

omit [DecidableEq K] in
/-- A commit changes only keys that the transaction has locked, so what the
others have read stays true. -/
theorem commit (h : Sound st e) (c : C) : Sound st (e.commit st c) := by
  have hrel := h.release c
  refine ⟨fun d kv hkv => ⟨(hrel.reads d kv hkv).1, ?_⟩, hrel.pending⟩
  have hdc : d ≠ c := by
    rintro rfl
    simp only [Engine.commit, Engine.release, Function.update_self, List.not_mem_nil] at hkv
  have hkv' : kv ∈ e.reads d := by
    simpa only [Engine.commit, Engine.release, Function.update_of_ne hdc] using hkv
  have hother : ∀ w ∈ e.pending c, kv.1 ≠ st.key w := by
    intro w hw heq
    have hown := (h.reads d kv hkv').1
    rw [heq, h.pending c w hw] at hown
    exact hdc (Option.some.inj hown).symm
  exact (view_apply_all hother e.store).trans (h.reads d kv hkv').2

omit [DecidableEq K] in
theorem rollback (h : Sound st e) (c : C) : Sound st (e.rollback c) := h.release c

omit [DecidableEq K] [DecidableEq C] in
/-- A write outside a transaction changes only a key that nobody has locked. -/
theorem autocommit (h : Sound st e) {w : W} (hw : e.autocommit st w = some e') : Sound st e' := by
  obtain ⟨hnone, rfl⟩ := autocommit_eq_some.1 hw
  refine ⟨fun d kv hkv => ?_, h.pending⟩
  obtain ⟨hown, hview⟩ := h.reads d kv hkv
  have hne : kv.1 ≠ st.key w := by
    intro heq
    rw [heq, hnone] at hown
    cases hown
  exact ⟨hown, (st.frame w e.store kv.1 hne).trans hview⟩

omit [DecidableEq K] [DecidableEq C] in
/-- **Everything an open transaction has read is still so.** -/
theorem reads_hold (h : Sound st e) {k : K} {v : V} (hr : (k, v) ∈ e.reads c) :
    st.view e.store k = v := (h.reads c (k, v) hr).2

end Sound

end Engine

end RustyWorkers.Lib

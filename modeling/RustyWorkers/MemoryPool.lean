/-
The memory budget of the array buffers of an isolate: `MemoryPool` and the four
entry points of its allocator (`rusty-workers-runtime/src/mm.rs`), with the
resets that `isolate_worker` and `Instance::new` make.

Any number of threads are inside the allocator at once. `acquire_bytes` is a
loop around a load and a `compare_exchange`, so an allocation is at one of these
two points, with the value that it has loaded; `release_bytes` is one atomic
addition. Which thread goes on is the action.

A buffer carries whether it was allocated since the last reset. A reset stores
the new budget and looks at no buffer, so what an older buffer gives back when
it goes is added on top of the new budget. The law behind the limit is a
conservation law: what remains and what the fresh buffers take is the budget.
-/
import RustyWorkers.Lib.Machine

set_option autoImplicit false

namespace RustyWorkers

open Lib

namespace MemoryPool

/-- A live array buffer. `fresh` says that it has been allocated since the last
reset of the pool. -/
structure Buffer where
  size : ℕ
  fresh : Bool
deriving DecidableEq

/-- Which entry point has called `acquire_bytes`: `allocate` (or
`allocate_uninitialized`), or `reallocate` for a buffer that is to grow. -/
inductive Caller where
  | allocate
  | reallocate (prev : Buffer)
deriving DecidableEq

/-- A thread in the loop of `acquire_bytes`. `current` is what it has loaded,
between the comparison with `n` and the `compare_exchange`. -/
structure Acquire where
  caller : Caller
  n : ℕ
  current : Option ℕ
  enough : ∀ c ∈ current, n ≤ c
deriving DecidableEq

/-- `limit` is the value of the last reset. -/
structure State where
  remaining_bytes : ℕ
  limit : ℕ
  buffers : List Buffer
  acquiring : List Acquire
deriving DecidableEq

/-- `MemoryPool::new(0)`. -/
def start : State := ⟨0, 0, [], []⟩

inductive Action where
  | reset (n : ℕ)
  | allocate (n : ℕ)
  | reallocate (prev : Buffer) (newlen : ℕ)
  | free (b : Buffer)
  | load (c : Acquire)
  | compare_exchange (c : Acquire)
deriving DecidableEq

/-- At the top of the loop of `acquire_bytes`. -/
def Acquire.enter (caller : Caller) (n : ℕ) : Acquire :=
  ⟨caller, n, none, fun c hc => by cases hc⟩

/-! ## A reset makes every buffer an older one -/

def Buffer.age (b : Buffer) : Buffer := { b with fresh := false }

def Caller.age : Caller → Caller
  | .allocate => .allocate
  | .reallocate prev => .reallocate prev.age

def Acquire.age (c : Acquire) : Acquire := { c with caller := c.caller.age }

namespace State

def release_bytes (s : State) (n : ℕ) : State :=
  { s with remaining_bytes := s.remaining_bytes + n }

/-- What the entry point does with the answer of `acquire_bytes`; a refused
`reallocate` returns a null pointer and leaves its buffer as it was. -/
def acquired (s : State) (n : ℕ) (answer : Bool) : Caller → State
  | .allocate => if answer then { s with buffers := ⟨n, true⟩ :: s.buffers } else s
  | .reallocate prev =>
    { s with buffers := (if answer then ⟨prev.size + n, true⟩ else prev) :: s.buffers }

/-- The loop of `acquire_bytes` goes from `c` to `c'`. -/
def advance (s : State) (c c' : Acquire) : State :=
  { s with acquiring := c' :: s.acquiring.erase c }

/-- The loop of `acquire_bytes` is left. -/
def leave (s : State) (c : Acquire) : State := { s with acquiring := s.acquiring.erase c }

end State

/-- One step of one thread. A buffer is freed or reallocated with its size, and
by one thread at a time. -/
def step (s : State) : Action → Option State
  | .reset n => some ⟨n, n, s.buffers.map Buffer.age, s.acquiring.map Acquire.age⟩
  | .allocate n => some { s with acquiring := .enter .allocate n :: s.acquiring }
  | .reallocate prev newlen =>
    if prev ∈ s.buffers then
      let s := { s with buffers := s.buffers.erase prev }
      if newlen ≤ prev.size then
        -- the block that is left over is given back at once
        some ({ s with buffers := ⟨newlen, true⟩ :: s.buffers }.release_bytes (prev.size - newlen))
      else
        some { s with acquiring := .enter (.reallocate prev) (newlen - prev.size) :: s.acquiring }
    else none
  | .free b =>
    if b ∈ s.buffers then some ({ s with buffers := s.buffers.erase b }.release_bytes b.size)
    else none
  | .load c =>
    if c ∈ s.acquiring ∧ c.current = none then
      -- `acquire_bytes` answers no without an exchange
      if h : s.remaining_bytes < c.n then some ((s.leave c).acquired c.n false c.caller)
      else
        some (s.advance c ⟨c.caller, c.n, some s.remaining_bytes, fun m hm => by
          cases hm
          exact Nat.le_of_not_lt h⟩)
    else none
  | .compare_exchange c =>
    match c.current with
    | some current =>
      if c ∈ s.acquiring then
        if s.remaining_bytes = current then
          some ({ s.leave c with remaining_bytes := current - c.n }.acquired c.n true c.caller)
        -- another thread has been here in between: once more around the loop
        else some (s.advance c (.enter c.caller c.n))
      else none
    | none => none

/-- The memory pool of one isolate. -/
def machine : Machine State Action := ⟨step⟩

/-! ## What the buffers of the present budget take -/

def Buffer.fresh_bytes (b : Buffer) : ℕ := if b.fresh then b.size else 0

/-- A buffer is live while `reallocate` waits for more room for it. -/
def Caller.fresh_bytes : Caller → ℕ
  | .allocate => 0
  | .reallocate prev => prev.fresh_bytes

/-- The total size of the live buffers allocated since the last reset. -/
def State.fresh_bytes (s : State) : ℕ :=
  (s.buffers.map Buffer.fresh_bytes).sum + (s.acquiring.map fun c => c.caller.fresh_bytes).sum

/-- The limit of the present budget. -/
def Bounded (s : State) : Prop := s.fresh_bytes ≤ s.limit ∧ s.remaining_bytes ≤ s.limit

/-- The pool accounts for every byte of the present budget. -/
def Conserved (s : State) : Prop := s.remaining_bytes + s.fresh_bytes = s.limit

/-- The buffer takes its bytes back to the budget that they came from. -/
def Buffer.own (b : Buffer) : Prop := b.fresh = true ∨ b.size = 0

/-- No buffer of an older budget is freed, shrunk or moved to a larger block. -/
def releases_own (s : State) : Action → Prop
  | .free b => b.own
  | .reallocate prev newlen => newlen ≤ prev.size → prev.own
  | .compare_exchange c =>
    c.current = some s.remaining_bytes → ∀ prev, c.caller = .reallocate prev → prev.own
  | _ => True

/-- What a buffer takes with it beyond its share of the present budget. -/
def Buffer.foreign_bytes (b : Buffer) : ℕ := if b.fresh then 0 else b.size

theorem Buffer.size_eq (b : Buffer) : b.size = b.fresh_bytes + b.foreign_bytes := by
  unfold Buffer.fresh_bytes Buffer.foreign_bytes
  by_cases h : b.fresh = true
  · simp [h]
  · simp [h]

theorem Buffer.own_iff (b : Buffer) : b.own ↔ b.foreign_bytes = 0 := by
  unfold Buffer.own Buffer.foreign_bytes
  by_cases h : b.fresh = true
  · simp [h]
  · simp [h]

/-! ## The account of each step -/

variable {s s' : State}

theorem fresh_bytes_age (s : State) (n : ℕ) :
    (⟨n, n, s.buffers.map Buffer.age, s.acquiring.map Acquire.age⟩ : State).fresh_bytes = 0 := by
  have hbuffers : (s.buffers.map Buffer.age).map Buffer.fresh_bytes = s.buffers.map fun _ => 0 := by
    rw [List.map_map]
    rfl
  have hacquiring : (s.acquiring.map Acquire.age).map (fun c => c.caller.fresh_bytes)
      = s.acquiring.map fun _ => 0 := by
    rw [List.map_map]
    refine List.map_congr_left fun c _ => ?_
    rcases c with ⟨_ | prev, n, current, enough⟩ <;> rfl
  simp only [State.fresh_bytes, hbuffers, hacquiring, List.map_const', List.sum_replicate, smul_zero,
    Nat.add_zero]

theorem fresh_bytes_erase {b : Buffer} (h : b ∈ s.buffers) :
    b.fresh_bytes + ((s.buffers.erase b).map Buffer.fresh_bytes).sum
      = (s.buffers.map Buffer.fresh_bytes).sum := List.sum_map_erase Buffer.fresh_bytes h

theorem fresh_bytes_leave {c : Acquire} (h : c ∈ s.acquiring) :
    c.caller.fresh_bytes + (s.leave c).fresh_bytes = s.fresh_bytes := by
  have hsum := List.sum_map_erase (fun c : Acquire => c.caller.fresh_bytes) h
  simp only [State.fresh_bytes, State.leave]
  omega

theorem fresh_bytes_advance {c c' : Acquire} (h : c ∈ s.acquiring) (hcaller : c'.caller = c.caller) :
    (s.advance c c').fresh_bytes = s.fresh_bytes := by
  have hsum := List.sum_map_erase (fun c : Acquire => c.caller.fresh_bytes) h
  simp only [State.fresh_bytes, State.advance, List.map_cons, List.sum_cons, hcaller]
  omega

/-- A refused request leaves its buffer as it was. -/
theorem fresh_bytes_refused (s : State) (n : ℕ) (caller : Caller) :
    (s.acquired n false caller).fresh_bytes = s.fresh_bytes + caller.fresh_bytes := by
  cases caller with
  | allocate => rfl
  | reallocate prev =>
      simp only [State.fresh_bytes, State.acquired, Caller.fresh_bytes, List.map_cons, List.sum_cons,
        Bool.false_eq_true, if_false]
      omega

def Caller.foreign_bytes : Caller → ℕ
  | .allocate => 0
  | .reallocate prev => prev.foreign_bytes

/-- A buffer that grows is from then on a buffer of the present budget. -/
theorem fresh_bytes_granted (s : State) (n : ℕ) (caller : Caller) :
    (s.acquired n true caller).fresh_bytes
      = s.fresh_bytes + n + caller.fresh_bytes + caller.foreign_bytes := by
  cases caller with
  | allocate =>
      simp only [State.fresh_bytes, State.acquired, Caller.fresh_bytes, Caller.foreign_bytes,
        Buffer.fresh_bytes, List.map_cons, List.sum_cons, if_true]
      omega
  | reallocate prev =>
      have hsize := prev.size_eq
      have hnew : Buffer.fresh_bytes ⟨prev.size + n, true⟩ = prev.size + n := rfl
      simp only [State.fresh_bytes, State.acquired, Caller.fresh_bytes, Caller.foreign_bytes,
        List.map_cons, List.sum_cons, if_true]
      omega

theorem acquired_remaining (s : State) (n : ℕ) (answer : Bool) (caller : Caller) :
    (s.acquired n answer caller).remaining_bytes = s.remaining_bytes
      ∧ (s.acquired n answer caller).limit = s.limit := by
  cases caller with
  | allocate => cases answer <;> exact ⟨rfl, rfl⟩
  | reallocate prev => exact ⟨rfl, rfl⟩

/-- The bytes of older budgets that a step brings into the present one. -/
def foreign_bytes (s : State) : Action → ℕ
  | .free b => b.foreign_bytes
  | .reallocate prev newlen => if newlen ≤ prev.size then prev.foreign_bytes else 0
  | .compare_exchange c => if c.current = some s.remaining_bytes then c.caller.foreign_bytes else 0
  | _ => 0

theorem releases_own_iff (s : State) (a : Action) : releases_own s a ↔ foreign_bytes s a = 0 := by
  cases a with
  | free b => exact b.own_iff
  | reallocate prev newlen =>
      simp only [releases_own, foreign_bytes]
      by_cases hle : newlen ≤ prev.size
      · rw [if_pos hle, ← prev.own_iff]
        exact ⟨fun h => h hle, fun h _ => h⟩
      · rw [if_neg hle]
        exact ⟨fun _ => rfl, fun _ h => absurd h hle⟩
  -- only an exchange that succeeds moves a buffer
  | compare_exchange c =>
      simp only [releases_own, foreign_bytes]
      by_cases hcurrent : c.current = some s.remaining_bytes
      · rw [if_pos hcurrent]
        cases hcaller : c.caller with
        | allocate => exact ⟨fun _ => rfl, fun _ _ prev hprev => by cases hprev⟩
        | reallocate prev =>
            rw [Caller.foreign_bytes, ← prev.own_iff]
            refine ⟨fun h => h hcurrent prev rfl, fun h _ prev' hprev => ?_⟩
            cases hprev
            exact h
      · rw [if_neg hcurrent]
        exact ⟨fun _ => rfl, fun _ h => absurd h hcurrent⟩
  | reset n => exact ⟨fun _ => rfl, fun _ => trivial⟩
  | allocate n => exact ⟨fun _ => rfl, fun _ => trivial⟩
  | load c => exact ⟨fun _ => rfl, fun _ => trivial⟩

/-- Bytes move between what remains and the fresh buffers, and `k` come from
older budgets. -/
def Moved (s s' : State) (k : ℕ) : Prop :=
  s'.limit = s.limit
    ∧ s'.remaining_bytes + s'.fresh_bytes = s.remaining_bytes + s.fresh_bytes + k

theorem moved_reallocate {prev : Buffer} {newlen : ℕ}
    (h : step s (.reallocate prev newlen) = some s') :
    Moved s s' (foreign_bytes s (.reallocate prev newlen)) := by
  simp only [step] at h
  by_cases hmem : prev ∈ s.buffers
  · rw [if_pos hmem] at h
    have herase := fresh_bytes_erase hmem
    have hsize := prev.size_eq
    by_cases hle : newlen ≤ prev.size
    · -- shrinking gives the difference back, and the rest is a fresh buffer
      rw [if_pos hle] at h
      obtain rfl : _ = s' := Option.some.inj h
      have hnew : Buffer.fresh_bytes ⟨newlen, true⟩ = newlen := rfl
      refine ⟨rfl, ?_⟩
      simp only [State.fresh_bytes, State.release_bytes, foreign_bytes, if_pos hle, List.map_cons,
        List.sum_cons, hnew]
      omega
    · -- growing takes nothing before `acquire_bytes` has said yes
      rw [if_neg hle] at h
      obtain rfl : _ = s' := Option.some.inj h
      refine ⟨rfl, ?_⟩
      simp only [State.fresh_bytes, foreign_bytes, if_neg hle, Acquire.enter, Caller.fresh_bytes,
        List.map_cons, List.sum_cons]
      omega
  · rw [if_neg hmem] at h
    cases h

theorem moved_free {b : Buffer} (h : step s (.free b) = some s') :
    Moved s s' (foreign_bytes s (.free b)) := by
  simp only [step] at h
  by_cases hmem : b ∈ s.buffers
  · rw [if_pos hmem] at h
    obtain rfl : _ = s' := Option.some.inj h
    have herase := fresh_bytes_erase hmem
    have hsize := b.size_eq
    refine ⟨rfl, ?_⟩
    simp only [State.fresh_bytes, State.release_bytes, foreign_bytes]
    omega
  · rw [if_neg hmem] at h
    cases h

theorem moved_load {c : Acquire} (h : step s (.load c) = some s') : Moved s s' 0 := by
  simp only [step] at h
  by_cases hmem : c ∈ s.acquiring ∧ c.current = none
  · rw [if_pos hmem] at h
    -- either answer of the comparison leaves the bytes where they are
    by_cases hlt : s.remaining_bytes < c.n
    · rw [dif_pos hlt] at h
      obtain rfl : _ = s' := Option.some.inj h
      obtain ⟨hremaining, hlimit⟩ := acquired_remaining (s.leave c) c.n false c.caller
      have hleave := fresh_bytes_leave hmem.1
      refine ⟨hlimit, ?_⟩
      rw [hremaining, fresh_bytes_refused]
      change s.remaining_bytes + _ = _
      omega
    · rw [dif_neg hlt] at h
      obtain rfl : _ = s' := Option.some.inj h
      refine ⟨rfl, ?_⟩
      rw [fresh_bytes_advance hmem.1 (by rfl)]
      rfl
  · rw [if_neg hmem] at h
    cases h

theorem moved_compare_exchange {c : Acquire} (h : step s (.compare_exchange c) = some s') :
    Moved s s' (foreign_bytes s (.compare_exchange c)) := by
  simp only [step] at h
  split at h
  · rename_i current hcurrent
    by_cases hmem : c ∈ s.acquiring
    · rw [if_pos hmem] at h
      by_cases heq : s.remaining_bytes = current
      · rw [if_pos heq] at h
        obtain rfl : _ = s' := Option.some.inj h
        -- what was loaded was enough, and it is still there
        have henough : c.n ≤ current := c.enough current hcurrent
        have hleave := fresh_bytes_leave hmem
        obtain ⟨hremaining, hlimit⟩ :=
          acquired_remaining { s.leave c with remaining_bytes := current - c.n } c.n true c.caller
        refine ⟨hlimit, ?_⟩
        rw [hremaining, fresh_bytes_granted, foreign_bytes, if_pos (by rw [hcurrent, heq])]
        change (current - c.n) + ((s.leave c).fresh_bytes + _ + _ + _) = _
        omega
      · rw [if_neg heq] at h
        obtain rfl : _ = s' := Option.some.inj h
        have hne : c.current ≠ some s.remaining_bytes := by
          rw [hcurrent]
          exact fun hc => heq (Option.some.inj hc).symm
        refine ⟨rfl, ?_⟩
        have hfresh : (s.advance c (.enter c.caller c.n)).fresh_bytes = s.fresh_bytes := fresh_bytes_advance hmem rfl
        rw [hfresh, foreign_bytes, if_neg hne]
        rfl
    · rw [if_neg hmem] at h
      cases h
  · cases h

/-- **The account of a step.** A reset opens a new account; every other step
moves bytes within the present one. -/
theorem step_account {a : Action} (h : step s a = some s') :
    (∃ n, a = .reset n ∧ Conserved s') ∨ Moved s s' (foreign_bytes s a) := by
  cases a with
  | reset n =>
      refine Or.inl ⟨n, rfl, ?_⟩
      obtain rfl : _ = s' := Option.some.inj h
      unfold Conserved
      rw [fresh_bytes_age, Nat.add_zero]
  | allocate n =>
      right
      obtain rfl : _ = s' := Option.some.inj h
      refine ⟨rfl, ?_⟩
      simp only [State.fresh_bytes, foreign_bytes, Acquire.enter, Caller.fresh_bytes, List.map_cons,
        List.sum_cons]
      omega
  | reallocate prev newlen => exact Or.inr (moved_reallocate h)
  | free b => exact Or.inr (moved_free h)
  | load c => exact Or.inr (moved_load h)
  | compare_exchange c => exact Or.inr (moved_compare_exchange h)

/-! ## The limit -/

theorem Conserved.bounded (h : Conserved s) : Bounded s := by
  unfold Conserved at h
  unfold Bounded
  omega

/-- A step that releases nothing foreign keeps the account. -/
theorem conserved_step (s : State) (a : Action) (s' : State) (h : Conserved s)
    (hown : releases_own s a) (hs : step s a = some s') : Conserved s' := by
  rcases step_account hs with ⟨n, -, hnew⟩ | ⟨hlimit, hmoved⟩
  · exact hnew
  · rw [(releases_own_iff s a).1 hown] at hmoved
    unfold Conserved at h ⊢
    omega

/-- However a run goes on that releases nothing foreign, the limit holds. -/
def Secure (s : State) : Prop :=
  ∀ (as : List Action) (t : State), machine.Meets releases_own s as → machine.run s as = some t →
    Bounded t

theorem Conserved.secure (h : Conserved s) : Secure s :=
  fun _ _ hown hrun => (machine.run_invariant_of_meets conserved_step h hown hrun).bounded

/-- A script takes all that the pool has left, in one allocation. -/
def take_all (s : State) : List Action :=
  [.allocate s.remaining_bytes, .load (.enter .allocate s.remaining_bytes),
    .compare_exchange ⟨.allocate, s.remaining_bytes, some s.remaining_bytes,
      fun c hc => by
        cases hc
        exact le_rfl⟩]

theorem run_take_all (s : State) :
    machine.run s (take_all s) = some { s with
      remaining_bytes := 0
      buffers := ⟨s.remaining_bytes, true⟩ :: s.buffers } := by
  simp [take_all, machine, step, Acquire.enter, State.advance, State.leave, State.acquired]

theorem meets_take_all (s : State) : machine.Meets releases_own s (take_all s) := by
  refine fun s₁ _ => ⟨trivial, fun s₂ _ => ⟨trivial, fun s₃ _ => ⟨?_, trivial⟩⟩⟩
  intro _ prev hprev
  cases hprev

/-- A step that releases foreign bytes leaves the script more than its limit. -/
theorem not_secure_step (s : State) (a : Action) (s' : State) (h : Conserved s)
    (hown : ¬ releases_own s a) (hs : step s a = some s') : ¬ Secure s' := by
  intro hsecure
  -- the script takes all that remains, which is too much by then
  obtain ⟨hfresh, -⟩ := hsecure (take_all s') _ (meets_take_all s') (run_take_all s')
  rw [releases_own_iff] at hown
  rcases step_account hs with ⟨n, rfl, -⟩ | ⟨hlimit, hmoved⟩
  · exact hown rfl
  · -- everything that remained is taken now, and the account is too large
    unfold Conserved at h
    have htaken : State.fresh_bytes { s' with
        remaining_bytes := 0
        buffers := ⟨s'.remaining_bytes, true⟩ :: s'.buffers } = s'.remaining_bytes + s'.fresh_bytes := by
      simp only [State.fresh_bytes, Buffer.fresh_bytes, List.map_cons, List.sum_cons, if_true]
      omega
    rw [htaken] at hfresh
    dsimp only at hfresh
    omega

/-- **The limit of the array buffers.** When no thread releases bytes that were
allocated before the last reset, the buffers of the present budget and the bytes
that remain stay within the budget, in every state of the run. And the condition
is exact: after the first step that breaks it, one more allocation of the script
exceeds the budget. -/
theorem memory_limit_iff (as : List Action) :
    (machine.Meets releases_own start as → machine.Always Bounded start as)
    ∧ (machine.Always Secure start as ↔ machine.Meets releases_own start as) :=
  ⟨machine.always_of_meets (fun _ => Conserved.bounded) conserved_step rfl,
    machine.always_iff_meets (fun _ => Conserved.secure) conserved_step not_secure_step rfl⟩

/-- `librt` leaves a buffer of 100 bytes, and it is collected after `Instance::new`
has set the limit of a worker with `max_ab_memory_mb = 1`. -/
def late_collection : List Action :=
  [.reset (1048576 * 16), .allocate 100, .load (.enter .allocate 100),
    .compare_exchange ⟨.allocate, 100, some (1048576 * 16), by decide⟩,
    .reset 1048576, .free ⟨100, false⟩]

/-- The worker then has 100 bytes more than its limit, and may use them. -/
theorem late_collection_raises_limit :
    ∃ s t, machine.run start late_collection = some s ∧ s.limit = 1048576
      ∧ s.remaining_bytes = 1048676 ∧ ¬ Bounded s
      ∧ machine.run s (take_all s) = some t ∧ t.limit = 1048576 ∧ t.fresh_bytes = 1048676 := by
  refine ⟨⟨1048676, 1048576, [], []⟩, _, ?_, rfl, rfl, ?_, run_take_all _, rfl, rfl⟩
  · decide
  · unfold Bounded
    decide

end MemoryPool

end RustyWorkers

/-
What `acquire_arraybuffer_precheck` guarantees (`rusty-workers-runtime/src/mm.rs`):
the allocation that follows it is not refused, which would be a fatal error of V8.

The pool is that of `MemoryPool`, where every load, exchange and addition is a
step of its own. Beside it stands the V8 thread, at one of the call sites of the
precheck: it looks at the counter, and some time later V8 calls the allocator with
the same size. In between other threads go on. The guarantee needs that they only
free: then nobody but the V8 thread takes bytes, and what it has seen can only have
become more.

The counter is an `AtomicUsize`, which would wrap at `2 ^ 64`. `Fits` says why it
never does: what remains and what is live is together less than that.
-/
import RustyWorkers.MemoryPool
import RustyWorkers.Types

set_option autoImplicit false

namespace RustyWorkers

open Lib

/-! ## The account of the pool -/

namespace MemoryPool

/-- The bytes of the buffer that waits in `reallocate`. -/
def Caller.live_bytes : Caller → ℕ
  | .allocate => 0
  | .reallocate prev => prev.size

/-- The total size of all live buffers, of whichever budget. -/
def State.live_bytes (s : State) : ℕ :=
  (s.buffers.map Buffer.size).sum + (s.acquiring.map fun c => c.caller.live_bytes).sum

/-- The bytes that a step takes from the counter: those of an `acquire_bytes` whose
exchange succeeds. -/
def taken (s : State) : Action → ℕ
  | .compare_exchange c => if c.current = some s.remaining_bytes then c.n else 0
  | _ => 0

/-- The bytes that a step gives back to the counter. -/
def released : Action → ℕ
  | .free b => b.size
  | .reallocate prev newlen => prev.size - newlen
  | _ => 0

variable {s s' : State}

theorem live_bytes_age (s : State) (n : ℕ) :
    (⟨n, n, s.buffers.map Buffer.age, s.acquiring.map Acquire.age⟩ : State).live_bytes = s.live_bytes := by
  have hbuffers : (s.buffers.map Buffer.age).map Buffer.size = s.buffers.map Buffer.size := by
    rw [List.map_map]
    rfl
  have hacquiring : (s.acquiring.map Acquire.age).map (fun c => c.caller.live_bytes)
      = s.acquiring.map fun c => c.caller.live_bytes := by
    rw [List.map_map]
    refine List.map_congr_left fun c _ => ?_
    rcases c with ⟨_ | prev, n, current, enough⟩ <;> rfl
  rw [State.live_bytes, hbuffers, hacquiring, State.live_bytes]

theorem live_bytes_erase {b : Buffer} (h : b ∈ s.buffers) :
    b.size + ((s.buffers.erase b).map Buffer.size).sum = (s.buffers.map Buffer.size).sum :=
  List.sum_map_erase Buffer.size h

theorem live_bytes_leave {c : Acquire} (h : c ∈ s.acquiring) :
    c.caller.live_bytes + (s.leave c).live_bytes = s.live_bytes := by
  have hsum := List.sum_map_erase (fun c : Acquire => c.caller.live_bytes) h
  simp only [State.live_bytes, State.leave]
  omega

theorem live_bytes_advance {c c' : Acquire} (h : c ∈ s.acquiring) (hcaller : c'.caller = c.caller) :
    (s.advance c c').live_bytes = s.live_bytes := by
  have hsum := List.sum_map_erase (fun c : Acquire => c.caller.live_bytes) h
  simp only [State.live_bytes, State.advance, List.map_cons, List.sum_cons, hcaller]
  omega

/-- A granted request adds its bytes to the live ones, a refused one none. -/
theorem live_bytes_acquired (s : State) (n : ℕ) (answer : Bool) (caller : Caller) :
    (s.acquired n answer caller).live_bytes
      = s.live_bytes + caller.live_bytes + if answer then n else 0 := by
  cases caller with
  | allocate =>
      cases answer
      · show s.live_bytes = s.live_bytes + 0 + 0
        omega
      · show ((⟨n, true⟩ :: s.buffers).map Buffer.size).sum + (s.acquiring.map fun c => c.caller.live_bytes).sum = _
        rw [List.map_cons, List.sum_cons, State.live_bytes, if_pos rfl, Caller.live_bytes]
        show n + _ + _ = _
        omega
  | reallocate prev =>
      cases answer
      · show ((prev :: s.buffers).map Buffer.size).sum + (s.acquiring.map fun c => c.caller.live_bytes).sum = _
        rw [List.map_cons, List.sum_cons, State.live_bytes, if_neg Bool.false_ne_true, Caller.live_bytes]
        omega
      · show ((⟨prev.size + n, true⟩ :: s.buffers).map Buffer.size).sum
          + (s.acquiring.map fun c => c.caller.live_bytes).sum = _
        rw [List.map_cons, List.sum_cons, State.live_bytes, if_pos rfl, Caller.live_bytes]
        show prev.size + n + _ + _ = _
        omega

/-- What the counter and the live buffers have after a step that is no reset. -/
def Exact (s s' : State) (a : Action) : Prop :=
  s'.remaining_bytes + taken s a = s.remaining_bytes + released a
    ∧ s'.remaining_bytes + s'.live_bytes = s.remaining_bytes + s.live_bytes

theorem exact_free {b : Buffer} (h : step s (.free b) = some s') : Exact s s' (.free b) := by
  rw [step] at h
  obtain ⟨hmem, h⟩ := Option.ite_none_right_eq_some.1 h
  obtain rfl := Option.some.inj h
  have herase := live_bytes_erase hmem
  refine ⟨rfl, ?_⟩
  simp only [State.live_bytes, State.release_bytes]
  omega

theorem exact_reallocate {prev : Buffer} {newlen : ℕ} (h : step s (.reallocate prev newlen) = some s') :
    Exact s s' (.reallocate prev newlen) := by
  rw [step] at h
  obtain ⟨hmem, h⟩ := Option.ite_none_right_eq_some.1 h
  have herase := live_bytes_erase hmem
  dsimp only at h
  by_cases hle : newlen ≤ prev.size
  · rw [if_pos hle] at h
    obtain rfl := Option.some.inj h
    refine ⟨rfl, ?_⟩
    simp only [State.live_bytes, State.release_bytes, List.map_cons, List.sum_cons]
    omega
  · -- what is still to be acquired is not taken before `acquire_bytes` says yes
    rw [if_neg hle] at h
    obtain rfl := Option.some.inj h
    refine ⟨?_, ?_⟩
    · show s.remaining_bytes + 0 = s.remaining_bytes + (prev.size - newlen)
      omega
    · simp only [State.live_bytes, Acquire.enter, Caller.live_bytes, List.map_cons, List.sum_cons]
      omega

theorem exact_load {c : Acquire} (h : step s (.load c) = some s') : Exact s s' (.load c) := by
  rw [step] at h
  obtain ⟨hmem, h⟩ := Option.ite_none_right_eq_some.1 h
  by_cases hlt : s.remaining_bytes < c.n
  · rw [dif_pos hlt] at h
    obtain rfl := Option.some.inj h
    have hremaining := (acquired_remaining (s.leave c) c.n false c.caller).1
    have hlive := live_bytes_acquired (s.leave c) c.n false c.caller
    have hleave := live_bytes_leave hmem.1
    rw [if_neg Bool.false_ne_true] at hlive
    refine ⟨?_, ?_⟩
    · rw [hremaining]
      rfl
    · rw [hremaining, hlive]
      show s.remaining_bytes + _ = _
      omega
  · rw [dif_neg hlt] at h
    obtain rfl := Option.some.inj h
    refine ⟨rfl, ?_⟩
    rw [live_bytes_advance hmem.1 (by rfl)]
    rfl

theorem exact_compare_exchange {c : Acquire} (h : step s (.compare_exchange c) = some s') :
    Exact s s' (.compare_exchange c) := by
  rw [step] at h
  split at h
  · rename_i current hcurrent
    obtain ⟨hmem, h⟩ := Option.ite_none_right_eq_some.1 h
    rw [Exact, taken, hcurrent]
    by_cases heq : s.remaining_bytes = current
    · rw [if_pos heq] at h
      obtain rfl := Option.some.inj h
      rw [if_pos (by rw [heq])]
      -- the subtraction is exact: what was loaded was enough, and it is still there
      have henough : c.n ≤ current := c.enough current hcurrent
      have hremaining :=
        (acquired_remaining { s.leave c with remaining_bytes := current - c.n } c.n true c.caller).1
      have hlive := live_bytes_acquired { s.leave c with remaining_bytes := current - c.n } c.n true c.caller
      have hleave : c.caller.live_bytes + State.live_bytes { s.leave c with remaining_bytes := current - c.n }
          = s.live_bytes := live_bytes_leave hmem
      rw [if_pos rfl] at hlive
      rw [hremaining, hlive]
      refine ⟨?_, ?_⟩
      · show current - c.n + c.n = s.remaining_bytes + 0
        omega
      · show current - c.n + _ = _
        omega
    · rw [if_neg heq] at h
      obtain rfl := Option.some.inj h
      rw [if_neg (fun hc => heq (Option.some.inj hc).symm)]
      refine ⟨rfl, ?_⟩
      rw [live_bytes_advance hmem (by rfl)]
      rfl
  · cases h

/-- **The exact account of a step.** A reset stores its limit; every other step
changes the counter by exactly what it takes and what it gives back. -/
theorem step_exact {a : Action} (h : step s a = some s') :
    (∃ n, a = .reset n ∧ s'.remaining_bytes = n ∧ s'.live_bytes = s.live_bytes) ∨ Exact s s' a := by
  cases a with
  | reset n =>
      obtain rfl := Option.some.inj h
      exact Or.inl ⟨n, rfl, rfl, live_bytes_age s n⟩
  | allocate n =>
      obtain rfl := Option.some.inj h
      refine Or.inr ⟨rfl, ?_⟩
      simp only [State.live_bytes, Acquire.enter, Caller.live_bytes, List.map_cons, List.sum_cons]
      omega
  | reallocate prev newlen => exact Or.inr (exact_reallocate h)
  | free b => exact Or.inr (exact_free h)
  | load c => exact Or.inr (exact_load h)
  | compare_exchange c => exact Or.inr (exact_compare_exchange h)

/-- A step that takes nothing leaves at least what there was. -/
theorem remaining_mono {a : Action} (h : step s a = some s') (hreset : ∀ n, a ≠ .reset n) (htaken : taken s a = 0) :
    s.remaining_bytes ≤ s'.remaining_bytes := by
  rcases step_exact h with ⟨n, heq, -⟩ | ⟨hexact, -⟩
  · exact absurd heq (hreset n)
  · omega

/-- No addition to the counter wraps. -/
def Fits (s : State) : Prop := s.remaining_bytes + s.live_bytes < 2 ^ 64

/-- A limit is `max_ab_memory_mb` MiB, which is a `u32`, or the 16 MiB for `librt`;
and no process has buffers of `2 ^ 63` bytes. -/
def in_memory (s : State) : Action → Prop
  | .reset n => n < 2 ^ 32 * 1048576 ∧ s.live_bytes < 2 ^ 63
  | _ => True

theorem fits_step (s : State) (a : Action) (s' : State) (h : Fits s) (hmem : in_memory s a)
    (hs : step s a = some s') : Fits s' := by
  unfold Fits at h ⊢
  rcases step_exact hs with ⟨n, rfl, hremaining, hlive⟩ | ⟨-, hsum⟩
  · obtain ⟨hn, hlt⟩ := hmem
    rw [hremaining, hlive]
    omega
  · omega

end MemoryPool

/-! ## The call sites -/

namespace Precheck

open MemoryPool

/-- Where the precheck is followed by `v8::ArrayBuffer::new`. -/
inductive Site where
  | slice_to_arraybuffer (data : Bytes)
  | remote_buffer_allocate (len : ℕ)
  | call_string (call_buf_len : ℕ)
  | io_result (data : Bytes)
deriving DecidableEq

/-- The size that is checked and then allocated. -/
def Site.len : Site → ℕ
  | .slice_to_arraybuffer data => data.length
  | .remote_buffer_allocate len => len
  | .call_string call_buf_len => call_buf_len
  | .io_result data => data.length

/-- Where the V8 thread is: in no call site, past the precheck of one, in the
allocator for it, or in the fatal error of an allocation that was refused. -/
inductive V8Pc where
  | script
  | prechecked (site : Site)
  | allocating (site : Site) (c : Acquire)
  | out_of_memory (site : Site)

structure State where
  pool : MemoryPool.State
  v8 : V8Pc

inductive Action where
  | pool (a : MemoryPool.Action)
  | precheck (site : Site)
  | new_array_buffer
  | load
  | compare_exchange

/-- `MemoryPool::acquire_precheck`. -/
def acquire_precheck (pool : MemoryPool.State) (n : ℕ) : Bool :=
  if pool.remaining_bytes < n then false else true

/-- One step: of the V8 thread at a call site, or of any thread in the pool. -/
def step (s : State) : Action → Option State
  | .pool a => (MemoryPool.step s.pool a).map fun pool => { s with pool := pool }
  | .precheck site =>
    match s.v8 with
    | .script => some { s with v8 := if acquire_precheck s.pool site.len then .prechecked site else .script }
    | _ => none
  | .new_array_buffer =>
    match s.v8 with
    | .prechecked site =>
      (MemoryPool.step s.pool (.allocate site.len)).map fun pool =>
        ⟨pool, .allocating site (.enter .allocate site.len)⟩
    | _ => none
  | .load =>
    match s.v8 with
    | .allocating site c =>
      (MemoryPool.step s.pool (.load c)).map fun pool =>
        ⟨pool, if h : s.pool.remaining_bytes < c.n then .out_of_memory site
          else .allocating site ⟨c.caller, c.n, some s.pool.remaining_bytes, fun m hm => by
            cases hm
            exact Nat.le_of_not_lt h⟩⟩
    | _ => none
  | .compare_exchange =>
    match s.v8 with
    | .allocating site c =>
      (MemoryPool.step s.pool (.compare_exchange c)).map fun pool =>
        ⟨pool, if c.current = some s.pool.remaining_bytes then .script
          else .allocating site (.enter c.caller c.n)⟩
    | _ => none

/-- The V8 thread at the call sites, and the pool with all its threads. -/
def machine : Machine State Action := ⟨step⟩

/-- Only the V8 thread allocates or resets: while it is at a call site, which has
neither of the two beside the allocation itself, the pool is only given bytes back. -/
def only_v8_allocates (s : State) : Action → Prop
  | .pool (.free _) => True
  | .pool _ => s.v8 = .script
  | _ => True

/-- No allocation that follows a precheck has been refused. -/
def NotRefused (s : State) : Prop := ∀ site, s.v8 ≠ .out_of_memory site

/-- What the V8 thread has checked is there. -/
def Secured (s : State) : Prop :=
  match s.v8 with
  | .script => True
  | .prechecked site => site.len ≤ s.pool.remaining_bytes
  | .allocating _ c => c.n ≤ s.pool.remaining_bytes
  | .out_of_memory _ => False

variable {s s' : State}

theorem Secured.not_refused (h : Secured s) : NotRefused s := by
  intro site hoom
  rw [Secured, hoom] at h
  exact h

/-- Bytes that are given back do no harm. -/
theorem Secured.mono {pool : MemoryPool.State} (h : Secured s) (hle : s.pool.remaining_bytes ≤ pool.remaining_bytes) :
    Secured { s with pool := pool } := by
  rw [Secured] at h ⊢
  rcases hv8 : s.v8 with _ | site | ⟨site, c⟩ | site <;> rw [hv8] at h
  · trivial
  · exact le_trans h hle
  · exact le_trans h hle
  · exact h

theorem secured_pool {a : MemoryPool.Action} {pool : MemoryPool.State} (h : Secured s)
    (honly : only_v8_allocates s (.pool a)) (hs : MemoryPool.step s.pool a = some pool) :
    Secured { s with pool := pool } := by
  by_cases hscript : s.v8 = .script
  · rw [Secured, hscript]
    trivial
  · cases a with
    | free b => exact h.mono (remaining_mono hs (fun n heq => by cases heq) rfl)
    | reset | allocate | reallocate | load | compare_exchange => exact absurd honly hscript

/-- A step in which nobody else takes bytes keeps what has been checked. -/
theorem secured_step (s : State) (a : Action) (s' : State) (h : Secured s) (honly : only_v8_allocates s a)
    (hs : machine.step s a = some s') : Secured s' := by
  change step s a = some s' at hs
  cases a with
  | pool a =>
      obtain ⟨pool, hpool, rfl⟩ := Option.map_eq_some_iff.1 hs
      exact secured_pool h honly hpool
  | precheck site =>
      rw [step] at hs
      split at hs
      · obtain rfl := Option.some.inj hs
        rw [acquire_precheck]
        by_cases hlt : s.pool.remaining_bytes < site.len
        · rw [if_pos hlt, if_neg Bool.false_ne_true]
          trivial
        · rw [if_neg hlt, if_pos rfl]
          exact Nat.le_of_not_lt hlt
      · cases hs
  | new_array_buffer =>
      rw [step] at hs
      split at hs
      · rename_i site hv8
        obtain ⟨pool, hpool, rfl⟩ := Option.map_eq_some_iff.1 hs
        obtain rfl := Option.some.inj hpool
        rw [Secured, hv8] at h
        exact h
      · cases hs
  | load =>
      rw [step] at hs
      split at hs
      · rename_i site c hv8
        obtain ⟨pool, hpool, rfl⟩ := Option.map_eq_some_iff.1 hs
        rw [Secured, hv8] at h
        -- the loop finds what the precheck has found
        have hnot : ¬ s.pool.remaining_bytes < c.n := Nat.not_lt.2 h
        rw [dif_neg hnot]
        exact le_trans h (remaining_mono hpool (fun n heq => by cases heq) rfl)
      · cases hs
  | compare_exchange =>
      rw [step] at hs
      split at hs
      · rename_i site c hv8
        obtain ⟨pool, hpool, rfl⟩ := Option.map_eq_some_iff.1 hs
        by_cases hcurrent : c.current = some s.pool.remaining_bytes
        · rw [if_pos hcurrent]
          trivial
        · -- bytes were given back since the load: once more around the loop
          rw [Secured, hv8] at h
          rw [if_neg hcurrent]
          exact le_trans h (remaining_mono hpool (fun n heq => by cases heq) (if_neg hcurrent))
      · cases hs

/-- If nothing comes in between, the allocation is made at once. -/
theorem run_allocation (pool : MemoryPool.State) (site : Site) (h : site.len ≤ pool.remaining_bytes) :
    machine.run ⟨pool, .script⟩ [.precheck site, .new_array_buffer, .load, .compare_exchange]
      = some ⟨{ pool with
          remaining_bytes := pool.remaining_bytes - site.len
          buffers := ⟨site.len, true⟩ :: pool.buffers }, .script⟩ := by
  have hnot : ¬ pool.remaining_bytes < site.len := Nat.not_lt.2 h
  simp [machine, step, acquire_precheck, hnot, MemoryPool.step, Acquire.enter, MemoryPool.State.advance,
    MemoryPool.State.leave, MemoryPool.State.acquired]

/-- **A passed precheck guarantees the allocation.** From every state of the pool,
in every run in which only the V8 thread allocates or resets, no allocation that
follows a precheck is refused. For all concurrent steps in the pool, without that
condition: an exchange that succeeds takes exactly its bytes, which were there, no
other step takes any, and `release_bytes` adds exactly those of its buffer; and the
counter never wraps. -/
theorem precheck_guarantees_allocation :
    (∀ (pool : MemoryPool.State) (as : List Action), machine.Meets only_v8_allocates ⟨pool, .script⟩ as →
      machine.Always NotRefused ⟨pool, .script⟩ as)
    ∧ (∀ (s s' : MemoryPool.State) (a : MemoryPool.Action), MemoryPool.step s a = some s' →
      (∃ n, a = .reset n ∧ s'.remaining_bytes = n)
        ∨ s'.remaining_bytes + taken s a = s.remaining_bytes + released a)
    ∧ (∀ (s : MemoryPool.State) (a : MemoryPool.Action), taken s a ≤ s.remaining_bytes)
    ∧ ∀ as : List MemoryPool.Action, MemoryPool.machine.Meets in_memory MemoryPool.start as →
      MemoryPool.machine.Always Fits MemoryPool.start as := by
  refine ⟨fun pool as honly => ?_, fun s s' a hs => ?_, fun s a => ?_, fun as hmem => ?_⟩
  · exact machine.always_of_meets (fun _ => Secured.not_refused) secured_step trivial honly
  · rcases step_exact hs with ⟨n, hreset, hremaining, -⟩ | ⟨hexact, -⟩
    · exact Or.inl ⟨n, hreset, hremaining⟩
    · exact Or.inr hexact
  · cases a with
    | compare_exchange c =>
        rw [taken]
        by_cases hcurrent : c.current = some s.remaining_bytes
        · rw [if_pos hcurrent]
          exact c.enough _ hcurrent
        · rw [if_neg hcurrent]
          exact Nat.zero_le _
    | reset | allocate | reallocate | free | load => exact Nat.zero_le _
  · exact MemoryPool.machine.always_of_meets (fun _ h => h) fits_step (Nat.two_pow_pos 64) hmem

/-- Ten bytes are left, and one buffer of four is live. -/
def one_buffer : MemoryPool.State := ⟨10, 14, [⟨4, true⟩], []⟩

/-- The buffer is freed by another thread between the load and the exchange. -/
def freed_in_between : List Action :=
  [.precheck (.call_string 8), .new_array_buffer, .load, .pool (.free ⟨4, true⟩), .compare_exchange, .load,
    .compare_exchange]

theorem precheck_guarantees_allocation_freed_in_between :
    machine.Always NotRefused ⟨one_buffer, .script⟩ freed_in_between
      ∧ (machine.run ⟨one_buffer, .script⟩ freed_in_between).map (fun s => s.pool.remaining_bytes) = some 6
      ∧ MemoryPool.machine.Always Fits MemoryPool.start [.reset 16777216, .allocate 8] := by
  obtain ⟨hguarantee, -, -, hfits⟩ := precheck_guarantees_allocation
  refine ⟨hguarantee one_buffer freed_in_between ?_, by decide, hfits _ ?_⟩
  · -- no action of the run is one that the condition speaks of
    have hrun : ∀ a ∈ freed_in_between, ∀ s, only_v8_allocates s a := by
      simp [freed_in_between, only_v8_allocates]
    have hmeets := machine.meets_of_forall (C := fun a => ∀ s, only_v8_allocates s a) hrun ⟨one_buffer, .script⟩
    exact machine.meets_of_meets (I := fun _ => True) (fun _ _ _ _ _ _ => trivial) (fun s _ _ _ h _ => h s) trivial hmeets
  · intro s hs
    refine ⟨⟨by decide, by decide⟩, fun s' _ => ⟨trivial, trivial⟩⟩

end Precheck

end RustyWorkers

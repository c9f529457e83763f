/-
The shared data types: `rusty-workers/src/types.rs` and the part of
`rusty-workers/src/app.rs` that the other modules read.

A `BTreeMap<String, String>` is the list of its entries in key order, read with
`List.lookup`. `u32` settings that are only compared or counted are `ℕ`; `u64`
clock readings and expirations, where overflow matters, are `UInt64`.
-/
import Mathlib

set_option autoImplicit false

namespace RustyWorkers

/-- A byte string (`Vec<u8>`, `&[u8]`). -/
abbrev Bytes := List UInt8

/-- Bytes in their numeric order, which makes the order of `Bytes` the bytewise
lexicographic one. -/
instance linear_order_uint8 : LinearOrder UInt8 where
  le_refl a := Nat.le_refl a.toNat
  le_trans a b c := @Nat.le_trans a.toNat b.toNat c.toNat
  le_antisymm _ _ h h' := UInt8.toNat_inj.mp (Nat.le_antisymm h h')
  le_total a b := Nat.le_total a.toNat b.toNat
  lt_iff_le_not_ge a b := by
    change a.toNat < b.toNat ↔ a.toNat ≤ b.toNat ∧ ¬ b.toNat ≤ a.toNat
    omega
  toDecidableLE := inferInstance
  toDecidableLT := inferInstance
  toDecidableEq := inferInstance

instance linear_order_uint64 : LinearOrder UInt64 where
  le_refl a := Nat.le_refl a.toNat
  le_trans a b c := @Nat.le_trans a.toNat b.toNat c.toNat
  le_antisymm _ _ h h' := UInt64.toNat_inj.mp (Nat.le_antisymm h h')
  le_total a b := Nat.le_total a.toNat b.toNat
  lt_iff_le_not_ge a b := by
    change a.toNat < b.toNat ↔ a.toNat ≤ b.toNat ∧ ¬ b.toNat ≤ a.toNat
    omega
  toDecidableLE := inferInstance
  toDecidableLT := inferInstance
  toDecidableEq := inferInstance

instance order_bot_uint8 : OrderBot UInt8 where
  bot := 0
  bot_le a := Nat.zero_le a.toNat

/-- `ExecutorConfiguration`. -/
structure ExecutorConfiguration where
  max_ab_memory_mb : ℕ
  max_time_ms : ℕ
  max_io_concurrency : ℕ
  max_io_per_request : ℕ
deriving DecidableEq, Repr

/-- `WorkerConfiguration`; the address of the fetch service is not modelled. -/
structure WorkerConfiguration where
  executor : ExecutorConfiguration
  env : List (String × String)
  kv_namespaces : List (String × String)
deriving DecidableEq, Repr

/-- `RequestObject`; a body is its bytes (`HttpBody::Binary`). -/
structure RequestObject where
  headers : List (String × List String)
  method : String
  url : String
  body : Bytes
deriving DecidableEq, Repr

/-- `ResponseObject`. -/
structure ResponseObject where
  headers : List (String × List String)
  status : UInt16
  body : Bytes
deriving DecidableEq, Repr

/-- An error that happens during worker execution. -/
inductive ExecutionError where
  | NoSuchWorker
  | RuntimeThrowsException
  | TimeLimitExceeded
  | MemoryLimitExceeded
  | IoTimeout
  | ScriptThrowsException (description : String)
deriving DecidableEq, Repr

/-- `ExecutionError::terminates_worker`. -/
def ExecutionError.terminates_worker : ExecutionError → Bool
  | .NoSuchWorker
  | .RuntimeThrowsException
  | .TimeLimitExceeded
  | .MemoryLimitExceeded
  | .IoTimeout => true
  | .ScriptThrowsException _ => false

/-- `GenericError`. -/
inductive GenericError where
  | Io (text : String)
  | Database (text : String)
  | Executor (text : String)
  | V8Unknown
  | Execution (error : ExecutionError)
  | ScriptInitException (text : String)
  | IoLimitExceeded
  | TryAgain
  | Conversion
  | Typeck (expected : String)
  | Other (text : String)
deriving DecidableEq, Repr

/-- `u64::checked_add`. -/
def checked_add (a b : UInt64) : Option UInt64 :=
  if a.toNat + b.toNat < 2 ^ 64 then some (a + b) else none

theorem checked_add_eq_some {a b c : UInt64} :
    checked_add a b = some c ↔ a.toNat + b.toNat < 2 ^ 64 ∧ c = a + b := by
  unfold checked_add
  split <;> simp_all [eq_comm]

theorem checked_add_toNat {a b c : UInt64} (h : checked_add a b = some c) :
    c.toNat = a.toNat + b.toNat := by
  obtain ⟨hlt, rfl⟩ := checked_add_eq_some.1 h
  rw [UInt64.toNat_add, Nat.mod_eq_of_lt hlt]

end RustyWorkers

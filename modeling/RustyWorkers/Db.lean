/-
`DataClient::worker_data_*` (`rusty-workers/src/db.rs`), each run alone: one
call after the other, every statement succeeding or failing as the table says.

What a function reads from its surroundings is an argument: the table, the
clock readings `current_millis()` in the order the code takes them, and, for a
`select .. limit` without an `order by`, the order in which the server returns
the matching rows. A function returns its result together with the table it
leaves. Interleavings of the statements of several calls are the subject of
`CmpUpdate`.
-/
import RustyWorkers.AppKv

set_option autoImplicit false

namespace RustyWorkers

variable {coll : Collation}

/-- The order in which the server returns the rows that match a `select`. -/
structure RowOrder where
  order : List Bytes → List Bytes
  perm : ∀ rows, (order rows).Perm rows

/-- The server returns the rows as they are stored. -/
def RowOrder.stored : RowOrder := ⟨id, fun _ => .rfl⟩

/-- The server returns the rows last stored first. -/
def RowOrder.reversed : RowOrder := ⟨List.reverse, List.reverse_perm⟩

/-- `From<mysql_async::Error>`; nothing reads the text. -/
def sql_error : SqlError → GenericError
  | .dataTooLong => .Database "Data too long for column"

/-- The `appexpiration` of a write at `now`: `0` stands for "never". -/
def expiration (now ttl_ms : UInt64) : Except GenericError UInt64 :=
  if ttl_ms ≠ 0 then
    match checked_add now ttl_ms with
    | some e => .ok e
    | none => .error (.Other "expiration time overflow")
  else .ok 0

/-- The parameters of a write, with the empty metadata. -/
def kv_row (namespace_id : String) (key value : Bytes) (appexpiration : UInt64) : Row where
  nsid := namespace_id
  appkey := key
  appvalue := value
  appmetadata := []
  appexpiration := appexpiration

/-- A statement that is refused leaves the table as it was. -/
def run_stmt (t : AppKv coll) : Except SqlError (AppKv coll) → Except GenericError Unit × AppKv coll
  | .ok t' => (.ok (), t')
  | .error e => (.error (sql_error e), t)

/-- `DataClient::worker_data_get`. -/
def worker_data_get (t : AppKv coll) (namespace_id : String) (key : Bytes) (now : UInt64) :
    Except GenericError (Option Bytes) :=
  .ok (t.select_value namespace_id key now)

/-- `DataClient::worker_data_put`; the expiration is computed from the first
clock reading, `currenttime` is the second. -/
def worker_data_put (t : AppKv coll) (namespace_id : String) (key value : Bytes)
    (if_not_exists : Bool) (ttl_ms now currenttime : UInt64) :
    Except GenericError Unit × AppKv coll :=
  match expiration now ttl_ms with
  | .error e => (.error e, t)
  | .ok exp =>
    if if_not_exists then
      run_stmt t (t.replace_where_not_exists (kv_row namespace_id key value exp) currenttime)
    else run_stmt t (t.insert_on_duplicate (kv_row namespace_id key value exp))

/-- `DataClient::worker_data_scan_keys`. -/
def worker_data_scan_keys (t : AppKv coll) (namespace_id : String) (start : Bytes)
    (stop : Option Bytes) (limit : ℕ) (now : UInt64) (server : RowOrder) :
    Except GenericError (List Bytes) :=
  .ok ((server.order (t.select_keys namespace_id start stop now)).take limit)

/-- `DataClient::worker_data_delete`. -/
def worker_data_delete (t : AppKv coll) (namespace_id : String) (key : Bytes) :
    Except GenericError Unit × AppKv coll :=
  (.ok (), t.delete namespace_id key)

/-- The loop over the assertions of `worker_data_cmpupdate`, with its early return. -/
def check_assertions (t : AppKv coll) (namespace_id : String) (current_time : UInt64) :
    List (Bytes × Bytes) → Bool
  | [] => true
  | (k, v) :: rest =>
    match t.select_for_update namespace_id k v current_time with
    | none => false
    | some _ => check_assertions t namespace_id current_time rest

/-- `txn.exec_batch`: one insert per row, in order. -/
def exec_batch (t : AppKv coll) (rows : List Row) : Except SqlError (AppKv coll) :=
  rows.foldlM (fun t r => t.insert_on_duplicate r) t

/-- `DataClient::worker_data_cmpupdate`; a transaction that is dropped before
its commit is rolled back. -/
def worker_data_cmpupdate (t : AppKv coll) (namespace_id : String)
    (assertions writes : List (Bytes × Bytes)) (ttl_ms current_time : UInt64) :
    Except GenericError Bool × AppKv coll :=
  match expiration current_time ttl_ms with
  | .error e => (.error e, t)
  | .ok exp =>
    if check_assertions t namespace_id current_time assertions then
      match exec_batch t (writes.map fun kv => kv_row namespace_id kv.1 kv.2 exp) with
      | .ok t' => (.ok true, t')
      | .error e => (.error (sql_error e), t)
    else (.ok false, t)

/-! ## Expirations -/

/-- A time to live of zero is "never"; any other one is a time after `now`, and
so not the `0` that stands for "never". -/
theorem expiration_ok {now ttl_ms exp : UInt64} (h : expiration now ttl_ms = .ok exp) :
    (ttl_ms = 0 ∧ exp = 0) ∨ (ttl_ms ≠ 0 ∧ exp ≠ 0 ∧ exp.toNat = now.toNat + ttl_ms.toNat) := by
  unfold expiration at h
  split at h
  · rename_i hne
    split at h
    · rename_i e he
      cases h
      have hsum := checked_add_toNat he
      refine Or.inr ⟨hne, fun h0 => hne ?_, hsum⟩
      rw [h0] at hsum
      have hzero : ttl_ms.toNat = 0 := by
        have : (0 : UInt64).toNat = 0 := rfl
        omega
      exact UInt64.toNat_inj.1 hzero
    · cases h
  · rename_i hz
    cases h
    exact Or.inl ⟨by simpa using hz, rfl⟩

theorem expiration_overflow {now ttl_ms : UInt64} (hne : ttl_ms ≠ 0)
    (h : 2 ^ 64 ≤ now.toNat + ttl_ms.toNat) :
    expiration now ttl_ms = .error (.Other "expiration time overflow") := by
  have hnone : checked_add now ttl_ms = none := by
    unfold checked_add
    rw [if_neg (by omega)]
  rw [expiration, if_pos hne, hnone]

/-! ## The two loops of `worker_data_cmpupdate` -/

/-- The assertion loop succeeds when every assertion finds its value live. -/
theorem check_assertions_eq (t : AppKv coll) (namespace_id : String) (current_time : UInt64)
    (assertions : List (Bytes × Bytes)) :
    check_assertions t namespace_id current_time assertions
      = assertions.all fun kv =>
          (t.live_at namespace_id kv.1 current_time).any fun r => r.appvalue == kv.2 := by
  induction assertions with
  | nil => rfl
  | cons kv rest ih =>
      obtain ⟨k, v⟩ := kv
      rw [check_assertions, List.all_cons, ← AppKv.select_for_update_eq, ← ih]
      cases t.select_for_update namespace_id k v current_time <;> simp

theorem exec_batch_nil (t : AppKv coll) : exec_batch t [] = .ok t := rfl

theorem exec_batch_cons (t : AppKv coll) (r : Row) (rows : List Row) :
    exec_batch t (r :: rows)
      = match t.insert_on_duplicate r with
        | .ok t' => exec_batch t' rows
        | .error e => .error e := by
  unfold exec_batch
  rw [List.foldlM_cons]
  cases t.insert_on_duplicate r <;> rfl

/-- A batch goes through exactly when each of its rows fits its columns. -/
theorem exec_batch_ok_iff (t : AppKv coll) (rows : List Row) :
    (∃ t', exec_batch t rows = .ok t') ↔ ∀ r ∈ rows, r.fits = true := by
  induction rows generalizing t with
  | nil => simp [exec_batch_nil]
  | cons r rows ih =>
      rw [exec_batch_cons, List.forall_mem_cons]
      cases hf : r.fits with
      | false => simp [AppKv.insert_of_not_fits t hf]
      | true =>
          obtain ⟨t', ht'⟩ := (AppKv.insert_ok_iff t r).2 hf
          simpa [ht'] using ih t'

theorem exec_batch_error {t : AppKv coll} {rows : List Row} {e : SqlError}
    (h : exec_batch t rows = .error e) : e = .dataTooLong ∧ ∃ r ∈ rows, r.fits = false := by
  refine ⟨by cases e; rfl, ?_⟩
  by_contra hall
  push Not at hall
  obtain ⟨t', ht'⟩ := (exec_batch_ok_iff t rows).2 fun r hr => by simpa using hall r hr
  rw [h] at ht'
  cases ht'

end RustyWorkers

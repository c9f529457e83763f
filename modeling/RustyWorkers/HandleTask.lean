/-
`IoProcessorSharedState::handle_task` (`rusty-workers-runtime/src/io.rs`): what
one asynchronous call of a script does, from its buffers to its answer.

A call of the key-value store first collects its arguments, and may stop there:
with an error (`?`) or with an answer that reports an error to the script. If
it does not stop it is one `worker_data_*` call on an id that the worker's own
`kv_namespaces` has; `handle_task_cases` is that statement, and the only thing
that the proofs about namespaces use.

What a call meets outside the process is a `TaskEnv`: clock readings, the order
in which the server returns rows, the outcome of `allocate_arraybuffer`, the
answer of the fetch service.
-/
import RustyWorkers.DbRefine

set_option autoImplicit false

namespace RustyWorkers

def MAX_KV_KEY_SIZE : ℕ := 2048
def MAX_KV_VALUE_SIZE : ℕ := 4 * 1024 * 1024
def MAX_FETCH_REQUEST_BODY_SIZE : ℕ := 2 * 1024 * 1024
def MAX_KV_SCAN_LIMIT : UInt32 := 100

/-- `AsyncCallV`. -/
inductive AsyncCallV where
  | SetTimeout (n : UInt64)
  | Fetch (req : RequestObject)
  | KvGet (ns : String)
  | KvPut (ns : String) (if_not_exists : Bool) (ttl_ms : UInt64)
  | KvDelete (ns : String)
  | KvScan (ns : String) (limit : UInt32)
  | KvCmpUpdate (ns : String) (num_assertions num_writes : UInt32) (ttl_ms : UInt64)
deriving DecidableEq, Repr

/-- `AsyncCall`; a buffer is the bytes that are read from it. -/
structure AsyncCall where
  v : AsyncCallV
  buffers : List Bytes
deriving DecidableEq, Repr

/-- The value that is sent back to the script as JSON. -/
inductive TaskValue where
  | null
  | fetched (result : Except String ResponseObject)
  | user_ok_unit
  | user_ok (value : Bool)
  | user_error (text : String)

/-- The answer of a call: its value, and the array buffers that go with it. -/
structure Reply where
  value : TaskValue
  buffers : List Bytes

/-- What a call meets outside the process. -/
structure TaskEnv where
  now : UInt64
  currenttime : UInt64
  server : RowOrder
  allocate_arraybuffer : ℕ → Except ExecutionError Unit
  fetch : RequestObject → Except GenericError (Except String ResponseObject)

/-- Nothing goes wrong, and the clock stands still. -/
def TaskEnv.quiet : TaskEnv where
  now := 0
  currenttime := 0
  server := .stored
  allocate_arraybuffer _ := .ok ()
  fetch _ := .error .V8Unknown

/-- How a call stops before it has reached the database. -/
inductive Stop where
  | fail (e : GenericError)
  | reply (r : Reply)

/-- `mk_user_error`. -/
def mk_user_error (text : String) : Reply := ⟨.user_error text, []⟩

/-! ## Arguments -/

/-- `task.buffers.get(index).ok_or_else(..)?.read_to_vec(max)`. -/
def read_buffer (buffers : List Bytes) (index max : ℕ) (missing too_large : String) :
    Except Stop Bytes :=
  match buffers[index]? with
  | none => .error (.fail (.Other missing))
  | some b => if b.length ≤ max then .ok b else .error (.reply (mk_user_error too_large))

/-- `self.conf.kv_namespaces.get(&namespace)`. -/
def namespace_id (conf : WorkerConfiguration) (ns : String) : Except Stop String :=
  match conf.kv_namespaces.lookup ns with
  | some id => .ok id
  | none => .error (.reply (mk_user_error "namespace does not exist"))

/-- The end key of a scan, which may be left out. -/
def read_end_key (buffers : List Bytes) : Except Stop (Option Bytes) :=
  match buffers[1]? with
  | none => .ok none
  | some b =>
    if b.length ≤ MAX_KV_KEY_SIZE then .ok (some b)
    else .error (.reply (mk_user_error "end_key too large"))

/-- The loop of `KvCmpUpdate` over its buffers, from round `i` on. -/
def read_pairs (buffers : List Bytes) (num_assertions : UInt32) :
    ℕ → ℕ → ℕ → List (Bytes × Bytes) → List (Bytes × Bytes) →
      Except Stop (List (Bytes × Bytes) × List (Bytes × Bytes))
  | 0, _, _, assertions, writes => .ok (assertions, writes)
  | rounds + 1, i, index, assertions, writes => do
    let key ← read_buffer buffers index MAX_KV_KEY_SIZE "missing key" "key too large"
    let value ← read_buffer buffers (index + 1) MAX_KV_VALUE_SIZE "missing value" "value too large"
    if i < num_assertions.toNat then
      read_pairs buffers num_assertions rounds (i + 1) (index + 2) (assertions ++ [(key, value)]) writes
    else
      read_pairs buffers num_assertions rounds (i + 1) (index + 2) assertions (writes ++ [(key, value)])

/-! ## The database call and its answer -/

/-- `allocate_arraybuffer_with_data`. -/
def allocate_with_data (env : TaskEnv) (data : Bytes) : Except GenericError Bytes :=
  match env.allocate_arraybuffer data.length with
  | .ok () => .ok data
  | .error e => .error (.Execution e)

variable {coll : Collation}

/-- The `worker_data_*` call, and the answer that is made of its result. -/
def perform (t : AppKv coll) (op : KvOp) (env : TaskEnv) : Except GenericError Reply × AppKv coll :=
  match op with
  | .get nsid key =>
    (do
      match ← worker_data_get t nsid key env.now with
      | some r => return ⟨.user_ok true, [← allocate_with_data env r]⟩
      | none => return ⟨.user_ok false, []⟩, t)
  | .put nsid key value if_not_exists ttl_ms =>
    (worker_data_put t nsid key value if_not_exists ttl_ms env.now env.currenttime).map
      (·.map fun _ => ⟨.user_ok_unit, []⟩) id
  | .delete nsid key => (worker_data_delete t nsid key).map (·.map fun _ => ⟨.user_ok_unit, []⟩) id
  | .scan_keys nsid start stop limit server =>
    (do
      let keys ← worker_data_scan_keys t nsid start stop limit env.now server
      return ⟨.user_ok_unit, ← keys.mapM (allocate_with_data env)⟩, t)
  | .cmpupdate nsid assertions writes ttl_ms =>
    (worker_data_cmpupdate t nsid assertions writes ttl_ms env.now).map
      (·.map fun success => ⟨.user_ok success, []⟩) id

/-- Go on to the database with the collected arguments, or stop. -/
def run_kv (t : AppKv coll) (env : TaskEnv) :
    Except Stop KvOp → Except GenericError Reply × AppKv coll
  | .ok op => perform t op env
  | .error (.fail e) => (.error e, t)
  | .error (.reply r) => (.ok r, t)

/-- The fetch arm; the connection to the fetch service is part of its answer. -/
def handle_fetch (req : RequestObject) (buffers : List Bytes) (env : TaskEnv) :
    Except GenericError Reply :=
  match read_buffer buffers 0 MAX_FETCH_REQUEST_BODY_SIZE "missing body"
      "fetch request body too large" with
  | .error (.fail e) => .error e
  | .error (.reply r) => .ok r
  | .ok body => do
    match ← env.fetch { req with body := body } with
    | .ok response =>
      return ⟨.fetched (.ok { response with body := [] }), [← allocate_with_data env response.body]⟩
    | .error text => return ⟨.fetched (.error text), []⟩

/-- `IoProcessorSharedState::handle_task`. The number of rounds of a
`KvCmpUpdate` is a `u32` sum, which wraps in a release build. -/
def handle_task (t : AppKv coll) (conf : WorkerConfiguration) (task : AsyncCall) (env : TaskEnv) :
    Except GenericError Reply × AppKv coll :=
  match task.v with
  | .SetTimeout _ => (.ok ⟨.null, []⟩, t)
  | .Fetch req => (handle_fetch req task.buffers env, t)
  | .KvGet ns => run_kv t env do
    let key ← read_buffer task.buffers 0 MAX_KV_KEY_SIZE "missing key" "key too large"
    let nsid ← namespace_id conf ns
    return .get nsid key
  | .KvPut ns if_not_exists ttl_ms => run_kv t env do
    let key ← read_buffer task.buffers 0 MAX_KV_KEY_SIZE "missing key" "key too large"
    let value ← read_buffer task.buffers 1 MAX_KV_VALUE_SIZE "missing value" "value too large"
    let nsid ← namespace_id conf ns
    return .put nsid key value if_not_exists ttl_ms
  | .KvDelete ns => run_kv t env do
    let key ← read_buffer task.buffers 0 MAX_KV_KEY_SIZE "missing key" "key too large"
    let nsid ← namespace_id conf ns
    return .delete nsid key
  | .KvScan ns limit => run_kv t env do
    let start_key ← read_buffer task.buffers 0 MAX_KV_KEY_SIZE "missing start key" "start_key too large"
    let end_key ← read_end_key task.buffers
    let nsid ← namespace_id conf ns
    if MAX_KV_SCAN_LIMIT < limit then
      throw (.reply (mk_user_error "limit is greater than MAX_KV_SCAN_LIMIT"))
    return .scan_keys nsid start_key end_key limit.toNat env.server
  | .KvCmpUpdate ns num_assertions num_writes ttl_ms => run_kv t env do
    let nsid ← namespace_id conf ns
    let (assertions, writes) ←
      read_pairs task.buffers num_assertions (num_assertions + num_writes).toNat 0 0 [] []
    return .cmpupdate nsid assertions writes ttl_ms

/-- What the script gets: an error of the host is only ever `"io error"`. -/
inductive Seen where
  | ok (r : Reply)
  | io_error

/-- The `match` on the result of `handle_task` in `IoProcessor::run`. -/
def respond : Except GenericError Reply → Seen
  | .ok r => .ok r
  | .error _ => .io_error

/-! ## One call, one namespace -/

/-- The ids that a worker's configuration gives it. -/
def namespace_ids (conf : WorkerConfiguration) : List String :=
  conf.kv_namespaces.filterMap fun p => conf.kv_namespaces.lookup p.1

theorem mem_namespace_ids {conf : WorkerConfiguration} {nsid : String} :
    nsid ∈ namespace_ids conf ↔ ∃ ns, conf.kv_namespaces.lookup ns = some nsid := by
  unfold namespace_ids
  rw [List.mem_filterMap]
  constructor
  · rintro ⟨p, _, hp⟩
    exact ⟨p.1, hp⟩
  · rintro ⟨ns, hns⟩
    obtain ⟨l₁, l₂, hl, _⟩ := List.lookup_eq_some_iff.1 hns
    exact ⟨(ns, nsid), by simp [hl], hns⟩

/-- The id that a database call is about. -/
def KvOp.namespace_id : KvOp → String
  | .get nsid _ | .put nsid _ _ _ _ | .delete nsid _ | .scan_keys nsid _ _ _ _
  | .cmpupdate nsid _ _ _ => nsid

theorem ok_of_bind {ε α β : Type} {x : Except ε α} {f : α → Except ε β} {b : β}
    (h : (x >>= f) = .ok b) : ∃ a, x = .ok a ∧ f a = .ok b := by
  cases x with
  | error e => cases h
  | ok a => exact ⟨a, rfl, h⟩

theorem namespace_id_ok {conf : WorkerConfiguration} {ns nsid : String}
    (h : namespace_id conf ns = .ok nsid) : nsid ∈ namespace_ids conf := by
  unfold namespace_id at h
  split at h
  · rename_i nsid' hlookup
    cases h
    exact mem_namespace_ids.2 ⟨ns, hlookup⟩
  · cases h

/-- A call answers without looking at the table, or it is one database call on
an id of the worker's own configuration. -/
theorem handle_task_cases (coll : Collation) (conf : WorkerConfiguration) (task : AsyncCall)
    (env : TaskEnv) :
    (∃ r, ∀ t : AppKv coll, handle_task t conf task env = (r, t))
      ∨ ∃ op, op.namespace_id ∈ namespace_ids conf
        ∧ ∀ t : AppKv coll, handle_task t conf task env = perform t op env := by
  have hrun : ∀ x : Except Stop KvOp, (∀ op, x = .ok op → op.namespace_id ∈ namespace_ids conf) →
      (∀ t : AppKv coll, handle_task t conf task env = run_kv t env x) →
      (∃ r, ∀ t : AppKv coll, handle_task t conf task env = (r, t))
        ∨ ∃ op, op.namespace_id ∈ namespace_ids conf
          ∧ ∀ t : AppKv coll, handle_task t conf task env = perform t op env := by
    intro x hx ht
    rcases x with (e | r) | op
    · exact Or.inl ⟨.error e, ht⟩
    · exact Or.inl ⟨.ok r, ht⟩
    · exact Or.inr ⟨op, hx op rfl, ht⟩
  obtain ⟨v, buffers⟩ := task
  cases v with
  | SetTimeout n => exact Or.inl ⟨_, fun _ => rfl⟩
  | Fetch req => exact Or.inl ⟨_, fun _ => rfl⟩
  | KvGet ns =>
      refine hrun _ (fun op hop => ?_) fun _ => rfl
      obtain ⟨key, _, hop⟩ := ok_of_bind hop
      obtain ⟨nsid, hns, hop⟩ := ok_of_bind hop
      cases hop
      exact namespace_id_ok hns
  | KvPut ns if_not_exists ttl_ms =>
      refine hrun _ (fun op hop => ?_) fun _ => rfl
      obtain ⟨key, _, hop⟩ := ok_of_bind hop
      obtain ⟨value, _, hop⟩ := ok_of_bind hop
      obtain ⟨nsid, hns, hop⟩ := ok_of_bind hop
      cases hop
      exact namespace_id_ok hns
  | KvDelete ns =>
      refine hrun _ (fun op hop => ?_) fun _ => rfl
      obtain ⟨key, _, hop⟩ := ok_of_bind hop
      obtain ⟨nsid, hns, hop⟩ := ok_of_bind hop
      cases hop
      exact namespace_id_ok hns
  | KvScan ns limit =>
      refine hrun _ (fun op hop => ?_) fun _ => rfl
      obtain ⟨start_key, _, hop⟩ := ok_of_bind hop
      obtain ⟨end_key, _, hop⟩ := ok_of_bind hop
      obtain ⟨nsid, hns, hop⟩ := ok_of_bind hop
      split at hop
      · cases hop
      · cases hop
        exact namespace_id_ok hns
  | KvCmpUpdate ns num_assertions num_writes ttl_ms =>
      refine hrun _ (fun op hop => ?_) fun _ => rfl
      obtain ⟨nsid, hns, hop⟩ := ok_of_bind hop
      obtain ⟨pairs, _, hop⟩ := ok_of_bind hop
      cases hop
      exact namespace_id_ok hns

end RustyWorkers

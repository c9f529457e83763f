/-
The buffers of an asynchronous call: `JsArrayBufferViewRef`
(`rusty-workers-runtime/src/buffer.rs`), `call_service_callback` (`executor.rs`)
and the way of a call through `IoProcessor` to `handle_task` (`io.rs`).

A view is a range of a backing store, and a call carries its views, not their
bytes. The bytes are copied by `handle_task`, on another thread, after the call
has passed the channel and has got a permit; the script goes on at once and may
write to the same stores. `SendFetchResponse` copies its body before the call
returns; the asynchronous calls do not.

`collect` is what `handle_task` does with its buffers, as a program of reads, and
`act` what it does then. On bytes that stand still the two are `handle_task`
(`act_collect`). So a call acts on what it was passed as long as each byte is, when
it is copied, what it was then (`Unchanged`); that nothing writes to the stores of a
call on its way (`Untouched`) is one way to have this.
-/
import RustyWorkers.Lib.LiveReads
import RustyWorkers.Io

set_option autoImplicit false

namespace RustyWorkers

open Lib

namespace LiveBuffers

/-! ## `handle_task` as a program of reads -/

/-- What `handle_task` goes on with: nothing, a request for the fetch service, or
a call of the database; or how it stops. -/
inductive Collected where
  | timeout
  | fetch (req : Except Stop RequestObject)
  | kv (op : Except Stop (TaskEnv → KvOp))

/-- `task.buffers.get(index).ok_or_else(..)?.read_to_vec(max)`. -/
def read_buffer {α : Type} (index max : ℕ) (missing too_large : String)
    (next : Bytes → Reading UInt8 (Except Stop α)) : Reading UInt8 (Except Stop α) :=
  .read index max fun
    | none => .done (.error (.fail (.Other missing)))
    | some none => .done (.error (.reply (mk_user_error too_large)))
    | some (some b) => next b

/-- A check that reads no buffer. -/
def checked {α β : Type} (x : Except Stop α) (next : α → Reading UInt8 (Except Stop β)) :
    Reading UInt8 (Except Stop β) :=
  match x with
  | .ok a => next a
  | .error e => .done (.error e)

/-- The loop of `KvCmpUpdate`. -/
def read_pairs {α : Type} (num_assertions : UInt32) :
    ℕ → ℕ → ℕ → List (Bytes × Bytes) → List (Bytes × Bytes) →
      (List (Bytes × Bytes) × List (Bytes × Bytes) → Reading UInt8 (Except Stop α)) → Reading UInt8 (Except Stop α)
  | 0, _, _, assertions, writes, next => next (assertions, writes)
  | rounds + 1, i, index, assertions, writes, next =>
    read_buffer index MAX_KV_KEY_SIZE "missing key" "key too large" fun key =>
    read_buffer (index + 1) MAX_KV_VALUE_SIZE "missing value" "value too large" fun value =>
    if i < num_assertions.toNat then
      read_pairs num_assertions rounds (i + 1) (index + 2) (assertions ++ [(key, value)]) writes next
    else
      read_pairs num_assertions rounds (i + 1) (index + 2) assertions (writes ++ [(key, value)]) next

/-- The end key of a scan, which may be left out. -/
def read_end_key {α : Type} (next : Option Bytes → Reading UInt8 (Except Stop α)) : Reading UInt8 (Except Stop α) :=
  .read 1 MAX_KV_KEY_SIZE fun
    | none => next none
    | some none => .done (.error (.reply (mk_user_error "end_key too large")))
    | some (some b) => next (some b)

/-- The arms of `handle_task`, up to the call of the service or of the database. -/
def collect (conf : WorkerConfiguration) : AsyncCallV → Reading UInt8 Collected
  | .SetTimeout _ => .done .timeout
  | .Fetch req =>
    .map .fetch <|
      read_buffer 0 MAX_FETCH_REQUEST_BODY_SIZE "missing body" "fetch request body too large" fun body =>
      .done (.ok { req with body := body })
  | .KvGet ns =>
    .map .kv <|
      read_buffer 0 MAX_KV_KEY_SIZE "missing key" "key too large" fun key =>
      checked (namespace_id conf ns) fun nsid =>
      .done (.ok fun _ => .get nsid key)
  | .KvPut ns if_not_exists ttl_ms =>
    .map .kv <|
      read_buffer 0 MAX_KV_KEY_SIZE "missing key" "key too large" fun key =>
      read_buffer 1 MAX_KV_VALUE_SIZE "missing value" "value too large" fun value =>
      checked (namespace_id conf ns) fun nsid =>
      .done (.ok fun _ => .put nsid key value if_not_exists ttl_ms)
  | .KvDelete ns =>
    .map .kv <|
      read_buffer 0 MAX_KV_KEY_SIZE "missing key" "key too large" fun key =>
      checked (namespace_id conf ns) fun nsid =>
      .done (.ok fun _ => .delete nsid key)
  | .KvScan ns limit =>
    .map .kv <|
      read_buffer 0 MAX_KV_KEY_SIZE "missing start key" "start_key too large" fun start_key =>
      read_end_key fun end_key =>
      checked (namespace_id conf ns) fun nsid =>
      checked (if MAX_KV_SCAN_LIMIT < limit then
          .error (.reply (mk_user_error "limit is greater than MAX_KV_SCAN_LIMIT")) else .ok ()) fun _ =>
      .done (.ok fun env => .scan_keys nsid start_key end_key limit.toNat env.server)
  | .KvCmpUpdate ns num_assertions num_writes ttl_ms =>
    .map .kv <|
      checked (namespace_id conf ns) fun nsid =>
      read_pairs num_assertions (num_assertions + num_writes).toNat 0 0 [] [] fun pairs =>
      .done (.ok fun _ => .cmpupdate nsid pairs.1 pairs.2 ttl_ms)

/-- The fetch service, and the buffer for its answer. -/
def fetch (env : TaskEnv) (req : RequestObject) : Except GenericError Reply := do
  match ← env.fetch req with
  | .ok response =>
    return ⟨.fetched (.ok { response with body := [] }), [← allocate_with_data env response.body]⟩
  | .error text => return ⟨.fetched (.error text), []⟩

/-- The rest of `handle_task`, which has its own copies of the bytes. -/
def act {coll : Collation} (t : AppKv coll) (env : TaskEnv) : Collected → Except GenericError Reply × AppKv coll
  | .timeout => (.ok ⟨.null, []⟩, t)
  | .fetch (.ok req) => (fetch env req, t)
  | .fetch (.error (.fail e)) => (.error e, t)
  | .fetch (.error (.reply r)) => (.ok r, t)
  | .kv op => run_kv t env (op.map (· env))

section Collect

variable {α : Type} {buffers : List Bytes}

/-- A read in a program is the read of `handle_task`. -/
theorem run_read_buffer (index max : ℕ) (missing too_large : String)
    (next : Bytes → Reading UInt8 (Except Stop α)) :
    (read_buffer index max missing too_large next).run buffers
      = RustyWorkers.read_buffer buffers index max missing too_large >>= fun b => (next b).run buffers := by
  rw [read_buffer, Reading.run, RustyWorkers.read_buffer]
  cases buffers[index]? with
  | none => rfl
  | some b =>
      by_cases hle : b.length ≤ max
      · simp only [Option.map_some, Reading.fits, if_pos hle]
        rfl
      · simp only [Option.map_some, Reading.fits, if_neg hle]
        rfl

theorem run_checked {β : Type} (x : Except Stop β) (next : β → Reading UInt8 (Except Stop α)) :
    (checked x next).run buffers = x >>= fun b => (next b).run buffers := by
  cases x <;> rfl

theorem run_read_end_key (next : Option Bytes → Reading UInt8 (Except Stop α)) :
    (read_end_key next).run buffers = RustyWorkers.read_end_key buffers >>= fun b => (next b).run buffers := by
  rw [read_end_key, Reading.run, RustyWorkers.read_end_key]
  cases buffers[1]? with
  | none => rfl
  | some b =>
      by_cases hle : b.length ≤ MAX_KV_KEY_SIZE
      · simp only [Option.map_some, Reading.fits, if_pos hle]
        rfl
      · simp only [Option.map_some, Reading.fits, if_neg hle]
        rfl

theorem run_read_pairs (num_assertions : UInt32) (rounds i index : ℕ) (assertions writes : List (Bytes × Bytes))
    (next : List (Bytes × Bytes) × List (Bytes × Bytes) → Reading UInt8 (Except Stop α)) :
    (read_pairs num_assertions rounds i index assertions writes next).run buffers
      = RustyWorkers.read_pairs buffers num_assertions rounds i index assertions writes
          >>= fun pairs => (next pairs).run buffers := by
  induction rounds generalizing i index assertions writes with
  | zero => rfl
  | succ rounds ih =>
      rw [read_pairs, run_read_buffer, RustyWorkers.read_pairs]
      simp only [run_read_buffer, bind_assoc]
      congr 1
      funext key
      congr 1
      funext value
      split
      · exact ih ..
      · exact ih ..

theorem map_bind {β γ : Type} (x : Except Stop β) (f : β → Except Stop α) (g : α → γ) :
    (x >>= f).map g = x >>= fun b => (f b).map g := by
  cases x <;> rfl

/-- **On bytes that stand still.** The program of reads and what follows it are
`handle_task`. -/
theorem act_collect {coll : Collation} (t : AppKv coll) (conf : WorkerConfiguration) (v : AsyncCallV)
    (buffers : List Bytes) (env : TaskEnv) :
    act t env ((collect conf v).run buffers) = handle_task t conf ⟨v, buffers⟩ env := by
  cases v with
  | SetTimeout n => rfl
  | Fetch req =>
      rw [collect, Reading.run_map, run_read_buffer]
      simp only [handle_task, handle_fetch]
      cases RustyWorkers.read_buffer buffers 0 MAX_FETCH_REQUEST_BODY_SIZE "missing body"
        "fetch request body too large" with
      | ok body => rfl
      | error stop => cases stop <;> rfl
  | KvGet ns | KvPut ns if_not_exists ttl_ms | KvDelete ns =>
      rw [collect, Reading.run_map, run_read_buffer]
      simp only [act, run_read_buffer, run_checked, map_bind]
      rfl
  | KvScan ns limit =>
      rw [collect, Reading.run_map, run_read_buffer]
      simp only [act, run_read_end_key, run_checked, map_bind, handle_task]
      congr 1
      congr 1
      funext start_key
      congr 1
      funext end_key
      congr 1
      funext nsid
      split
      · rfl
      · rfl
  | KvCmpUpdate ns num_assertions num_writes ttl_ms =>
      rw [collect, Reading.run_map, run_checked]
      simp only [act, run_read_pairs, map_bind]
      rfl

end Collect

/-! ## Backing stores and views -/

/-- The backing stores of an isolate. -/
abbrev Heap := List Bytes

namespace Heap

def size (heap : Heap) (store : ℕ) : ℕ := (heap.getD store []).length

def byte (heap : Heap) (store pos : ℕ) : UInt8 := (heap.getD store []).getD pos 0

def write (heap : Heap) (store pos : ℕ) (b : UInt8) : Heap := heap.set store ((heap.getD store []).set pos b)

end Heap

/-- `JsArrayBufferViewRef`: a shared reference to a store, and a range of it. -/
structure JsArrayBufferViewRef where
  backing : ℕ
  start : ℕ
  len : ℕ
deriving DecidableEq

namespace JsArrayBufferViewRef

def cell (view : JsArrayBufferViewRef) (heap : Heap) (j : ℕ) : UInt8 := heap.byte view.backing (view.start + j)

/-- What the view shows. -/
def bytes (view : JsArrayBufferViewRef) (heap : Heap) : Bytes := (List.range view.len).map (view.cell heap)

/-- The range lies in the store. -/
def InRange (view : JsArrayBufferViewRef) (heap : Heap) : Prop := view.start + view.len ≤ heap.size view.backing

end JsArrayBufferViewRef

section Heap

variable {heap : Heap} {store pos : ℕ}

theorem lt_of_size (h : pos < heap.size store) : store < heap.length := by
  by_contra hge
  rw [Heap.size, List.getD_eq_default _ _ (by omega)] at h
  exact absurd h (Nat.not_lt_zero _)

theorem getD_write (b : UInt8) (h : pos < heap.size store) (other : ℕ) :
    (heap.write store pos b).getD other []
      = if other = store then (heap.getD store []).set pos b else heap.getD other [] := by
  have hlt := lt_of_size h
  simp only [Heap.write, List.getD_eq_getElem?_getD]
  split
  · rename_i heq
    rw [heq, List.getElem?_set_self hlt]
    rfl
  · rename_i hne
    rw [List.getElem?_set_ne (Ne.symm hne)]

theorem size_write (b : UInt8) (h : pos < heap.size store) (other : ℕ) :
    (heap.write store pos b).size other = heap.size other := by
  rw [Heap.size, getD_write b h]
  split
  · rename_i heq
    rw [List.length_set, heq]
    rfl
  · rfl

/-- A write changes one byte. -/
theorem byte_write (b : UInt8) (h : pos < heap.size store) (store' pos' : ℕ) :
    (heap.write store pos b).byte store' pos'
      = if store' = store ∧ pos' = pos then b else heap.byte store' pos' := by
  rw [Heap.byte, getD_write b h]
  by_cases hstore : store' = store
  · rw [if_pos hstore]
    by_cases hpos : pos' = pos
    · rw [if_pos ⟨hstore, hpos⟩, hpos, List.getD_eq_getElem?_getD, List.getElem?_set_self h]
      rfl
    · subst hstore
      rw [if_neg fun hboth => hpos hboth.2]
      simp only [Heap.byte, List.getD_eq_getElem?_getD, List.getElem?_set_ne (Ne.symm hpos)]
  · rw [if_neg hstore, if_neg fun hboth => hstore hboth.1]
    rfl

theorem getD_new (bytes : Bytes) (h : store < heap.length) : (heap ++ [bytes]).getD store [] = heap.getD store [] := by
  rw [List.getD_eq_getElem?_getD, List.getD_eq_getElem?_getD, List.getElem?_append_left h]

theorem size_new (bytes : Bytes) : heap.size store ≤ Heap.size (heap ++ [bytes]) store := by
  by_cases h : store < heap.length
  · rw [Heap.size, Heap.size, getD_new bytes h]
  · rw [Heap.size, List.getD_eq_default _ _ (by omega)]
    exact Nat.zero_le _

theorem byte_new (bytes : Bytes) (h : pos < heap.size store) :
    Heap.byte (heap ++ [bytes]) store pos = heap.byte store pos := by
  rw [Heap.byte, getD_new bytes (lt_of_size h)]
  rfl

end Heap

/-! ## Calls -/

/-- An `AsyncCall` on its way. `passed` is what its buffers were when the script
made it, and is read by no step. -/
structure Call where
  v : AsyncCallV
  buffers : List JsArrayBufferViewRef
  passed : List Bytes
  reader : Reader UInt8 Collected

namespace Call

/-- The call as `call_service_callback` issues it. -/
def new (conf : WorkerConfiguration) (heap : Heap) (v : AsyncCallV) (buffers : List JsArrayBufferViewRef) : Call :=
  ⟨v, buffers, buffers.map fun view => view.bytes heap, ⟨collect conf v, []⟩⟩

/-- Cell `j` of buffer `i`, as it is now. -/
def cell (x : Call) (heap : Heap) (i j : ℕ) : UInt8 := (x.buffers[i]?.map fun view => view.cell heap j).getD 0

/-- Where a cell of a buffer is. -/
def address (x : Call) (p : ℕ × ℕ) : Option (ℕ × ℕ) :=
  x.buffers[p.1]?.map fun view => (view.backing, view.start + p.2)

/-- The cells that `handle_task` has still to copy. -/
def unread (x : Call) : List (ℕ × ℕ) := x.reader.unread x.passed

end Call

/-- What holds of a call until it acts: it is on its way to what it would have
done at once. -/
structure CallOk (conf : WorkerConfiguration) (x : Call) : Prop where
  lengths : x.passed.map List.length = x.buffers.map JsArrayBufferViewRef.len
  reader : x.reader.Ok x.passed ((collect conf x.v).run x.passed)

/-- A call that has its unread cells as they were. -/
structure CallIntact (conf : WorkerConfiguration) (heap : Heap) (x : Call) : Prop where
  ok : CallOk conf x
  in_range : ∀ view ∈ x.buffers, view.InRange heap
  intact : x.reader.Intact x.passed (x.cell heap)

section Calls

variable {conf : WorkerConfiguration} {heap heap' : Heap} {x : Call}

theorem lengths_new (heap : Heap) (v : AsyncCallV) (buffers : List JsArrayBufferViewRef) :
    (Call.new conf heap v buffers).passed.map List.length = buffers.map JsArrayBufferViewRef.len := by
  rw [Call.new, List.map_map]
  refine List.map_congr_left fun view _ => ?_
  rw [Function.comp_apply, JsArrayBufferViewRef.bytes, List.length_map, List.length_range]

/-- A call that has just been made. -/
theorem callOk_new (heap : Heap) (v : AsyncCallV) (buffers : List JsArrayBufferViewRef) :
    CallOk conf (.new conf heap v buffers) :=
  ⟨lengths_new heap v buffers, Reader.ok_start _⟩

/-- A step of `handle_task` towards its copies. -/
theorem CallOk.copy (h : CallOk conf x) (hfaithful : x.reader.Faithful x.passed (x.cell heap)) {r : Reader UInt8 Collected}
    (hs : x.reader.step (x.buffers.map JsArrayBufferViewRef.len) (x.cell heap) = some r) :
    CallOk conf { x with reader := r } ∧ ∀ p ∈ r.unread x.passed, p ∈ x.unread := by
  rw [← h.lengths] at hs
  obtain ⟨hok, hunread⟩ := Reader.step_ok h.reader hfaithful hs
  exact ⟨⟨h.lengths, hok⟩, hunread⟩

/-! ### Unread cells -/

/-- A cell that is to be copied is one of a view. -/
theorem CallIntact.view (h : CallIntact conf heap x) {p : ℕ × ℕ} (hp : p ∈ x.unread) :
    ∃ view ∈ x.buffers, x.buffers[p.1]? = some view ∧ view.start + p.2 < heap.size view.backing := by
  obtain ⟨b, hb, hlt⟩ := Reading.mem_unread hp
  have hlen := congrArg (·[p.1]?) h.ok.lengths
  simp only [List.getElem?_map, hb, Option.map_some] at hlen
  obtain ⟨view, hview, hviewlen⟩ := Option.map_eq_some_iff.1 hlen.symm
  have hrange : view.start + view.len ≤ heap.size view.backing := h.in_range view (List.mem_of_getElem? hview)
  exact ⟨view, List.mem_of_getElem? hview, hview, by omega⟩

/-- The heap changes, but not in an unread cell. -/
theorem CallIntact.of_heap (h : CallIntact conf heap x) (hsize : ∀ store, heap.size store ≤ heap'.size store)
    (hcell : ∀ p ∈ x.unread, x.cell heap' p.1 p.2 = x.cell heap p.1 p.2) : CallIntact conf heap' x where
  ok := h.ok
  in_range := fun view hview => (h.in_range view hview).trans (hsize _)
  intact := fun p hp => by rw [hcell p hp]; exact h.intact p hp

theorem CallIntact.new_buffer (h : CallIntact conf heap x) (bytes : Bytes) : CallIntact conf (heap ++ [bytes]) x := by
  refine h.of_heap (fun _ => size_new bytes) fun p hp => ?_
  obtain ⟨view, -, hview, hlt⟩ := h.view hp
  simp only [Call.cell, hview, Option.map_some, Option.getD_some, JsArrayBufferViewRef.cell]
  exact byte_new bytes hlt

theorem CallIntact.write (h : CallIntact conf heap x) {store pos : ℕ} {b : UInt8} (hlt : pos < heap.size store)
    (hsame : ∀ p ∈ x.unread, x.address p = some (store, pos) → b = heap.byte store pos) :
    CallIntact conf (heap.write store pos b) x := by
  refine h.of_heap (fun other => (size_write b hlt other).ge) fun p hp => ?_
  obtain ⟨view, -, hview, -⟩ := h.view hp
  simp only [Call.cell, hview, Option.map_some, Option.getD_some, JsArrayBufferViewRef.cell]
  rw [byte_write b hlt]
  split
  · rename_i hhit
    obtain ⟨hbacking, hpos⟩ := hhit
    rw [hsame p hp (by rw [Call.address, hview, Option.map_some, hbacking, hpos]), hbacking, hpos]
  · rfl

theorem callIntact_new {v : AsyncCallV} {buffers : List JsArrayBufferViewRef}
    (hrange : ∀ view ∈ buffers, view.InRange heap) : CallIntact conf heap (.new conf heap v buffers) where
  ok := callOk_new heap v buffers
  in_range := hrange
  intact := by
    intro p hp
    obtain ⟨b, hb, hlt⟩ := Reading.mem_unread hp
    rw [hb, Option.bind_some]
    rw [Call.new, List.getElem?_map] at hb
    obtain ⟨view, hview, rfl⟩ := Option.map_eq_some_iff.1 hb
    rw [JsArrayBufferViewRef.bytes, List.length_map, List.length_range] at hlt
    have hcell : (Call.new conf heap v buffers).cell heap p.1 p.2 = view.cell heap p.2 := by
      simp only [Call.cell, Call.new, hview, Option.map_some, Option.getD_some]
    rw [hcell, JsArrayBufferViewRef.bytes, List.getElem?_map, List.getElem?_range hlt]
    rfl

theorem CallIntact.copy (h : CallIntact conf heap x) {r : Reader UInt8 Collected}
    (hs : x.reader.step (x.buffers.map JsArrayBufferViewRef.len) (x.cell heap) = some r) :
    CallIntact conf heap { x with reader := r } := by
  obtain ⟨hok, hunread⟩ := h.ok.copy h.intact.faithful hs
  exact ⟨hok, h.in_range, fun p hp => h.intact p (hunread p hp)⟩

end Calls

/-! ## The processor -/

structure State where
  heap : Heap
  backlog : List Call
  run : Option Call
  permits : ℕ
  tasks : List Call
  acting : ℕ
  performed : List (Call × Collected)

inductive Action where
  | new_buffer (bytes : Bytes)
  | write (store pos : ℕ) (b : UInt8)
  | call (v : AsyncCallV) (buffers : List JsArrayBufferViewRef)
  | next
  | acquire
  | copy (i : ℕ)
  | perform (i : ℕ)
  | finish
  | kill (i : ℕ)

def start (conf : WorkerConfiguration) : State := ⟨[], [], none, conf.executor.max_io_concurrency, [], 0, []⟩

instance (view : JsArrayBufferViewRef) (heap : Heap) : Decidable (view.InRange heap) :=
  inferInstanceAs (Decidable (_ ≤ _))

/-- One step of the script or of the processor. The calls that have acted are
recorded with what they had collected. -/
def step (conf : WorkerConfiguration) (s : State) : Action → Option State
  | .new_buffer bytes => some { s with heap := s.heap ++ [bytes] }
  | .write store pos b =>
    if pos < s.heap.size store then some { s with heap := s.heap.write store pos b } else none
  | .call v buffers =>
    -- `too many buffers`, and the room that `blocking_send` waits for
    if (∀ view ∈ buffers, view.InRange s.heap) ∧ buffers.length ≤ 256
        ∧ s.backlog.length < backlog_capacity conf.executor then
      some { s with backlog := s.backlog ++ [.new conf s.heap v buffers] }
    else none
  | .next =>
    match s.run, s.backlog with
    | none, x :: rest => some { s with run := some x, backlog := rest }
    | _, _ => none
  | .acquire =>
    match s.run with
    | some x =>
      if 0 < s.permits then some { s with run := none, permits := s.permits - 1, tasks := s.tasks ++ [x] } else none
    | none => none
  | .copy i =>
    match s.tasks[i]? with
    | some x =>
      (x.reader.step (x.buffers.map JsArrayBufferViewRef.len) (x.cell s.heap)).map fun r =>
        { s with tasks := s.tasks.set i { x with reader := r } }
    | none => none
  | .perform i =>
    match s.tasks[i]? with
    | some x =>
      match x.reader.prog with
      | .done c =>
        some { s with tasks := s.tasks.eraseIdx i, acting := s.acting + 1, performed := s.performed ++ [(x, c)] }
      | .read _ _ _ => none
    | none => none
  | .finish => if 0 < s.acting then some { s with acting := s.acting - 1, permits := s.permits + 1 } else none
  | .kill i =>
    if i < s.tasks.length then some { s with tasks := s.tasks.eraseIdx i, permits := s.permits + 1 } else none

/-- A script with its calls. -/
def machine (conf : WorkerConfiguration) : Machine State Action := ⟨step conf⟩

/-- The calls that have not acted yet. -/
def State.pending (s : State) : List Call := s.backlog ++ s.run.toList ++ s.tasks

/-- A byte is as it was at the call when it is copied: the script has left it alone
until then, or has put it back. -/
def Unchanged (s : State) : Action → Prop
  | .copy i => ∀ x ∈ s.tasks[i]?, x.reader.Faithful x.passed (x.cell s.heap)
  | _ => True

instance (s : State) : (a : Action) → Decidable (Unchanged s a)
  | .copy i => inferInstanceAs (Decidable (∀ x ∈ s.tasks[i]?, ∀ p ∈ Reader.next_cell _ _, _))
  | .new_buffer _ | .write _ _ _ | .call _ _ | .next | .acquire | .perform _ | .finish | .kill _ => .isTrue trivial

/-- A write does not change a byte that a call has still to copy. -/
def Untouched (s : State) : Action → Prop
  | .write store pos b => ∀ x ∈ s.pending, ∀ p ∈ x.unread, x.address p = some (store, pos) → b = s.heap.byte store pos
  | _ => True

/-- Every call has done what it does on the bytes that the script passed. -/
def ActsOnPassed (conf : WorkerConfiguration) (s : State) : Prop :=
  ∀ e ∈ s.performed, ∀ (coll : Collation) (t : AppKv coll) (env : TaskEnv),
    act t env e.2 = handle_task t conf ⟨e.1.v, e.1.passed⟩ env

/-- The invariant. -/
structure OnTheWay (conf : WorkerConfiguration) (s : State) : Prop where
  pending : ∀ x ∈ s.pending, CallOk conf x
  performed : ∀ e ∈ s.performed, e.2 = (collect conf e.1.v).run e.1.passed

section Steps

variable {conf : WorkerConfiguration} {s s' : State} {a : Action}

theorem mem_pending {x : Call} : x ∈ s.pending ↔ x ∈ s.backlog ∨ s.run = some x ∨ x ∈ s.tasks := by
  simp only [State.pending, List.mem_append, Option.mem_toList, or_assoc]

theorem mem_of_mem_eraseIdx {α : Type*} {l : List α} {i : ℕ} {x : α} (h : x ∈ l.eraseIdx i) : x ∈ l :=
  (List.eraseIdx_sublist l i).subset h

/-! ### What a step can do -/

/-- What a step does to the memory, to the calls that are on their way, and to those that
have acted. -/
inductive Effect (conf : WorkerConfiguration) (s s' : State) : Action → Prop where
  | new_buffer (bytes : Bytes) (heap : s'.heap = s.heap ++ [bytes]) (pending : s'.pending = s.pending)
      (performed : s'.performed = s.performed) : Effect conf s s' (.new_buffer bytes)
  | write (store pos : ℕ) (b : UInt8) (inside : pos < s.heap.size store) (heap : s'.heap = s.heap.write store pos b)
      (pending : s'.pending = s.pending) (performed : s'.performed = s.performed) : Effect conf s s' (.write store pos b)
  | call (v : AsyncCallV) (buffers : List JsArrayBufferViewRef) (in_range : ∀ view ∈ buffers, view.InRange s.heap)
      (heap : s'.heap = s.heap) (pending : ∀ x ∈ s'.pending, x ∈ s.pending ∨ x = .new conf s.heap v buffers)
      (performed : s'.performed = s.performed) : Effect conf s s' (.call v buffers)
  | copy (i : ℕ) (x : Call) (r : Reader UInt8 Collected) (task : s.tasks[i]? = some x)
      (reader : x.reader.step (x.buffers.map JsArrayBufferViewRef.len) (x.cell s.heap) = some r)
      (heap : s'.heap = s.heap) (pending : ∀ y ∈ s'.pending, y ∈ s.pending ∨ y = { x with reader := r })
      (performed : s'.performed = s.performed) : Effect conf s s' (.copy i)
  | perform (i : ℕ) (x : Call) (c : Collected) (task : s.tasks[i]? = some x) (done : x.reader.prog = .done c)
      (heap : s'.heap = s.heap) (pending : ∀ y ∈ s'.pending, y ∈ s.pending)
      (performed : s'.performed = s.performed ++ [(x, c)]) : Effect conf s s' (.perform i)
  | moved (a : Action) (heap : s'.heap = s.heap) (pending : ∀ x ∈ s'.pending, x ∈ s.pending)
      (performed : s'.performed = s.performed) : Effect conf s s' a

theorem step_cases (hs : step conf s a = some s') : Effect conf s s' a := by
  cases a with
  | new_buffer bytes =>
    obtain rfl := Option.some.inj hs
    exact .new_buffer bytes rfl rfl rfl
  | write store pos b =>
    obtain ⟨hlt, hs⟩ := Option.ite_none_right_eq_some.1 hs
    obtain rfl := Option.some.inj hs
    exact .write store pos b hlt rfl rfl rfl
  | call v buffers =>
    obtain ⟨⟨hrange, -⟩, hs⟩ := Option.ite_none_right_eq_some.1 hs
    obtain rfl := Option.some.inj hs
    refine .call v buffers hrange rfl (fun x hx => ?_) rfl
    rw [mem_pending, List.mem_append, List.mem_singleton] at hx
    rcases hx with (hx | rfl) | hx
    · exact Or.inl (mem_pending.2 (Or.inl hx))
    · exact Or.inr rfl
    · exact Or.inl (mem_pending.2 (Or.inr hx))
  | next =>
    simp only [LiveBuffers.step] at hs
    split at hs
    · rename_i x rest hrun hbacklog
      obtain rfl := Option.some.inj hs
      refine .moved _ rfl (fun y hy => ?_) rfl
      rw [mem_pending] at hy ⊢
      rw [hbacklog, List.mem_cons]
      -- the call that is in the hands of `run` was the first of the backlog
      rcases hy with hy | hy | hy
      · exact Or.inl (Or.inr hy)
      · exact Or.inl (Or.inl (Option.some.inj hy).symm)
      · exact Or.inr (Or.inr hy)
    · cases hs
  | acquire =>
    simp only [LiveBuffers.step] at hs
    split at hs
    · rename_i x hrun
      obtain ⟨-, hs⟩ := Option.ite_none_right_eq_some.1 hs
      obtain rfl := Option.some.inj hs
      refine .moved _ rfl (fun y hy => ?_) rfl
      rw [mem_pending, List.mem_append, List.mem_singleton] at hy
      rw [mem_pending, hrun]
      rcases hy with hy | hy | hy | rfl
      · exact Or.inl hy
      · cases hy
      · exact Or.inr (Or.inr hy)
      · exact Or.inr (Or.inl rfl)
    · cases hs
  | copy i =>
    simp only [LiveBuffers.step] at hs
    split at hs
    · rename_i x hx
      obtain ⟨r, hr, rfl⟩ := Option.map_eq_some_iff.1 hs
      refine .copy i x r hx hr rfl (fun y hy => ?_) rfl
      rw [mem_pending] at hy ⊢
      rcases hy with hy | hy | hy
      · exact Or.inl (Or.inl hy)
      · exact Or.inl (Or.inr (Or.inl hy))
      · exact (List.mem_or_eq_of_mem_set hy).imp (fun hy => Or.inr (Or.inr hy)) id
    · cases hs
  | perform i =>
    simp only [LiveBuffers.step] at hs
    split at hs
    · rename_i x hx
      split at hs
      · rename_i c hc
        obtain rfl := Option.some.inj hs
        refine .perform i x c hx hc rfl (fun y hy => ?_) rfl
        rw [mem_pending] at hy ⊢
        exact hy.imp_right (Or.imp_right mem_of_mem_eraseIdx)
      · cases hs
    · cases hs
  | finish =>
    obtain ⟨-, hs⟩ := Option.ite_none_right_eq_some.1 hs
    obtain rfl := Option.some.inj hs
    exact .moved _ rfl (fun _ hx => hx) rfl
  | kill i =>
    obtain ⟨-, hs⟩ := Option.ite_none_right_eq_some.1 hs
    obtain rfl := Option.some.inj hs
    refine .moved _ rfl (fun y hy => ?_) rfl
    rw [mem_pending] at hy ⊢
    exact hy.imp_right (Or.imp_right mem_of_mem_eraseIdx)

theorem mem_pending_task {i : ℕ} {x : Call} (hx : s.tasks[i]? = some x) : x ∈ s.pending :=
  mem_pending.2 (Or.inr (Or.inr (List.mem_of_getElem? hx)))

/-! ### The invariant -/

/-- Calls are moved on or dropped, and those that have acted stay. -/
theorem OnTheWay.of_pending (h : OnTheWay conf s) (hpending : ∀ x ∈ s'.pending, x ∈ s.pending ∨ CallOk conf x)
    (hperformed : s'.performed = s.performed) : OnTheWay conf s' where
  pending := by
    intro x hx
    rcases hpending x hx with hold | hnew
    · exact h.pending x hold
    · exact hnew
  performed := hperformed ▸ h.performed

/-- The step lemma. -/
theorem OnTheWay.step (h : OnTheWay conf s) (ha : Unchanged s a) (hs : step conf s a = some s') : OnTheWay conf s' := by
  cases step_cases hs with
  | new_buffer bytes heap pending performed => exact h.of_pending (fun x hx => Or.inl (pending ▸ hx)) performed
  | write store pos b inside heap pending performed => exact h.of_pending (fun x hx => Or.inl (pending ▸ hx)) performed
  | call v buffers in_range heap pending performed =>
    refine h.of_pending (fun x hx => ?_) performed
    rcases pending x hx with hold | rfl
    · exact Or.inl hold
    · exact Or.inr (callOk_new s.heap v buffers)
  | copy i x r task reader heap pending performed =>
    refine h.of_pending (fun y hy => ?_) performed
    rcases pending y hy with hold | rfl
    · exact Or.inl hold
    · exact Or.inr ((h.pending x (mem_pending_task task)).copy (ha x task) reader).1
  | perform i x c task done heap pending performed =>
    refine ⟨fun y hy => h.pending y (pending y hy), fun e he => ?_⟩
    rw [performed, List.mem_append, List.mem_singleton] at he
    rcases he with he | rfl
    · exact h.performed e he
    · -- a call acts when all is copied, and so on what it has copied
      have hresult := (h.pending x (mem_pending_task task)).reader.result
      rw [done] at hresult
      exact hresult
  | moved a heap pending performed => exact h.of_pending (fun x hx => Or.inl (pending x hx)) performed

theorem OnTheWay.acts (h : OnTheWay conf s) : ActsOnPassed conf s := by
  intro e he coll t env
  rw [h.performed e he, act_collect]

/-! ### Scripts that keep off unread bytes -/

/-- The step lemma for a script that keeps off what is still to be copied. -/
theorem intact_step (h : ∀ x ∈ s.pending, CallIntact conf s.heap x) (ha : Untouched s a) (hs : step conf s a = some s') :
    ∀ x ∈ s'.pending, CallIntact conf s'.heap x := by
  intro x hx
  cases step_cases hs with
  | new_buffer bytes heap pending performed =>
    rw [heap]
    exact (h x (pending ▸ hx)).new_buffer bytes
  | write store pos b inside heap pending performed =>
    rw [pending] at hx
    rw [heap]
    exact (h x hx).write inside (ha x hx)
  | call v buffers in_range heap pending performed =>
    rw [heap]
    rcases pending x hx with hold | rfl
    · exact h x hold
    · exact callIntact_new in_range
  | copy i y r task reader heap pending performed =>
    rw [heap]
    rcases pending x hx with hold | rfl
    · exact h x hold
    · exact (h y (mem_pending_task task)).copy reader
  | perform i y c task done heap pending performed =>
    rw [heap]
    exact h x (pending x hx)
  | moved a heap pending performed =>
    rw [heap]
    exact h x (pending x hx)

theorem unchanged_of_intact (h : ∀ x ∈ s.pending, CallIntact conf s.heap x) (a : Action) : Unchanged s a := by
  cases a with
  | copy i =>
    intro x hx
    exact (h x (mem_pending_task hx)).intact.faithful
  | new_buffer | write | call | next | acquire | perform | finish | kill => trivial

end Steps

/-- A script that writes no byte that a call has still to copy, unless with the value
that it has, has every byte copied as it was. -/
theorem unchanged_of_untouched (conf : WorkerConfiguration) (as : List Action)
    (h : (machine conf).Meets Untouched (start conf) as) : (machine conf).Meets Unchanged (start conf) as :=
  (machine conf).meets_of_meets (I := fun s => ∀ x ∈ s.pending, CallIntact conf s.heap x)
    (fun _ _ _ hi ha hs => intact_step hi ha hs) (fun _ a _ hi _ _ => unchanged_of_intact hi a)
    (fun _ hx => nomatch hx) h

/-- **When calls act on the bytes that the script passed.** In every run of a
script with its calls, whatever the order of its steps and those of the
processor, and with every copy made byte by byte: when a byte, as it is copied, is as
the script has left it since the call or has put it back, every call that acts does
what `handle_task` does on the bytes that its buffers had when the script made it. -/
theorem calls_act_on_passed (conf : WorkerConfiguration) (as : List Action)
    (h : (machine conf).Meets Unchanged (start conf) as) :
    (machine conf).Always (ActsOnPassed conf) (start conf) as :=
  (machine conf).always_of_meets (I := OnTheWay conf) (fun _ hi => hi.acts) (fun _ _ _ hi ha hs => hi.step ha hs)
    ⟨fun _ hx => (nomatch hx), fun _ he => nomatch he⟩ h

/-- A worker that has one namespace. -/
def writer : WorkerConfiguration := ⟨⟨16, 100, 10, 50⟩, [], [("kv", "nsid")]⟩

/-- A script that puts a value, writes to its buffer and puts the byte back, and uses it for
something else when the value has been copied. A call that is killed may find what it likes. -/
def used_again : List Action :=
  [.new_buffer [1], .new_buffer [2], .call (.KvPut "kv" false 0) [⟨0, 0, 1⟩, ⟨1, 0, 1⟩], .write 1 0 5, .next, .acquire,
    .copy 0, .copy 0, .write 1 0 2, .copy 0, .call (.KvGet "kv") [⟨0, 0, 1⟩], .write 1 0 3, .copy 0, .perform 0, .finish,
    .write 0 0 4, .next, .acquire, .kill 0]

theorem calls_act_on_passed_used_again :
    (machine writer).Always (ActsOnPassed writer) (start writer) used_again := by
  refine calls_act_on_passed writer used_again ?_
  have hcheck : (machine writer).check (fun s a => decide (Unchanged s a)) (start writer) used_again = true := by
    decide
  simpa using (machine writer).meets_of_check hcheck

/-- A script that puts a value and uses its buffer for something else at once. -/
def overwritten : List Action :=
  [.new_buffer [1], .new_buffer [2], .call (.KvPut "kv" false 0) [⟨0, 0, 1⟩, ⟨1, 0, 1⟩], .write 1 0 3, .next, .acquire,
    .copy 0, .copy 0, .copy 0, .copy 0, .perform 0]

/-- The value that is put is not the one that was passed. -/
theorem call_overwritten :
    ¬ ∀ (conf : WorkerConfiguration) (as : List Action), (machine conf).Always (ActsOnPassed conf) (start conf) as := by
  intro h
  have hacts : ActsOnPassed writer _ := (machine writer).always_run (h writer overwritten) rfl
  have hput := hacts _ (List.mem_singleton.2 rfl) .binary .empty .quiet
  have hvalues := congrArg (fun r => r.2.rows.map Row.appvalue) hput
  exact absurd hvalues (by decide)

end LiveBuffers

end RustyWorkers

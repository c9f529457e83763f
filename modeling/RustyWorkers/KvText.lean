/-
The string side of the key-value store: `get`, `put`, `delete`, `cmpUpdate` and
`scan` of `KvNamespace` (`librt/src/kv.js`), from the script down to the table.

A string is encoded on its way in and decoded on its way out, a `cmpUpdate`
flattens its pairs into one list of buffers, an exclusive start becomes another
key, the host refuses what is too large, and every refusal is one rejected
promise. None of it can be seen from the outside: whatever a script asks for,
on strings that the codec gives back, it sees a map from strings to strings with
expiry (`text_results`).

The codec is the one that `librt/src/index.js` loads, and is not part of the
repository; so is the length of a call that is turned into JSON. Both are
fields of `Librt`, and nothing is assumed about them.
-/
import RustyWorkers.PutGet
import RustyWorkers.CmpUpdateCall
import RustyWorkers.KvScan

set_option autoImplicit false

namespace RustyWorkers

open Lib ExpiringMap

namespace KvText

/-- What a script's library is loaded with: `TextEncoder.encode`,
`TextDecoder.decode`, and the bytes of `JSON.stringify({Async: call})`. -/
structure Librt (S : Type) where
  encode : S → Bytes
  decode : Bytes → S
  call_length : AsyncCallV → ℕ

/-- A string that comes back from its encoding; one with an unpaired surrogate
does not. -/
@[ext]
structure Librt.Text {S : Type} (lib : Librt S) where
  val : S
  decode_encode : lib.decode (lib.encode val) = val

variable {S : Type} (lib : Librt S)

instance text_decidable_eq [DecidableEq S] : DecidableEq lib.Text := fun k k' =>
  decidable_of_iff (k.val = k'.val) Librt.Text.ext_iff.symm

/-! ## The library -/

section Library

variable {coll : Collation} (t : AppKv coll) (conf : WorkerConfiguration) (env : TaskEnv) (name : String)

/-- `if(result.Err) .. else if(result.Ok.Err) .. else ..`: the two rejections,
or the answer. -/
def settle : Seen → Except String Reply
  | .io_error => .error "io error"
  | .ok ⟨.user_error text, _⟩ => .error text
  | .ok r => .ok r

/-- `_callServiceWrapper({Async: v}, buffers, ..)` in a promise: an exception of
`call_service_callback` rejects it, and so does an error in the answer. -/
def call_service (v : AsyncCallV) (buffers : List Bytes) : Except String Reply × AppKv coll :=
  if 65536 < lib.call_length v then (.error "call string too large", t)
  else if 256 < buffers.length then (.error "too many buffers", t)
  else (handle_task t conf ⟨v, buffers⟩ env).map (fun r => settle (respond r)) id

/-- `KvNamespace.getRaw`. -/
def getRaw (key : Bytes) : Except String (Option Bytes) × AppKv coll :=
  (call_service lib t conf env (.KvGet name) [key]).map
    (·.map fun r => match r.value with
      | .user_ok true => r.buffers[0]?
      | _ => none) id

/-- `KvNamespace.get`. -/
def get (key : S) : Except String (Option S) × AppKv coll :=
  (getRaw lib t conf env name (lib.encode key)).map (·.map (·.map lib.decode)) id

/-- `KvNamespace.putRaw`. -/
def putRaw (key value : Bytes) (if_not_exists : Bool) (ttl_ms : UInt64) : Except String Unit × AppKv coll :=
  (call_service lib t conf env (.KvPut name if_not_exists ttl_ms) [key, value]).map (·.map fun _ => ()) id

/-- `KvNamespace.put`. -/
def put (key value : S) (if_not_exists : Bool) (ttl_ms : UInt64) : Except String Unit × AppKv coll :=
  putRaw lib t conf env name (lib.encode key) (lib.encode value) if_not_exists ttl_ms

/-- `KvNamespace.deleteRaw`. -/
def deleteRaw (key : Bytes) : Except String Unit × AppKv coll :=
  (call_service lib t conf env (.KvDelete name) [key]).map (·.map fun _ => ()) id

/-- `KvNamespace.delete`. -/
def delete (key : S) : Except String Unit × AppKv coll := deleteRaw lib t conf env name (lib.encode key)

/-- `KvNamespace.cmpUpdateRaw`; more pairs than a `u32` counts are refused for
their buffers. -/
def cmpUpdateRaw (assertions writes : List (Bytes × Bytes)) (ttl_ms : UInt64) : Except String Bool × AppKv coll :=
  (call_service lib t conf env
    (.KvCmpUpdate name (UInt32.ofNat assertions.length) (UInt32.ofNat writes.length) ttl_ms)
    (cmpupdate_buffers assertions writes)).map
    (·.map fun r => match r.value with
      | .user_ok success => success
      | _ => false) id

/-- `x => x.map(x => encoder.encode(x))`. -/
def encode_pair (p : S × S) : Bytes × Bytes := (lib.encode p.1, lib.encode p.2)

/-- `KvNamespace.cmpUpdate`. -/
def cmpUpdate (assertions writes : List (S × S)) (ttl_ms : UInt64) : Except String Bool × AppKv coll :=
  cmpUpdateRaw lib t conf env name (assertions.map (encode_pair lib)) (writes.map (encode_pair lib)) ttl_ms

/-- `Append a zero byte to startExclusive, to indicate the immediate next key.` -/
def scan_start (start : Bytes) : Option Bytes → Bytes
  | none => start
  | some k => k ++ [0]

/-- `KvNamespace.scanRaw`. -/
def scanRaw (start : Bytes) (startExclusive stop : Option Bytes) (limit : UInt32) :
    Except String (List Bytes) × AppKv coll :=
  (call_service lib t conf env (.KvScan name limit) (scan_args (scan_start start startExclusive) stop)).map
    (·.map Reply.buffers) id

/-- `KvNamespace.scan`. -/
def scan (start : S) (startExclusive stop : Option S) (limit : UInt32) : Except String (List S) × AppKv coll :=
  (scanRaw lib t conf env name (lib.encode start) (startExclusive.map lib.encode) (stop.map lib.encode) limit).map
    (·.map (·.map lib.decode)) id

end Library

/-! ## Calls, and what a script sees of them -/

/-- A call of a method with its arguments. -/
inductive TextOp (S : Type) where
  | get (key : S)
  | put (key value : S) (if_not_exists : Bool) (ttl_ms : UInt64)
  | delete (key : S)
  | cmpUpdate (assertions writes : List (S × S)) (ttl_ms : UInt64)
  | scan (start : S) (startExclusive stop : Option S) (limit : UInt32)

/-- A call on the namespace `kv[name]`, with what it meets outside. -/
structure TextCall (S : Type) where
  name : String
  op : TextOp S
  env : TaskEnv

/-- What a script sees; a page is a set, and only if it is not full. -/
inductive TextSeen (S : Type) where
  | value (v : Option S)
  | done
  | compared (success : Bool)
  | keys (ks : Set S)
  | limit_reached
  | rejected

def TextSeen.of {α : Type} (f : α → TextSeen S) : Except String α → TextSeen S
  | .ok a => f a
  | .error _ => .rejected

def TextSeen.of_page (limit : ℕ) (ks : List S) : TextSeen S :=
  if ks.length < limit then .keys {k | k ∈ ks} else .limit_reached

/-- The call, performed by the library. -/
def TextCall.exec {coll : Collation} (conf : WorkerConfiguration) (t : AppKv coll) (c : TextCall S) :
    TextSeen S × AppKv coll :=
  match c.op with
  | .get key => (get lib t conf c.env c.name key).map (TextSeen.of .value) id
  | .put key value if_not_exists ttl_ms =>
    (put lib t conf c.env c.name key value if_not_exists ttl_ms).map (TextSeen.of fun _ => .done) id
  | .delete key => (delete lib t conf c.env c.name key).map (TextSeen.of fun _ => .done) id
  | .cmpUpdate assertions writes ttl_ms =>
    (cmpUpdate lib t conf c.env c.name assertions writes ttl_ms).map (TextSeen.of .compared) id
  | .scan start startExclusive stop limit =>
    (scan lib t conf c.env c.name start startExclusive stop limit).map (TextSeen.of (.of_page limit.toNat)) id

/-! ## What the host is asked for -/

namespace TextOp

/-- The call string of a method. -/
def call (name : String) : TextOp S → AsyncCallV
  | .get _ => .KvGet name
  | .put _ _ if_not_exists ttl_ms => .KvPut name if_not_exists ttl_ms
  | .delete _ => .KvDelete name
  | .cmpUpdate assertions writes ttl_ms =>
    .KvCmpUpdate name (UInt32.ofNat assertions.length) (UInt32.ofNat writes.length) ttl_ms
  | .scan _ _ _ limit => .KvScan name limit

/-- The database call that a method comes to. -/
def kv_op (nsid : String) (server : RowOrder) : TextOp S → KvOp
  | .get key => .get nsid (lib.encode key)
  | .put key value if_not_exists ttl_ms => .put nsid (lib.encode key) (lib.encode value) if_not_exists ttl_ms
  | .delete key => .delete nsid (lib.encode key)
  | .cmpUpdate assertions writes ttl_ms =>
    .cmpupdate nsid (assertions.map (encode_pair lib)) (writes.map (encode_pair lib)) ttl_ms
  | .scan start startExclusive stop limit =>
    .scan_keys nsid (scan_start (lib.encode start) (startExclusive.map lib.encode)) (stop.map lib.encode)
      limit.toNat server

/-- The sizes and counts that `handle_task` takes. -/
def within : TextOp S → Prop
  | .get key | .delete key => (lib.encode key).length ≤ MAX_KV_KEY_SIZE
  | .put key value _ _ => within_limits (lib.encode key, lib.encode value)
  | .cmpUpdate assertions writes _ =>
    2 * (assertions.length + writes.length) ≤ 256 ∧ ∀ p ∈ assertions ++ writes, within_limits (encode_pair lib p)
  | .scan start startExclusive stop limit =>
    limit ≤ 100
      ∧ bounds_accepted (scan_start (lib.encode start) (startExclusive.map lib.encode)) (stop.map lib.encode)

/-- The call gets to the database. -/
def taken (name : String) (op : TextOp S) : Prop := lib.call_length (op.call name) ≤ 65536 ∧ op.within lib

/-- The buffers that go with the call string. -/
def buffers : TextOp S → List Bytes
  | .get key | .delete key => [lib.encode key]
  | .put key value _ _ => [lib.encode key, lib.encode value]
  | .cmpUpdate assertions writes _ =>
    cmpupdate_buffers (assertions.map (encode_pair lib)) (writes.map (encode_pair lib))
  | .scan start startExclusive stop _ =>
    scan_args (scan_start (lib.encode start) (startExclusive.map lib.encode)) (stop.map lib.encode)

/-- What a method makes of an answer. -/
def read : TextOp S → Reply → TextSeen S
  | .get _, r => .value ((match r.value with
      | .user_ok true => r.buffers[0]?
      | _ => none).map lib.decode)
  | .put .., _ | .delete _, _ => .done
  | .cmpUpdate .., r => .compared (match r.value with
      | .user_ok success => success
      | _ => false)
  | .scan _ _ _ limit, r => .of_page limit.toNat (r.buffers.map lib.decode)

end TextOp

/-! ## Every method is one call -/

section Bottom

variable {coll : Collation} {t : AppKv coll} {conf : WorkerConfiguration} {env : TaskEnv} {nsid : String}

/-- The methods differ in what they send and in how they read the answer. -/
theorem exec_eq_call_service (c : TextCall S) :
    c.exec lib conf t
      = (call_service lib t conf c.env (c.op.call c.name) (c.op.buffers lib)).map (.of (c.op.read lib)) id := by
  obtain ⟨name, op, env⟩ := c
  have hmap : ∀ {α β : Type} (f : α → β) (g : β → TextSeen S) (x : Except String α × AppKv coll),
      (x.map (·.map f) id).map (TextSeen.of g) id = x.map (TextSeen.of fun r => g (f r)) id := by
    intro α β f g x
    obtain ⟨r, t'⟩ := x
    cases r <;> rfl
  cases op with
  | get key => exact (hmap ..).trans (hmap ..)
  | put key value if_not_exists ttl_ms => exact hmap ..
  | delete key => exact hmap ..
  | cmpUpdate assertions writes ttl_ms =>
      have hexec := hmap (fun r : Reply => match r.value with
          | .user_ok success => success
          | _ => false) .compared
        (call_service lib t conf env
          (.KvCmpUpdate name (UInt32.ofNat (assertions.map (encode_pair lib)).length)
            (UInt32.ofNat (writes.map (encode_pair lib)).length) ttl_ms)
          (cmpupdate_buffers (assertions.map (encode_pair lib)) (writes.map (encode_pair lib))))
      simp only [List.length_map] at hexec
      simp only [TextCall.exec, cmpUpdate, cmpUpdateRaw, List.length_map]
      exact hexec
  | scan start startExclusive stop limit => exact (hmap ..).trans (hmap ..)

theorem call_service_of_count {v : AsyncCallV} {bs : List Bytes} (hlength : lib.call_length v ≤ 65536)
    (hcount : bs.length ≤ 256) :
    call_service lib t conf env v bs
      = (handle_task t conf ⟨v, bs⟩ env).map (fun r => settle (respond r)) id := by
  rw [call_service, if_neg (by omega), if_neg (by omega)]

theorem length_cmpupdate_buffers (assertions writes : List (S × S)) :
    (cmpupdate_buffers (assertions.map (encode_pair lib)) (writes.map (encode_pair lib))).length
      = 2 * (assertions.length + writes.length) := by
  rw [cmpupdate_buffers, List.length_append, length_push_pairs, length_push_pairs, List.length_map,
    List.length_map]
  omega

/-- Only a `cmpUpdate` can have too many buffers. -/
theorem count_of_within {op : TextOp S} (h : op.within lib) : (op.buffers lib).length ≤ 256 := by
  cases op with
  | get | put | delete =>
      simp only [TextOp.buffers, List.length_cons, List.length_nil]
      omega
  | cmpUpdate assertions writes ttl_ms =>
      rw [TextOp.buffers, length_cmpupdate_buffers]
      exact h.1
  | scan start startExclusive stop limit =>
      rw [TextOp.buffers]
      cases stop.map lib.encode <;> simp [scan_args]

/-- A call within the limits is the database call it stands for. -/
theorem handle_task_within {name : String} (hns : conf.kv_namespaces.lookup name = some nsid) {op : TextOp S}
    (h : op.within lib) :
    handle_task t conf ⟨op.call name, op.buffers lib⟩ env = perform t (op.kv_op lib nsid env.server) env := by
  cases op with
  | get key => exact handle_get hns h
  | put key value if_not_exists ttl_ms => exact handle_put hns h.1 h.2 if_not_exists ttl_ms
  | delete key =>
      have hread : read_buffer [lib.encode key] 0 MAX_KV_KEY_SIZE "missing key" "key too large"
          = .ok (lib.encode key) := read_buffer_ok rfl h
      simp only [handle_task, TextOp.call, TextOp.buffers, hread, namespace_id, hns]
      rfl
  | cmpUpdate assertions writes ttl_ms =>
      have hcount := count_of_within lib h
      have hpairs : ∀ p ∈ assertions.map (encode_pair lib) ++ writes.map (encode_pair lib), within_limits p := by
        rw [← List.map_append]
        exact List.forall_mem_map.2 h.2
      have hlength : ∀ ps : List (S × S), ps.length = (ps.map (encode_pair lib)).length := fun ps =>
        (List.length_map _).symm
      rw [TextOp.call, TextOp.buffers, handle_task_cmpupdate, hlength assertions, hlength writes,
        cmpupdate_round_trip hns hpairs hcount]
      rfl
  | scan start startExclusive stop limit =>
      obtain ⟨hlimit, hbounds⟩ := h
      rw [TextOp.call, TextOp.buffers, TextOp.kv_op]
      generalize scan_start (lib.encode start) (startExclusive.map lib.encode) = first at hbounds ⊢
      generalize stop.map lib.encode = last at hbounds ⊢
      have hstart : read_buffer (scan_args first last) 0 MAX_KV_KEY_SIZE "missing start key"
          "start_key too large" = .ok first := read_buffer_ok (by cases last <;> rfl) hbounds.1
      have hstop : read_end_key (scan_args first last) = .ok last := by
        cases last with
        | none => rfl
        | some e => exact if_pos (hbounds.2 e rfl)
      have hle : ¬ MAX_KV_SCAN_LIMIT < limit := UInt32.not_lt.2 hlimit
      simp only [handle_task, hstart, hstop, namespace_id, hns]
      change run_kv t env (if MAX_KV_SCAN_LIMIT < limit then _ else _) = _
      rw [if_neg hle]
      rfl

/-- The answer is an error, of the host or of the user. -/
def refusal (r : Except GenericError Reply) : Prop := ∃ text, settle (respond r) = .error text

/-- The arguments of a call cannot be collected. -/
def Stops {α : Type} (x : Except Stop α) : Prop := ∃ stop, x = .error stop ∧ stop.IsError

namespace Stops

variable {α β : Type} {x : Except Stop α} {f : α → Except Stop β}

theorem bind (h : Stops x) : Stops (x >>= f) := by
  obtain ⟨stop, rfl, herror⟩ := h
  exact ⟨stop, rfl, herror⟩

theorem after {a : α} (hx : x = .ok a) (h : Stops (f a)) : Stops (x >>= f) := by
  rw [hx]
  exact h

theorem read_buffer {bs : List Bytes} {index max : ℕ} {missing too_large : String} {b : Bytes}
    (hb : bs[index]? = some b) (h : ¬ b.length ≤ max) :
    Stops (read_buffer bs index max missing too_large) := ⟨_, read_buffer_too_large hb h, _, rfl⟩

theorem namespace_id {name : String} (h : conf.kv_namespaces.lookup name = none) :
    Stops (namespace_id conf name) := by
  rw [RustyWorkers.namespace_id, h]
  exact ⟨_, rfl, _, rfl⟩

/-- What stops is answered with an error, and the table is not looked at. -/
theorem refused {call : Except Stop KvOp} (h : Stops call) :
    ∃ r, run_kv t env call = (r, t) ∧ refusal r := by
  obtain ⟨stop, rfl, herror⟩ := h
  cases stop with
  | fail e => exact ⟨.error e, rfl, "io error", rfl⟩
  | reply r =>
      obtain ⟨text, rfl⟩ := herror
      exact ⟨.ok (mk_user_error text), rfl, text, rfl⟩

end Stops

/-- A namespace that the worker does not have, and what `handle_task` does not
take, is refused. -/
theorem handle_task_refused {name : String} {op : TextOp S} (hcount : (op.buffers lib).length ≤ 256)
    (h : conf.kv_namespaces.lookup name = none ∨ ¬ op.within lib) :
    ∃ r, handle_task t conf ⟨op.call name, op.buffers lib⟩ env = (r, t) ∧ refusal r := by
  -- the call stops at the first check that fails
  cases op with
  | get key | delete key =>
      refine Stops.refused ?_
      by_cases hkey : (lib.encode key).length ≤ MAX_KV_KEY_SIZE
      · exact .after (read_buffer_ok rfl hkey) (.bind (.namespace_id (h.resolve_right (not_not.2 hkey))))
      · exact .bind (.read_buffer rfl hkey)
  | put key value if_not_exists ttl_ms =>
      refine Stops.refused ?_
      by_cases hkey : (lib.encode key).length ≤ MAX_KV_KEY_SIZE
      · refine .after (read_buffer_ok rfl hkey) ?_
        by_cases hvalue : (lib.encode value).length ≤ MAX_KV_VALUE_SIZE
        · have hns := h.resolve_right (not_not.2 ⟨hkey, hvalue⟩)
          exact .after (read_buffer_ok rfl hvalue) (.bind (.namespace_id hns))
        · exact .bind (.read_buffer rfl hvalue)
      · exact .bind (.read_buffer rfl hkey)
  | cmpUpdate assertions writes ttl_ms =>
      refine Stops.refused ?_
      cases hns : conf.kv_namespaces.lookup name with
      | none => exact .bind (.namespace_id hns)
      | some nsid =>
          have hwithin := h.resolve_left (by rw [hns]; exact Option.some_ne_none nsid)
          rw [TextOp.buffers, length_cmpupdate_buffers] at hcount
          refine cmpupdate_call_error hns fun hreadable => hwithin ⟨hcount, ?_⟩
          -- the counts do not wrap, so all pairs are read
          have hsum : (UInt32.ofNat assertions.length + UInt32.ofNat writes.length).toNat
              = (assertions.map (encode_pair lib) ++ writes.map (encode_pair lib)).length := by
            rw [UInt32.toNat_add, UInt32.toNat_ofNat', UInt32.toNat_ofNat', List.length_append, List.length_map,
              List.length_map]
            omega
          have hpairs := hreadable.2
          rw [hsum, TextOp.buffers, buffer_pairs_cmpupdate, List.take_length, ← List.map_append] at hpairs
          exact List.forall_mem_map.1 hpairs
  | scan start startExclusive stop limit =>
      refine Stops.refused ?_
      simp only [TextOp.within, TextOp.buffers] at h ⊢
      generalize scan_start (lib.encode start) (startExclusive.map lib.encode) = first at h ⊢
      generalize stop.map lib.encode = last at h ⊢
      have hfirst : (scan_args first last)[0]? = some first := by cases last <;> rfl
      by_cases hstart : first.length ≤ MAX_KV_KEY_SIZE
      · refine .after (read_buffer_ok hfirst hstart) ?_
        by_cases hstop : ∀ e ∈ last, e.length ≤ MAX_KV_KEY_SIZE
        · have hend : read_end_key (scan_args first last) = .ok last := by
            cases last with
            | none => rfl
            | some e => exact if_pos (hstop e rfl)
          refine .after hend ?_
          cases hns : conf.kv_namespaces.lookup name with
          | none => exact .bind (.namespace_id hns)
          | some nsid =>
              have hid : RustyWorkers.namespace_id conf name = .ok nsid := by
                rw [RustyWorkers.namespace_id, hns]
              refine .after hid ?_
              have hlimit : MAX_KV_SCAN_LIMIT < limit := by
                by_contra hle
                rw [hns] at h
                refine (h.resolve_left (Option.some_ne_none nsid)) ⟨UInt32.not_lt.1 hle, hstart, hstop⟩
              rw [if_pos hlimit]
              exact ⟨_, rfl, _, rfl⟩
        · have hend : Stops (read_end_key (scan_args first last)) := by
            cases last with
            | none => exact absurd (fun e he => absurd he (Option.not_mem_none e)) hstop
            | some e =>
                have hlong : ¬ e.length ≤ MAX_KV_KEY_SIZE := fun he => hstop fun e' he' => by
                  cases he'
                  exact he
                exact ⟨_, if_neg hlong, _, rfl⟩
          exact hend.bind
      · exact .bind (.read_buffer hfirst hstart)

/-- The isolate has room for every answer. -/
def Roomy (env : TaskEnv) : Prop := ∀ n, env.allocate_arraybuffer n = .ok ()

/-- What a script sees of a result of the database. -/
def Librt.seen : KvResult → TextSeen S
  | .value v => .value (v.map lib.decode)
  | .done => .done
  | .keys ks => .keys (lib.decode '' ks)
  | .limit_reached => .limit_reached
  | .compared success => .compared success
  | .error _ => .rejected

/-- The database call of a method, as `KvCall` runs it. -/
def TextOp.kv_call (op : TextOp S) (nsid : String) (env : TaskEnv) : KvCall :=
  ⟨op.kv_op lib nsid env.server, env.now, env.currenttime⟩

theorem of_page_decode (limit : ℕ) (ks : List Bytes) :
    TextSeen.of_page limit (ks.map lib.decode) = lib.seen (KvResult.of_keys limit (.ok ks)) := by
  rw [TextSeen.of_page, KvResult.of_keys, List.length_map]
  split
  · refine congrArg TextSeen.keys (Set.ext fun s => ?_)
    exact List.mem_map
  · rfl

/-- The answer of `handle_task` says what the database said. -/
theorem perform_seen (hroom : Roomy env) (t : AppKv .binary) (op : TextOp S) :
    (perform t (op.kv_op lib nsid env.server) env).map
        (fun r => TextSeen.of (op.read lib) (settle (respond r))) id
      = ((op.kv_call lib nsid env).exec t).map lib.seen id := by
  have hallocate : ∀ b, allocate_with_data env b = .ok b := by
    intro b
    rw [allocate_with_data, hroom]
  cases op with
  | get key =>
      simp only [TextOp.kv_op, TextOp.kv_call, perform, KvCall.exec, worker_data_get]
      cases t.select_value nsid (lib.encode key) env.now with
      | none => rfl
      | some v =>
          change (TextSeen.of _ (settle (respond (allocate_with_data env v >>= fun b => pure _))), t) = _
          rw [hallocate]
          rfl
  | put key value if_not_exists ttl_ms =>
      simp only [TextOp.kv_op, TextOp.kv_call, perform, KvCall.exec]
      obtain ⟨r, t'⟩ := worker_data_put t nsid (lib.encode key) (lib.encode value) if_not_exists ttl_ms env.now
        env.currenttime
      cases r <;> rfl
  | delete key => rfl
  | cmpUpdate assertions writes ttl_ms =>
      simp only [TextOp.kv_op, TextOp.kv_call, perform, KvCall.exec]
      obtain ⟨r, t'⟩ := worker_data_cmpupdate t nsid (assertions.map (encode_pair lib))
        (writes.map (encode_pair lib)) ttl_ms env.now
      cases r <;> rfl
  | scan start startExclusive stop limit =>
      simp only [TextOp.kv_op, TextOp.kv_call, perform, KvCall.exec, worker_data_scan_keys]
      change (TextSeen.of _ (settle (respond (List.mapM _ _ >>= fun keys => pure _))), t) = _
      rw [allocate_all hroom]
      exact congrArg (·, t) (of_page_decode lib limit.toNat _)

/-- A call that is taken is its database call. -/
theorem exec_taken (t : AppKv .binary) {c : TextCall S} (hns : conf.kv_namespaces.lookup c.name = some nsid)
    (h : c.op.taken lib c.name) (hroom : Roomy c.env) :
    c.exec lib conf t = ((c.op.kv_call lib nsid c.env).exec t).map lib.seen id := by
  rw [exec_eq_call_service, call_service_of_count lib h.1 (count_of_within lib h.2),
    handle_task_within lib hns h.2, ← perform_seen lib hroom]
  rfl

/-- A call that is not taken is rejected and changes nothing. -/
theorem exec_refused (t : AppKv coll) {c : TextCall S}
    (h : conf.kv_namespaces.lookup c.name = none ∨ ¬ c.op.taken lib c.name) :
    c.exec lib conf t = (.rejected, t) := by
  rw [exec_eq_call_service, call_service]
  by_cases hlength : 65536 < lib.call_length (c.op.call c.name)
  · rw [if_pos hlength]
    rfl
  · rw [if_neg hlength]
    by_cases hcount : 256 < (c.op.buffers lib).length
    · rw [if_pos hcount]
      rfl
    · rw [if_neg hcount]
      have hwithin : conf.kv_namespaces.lookup c.name = none ∨ ¬ c.op.within lib :=
        h.imp id fun hnot hwithin => hnot ⟨by omega, hwithin⟩
      obtain ⟨r, hr, text, htext⟩ : ∃ r, handle_task t conf ⟨c.op.call c.name, c.op.buffers lib⟩ c.env = (r, t)
          ∧ refusal r := handle_task_refused lib (by omega) hwithin
      rw [hr]
      simp only [Prod.map_apply, id_eq, htext]
      rfl

end Bottom

/-! ## A map from strings to strings -/

/-- What the methods are for: (namespace, string) to string, with an optional
expiry. -/
abbrev TextMap := ExpiringMap (String × lib.Text) S UInt64

variable {lib}

/-- Different strings have different encodings. -/
theorem encode_injective : Function.Injective fun k : lib.Text => lib.encode k.val := by
  intro k k' h
  have hdecode := congrArg lib.decode h
  exact Librt.Text.ext (k.decode_encode.symm.trans (hdecode.trans k'.decode_encode))

namespace TextOp

/-- The call with its strings replaced. -/
def map {S' : Type} (f : S' → S) : TextOp S' → TextOp S
  | .get key => .get (f key)
  | .put key value if_not_exists ttl_ms => .put (f key) (f value) if_not_exists ttl_ms
  | .delete key => .delete (f key)
  | .cmpUpdate assertions writes ttl_ms =>
    .cmpUpdate (assertions.map (Prod.map f f)) (writes.map (Prod.map f f)) ttl_ms
  | .scan start startExclusive stop limit => .scan (f start) (startExclusive.map f) (stop.map f) limit

end TextOp

/-- The strings of a range, in the order of their encodings: from `start` on, or
above `startExclusive` if it is given, and up to `stop`. -/
def in_range (start : lib.Text) (startExclusive stop : Option lib.Text) (k : lib.Text) : Prop :=
  (match startExclusive with
    | none => lib.encode start.val ≤ lib.encode k.val
    | some x => lib.encode x.val < lib.encode k.val)
  ∧ ∀ e ∈ stop, lib.encode k.val ≤ lib.encode e.val

/-- The keys of a namespace that are in the range at `now`. -/
def text_keys (m : TextMap lib) (nsid : String) (start : lib.Text) (startExclusive stop : Option lib.Text)
    (now : UInt64) : Set lib.Text :=
  {k | in_range start startExclusive stop k ∧ (nsid, k) ∈ m.dom now}

/-- The columns of `appkv` can hold the pair. -/
def storable_text (nsid : String) (key value : lib.Text) : Bool :=
  storable nsid (lib.encode key.val) (lib.encode value.val)

/-- The pairs as entries of the map. -/
def entries (nsid : String) (ps : List (lib.Text × lib.Text)) : List ((String × lib.Text) × S) :=
  ps.map fun p => ((nsid, p.1), p.2.val)

open Classical in
/-- A method on the map. -/
noncomputable def TextOp.apply [DecidableEq S] (nsid : String) (env : TaskEnv) (m : TextMap lib) :
    TextOp lib.Text → TextSeen S × TextMap lib
  | .get key => (.value (m.get env.now (nsid, key)), m)
  | .put key value if_not_exists ttl_ms =>
    match expiry_of env.now ttl_ms with
    | .error _ => (.rejected, m)
    | .ok expiry =>
      if if_not_exists = true ∧ (nsid, key) ∈ m.dom env.currenttime then (.done, m)
      else if storable_text nsid key value then (.done, m.set (nsid, key) value.val expiry)
      else (.rejected, m)
  | .delete key => (.done, m.erase (nsid, key))
  | .cmpUpdate assertions writes ttl_ms =>
    match expiry_of env.now ttl_ms with
    | .error _ => (.rejected, m)
    | .ok expiry =>
      if m.holds_all env.now (entries nsid assertions) then
        if ∀ p ∈ writes, storable_text nsid p.1 p.2 = true then
          (.compared true, m.set_all (entries nsid writes) expiry)
        else (.rejected, m)
      else (.compared false, m)
  | .scan start startExclusive stop limit =>
    if (text_keys m nsid start startExclusive stop env.now).ncard < limit.toNat then
      (.keys (Librt.Text.val '' text_keys m nsid start startExclusive stop env.now), m)
    else (.limit_reached, m)

open Classical in
/-- A call on the map: of a namespace that the worker has, and within the limits
of the host. -/
noncomputable def TextCall.spec [DecidableEq S] (conf : WorkerConfiguration) (m : TextMap lib) (c : TextCall lib.Text) :
    TextSeen S × TextMap lib :=
  match conf.kv_namespaces.lookup c.name with
  | none => (.rejected, m)
  | some nsid =>
    if (c.op.map Librt.Text.val).taken lib c.name then c.op.apply nsid c.env m else (.rejected, m)

/-! ## The map that a table is to a script -/

/-- The keys and values of these namespaces are encoded strings. -/
def TextEntry (lib : Librt S) (ids : List String) (q : String × Bytes) (v : Bytes) : Prop :=
  q.1 ∈ ids → lib.encode (lib.decode q.2) = q.2 ∧ lib.encode (lib.decode v) = v

/-- Where a script finds a string. -/
def place (q : String × lib.Text) : String × Bytes := (q.1, lib.encode q.2.val)

theorem place_injective : Function.Injective (place : String × lib.Text → String × Bytes) := by
  intro q q' h
  obtain ⟨hns, hkey⟩ := Prod.ext_iff.1 h
  exact Prod.ext hns (encode_injective hkey)

/-- The map with its bytes read as strings. -/
def read_map (lib : Librt S) (m : KvMap) : TextMap lib := m.through place lib.decode

section Read

variable {m : KvMap} {ids : List String} {nsid : String}

/-- A string is in the range if its encoding is. -/
theorem in_range_iff (start : lib.Text) (startExclusive stop : Option lib.Text) (k : lib.Text) :
    AppKv.in_range (scan_start (lib.encode start.val) ((startExclusive.map Librt.Text.val).map lib.encode))
        ((stop.map Librt.Text.val).map lib.encode) (lib.encode k.val) = true
      ↔ in_range start startExclusive stop k := by
  unfold AppKv.in_range in_range
  rw [Bool.and_eq_true, decide_eq_true_eq, Option.all_eq_true]
  refine and_congr ?_ ?_
  · cases startExclusive with
    | none => rfl
    | some x => exact (lt_iff_append_bot_le (lib.encode x.val) (lib.encode k.val)).symm
  · cases stop with
    | none => exact iff_of_true (fun _ he => nomatch he) fun _ he => nomatch he
    | some e =>
        refine ⟨fun h e' he' => ?_, fun h s hs => ?_⟩
        · cases he'
          exact of_decide_eq_true (h _ rfl)
        · cases hs
          exact decide_eq_true (h e rfl)

/-- The keys that are found are the encodings of strings. -/
theorem keys_found_read (hm : m.Entries (TextEntry lib ids)) (hns : nsid ∈ ids) (start : lib.Text)
    (startExclusive stop : Option lib.Text) (now : UInt64) :
    keys_found m nsid (scan_start (lib.encode start.val) ((startExclusive.map Librt.Text.val).map lib.encode))
        ((stop.map Librt.Text.val).map lib.encode) now
      = (fun k : lib.Text => lib.encode k.val) ''
          text_keys (read_map lib m) nsid start startExclusive stop now := by
  have hdom : ∀ k : lib.Text, (nsid, k) ∈ (read_map lib m).dom now ↔ (nsid, lib.encode k.val) ∈ m.dom now :=
    fun k => mem_dom_through m now (nsid, k)
  ext b
  constructor
  · rintro ⟨hrange, hb⟩
    -- a key that is found has an entry, and is the encoding of what it decodes to
    obtain ⟨v, hv⟩ := Option.isSome_iff_exists.1 hb
    obtain ⟨e, he, -⟩ := Option.map_eq_some_iff.1 hv
    have hkey : lib.encode (lib.decode b) = b := (hm (nsid, b) e (Option.filter_eq_some_iff.1 he).1 hns).1
    have htext : lib.decode (lib.encode (lib.decode b)) = lib.decode b := congrArg lib.decode hkey
    refine ⟨⟨lib.decode b, htext⟩, ⟨(in_range_iff ..).1 ?_, (hdom _).2 ?_⟩, hkey⟩
    · rw [hkey]
      exact hrange
    · rw [hkey]
      exact hb
  · rintro ⟨k, ⟨hrange, hk⟩, rfl⟩
    exact ⟨(in_range_iff ..).2 hrange, (hdom k).1 hk⟩

theorem ncard_keys_found_read (hm : m.Entries (TextEntry lib ids)) (hns : nsid ∈ ids) (start : lib.Text)
    (startExclusive stop : Option lib.Text) (now : UInt64) :
    (keys_found m nsid (scan_start (lib.encode start.val) ((startExclusive.map Librt.Text.val).map lib.encode))
        ((stop.map Librt.Text.val).map lib.encode) now).ncard
      = (text_keys (read_map lib m) nsid start startExclusive stop now).ncard := by
  rw [keys_found_read hm hns]
  exact Set.ncard_image_of_injective _ encode_injective

/-- The pairs of a `cmpUpdate`, as the database gets them. -/
theorem map_encode_pair (ps : List (lib.Text × lib.Text)) :
    ((ps.map (Prod.map Librt.Text.val Librt.Text.val)).map (encode_pair lib)).map (fun kv => ((nsid, kv.1), kv.2))
      = (ps.map fun p => ((nsid, p.1), lib.encode p.2.val)).map fun kv => (place kv.1, kv.2) := by
  rw [List.map_map, List.map_map, List.map_map]
  rfl

theorem map_decode_pair (ps : List (lib.Text × lib.Text)) :
    (ps.map fun p => ((nsid, p.1), lib.encode p.2.val)).map (fun kv => (kv.1, lib.decode kv.2)) = entries nsid ps := by
  rw [List.map_map, entries]
  refine List.map_congr_left fun p _ => ?_
  exact congrArg (Prod.mk (nsid, p.1)) p.2.decode_encode

theorem holds_all_read (hm : m.Entries (TextEntry lib ids)) (hns : nsid ∈ ids) (now : UInt64)
    (ps : List (lib.Text × lib.Text)) :
    m.holds_all now (((ps.map (Prod.map Librt.Text.val Librt.Text.val)).map (encode_pair lib)).map
        fun kv => ((nsid, kv.1), kv.2))
      ↔ (read_map lib m).holds_all now (entries nsid ps) := by
  rw [map_encode_pair, ← map_decode_pair]
  refine (holds_all_through m now fun kv hkv e he hdecode => ?_).symm
  obtain ⟨p, -, rfl⟩ := List.mem_map.1 hkv
  have hvalue : lib.encode (lib.decode e.1) = e.1 := (hm _ e he hns).2
  have hencode := congrArg lib.encode hdecode
  dsimp only at hencode
  rw [hvalue, p.2.decode_encode] at hencode
  exact hencode

theorem set_all_read [DecidableEq S] (ps : List (lib.Text × lib.Text)) (expiry : Option UInt64) :
    read_map lib (m.set_all (((ps.map (Prod.map Librt.Text.val Librt.Text.val)).map (encode_pair lib)).map
        fun kv => ((nsid, kv.1), kv.2)) expiry)
      = (read_map lib m).set_all (entries nsid ps) expiry := by
  rw [map_encode_pair, ← map_decode_pair]
  exact set_all_through m place_injective _ expiry

/-- **A database call on encoded strings is the method on the strings.** -/
theorem apply_read [DecidableEq S] (hm : m.Entries (TextEntry lib ids)) (hns : nsid ∈ ids) (op : TextOp lib.Text) (env : TaskEnv) :
    (((op.map Librt.Text.val).kv_call lib nsid env).apply m).map lib.seen (read_map lib)
      = op.apply nsid env (read_map lib m) := by
  cases op with
  | get key =>
      have hget : (read_map lib m).get env.now (nsid, key) = (m.get env.now (nsid, lib.encode key.val)).map lib.decode :=
        get_through m env.now (nsid, key)
      simp only [TextOp.apply, hget]
      rfl
  | put key value if_not_exists ttl_ms =>
      have hdom : (nsid, key) ∈ (read_map lib m).dom env.currenttime
          ↔ (nsid, lib.encode key.val) ∈ m.dom env.currenttime := mem_dom_through m env.currenttime (nsid, key)
      have hset : ∀ expiry, read_map lib (m.set (nsid, lib.encode key.val) (lib.encode value.val) expiry)
          = (read_map lib m).set (nsid, key) value.val expiry := by
        intro expiry
        refine (set_through m place_injective (nsid, key) (lib.encode value.val) expiry).trans ?_
        rw [value.decode_encode]
        rfl
      change ((⟨.put nsid (lib.encode key.val) (lib.encode value.val) if_not_exists ttl_ms, env.now,
        env.currenttime⟩ : KvCall).apply m).map _ _ = _
      simp only [KvCall.apply, TextOp.apply]
      cases expiry_of env.now ttl_ms with
      | error e => rfl
      | ok expiry =>
          dsimp only
          by_cases hkept : if_not_exists = true ∧ (nsid, lib.encode key.val) ∈ m.dom env.currenttime
          · rw [if_pos hkept, if_pos (hkept.imp id hdom.2)]
            rfl
          · have hnot : ¬ (if_not_exists = true ∧ (nsid, key) ∈ (read_map lib m).dom env.currenttime) :=
              fun h => hkept (h.imp id hdom.1)
            rw [if_neg hkept, if_neg hnot]
            by_cases hfits : storable_text nsid key value = true
            · rw [if_pos hfits, if_pos (show storable nsid (lib.encode key.val) (lib.encode value.val) = true from hfits)]
              exact Prod.ext rfl (hset expiry)
            · rw [if_neg hfits,
                if_neg (show ¬ storable nsid (lib.encode key.val) (lib.encode value.val) = true from hfits)]
              rfl
  | delete key => exact Prod.ext rfl (erase_through m place_injective (nsid, key))
  | cmpUpdate assertions writes ttl_ms =>
      have hstorable : (∀ kv ∈ (writes.map (Prod.map Librt.Text.val Librt.Text.val)).map (encode_pair lib),
            storable nsid kv.1 kv.2 = true)
          ↔ ∀ p ∈ writes, storable_text nsid p.1 p.2 = true := by
        rw [List.map_map, List.forall_mem_map]
        rfl
      change ((⟨.cmpupdate nsid ((assertions.map (Prod.map Librt.Text.val Librt.Text.val)).map (encode_pair lib))
        ((writes.map (Prod.map Librt.Text.val Librt.Text.val)).map (encode_pair lib)) ttl_ms, env.now,
        env.currenttime⟩ : KvCall).apply m).map _ _ = _
      simp only [KvCall.apply, TextOp.apply, hstorable]
      cases expiry_of env.now ttl_ms with
      | error e => rfl
      | ok expiry =>
          dsimp only
          have hholds := holds_all_read hm hns env.now assertions
          by_cases hall : (read_map lib m).holds_all env.now (entries nsid assertions)
          · rw [if_pos hall, if_pos (hholds.2 hall)]
            split
            · exact Prod.ext rfl (set_all_read writes expiry)
            · rfl
          · rw [if_neg hall, if_neg (mt hholds.1 hall)]
            rfl
  | scan start startExclusive stop limit =>
      have hdecode : lib.decode '' ((fun k : lib.Text => lib.encode k.val) ''
            text_keys (read_map lib m) nsid start startExclusive stop env.now)
          = Librt.Text.val '' text_keys (read_map lib m) nsid start startExclusive stop env.now := by
        rw [Set.image_image]
        exact Set.image_congr fun k _ => k.decode_encode
      change ((⟨.scan_keys nsid
        (scan_start (lib.encode start.val) ((startExclusive.map Librt.Text.val).map lib.encode))
        ((stop.map Librt.Text.val).map lib.encode) limit.toNat env.server, env.now,
        env.currenttime⟩ : KvCall).apply m).map _ _ = _
      simp only [KvCall.apply, TextOp.apply, ncard_keys_found_read hm hns]
      split
      · rw [keys_found_read hm hns]
        exact Prod.ext (congrArg TextSeen.keys hdecode) rfl
      · rfl

/-- The entries that the call may write are of the kind `P`. -/
def only_writes (P : String × Bytes → Bytes → Prop) : KvOp → Prop
  | .put ns k v _ _ => P (ns, k) v
  | .cmpupdate ns _ writes _ => ∀ kv ∈ writes, P (ns, kv.1) kv.2
  | _ => True

theorem entries_apply {P : String × Bytes → Bytes → Prop} (hm : m.Entries P) {c : KvCall}
    (hc : only_writes P c.op) : (c.apply m).2.Entries P := by
  obtain ⟨op, now, currenttime⟩ := c
  cases op with
  | get ns k => exact hm
  | put ns k v if_not_exists ttl_ms =>
      simp only [KvCall.apply]
      cases expiry_of now ttl_ms with
      | error e => exact hm
      | ok expiry =>
          dsimp only
          split_ifs
          · exact hm
          · exact hm.set hc expiry
          · exact hm
  | delete ns k => exact hm.erase (ns, k)
  | scan_keys ns start stop limit server =>
      simp only [KvCall.apply]
      split_ifs
      · exact hm
      · exact hm
  | cmpupdate ns assertions writes ttl_ms =>
      simp only [KvCall.apply]
      cases expiry_of now ttl_ms with
      | error e => exact hm
      | ok expiry =>
          dsimp only
          split_ifs
          · refine hm.set_all (fun kv hkv => ?_) expiry
            obtain ⟨p, hp, rfl⟩ := List.mem_map.1 hkv
            exact hc p hp
          · exact hm
          · exact hm

/-- A call with strings writes encoded strings only. -/
theorem only_writes_text (op : TextOp lib.Text) (nsid : String) (env : TaskEnv) :
    only_writes (TextEntry lib ids) ((op.map Librt.Text.val).kv_call lib nsid env).op := by
  have htext : ∀ k : lib.Text, lib.encode (lib.decode (lib.encode k.val)) = lib.encode k.val := fun k =>
    congrArg lib.encode k.decode_encode
  cases op with
  | get key | delete key | scan start startExclusive stop limit => trivial
  | put key value if_not_exists ttl_ms => exact fun _ => ⟨htext key, htext value⟩
  | cmpUpdate assertions writes ttl_ms =>
      intro kv hkv
      rw [List.map_map] at hkv
      obtain ⟨p, -, rfl⟩ := List.mem_map.1 hkv
      exact fun _ => ⟨htext p.1, htext p.2⟩

end Read

/-! ## Runs -/

/-- The call of a script, with the strings as the library gets them. -/
def TextCall.raw (c : TextCall lib.Text) : TextCall S := ⟨c.name, c.op.map Librt.Text.val, c.env⟩

/-- What a script sees of its calls, one after another on the table. -/
def results (conf : WorkerConfiguration) : AppKv .binary → List (TextCall lib.Text) → List (TextSeen S)
  | _, [] => []
  | t, c :: cs => (c.raw.exec lib conf t).1 :: results conf (c.raw.exec lib conf t).2 cs

/-- The same on the map. -/
noncomputable def spec_results [DecidableEq S] (conf : WorkerConfiguration) :
    TextMap lib → List (TextCall lib.Text) → List (TextSeen S)
  | _, [] => []
  | m, c :: cs => (c.spec conf m).1 :: spec_results conf (c.spec conf m).2 cs

/-- What a worker finds under its own namespaces was written as strings. -/
def TextTable (lib : Librt S) (conf : WorkerConfiguration) (t : AppKv .binary) : Prop :=
  (abs t).Entries (TextEntry lib (namespace_ids conf))

variable [DecidableEq S] {conf : WorkerConfiguration}

/-- **One call of a script is the same call on the map.** -/
theorem exec_read {t : AppKv .binary} (ht : TextTable lib conf t) {c : TextCall lib.Text} (hroom : Roomy c.env) :
    (c.raw.exec lib conf t).map id (fun t => read_map lib (abs t)) = c.spec conf (read_map lib (abs t))
      ∧ TextTable lib conf (c.raw.exec lib conf t).2 := by
  unfold TextCall.spec
  cases hns : conf.kv_namespaces.lookup c.name with
  | none =>
      rw [exec_refused lib t (Or.inl hns)]
      exact ⟨rfl, ht⟩
  | some nsid =>
      dsimp only
      by_cases htaken : (c.op.map Librt.Text.val).taken lib c.name
      · have hid : nsid ∈ namespace_ids conf := mem_namespace_ids.2 ⟨c.name, hns⟩
        have hread := apply_read ht hid c.op c.env
        have hkept := entries_apply ht (only_writes_text c.op nsid c.env)
        rw [exec_refines] at hread hkept
        rw [if_pos htaken, exec_taken lib t (c := c.raw) hns htaken hroom]
        exact ⟨hread, hkept⟩
      · rw [if_neg htaken, exec_refused lib t (c := c.raw) (Or.inr htaken)]
        exact ⟨rfl, ht⟩

/-- **A namespace of strings is a map with expiry.** Whatever a script asks of its
namespaces, one call after another, on strings that come back from their
encoding, it sees what a map from strings to strings shows: what is too large for
the host or for the columns, and what is asked of a namespace that the worker
does not have, is rejected and changes nothing. -/
theorem text_results (lib : Librt S) (conf : WorkerConfiguration) (t : AppKv .binary) (ht : TextTable lib conf t)
    (cs : List (TextCall lib.Text)) (hroom : ∀ c ∈ cs, Roomy c.env) :
    results conf t cs = spec_results conf (read_map lib (abs t)) cs := by
  -- the calls keep the table one of strings
  induction cs generalizing t with
  | nil => rfl
  | cons c cs ih =>
      obtain ⟨hc, hrest⟩ := List.forall_mem_cons.1 hroom
      obtain ⟨hread, htext⟩ := exec_read ht hc
      rw [results, spec_results, ih _ htext hrest, ← hread]
      rfl

/-- A library on strings of ASCII letters, with call strings whose names need no
escapes. -/
def ascii_librt : Librt (List Char) where
  encode s := s.map fun c => UInt8.ofNat c.toNat
  decode b := b.map fun x => Char.ofNat x.toNat
  call_length
    | .KvGet ns => 36 + ns.length
    | .KvPut ns if_not_exists ttl_ms =>
      63 + ns.length + (if if_not_exists then 4 else 5) + (Nat.toDigits 10 ttl_ms.toNat).length
    | .KvDelete ns => 39 + ns.length
    | .KvScan ns limit => 46 + ns.length + (Nat.toDigits 10 limit.toNat).length
    | .KvCmpUpdate ns num_assertions num_writes ttl_ms =>
      84 + ns.length + (Nat.toDigits 10 num_assertions.toNat).length
        + (Nat.toDigits 10 num_writes.toNat).length + (Nat.toDigits 10 ttl_ms.toNat).length
    | _ => 0

def text_k : ascii_librt.Text := ⟨['k'], rfl⟩
def text_l : ascii_librt.Text := ⟨['l'], rfl⟩
def text_v : ascii_librt.Text := ⟨['v'], rfl⟩

/-- A put, an update under the assertion that the put has set its value, a page
above the key of the put, and a read of a key that is not there. -/
def four_calls : List (TextCall ascii_librt.Text) :=
  [⟨"kv", .put text_k text_v false 0, .quiet⟩, ⟨"kv", .cmpUpdate [(text_k, text_v)] [(text_l, text_v)] 0, .quiet⟩,
    ⟨"kv", .scan text_k (some text_k) none 10, .quiet⟩, ⟨"kv", .get text_v, .quiet⟩]

theorem text_results_of_four :
    spec_results kv_worker (read_map ascii_librt (abs .empty)) four_calls
      = [.done, .compared true, .keys {['l']}, .value none] := by
  rw [← text_results ascii_librt kv_worker .empty (fun _ _ h => nomatch h) four_calls
    (fun c hc => by
      simp only [four_calls, List.mem_cons, List.not_mem_nil, or_false] at hc
      obtain rfl | rfl | rfl | rfl := hc <;> exact fun _ => rfl)]
  have hpage : ({['l']} : Set (List Char)) = {s | s ∈ [['l']]} := by
    ext s
    simp
  rw [hpage]
  rfl

end KvText

end RustyWorkers

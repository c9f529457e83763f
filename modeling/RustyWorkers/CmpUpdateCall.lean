/-
`KvNamespace.cmpUpdateRaw` (`librt/src/kv.js`) and the arm of `handle_task` for
`KvCmpUpdate` (`rusty-workers-runtime/src/io.rs`).

The library pushes the keys and the values of all assertions and of all writes
into one list of buffers and sends the two counts beside it. `handle_task` takes
the buffers two at a time, as many pairs as the sum of the counts says. The sum
is a `u32`: it wraps in a release build, and the counts are the script's own.
-/
import RustyWorkers.HandleTask

set_option autoImplicit false

namespace RustyWorkers

/-! ## Pairs of buffers -/

/-- The buffers two at a time. -/
def buffer_pairs : List Bytes → List (Bytes × Bytes)
  | key :: value :: rest => (key, value) :: buffer_pairs rest
  | _ => []

/-- `bufferList.push(k); bufferList.push(v);` for each pair. -/
def push_pairs (pairs : List (Bytes × Bytes)) : List Bytes := pairs.flatMap fun p => [p.1, p.2]

/-- The `bufferList` of `cmpUpdateRaw`. -/
def cmpupdate_buffers (assertions writes : List (Bytes × Bytes)) : List Bytes :=
  push_pairs assertions ++ push_pairs writes

/-- The key and the value are within their size limits. -/
def within_limits (p : Bytes × Bytes) : Prop := p.1.length ≤ MAX_KV_KEY_SIZE ∧ p.2.length ≤ MAX_KV_VALUE_SIZE

instance (p : Bytes × Bytes) : Decidable (within_limits p) := inferInstanceAs (Decidable (_ ∧ _))

/-- The buffers begin with `n` pairs that are within the limits. -/
def Readable (n : ℕ) (buffers : List Bytes) : Prop :=
  n ≤ (buffer_pairs buffers).length ∧ ∀ p ∈ (buffer_pairs buffers).take n, within_limits p

theorem buffer_pairs_push (pairs : List (Bytes × Bytes)) (rest : List Bytes) :
    buffer_pairs (push_pairs pairs ++ rest) = pairs ++ buffer_pairs rest := by
  induction pairs with
  | nil => rfl
  | cons p pairs ih => exact congrArg (List.cons p) ih

/-- What `cmpUpdateRaw` pushes is what it was given. -/
theorem buffer_pairs_cmpupdate (assertions writes : List (Bytes × Bytes)) :
    buffer_pairs (cmpupdate_buffers assertions writes) = assertions ++ writes := by
  have hwrites : buffer_pairs (push_pairs writes) = writes := by
    simpa [buffer_pairs] using buffer_pairs_push writes []
  rw [cmpupdate_buffers, buffer_pairs_push, hwrites]

theorem length_push_pairs (pairs : List (Bytes × Bytes)) : (push_pairs pairs).length = 2 * pairs.length := by
  induction pairs with
  | nil => rfl
  | cons p pairs ih =>
      rw [push_pairs, List.flatMap_cons, List.length_append, ← push_pairs, ih, List.length_cons]
      show 2 + 2 * pairs.length = 2 * (pairs.length + 1)
      omega

/-! ## The loop over the buffers -/

/-- The call ends in an error, or in an answer that is an error of the user. -/
def Stop.IsError : Stop → Prop
  | .fail _ => True
  | .reply r => ∃ text, r = mk_user_error text

section Loop

variable {buffers : List Bytes} {index max : ℕ} {missing too_large : String}

theorem read_buffer_ok {b : Bytes} (hb : buffers[index]? = some b) (hlen : b.length ≤ max) :
    read_buffer buffers index max missing too_large = .ok b := by
  rw [read_buffer, hb]
  exact if_pos hlen

theorem read_buffer_too_large {b : Bytes} (hb : buffers[index]? = some b) (hlen : ¬ b.length ≤ max) :
    read_buffer buffers index max missing too_large = .error (.reply (mk_user_error too_large)) := by
  rw [read_buffer, hb]
  exact if_neg hlen

theorem read_buffer_missing (hb : buffers[index]? = none) :
    read_buffer buffers index max missing too_large = .error (.fail (.Other missing)) := by
  rw [read_buffer, hb]

/-- The buffers from `index` on, one by one. -/
theorem getElem_of_drop {rest : List Bytes} (h : buffers.drop index = rest) (j : ℕ) :
    buffers[index + j]? = rest[j]? := by
  rw [← h, List.getElem?_drop]

variable {num_assertions : UInt32} {rounds i : ℕ} {assertions writes : List (Bytes × Bytes)}

/-- A round that finds a pair. -/
theorem read_pairs_round {key value : Bytes} {rest : List Bytes} (h : buffers.drop index = key :: value :: rest)
    (hlimits : within_limits (key, value)) :
    read_pairs buffers num_assertions (rounds + 1) i index assertions writes
      = if i < num_assertions.toNat then
          read_pairs buffers num_assertions rounds (i + 1) (index + 2) (assertions ++ [(key, value)]) writes
        else read_pairs buffers num_assertions rounds (i + 1) (index + 2) assertions (writes ++ [(key, value)]) := by
  have hkey : buffers[index]? = some key := getElem_of_drop h 0
  have hvalue : buffers[index + 1]? = some value := getElem_of_drop h 1
  rw [read_pairs, read_buffer_ok hkey hlimits.1, read_buffer_ok hvalue hlimits.2]
  rfl

theorem drop_two {key value : Bytes} {rest : List Bytes} (h : buffers.drop index = key :: value :: rest) :
    buffers.drop (index + 2) = rest := by
  rw [← List.drop_drop, h]
  rfl

/-- When all pairs are there, the first `num_assertions` of them are the
assertions and the others the writes. -/
theorem read_pairs_ok {rest : List Bytes} (hrest : buffers.drop index = rest) (h : Readable rounds rest) :
    read_pairs buffers num_assertions rounds i index assertions writes
      = .ok (assertions ++ ((buffer_pairs rest).take rounds).take (num_assertions.toNat - i),
          writes ++ ((buffer_pairs rest).take rounds).drop (num_assertions.toNat - i)) := by
  -- one pair for each round, first into the one list and then into the other
  induction rounds generalizing i index assertions writes rest with
  | zero => simp [read_pairs]
  | succ rounds ih =>
      obtain ⟨hlen, hlimits⟩ := h
      match rest with
      | [] | [_] => exact absurd hlen (Nat.not_succ_le_zero _)
      | key :: value :: rest =>
        simp only [buffer_pairs, List.length_cons, List.take_succ_cons, List.forall_mem_cons] at hlen hlimits ⊢
        have hnext : Readable rounds rest := ⟨by omega, hlimits.2⟩
        rw [read_pairs_round hrest hlimits.1]
        split
        · rename_i hlt
          obtain ⟨n, hn⟩ : ∃ n, num_assertions.toNat - i = n + 1 := ⟨num_assertions.toNat - (i + 1), by omega⟩
          have hn' : num_assertions.toNat - (i + 1) = n := by omega
          rw [ih (drop_two hrest) hnext, hn, hn', List.take_succ_cons, List.drop_succ_cons, List.append_assoc]
          rfl
        · rename_i hge
          have hn : num_assertions.toNat - i = 0 := by omega
          have hn' : num_assertions.toNat - (i + 1) = 0 := by omega
          rw [ih (drop_two hrest) hnext, hn, hn', List.append_assoc]
          rfl

/-- When a pair is missing or too large, the call stops. -/
theorem read_pairs_error {rest : List Bytes} (hrest : buffers.drop index = rest) (h : ¬ Readable rounds rest) :
    ∃ stop, read_pairs buffers num_assertions rounds i index assertions writes = .error stop ∧ stop.IsError := by
  -- the first round that cannot read its pair ends the loop
  induction rounds generalizing i index assertions writes rest with
  | zero => exact absurd ⟨Nat.zero_le _, fun _ hp => nomatch hp⟩ h
  | succ rounds ih =>
      have hkey : buffers[index]? = rest[0]? := getElem_of_drop hrest 0
      have hvalue : buffers[index + 1]? = rest[1]? := getElem_of_drop hrest 1
      match rest with
      | [] =>
        rw [read_pairs, read_buffer_missing hkey]
        exact ⟨_, rfl, trivial⟩
      | key :: rest =>
        by_cases hfits : key.length ≤ MAX_KV_KEY_SIZE
        · rw [read_pairs, read_buffer_ok hkey hfits]
          match rest with
          | [] =>
            rw [read_buffer_missing hvalue]
            exact ⟨_, rfl, trivial⟩
          | value :: rest =>
            by_cases hfits' : value.length ≤ MAX_KV_VALUE_SIZE
            · have hnext : ¬ Readable rounds rest := by
                rintro ⟨hlen, hlimits⟩
                refine h ⟨Nat.succ_le_succ hlen, ?_⟩
                rw [buffer_pairs, List.take_succ_cons, List.forall_mem_cons]
                exact ⟨⟨hfits, hfits'⟩, hlimits⟩
              rw [read_buffer_ok hvalue hfits']
              dsimp only [bind, Except.bind]
              split
              · exact ih (drop_two hrest) hnext
              · exact ih (drop_two hrest) hnext
            · rw [read_buffer_too_large hvalue hfits']
              exact ⟨_, rfl, _, rfl⟩
        · rw [read_pairs, read_buffer_too_large hkey hfits]
          exact ⟨_, rfl, _, rfl⟩

end Loop

/-! ## The call -/

/-- The arguments of a `KvCmpUpdate`, as `handle_task` collects them. -/
def cmpupdate_call (conf : WorkerConfiguration) (ns : String) (num_assertions num_writes : UInt32)
    (ttl_ms : UInt64) (buffers : List Bytes) : Except Stop KvOp := do
  let nsid ← namespace_id conf ns
  let (assertions, writes) ← read_pairs buffers num_assertions (num_assertions + num_writes).toNat 0 0 [] []
  return .cmpupdate nsid assertions writes ttl_ms

/-- The call ends in an error, or it is the `worker_data_cmpupdate` of the first
`num_assertions` pairs and of the `num_writes` pairs after them. -/
def Faithful (nsid : String) (num_assertions num_writes : UInt32) (ttl_ms : UInt64) (buffers : List Bytes) :
    Except Stop KvOp → Prop
  | .error stop => stop.IsError
  | .ok op =>
    num_assertions.toNat + num_writes.toNat ≤ (buffer_pairs buffers).length
    ∧ op = .cmpupdate nsid ((buffer_pairs buffers).take num_assertions.toNat)
        (((buffer_pairs buffers).drop num_assertions.toNat).take num_writes.toNat) ttl_ms

section Call

variable {conf : WorkerConfiguration} {ns nsid : String} {num_assertions num_writes : UInt32} {ttl_ms : UInt64}
  {buffers : List Bytes}

theorem handle_task_cmpupdate {coll : Collation} (t : AppKv coll) (env : TaskEnv) :
    handle_task t conf ⟨.KvCmpUpdate ns num_assertions num_writes ttl_ms, buffers⟩ env
      = run_kv t env (cmpupdate_call conf ns num_assertions num_writes ttl_ms buffers) := rfl

theorem cmpupdate_call_ok (hns : conf.kv_namespaces.lookup ns = some nsid)
    (h : Readable (num_assertions + num_writes).toNat buffers) :
    cmpupdate_call conf ns num_assertions num_writes ttl_ms buffers
      = .ok (.cmpupdate nsid
          (((buffer_pairs buffers).take (num_assertions + num_writes).toNat).take num_assertions.toNat)
          (((buffer_pairs buffers).take (num_assertions + num_writes).toNat).drop num_assertions.toNat) ttl_ms) := by
  rw [cmpupdate_call, namespace_id, hns, read_pairs_ok List.drop_zero h]
  rfl

theorem cmpupdate_call_error (hns : conf.kv_namespaces.lookup ns = some nsid)
    (h : ¬ Readable (num_assertions + num_writes).toNat buffers) :
    ∃ stop, cmpupdate_call conf ns num_assertions num_writes ttl_ms buffers = .error stop ∧ stop.IsError := by
  obtain ⟨stop, hstop, herror⟩ : ∃ stop, read_pairs buffers num_assertions
      (num_assertions + num_writes).toNat 0 0 [] [] = .error stop ∧ stop.IsError := read_pairs_error List.drop_zero h
  refine ⟨stop, ?_, herror⟩
  rw [cmpupdate_call, namespace_id, hns, hstop]
  rfl

theorem faithful_of_error {call : Except Stop KvOp} (h : ∃ stop, call = .error stop ∧ stop.IsError) :
    Faithful nsid num_assertions num_writes ttl_ms buffers call := by
  obtain ⟨stop, rfl, herror⟩ := h
  exact herror

theorem sum_toNat (hsum : num_assertions.toNat + num_writes.toNat < 2 ^ 32) :
    (num_assertions + num_writes).toNat = num_assertions.toNat + num_writes.toNat := by
  rw [UInt32.toNat_add]
  exact Nat.mod_eq_of_lt hsum

/-- Without a wrap the loop takes as many pairs as the call declares. -/
theorem cmpupdate_call_no_wrap (hns : conf.kv_namespaces.lookup ns = some nsid)
    (hsum : num_assertions.toNat + num_writes.toNat < 2 ^ 32)
    (h : Readable (num_assertions.toNat + num_writes.toNat) buffers) :
    cmpupdate_call conf ns num_assertions num_writes ttl_ms buffers
      = .ok (.cmpupdate nsid ((buffer_pairs buffers).take num_assertions.toNat)
          (((buffer_pairs buffers).drop num_assertions.toNat).take num_writes.toNat) ttl_ms) := by
  have hadd := sum_toNat hsum
  rw [cmpupdate_call_ok hns (hadd ▸ h), hadd, List.take_take, List.drop_take,
    Nat.min_eq_left (Nat.le_add_right _ _), Nat.add_sub_cancel_left]

/-- With a wrap the loop takes fewer pairs than there are assertions to take. -/
theorem wrap_lt (hsum : 2 ^ 32 ≤ num_assertions.toNat + num_writes.toNat) :
    (num_assertions + num_writes).toNat < num_assertions.toNat := by
  have hassertions : num_assertions.toNat < 2 ^ 32 := num_assertions.toNat_lt
  have hwrites : num_writes.toNat < 2 ^ 32 := num_writes.toNat_lt
  rw [UInt32.toNat_add]
  omega

theorem faithful_iff (hns : conf.kv_namespaces.lookup ns = some nsid) :
    Faithful nsid num_assertions num_writes ttl_ms buffers
        (cmpupdate_call conf ns num_assertions num_writes ttl_ms buffers)
      ↔ num_assertions.toNat + num_writes.toNat < 2 ^ 32
        ∨ ¬ Readable (num_assertions + num_writes).toNat buffers := by
  constructor
  · intro hfaithful
    by_contra hboth
    push Not at hboth
    obtain ⟨hsum, hreadable⟩ := hboth
    have hlt := wrap_lt hsum
    rw [cmpupdate_call_ok hns hreadable] at hfaithful
    obtain ⟨hlen, hop⟩ := hfaithful
    -- the assertions of the call are too few
    have hassertions := congrArg List.length (KvOp.cmpupdate.inj hop).2.1
    simp only [List.length_take] at hassertions
    omega
  · intro hcond
    by_cases hreadable : Readable (num_assertions + num_writes).toNat buffers
    · have hsum := hcond.resolve_right (not_not.2 hreadable)
      rw [sum_toNat hsum] at hreadable
      rw [cmpupdate_call_no_wrap hns hsum hreadable]
      exact ⟨hreadable.1, rfl⟩
    · exact faithful_of_error (cmpupdate_call_error hns hreadable)

/-- What `cmpUpdateRaw` sends, when it is within the limits and the 256 buffers of
a call, is decoded as it was given. -/
theorem cmpupdate_round_trip (hns : conf.kv_namespaces.lookup ns = some nsid)
    {assertions writes : List (Bytes × Bytes)} (hlimits : ∀ p ∈ assertions ++ writes, within_limits p)
    (hcount : (cmpupdate_buffers assertions writes).length ≤ 256) :
    cmpupdate_call conf ns (UInt32.ofNat assertions.length) (UInt32.ofNat writes.length) ttl_ms
        (cmpupdate_buffers assertions writes)
      = .ok (.cmpupdate nsid assertions writes ttl_ms) := by
  rw [cmpupdate_buffers, List.length_append, length_push_pairs, length_push_pairs] at hcount
  have hassertions : (UInt32.ofNat assertions.length).toNat = assertions.length :=
    UInt32.toNat_ofNat_of_lt' (by show assertions.length < 2 ^ 32; omega)
  have hwrites : (UInt32.ofNat writes.length).toNat = writes.length :=
    UInt32.toNat_ofNat_of_lt' (by show writes.length < 2 ^ 32; omega)
  have hreadable : Readable (assertions.length + writes.length) (cmpupdate_buffers assertions writes) := by
    refine ⟨?_, fun p hp => ?_⟩
    · rw [buffer_pairs_cmpupdate, List.length_append]
    · rw [buffer_pairs_cmpupdate] at hp
      exact hlimits p (List.mem_of_mem_take hp)
  rw [cmpupdate_call_no_wrap hns (by omega) (by rw [hassertions, hwrites]; exact hreadable), hassertions, hwrites,
    buffer_pairs_cmpupdate, List.take_left, List.drop_left, List.take_length]

end Call

/-- **When a `KvCmpUpdate` is decoded faithfully.** For a namespace that the
worker has, all counts and all buffers: the call ends in an error of the host or
of the user, or is the `worker_data_cmpupdate` of exactly the pairs that it
declares, if and only if the sum of its counts does not wrap, or the pairs that
the wrapped sum asks for are not all there within their limits. What
`cmpUpdateRaw` sends is always decoded as it was given. -/
theorem cmpupdate_faithful_iff (conf : WorkerConfiguration) (ns nsid : String)
    (hns : conf.kv_namespaces.lookup ns = some nsid) (ttl_ms : UInt64) :
    (∀ (num_assertions num_writes : UInt32) (buffers : List Bytes),
      (∀ (coll : Collation) (t : AppKv coll) (env : TaskEnv),
        handle_task t conf ⟨.KvCmpUpdate ns num_assertions num_writes ttl_ms, buffers⟩ env
          = run_kv t env (cmpupdate_call conf ns num_assertions num_writes ttl_ms buffers))
      ∧ (Faithful nsid num_assertions num_writes ttl_ms buffers
            (cmpupdate_call conf ns num_assertions num_writes ttl_ms buffers)
          ↔ num_assertions.toNat + num_writes.toNat < 2 ^ 32
            ∨ ¬ Readable (num_assertions + num_writes).toNat buffers))
    ∧ ∀ assertions writes : List (Bytes × Bytes), (∀ p ∈ assertions ++ writes, within_limits p) →
        (cmpupdate_buffers assertions writes).length ≤ 256 →
        cmpupdate_call conf ns (UInt32.ofNat assertions.length) (UInt32.ofNat writes.length) ttl_ms
            (cmpupdate_buffers assertions writes)
          = .ok (.cmpupdate nsid assertions writes ttl_ms) :=
  ⟨fun _ _ _ => ⟨fun _ t env => handle_task_cmpupdate t env, faithful_iff hns⟩,
    fun _ _ hlimits hcount => cmpupdate_round_trip hns hlimits hcount⟩

/-- A worker with one namespace. -/
def one_namespace : WorkerConfiguration := ⟨⟨16, 100, 10, 50⟩, [], [("kv", "nsid")]⟩

/-- Counts that wrap to nothing: the call succeeds, and has checked and written
nothing. -/
theorem cmpupdate_wraps :
    (handle_task (AppKv.empty : AppKv .binary) one_namespace ⟨.KvCmpUpdate "kv" 4294967295 1 0, []⟩ .quiet).1
        = .ok ⟨.user_ok true, []⟩
    ∧ ¬ Faithful "nsid" 4294967295 1 0 [] (cmpupdate_call one_namespace "kv" 4294967295 1 0 []) :=
  ⟨rfl, fun h => absurd h.1 (by decide)⟩

theorem cmpupdate_faithful_one_namespace :
    cmpupdate_call one_namespace "kv" 1 1 0 (cmpupdate_buffers [([1], [2])] [([3], [4])])
      = .ok (.cmpupdate "nsid" [([1], [2])] [([3], [4])] 0) :=
  (cmpupdate_faithful_iff one_namespace "kv" "nsid" rfl 0).2 [([1], [2])] [([3], [4])] (by decide) (by decide)

end RustyWorkers

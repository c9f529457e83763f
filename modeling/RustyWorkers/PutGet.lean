/-
A `KvPut` and the `KvGet` that comes after it.

The key and the value of a put meet two layers of limits: `MAX_KV_KEY_SIZE` and
`MAX_KV_VALUE_SIZE` in `handle_task` (`rusty-workers-runtime/src/io.rs`), and the
columns of the table (`sql/migration_000001/appkv.sql`), where a key has half the
room. Between the put and the get anything may happen that does not write the
key: `KvOp.writes` says what a call of the database writes, and `row_at_perform`
that it leaves every other row alone.
-/
import RustyWorkers.HandleTask

set_option autoImplicit false

namespace RustyWorkers

open Lib

variable {coll : Collation}

/-! ## What a call writes -/

/-- A namespace and a key are one primary key with others. -/
def same_key (coll : Collation) (p q : String × Bytes) : Bool := coll.eq p.1 q.1 && p.2 == q.2

/-- The call writes the row of this key, or deletes it. -/
def KvOp.writes (coll : Collation) (q : String × Bytes) : KvOp → Bool
  | .put nsid key _ _ _ | .delete nsid key => same_key coll q (nsid, key)
  | .cmpupdate nsid _ writes _ => writes.any fun p => same_key coll q (nsid, p.1)
  | .get _ _ | .scan_keys _ _ _ _ _ => false

section Frames

variable {t t' : AppKv coll} {q : String × Bytes}

theorem row_at_insert_other {new : Row} (h : t.insert_on_duplicate new = .ok t')
    (hq : same_key coll q (new.nsid, new.appkey) = false) : t'.row_at q.1 q.2 = t.row_at q.1 q.2 := by
  rw [AppKv.row_at_insert h, if_neg]
  exact Bool.eq_false_iff.1 hq

theorem row_at_delete_other {nsid : String} {key : Bytes} (hq : same_key coll q (nsid, key) = false) :
    (t.delete nsid key).row_at q.1 q.2 = t.row_at q.1 q.2 := by
  rw [AppKv.row_at_delete]
  cases hr : t.row_at q.1 q.2 with
  | none => rfl
  | some r =>
      obtain ⟨-, hns, hkey⟩ := AppKv.row_at_mem hr
      have hmiss : (appkv_key coll).hit (nsid, key) r = false := by
        by_contra hhit
        rw [Bool.not_eq_false, appkv_key, Bool.and_eq_true, beq_iff_eq] at hhit
        -- the deleted row has the key of `q`
        have hsame : same_key coll q (nsid, key) = true := by
          rw [same_key, Bool.and_eq_true, beq_iff_eq]
          exact ⟨coll.trans hns (coll.symm hhit.1), hkey.symm.trans hhit.2.symm⟩
        rw [hq] at hsame
        cases hsame
      rw [Option.filter_some, hmiss]
      rfl

theorem row_at_replace_other {new : Row} {now : UInt64} (h : t.replace_where_not_exists new now = .ok t')
    (hq : same_key coll q (new.nsid, new.appkey) = false) : t'.row_at q.1 q.2 = t.row_at q.1 q.2 := by
  rw [AppKv.replace_eq] at h
  split at h
  · rw [Except.ok.inj h]
  · rw [row_at_insert_other h hq, row_at_delete_other hq]

theorem row_at_exec_batch_other {rows : List Row} (h : exec_batch t rows = .ok t')
    (hq : ∀ r ∈ rows, same_key coll q (r.nsid, r.appkey) = false) : t'.row_at q.1 q.2 = t.row_at q.1 q.2 := by
  induction rows generalizing t with
  | nil => rw [Except.ok.inj h]
  | cons r rows ih =>
      rw [exec_batch_cons] at h
      cases hinsert : t.insert_on_duplicate r with
      | error e =>
          rw [hinsert] at h
          cases h
      | ok t₁ =>
          rw [hinsert] at h
          rw [ih h fun x hx => hq x (List.mem_cons_of_mem _ hx), row_at_insert_other hinsert (hq r List.mem_cons_self)]

theorem row_at_run_stmt {x : Except SqlError (AppKv coll)}
    (hx : ∀ t', x = .ok t' → t'.row_at q.1 q.2 = t.row_at q.1 q.2) :
    (run_stmt t x).2.row_at q.1 q.2 = t.row_at q.1 q.2 := by
  cases x with
  | ok t' => exact hx t' rfl
  | error e => rfl

/-- **The frame of a call.** It leaves every row alone that it does not write. -/
theorem row_at_perform (t : AppKv coll) {op : KvOp} (hq : op.writes coll q = false) (env : TaskEnv) :
    (perform t op env).2.row_at q.1 q.2 = t.row_at q.1 q.2 := by
  cases op with
  | get nsid key | scan_keys nsid start stop limit server => rfl
  | delete nsid key => exact row_at_delete_other hq
  | put nsid key value if_not_exists ttl_ms =>
      simp only [perform, worker_data_put]
      cases expiration env.now ttl_ms with
      | error e => rfl
      | ok exp =>
          cases if_not_exists with
          | false => exact row_at_run_stmt fun t' h => row_at_insert_other h hq
          | true => exact row_at_run_stmt fun t' h => row_at_replace_other h hq
  | cmpupdate nsid assertions writes ttl_ms =>
      simp only [perform, worker_data_cmpupdate]
      cases expiration env.now ttl_ms with
      | error e => rfl
      | ok exp =>
          dsimp only
          split
          · cases hb : exec_batch t (writes.map fun kv => kv_row nsid kv.1 kv.2 exp) with
            | error e => rfl
            | ok t' =>
                refine row_at_exec_batch_other hb fun r hr => ?_
                obtain ⟨kv, hkv, rfl⟩ := List.mem_map.1 hr
                exact Bool.eq_false_iff.2 (List.any_eq_false.1 hq kv hkv)
          · rfl

/-- The table after a list of calls, each with what it meets. -/
def perform_all (t : AppKv coll) (ops : List (KvOp × TaskEnv)) : AppKv coll :=
  ops.foldl (fun t o => (perform t o.1 o.2).2) t

theorem row_at_perform_all {ops : List (KvOp × TaskEnv)} (hops : ∀ o ∈ ops, o.1.writes coll q = false) :
    (perform_all t ops).row_at q.1 q.2 = t.row_at q.1 q.2 := by
  -- induction on the calls: none of them writes the row
  induction ops generalizing t with
  | nil => rfl
  | cons o ops ih =>
      have hrest := ih (t := (perform t o.1 o.2).2) fun o' ho' => hops o' (List.mem_cons_of_mem _ ho')
      exact hrest.trans (row_at_perform t (hops o List.mem_cons_self) o.2)

end Frames

/-! ## The put -/

/-- The live row that a put with `if_not_exists` leaves as it is. -/
def kept (t : AppKv coll) (nsid : String) (key : Bytes) (if_not_exists : Bool) (now : UInt64) : Option Row :=
  if if_not_exists then t.live_at nsid key now else none

section Put

variable {t : AppKv coll} {nsid : String} {key value : Bytes} {if_not_exists : Bool} {env : TaskEnv}

theorem fits_kv_row_iff (hvalue : value.length ≤ MAX_KV_VALUE_SIZE) :
    (kv_row nsid key value 0).fits = true ↔ nsid.length ≤ 64 ∧ key.length ≤ 1024 := by
  have hsize : value.length < 2 ^ 32 := by
    rw [MAX_KV_VALUE_SIZE] at hvalue
    omega
  simp only [Row.fits, kv_row, Bool.and_eq_true]
  exact ⟨fun h => ⟨of_decide_eq_true h.1.1.1, of_decide_eq_true h.1.1.2⟩,
    fun h => ⟨⟨⟨decide_eq_true h.1, decide_eq_true h.2⟩, decide_eq_true hsize⟩, rfl⟩⟩

theorem put_kept {r : Row} (h : kept t nsid key if_not_exists env.currenttime = some r) :
    perform t (.put nsid key value if_not_exists 0) env = (.ok ⟨.user_ok_unit, []⟩, t) := by
  unfold kept at h
  split at h
  · rename_i hine
    have hlive : (t.live_at nsid key env.currenttime).isSome = true := by rw [h]; rfl
    have hreplace : t.replace_where_not_exists (kv_row nsid key value 0) env.currenttime = .ok t := by
      rw [AppKv.replace_eq]
      exact if_pos hlive
    rw [hine, perform, worker_data_put]
    simp only [expiration, ne_eq, not_true_eq_false, if_false, if_true, hreplace]
    rfl
  · cases h

/-- What a put that does not find a row to keep makes of the table. -/
theorem put_insert (value : Bytes) (h : kept t nsid key if_not_exists env.currenttime = none) :
    ∃ t₀ : AppKv coll, perform t (.put nsid key value if_not_exists 0) env
      = (run_stmt t (t₀.insert_on_duplicate (kv_row nsid key value 0))).map (·.map fun _ => ⟨.user_ok_unit, []⟩) id := by
  unfold kept at h
  split at h
  · rename_i hine
    have hreplace : t.replace_where_not_exists (kv_row nsid key value 0) env.currenttime
        = (t.delete nsid key).insert_on_duplicate (kv_row nsid key value 0) := by
      rw [AppKv.replace_eq]
      exact if_neg fun hlive => by
        rw [show t.live_at (kv_row nsid key value 0).nsid (kv_row nsid key value 0).appkey env.currenttime = none from h]
          at hlive
        cases hlive
    refine ⟨t.delete nsid key, ?_⟩
    rw [hine, perform, worker_data_put]
    simp only [expiration, ne_eq, not_true_eq_false, if_false, if_true, hreplace]
  · rename_i hine
    refine ⟨t, ?_⟩
    rw [Bool.eq_false_iff.2 hine, perform, worker_data_put]
    simp only [expiration, ne_eq, not_true_eq_false, if_false, Bool.false_eq_true]

/-- The row that an insert leaves has the value, and never expires. -/
theorem row_at_inserted {t₀ t' : AppKv coll} (h : t₀.insert_on_duplicate (kv_row nsid key value 0) = .ok t') :
    ∃ r, t'.row_at nsid key = some r ∧ r.appvalue = value ∧ r.appexpiration = 0 := by
  have hrow := AppKv.row_at_insert h nsid key
  rw [if_pos (show (appkv_key coll).hit (nsid, key) (kv_row nsid key value 0) = true by
    simp [appkv_key, kv_row, coll.refl])] at hrow
  cases hold : t₀.row_at nsid key with
  | none =>
      rw [hold] at hrow
      exact ⟨_, hrow, rfl, rfl⟩
  | some r =>
      rw [hold] at hrow
      exact ⟨_, hrow, rfl, rfl⟩

theorem put_stored (h : kept t nsid key if_not_exists env.currenttime = none)
    (hfits : (kv_row nsid key value 0).fits = true) :
    ∃ (t' : AppKv coll) (r : Row),
      perform t (.put nsid key value if_not_exists 0) env = (.ok ⟨.user_ok_unit, []⟩, t')
      ∧ t'.row_at nsid key = some r ∧ r.appvalue = value ∧ r.appexpiration = 0 := by
  obtain ⟨t₀, hput⟩ := put_insert value h
  obtain ⟨t', ht'⟩ := (AppKv.insert_ok_iff t₀ _).2 hfits
  obtain ⟨r, hr, hvalue, hexp⟩ := row_at_inserted ht'
  refine ⟨t', r, ?_, hr, hvalue, hexp⟩
  rw [hput, ht']
  rfl

theorem put_refused (h : kept t nsid key if_not_exists env.currenttime = none)
    (hfits : (kv_row nsid key value 0).fits = false) :
    (perform t (.put nsid key value if_not_exists 0) env).1 = .error (sql_error .dataTooLong) := by
  obtain ⟨t₀, hput⟩ := put_insert value h
  rw [hput, AppKv.insert_of_not_fits t₀ hfits]
  rfl

end Put

/-! ## The get -/

section Get

variable {t : AppKv coll} {conf : WorkerConfiguration} {ns nsid : String} {key value : Bytes} {env : TaskEnv}

theorem handle_put (hns : conf.kv_namespaces.lookup ns = some nsid) (hkey : key.length ≤ MAX_KV_KEY_SIZE)
    (hvalue : value.length ≤ MAX_KV_VALUE_SIZE) (if_not_exists : Bool) (ttl_ms : UInt64) :
    handle_task t conf ⟨.KvPut ns if_not_exists ttl_ms, [key, value]⟩ env
      = perform t (.put nsid key value if_not_exists ttl_ms) env := by
  have hread : read_buffer [key, value] 0 MAX_KV_KEY_SIZE "missing key" "key too large" = .ok key := if_pos hkey
  have hread' : read_buffer [key, value] 1 MAX_KV_VALUE_SIZE "missing value" "value too large" = .ok value :=
    if_pos hvalue
  simp only [handle_task, hread, hread', namespace_id, hns]
  rfl

theorem handle_get (hns : conf.kv_namespaces.lookup ns = some nsid) (hkey : key.length ≤ MAX_KV_KEY_SIZE) :
    handle_task t conf ⟨.KvGet ns, [key]⟩ env = perform t (.get nsid key) env := by
  have hread : read_buffer [key] 0 MAX_KV_KEY_SIZE "missing key" "key too large" = .ok key := if_pos hkey
  simp only [handle_task, hread, namespace_id, hns]
  rfl

theorem allocate_ok_iff {b c : Bytes} :
    allocate_with_data env b = .ok c ↔ env.allocate_arraybuffer b.length = .ok () ∧ b = c := by
  unfold allocate_with_data
  split
  · rename_i halloc
    exact ⟨fun h => ⟨halloc, Except.ok.inj h⟩, fun h => congrArg Except.ok h.2⟩
  · rename_i halloc
    rw [halloc]
    exact ⟨(fun h => nomatch h), fun h => nomatch h.1⟩

theorem perform_get :
    (perform t (.get nsid key) env).1
      = match t.live_at nsid key env.now with
        | some r => (allocate_with_data env r.appvalue).map fun b => ⟨.user_ok true, [b]⟩
        | none => .ok ⟨.user_ok false, []⟩ := by
  simp only [perform, worker_data_get, AppKv.select_value_eq]
  cases t.live_at nsid key env.now with
  | none => rfl
  | some r =>
      have hmap : ∀ x : Except GenericError Bytes,
          (x >>= fun b => pure (⟨.user_ok true, [b]⟩ : Reply)) = x.map fun b => ⟨.user_ok true, [b]⟩ := by
        intro x
        cases x <;> rfl
      exact hmap _

/-- A get answers with a value when the row of the key is live and has it, and
the isolate has room for it. -/
theorem get_iff :
    (perform t (.get nsid key) env).1 = .ok ⟨.user_ok true, [value]⟩
      ↔ ∃ r, t.row_at nsid key = some r ∧ r.live env.now = true ∧ r.appvalue = value
        ∧ env.allocate_arraybuffer value.length = .ok () := by
  rw [perform_get]
  cases hlive : t.live_at nsid key env.now with
  | none =>
      refine ⟨(fun h => nomatch h), ?_⟩
      rintro ⟨r, hr, hl, -⟩
      rw [AppKv.live_at, hr, Option.filter_some, hl] at hlive
      cases hlive
  | some r =>
      obtain ⟨hr, hl⟩ := Option.filter_eq_some_iff.1 hlive
      dsimp only
      constructor
      · intro h
        cases halloc : allocate_with_data env r.appvalue with
        | error e =>
            rw [halloc] at h
            cases h
        | ok b =>
            rw [halloc] at h
            obtain ⟨hroom, hb⟩ := allocate_ok_iff.1 halloc
            have hvalue : b = value := List.head_eq_of_cons_eq (Reply.mk.inj (Except.ok.inj h)).2
            exact ⟨r, hr, hl, hb.trans hvalue, hb.trans hvalue ▸ hroom⟩
      · rintro ⟨r', hr', -, rfl, hroom⟩
        obtain rfl := Option.some.inj (hr.symm.trans hr')
        rw [allocate_ok_iff.2 ⟨hroom, rfl⟩]
        rfl

end Get

/-! ## The round trip -/

/-- The put stores the value, or leaves a row that has it; and the answer of the
get finds room in the isolate. -/
def Storable (t : AppKv coll) (nsid : String) (key value : Bytes) (if_not_exists : Bool) (env env' : TaskEnv) : Prop :=
  (match kept t nsid key if_not_exists env.currenttime with
    | some r => r.appvalue = value ∧ r.live env'.now = true
    | none => nsid.length ≤ 64 ∧ key.length ≤ 1024)
  ∧ env'.allocate_arraybuffer value.length = .ok ()

/-- **When a value can be stored and read back.** For every table, every namespace
that the worker has, and every key and value that `handle_task` accepts: a put
without a time to live succeeds, and a get of its key, with anything in between
that does not write this key, answers with the value, and no other key is
affected, if and only if the namespace has at most 64 characters and the key at
most 1024 bytes (or there is a live row that `if_not_exists` leaves, with this
value), and the isolate has room for the answer. -/
theorem put_get_iff (t : AppKv coll) (conf : WorkerConfiguration) (ns nsid : String)
    (hns : conf.kv_namespaces.lookup ns = some nsid) (key value : Bytes) (hkey : key.length ≤ MAX_KV_KEY_SIZE)
    (hvalue : value.length ≤ MAX_KV_VALUE_SIZE) (if_not_exists : Bool) (env env' : TaskEnv)
    (between : List (KvOp × TaskEnv)) (hbetween : ∀ o ∈ between, o.1.writes coll (nsid, key) = false) :
    ((handle_task t conf ⟨.KvPut ns if_not_exists 0, [key, value]⟩ env).1 = .ok ⟨.user_ok_unit, []⟩
      ∧ (handle_task
          (perform_all (handle_task t conf ⟨.KvPut ns if_not_exists 0, [key, value]⟩ env).2 between)
          conf ⟨.KvGet ns, [key]⟩ env').1 = .ok ⟨.user_ok true, [value]⟩
      ∧ ∀ q, same_key coll q (nsid, key) = false →
          (handle_task t conf ⟨.KvPut ns if_not_exists 0, [key, value]⟩ env).2.row_at q.1 q.2 = t.row_at q.1 q.2)
    ↔ Storable t nsid key value if_not_exists env env' := by
  rw [handle_put hns hkey hvalue, handle_get hns hkey, get_iff, row_at_perform_all hbetween]
  have hothers : ∀ q, same_key coll q (nsid, key) = false →
      (perform t (.put nsid key value if_not_exists 0) env).2.row_at q.1 q.2 = t.row_at q.1 q.2 :=
    fun q hq =>
      have hwrites : (KvOp.put nsid key value if_not_exists 0).writes coll q = false := hq
      row_at_perform t hwrites env
  unfold Storable
  cases hkept : kept t nsid key if_not_exists env.currenttime with
  | some r =>
      -- the put changes nothing
      have hrow : t.row_at nsid key = some r := by
        unfold kept at hkept
        split at hkept
        · exact (Option.filter_eq_some_iff.1 hkept).1
        · cases hkept
      rw [put_kept hkept] at hothers ⊢
      constructor
      · rintro ⟨-, ⟨r', hr', hlive, hr'value, halloc⟩, -⟩
        obtain rfl := Option.some.inj (hrow.symm.trans hr')
        exact ⟨⟨hr'value, hlive⟩, halloc⟩
      · rintro ⟨⟨hrvalue, hlive⟩, halloc⟩
        exact ⟨rfl, ⟨r, hrow, hlive, hrvalue, halloc⟩, hothers⟩
  | none =>
      constructor
      · rintro ⟨hput, ⟨r, -, -, -, halloc⟩, -⟩
        refine ⟨(fits_kv_row_iff hvalue).1 ?_, halloc⟩
        by_contra hfits
        rw [put_refused hkept (Bool.eq_false_iff.2 hfits)] at hput
        cases hput
      · rintro ⟨hfits, halloc⟩
        obtain ⟨t', r, hput, hr, hrvalue, hexp⟩ := put_stored hkept ((fits_kv_row_iff hvalue).2 hfits)
        have hlive : r.live env'.now = true := by
          rw [Row.live, hexp]
          rfl
        rw [hput] at hothers ⊢
        exact ⟨rfl, ⟨r, hr, hlive, hrvalue, halloc⟩, hothers⟩

/-- A worker that has a namespace. -/
def kv_worker : WorkerConfiguration := ⟨⟨16, 100, 10, 50⟩, [], [("kv", "nsid")]⟩

theorem put_get_short_key :
    (handle_task (AppKv.empty : AppKv .binary) kv_worker ⟨.KvPut "kv" false 0, [[107], [118]]⟩ .quiet).1
      = .ok ⟨.user_ok_unit, []⟩ :=
  ((put_get_iff (.empty : AppKv .binary) kv_worker "kv" "nsid" rfl [107] [118] (by decide) (by decide) false
    .quiet .quiet [] (fun _ ho => nomatch ho)).2 ⟨⟨by decide, by decide⟩, rfl⟩).1

/-- A key of 1025 bytes is accepted, and cannot be stored. -/
theorem put_long_key :
    ¬ ∀ (coll : Collation) (t : AppKv coll) (conf : WorkerConfiguration) (ns nsid : String) (key value : Bytes),
      conf.kv_namespaces.lookup ns = some nsid → key.length ≤ MAX_KV_KEY_SIZE → value.length ≤ MAX_KV_VALUE_SIZE →
      (handle_task t conf ⟨.KvPut ns false 0, [key, value]⟩ .quiet).1 = .ok ⟨.user_ok_unit, []⟩ := by
  intro h
  have hlen : (List.replicate 1025 (0 : UInt8)).length = 1025 := List.length_replicate
  have hkey : (List.replicate 1025 (0 : UInt8)).length ≤ MAX_KV_KEY_SIZE := by
    rw [hlen, MAX_KV_KEY_SIZE]
    omega
  have hvalue : ([118] : Bytes).length ≤ MAX_KV_VALUE_SIZE := by decide
  have hput := h .binary .empty kv_worker "kv" "nsid" _ [118] rfl hkey hvalue
  have hfits : (kv_row "nsid" (List.replicate 1025 0) [118] 0).fits = false := by
    refine Bool.eq_false_iff.2 fun hfits => ?_
    have hshort := ((fits_kv_row_iff hvalue).1 hfits).2
    omega
  rw [handle_put rfl hkey hvalue, put_refused rfl hfits] at hput
  cases hput

end RustyWorkers

/-
The key-value layer is a map with expiry.

`KvCall.exec` performs one `worker_data_*` call on the table; `KvCall.spec`
performs the call the scripts are promised on an `ExpiringMap` from (namespace,
key) to value and optional expiry, which drops every expired entry before it
looks at anything. The five statements of the code share one visibility rule
and use `0` for "never"; the abstraction `abs` reads both off a row, and
`exec_refines` says that a call on the table is the same call on its
abstraction. Everything else follows from the map library: a moving clock, the
second clock reading of a put, and the fact that expired rows cannot be seen.

A pair that no row of `appkv` can hold (a namespace id over 64 characters, a
key over 1024 bytes, a value of 4 GiB) is refused on both sides.

Namespace ids are compared as strings here (`Collation.binary`), because the keys of
the map are: with a collation that takes two ids for one, a call on the one is seen
under the other, and no map from strings is refined. What is left then of the
isolation of two namespaces, and of a put and the get after it, is in `KvIsolation`
and `PutGet`, which have any collation.
-/
import RustyWorkers.Lib.ExpiringMap
import RustyWorkers.Db

set_option autoImplicit false

namespace RustyWorkers

open Lib ExpiringMap

/-! ## Calls and their results -/

/-- A `worker_data_*` call with its arguments. -/
inductive KvOp where
  | get (namespace_id : String) (key : Bytes)
  | put (namespace_id : String) (key value : Bytes) (if_not_exists : Bool) (ttl_ms : UInt64)
  | delete (namespace_id : String) (key : Bytes)
  | scan_keys (namespace_id : String) (start : Bytes) (stop : Option Bytes) (limit : ℕ)
      (server : RowOrder)
  | cmpupdate (namespace_id : String) (assertions writes : List (Bytes × Bytes)) (ttl_ms : UInt64)

/-- A call with its clock readings; only a put takes the second one. -/
structure KvCall where
  op : KvOp
  now : UInt64
  currenttime : UInt64

/-- What a caller sees. A scan is observed as a set, and only if the limit was
not reached. -/
inductive KvResult where
  | value (v : Option Bytes)
  | done
  | keys (ks : Set Bytes)
  | limit_reached
  | compared (success : Bool)
  | error (e : GenericError)

def KvResult.of_unit : Except GenericError Unit → KvResult
  | .ok () => .done
  | .error e => .error e

def KvResult.of_bool : Except GenericError Bool → KvResult
  | .ok b => .compared b
  | .error e => .error e

def KvResult.of_keys (limit : ℕ) : Except GenericError (List Bytes) → KvResult
  | .ok ks => if ks.length < limit then .keys {k | k ∈ ks} else .limit_reached
  | .error e => .error e

/-- The call, performed by `db.rs` on the table. -/
def KvCall.exec (t : AppKv .binary) (c : KvCall) : KvResult × AppKv .binary :=
  match c.op with
  | .get ns k =>
    match worker_data_get t ns k c.now with
    | .ok v => (.value v, t)
    | .error e => (.error e, t)
  | .put ns k v if_not_exists ttl_ms =>
    (worker_data_put t ns k v if_not_exists ttl_ms c.now c.currenttime).map KvResult.of_unit id
  | .delete ns k => (worker_data_delete t ns k).map KvResult.of_unit id
  | .scan_keys ns start stop limit server =>
    (KvResult.of_keys limit (worker_data_scan_keys t ns start stop limit c.now server), t)
  | .cmpupdate ns assertions writes ttl_ms =>
    (worker_data_cmpupdate t ns assertions writes ttl_ms c.now).map KvResult.of_bool id

/-! ## The abstract map -/

/-- What the layer is for: (namespace, key) to value, with an optional expiry. -/
abbrev KvMap := ExpiringMap (String × Bytes) Bytes UInt64

/-- When a write at `now` expires; a time past the end of the clock is refused. -/
def expiry_of (now ttl_ms : UInt64) : Except GenericError (Option UInt64) :=
  if ttl_ms = 0 then .ok none
  else if now.toNat + ttl_ms.toNat < 2 ^ 64 then .ok (some (now + ttl_ms))
  else .error (.Other "expiration time overflow")

/-- The columns of `appkv` can hold the pair. -/
def storable (namespace_id : String) (key value : Bytes) : Bool :=
  (kv_row namespace_id key value 0).fits

/-- The keys of a namespace that are in the range at `now`. -/
def keys_found (m : KvMap) (namespace_id : String) (start : Bytes) (stop : Option Bytes)
    (now : UInt64) : Set Bytes :=
  {k | AppKv.in_range start stop k = true ∧ (namespace_id, k) ∈ m.dom now}

open Classical in
/-- The call on the map as it stands. -/
noncomputable def KvCall.apply (m : KvMap) (c : KvCall) : KvResult × KvMap :=
  match c.op with
  | .get ns k => (.value (m.get c.now (ns, k)), m)
  | .put ns k v if_not_exists ttl_ms =>
    match expiry_of c.now ttl_ms with
    | .error e => (.error e, m)
    | .ok expiry =>
      if if_not_exists = true ∧ (ns, k) ∈ m.dom c.currenttime then (.done, m)
      else if storable ns k v then (.done, m.set (ns, k) v expiry)
      else (.error (sql_error .dataTooLong), m)
  | .delete ns k => (.done, m.erase (ns, k))
  | .scan_keys ns start stop limit _ =>
    if (keys_found m ns start stop c.now).ncard < limit then
      (.keys (keys_found m ns start stop c.now), m)
    else (.limit_reached, m)
  | .cmpupdate ns assertions writes ttl_ms =>
    match expiry_of c.now ttl_ms with
    | .error e => (.error e, m)
    | .ok expiry =>
      if m.holds_all c.now (assertions.map fun kv => ((ns, kv.1), kv.2)) then
        if ∀ kv ∈ writes, storable ns kv.1 kv.2 = true then
          (.compared true, m.set_all (writes.map fun kv => ((ns, kv.1), kv.2)) expiry)
        else (.error (sql_error .dataTooLong), m)
      else (.compared false, m)

/-- The call on a map in which an expired entry is no entry. -/
noncomputable def KvCall.spec (m : KvMap) (c : KvCall) : KvResult × KvMap := c.apply (m.purge c.now)

/-! ## The map that a table stands for -/

/-- `0` is the sentinel for "never". -/
def expiry (appexpiration : UInt64) : Option UInt64 :=
  if appexpiration = 0 then none else some appexpiration

def entry (r : Row) : Bytes × Option UInt64 := (r.appvalue, expiry r.appexpiration)

def abs (t : AppKv .binary) : KvMap := fun q => (t.row_at q.1 q.2).map entry

/-! ## Statement by statement -/

theorem expiration_eq (now ttl_ms : UInt64) :
    expiry_of now ttl_ms = (expiration now ttl_ms).map expiry := by
  unfold expiry_of expiration checked_add
  by_cases hz : ttl_ms = 0
  · simp [hz, Except.map, expiry]
  · rw [if_neg hz, if_pos hz]
    by_cases hlt : now.toNat + ttl_ms.toNat < 2 ^ 64
    · rw [if_pos hlt, if_pos hlt]
      have hsum : (now + ttl_ms).toNat = now.toNat + ttl_ms.toNat := by
        rw [UInt64.toNat_add, Nat.mod_eq_of_lt hlt]
      have hne : now + ttl_ms ≠ 0 := by
        intro h0
        have hpos : ttl_ms.toNat ≠ 0 := fun h => hz (UInt64.toNat_inj.1 h)
        rw [h0] at hsum
        have : (0 : UInt64).toNat = 0 := rfl
        omega
      simp [Except.map, expiry, hne]
    · rw [if_neg hlt, if_neg hlt]
      rfl

theorem fresh_entry (now : UInt64) (r : Row) : fresh now (entry r) = r.live now := by
  unfold fresh entry expiry Row.live
  by_cases hz : r.appexpiration = 0 <;> simp [hz]

/-- Reading the map is reading the live row. -/
theorem purge_abs (t : AppKv .binary) (now : UInt64) (ns : String) (k : Bytes) :
    (abs t).purge now (ns, k) = (t.live_at ns k now).map entry := by
  unfold purge abs AppKv.live_at
  cases t.row_at ns k with
  | none => rfl
  | some r => cases hl : r.live now <;> simp [Option.filter_some, fresh_entry, hl]

theorem get_abs (t : AppKv .binary) (now : UInt64) (ns : String) (k : Bytes) :
    (abs t).get now (ns, k) = (t.live_at ns k now).map (·.appvalue) := by
  rw [ExpiringMap.get, purge_abs, Option.map_map]
  rfl

theorem mem_dom_abs (t : AppKv .binary) (now : UInt64) (ns : String) (k : Bytes) :
    (ns, k) ∈ (abs t).dom now ↔ (t.live_at ns k now).isSome = true := by
  rw [dom, Set.mem_ofPred_eq, get_abs, Option.isSome_map]

theorem hit_binary (q : String × Bytes) (r : Row) :
    (appkv_key .binary).hit q r = true ↔ q = (r.nsid, r.appkey) := by
  simp [appkv_key, Collation.binary, Prod.ext_iff]

theorem fits_kv_row (ns : String) (k v : Bytes) (e : UInt64) :
    (kv_row ns k v e).fits = storable ns k v := rfl

/-- An insert sets the key, whatever row was there. -/
theorem abs_insert {t t' : AppKv .binary} {ns : String} {k v : Bytes} {e : UInt64}
    (h : t.insert_on_duplicate (kv_row ns k v e) = .ok t') :
    abs t' = (abs t).set (ns, k) v (expiry e) := by
  funext ⟨ns', k'⟩
  unfold abs ExpiringMap.set ExpiringMap.update
  rw [AppKv.row_at_insert h]
  by_cases hk : (ns', k') = (ns, k)
  · rw [if_pos hk, if_pos ((hit_binary _ _).2 hk)]
    cases t.row_at ns' k' <;> rfl
  · rw [if_neg hk, if_neg fun hit => hk ((hit_binary _ _).1 hit)]

/-- A delete removes the row under the key and no other. -/
theorem row_at_delete_binary (t : AppKv .binary) (ns : String) (k : Bytes) (q : String × Bytes) :
    (t.delete ns k).row_at q.1 q.2 = if q = (ns, k) then none else t.row_at q.1 q.2 := by
  rw [AppKv.row_at_delete]
  cases hr : t.row_at q.1 q.2 with
  | none => split <;> rfl
  | some r =>
      obtain ⟨_, hns, hkey⟩ := AppKv.row_at_mem hr
      have hq : q = (r.nsid, r.appkey) := (hit_binary q r).1 (by simp [appkv_key, hns, hkey])
      by_cases hk : q = (ns, k)
      · have hhit : (appkv_key .binary).hit (ns, k) r = true := (hit_binary _ _).2 (hk ▸ hq)
        rw [if_pos hk, Option.filter_some, if_neg (by simp [hhit])]
      · have hmiss : (appkv_key .binary).hit (ns, k) r = false := by
          rw [Bool.eq_false_iff]
          exact fun hit => hk (hq.trans ((hit_binary _ _).1 hit).symm)
        rw [if_neg hk, Option.filter_some, if_pos (by simp [hmiss])]

/-- A delete removes the key. -/
theorem abs_delete (t : AppKv .binary) (ns : String) (k : Bytes) :
    abs (t.delete ns k) = (abs t).erase (ns, k) := by
  funext q
  unfold abs ExpiringMap.erase ExpiringMap.update
  rw [row_at_delete_binary]
  split <;> rfl

/-- Setting a key after removing it is setting it. -/
theorem set_erase (m : KvMap) (q : String × Bytes) (v : Bytes) (x : Option UInt64) :
    (m.erase q).set q v x = m.set q v x := by
  funext q'
  unfold ExpiringMap.set ExpiringMap.erase ExpiringMap.update
  split <;> rfl

theorem abs_exec_batch {t t' : AppKv .binary} {ns : String} {writes : List (Bytes × Bytes)}
    {e : UInt64} (h : exec_batch t (writes.map fun kv => kv_row ns kv.1 kv.2 e) = .ok t') :
    abs t' = (abs t).set_all (writes.map fun kv => ((ns, kv.1), kv.2)) (expiry e) := by
  induction writes generalizing t with
  | nil =>
      cases h
      rfl
  | cons kv writes ih =>
      rw [List.map_cons, exec_batch_cons] at h
      cases hi : t.insert_on_duplicate (kv_row ns kv.1 kv.2 e) with
      | error err => simp [hi] at h
      | ok t₁ =>
          rw [hi] at h
          rw [ih h, abs_insert hi]
          rfl

/-! ## Call by call -/

theorem run_stmt_insert (t : AppKv .binary) (ns : String) (k v : Bytes) (e : UInt64) :
    (run_stmt t (t.insert_on_duplicate (kv_row ns k v e))).map KvResult.of_unit abs
      = if storable ns k v then (.done, (abs t).set (ns, k) v (expiry e))
        else (.error (sql_error .dataTooLong), abs t) := by
  cases hf : storable ns k v with
  | true =>
      obtain ⟨t', ht'⟩ := (AppKv.insert_ok_iff t _).2 ((fits_kv_row ns k v e).trans hf)
      simp [ht', run_stmt, KvResult.of_unit, abs_insert ht']
  | false =>
      simp [AppKv.insert_of_not_fits t ((fits_kv_row ns k v e).trans hf), run_stmt,
        KvResult.of_unit]

theorem run_stmt_replace (t : AppKv .binary) (ns : String) (k v : Bytes) (e now : UInt64) :
    (run_stmt t (t.replace_where_not_exists (kv_row ns k v e) now)).map KvResult.of_unit abs
      = if (t.live_at ns k now).isSome then (.done, abs t)
        else if storable ns k v then (.done, (abs t).set (ns, k) v (expiry e))
        else (.error (sql_error .dataTooLong), abs t) := by
  rw [AppKv.replace_eq]
  by_cases hlive : (t.live_at ns k now).isSome = true
  · rw [if_pos hlive, if_pos (show (t.live_at (kv_row ns k v e).nsid
      (kv_row ns k v e).appkey now).isSome = true from hlive)]
    rfl
  · rw [if_neg hlive, if_neg (show ¬ (t.live_at (kv_row ns k v e).nsid
      (kv_row ns k v e).appkey now).isSome = true from hlive)]
    have hd := run_stmt_insert (t.delete ns k) ns k v e
    rw [abs_delete, set_erase] at hd
    cases hf : storable ns k v with
    | true =>
        obtain ⟨t', ht'⟩ := (AppKv.insert_ok_iff (t.delete ns k) _).2 ((fits_kv_row ns k v e).trans hf)
        have ht'' : (t.delete (kv_row ns k v e).nsid (kv_row ns k v e).appkey).insert_on_duplicate
            (kv_row ns k v e) = .ok t' := ht'
        rw [ht', hf] at hd
        rw [ht'']
        exact hd
    | false =>
        rw [AppKv.insert_of_not_fits _ ((fits_kv_row ns k v e).trans hf)]
        rfl

theorem check_assertions_iff (t : AppKv .binary) (ns : String) (now : UInt64)
    (assertions : List (Bytes × Bytes)) :
    check_assertions t ns now assertions = true
      ↔ (abs t).holds_all now (assertions.map fun kv => ((ns, kv.1), kv.2)) := by
  rw [check_assertions_eq, List.all_eq_true, holds_all, List.forall_mem_map]
  refine forall₂_congr fun kv _ => ?_
  rw [get_abs]
  cases t.live_at ns kv.1 now <;> simp

theorem keys_found_abs (t : AppKv .binary) (ns : String) (start : Bytes) (stop : Option Bytes)
    (now : UInt64) :
    keys_found (abs t) ns start stop now = {k | k ∈ t.select_keys ns start stop now} := by
  ext k
  simp only [keys_found, Set.mem_ofPred_eq, mem_dom_abs, AppKv.mem_select_keys]

theorem ncard_keys_found (t : AppKv .binary) (ns : String) (start : Bytes) (stop : Option Bytes)
    (now : UInt64) :
    (keys_found (abs t) ns start stop now).ncard = (t.select_keys ns start stop now).length := by
  rw [keys_found_abs, ← List.toFinset_card_of_nodup (t.nodup_select_keys ns start stop now),
    ← Set.ncard_coe_finset, List.coe_toFinset]

theorem map_of_abs {α : Type} (f : α → KvResult) (x : α × AppKv .binary) :
    (x.map f id).map id abs = x.map f abs := rfl

/-- **One call on the table is the same call on the map it stands for.** -/
theorem exec_refines (t : AppKv .binary) (c : KvCall) :
    c.apply (abs t) = (c.exec t).map id abs := by
  obtain ⟨op, now, currenttime⟩ := c
  cases op with
  | get ns k =>
      simp only [KvCall.apply, KvCall.exec, worker_data_get, Prod.map_apply, id_eq, get_abs,
        AppKv.select_value_eq]
  | put ns k v if_not_exists ttl_ms =>
      simp only [KvCall.apply, KvCall.exec, worker_data_put, expiration_eq]
      cases expiration now ttl_ms with
      | error e => rfl
      | ok e =>
          simp only [Except.map, mem_dom_abs]
          cases if_not_exists with
          | false =>
              simp only [Bool.false_eq_true, false_and, if_false, map_of_abs]
              exact (run_stmt_insert t ns k v e).symm
          | true =>
              simp only [true_and, if_true, map_of_abs]
              exact (run_stmt_replace t ns k v e currenttime).symm
  | delete ns k =>
      simp only [KvCall.apply, KvCall.exec, worker_data_delete, Prod.map_apply, id_eq, abs_delete,
        KvResult.of_unit]
  | scan_keys ns start stop limit server =>
      simp only [KvCall.apply, KvCall.exec, worker_data_scan_keys, KvResult.of_keys,
        ncard_keys_found, List.length_take, (server.perm _).length_eq]
      by_cases hlt : (t.select_keys ns start stop now).length < limit
      · rw [if_pos hlt, if_pos (by omega), keys_found_abs,
          List.take_of_length_le (by rw [(server.perm _).length_eq]; omega)]
        simp only [Prod.map_apply, id_eq, (server.perm _).mem_iff]
      · rw [if_neg hlt, if_neg (by omega)]
        rfl
  | cmpupdate ns assertions writes ttl_ms =>
      simp only [KvCall.apply, KvCall.exec, worker_data_cmpupdate, expiration_eq]
      cases expiration now ttl_ms with
      | error e => rfl
      | ok e =>
          simp only [Except.map, ← check_assertions_iff]
          cases check_assertions t ns now assertions with
          | false => rfl
          | true =>
              simp only [if_true]
              cases hb : exec_batch t (writes.map fun kv => kv_row ns kv.1 kv.2 e) with
              | ok t' =>
                  have hfits := (exec_batch_ok_iff t _).1 ⟨t', hb⟩
                  have hall : ∀ kv ∈ writes, storable ns kv.1 kv.2 = true := by
                    intro kv hkv
                    rw [← fits_kv_row ns kv.1 kv.2 e]
                    exact hfits _ (List.mem_map.2 ⟨kv, hkv, rfl⟩)
                  rw [if_pos hall, ← abs_exec_batch hb]
                  rfl
              | error err =>
                  obtain ⟨rfl, r, hr, hf⟩ := exec_batch_error hb
                  obtain ⟨kv, hkv, rfl⟩ := List.mem_map.1 hr
                  have hnot : ¬ ∀ kv ∈ writes, storable ns kv.1 kv.2 = true := by
                    intro hall
                    rw [fits_kv_row, hall kv hkv] at hf
                    cases hf
                  rw [if_neg hnot]
                  rfl

/-! ## An expired entry is no entry -/

/-- A call cannot tell apart two maps that show the same entries from its clock
reading on, and leaves them so. -/
theorem apply_eqFrom {m m' : KvMap} {c : KvCall} (hclock : c.now ≤ c.currenttime)
    (h : EqFrom c.now m m') :
    (c.apply m).1 = (c.apply m').1 ∧ EqFrom c.now (c.apply m).2 (c.apply m').2 := by
  obtain ⟨op, now, currenttime⟩ := c
  have hdom : m.dom currenttime = m'.dom currenttime := h.dom hclock
  change EqFrom now m m' at h
  cases op with
  | get ns k =>
      refine ⟨?_, h⟩
      simp only [KvCall.apply, h.get le_rfl]
  | put ns k v if_not_exists ttl_ms =>
      simp only [KvCall.apply]
      cases expiry_of now ttl_ms with
      | error e => exact ⟨rfl, h⟩
      | ok x =>
          dsimp only
          rw [hdom]
          split_ifs
          · exact ⟨rfl, h⟩
          · exact ⟨rfl, h.set (ns, k) v x⟩
          · exact ⟨rfl, h⟩
  | delete ns k => exact ⟨rfl, h.erase (ns, k)⟩
  | scan_keys ns start stop limit server =>
      have hkeys : keys_found m ns start stop now = keys_found m' ns start stop now := by
        unfold keys_found
        rw [h.dom le_rfl]
      simp only [KvCall.apply, hkeys]
      split_ifs
      · exact ⟨rfl, h⟩
      · exact ⟨rfl, h⟩
  | cmpupdate ns assertions writes ttl_ms =>
      have hall : ∀ kvs, m.holds_all now kvs = m'.holds_all now kvs := fun kvs =>
        propext (h.holds_all le_rfl kvs)
      simp only [KvCall.apply]
      cases expiry_of now ttl_ms with
      | error e => exact ⟨rfl, h⟩
      | ok x =>
          dsimp only
          rw [hall]
          split_ifs
          · exact ⟨rfl, h.set_all _ x⟩
          · exact ⟨rfl, h⟩
          · exact ⟨rfl, h⟩

/-! ## Runs of calls -/

/-- The clock readings of the calls, in the order in which they are taken, do
not decrease. -/
def clocked : UInt64 → List KvCall → Prop
  | _, [] => True
  | now, c :: cs => now ≤ c.now ∧ c.now ≤ c.currenttime ∧ clocked c.currenttime cs

/-- The results of the calls, performed one after another on the table. -/
def results : AppKv .binary → List KvCall → List KvResult
  | _, [] => []
  | t, c :: cs => (c.exec t).1 :: results (c.exec t).2 cs

/-- The results of the calls, performed one after another on the map. -/
noncomputable def spec_results : KvMap → List KvCall → List KvResult
  | _, [] => []
  | m, c :: cs => (c.spec m).1 :: spec_results (c.spec m).2 cs

/-- The table gives the results of every map that shows the same entries. -/
theorem results_refine {now : UInt64} {m : KvMap} {t : AppKv .binary} (h : EqFrom now m (abs t))
    {cs : List KvCall} (hc : clocked now cs) : results t cs = spec_results m cs := by
  induction cs generalizing now m t with
  | nil => rfl
  | cons c cs ih =>
      obtain ⟨hnow, hclock, hrest⟩ := hc
      have hpurged : EqFrom c.now (m.purge c.now) (abs t) :=
        (eqFrom_purge c.now m).trans (h.later hnow)
      obtain ⟨hres, hmap⟩ := apply_eqFrom hclock hpurged
      rw [exec_refines] at hres hmap
      have htail : results (c.exec t).2 cs = spec_results (c.apply (m.purge c.now)).2 cs :=
        ih (hmap.later hclock) hrest
      change (c.exec t).1 :: results (c.exec t).2 cs
        = (c.apply (m.purge c.now)).1 :: spec_results (c.apply (m.purge c.now)).2 cs
      rw [hres, htail]
      rfl

/-! ## Immortal rows and overflow -/

/-- The time to live that a call asks for. -/
def KvOp.ttl_ms : KvOp → UInt64
  | .put _ _ _ _ ttl_ms => ttl_ms
  | .cmpupdate _ _ _ ttl_ms => ttl_ms
  | _ => 0

theorem mem_insert {t t' : AppKv .binary} {new r : Row} (h : t.insert_on_duplicate new = .ok t')
    (hr : r ∈ t'.rows) : r ∈ t.rows ∨ r.appexpiration = new.appexpiration := by
  unfold AppKv.insert_on_duplicate at h
  split at h
  · cases h
    rcases Keying.mem_upsert hr with rfl | hr | ⟨r₀, _, _, rfl⟩
    · exact Or.inr rfl
    · exact Or.inl hr
    · exact Or.inr rfl
  · cases h

theorem mem_replace {t t' : AppKv .binary} {new r : Row} {now : UInt64}
    (h : t.replace_where_not_exists new now = .ok t') (hr : r ∈ t'.rows) :
    r ∈ t.rows ∨ r.appexpiration = new.appexpiration := by
  rw [AppKv.replace_eq] at h
  split at h
  · cases h
    exact Or.inl hr
  · rcases mem_insert h hr with hold | hnew
    · exact Or.inl (List.mem_filter.1 hold).1
    · exact Or.inr hnew

theorem mem_exec_batch {t t' : AppKv .binary} {rows : List Row} {e : UInt64}
    (he : ∀ r ∈ rows, r.appexpiration = e) (h : exec_batch t rows = .ok t') {r : Row}
    (hr : r ∈ t'.rows) : r ∈ t.rows ∨ r.appexpiration = e := by
  induction rows generalizing t with
  | nil =>
      cases h
      exact Or.inl hr
  | cons new rows ih =>
      rw [exec_batch_cons] at h
      cases hi : t.insert_on_duplicate new with
      | error err => simp [hi] at h
      | ok t₁ =>
          rw [hi] at h
          rcases ih (fun r hr => he r (List.mem_cons_of_mem new hr)) h with hold | hnew
          · rw [← he new List.mem_cons_self]
            exact mem_insert hi hold
          · exact Or.inr hnew

theorem mem_run_stmt {t : AppKv .binary} {x : Except SqlError (AppKv .binary)} {e : UInt64}
    {r : Row} (hx : ∀ t', x = .ok t' → r ∈ t'.rows → r ∈ t.rows ∨ r.appexpiration = e)
    (hr : r ∈ (run_stmt t x).2.rows) : r ∈ t.rows ∨ r.appexpiration = e := by
  cases x with
  | ok t' => exact hx t' rfl hr
  | error err => exact Or.inl hr

/-- A row that a call with a time to live leaves without expiry was there before. -/
theorem no_immortal_row {t : AppKv .binary} {c : KvCall} (httl : c.op.ttl_ms ≠ 0) {r : Row}
    (hr : r ∈ (c.exec t).2.rows) (hzero : r.appexpiration = 0) : r ∈ t.rows := by
  obtain ⟨op, now, currenttime⟩ := c
  have hexp : ∀ {ttl_ms e : UInt64}, ttl_ms ≠ 0 → expiration now ttl_ms = .ok e →
      r.appexpiration ≠ e := by
    intro ttl_ms e hne he
    rcases expiration_ok he with ⟨h0, _⟩ | ⟨_, hpos, _⟩
    · exact absurd h0 hne
    · rw [hzero]
      exact hpos.symm
  cases op with
  | put ns k v if_not_exists ttl_ms =>
      simp only [KvCall.exec, worker_data_put] at hr
      cases he : expiration now ttl_ms with
      | error err =>
          rw [he] at hr
          exact hr
      | ok e =>
          rw [he] at hr
          have hor : r ∈ t.rows ∨ r.appexpiration = e := by
            cases if_not_exists with
            | false => exact mem_run_stmt (fun t' ht' hmem => mem_insert ht' hmem) hr
            | true => exact mem_run_stmt (fun t' ht' hmem => mem_replace ht' hmem) hr
          exact hor.resolve_right (hexp httl he)
  | cmpupdate ns assertions writes ttl_ms =>
      simp only [KvCall.exec, worker_data_cmpupdate] at hr
      cases he : expiration now ttl_ms with
      | error err =>
          rw [he] at hr
          exact hr
      | ok e =>
          rw [he] at hr
          dsimp only at hr
          split at hr
          · cases hb : exec_batch t (writes.map fun kv => kv_row ns kv.1 kv.2 e) with
            | error err =>
                rw [hb] at hr
                exact hr
            | ok t' =>
                rw [hb] at hr
                have hrows : ∀ r ∈ writes.map fun kv => kv_row ns kv.1 kv.2 e,
                    r.appexpiration = e := by
                  intro r' hr'
                  obtain ⟨kv, _, rfl⟩ := List.mem_map.1 hr'
                  rfl
                exact (mem_exec_batch hrows hb hr).resolve_right (hexp httl he)
          · exact hr
  | get ns k => exact absurd rfl httl
  | delete ns k => exact absurd rfl httl
  | scan_keys ns start stop limit server => exact absurd rfl httl

/-- A call whose expiration overflows is refused and changes nothing. -/
theorem exec_overflow {t : AppKv .binary} {c : KvCall} (httl : c.op.ttl_ms ≠ 0)
    (hover : 2 ^ 64 ≤ c.now.toNat + c.op.ttl_ms.toNat) :
    c.exec t = (.error (.Other "expiration time overflow"), t) := by
  obtain ⟨op, now, currenttime⟩ := c
  cases op with
  | put ns k v if_not_exists ttl_ms =>
      have herr : expiration now ttl_ms = .error (.Other "expiration time overflow") :=
        expiration_overflow httl hover
      simp only [KvCall.exec, worker_data_put, herr]
      rfl
  | cmpupdate ns assertions writes ttl_ms =>
      have herr : expiration now ttl_ms = .error (.Other "expiration time overflow") :=
        expiration_overflow httl hover
      simp only [KvCall.exec, worker_data_cmpupdate, herr]
      rfl
  | get ns k => exact absurd rfl httl
  | delete ns k => exact absurd rfl httl
  | scan_keys ns start stop limit server => exact absurd rfl httl

/-! ## The refinement -/

/-- **The key-value layer is a map with expiry.** At non-decreasing clock
readings the table gives the results of the map it stands for, where an expired
entry is no entry; so tables with the same live rows cannot be told apart, a
write with a time to live leaves no row without expiry, and a write whose
expiration overflows changes nothing. -/
theorem kv_refines_expiring_map (t : AppKv .binary) :
    (∀ now cs, clocked now cs → results t cs = spec_results (abs t) cs)
    ∧ (∀ now (t' : AppKv .binary), (∀ ns k, t.live_at ns k now = t'.live_at ns k now) →
        ∀ cs, clocked now cs → results t cs = results t' cs)
    ∧ (∀ c : KvCall, c.op.ttl_ms ≠ 0 → ∀ r ∈ (c.exec t).2.rows, r.appexpiration = 0 → r ∈ t.rows)
    ∧ ∀ c : KvCall, c.op.ttl_ms ≠ 0 → 2 ^ 64 ≤ c.now.toNat + c.op.ttl_ms.toNat →
        c.exec t = (.error (.Other "expiration time overflow"), t) := by
  refine ⟨fun now cs hc => results_refine (EqFrom.refl now _) hc, fun now t' hlive cs hc => ?_,
    fun c httl r hr hzero => no_immortal_row httl hr hzero,
    fun c httl hover => exec_overflow httl hover⟩
  have hpurge : (abs t').purge now = (abs t).purge now := by
    funext ⟨ns, k⟩
    rw [purge_abs, purge_abs, hlive]
  have hsame : EqFrom now (abs t') (abs t) := eqFrom_of_purge_eq hpurge
  rw [results_refine hsame.symm hc]
  exact results_refine (EqFrom.refl now _) hc

/-- A put that lives for five milliseconds, seen and then not seen. -/
def put_and_wait : List KvCall :=
  [⟨.put "ns" [107] [118] false 5, 10, 10⟩, ⟨.get "ns" [107], 12, 12⟩, ⟨.get "ns" [107], 15, 15⟩]

theorem kv_refines_expiring_map_put_and_wait :
    results AppKv.empty put_and_wait = spec_results (abs AppKv.empty) put_and_wait
    ∧ results AppKv.empty put_and_wait = results (AppKv.empty.delete "ns" [107]) put_and_wait
    ∧ (KvCall.exec AppKv.empty ⟨.put "ns" [107] [118] false 0xFFFFFFFFFFFFFFFF, 1, 1⟩).2 = AppKv.empty := by
  obtain ⟨hrefine, hsame, _, hover⟩ := kv_refines_expiring_map AppKv.empty
  have hclocked : clocked 10 put_and_wait := by
    simp only [put_and_wait, clocked]
    decide
  refine ⟨hrefine 10 _ hclocked, hsame 10 _ (fun ns k => rfl) _ hclocked, ?_⟩
  rw [hover _ (by decide) (by decide)]

end RustyWorkers

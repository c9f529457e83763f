/-
Key-value namespaces and tenant isolation.

`restrict` cuts the table down to the rows whose namespace a predicate selects.
A database call on a selected namespace is the same call on that part of the
table (`perform_restrict`), and a call that can hit no selected row leaves the
part as it is (`perform_other`). Two workers are therefore isolated exactly
when no row can be hit by ids of both, and whether such a row can exist is a
question about the collation of `nsid`: `appkv.sql` leaves it to the server.
-/
import RustyWorkers.HandleTask

set_option autoImplicit false

namespace RustyWorkers

open Lib

variable {coll : Collation}

/-! ## The part of the table that a worker can see -/

namespace AppKv

/-- The rows whose namespace is selected. -/
def restrict (t : AppKv coll) (p : String → Bool) : AppKv coll where
  rows := t.rows.filter fun r => p r.nsid
  primary_key := t.primary_key.filter _
  columns r hr := t.columns r (List.mem_filter.1 hr).1

theorem ext_rows {t t' : AppKv coll} (h : t.rows = t'.rows) : t = t' := by
  obtain ⟨rows, _, _⟩ := t
  obtain ⟨rows', _, _⟩ := t'
  cases h
  rfl

section Mine

variable {p : String → Bool} (hp : ∀ {a b}, coll.eq a b = true → p a = p b) {ns : String}
  (hns : p ns = true)

include hp hns

theorem hit_selected (k : Bytes) (r : Row) (h : (appkv_key coll).hit (ns, k) r = true) :
    p r.nsid = true := by
  simp only [appkv_key, Bool.and_eq_true] at h
  rw [← hp h.1]
  exact hns

theorem row_at_restrict (t : AppKv coll) (k : Bytes) :
    (t.restrict p).row_at ns k = t.row_at ns k :=
  Keying.find_filter (p := fun r : Row => p r.nsid) (hit_selected hp hns k) t.rows

theorem live_at_restrict (t : AppKv coll) (k : Bytes) (now : UInt64) :
    (t.restrict p).live_at ns k now = t.live_at ns k now := by
  unfold live_at
  rw [row_at_restrict hp hns]

theorem select_keys_restrict (t : AppKv coll) (start : Bytes) (stop : Option Bytes) (now : UInt64) :
    (t.restrict p).select_keys ns start stop now = t.select_keys ns start stop now := by
  unfold select_keys restrict
  rw [List.filter_filter]
  congr 2
  funext r
  cases hr : coll.eq ns r.nsid with
  | false => rfl
  | true => rw [← hp hr, hns, Bool.and_true]

theorem insert_restrict (t : AppKv coll) {new : Row} (hnew : new.nsid = ns) :
    (t.restrict p).insert_on_duplicate new = (t.insert_on_duplicate new).map (·.restrict p) := by
  unfold insert_on_duplicate
  by_cases hfits : new.fits = true
  · rw [dif_pos hfits, dif_pos hfits]
    refine congrArg Except.ok (ext_rows ?_)
    have hsel : ∀ r, (appkv_key coll).hit ((appkv_key coll).key new) r = true → p r.nsid = true := by
      intro r hr
      refine hit_selected hp hns new.appkey r ?_
      rw [← hnew]
      exact hr
    have hupd : ∀ r : Row, p (on_duplicate_key new r).nsid = p r.nsid := fun _ => rfl
    exact (Keying.filter_upsert (p := fun r : Row => p r.nsid) hsel hupd t.rows).symm
  · rw [dif_neg hfits, dif_neg hfits]
    rfl

omit hp hns in
theorem delete_restrict (t : AppKv coll) (p : String → Bool) (ns : String) (k : Bytes) :
    (t.restrict p).delete ns k = (t.delete ns k).restrict p :=
  ext_rows (Keying.filter_erase _ _ _).symm

theorem replace_restrict (t : AppKv coll) {new : Row} (hnew : new.nsid = ns) (now : UInt64) :
    (t.restrict p).replace_where_not_exists new now
      = (t.replace_where_not_exists new now).map (·.restrict p) := by
  rw [replace_eq, replace_eq, hnew, live_at_restrict hp hns, delete_restrict]
  split
  · rfl
  · exact insert_restrict hp hns _ hnew

end Mine

section Other

variable {p : String → Bool} {ns : String}
  (hother : ∀ r : Row, r.fits = true → p r.nsid = true → coll.eq ns r.nsid = false)

include hother

theorem not_hit (t : AppKv coll) (k : Bytes) : ∀ r ∈ t.rows, p r.nsid = true →
    (appkv_key coll).hit (ns, k) r = false := by
  intro r hr hpr
  simp [appkv_key, hother r (t.columns r hr) hpr]

theorem restrict_insert {t t' : AppKv coll} {new : Row} (hnew : new.nsid = ns)
    (h : t.insert_on_duplicate new = .ok t') : t'.restrict p = t.restrict p := by
  unfold insert_on_duplicate at h
  split at h
  · rename_i hfits
    cases h
    have hpnew : p new.nsid = false := by
      rw [Bool.eq_false_iff]
      intro hsel
      have hmiss := hother new hfits hsel
      rw [hnew, coll.refl] at hmiss
      cases hmiss
    have hupd : ∀ r : Row, p (on_duplicate_key new r).nsid = p r.nsid := fun _ => rfl
    refine ext_rows (Keying.filter_upsert_other (p := fun r : Row => p r.nsid) hpnew ?_ hupd)
    intro r hr hpr
    have hmiss := not_hit hother t new.appkey r hr hpr
    rw [← hnew] at hmiss
    exact hmiss
  · cases h

theorem restrict_delete (t : AppKv coll) (k : Bytes) : (t.delete ns k).restrict p = t.restrict p :=
  ext_rows (Keying.filter_erase_other (p := fun r : Row => p r.nsid) (not_hit hother t k))

theorem restrict_replace {t t' : AppKv coll} {new : Row} (hnew : new.nsid = ns) {now : UInt64}
    (h : t.replace_where_not_exists new now = .ok t') : t'.restrict p = t.restrict p := by
  rw [replace_eq] at h
  split at h
  · cases h
    rfl
  · rw [restrict_insert hother hnew h, hnew, restrict_delete hother]

end Other

end AppKv

/-! ## Database calls on a part of the table -/

theorem run_stmt_restrict (t : AppKv coll) (p : String → Bool) (x : Except SqlError (AppKv coll)) :
    run_stmt (t.restrict p) (x.map (·.restrict p)) = (run_stmt t x).map id (·.restrict p) := by
  cases x <;> rfl

theorem exec_batch_restrict {p : String → Bool} (hp : ∀ {a b}, coll.eq a b = true → p a = p b)
    {ns : String} (hns : p ns = true) (t : AppKv coll) {rows : List Row}
    (hrows : ∀ r ∈ rows, r.nsid = ns) :
    exec_batch (t.restrict p) rows = (exec_batch t rows).map (·.restrict p) := by
  induction rows generalizing t with
  | nil => rfl
  | cons r rows ih =>
      obtain ⟨hr, hrest⟩ := List.forall_mem_cons.1 hrows
      rw [exec_batch_cons, exec_batch_cons, AppKv.insert_restrict hp hns t hr]
      cases t.insert_on_duplicate r with
      | error e => rfl
      | ok t' => exact ih t' hrest

theorem restrict_exec_batch {p : String → Bool} {ns : String}
    (hother : ∀ r : Row, r.fits = true → p r.nsid = true → coll.eq ns r.nsid = false)
    {t t' : AppKv coll} {rows : List Row} (hrows : ∀ r ∈ rows, r.nsid = ns)
    (h : exec_batch t rows = .ok t') : t'.restrict p = t.restrict p := by
  induction rows generalizing t with
  | nil =>
      cases h
      rfl
  | cons r rows ih =>
      obtain ⟨hr, hrest⟩ := List.forall_mem_cons.1 hrows
      rw [exec_batch_cons] at h
      cases hi : t.insert_on_duplicate r with
      | error e => simp [hi] at h
      | ok t₁ =>
          rw [hi] at h
          rw [ih hrest h, AppKv.restrict_insert hother hr hi]

theorem nsid_kv_rows (ns : String) (exp : UInt64) (writes : List (Bytes × Bytes)) :
    ∀ r ∈ writes.map fun kv => kv_row ns kv.1 kv.2 exp, r.nsid = ns := by
  intro r hr
  obtain ⟨kv, _, rfl⟩ := List.mem_map.1 hr
  rfl

/-- A call on a selected namespace is the same call on the selected part. -/
theorem perform_restrict {p : String → Bool} (hp : ∀ {a b}, coll.eq a b = true → p a = p b)
    (t : AppKv coll) {op : KvOp} (hns : p op.namespace_id = true) (env : TaskEnv) :
    perform (t.restrict p) op env = (perform t op env).map id (·.restrict p) := by
  cases op with
  | get ns k =>
      change p ns = true at hns
      simp only [perform, worker_data_get, AppKv.select_value_eq, AppKv.live_at_restrict hp hns]
      rfl
  | put ns k v if_not_exists ttl_ms =>
      change p ns = true at hns
      simp only [perform, worker_data_put]
      cases expiration env.now ttl_ms with
      | error e => rfl
      | ok exp =>
          cases if_not_exists with
          | false =>
              simp only [Bool.false_eq_true, if_false]
              rw [AppKv.insert_restrict hp hns t rfl, run_stmt_restrict]
              rfl
          | true =>
              simp only [if_true]
              rw [AppKv.replace_restrict hp hns t rfl, run_stmt_restrict]
              rfl
  | delete ns k =>
      simp only [perform, worker_data_delete, AppKv.delete_restrict]
      rfl
  | scan_keys ns start stop limit server =>
      change p ns = true at hns
      simp only [perform, worker_data_scan_keys, AppKv.select_keys_restrict hp hns]
      rfl
  | cmpupdate ns assertions writes ttl_ms =>
      change p ns = true at hns
      simp only [perform, worker_data_cmpupdate, check_assertions_eq, AppKv.live_at_restrict hp hns]
      cases expiration env.now ttl_ms with
      | error e => rfl
      | ok exp =>
          dsimp only
          split
          · rw [exec_batch_restrict hp hns t (nsid_kv_rows ns exp writes)]
            cases exec_batch t (writes.map fun kv => kv_row ns kv.1 kv.2 exp) <;> rfl
          · rfl

/-- A call that can hit no selected row leaves the selected part as it is. -/
theorem perform_other {p : String → Bool} (t : AppKv coll) {op : KvOp}
    (hother : ∀ r : Row, r.fits = true → p r.nsid = true → coll.eq op.namespace_id r.nsid = false)
    (env : TaskEnv) : (perform t op env).2.restrict p = t.restrict p := by
  have hstmt : ∀ x : Except SqlError (AppKv coll), (∀ t', x = .ok t' → t'.restrict p = t.restrict p) →
      (run_stmt t x).2.restrict p = t.restrict p := by
    intro x hx
    cases x with
    | ok t' => exact hx t' rfl
    | error e => rfl
  cases op with
  | get ns k => rfl
  | put ns k v if_not_exists ttl_ms =>
      simp only [perform, worker_data_put]
      cases expiration env.now ttl_ms with
      | error e => rfl
      | ok exp =>
          cases if_not_exists with
          | false => exact hstmt _ fun t' ht' => AppKv.restrict_insert hother rfl ht'
          | true => exact hstmt _ fun t' ht' => AppKv.restrict_replace hother rfl ht'
  | delete ns k => exact AppKv.restrict_delete hother t k
  | scan_keys ns start stop limit server => rfl
  | cmpupdate ns assertions writes ttl_ms =>
      simp only [perform, worker_data_cmpupdate]
      cases expiration env.now ttl_ms with
      | error e => rfl
      | ok exp =>
          dsimp only
          split
          · cases hb : exec_batch t (writes.map fun kv => kv_row ns kv.1 kv.2 exp) with
            | error e => rfl
            | ok t' => exact restrict_exec_batch hother (nsid_kv_rows ns exp writes) hb
          · rfl

/-! ## Two workers -/

inductive Who where
  | first
  | second
deriving DecidableEq

/-- A call, by one of the two workers, and what it meets outside. -/
structure Issued where
  who : Who
  task : AsyncCall
  env : TaskEnv

/-- What a worker sees when calls of both are handled in this order. -/
def seen (confs : Who → WorkerConfiguration) (who : Who) : AppKv coll → List Issued → List Seen
  | _, [] => []
  | t, x :: xs =>
    if x.who = who then
      respond (handle_task t (confs x.who) x.task x.env).1
        :: seen confs who (handle_task t (confs x.who) x.task x.env).2 xs
    else seen confs who (handle_task t (confs x.who) x.task x.env).2 xs

/-- Each worker sees what it would see if the other one had issued no calls. -/
def Isolated (coll : Collation) (confs : Who → WorkerConfiguration) : Prop :=
  ∀ (who : Who) (t : AppKv coll) (xs : List Issued),
    seen confs who t xs = seen confs who t (xs.filter fun x => x.who = who)

/-- No namespace that the column can hold compares equal to ids of both workers. -/
def Apart (coll : Collation) (ids ids' : List String) : Prop :=
  ∀ a ∈ ids, ∀ b ∈ ids', ∀ c : String, c.length ≤ 64 → ¬ (coll.eq a c = true ∧ coll.eq b c = true)

theorem Apart.symm {ids ids' : List String} (h : Apart coll ids ids') : Apart coll ids' ids :=
  fun a ha b hb c hc hab => h b hb a ha c hc hab.symm

/-- The namespaces that a worker with these ids can reach. -/
def reachable (coll : Collation) (ids : List String) (ns : String) : Bool :=
  ids.any fun nsid => coll.eq nsid ns

theorem reachable_congr (ids : List String) {a b : String} (h : coll.eq a b = true) :
    reachable coll ids a = reachable coll ids b := by
  unfold reachable
  congr 1
  funext nsid
  rw [Bool.eq_iff_iff]
  exact ⟨fun ha => coll.trans ha h, fun hb => coll.trans hb (coll.symm h)⟩

theorem reachable_self {ids : List String} {nsid : String} (h : nsid ∈ ids) :
    reachable coll ids nsid = true := List.any_eq_true.2 ⟨nsid, h, coll.refl nsid⟩

/-- A worker's own call sees, and changes, the reachable part only. -/
theorem own_call (confs : Who → WorkerConfiguration) (who : Who) (task : AsyncCall) (env : TaskEnv)
    {t t' : AppKv coll} {p : String → Bool} (hp : p = reachable coll (namespace_ids (confs who)))
    (h : t.restrict p = t'.restrict p) :
    (handle_task t (confs who) task env).1 = (handle_task t' (confs who) task env).1
      ∧ (handle_task t (confs who) task env).2.restrict p
        = (handle_task t' (confs who) task env).2.restrict p := by
  subst hp
  rcases handle_task_cases coll (confs who) task env with ⟨r, hr⟩ | ⟨op, hop, hperform⟩
  · rw [hr, hr]
    exact ⟨rfl, h⟩
  · rw [hperform, hperform]
    have ht := perform_restrict (fun hab => reachable_congr _ hab) t (reachable_self hop) env
    have ht' := perform_restrict (fun hab => reachable_congr _ hab) t' (reachable_self hop) env
    rw [h, ht', Prod.ext_iff] at ht
    exact ⟨ht.1.symm, ht.2.symm⟩

/-- A call of the other worker leaves the reachable part as it is. -/
theorem other_call {conf conf' : WorkerConfiguration} (task : AsyncCall) (env : TaskEnv)
    (h : Apart coll (namespace_ids conf) (namespace_ids conf')) (t : AppKv coll) :
    (handle_task t conf' task env).2.restrict (reachable coll (namespace_ids conf))
      = t.restrict (reachable coll (namespace_ids conf)) := by
  rcases handle_task_cases coll conf' task env with ⟨r, hr⟩ | ⟨op, hop, hperform⟩
  · rw [hr]
  · rw [hperform]
    refine perform_other t (fun r hfits hreach => ?_) env
    obtain ⟨a, ha, har⟩ := List.any_eq_true.1 hreach
    have hlen : r.nsid.length ≤ 64 := by
      simp only [Row.fits, Bool.and_eq_true, decide_eq_true_eq] at hfits
      exact hfits.1.1.1
    rw [Bool.eq_false_iff]
    exact fun hbr => h a ha op.namespace_id hop r.nsid hlen ⟨har, hbr⟩

theorem seen_of_apart {confs : Who → WorkerConfiguration} {who : Who}
    (h : ∀ other, other ≠ who →
      Apart coll (namespace_ids (confs who)) (namespace_ids (confs other)))
    {t t' : AppKv coll} {p : String → Bool} (hp : p = reachable coll (namespace_ids (confs who)))
    (hsame : t.restrict p = t'.restrict p) (xs : List Issued) :
    seen confs who t xs = seen confs who t' (xs.filter fun x => x.who = who) := by
  induction xs generalizing t t' with
  | nil => rfl
  | cons x xs ih =>
      by_cases hx : x.who = who
      · obtain ⟨hres, htab⟩ := own_call confs who x.task x.env hp hsame
        rw [List.filter_cons_of_pos (by simpa using hx), seen, seen, if_pos hx, if_pos hx, hx, hres,
          ih htab]
      · have hother := other_call x.task x.env (h x.who hx) t
        rw [← hp] at hother
        rw [List.filter_cons_of_neg (by simpa using hx), seen, if_neg hx]
        exact ih (hother.trans hsame)

/-! ### When namespaces do meet -/

/-- The table with the one row `k ↦ v` in the namespace `c`. -/
def one_row (coll : Collation) (c : String) (hc : c.length ≤ 64) : AppKv coll :=
  .singleton (kv_row c [107] [118] 0) (by simp [Row.fits, kv_row, hc])

def get_k (ns : String) : AsyncCall := ⟨.KvGet ns, [[107]]⟩
def delete_k (ns : String) : AsyncCall := ⟨.KvDelete ns, [[107]]⟩

theorem handle_get_k (t : AppKv coll) {conf : WorkerConfiguration} {ns a : String}
    (h : conf.kv_namespaces.lookup ns = some a) :
    respond (handle_task t conf (get_k ns) .quiet).1
      = .ok (match t.select_value a [107] 0 with
        | some v => ⟨.user_ok true, [v]⟩
        | none => ⟨.user_ok false, []⟩) := by
  have hid : namespace_id conf ns = .ok a := by
    unfold namespace_id
    rw [h]
  have hkey : read_buffer [[107]] 0 MAX_KV_KEY_SIZE "missing key" "key too large" = .ok [107] := rfl
  simp only [handle_task, get_k, hid, hkey]
  change respond (perform t (.get a [107]) .quiet).1 = _
  simp only [perform, worker_data_get, TaskEnv.quiet]
  cases t.select_value a [107] 0 <;> rfl

theorem handle_delete_k (t : AppKv coll) {conf : WorkerConfiguration} {ns b : String}
    (h : conf.kv_namespaces.lookup ns = some b) :
    (handle_task t conf (delete_k ns) .quiet).2 = t.delete b [107] := by
  have hid : namespace_id conf ns = .ok b := by
    unfold namespace_id
    rw [h]
  have hkey : read_buffer [[107]] 0 MAX_KV_KEY_SIZE "missing key" "key too large" = .ok [107] := rfl
  simp only [handle_task, delete_k, hid, hkey]
  rfl

/-- A namespace that ids of both workers reach lets the second worker delete
what the first one reads. -/
theorem not_isolated_of_shared {confs : Who → WorkerConfiguration} {a b c : String}
    (ha : a ∈ namespace_ids (confs .first)) (hb : b ∈ namespace_ids (confs .second))
    (hc : c.length ≤ 64) (hac : coll.eq a c = true) (hbc : coll.eq b c = true) :
    ¬ Isolated coll confs := by
  obtain ⟨ns, hns⟩ := mem_namespace_ids.1 ha
  obtain ⟨ns', hns'⟩ := mem_namespace_ids.1 hb
  intro h
  have hboth := h .first (one_row coll c hc)
    [⟨.second, delete_k ns', .quiet⟩, ⟨.first, get_k ns, .quiet⟩]
  have hfound : (one_row coll c hc).select_value a [107] 0 = some [118] := by
    simp [AppKv.select_value, one_row, AppKv.singleton, kv_row, appkv_key, hac, Row.live]
  have hgone : ((one_row coll c hc).delete b [107]).select_value a [107] 0 = none := by
    simp [AppKv.select_value, AppKv.delete, Keying.erase, one_row, AppKv.singleton, kv_row, appkv_key, hbc]
  have hfilter : ([⟨.second, delete_k ns', .quiet⟩, ⟨.first, get_k ns, .quiet⟩] : List Issued).filter
      (fun x => x.who = .first) = [⟨.first, get_k ns, .quiet⟩] := rfl
  rw [hfilter] at hboth
  simp only [seen, reduceCtorEq, if_false, if_true, handle_delete_k _ hns', handle_get_k _ hns, hgone,
    hfound] at hboth
  simp at hboth

/-- **When tenants are isolated.** Whatever the collation of `nsid`, two workers
are isolated exactly when no namespace that the column can hold compares equal
to an id of the one and to an id of the other. -/
theorem isolated_iff_apart (coll : Collation) (confs : Who → WorkerConfiguration) :
    Isolated coll confs
      ↔ Apart coll (namespace_ids (confs .first)) (namespace_ids (confs .second)) := by
  constructor
  · intro h a ha b hb c hc hab
    exact not_isolated_of_shared ha hb hc hab.1 hab.2 h
  · intro h who t xs
    refine seen_of_apart (fun other hother => ?_) rfl rfl xs
    cases who <;> cases other
    · exact absurd rfl hother
    · exact h
    · exact h.symm
    · exact absurd rfl hother

/-- Two workers whose ids differ in case only. -/
def case_confs (who : Who) : WorkerConfiguration where
  executor := ⟨32, 1000, 10, 50⟩
  env := []
  kv_namespaces := match who with
    | .first => [("kv", "ns")]
    | .second => [("kv", "NS")]

/-- Under a case-insensitive collation the second worker's put, on an empty
table, is what the first worker's get finds. -/
theorem case_insensitive_leak :
    (∀ a ∈ namespace_ids (case_confs .first), a ∉ namespace_ids (case_confs .second))
    ∧ seen case_confs .first (AppKv.empty : AppKv .ci)
        [⟨.second, ⟨.KvPut "kv" false 0, [[107], [118]]⟩, .quiet⟩, ⟨.first, get_k "kv", .quiet⟩]
      = [.ok ⟨.user_ok true, [[118]]⟩]
    ∧ seen case_confs .first (AppKv.empty : AppKv .ci) [⟨.first, get_k "kv", .quiet⟩]
      = [.ok ⟨.user_ok false, []⟩]
    ∧ ¬ Isolated .ci case_confs := by
  have hput : seen case_confs .first (AppKv.empty : AppKv .ci)
      [⟨.second, ⟨.KvPut "kv" false 0, [[107], [118]]⟩, .quiet⟩, ⟨.first, get_k "kv", .quiet⟩]
      = [.ok ⟨.user_ok true, [[118]]⟩] := rfl
  have halone : seen case_confs .first (AppKv.empty : AppKv .ci) [⟨.first, get_k "kv", .quiet⟩]
      = [.ok ⟨.user_ok false, []⟩] := rfl
  refine ⟨by decide, hput, halone, fun h => ?_⟩
  have hsame := (hput.symm.trans (h .first AppKv.empty _)).trans halone
  simp at hsame

end RustyWorkers

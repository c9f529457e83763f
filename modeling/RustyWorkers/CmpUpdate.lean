/-
`worker_data_cmpupdate` among other calls, statement by statement.

`Db` runs each call alone; here any number of calls are under way at once and
an action performs one statement of one of them. The database is an `Engine`:
a `select .. for update` and a write lock their row until the transaction ends,
a write in a transaction takes effect at its commit, and a statement outside a
transaction commits by itself. A call whose statement fails returns an error;
the transaction it drops keeps its locks until the server rolls it back, which
is an action of its own.

Returned calls are recorded in the order in which they returned. The invariant
says that this order is serial: the table is the one that results when the
calls of the record run alone, one after the other, with the same results. A
commit fits at the end of the record because everything its transaction has
read is still so.

As in `DbRefine`, whose map says what a compare-and-swap does in one step, namespace
ids are compared as strings, so that a lock is on a pair of an id and a key. All calls
of a script on one namespace carry the same string.
-/
import RustyWorkers.Lib.Machine
import RustyWorkers.Lib.StrictTwoPhase
import RustyWorkers.DbRefine

set_option autoImplicit false

namespace RustyWorkers

open Lib

/-! ## The database -/

/-- A write statement. -/
inductive Write where
  | insert (new : Row)
  | replace (new : Row) (currenttime : UInt64)
  | delete (nsid : String) (appkey : Bytes)

/-- The statement, run on the table. -/
def Write.exec (t : AppKv .binary) : Write → Except SqlError (AppKv .binary)
  | .insert new => t.insert_on_duplicate new
  | .replace new currenttime => t.replace_where_not_exists new currenttime
  | .delete nsid appkey => .ok (t.delete nsid appkey)

/-- The primary key of the row that the statement touches. -/
def Write.key : Write → String × Bytes
  | .insert new => (new.nsid, new.appkey)
  | .replace new _ => (new.nsid, new.appkey)
  | .delete nsid appkey => (nsid, appkey)

theorem row_at_insert_of_ne {t t' : AppKv .binary} {new : Row}
    (h : t.insert_on_duplicate new = .ok t') {q : String × Bytes}
    (hq : q ≠ (new.nsid, new.appkey)) : t'.row_at q.1 q.2 = t.row_at q.1 q.2 := by
  rw [AppKv.row_at_insert h, if_neg fun hit => hq ((hit_binary _ _).1 hit)]

/-- The table as a store whose writes each touch one row. -/
def appkv_store : KeyedStore (AppKv .binary) (String × Bytes) (Option Row) Write where
  view t q := t.row_at q.1 q.2
  apply w t := (run_stmt t (w.exec t)).2
  key := Write.key
  frame w t q hq := by
    cases w with
    | insert new =>
        cases h : t.insert_on_duplicate new with
        | ok t' => simpa [Write.exec, h, run_stmt] using row_at_insert_of_ne h hq
        | error e => simp [Write.exec, h, run_stmt]
    | replace new currenttime =>
        by_cases hlive : (t.live_at new.nsid new.appkey currenttime).isSome = true
        · simp [Write.exec, AppKv.replace_eq, hlive, run_stmt]
        · cases h : (t.delete new.nsid new.appkey).insert_on_duplicate new with
          | ok t' =>
              have hrow := (row_at_insert_of_ne h hq).trans ((row_at_delete_binary t _ _ q).trans (if_neg hq))
              simpa [Write.exec, AppKv.replace_eq, hlive, h, run_stmt] using hrow
          | error e => simp [Write.exec, AppKv.replace_eq, hlive, h, run_stmt]
    | delete ns k => exact (row_at_delete_binary t ns k q).trans (if_neg hq)

/-! ## Calls under way -/

/-- Where a call is: the writes of a put and of `exec_batch` carry the
expiration that was computed when the call started. -/
inductive Pc where
  | single (expiration : UInt64)
  | asserting (expiration : UInt64) (rest : List (Bytes × Bytes))
  | writing (expiration : UInt64) (rest : List (Bytes × Bytes))

inductive Client where
  | idle
  | running (c : KvCall) (pc : Pc)
  | returned (c : KvCall) (r : KvResult)

/-- The database, the calls, and the record of the calls that have returned. -/
structure Clients (ι : Type) where
  engine : Engine (AppKv .binary) (String × Bytes) (Option Row) Write ι
  client : ι → Client
  record : List (ι × KvCall × KvResult)

/-- What happens, and to which call. -/
inductive DbAction (ι : Type) where
  | start (i : ι) (c : KvCall)
  | stmt (i : ι)
  | fail (i : ι) (text : String)
  | rollback (i : ι)

/-- The call up to its first statement: the clock is read and the expiration
computed. -/
def KvCall.begin (c : KvCall) : Except GenericError Pc :=
  match c.op with
  | .put _ _ _ _ ttl_ms => (expiration c.now ttl_ms).map .single
  | .cmpupdate _ assertions _ ttl_ms =>
    (expiration c.now ttl_ms).map fun exp => .asserting exp assertions
  | .get .. | .delete .. | .scan_keys .. => .ok (.single 0)

theorem except_map_ok {ε α β : Type} {f : α → β} {x : Except ε α} {b : β} :
    x.map f = .ok b ↔ ∃ a, x = .ok a ∧ f a = b := by
  cases x with
  | ok a => simp [Except.map]
  | error err => simp [Except.map]

theorem except_map_error {ε α β : Type} {f : α → β} {x : Except ε α} {err : ε} :
    x.map f = .error err ↔ x = .error err := by
  cases x with
  | ok a => simp [Except.map]
  | error err => simp [Except.map]

namespace Clients

variable {ι : Type} [DecidableEq ι]

/-- No call has started. -/
def init (t₀ : AppKv .binary) : Clients ι := ⟨Engine.start t₀, fun _ => .idle, []⟩

def goto (s : Clients ι) (i : ι) (c : KvCall) (pc : Pc) : Clients ι :=
  { s with client := Function.update s.client i (.running c pc) }

def give_back (s : Clients ι) (i : ι) (c : KvCall) (r : KvResult) : Clients ι :=
  { s with client := Function.update s.client i (.returned c r), record := s.record ++ [(i, c, r)] }

def with_engine (s : Clients ι)
    (e : Engine (AppKv .binary) (String × Bytes) (Option Row) Write ι) : Clients ι :=
  { s with engine := e }

/-- A write statement outside a transaction. -/
def autocommit (s : Clients ι) (i : ι) (c : KvCall) (w : Write) : Option (Clients ι) :=
  (s.engine.autocommit appkv_store w).map fun e =>
    (s.with_engine e).give_back i c
      (.of_unit (run_stmt s.engine.store (w.exec s.engine.store)).1)

/-- The only statement of a call that has no transaction. A `select` without
`for update` reads what is committed. -/
def single_stmt (s : Clients ι) (i : ι) (c : KvCall) (exp : UInt64) : Option (Clients ι) :=
  match c.op with
  | .put ns k v if_not_exists _ =>
    s.autocommit i c (if if_not_exists then .replace (kv_row ns k v exp) c.currenttime
      else .insert (kv_row ns k v exp))
  | .delete ns k => s.autocommit i c (.delete ns k)
  | .get .. | .scan_keys .. => some (s.give_back i c (c.exec s.engine.store).1)
  | .cmpupdate .. => none

/-- The next statement of a `worker_data_cmpupdate`; a transaction that is
dropped on an early return is still to be rolled back. -/
def cmpupdate_stmt (s : Clients ι) (i : ι) (c : KvCall) (ns : String)
    (writes : List (Bytes × Bytes)) : Pc → Option (Clients ι)
  -- `for (k, v) in assertions`, one `select .. for update` each
  | .asserting exp ((k, v) :: rest) =>
    (s.engine.read appkv_store i (ns, k)).map fun e =>
      match s.engine.store.select_for_update ns k v c.now with
      -- `return Ok(false)`: the transaction is dropped, its locks stay for now
      | none => (s.with_engine e).give_back i c (.compared false)
      | some _ => (s.with_engine e).goto i c (.asserting exp rest)
  | .asserting exp [] => some (s.goto i c (.writing exp writes))
  -- `txn.exec_batch`, one insert for each write
  | .writing exp ((k, v) :: rest) =>
    if (kv_row ns k v exp).fits then
      (s.engine.write appkv_store i (.insert (kv_row ns k v exp))).map fun e =>
        (s.with_engine e).goto i c (.writing exp rest)
    else some (s.give_back i c (.error (sql_error .dataTooLong)))
  -- `txn.commit().await?; Ok(true)`
  | .writing _ [] =>
    some ((s.with_engine (s.engine.commit appkv_store i)).give_back i c (.compared true))
  | .single _ => none

/-- One action. -/
def step (s : Clients ι) : DbAction ι → Option (Clients ι)
  | .start i c =>
    match s.client i with
    | .idle =>
      match c.begin with
      | .ok pc => some (s.goto i c pc)
      | .error e => some (s.give_back i c (.error e))
    | _ => none
  | .stmt i =>
    match s.client i with
    | .running c (.single exp) => s.single_stmt i c exp
    | .running c pc =>
      match c.op with
      | .cmpupdate ns _ writes _ => s.cmpupdate_stmt i c ns writes pc
      | _ => none
    | _ => none
  -- a `?` on a statement: a lost connection, a deadlock found by the server
  | .fail i text =>
    match s.client i with
    | .running c _ => some (s.give_back i c (.error (.Database text)))
    | _ => none
  | .rollback i =>
    match s.client i with
    | .returned _ _ => some (s.with_engine (s.engine.rollback i))
    | _ => none

/-- Any number of calls at once; `ι` names them. -/
def machine : Machine (Clients ι) (DbAction ι) := ⟨step⟩

end Clients

/-! ## Serial orders -/

/-- A call that runs alone: to its end, or up to a statement that fails. -/
inductive Alone (t : AppKv .binary) (c : KvCall) : KvResult → AppKv .binary → Prop
  | ran : Alone t c (c.exec t).1 (c.exec t).2
  | failed (text : String) : Alone t c (.error (.Database text)) t

theorem alone_of_exec {t t' : AppKv .binary} {c : KvCall} {r : KvResult}
    (h : c.exec t = (r, t')) : Alone t c r t' := by
  have hran := Alone.ran (t := t) (c := c)
  rw [h] at hran
  exact hran

/-- The calls of a record run alone, one after the other, with these results. -/
inductive Serial {ι : Type} : AppKv .binary → List (ι × KvCall × KvResult) → AppKv .binary → Prop
  | nil (t : AppKv .binary) : Serial t [] t
  | cons {t t' t'' : AppKv .binary} {i : ι} {c : KvCall} {r : KvResult}
      {record : List (ι × KvCall × KvResult)} (alone : Alone t c r t')
      (after : Serial t' record t'') : Serial t ((i, c, r) :: record) t''

theorem serial_append {ι : Type} {t t'' : AppKv .binary} {a b : List (ι × KvCall × KvResult)} :
    Serial t (a ++ b) t'' ↔ ∃ t', Serial t a t' ∧ Serial t' b t'' := by
  induction a generalizing t with
  | nil =>
      constructor
      · exact fun h => ⟨t, .nil t, h⟩
      · rintro ⟨t', ha, hb⟩
        cases ha
        exact hb
  | cons x a ih =>
      constructor
      · intro h
        cases h with
        | cons alone after =>
            obtain ⟨t', ha, hb⟩ := ih.1 after
            exact ⟨t', .cons alone ha, hb⟩
      · rintro ⟨t', ha, hb⟩
        cases ha with
        | cons alone after => exact .cons alone (ih.2 ⟨t', after, hb⟩)

theorem Serial.snoc {ι : Type} {t t' t'' : AppKv .binary} {i : ι} {c : KvCall} {r : KvResult}
    {record : List (ι × KvCall × KvResult)} (before : Serial t record t') (alone : Alone t' c r t'') :
    Serial t (record ++ [(i, c, r)]) t'' :=
  serial_append.2 ⟨t', before, .cons alone (.nil t'')⟩

/-! ## What a running call has done so far -/

/-- The assertion has been checked, and the row it found is on record. -/
def Held (namespace_id : String) (now : UInt64) (reads : List ((String × Bytes) × Option Row))
    (kv : Bytes × Bytes) : Prop :=
  ∃ r, ((namespace_id, kv.1), some r) ∈ reads ∧ r.live now = true ∧ r.appvalue = kv.2

theorem Held.cons {namespace_id : String} {now : UInt64}
    {reads : List ((String × Bytes) × Option Row)} {kv : Bytes × Bytes}
    (h : Held namespace_id now reads kv) (x : (String × Bytes) × Option Row) :
    Held namespace_id now (x :: reads) kv := by
  obtain ⟨r, hr, hrest⟩ := h
  exact ⟨r, List.mem_cons_of_mem x hr, hrest⟩

/-- A `select .. for update` that finds a row has checked its assertion. -/
theorem held_of_select {t : AppKv .binary} {namespace_id : String} {k v : Bytes} {now : UInt64}
    {one : ℕ} (h : t.select_for_update namespace_id k v now = some one)
    {reads : List ((String × Bytes) × Option Row)} :
    Held namespace_id now (((namespace_id, k), t.row_at namespace_id k) :: reads) (k, v) := by
  have hlive : (t.live_at namespace_id k now).any (fun r => r.appvalue == v) = true := by
    rw [← AppKv.select_for_update_eq, h]
    rfl
  obtain ⟨r, hr, hv⟩ := (Option.any_eq_true _ _).1 hlive
  obtain ⟨hrow, hl⟩ := Option.filter_eq_some_iff.1 hr
  refine ⟨r, ?_, hl, beq_iff_eq.1 hv⟩
  rw [← hrow]
  exact List.mem_cons_self

/-- The inserts of `exec_batch`. -/
def inserts (namespace_id : String) (exp : UInt64) (writes : List (Bytes × Bytes)) : List Write :=
  writes.map fun kv => .insert (kv_row namespace_id kv.1 kv.2 exp)

/-- Where a call is, against what the database remembers of it. -/
def InStep (reads : List ((String × Bytes) × Option Row)) (pending : List Write) : Client → Prop
  | .idle => reads = [] ∧ pending = []
  | .running c (.single exp) => c.begin = .ok (.single exp)
  | .running c (.asserting exp rest) =>
    ∃ ns assertions writes ttl_ms, c.op = .cmpupdate ns assertions writes ttl_ms
      ∧ expiration c.now ttl_ms = .ok exp ∧ pending = []
      ∧ ∃ done, assertions = done ++ rest ∧ ∀ kv ∈ done, Held ns c.now reads kv
  | .running c (.writing exp rest) =>
    ∃ ns assertions writes ttl_ms, c.op = .cmpupdate ns assertions writes ttl_ms
      ∧ expiration c.now ttl_ms = .ok exp ∧ (∀ kv ∈ assertions, Held ns c.now reads kv)
      ∧ ∃ done, writes = done ++ rest ∧ pending = inserts ns exp done
        ∧ ∀ kv ∈ done, storable ns kv.1 kv.2 = true
  | .returned _ _ => True

namespace Clients

variable {ι : Type} [DecidableEq ι]

/-- The record is a serial order of the calls that have returned, and leads to
the table. -/
structure Inv (t₀ : AppKv .binary) (s : Clients ι) : Prop where
  sound : s.engine.Sound appkv_store
  serial : Serial t₀ s.record s.engine.store
  once : (s.record.map Prod.fst).Nodup
  returned : ∀ i c r, (i, c, r) ∈ s.record ↔ s.client i = .returned c r
  progress : ∀ i, InStep (s.engine.reads i) (s.engine.pending i) (s.client i)

omit [DecidableEq ι] in
theorem inv_init (t₀ : AppKv .binary) : Inv t₀ (init t₀ : Clients ι) where
  sound := Engine.Sound.start t₀
  serial := .nil t₀
  once := List.nodup_nil
  returned i c r := by simp [init]
  progress i := ⟨rfl, rfl⟩

variable {t₀ : AppKv .binary} {s : Clients ι} {i : ι}
  {e : Engine (AppKv .binary) (String × Bytes) (Option Row) Write ι}

omit [DecidableEq ι] in
theorem not_returned_of_running {c : KvCall} {pc : Pc} (hc : s.client i = .running c pc) :
    ∀ c' r', s.client i ≠ .returned c' r' := by
  intro c' r' hret
  rw [hc] at hret
  cases hret

/-- A call that goes on leaves the record alone. -/
theorem inv_goto (h : Inv t₀ s) (hi : ∀ c r, s.client i ≠ .returned c r)
    (hsound : e.Sound appkv_store) (hothers : Engine.Others i s.engine e)
    (hstore : e.store = s.engine.store) {c : KvCall} {pc : Pc}
    (hpc : InStep (e.reads i) (e.pending i) (.running c pc)) :
    Inv t₀ ((s.with_engine e).goto i c pc) where
  sound := hsound
  serial := by
    change Serial t₀ s.record e.store
    rw [hstore]
    exact h.serial
  once := h.once
  returned j c' r' := by
    change (j, c', r') ∈ s.record ↔ Function.update s.client i (.running c pc) j = .returned c' r'
    rw [h.returned]
    by_cases hj : j = i
    · subst hj
      rw [Function.update_self]
      exact ⟨fun hret => absurd hret (hi c' r'), fun hret => by cases hret⟩
    · rw [Function.update_of_ne hj]
  progress j := by
    change InStep (e.reads j) (e.pending j) (Function.update s.client i (.running c pc) j)
    by_cases hj : j = i
    · subst hj
      rw [Function.update_self]
      exact hpc
    · rw [Function.update_of_ne hj, (hothers j hj).1, (hothers j hj).2]
      exact h.progress j

/-- A call that returns goes to the end of the record, if it could have run
alone at this moment. -/
theorem inv_give_back (h : Inv t₀ s) (hi : ∀ c r, s.client i ≠ .returned c r)
    (hsound : e.Sound appkv_store) (hothers : Engine.Others i s.engine e)
    {c : KvCall} {r : KvResult} (halone : Alone s.engine.store c r e.store) :
    Inv t₀ ((s.with_engine e).give_back i c r) where
  sound := hsound
  serial := h.serial.snoc halone
  once := by
    change ((s.record ++ [(i, c, r)]).map Prod.fst).Nodup
    rw [List.map_append, List.map_singleton, ← List.concat_eq_append]
    refine List.Nodup.concat (fun hi' => ?_) h.once
    obtain ⟨⟨_, c', r'⟩, hmem, rfl⟩ := List.mem_map.1 hi'
    exact hi c' r' ((h.returned _ c' r').1 hmem)
  returned j c' r' := by
    change (j, c', r') ∈ s.record ++ [(i, c, r)]
      ↔ Function.update s.client i (.returned c r) j = .returned c' r'
    rw [List.mem_append, h.returned, List.mem_singleton]
    by_cases hj : j = i
    · subst hj
      rw [Function.update_self]
      constructor
      · rintro (hret | heq)
        · exact absurd hret (hi c' r')
        · cases heq
          rfl
      · intro heq
        cases heq
        exact Or.inr rfl
    · rw [Function.update_of_ne hj]
      constructor
      · rintro (hret | heq)
        · exact hret
        · cases heq
          exact absurd rfl hj
      · exact Or.inl
  progress j := by
    change InStep (e.reads j) (e.pending j) (Function.update s.client i (.returned c r) j)
    by_cases hj : j = i
    · subst hj
      rw [Function.update_self]
      trivial
    · rw [Function.update_of_ne hj, (hothers j hj).1, (hothers j hj).2]
      exact h.progress j

/-! ## The statements -/

omit [DecidableEq ι] in
/-- What the transaction has checked holds of the committed table. -/
theorem check_of_held (h : s.engine.Sound appkv_store) {ns : String} {now : UInt64}
    {assertions : List (Bytes × Bytes)} (hheld : ∀ kv ∈ assertions, Held ns now (s.engine.reads i) kv) :
    check_assertions s.engine.store ns now assertions = true := by
  rw [check_assertions_eq, List.all_eq_true]
  intro kv hkv
  obtain ⟨r, hread, hlive, hvalue⟩ := hheld kv hkv
  have hrow : s.engine.store.row_at ns kv.1 = some r := h.reads_hold hread
  simp [AppKv.live_at, hrow, Option.filter_some, hlive, hvalue]

theorem exec_batch_inserts {t : AppKv .binary} {ns : String} {exp : UInt64}
    {writes : List (Bytes × Bytes)} (h : ∀ kv ∈ writes, storable ns kv.1 kv.2 = true) :
    exec_batch t (writes.map fun kv => kv_row ns kv.1 kv.2 exp)
      = .ok (Engine.apply_all appkv_store (inserts ns exp writes) t) := by
  induction writes generalizing t with
  | nil => rfl
  | cons kv writes ih =>
      obtain ⟨hkv, hrest⟩ := List.forall_mem_cons.1 h
      obtain ⟨t', ht'⟩ := (AppKv.insert_ok_iff t (kv_row ns kv.1 kv.2 exp)).2 hkv
      have happ : appkv_store.apply (.insert (kv_row ns kv.1 kv.2 exp)) t = t' := by
        simp [appkv_store, Write.exec, ht', run_stmt]
      rw [List.map_cons, exec_batch_cons, ht']
      change exec_batch t' _ = .ok (Engine.apply_all appkv_store (inserts ns exp writes)
        (appkv_store.apply (.insert (kv_row ns kv.1 kv.2 exp)) t))
      rw [happ]
      exact ih hrest

/-- At its commit a transaction is the whole call, run alone. -/
theorem alone_commit (h : s.engine.Sound appkv_store) {c : KvCall} {exp : UInt64}
    (hstep : InStep (s.engine.reads i) (s.engine.pending i) (.running c (.writing exp []))) :
    Alone s.engine.store c (.compared true) (s.engine.commit appkv_store i).store := by
  obtain ⟨ns, assertions, writes, ttl_ms, hop, hexp, hheld, done, hdone, hpending, hfit⟩ := hstep
  rw [List.append_nil] at hdone
  subst hdone
  have hcheck := check_of_held h hheld
  have hbatch : exec_batch s.engine.store (writes.map fun kv => kv_row ns kv.1 kv.2 exp)
      = .ok (s.engine.commit appkv_store i).store := by
    rw [exec_batch_inserts hfit, ← hpending]
    rfl
  have hexec : c.exec s.engine.store = (.compared true, (s.engine.commit appkv_store i).store) := by
    simp only [KvCall.exec, hop, worker_data_cmpupdate, hexp, hcheck, if_true, hbatch]
    rfl
  exact alone_of_exec hexec

/-- An assertion that finds no row decides the whole call. -/
theorem alone_refused {t : AppKv .binary} {c : KvCall} {ns : String}
    {assertions writes : List (Bytes × Bytes)} {ttl_ms exp : UInt64} {k v : Bytes}
    (hop : c.op = .cmpupdate ns assertions writes ttl_ms) (hexp : expiration c.now ttl_ms = .ok exp)
    (hmem : (k, v) ∈ assertions) (hnone : t.select_for_update ns k v c.now = none) :
    Alone t c (.compared false) t := by
  have hcheck : check_assertions t ns c.now assertions = false := by
    rw [check_assertions_eq, List.all_eq_false]
    refine ⟨(k, v), hmem, ?_⟩
    rw [← AppKv.select_for_update_eq, hnone]
    exact Bool.false_ne_true
  have hexec : c.exec t = (.compared false, t) := by
    simp only [KvCall.exec, hop, worker_data_cmpupdate, hexp, hcheck]
    rfl
  exact alone_of_exec hexec

theorem inv_autocommit (h : Inv t₀ s) (hi : ∀ c r, s.client i ≠ .returned c r) {c : KvCall}
    {w : Write} {s' : Clients ι} (hs : s.autocommit i c w = some s')
    (hexec : c.exec s.engine.store
      = (run_stmt s.engine.store (w.exec s.engine.store)).map .of_unit id) : Inv t₀ s' := by
  unfold autocommit at hs
  obtain ⟨e, he, rfl⟩ := Option.map_eq_some_iff.1 hs
  refine inv_give_back h hi (h.sound.autocommit he) (fun d hd => Engine.others_autocommit he d hd) ?_
  obtain ⟨_, rfl⟩ := Engine.autocommit_eq_some.1 he
  exact alone_of_exec hexec

theorem inv_single_stmt (h : Inv t₀ s) {c : KvCall} {exp : UInt64}
    (hc : s.client i = .running c (.single exp)) {s' : Clients ι}
    (hs : s.single_stmt i c exp = some s') : Inv t₀ s' := by
  have hi := not_returned_of_running hc
  have hbegin : c.begin = .ok (.single exp) := by
    have hp := h.progress i
    rw [hc] at hp
    exact hp
  obtain ⟨op, now, currenttime⟩ := c
  cases op with
  | put ns k v if_not_exists ttl_ms =>
      -- the row carries the expiration that was computed at the start
      obtain ⟨exp', hexp, heq⟩ := except_map_ok.1 hbegin
      obtain rfl : exp' = exp := Pc.single.inj heq
      refine inv_autocommit h hi hs ?_
      simp only [KvCall.exec, worker_data_put, hexp]
      cases if_not_exists <;> rfl
  | delete ns k => exact inv_autocommit h hi hs rfl
  | get ns k =>
      cases hs
      exact inv_give_back h hi h.sound (Engine.others_refl i _) .ran
  | scan_keys ns start stop limit server =>
      cases hs
      exact inv_give_back h hi h.sound (Engine.others_refl i _) .ran
  | cmpupdate ns assertions writes ttl_ms => cases hs

theorem inv_cmpupdate_stmt (h : Inv t₀ s) {c : KvCall} {pc : Pc} (hc : s.client i = .running c pc)
    {ns : String} {assertions writes : List (Bytes × Bytes)} {ttl_ms : UInt64}
    (hop : c.op = .cmpupdate ns assertions writes ttl_ms) {s' : Clients ι}
    (hs : s.cmpupdate_stmt i c ns writes pc = some s') : Inv t₀ s' := by
  have hi := not_returned_of_running hc
  have hstep := h.progress i
  rw [hc] at hstep
  rcases pc with exp | ⟨exp, _ | ⟨⟨k, v⟩, rest⟩⟩ | ⟨exp, _ | ⟨⟨k, v⟩, rest⟩⟩
  · cases hs
  · -- the loop over the assertions is over
    cases hs
    obtain ⟨ns', assertions', writes', ttl_ms', hop', hexp, hpending, done, hdone, hheld⟩ := hstep
    rw [hop] at hop'
    cases hop'
    rw [List.append_nil] at hdone
    subst hdone
    exact inv_goto h hi h.sound (Engine.others_refl i _) rfl
      ⟨ns, assertions, writes, ttl_ms, hop, hexp, hheld, [], rfl, hpending, by simp⟩
  · -- one more assertion
    simp only [cmpupdate_stmt] at hs
    obtain ⟨e, he, hs⟩ := Option.map_eq_some_iff.1 hs
    obtain ⟨ns', assertions', writes', ttl_ms', hop', hexp, hpending, done, hdone, hheld⟩ := hstep
    rw [hop] at hop'
    cases hop'
    subst hdone
    have hothers := Engine.others_read he
    have hsound := h.sound.read he
    obtain ⟨_, rfl⟩ := Engine.read_eq_some.1 he
    cases hsel : s.engine.store.select_for_update ns k v c.now with
    | none =>
        rw [hsel] at hs
        subst hs
        exact inv_give_back h hi hsound hothers (alone_refused hop hexp (by simp) hsel)
    | some one =>
        rw [hsel] at hs
        subst hs
        refine inv_goto h hi hsound hothers rfl
          ⟨ns, _, writes, ttl_ms, hop, hexp, hpending, done ++ [(k, v)], by simp, ?_⟩
        -- the row just found joins what the transaction has read
        dsimp only
        rw [Function.update_self]
        intro kv hkv
        rcases List.mem_append.1 hkv with hold | hnew
        · exact (hheld kv hold).cons _
        · rw [List.mem_singleton.1 hnew]
          exact held_of_select hsel
  · -- the commit
    cases hs
    exact inv_give_back h hi (h.sound.commit i) (Engine.others_commit i _) (alone_commit h.sound hstep)
  · -- one more write
    simp only [cmpupdate_stmt] at hs
    split at hs
    · rename_i hfits
      obtain ⟨e, he, rfl⟩ := Option.map_eq_some_iff.1 hs
      obtain ⟨ns', assertions', writes', ttl_ms', hop', hexp, hheld, done, hdone, hpending, hfit⟩ := hstep
      rw [hop] at hop'
      cases hop'
      subst hdone
      have hothers := Engine.others_write he
      have hsound := h.sound.write he
      obtain ⟨_, rfl⟩ := Engine.write_eq_some.1 he
      refine inv_goto h hi hsound hothers rfl
        ⟨ns, assertions, _, ttl_ms, hop, hexp, hheld, done ++ [(k, v)], by simp, ?_, ?_⟩
      · dsimp only
        rw [Function.update_self, hpending]
        simp [inserts]
      · intro kv hkv
        rcases List.mem_append.1 hkv with hold | hnew
        · exact hfit kv hold
        · rw [List.mem_singleton.1 hnew]
          exact hfits
    · cases hs
      exact inv_give_back h hi h.sound (Engine.others_refl i _) (.failed _)

theorem inStep_begin {c : KvCall} {pc : Pc} (h : c.begin = .ok pc) :
    InStep [] [] (.running c pc) := by
  obtain ⟨op, now, currenttime⟩ := c
  cases op with
  | put ns k v if_not_exists ttl_ms =>
      obtain ⟨exp, _, rfl⟩ := except_map_ok.1 h
      exact h
  | cmpupdate ns assertions writes ttl_ms =>
      obtain ⟨exp, hexp, rfl⟩ := except_map_ok.1 h
      exact ⟨ns, assertions, writes, ttl_ms, rfl, hexp, rfl, [], rfl, by simp⟩
  | get ns k =>
      cases h
      rfl
  | delete ns k =>
      cases h
      rfl
  | scan_keys ns start stop limit server =>
      cases h
      rfl

/-- An expiration that overflows is the call's error, before any statement. -/
theorem alone_begin {t : AppKv .binary} {c : KvCall} {err : GenericError}
    (h : c.begin = .error err) : Alone t c (.error err) t := by
  obtain ⟨op, now, currenttime⟩ := c
  cases op with
  | put ns k v if_not_exists ttl_ms =>
      have hexp : expiration now ttl_ms = .error err := except_map_error.1 h
      apply alone_of_exec
      simp only [KvCall.exec, worker_data_put, hexp]
      rfl
  | cmpupdate ns assertions writes ttl_ms =>
      have hexp : expiration now ttl_ms = .error err := except_map_error.1 h
      apply alone_of_exec
      simp only [KvCall.exec, worker_data_cmpupdate, hexp]
      rfl
  | get ns k => cases h
  | delete ns k => cases h
  | scan_keys ns start stop limit server => cases h

/-- Every action keeps the record serial. -/
theorem inv_step (s : Clients ι) (a : DbAction ι) (s' : Clients ι) (h : Inv t₀ s)
    (hs : machine.step s a = some s') : Inv t₀ s' := by
  change step s a = some s' at hs
  cases a with
  | start i c =>
      simp only [step] at hs
      split at hs
      · rename_i hidle
        have hi : ∀ c r, s.client i ≠ .returned c r := by simp [hidle]
        have hclean := h.progress i
        rw [hidle] at hclean
        cases hb : c.begin with
        | ok pc =>
            rw [hb] at hs
            cases hs
            refine inv_goto h hi h.sound (Engine.others_refl i _) rfl ?_
            rw [hclean.1, hclean.2]
            exact inStep_begin hb
        | error err =>
            rw [hb] at hs
            cases hs
            exact inv_give_back h hi h.sound (Engine.others_refl i _) (alone_begin hb)
      · cases hs
  | stmt i =>
      simp only [step] at hs
      split at hs
      · rename_i c exp hc
        exact inv_single_stmt h hc hs
      · rename_i c pc _ hc
        split at hs
        · rename_i ns assertions writes ttl_ms hop
          exact inv_cmpupdate_stmt h hc hop hs
        · cases hs
      · cases hs
  | fail i text =>
      simp only [step] at hs
      split at hs
      · rename_i c pc hc
        cases hs
        exact inv_give_back h (not_returned_of_running hc) h.sound (Engine.others_refl i _)
          (.failed text)
      · cases hs
  | rollback i =>
      simp only [step] at hs
      split at hs
      · rename_i c r hc
        cases hs
        refine ⟨h.sound.rollback i, h.serial, h.once, h.returned, fun j => ?_⟩
        by_cases hj : j = i
        · subst hj
          change InStep _ _ (s.client j)
          rw [hc]
          trivial
        · obtain ⟨hreads, hpending⟩ := Engine.others_release i s.engine j hj
          change InStep ((s.engine.release i).reads j) ((s.engine.release i).pending j) (s.client j)
          rw [hreads, hpending]
          exact h.progress j
      · cases hs

theorem inv_run {as : List (DbAction ι)} (hs : machine.run (init t₀) as = some s) : Inv t₀ s :=
  machine.run_invariant inv_step (inv_init t₀) hs

end Clients

/-! ## What a compare-and-swap does in one step -/

/-- All assertions hold of the rows that are live at the call's own clock
reading, and all writes are made, the later of two writes to one key winning. -/
def Swapped (t t' : AppKv .binary) (now : UInt64) (namespace_id : String)
    (assertions writes : List (Bytes × Bytes)) (ttl_ms : UInt64) : Prop :=
  (abs t).holds_all now (assertions.map fun kv => ((namespace_id, kv.1), kv.2))
    ∧ ∃ x, expiry_of now ttl_ms = .ok x
      ∧ abs t' = (abs t).set_all (writes.map fun kv => ((namespace_id, kv.1), kv.2)) x

theorem alone_cmpupdate {t t' : AppKv .binary} {c : KvCall} {r : KvResult} (h : Alone t c r t')
    {ns : String} {assertions writes : List (Bytes × Bytes)} {ttl_ms : UInt64}
    (hop : c.op = .cmpupdate ns assertions writes ttl_ms) :
    (r = .compared true ∧ Swapped t t' c.now ns assertions writes ttl_ms)
      ∨ (r ≠ .compared true ∧ t' = t) := by
  cases h with
  | failed text => exact Or.inr ⟨by simp, rfl⟩
  | ran =>
      simp only [KvCall.exec, hop, worker_data_cmpupdate]
      cases hexp : expiration c.now ttl_ms with
      | error err => exact Or.inr ⟨by simp [KvResult.of_bool], rfl⟩
      | ok exp =>
          dsimp only
          cases hcheck : check_assertions t ns c.now assertions with
          | false => exact Or.inr ⟨by simp [KvResult.of_bool], rfl⟩
          | true =>
              rw [if_pos rfl]
              cases hbatch : exec_batch t (writes.map fun kv => kv_row ns kv.1 kv.2 exp) with
              | error err => exact Or.inr ⟨by simp [KvResult.of_bool], rfl⟩
              | ok t' =>
                  refine Or.inl ⟨rfl, (check_assertions_iff t ns c.now assertions).1 hcheck,
                    expiry exp, ?_, abs_exec_batch hbatch⟩
                  rw [expiration_eq, hexp]
                  rfl

/-! ## The counter -/

/-- The text of a counter: `"" + n`, encoded. -/
def counter_text (n : ℕ) : Bytes := (toString n).toUTF8.data.toList

theorem counter_text_inj {m n : ℕ} : counter_text m = counter_text n ↔ m = n := by
  constructor
  · intro h
    have hbytes : (toString m).toUTF8 = (toString n).toUTF8 := ByteArray.ext (Array.toList_inj.1 h)
    have hrepr : Nat.repr m = Nat.repr n := String.toByteArray_inj.1 hbytes
    exact Nat.repr_inj.1 hrepr
  · exact congrArg counter_text

/-- The call returned `true`. -/
def KvResult.swapped : KvResult → Bool
  | .compared b => b
  | _ => false

/-- `cmpUpdate([[k, old]], [[k, old + 1]])`, or the read before it. -/
def CountsAt (namespace_id : String) (k : Bytes) (op : KvOp) : Prop :=
  (∃ old ttl_ms, op = .cmpupdate namespace_id [(k, counter_text old)] [(k, counter_text (old + 1))] ttl_ms)
    ∨ ∃ ns k', op = .get ns k'

/-- What is stored under a key, expired or not. -/
def stored (t : AppKv .binary) (namespace_id : String) (k : Bytes) : Option Bytes :=
  (abs t (namespace_id, k)).map Prod.fst

theorem alone_counts {t t' : AppKv .binary} {c : KvCall} {r : KvResult} (h : Alone t c r t')
    {ns : String} {k : Bytes} (hc : CountsAt ns k c.op) {n : ℕ}
    (hn : stored t ns k = some (counter_text n)) :
    stored t' ns k = some (counter_text (n + if r.swapped then 1 else 0)) := by
  rcases hc with ⟨old, ttl_ms, hop⟩ | ⟨ns', k', hop⟩
  · rcases alone_cmpupdate h hop with ⟨rfl, hheld, x, _, hset⟩ | ⟨hr, rfl⟩
    · -- the value compared is the value stored, so `old` is `n`
      have hget : (abs t).get c.now (ns, k) = some (counter_text old) := hheld _ List.mem_cons_self
      have hstored : stored t ns k = some (counter_text old) := by
        rw [ExpiringMap.get, Option.map_eq_some_iff] at hget
        obtain ⟨e, he, hv⟩ := hget
        rw [stored, (Option.filter_eq_some_iff.1 he).1, ← hv]
        rfl
      rw [hn, Option.some.injEq, counter_text_inj] at hstored
      subst hstored
      rw [stored, hset]
      simp [ExpiringMap.set_all, ExpiringMap.set, ExpiringMap.update, KvResult.swapped]
    · have hno : r.swapped = false := by
        cases r with
        | compared b =>
            cases b with
            | false => rfl
            | true => exact absurd rfl hr
        | _ => rfl
      simpa [hno] using hn
  · have hkeep : r.swapped = false ∧ t' = t := by
      cases h with
      | failed text => exact ⟨rfl, rfl⟩
      | ran =>
          have hexec : c.exec t = (.value (t.select_value ns' k' c.now), t) := by
            simp only [KvCall.exec, hop, worker_data_get]
          rw [hexec]
          exact ⟨rfl, rfl⟩
    rw [hkeep.1, hkeep.2]
    exact hn

/-- In a serial order the counter counts the successes. -/
theorem serial_counts {ι : Type} {t t' : AppKv .binary} {record : List (ι × KvCall × KvResult)}
    (h : Serial t record t') {ns : String} {k : Bytes}
    (hc : ∀ x ∈ record, CountsAt ns k x.2.1.op) {n : ℕ}
    (hn : stored t ns k = some (counter_text n)) :
    stored t' ns k = some (counter_text (n + record.countP fun x => x.2.2.swapped)) := by
  induction h generalizing n with
  | nil t => exact hn
  | @cons t t' t'' i c r record alone after ih =>
      obtain ⟨hfirst, hrest⟩ := List.forall_mem_cons.1 hc
      have hnext := ih hrest (alone_counts alone hfirst hn)
      rw [hnext, List.countP_cons, Nat.add_assoc, Nat.add_comm (if r.swapped then 1 else 0)]

/-! ## Atomicity -/

open Clients in
/-- **A compare-and-swap is atomic.** However the statements of any number of
calls interleave, the calls that have returned, in the order in which they
returned, lead to the table when they run alone one after the other with the
same results. In that order a compare-and-swap that returned `true` found all
its assertions live at its own clock reading and made all its writes in one
step, and one that returned anything else changed nothing; a counter that is
only ever compared and incremented counts the `true` results. -/
theorem cmpupdate_atomic {ι : Type} [DecidableEq ι] {t₀ : AppKv .binary} {as : List (DbAction ι)}
    {s : Clients ι} (hs : machine.run (init t₀) as = some s) :
    Serial t₀ s.record s.engine.store
    ∧ (s.record.map Prod.fst).Nodup
    ∧ (∀ i c r, (i, c, r) ∈ s.record ↔ s.client i = .returned c r)
    ∧ (∀ before i c r after, s.record = before ++ (i, c, r) :: after →
        ∃ t t', Serial t₀ before t ∧ Alone t c r t' ∧ Serial t' after s.engine.store
          ∧ ∀ ns assertions writes ttl_ms, c.op = .cmpupdate ns assertions writes ttl_ms →
            (r = .compared true ∧ Swapped t t' c.now ns assertions writes ttl_ms)
              ∨ (r ≠ .compared true ∧ t' = t))
    ∧ ∀ ns k n, stored t₀ ns k = some (counter_text n) →
        (∀ i c r, s.client i = .returned c r → CountsAt ns k c.op) →
        stored s.engine.store ns k
          = some (counter_text (n + s.record.countP fun x => x.2.2.swapped)) := by
  have hinv := inv_run hs
  refine ⟨hinv.serial, hinv.once, hinv.returned, ?_, ?_⟩
  · intro before i c r after hrecord
    have hserial := hinv.serial
    rw [hrecord] at hserial
    obtain ⟨t, hbefore, hrest⟩ := serial_append.1 hserial
    cases hrest with
    | cons alone hafter =>
        exact ⟨t, _, hbefore, alone, hafter, fun ns assertions writes ttl_ms hop =>
          alone_cmpupdate alone hop⟩
  · intro ns k n hn hc
    exact serial_counts hinv.serial
      (fun x hx => hc x.1 x.2.1 x.2.2 ((hinv.returned _ _ _).1 hx)) hn

/-- `cmpUpdate([["c", 0]], [["c", 1]])`. -/
def increment (now : UInt64) : KvCall :=
  ⟨.cmpupdate "ns" [([99], [48])] [([99], [49])] 0, now, now⟩

/-- Two clients that both read `0` and both try to write `1`: the second has to
wait for the first, and then finds its assertion false. -/
def two_increments : List (DbAction (Fin 2)) :=
  [.start 0 (increment 5), .start 1 (increment 6), .stmt 0, .stmt 0, .stmt 0, .stmt 0, .stmt 1]

/-- A table with the counter at `0`. -/
def counter_at_zero : AppKv .binary := .singleton (kv_row "ns" [99] [48] 0) (by decide)

theorem cmpupdate_atomic_two_increments :
    ∃ s, Clients.machine.run (Clients.init counter_at_zero) two_increments = some s
      ∧ Serial counter_at_zero s.record s.engine.store
      ∧ stored s.engine.store "ns" [99] = some (counter_text 1) := by
  have hrecord : (Clients.machine.run (Clients.init counter_at_zero) two_increments).map
      Clients.record = some [(0, increment 5, .compared true), (1, increment 6, .compared false)] := rfl
  obtain ⟨s, hs, hrec⟩ := Option.map_eq_some_iff.1 hrecord
  obtain ⟨hserial, _, hreturned, _, hcounter⟩ := cmpupdate_atomic hs
  refine ⟨s, hs, hserial, ?_⟩
  have hcounts : ∀ i c r, s.client i = .returned c r → CountsAt "ns" [99] c.op := by
    intro i c r hret
    have hmem := (hreturned i c r).2 hret
    simp only [hrec, List.mem_cons, Prod.mk.injEq, List.not_mem_nil, or_false] at hmem
    rcases hmem with ⟨_, rfl, _⟩ | ⟨_, rfl, _⟩
    · exact Or.inl ⟨0, 0, rfl⟩
    · exact Or.inl ⟨0, 0, rfl⟩
  have hfinal := hcounter "ns" [99] 0 rfl hcounts
  rw [hrec] at hfinal
  exact hfinal

end RustyWorkers

/-
The scheduler of the proxy (`rusty-workers-proxy/src/sched.rs`): requests, the
ready queues of the apps, the cache of apps, and the three background tasks that
share them, which look apps up in the database, drop changed apps from the cache
and terminate workers.

Every request and every task is at one of its await points, and an action says
which of them goes on and what it gets from outside: an answer of the database,
the outcome of an RPC, the draw of the dropout and of the runtime. What a lock
protects is one step. An `Arc<AppState>` is an address in `app_states`, where an
app that has left the cache stays for the requests that still use it.

A request begins when it has been routed to an app: the cache of routes, and what
`hyper` makes of the request, are not part of this model. Three lists record what
has happened and are read by no step: the workers that have been spawned, and the
answers of the database.
-/
import RustyWorkers.Lib.LruCache
import RustyWorkers.Lib.Machine
import RustyWorkers.Types

set_option autoImplicit false

namespace RustyWorkers

open Lib

namespace Sched

abbrev AppId := String

abbrev RuntimeId := String

/-- `RuntimeServiceClient`: the number of its connection, which all its clones share. -/
abbrev Client := ℕ

/-- `WorkerHandle`. -/
structure WorkerHandle where
  id : String
deriving DecidableEq, Repr

/-- `KvNamespaceConfig`. -/
structure KvNamespaceConfig where
  name : String
  id : String
deriving DecidableEq, Repr

/-- `AppConfig`. -/
structure AppConfig where
  id : AppId
  bundle_id : String
  env : List (String × String)
  kv_namespaces : List KvNamespaceConfig
deriving DecidableEq, Repr

/-- `LocalConfig`, as far as it decides about instances and apps. -/
structure LocalConfig where
  max_ready_instances_per_app : ℕ
  ready_instance_expiration_ms : ℕ
  app_cache_size : ℕ
deriving DecidableEq, Repr

/-- The settings of a `Scheduler`. -/
structure Config where
  local_config : LocalConfig
  worker_config : WorkerConfiguration
deriving DecidableEq, Repr

/-- `ReadyInstance`. -/
structure ReadyInstance where
  rtid : RuntimeId
  last_active : ℕ
  handle : WorkerHandle
  client : Client
deriving DecidableEq, Repr

/-- `AppState`. -/
structure AppState where
  id : AppId
  config : WorkerConfiguration
  bundle_id : String
  bundle : Bytes
  ready_instances : List ReadyInstance
deriving DecidableEq, Repr

/-- `SchedError`. -/
inductive SchedError where
  | NoAvailableInstance
  | NoRouteMapping
  | RequestFailedAfterRetries
deriving DecidableEq, Repr

/-- Why a request fails: an error of the scheduler, of `spawn_worker`, or of the
crate `http`, which does not take the response. -/
inductive RequestError where
  | sched (e : SchedError)
  | spawn (e : GenericError)
  | invalid_status_code
  | invalid_header_name
  | invalid_header_value
deriving DecidableEq, Repr

/-- What a fetch comes back with. -/
inductive FetchResult where
  | network_error
  | backend_error (e : ExecutionError)
  | response (res : ResponseObject)
deriving DecidableEq, Repr

/-- `hyper::Response`; the headers in the order in which they were appended. -/
structure Response where
  status : ℕ
  headers : List (String × String)
  body : Bytes
deriving DecidableEq, Repr

/-- What a request has when it leaves the loop: `fetch_res`, or the error. -/
abbrev FetchOutcome := Except RequestError ResponseObject

abbrev RequestResult := Except RequestError Response

/-- Where `handle_request` is. From `collecting` on it has an app, and is in the
attempt `i`. -/
inductive RequestPc where
  | lookup
  | waiting (answered : Bool)
  | collecting (app i : ℕ)
  | popping (app i : ℕ)
  | choosing (app i : ℕ)
  | spawning (app i : ℕ) (rtid : RuntimeId) (client : Client)
  | fetching (app i : ℕ) (inst : ReadyInstance)
  | disconnecting (app i : ℕ) (inst : ReadyInstance)
  | pooling (app : ℕ) (inst : ReadyInstance) (result : FetchOutcome)
  | pooled (app : ℕ) (result : FetchOutcome)
  | ended (result : RequestResult)
  | cancelled

/-- A request that has been routed to `appid`. -/
structure Request where
  appid : AppId
  pc : RequestPc

/-- Where `do_lookup_app_background` is; the request `back` waits for it. -/
inductive LookupPc where
  | idle
  | checking (id : AppId) (back : ℕ)
  | metadata (id : AppId) (back : ℕ)
  | bundle (id : AppId) (back : ℕ) (config : AppConfig)
  | inserting (id : AppId) (back : ℕ) (state : AppState)
  | replying (back : ℕ)

/-- Where `apps_gc_task` is, with the apps that are still to check. -/
inductive GcPc where
  | idle
  | scanning (apps : List (AppId × String × WorkerConfiguration))
  | removing (id : AppId) (apps : List (AppId × String × WorkerConfiguration))

/-- What a worker is spawned with. -/
structure SpawnArgs where
  id : AppId
  config : WorkerConfiguration
  bundle : Bytes
deriving DecidableEq, Repr

/-- `clients` has the client of each `RtState`; the load of a runtime only weighs
the draw. -/
structure State where
  now : ℕ
  clients : List (RuntimeId × Client)
  apps : LruCache AppId ℕ
  app_states : List AppState
  requests : List Request
  terminate_queue : List ReadyInstance
  terminating : Option ReadyInstance
  lookup_app_queue : List (AppId × ℕ)
  lookup : LookupPc
  gc : GcPc
  spawned : List (WorkerHandle × SpawnArgs)
  metadata_reads : List AppConfig
  bundle_reads : List (String × Bytes)

def start (conf : Config) : State :=
  ⟨0, [], .empty conf.local_config.app_cache_size, [], [], [], none, [], .idle, .idle, [], [], []⟩

/-! ## Queues -/

/-- `Sender::try_send`. -/
def try_send {α : Type*} (capacity : ℕ) (queue : List α) (x : α) : Option (List α) :=
  if queue.length < capacity then some (queue ++ [x]) else none

/-- `drop(terminate_queue.try_send(inst))`: an instance that does not fit is
forgotten. -/
def send_terminate (queue : List ReadyInstance) (inst : ReadyInstance) : List ReadyInstance :=
  (try_send 1000 queue inst).getD queue

/-- `ReadyInstance::is_usable`. -/
def ReadyInstance.is_usable (conf : Config) (now : ℕ) (inst : ReadyInstance) : Bool :=
  if now - inst.last_active > conf.local_config.ready_instance_expiration_ms then false else true

/-- Instances go from the front of a ready queue to the terminate queue, as long
as `p` holds of the queue. -/
def pop_while (p : List ReadyInstance → Bool) :
    List ReadyInstance → List ReadyInstance → List ReadyInstance × List ReadyInstance
  | [], queue => ([], queue)
  | inst :: ready, queue =>
    if p (inst :: ready) then pop_while p ready (send_terminate queue inst)
    else (inst :: ready, queue)

/-- `AppState::gc_ready_instances`, on the ready queue and the terminate queue. -/
def gc_ready_instances (conf : Config) (now : ℕ) (ready queue : List ReadyInstance) :
    List ReadyInstance × List ReadyInstance :=
  let r := pop_while (fun l => l.length > conf.local_config.max_ready_instances_per_app) ready queue
  pop_while (fun l => !l.head?.all (ReadyInstance.is_usable conf now)) r.1 r.2

/-! ## Apps and their configuration -/

/-- `BTreeMap::insert`, on the entries in key order. -/
def btree_insert (k v : String) : List (String × String) → List (String × String)
  | [] => [(k, v)]
  | e :: l =>
    if k < e.1 then (k, v) :: e :: l
    else if k = e.1 then (k, v) :: l
    else e :: btree_insert k v l

/-- `decode_kv_namespaces`. -/
def decode_kv_namespaces (namespaces : List KvNamespaceConfig) : List (String × String) :=
  namespaces.foldl (fun l x => btree_insert x.name x.id l) []

/-- The configuration of the workers of an app. -/
def target_config (conf : Config) (config : AppConfig) : WorkerConfiguration :=
  { conf.worker_config with
    env := config.env
    kv_namespaces := decode_kv_namespaces config.kv_namespaces }

/-- The state of an app that `do_lookup_app_background` builds. -/
def AppState.build (conf : Config) (config : AppConfig) (bundle : Bytes) : AppState :=
  ⟨config.id, target_config conf config, config.bundle_id, bundle, []⟩

/-- What `get_instance` spawns a worker with. -/
def AppState.spawn_args (a : AppState) : SpawnArgs := ⟨a.id, a.config, a.bundle⟩

/-- The condition under which `apps_gc_task` drops an app. -/
def app_changed (bundle_id : String) (worker_config : WorkerConfiguration) (config : AppConfig) :
    Bool :=
  config.bundle_id ≠ bundle_id || config.env ≠ worker_config.env
    || decode_kv_namespaces config.kv_namespaces ≠ worker_config.kv_namespaces

/-! ## Responses -/

/-- `StatusCode::from_u16`. -/
def status_from_u16 (status : UInt16) : Except RequestError ℕ :=
  if 100 ≤ status.toNat ∧ status.toNat < 1000 then .ok status.toNat else .error .invalid_status_code

/-- A character of a header name. -/
def header_name_char (c : Char) : Bool := c.isAlphanum || decide (c ∈ "!#$%&'*+-.^_`|~".toList)

/-- `HeaderName::from_bytes`, which makes the name lower case. -/
def header_name_from_bytes (name : String) : Except RequestError String :=
  if name.toList ≠ [] ∧ name.toList.length ≤ 65535 ∧ name.toList.all header_name_char = true then
    .ok (String.ofList (name.toList.map Char.toLower))
  else .error .invalid_header_name

/-- `HeaderValue::from_bytes`, of the bytes of a string: no control character but the
tab. -/
def header_value_from_bytes (value : String) : Except RequestError String :=
  if value.toList.all fun c => c = '\t' || (decide (32 ≤ c.toNat) && decide (c.toNat ≠ 127)) then .ok value
  else .error .invalid_header_value

/-- What the response is to append for a header of the worker. -/
def header_from_bytes (p : String × String) : Except RequestError (String × String) := do
  return (← header_name_from_bytes p.1, ← header_value_from_bytes p.2)

/-- `HeaderMap::insert`, which replaces all values of the name. -/
def insert_header (name value : String) (headers : List (String × String)) : List (String × String) :=
  headers.filter (fun p => p.1 ≠ name) ++ [(name, value)]

/-- The end of `handle_request`: the response of the worker becomes one of `hyper`. -/
def build_response (fetch_res : ResponseObject) : RequestResult := do
  let status ← status_from_u16 fetch_res.status
  let headers ← (fetch_res.headers.flatMap fun e => e.2.map fun v => (e.1, v)).mapM header_from_bytes
  return ⟨status, insert_header "server" "rworkers" headers, fetch_res.body⟩

/-! ## Steps -/

/-- The choices of a request. -/
inductive RequestAction where
  | lookup
  | collect
  | pop
  | choose (rtid : RuntimeId)
  | spawned (result : Except GenericError WorkerHandle)
  | fetched (result : FetchResult)
  | disconnect
  | pool (dropout : Bool)
  | cancel

/-- The steps of the background tasks, with the answers of the database. -/
inductive TaskAction where
  | recv_terminate
  | terminated
  | recv_lookup
  | check
  | app_metadata_get (answer : Except GenericError (Option AppConfig))
  | app_bundle_get (answer : Except GenericError (Option Bytes))
  | insert
  | reply
  | gc_begin (order : List (AppId × ℕ))
  | gc_check (answer : Except GenericError (Option AppConfig))
  | gc_remove
  | gc_end

inductive Action where
  | tick (n : ℕ)
  | discover (rtid : RuntimeId) (client : Client)
  | drop_client (rtid : RuntimeId)
  | metrics (order : List (AppId × ℕ))
  | free (app : ℕ)
  | request (appid : AppId)
  | step_request (r : ℕ) (a : RequestAction)
  | step_task (a : TaskAction)

namespace State

/-- Request `r`, which is `q`, is now at `pc`. -/
def goto (s : State) (r : ℕ) (q : Request) (pc : RequestPc) : State :=
  { s with requests := s.requests.set r { q with pc := pc } }

/-- The queues after a step under the lock of the ready queue of app `a`. -/
def put (s : State) (app : ℕ) (a : AppState) (queues : List ReadyInstance × List ReadyInstance) :
    State :=
  { s with
    app_states := s.app_states.set app { a with ready_instances := queues.1 }
    terminate_queue := queues.2 }

/-- `gc_ready_instances` of app `a`. -/
def collect (conf : Config) (s : State) (app : ℕ) (a : AppState) : State :=
  s.put app a (gc_ready_instances conf s.now a.ready_instances s.terminate_queue)

end State

/-- After a failed attempt: `continue`, and the end of the loop. -/
def next_attempt (app i : ℕ) : RequestPc :=
  if i + 1 < 3 then .collecting app (i + 1)
  else .ended (.error (.sched .RequestFailedAfterRetries))

/-- Where a request goes with what the cache of apps has for it. -/
def found (app : Option ℕ) : RequestPc :=
  match app with
  | some app => .collecting app 0
  | none => .ended (.error (.sched .NoRouteMapping))

/-- A step of `handle_request`, for a request `r` whose app, if it has one, is
at `app`. -/
def request_step (conf : Config) (s : State) (r : ℕ) (q : Request) (a : RequestAction) :
    Option State :=
  match q.pc, a with
  | .lookup, .lookup =>
    match s.apps.get q.appid with
    | (some app, apps) => some ({ s with apps := apps }.goto r q (found (some app)))
    | (none, apps) =>
      match try_send 100 s.lookup_app_queue (q.appid, r) with
      | some queue =>
        some ({ s with apps := apps, lookup_app_queue := queue }.goto r q (.waiting false))
      | none => some ({ s with apps := apps }.goto r q (found none))
  | .waiting true, .lookup =>
    let (app, apps) := s.apps.get q.appid
    some ({ s with apps := apps }.goto r q (found app))
  | .collecting app i, .collect =>
    s.app_states[app]?.map fun a => (s.collect conf app a).goto r q (.popping app i)
  | .popping app i, .pop =>
    s.app_states[app]?.map fun a =>
      match a.ready_instances with
      | inst :: ready =>
        (s.put app a (ready, s.terminate_queue)).goto r q
          (.fetching app i { inst with last_active := s.now })
      | [] => s.goto r q (.choosing app i)
  | .choosing app i, .choose rtid =>
    if s.clients = [] then some (s.goto r q (.ended (.error (.sched .NoAvailableInstance))))
    else (s.clients.lookup rtid).map fun client => s.goto r q (.spawning app i rtid client)
  | .spawning app i rtid client, .spawned (.ok handle) =>
    -- the handles that `spawn_worker` returns are fresh
    if handle ∈ s.spawned.map Prod.fst then none
    else
      s.app_states[app]?.map fun a =>
        { s with spawned := (handle, a.spawn_args) :: s.spawned }.goto r q
          (.fetching app i ⟨rtid, s.now, handle, client⟩)
  | .spawning _ _ _ _, .spawned (.error e) => some (s.goto r q (.ended (.error (.spawn e))))
  | .fetching app i inst, .fetched result =>
    match result with
    | .network_error => some (s.goto r q (.disconnecting app i inst))
    | .backend_error .NoSuchWorker => some (s.goto r q (next_attempt app i))
    | .backend_error e =>
      if e.terminates_worker then
        some (s.goto r q (.ended (.error (.sched .RequestFailedAfterRetries))))
      else some (s.goto r q (.pooling app inst (.error (.sched .RequestFailedAfterRetries))))
    | .response res => some (s.goto r q (.pooling app inst (.ok res)))
  | .disconnecting app i inst, .disconnect =>
    some ({ s with clients := s.clients.filter (·.1 ≠ inst.rtid) }.goto r q (next_attempt app i))
  | .pooling app inst result, .pool dropout =>
    s.app_states[app]?.map fun a =>
      let queues :=
        if dropout then (a.ready_instances, send_terminate s.terminate_queue inst)
        else (a.ready_instances ++ [inst], s.terminate_queue)
      (s.put app a queues).goto r q (.pooled app result)
  | .pooled app result, .collect =>
    s.app_states[app]?.map fun a => (s.collect conf app a).goto r q (.ended (result.bind build_response))
  | .ended _, _ => none
  | .cancelled, _ => none
  | _, .cancel => some (s.goto r q .cancelled)
  | _, _ => none

/-- The request that waits for a lookup is told that it is over. -/
def reply (s : State) (back : ℕ) : State :=
  match s.requests[back]? with
  | some q =>
    match q.pc with
    | .waiting _ => s.goto back q (.waiting true)
    | _ => s
  | none => s

/-- What `apps_gc_task` compares with the database. -/
def gc_entries (s : State) (order : List (AppId × ℕ)) : List (AppId × String × WorkerConfiguration) :=
  order.filterMap fun e => s.app_states[e.2]?.map fun a => (e.1, a.bundle_id, a.config)

/-- A step of one of the three background tasks. -/
def task_step (conf : Config) (s : State) : TaskAction → Option State
  | .recv_terminate =>
    match s.terminating, s.terminate_queue with
    | none, inst :: queue => some { s with terminate_queue := queue, terminating := some inst }
    | _, _ => none
  | .terminated => if s.terminating.isSome then some { s with terminating := none } else none
  | .recv_lookup =>
    match s.lookup, s.lookup_app_queue with
    | .idle, (id, back) :: queue =>
      some { s with lookup := .checking id back, lookup_app_queue := queue }
    | _, _ => none
  | .check =>
    match s.lookup with
    | .checking id back =>
      match s.apps.get id with
      | (some _, apps) => some { s with apps := apps, lookup := .replying back }
      | (none, apps) => some { s with apps := apps, lookup := .metadata id back }
    | _ => none
  | .app_metadata_get answer =>
    match s.lookup, answer with
    | .metadata id back, .ok (some config) =>
      -- `app_metadata_get` fills in the id it was asked for
      let config := { config with id := id }
      some { s with
        lookup := .bundle id back config
        metadata_reads := config :: s.metadata_reads }
    | .metadata _ back, _ => some { s with lookup := .replying back }
    | _, _ => none
  | .app_bundle_get answer =>
    match s.lookup, answer with
    | .bundle id back config, .ok (some bundle) =>
      some { s with
        lookup := .inserting id back (.build conf config bundle)
        bundle_reads := (config.bundle_id, bundle) :: s.bundle_reads }
    | .bundle _ back _, _ => some { s with lookup := .replying back }
    | _, _ => none
  | .insert =>
    match s.lookup with
    | .inserting id back state =>
      some { s with
        app_states := s.app_states ++ [state]
        apps := s.apps.insert id s.app_states.length
        lookup := .replying back }
    | _ => none
  | .reply =>
    match s.lookup with
    | .replying back => some { reply s back with lookup := .idle }
    | _ => none
  | .gc_begin order =>
    match s.gc with
    | .idle =>
      if h : order.Perm s.apps.entries then
        some { s with apps := s.apps.reorder order h, gc := .scanning (gc_entries s s.apps.entries) }
      else none
    | _ => none
  | .gc_check answer =>
    match s.gc with
    | .scanning ((id, bundle_id, config) :: rest) =>
      match answer with
      | .ok (some row) =>
        some { s with gc := if app_changed bundle_id config row then .removing id rest else .scanning rest }
      | .ok none => some { s with gc := .removing id rest }
      | .error _ => some { s with gc := .scanning rest }
    | _ => none
  | .gc_remove =>
    match s.gc with
    | .removing id rest => some { s with apps := s.apps.remove id, gc := .scanning rest }
    | _ => none
  | .gc_end =>
    match s.gc with
    | .scanning [] => some { s with gc := .idle }
    | _ => none

/-- The app that a request uses. -/
def RequestPc.app : RequestPc → Option ℕ
  | .collecting app _ | .popping app _ | .choosing app _ | .spawning app _ _ _ | .fetching app _ _
  | .disconnecting app _ _ | .pooling app _ _ | .pooled app _ => some app
  | _ => none

/-- The instances that a request has in its hands. -/
def RequestPc.held : RequestPc → List ReadyInstance
  | .fetching _ _ inst | .disconnecting _ _ inst | .pooling _ inst _ => [inst]
  | _ => []

/-- Nobody has the `Arc` of the app at `app` any more. -/
def unused (s : State) (app : ℕ) : Prop :=
  (∀ e ∈ s.apps.entries, e.2 ≠ app) ∧ ∀ q ∈ s.requests, q.pc.app ≠ some app

instance (s : State) (app : ℕ) : Decidable (unused s app) :=
  inferInstanceAs (Decidable (_ ∧ _))

/-- One step of the scheduler. -/
def step (conf : Config) (s : State) : Action → Option State
  | .tick n => some { s with now := s.now + n }
  | .discover rtid client =>
    if rtid ∈ s.clients.map Prod.fst then none else some { s with clients := (rtid, client) :: s.clients }
  | .drop_client rtid => some { s with clients := s.clients.filter (·.1 ≠ rtid) }
  | .metrics order =>
    if h : order.Perm s.apps.entries then some { s with apps := s.apps.reorder order h } else none
  | .free app =>
    if unused s app then
      -- the instances of its ready queue go with it
      s.app_states[app]?.map fun a => s.put app a ([], s.terminate_queue)
    else none
  | .request appid => some { s with requests := s.requests ++ [⟨appid, .lookup⟩] }
  | .step_request r a =>
    match s.requests[r]? with
    | some q => request_step conf s r q a
    | none => none
  | .step_task a => task_step conf s a

/-- The scheduler of a proxy. -/
def machine (conf : Config) : Machine State Action := ⟨step conf⟩

end Sched

end RustyWorkers

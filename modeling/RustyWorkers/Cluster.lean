/-
A proxy and its runtimes: `Scheduler::handle_request` of `Sched` calls
`Runtime::fetch` (`rusty-workers-runtime/src/runtime.rs`), which hands the
request to an instance of `Executor`.

Between the two is one RPC for each attempt of a request. It is on its way to
the runtime, then with the worker that `Runtime::fetch` has found for it, and
then answered; `NoSuchWorker` is the answer when the map `instances` has no such
worker, and when the task channel of the instance is closed. The call of attempt
`i` of request `r` is known to the instance as `(r, i)`.

The transport (`rusty-workers/src/rpc.rs`) is the outside. A runtime is up until
it is down, for good: it has a new id when it is started again. A client has one
connection, which `connect_noretry` does not make again; it can be lost, and
either end gives it up when it is to send a message that is longer than a frame.
The calls over it fail when it is gone, and a call fails when its deadline
passes, whatever the runtime is at. A runtime that is up answers `load`, when the
call gets there: a client has only so many calls in flight.
-/
import RustyWorkers.FetchReplies
import RustyWorkers.SchedRequests

set_option autoImplicit false

namespace RustyWorkers

open Lib

namespace Cluster

open Executor (Runtime RuntimeAction Answer ExecutionResult)

abbrev RuntimeId := Sched.RuntimeId

/-- A request and one of its attempts. -/
abbrev FetchId := ℕ × ℕ

/-- Where the RPC of an attempt is. -/
inductive Phase where
  | sent
  | serving (k : ℕ)
  | answered (result : ExecutionResult)

structure Call where
  deadline : ℕ
  phase : Phase

/-- The connection of a client: given up for a message that was too long, or lost. -/
inductive Connection where
  | intact
  | reset
  | lost
deriving DecidableEq, Repr

/-- The codec of the connections: the longest frame, and how long the frames are of a
spawn, of the fetch of a request, and of its answer. -/
structure Frames where
  max_frame_length : ℕ
  spawn_worker : Sched.SpawnArgs → ℕ
  fetch : ℕ → Sched.WorkerHandle → ℕ
  answer : ExecutionResult → ℕ

/-- The settings of the proxy and of its clients, and the tokens of each runtime. -/
structure Config where
  sched : Sched.Config
  request_timeout_ms : ℕ
  execution_concurrency : ℕ
  max_in_flight_requests : ℕ
  frames : Frames

/-- A request that is not at a fetch has no call, whatever `calls` has for it.
`discovered` lists the clients that have been put into `clients`. -/
structure State where
  sched : Sched.State
  runtimes : RuntimeId → Runtime FetchId
  up : RuntimeId → Bool
  connections : Sched.Client → Connection
  calls : ℕ → Call
  discovered : List (RuntimeId × Sched.Client)

inductive Action where
  | sched (a : Sched.Action)
  | serve (r : ℕ)
  | runtime (rtid : RuntimeId) (a : RuntimeAction FetchId)
  | reply (r : ℕ) (answer : Answer)
  | fetched (r : ℕ)
  | fail (r : ℕ)
  | spawn_too_long (r : ℕ)
  | lose (client : Sched.Client)
  | down (rtid : RuntimeId)

def start (conf : Config) : State :=
  ⟨Sched.start conf.sched, fun _ => .new conf.execution_concurrency, fun _ => true, fun _ => .intact,
    fun _ => ⟨0, .sent⟩, []⟩

/-- What the RPC comes back with, if it comes back. -/
def fetch_result : ExecutionResult → Sched.FetchResult
  | .ok res => .response res
  | .error e => .backend_error e

/-- The worker that the map `instances` has under a handle. -/
def find (rt : Runtime FetchId) (handle : Sched.WorkerHandle) : Option ℕ :=
  rt.workers.findIdx? fun w => w.handle = handle.id ∧ w.listing = .listed

/-- `Runtime::spawn` has returned the handle. -/
def spawned (rt : Runtime FetchId) (handle : Sched.WorkerHandle) : Bool :=
  rt.workers.any fun w => w.handle = handle.id ∧ w.listing ≠ .spawning

def is_fetch : RuntimeAction FetchId → Bool
  | .worker _ (.fetch _) => true
  | _ => false

namespace State

/-- The attempt and the instance of a request that waits for its fetch. -/
def fetching (s : State) (r : ℕ) : Option (ℕ × Sched.ReadyInstance) :=
  match s.sched.requests[r]? with
  | some q =>
    match q.pc with
    | .fetching _ i inst => some (i, inst)
    | _ => none
  | none => none

/-- The call of request `r` goes on. -/
def set_phase (s : State) (r : ℕ) (phase : Phase) : State :=
  { s with calls := Function.update s.calls r { s.calls r with phase := phase } }

def set_runtime (s : State) (rtid : RuntimeId) (rt : Runtime FetchId) : State :=
  { s with runtimes := Function.update s.runtimes rtid rt }

/-- What a request that waits for `spawn_worker` has called it with. -/
def spawning (s : State) (r : ℕ) : Option (Sched.SpawnArgs × RuntimeId × Sched.Client) :=
  match s.sched.requests[r]? with
  | some q =>
    match q.pc with
    | .spawning app _ rtid client => s.sched.app_states[app]?.map fun a => (a.spawn_args, rtid, client)
    | _ => none
  | none => none

/-- The runtime has not answered the call yet. -/
def unanswered (s : State) (r : ℕ) : Bool :=
  match (s.calls r).phase with
  | .answered _ => false
  | _ => true

/-- The runtime can be reached over the connection of the client. -/
def connected (s : State) (rtid : RuntimeId) (client : Sched.Client) : Bool :=
  s.up rtid && decide (s.connections client = .intact)

/-- Request `r` waits for an RPC over the connection of the client. -/
def calls_over (s : State) (client : Sched.Client) (r : ℕ) : Bool :=
  (s.spawning r).any (fun call => call.2.2 = client)
    || ((s.fetching r).any (fun call => call.2.client = client) && s.unanswered r)

/-- The calls over a connection: those of the requests, and `terminate_worker`. -/
def in_flight (s : State) (client : Sched.Client) : ℕ :=
  (List.range s.sched.requests.length).countP (s.calls_over client)
    + if s.sched.terminating.any (fun inst => inst.client = client) then 1 else 0

/-- `query_runtimes` has an answer to `load`. -/
def answers_load (conf : Config) (s : State) (rtid : RuntimeId) (client : Sched.Client) : Bool :=
  s.connected rtid client && decide (s.in_flight client < conf.max_in_flight_requests)

/-- An end of the connection has a message for it that is too long. -/
def reset (s : State) (client : Sched.Client) : State :=
  { s with connections := Function.update s.connections client .reset }

/-- Steps of the scheduler that need nothing of the runtimes, and those that a
runtime has an answer for. -/
def allowed (conf : Config) (s : State) : Sched.Action → Bool
  | .discover _ client => decide (client ∉ s.discovered.map Prod.snd)
  -- a runtime that answers `load` is kept
  | .drop_client rtid => s.sched.clients.all fun e => e.1 ≠ rtid || !s.answers_load conf rtid e.2
  -- what a fetch comes back with is for `fetched` and `fail` to say
  | .step_request _ (.fetched _) => false
  -- `Runtime::spawn` of the runtime that was chosen has returned the handle
  | .step_request r (.spawned (.ok handle)) =>
    match s.spawning r with
    | some (args, rtid, client) =>
      spawned (s.runtimes rtid) handle && s.connected rtid client
        && decide (conf.frames.spawn_worker args ≤ conf.frames.max_frame_length)
    | none => false
  | _ => true

/-- A step of the scheduler. A request that comes to a fetch makes a call. -/
def set_sched (conf : Config) (s : State) (a : Sched.Action) (sched : Sched.State) : State :=
  { s with
    sched := sched
    calls := match a with
      | .step_request r _ => Function.update s.calls r ⟨sched.now + conf.request_timeout_ms, .sent⟩
      | _ => s.calls
    discovered := match a with
      | .discover rtid client => (rtid, client) :: s.discovered
      | _ => s.discovered }

def step (conf : Config) (s : State) : Action → Option State
  | .sched a =>
    if s.allowed conf a then (Sched.step conf.sched s.sched a).map (s.set_sched conf a) else none
  | .serve r =>
    match s.fetching r, (s.calls r).phase with
    | some (i, inst), .sent =>
      if s.connected inst.rtid inst.client then
        if conf.frames.fetch r inst.handle ≤ conf.frames.max_frame_length then
          match find (s.runtimes inst.rtid) inst.handle with
          | some k =>
            ((s.runtimes inst.rtid).step (.worker k (.fetch (r, i)))).map fun rt =>
              (s.set_runtime inst.rtid rt).set_phase r (.serving k)
          -- the map `instances` has no such worker
          | none => some (s.set_phase r (.answered (.error .NoSuchWorker)))
        else some (s.reset inst.client)
      else none
    | _, _ => none
  | .runtime rtid a =>
    -- a fetch comes to an instance by `serve` only
    if s.up rtid ∧ is_fetch a = false then ((s.runtimes rtid).step a).map (s.set_runtime rtid) else none
  | .reply r answer =>
    match s.fetching r, (s.calls r).phase with
    | some (i, inst), .serving k =>
      match (s.runtimes inst.rtid).workers[k]? with
      | some w =>
        if s.connected inst.rtid inst.client ∧ ((r, i), answer) ∈ w.inst.results then
          if conf.frames.answer answer.result ≤ conf.frames.max_frame_length then
            some (s.set_phase r (.answered answer.result))
          else some (s.reset inst.client)
        else none
      | none => none
    | _, _ => none
  | .fetched r =>
    match (s.calls r).phase with
    | .answered result =>
      (Sched.step conf.sched s.sched (.step_request r (.fetched (fetch_result result)))).map fun sched =>
        { s with sched := sched }
    | _ => none
  | .fail r =>
    match s.fetching r with
    | some (_, inst) =>
      -- the connection is gone, or the deadline has passed
      if s.unanswered r ∧ (s.connected inst.rtid inst.client = false ∨ (s.calls r).deadline < s.sched.now) then
        (Sched.step conf.sched s.sched (.step_request r (.fetched .network_error))).map fun sched =>
          { s with sched := sched }
      else none
    | none => none
  | .spawn_too_long r =>
    match s.spawning r with
    | some (args, rtid, client) =>
      if s.connected rtid client ∧ conf.frames.max_frame_length < conf.frames.spawn_worker args then
        some (s.reset client)
      else none
    | none => none
  | .lose client =>
    if s.connections client = .intact then
      some { s with connections := Function.update s.connections client .lost }
    else none
  | .down rtid => some { s with up := Function.update s.up rtid false }

end State

/-- A proxy and any number of runtimes. -/
def machine (conf : Config) : Machine State Action := ⟨State.step conf⟩

/-! ## What a step can do -/

variable {conf : Config} {s s' : State}

theorem fetching_eq_some {r i : ℕ} {inst : Sched.ReadyInstance} :
    s.fetching r = some (i, inst) ↔
      ∃ q app, s.sched.requests[r]? = some q ∧ q.pc = .fetching app i inst := by
  constructor
  · intro h
    unfold State.fetching at h
    split at h
    · rename_i q hq
      split at h
      · rename_i app j inst' hpc
        obtain ⟨rfl, rfl⟩ : j = i ∧ inst' = inst := by simpa using h
        exact ⟨q, app, hq, hpc⟩
      · cases h
    · cases h
  · rintro ⟨q, app, hq, hpc⟩
    simp only [State.fetching, hq, hpc]

theorem connected_eq_true {rtid : RuntimeId} {client : Sched.Client} :
    s.connected rtid client = true ↔ s.up rtid = true ∧ s.connections client = .intact := by
  simp [State.connected]

/-- What a step of the cluster can do. -/
inductive Effect (conf : Config) (s : State) : Action → State → Prop
  | sched {a : Sched.Action} {sched : Sched.State} (allowed : s.allowed conf a = true)
      (step : Sched.step conf.sched s.sched a = some sched) :
      Effect conf s (.sched a) (s.set_sched conf a sched)
  | delivered {r i k : ℕ} {inst : Sched.ReadyInstance} {rt : Runtime FetchId}
      (fetching : s.fetching r = some (i, inst)) (sent : (s.calls r).phase = .sent)
      (found : find (s.runtimes inst.rtid) inst.handle = some k)
      (step : (s.runtimes inst.rtid).step (.worker k (.fetch (r, i))) = some rt)
      (fits : conf.frames.fetch r inst.handle ≤ conf.frames.max_frame_length) :
      Effect conf s (.serve r) ((s.set_runtime inst.rtid rt).set_phase r (.serving k))
  | unknown {r i : ℕ} {inst : Sched.ReadyInstance} (fetching : s.fetching r = some (i, inst))
      (sent : (s.calls r).phase = .sent) (missing : find (s.runtimes inst.rtid) inst.handle = none)
      (fits : conf.frames.fetch r inst.handle ≤ conf.frames.max_frame_length) :
      Effect conf s (.serve r) (s.set_phase r (.answered (.error .NoSuchWorker)))
  | call_too_long {r i : ℕ} {inst : Sched.ReadyInstance} (fetching : s.fetching r = some (i, inst))
      (sent : (s.calls r).phase = .sent) (connected : s.connected inst.rtid inst.client = true)
      (long : conf.frames.max_frame_length < conf.frames.fetch r inst.handle) :
      Effect conf s (.serve r) (s.reset inst.client)
  | runtime {rtid : RuntimeId} {a : RuntimeAction FetchId} {rt : Runtime FetchId}
      (nofetch : is_fetch a = false) (step : (s.runtimes rtid).step a = some rt) :
      Effect conf s (.runtime rtid a) (s.set_runtime rtid rt)
  | reply {r i k : ℕ} {inst : Sched.ReadyInstance} {answer : Answer} {w : Executor.Worker FetchId}
      (fetching : s.fetching r = some (i, inst)) (serving : (s.calls r).phase = .serving k)
      (worker : (s.runtimes inst.rtid).workers[k]? = some w) (result : ((r, i), answer) ∈ w.inst.results)
      (fits : conf.frames.answer answer.result ≤ conf.frames.max_frame_length) :
      Effect conf s (.reply r answer) (s.set_phase r (.answered answer.result))
  | answer_too_long {r i k : ℕ} {inst : Sched.ReadyInstance} {answer : Answer}
      (fetching : s.fetching r = some (i, inst)) (serving : (s.calls r).phase = .serving k)
      (connected : s.connected inst.rtid inst.client = true)
      (long : conf.frames.max_frame_length < conf.frames.answer answer.result) :
      Effect conf s (.reply r answer) (s.reset inst.client)
  | fetched {r : ℕ} {result : ExecutionResult} {sched : Sched.State}
      (answered : (s.calls r).phase = .answered result)
      (step : Sched.step conf.sched s.sched (.step_request r (.fetched (fetch_result result))) = some sched) :
      Effect conf s (.fetched r) { s with sched := sched }
  | fail {r i : ℕ} {inst : Sched.ReadyInstance} {sched : Sched.State}
      (fetching : s.fetching r = some (i, inst)) (unanswered : s.unanswered r = true)
      (broken : s.connected inst.rtid inst.client = false ∨ (s.calls r).deadline < s.sched.now)
      (step : Sched.step conf.sched s.sched (.step_request r (.fetched .network_error)) = some sched) :
      Effect conf s (.fail r) { s with sched := sched }
  | spawn_too_long {r : ℕ} {args : Sched.SpawnArgs} {rtid : RuntimeId} {client : Sched.Client}
      (spawning : s.spawning r = some (args, rtid, client)) (connected : s.connected rtid client = true)
      (long : conf.frames.max_frame_length < conf.frames.spawn_worker args) :
      Effect conf s (.spawn_too_long r) (s.reset client)
  | lose {client : Sched.Client} (intact : s.connections client = .intact) :
      Effect conf s (.lose client) { s with connections := Function.update s.connections client .lost }
  | down {rtid : RuntimeId} : Effect conf s (.down rtid) { s with up := Function.update s.up rtid false }

theorem step_effect {a : Action} (h : s.step conf a = some s') : Effect conf s a s' := by
  cases a with
  | sched a =>
    obtain ⟨hallowed, h⟩ := Option.ite_none_right_eq_some.1 h
    obtain ⟨sched, hstep, rfl⟩ := Option.map_eq_some_iff.1 h
    exact .sched hallowed hstep
  | serve r =>
    simp only [State.step] at h
    split at h
    · rename_i i inst hfetching hsent
      obtain ⟨hconnected, h⟩ := Option.ite_none_right_eq_some.1 h
      split at h
      · rename_i hfits
        split at h
        · rename_i k hfind
          obtain ⟨rt, hstep, rfl⟩ := Option.map_eq_some_iff.1 h
          exact .delivered hfetching hsent hfind hstep hfits
        · rename_i hfind
          obtain rfl := Option.some.inj h
          exact .unknown hfetching hsent hfind hfits
      · rename_i hlong
        obtain rfl := Option.some.inj h
        exact .call_too_long hfetching hsent hconnected (by omega)
    · cases h
  | runtime rtid a =>
    obtain ⟨⟨-, hnofetch⟩, h⟩ := Option.ite_none_right_eq_some.1 h
    obtain ⟨rt, hstep, rfl⟩ := Option.map_eq_some_iff.1 h
    exact .runtime hnofetch hstep
  | reply r answer =>
    simp only [State.step] at h
    split at h
    · rename_i i inst k hfetching hserving
      split at h
      · rename_i w hw
        obtain ⟨⟨hconnected, hresult⟩, h⟩ := Option.ite_none_right_eq_some.1 h
        split at h
        · rename_i hfits
          obtain rfl := Option.some.inj h
          exact .reply hfetching hserving hw hresult hfits
        · rename_i hlong
          obtain rfl := Option.some.inj h
          exact .answer_too_long hfetching hserving hconnected (by omega)
      · cases h
    · cases h
  | fetched r =>
    simp only [State.step] at h
    split at h
    · rename_i result hphase
      obtain ⟨sched, hstep, rfl⟩ := Option.map_eq_some_iff.1 h
      exact .fetched hphase hstep
    · cases h
  | fail r =>
    simp only [State.step] at h
    split at h
    · rename_i i inst hfetching
      obtain ⟨⟨hunanswered, hbroken⟩, h⟩ := Option.ite_none_right_eq_some.1 h
      obtain ⟨sched, hstep, rfl⟩ := Option.map_eq_some_iff.1 h
      exact .fail hfetching hunanswered hbroken hstep
    · cases h
  | spawn_too_long r =>
    simp only [State.step] at h
    split at h
    · rename_i args rtid client hspawning
      obtain ⟨⟨hconnected, hlong⟩, h⟩ := Option.ite_none_right_eq_some.1 h
      obtain rfl := Option.some.inj h
      exact .spawn_too_long hspawning hconnected hlong
    · cases h
  | lose client =>
    obtain ⟨hintact, h⟩ := Option.ite_none_right_eq_some.1 h
    obtain rfl := Option.some.inj h
    exact .lose hintact
  | down rtid =>
    obtain rfl := Option.some.inj h
    exact .down

end Cluster

end RustyWorkers

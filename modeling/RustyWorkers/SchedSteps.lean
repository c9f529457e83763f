/-
What a step of the scheduler does, said once for each kind of step.

`RequestEffect`, `TaskEffect` and `StepEffect` invert the step functions: where a
request or a task was, what it has found there, and the state that it leaves.
Every invariant of the scheduler is a case analysis of these, and unfolds no step
function. For the cache of apps all steps of requests are alike (`Quiet`): they
look an app up, which only changes what has been used last, and work on the ready
queue of the app that they have found.
-/
import RustyWorkers.Sched

set_option autoImplicit false

namespace RustyWorkers

open Lib

namespace Sched

/-! ## Requests -/

/-- Where a request goes with what its fetch comes back with. -/
def after_fetch (app i : ℕ) (inst : ReadyInstance) : FetchResult → RequestPc
  | .network_error => .disconnecting app i inst
  | .backend_error .NoSuchWorker => next_attempt app i
  | .backend_error e =>
    if e.terminates_worker then .ended (.error (.sched .RequestFailedAfterRetries))
    else .pooling app inst (.error (.sched .RequestFailedAfterRetries))
  | .response res => .pooling app inst (.ok res)

/-- What a step of request `r`, which is `q`, can do. -/
inductive RequestEffect (conf : Config) (s : State) (r : ℕ) (q : Request) : RequestAction → State → Prop
  | hit {app : ℕ} (pc : q.pc = .lookup) (cached : s.apps.find q.appid = some app) :
      RequestEffect conf s r q .lookup ({ s with apps := s.apps.touch q.appid }.goto r q (found (some app)))
  | ask (pc : q.pc = .lookup) (missing : s.apps.find q.appid = none) (room : s.lookup_app_queue.length < 100) :
      RequestEffect conf s r q .lookup
        ({ s with
            apps := s.apps.touch q.appid
            lookup_app_queue := s.lookup_app_queue ++ [(q.appid, r)] }.goto r q (.waiting false))
  | full (pc : q.pc = .lookup) (missing : s.apps.find q.appid = none)
      (full : ¬ s.lookup_app_queue.length < 100) :
      RequestEffect conf s r q .lookup ({ s with apps := s.apps.touch q.appid }.goto r q (found none))
  | look_again (pc : q.pc = .waiting true) :
      RequestEffect conf s r q .lookup
        ({ s with apps := s.apps.touch q.appid }.goto r q (found (s.apps.find q.appid)))
  | collect {app i : ℕ} {a : AppState} (pc : q.pc = .collecting app i) (ha : s.app_states[app]? = some a) :
      RequestEffect conf s r q .collect ((s.collect conf app a).goto r q (.popping app i))
  | pop {app i : ℕ} {a : AppState} {inst : ReadyInstance} {ready : List ReadyInstance}
      (pc : q.pc = .popping app i) (ha : s.app_states[app]? = some a)
      (front : a.ready_instances = inst :: ready) :
      RequestEffect conf s r q .pop
        ((s.put app a (ready, s.terminate_queue)).goto r q (.fetching app i { inst with last_active := s.now }))
  | empty {app i : ℕ} {a : AppState} (pc : q.pc = .popping app i) (ha : s.app_states[app]? = some a)
      (front : a.ready_instances = []) : RequestEffect conf s r q .pop (s.goto r q (.choosing app i))
  | no_client {app i : ℕ} {rtid : RuntimeId} (pc : q.pc = .choosing app i) (none : s.clients = []) :
      RequestEffect conf s r q (.choose rtid) (s.goto r q (.ended (.error (.sched .NoAvailableInstance))))
  | choose {app i : ℕ} {rtid : RuntimeId} {client : Client} (pc : q.pc = .choosing app i)
      (entry : s.clients.lookup rtid = some client) :
      RequestEffect conf s r q (.choose rtid) (s.goto r q (.spawning app i rtid client))
  | spawned {app i : ℕ} {rtid : RuntimeId} {client : Client} {handle : WorkerHandle} {a : AppState}
      (pc : q.pc = .spawning app i rtid client) (fresh : handle ∉ s.spawned.map Prod.fst)
      (ha : s.app_states[app]? = some a) :
      RequestEffect conf s r q (.spawned (.ok handle))
        ({ s with spawned := (handle, a.spawn_args) :: s.spawned }.goto r q
          (.fetching app i ⟨rtid, s.now, handle, client⟩))
  | not_spawned {app i : ℕ} {rtid : RuntimeId} {client : Client} {e : GenericError}
      (pc : q.pc = .spawning app i rtid client) :
      RequestEffect conf s r q (.spawned (.error e)) (s.goto r q (.ended (.error (.spawn e))))
  | fetched {app i : ℕ} {inst : ReadyInstance} (result : FetchResult) (pc : q.pc = .fetching app i inst) :
      RequestEffect conf s r q (.fetched result) (s.goto r q (after_fetch app i inst result))
  | disconnect {app i : ℕ} {inst : ReadyInstance} (pc : q.pc = .disconnecting app i inst) :
      RequestEffect conf s r q .disconnect
        ({ s with clients := s.clients.filter (·.1 ≠ inst.rtid) }.goto r q (next_attempt app i))
  | pool {app : ℕ} {inst : ReadyInstance} {result : FetchOutcome} {a : AppState}
      (pc : q.pc = .pooling app inst result) (ha : s.app_states[app]? = some a) :
      RequestEffect conf s r q (.pool false)
        ((s.put app a (a.ready_instances ++ [inst], s.terminate_queue)).goto r q (.pooled app result))
  | dropout {app : ℕ} {inst : ReadyInstance} {result : FetchOutcome} {a : AppState}
      (pc : q.pc = .pooling app inst result) (ha : s.app_states[app]? = some a) :
      RequestEffect conf s r q (.pool true)
        ((s.put app a (a.ready_instances, send_terminate s.terminate_queue inst)).goto r q (.pooled app result))
  | collect_pool {app : ℕ} {result : FetchOutcome} {a : AppState} (pc : q.pc = .pooled app result)
      (ha : s.app_states[app]? = some a) :
      RequestEffect conf s r q .collect ((s.collect conf app a).goto r q (.ended (result.bind build_response)))
  | cancel : RequestEffect conf s r q .cancel (s.goto r q .cancelled)

theorem request_effect {conf : Config} {s s' : State} {r : ℕ} {q : Request} {a : RequestAction}
    (h : request_step conf s r q a = some s') : RequestEffect conf s r q a s' := by
  unfold request_step at h
  split at h
  · rename_i hpc
    simp only [LruCache.get] at h
    split at h
    · rename_i heq
      obtain ⟨hcached, rfl⟩ := Prod.mk.inj heq
      obtain rfl := Option.some.inj h
      exact .hit hpc hcached
    · rename_i heq
      obtain ⟨hmissing, rfl⟩ := Prod.mk.inj heq
      split at h
      · rename_i hsend
        obtain ⟨hroom, hqueue⟩ := Option.ite_none_right_eq_some.1 hsend
        obtain rfl := Option.some.inj hqueue
        obtain rfl := Option.some.inj h
        exact .ask hpc hmissing hroom
      · rename_i hsend
        obtain rfl := Option.some.inj h
        exact .full hpc hmissing (by simpa [try_send] using hsend)
  · obtain rfl := Option.some.inj h
    exact .look_again ‹_›
  · obtain ⟨a, ha, rfl⟩ := Option.map_eq_some_iff.1 h
    exact .collect ‹_› ha
  · obtain ⟨a, ha, rfl⟩ := Option.map_eq_some_iff.1 h
    split
    · exact .pop ‹_› ha ‹_›
    · exact .empty ‹_› ha ‹_›
  · split at h
    · obtain rfl := Option.some.inj h
      exact .no_client ‹_› ‹_›
    · obtain ⟨client, hentry, rfl⟩ := Option.map_eq_some_iff.1 h
      exact .choose ‹_› hentry
  · obtain ⟨hfresh, h⟩ := Option.ite_none_left_eq_some.1 h
    obtain ⟨a, ha, rfl⟩ := Option.map_eq_some_iff.1 h
    exact .spawned ‹_› hfresh ha
  · obtain rfl := Option.some.inj h
    exact .not_spawned ‹_›
  · rename_i app i inst result hpc
    have heffect : RequestEffect conf s r q (.fetched result) _ := .fetched result hpc
    cases result with
    | network_error | response =>
      obtain rfl := Option.some.inj h
      exact heffect
    | backend_error e =>
      -- every error has a branch of its own, after its class
      cases e <;> obtain rfl := Option.some.inj h <;> exact heffect
  · obtain rfl := Option.some.inj h
    exact .disconnect ‹_›
  · rename_i dropout hpc
    obtain ⟨a, ha, rfl⟩ := Option.map_eq_some_iff.1 h
    cases dropout with
    | false => exact .pool hpc ha
    | true => exact .dropout hpc ha
  · obtain ⟨a, ha, rfl⟩ := Option.map_eq_some_iff.1 h
    exact .collect_pool ‹_› ha
  · cases h
  · cases h
  · obtain rfl := Option.some.inj h
    exact .cancel
  · cases h

/-! ## The background tasks -/

/-- The app at an address, whatever its ready queue holds. -/
def State.app (s : State) (app : ℕ) : Option AppState :=
  s.app_states[app]?.map fun a => { a with ready_instances := [] }

/-- The cache of apps, and the tasks that work on it, are as they were. -/
structure Quiet (s s' : State) : Prop where
  apps : s'.apps.entries.Perm s.apps.entries
  app : ∀ app, s'.app app = s.app app
  lookup : s'.lookup = s.lookup
  gc : s'.gc = s.gc
  bundle_reads : s'.bundle_reads = s.bundle_reads

theorem Quiet.refl (s : State) : Quiet s s := ⟨.rfl, fun _ => rfl, rfl, rfl, rfl⟩

/-- Where `apps_gc_task` goes when it has read the row of the next app. -/
def after_check (id : AppId) (bundle_id : String) (config : WorkerConfiguration)
    (rest : List (AppId × String × WorkerConfiguration)) : Except GenericError (Option AppConfig) → GcPc
  | .ok (some row) => if app_changed bundle_id config row then .removing id rest else .scanning rest
  | .ok none => .removing id rest
  | .error _ => .scanning rest

/-- What a step of a background task can do. -/
inductive TaskEffect (conf : Config) (s : State) : TaskAction → State → Prop
  | quiet {b : TaskAction} {s' : State} (terminate : b = .recv_terminate ∨ b = .terminated) (quiet : Quiet s s')
      (requests : s'.requests = s.requests) (queue : s'.lookup_app_queue = s.lookup_app_queue) : TaskEffect conf s b s'
  | recv {id : AppId} {back : ℕ} {queue : List (AppId × ℕ)} (idle : s.lookup = .idle)
      (head : s.lookup_app_queue = (id, back) :: queue) :
      TaskEffect conf s .recv_lookup { s with lookup := .checking id back, lookup_app_queue := queue }
  | hit {id : AppId} {back app : ℕ} (place : s.lookup = .checking id back) (found : s.apps.find id = some app) :
      TaskEffect conf s .check { s with apps := s.apps.touch id, lookup := .replying back }
  | miss {id : AppId} {back : ℕ} (place : s.lookup = .checking id back) (missing : s.apps.find id = none) :
      TaskEffect conf s .check { s with apps := s.apps.touch id, lookup := .metadata id back }
  | metadata {id : AppId} {back : ℕ} {config : AppConfig} (place : s.lookup = .metadata id back) :
      TaskEffect conf s (.app_metadata_get (.ok (some config)))
        { s with
          lookup := .bundle id back { config with id := id }
          metadata_reads := { config with id := id } :: s.metadata_reads }
  | no_metadata {id : AppId} {back : ℕ} {answer : Except GenericError (Option AppConfig)}
      (place : s.lookup = .metadata id back) (none : ∀ config, answer ≠ .ok (some config)) :
      TaskEffect conf s (.app_metadata_get answer) { s with lookup := .replying back }
  | bundle {id : AppId} {back : ℕ} {config : AppConfig} {bundle : Bytes}
      (place : s.lookup = .bundle id back config) :
      TaskEffect conf s (.app_bundle_get (.ok (some bundle)))
        { s with
          lookup := .inserting id back (.build conf config bundle)
          bundle_reads := (config.bundle_id, bundle) :: s.bundle_reads }
  | no_bundle {id : AppId} {back : ℕ} {config : AppConfig} {answer : Except GenericError (Option Bytes)}
      (place : s.lookup = .bundle id back config) (none : ∀ bundle, answer ≠ .ok (some bundle)) :
      TaskEffect conf s (.app_bundle_get answer) { s with lookup := .replying back }
  | insert {id : AppId} {back : ℕ} {a : AppState} (place : s.lookup = .inserting id back a) :
      TaskEffect conf s .insert
        { s with
          app_states := s.app_states ++ [a]
          apps := s.apps.insert id s.app_states.length
          lookup := .replying back }
  | reply {back : ℕ} (place : s.lookup = .replying back) :
      TaskEffect conf s .reply { s with requests := (reply s back).requests, lookup := .idle }
  | gc_begin {order : List (AppId × ℕ)} (idle : s.gc = .idle) (perm : order.Perm s.apps.entries) :
      TaskEffect conf s (.gc_begin order)
        { s with apps := s.apps.reorder order perm, gc := .scanning (gc_entries s s.apps.entries) }
  | gc_check {id : AppId} {bundle_id : String} {config : WorkerConfiguration}
      {rest : List (AppId × String × WorkerConfiguration)} {answer : Except GenericError (Option AppConfig)}
      (place : s.gc = .scanning ((id, bundle_id, config) :: rest)) :
      TaskEffect conf s (.gc_check answer) { s with gc := after_check id bundle_id config rest answer }
  | gc_remove {id : AppId} {rest : List (AppId × String × WorkerConfiguration)} (place : s.gc = .removing id rest) :
      TaskEffect conf s .gc_remove { s with apps := s.apps.remove id, gc := .scanning rest }
  | gc_end (place : s.gc = .scanning []) : TaskEffect conf s .gc_end { s with gc := .idle }

section Steps

variable {conf : Config} {s s' : State}

theorem reply_eq (s : State) (back : ℕ) : reply s back = { s with requests := (reply s back).requests } := by
  unfold reply
  split
  · split <;> rfl
  · rfl

theorem task_effect {b : TaskAction} (h : task_step conf s b = some s') : TaskEffect conf s b s' := by
  cases b with
  | recv_terminate =>
    simp only [task_step] at h
    split at h
    · obtain rfl := Option.some.inj h
      exact .quiet (Or.inl rfl) ⟨.rfl, fun _ => rfl, rfl, rfl, rfl⟩ rfl rfl
    · cases h
  | terminated =>
    simp only [task_step, Option.ite_none_right_eq_some, Option.some.injEq] at h
    obtain ⟨-, rfl⟩ := h
    exact .quiet (Or.inr rfl) ⟨.rfl, fun _ => rfl, rfl, rfl, rfl⟩ rfl rfl
  | recv_lookup =>
    simp only [task_step] at h
    split at h
    · rename_i hidle hqueue
      obtain rfl := Option.some.inj h
      exact .recv hidle hqueue
    · cases h
  | check =>
    simp only [task_step, LruCache.get] at h
    split at h
    · rename_i hplace
      split at h
      · rename_i heq
        obtain ⟨hfound, rfl⟩ := Prod.mk.inj heq
        obtain rfl := Option.some.inj h
        exact .hit hplace hfound
      · rename_i heq
        obtain ⟨hmissing, rfl⟩ := Prod.mk.inj heq
        obtain rfl := Option.some.inj h
        exact .miss hplace hmissing
    · cases h
  | app_metadata_get answer =>
    simp only [task_step] at h
    split at h
    · rename_i hplace
      obtain rfl := Option.some.inj h
      exact .metadata hplace
    · rename_i hplace hno
      obtain rfl := Option.some.inj h
      exact .no_metadata hplace hno
    · cases h
  | app_bundle_get answer =>
    simp only [task_step] at h
    split at h
    · rename_i hplace
      obtain rfl := Option.some.inj h
      exact .bundle hplace
    · rename_i hplace hno
      obtain rfl := Option.some.inj h
      exact .no_bundle hplace hno
    · cases h
  | insert =>
    simp only [task_step] at h
    split at h
    · rename_i hplace
      obtain rfl := Option.some.inj h
      exact .insert hplace
    · cases h
  | reply =>
    simp only [task_step] at h
    split at h
    · rename_i hplace
      obtain rfl := Option.some.inj h
      rw [reply_eq]
      exact .reply hplace
    · cases h
  | gc_begin order =>
    simp only [task_step] at h
    split at h
    · rename_i hidle
      split at h
      · rename_i hperm
        obtain rfl := Option.some.inj h
        exact .gc_begin hidle hperm
      · cases h
    · cases h
  | gc_check answer =>
    simp only [task_step] at h
    split at h
    · rename_i hplace
      have heffect : TaskEffect conf s (.gc_check answer) _ := .gc_check hplace
      split at h <;> obtain rfl := Option.some.inj h <;> exact heffect
    · cases h
  | gc_remove =>
    simp only [task_step] at h
    split at h
    · rename_i hplace
      obtain rfl := Option.some.inj h
      exact .gc_remove hplace
    · cases h
  | gc_end =>
    simp only [task_step] at h
    split at h
    · rename_i hplace
      obtain rfl := Option.some.inj h
      exact .gc_end hplace
    · cases h

end Steps

/-! ## All steps -/

/-- What a step of the scheduler can do; what a request and a task do is for
`RequestEffect` and `TaskEffect` to say. -/
inductive StepEffect (conf : Config) (s : State) : Action → State → Prop
  | tick (n : ℕ) : StepEffect conf s (.tick n) { s with now := s.now + n }
  | discover {rtid : RuntimeId} {client : Client} (new : rtid ∉ s.clients.map Prod.fst) :
      StepEffect conf s (.discover rtid client) { s with clients := (rtid, client) :: s.clients }
  | drop_client (rtid : RuntimeId) :
      StepEffect conf s (.drop_client rtid) { s with clients := s.clients.filter (·.1 ≠ rtid) }
  | metrics {order : List (AppId × ℕ)} (perm : order.Perm s.apps.entries) :
      StepEffect conf s (.metrics order) { s with apps := s.apps.reorder order perm }
  | free {app : ℕ} {a : AppState} (unused : unused s app) (ha : s.app_states[app]? = some a) :
      StepEffect conf s (.free app) (s.put app a ([], s.terminate_queue))
  | request (appid : AppId) :
      StepEffect conf s (.request appid) { s with requests := s.requests ++ [⟨appid, .lookup⟩] }
  | step_request {r : ℕ} {q : Request} {b : RequestAction} {s' : State} (hq : s.requests[r]? = some q)
      (hs : request_step conf s r q b = some s') : StepEffect conf s (.step_request r b) s'
  | step_task {b : TaskAction} {s' : State} (hs : task_step conf s b = some s') :
      StepEffect conf s (.step_task b) s'

theorem step_effect {conf : Config} {s s' : State} {a : Action} (h : step conf s a = some s') :
    StepEffect conf s a s' := by
  cases a with
  | tick n =>
    obtain rfl := Option.some.inj h
    exact .tick n
  | discover rtid client =>
    obtain ⟨hnew, h⟩ := Option.ite_none_left_eq_some.1 h
    obtain rfl := Option.some.inj h
    exact .discover hnew
  | drop_client rtid =>
    obtain rfl := Option.some.inj h
    exact .drop_client rtid
  | metrics order =>
    simp only [step] at h
    split at h
    · rename_i hperm
      obtain rfl := Option.some.inj h
      exact .metrics hperm
    · cases h
  | free app =>
    obtain ⟨hunused, h⟩ := Option.ite_none_right_eq_some.1 h
    obtain ⟨a, ha, rfl⟩ := Option.map_eq_some_iff.1 h
    exact .free hunused ha
  | request appid =>
    obtain rfl := Option.some.inj h
    exact .request appid
  | step_request r b =>
    simp only [step] at h
    split at h
    · exact .step_request ‹_› h
    · cases h
  | step_task b => exact .step_task h

end Sched

end RustyWorkers

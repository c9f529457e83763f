/-
The two caches of a proxy over the tables of the database
(`rusty-workers-proxy/src/sched.rs`): `Sched` has the cache of apps and what
works on it, and this module adds the cache of routes, the first part of
`handle_request`, which routes a request to its app, and the two tasks
`lookup_route_background` and `route_cache_gc_task`.

The database answers every read with what its tables hold at that moment, or
with an error; an action says which. In between an operator changes the tables.
A request that has been routed, and whose body has been read, goes on as a
request of `Sched`.
-/
import RustyWorkers.Routes

set_option autoImplicit false

namespace RustyWorkers

open Lib

namespace Routing

open Sched (AppId AppConfig)

structure Config where
  sched : Sched.Config
  route_cache_size : ℕ

/-- Why a request fails before it has an app id and a body. -/
inductive IncomingError where
  | NoRouteMapping
  | Body
deriving DecidableEq, Repr

/-- Where the first part of `handle_request` is; then it is request `r` of the
scheduler. -/
inductive IncomingPc where
  | lookup
  | waiting (answered : Bool)
  | body (appid : AppId)
  | handed (r : ℕ)
  | failed (e : IncomingError)
  | cancelled

structure Incoming where
  host : String
  path : String
  pc : IncomingPc

/-- Where `do_lookup_route_background` is; the request `back` waits for it. -/
inductive LookupPc where
  | idle
  | checking (domain : String) (back : ℕ)
  | listing (domain : String) (back : ℕ)
  | inserting (domain : String) (map : RouteMap) (back : ℕ)
  | replying (back : ℕ)

/-- Where `route_cache_gc_task` is, with the domains that are still to check. -/
inductive GcPc where
  | idle
  | scanning (domains : List String)
  | comparing (domain : String) (map : RouteMap) (domains : List String)

structure State where
  sched : Sched.State
  db : Database
  route_cache : LruCache String RouteMap
  incoming : List Incoming
  lookup_route_queue : List ((String × String) × ℕ)
  lookup : LookupPc
  gc : GcPc

inductive IncomingAction where
  | lookup
  | read_body (ok : Bool)
  | cancel

/-- The steps of the two tasks; a read of the database succeeds, or not. -/
inductive TaskAction where
  | recv_lookup
  | check
  | list (ok : Bool)
  | insert
  | reply
  | gc_begin (domains : List String)
  | gc_list (ok : Bool)
  | gc_compare
  | gc_end

inductive Action where
  | sched (a : Sched.Action)
  | change (c : Change)
  | request (host : Option String) (path : String)
  | step_incoming (i : ℕ) (a : IncomingAction)
  | step_task (a : TaskAction)

def start (conf : Config) (db : Database) : State :=
  ⟨Sched.start conf.sched, db, .empty conf.route_cache_size, [], [], .idle, .idle⟩

/-- The host header without its port, empty if there is none that can be read. -/
def rewrite_host (header : Option String) : String :=
  String.ofList ((header.getD "").toList.takeWhile (· ≠ ':'))

/-- An answer of the database is an error or what the tables hold. -/
def agrees {α : Type} [DecidableEq α] (answer : Except GenericError α) (x : α) : Bool :=
  match answer with
  | .ok y => y = x
  | .error _ => true

namespace State

/-- Steps of the scheduler, with what the database answers. Its requests come
from this part of `handle_request`. -/
def allowed (s : State) : Sched.Action → Bool
  | .request _ => false
  | .step_task (.app_metadata_get answer) =>
    match s.sched.lookup with
    | .metadata id _ => agrees answer (s.db.app_metadata_get id)
    | _ => true
  | .step_task (.app_bundle_get answer) =>
    match s.sched.lookup with
    | .bundle _ _ config => agrees answer (s.db.app_bundle_get config.bundle_id)
    | _ => true
  | .step_task (.gc_check answer) =>
    match s.sched.gc with
    | .scanning ((id, _, _) :: _) => agrees answer (s.db.app_metadata_get id)
    | _ => true
  | _ => true

/-- Request `i`, which is `f`, is now at `pc`. -/
def goto (s : State) (i : ℕ) (f : Incoming) (pc : IncomingPc) : State :=
  { s with incoming := s.incoming.set i { f with pc := pc } }

/-- A lookup of the routes of a domain, which counts as a use. -/
def touch (s : State) (domain : String) : State := { s with route_cache := s.route_cache.touch domain }

/-- The app that the cache of routes has for a request. -/
def route (s : State) (f : Incoming) : Option AppId := (s.route_cache.find f.host).bind (lookup_submappings f.path)

/-- A step of request `i`. -/
def incoming_step (conf : Config) (s : State) (i : ℕ) (f : Incoming) (a : IncomingAction) : Option State :=
  match f.pc, a with
  | .lookup, .lookup =>
    match s.route f with
    | some appid => some ((s.touch f.host).goto i f (.body appid))
    | none =>
      -- a full queue is not waited for
      match Sched.try_send 100 s.lookup_route_queue ((f.host, f.path), i) with
      | some queue => some ({ s.touch f.host with lookup_route_queue := queue }.goto i f (.waiting false))
      | none => some ((s.touch f.host).goto i f (.failed .NoRouteMapping))
  | .waiting true, .lookup =>
    match s.route f with
    | some appid => some ((s.touch f.host).goto i f (.body appid))
    | none => some ((s.touch f.host).goto i f (.failed .NoRouteMapping))
  | .body appid, .read_body true =>
    (Sched.step conf.sched s.sched (.request appid)).map fun sched =>
      { s with sched := sched }.goto i f (.handed s.sched.requests.length)
  | .body _, .read_body false => some (s.goto i f (.failed .Body))
  | .lookup, .cancel => some (s.goto i f .cancelled)
  | .waiting _, .cancel => some (s.goto i f .cancelled)
  | .body _, .cancel => some (s.goto i f .cancelled)
  | _, _ => none

/-- The request that waits for a lookup is told that it is over. -/
def reply (s : State) (back : ℕ) : State :=
  match s.incoming[back]? with
  | some f =>
    match f.pc with
    | .waiting _ => s.goto back f (.waiting true)
    | _ => s
  | none => s

/-- `route_cache_gc_task` has read the routes of a domain: an entry that is not
the same is removed, and not updated, which would count as a use. -/
def compare (cache : LruCache String RouteMap) (domain : String) (map : RouteMap) : LruCache String RouteMap :=
  match cache.find domain with
  | some entry => if entry ≠ map then cache.remove domain else cache
  | none => cache

/-- A step of one of the two tasks. -/
def task_step (s : State) : TaskAction → Option State
  | .recv_lookup =>
    match s.lookup, s.lookup_route_queue with
    | .idle, ((domain, _), back) :: queue =>
      some { s with lookup := .checking domain back, lookup_route_queue := queue }
    | _, _ => none
  | .check =>
    match s.lookup with
    | .checking domain back =>
      -- double check
      match s.route_cache.find domain with
      | some _ => some { s.touch domain with lookup := .replying back }
      | none => some { s.touch domain with lookup := .listing domain back }
    | _ => none
  | .list ok =>
    match s.lookup with
    | .listing domain back =>
      if ok then some { s with lookup := .inserting domain (s.db.route_mapping_list_for_domain domain) back }
      -- an error of the database is logged, and the request is told all the same
      else some { s with lookup := .replying back }
    | _ => none
  | .insert =>
    match s.lookup with
    | .inserting domain map back =>
      some { s with route_cache := s.route_cache.insert domain map, lookup := .replying back }
    | _ => none
  | .reply =>
    match s.lookup with
    | .replying back => some { s.reply back with lookup := .idle }
    | _ => none
  | .gc_begin domains =>
    match s.gc with
    | .idle => if domains.Perm (s.route_cache.entries.map Prod.fst) then some { s with gc := .scanning domains } else none
    | _ => none
  | .gc_list ok =>
    match s.gc with
    | .scanning (domain :: rest) =>
      if ok then some { s with gc := .comparing domain (s.db.route_mapping_list_for_domain domain) rest }
      -- an error of the database leaves the entry where it is
      else some { s with gc := .scanning rest }
    | _ => none
  | .gc_compare =>
    match s.gc with
    | .comparing domain map rest =>
      some { s with route_cache := compare s.route_cache domain map, gc := .scanning rest }
    | _ => none
  | .gc_end =>
    match s.gc with
    | .scanning [] => some { s with gc := .idle }
    | _ => none

def step (conf : Config) (s : State) : Action → Option State
  | .sched a =>
    if s.allowed a then (Sched.step conf.sched s.sched a).map fun sched => { s with sched := sched } else none
  | .change c => some { s with db := s.db.change c }
  | .request host path => some { s with incoming := s.incoming ++ [⟨rewrite_host host, path, .lookup⟩] }
  | .step_incoming i a =>
    match s.incoming[i]? with
    | some f => s.incoming_step conf i f a
    | none => none
  | .step_task a => s.task_step a

end State

/-- The caches of a proxy, what works on them, and the database. -/
def machine (conf : Config) : Machine State Action := ⟨State.step conf⟩

/-! ## What a step can do -/

/-- What a step of the two tasks can do. -/
inductive TaskEffect (s : State) : TaskAction → State → Prop
  | recv {domain path : String} {back : ℕ} {queue : List ((String × String) × ℕ)} (idle : s.lookup = .idle)
      (head : s.lookup_route_queue = ((domain, path), back) :: queue) :
      TaskEffect s .recv_lookup { s with lookup := .checking domain back, lookup_route_queue := queue }
  | hit {domain : String} {back : ℕ} {map : RouteMap} (place : s.lookup = .checking domain back)
      (found : s.route_cache.find domain = some map) :
      TaskEffect s .check { s.touch domain with lookup := .replying back }
  | miss {domain : String} {back : ℕ} (place : s.lookup = .checking domain back)
      (missing : s.route_cache.find domain = none) :
      TaskEffect s .check { s.touch domain with lookup := .listing domain back }
  | listed {domain : String} {back : ℕ} (place : s.lookup = .listing domain back) :
      TaskEffect s (.list true)
        { s with lookup := .inserting domain (s.db.route_mapping_list_for_domain domain) back }
  | not_listed {domain : String} {back : ℕ} (place : s.lookup = .listing domain back) :
      TaskEffect s (.list false) { s with lookup := .replying back }
  | insert {domain : String} {map : RouteMap} {back : ℕ} (place : s.lookup = .inserting domain map back) :
      TaskEffect s .insert { s with route_cache := s.route_cache.insert domain map, lookup := .replying back }
  | reply {back : ℕ} (place : s.lookup = .replying back) :
      TaskEffect s .reply { s with incoming := (s.reply back).incoming, lookup := .idle }
  | gc_begin {domains : List String} (idle : s.gc = .idle)
      (perm : domains.Perm (s.route_cache.entries.map Prod.fst)) :
      TaskEffect s (.gc_begin domains) { s with gc := .scanning domains }
  | gc_listed {domain : String} {rest : List String} (place : s.gc = .scanning (domain :: rest)) :
      TaskEffect s (.gc_list true)
        { s with gc := .comparing domain (s.db.route_mapping_list_for_domain domain) rest }
  | gc_not_listed {domain : String} {rest : List String} (place : s.gc = .scanning (domain :: rest)) :
      TaskEffect s (.gc_list false) { s with gc := .scanning rest }
  | gc_compare {domain : String} {map : RouteMap} {rest : List String} (place : s.gc = .comparing domain map rest) :
      TaskEffect s .gc_compare { s with route_cache := State.compare s.route_cache domain map, gc := .scanning rest }
  | gc_end (place : s.gc = .scanning []) : TaskEffect s .gc_end { s with gc := .idle }

/-- What a step of request `i`, which is `f`, can do. -/
inductive IncomingEffect (conf : Config) (s : State) (i : ℕ) (f : Incoming) : IncomingAction → State → Prop
  | found {appid : AppId} (place : f.pc = .lookup ∨ f.pc = .waiting true) (route : s.route f = some appid) :
      IncomingEffect conf s i f .lookup ((s.touch f.host).goto i f (.body appid))
  | ask (place : f.pc = .lookup) (missing : s.route f = none) (room : s.lookup_route_queue.length < 100) :
      IncomingEffect conf s i f .lookup
        ({ s.touch f.host with lookup_route_queue := s.lookup_route_queue ++ [((f.host, f.path), i)] }.goto i f
          (.waiting false))
  | full (place : f.pc = .lookup) (missing : s.route f = none) (full : ¬ s.lookup_route_queue.length < 100) :
      IncomingEffect conf s i f .lookup ((s.touch f.host).goto i f (.failed .NoRouteMapping))
  | missing (place : f.pc = .waiting true) (missing : s.route f = none) :
      IncomingEffect conf s i f .lookup ((s.touch f.host).goto i f (.failed .NoRouteMapping))
  | handed {appid : AppId} {sched : Sched.State} (place : f.pc = .body appid)
      (step : Sched.step conf.sched s.sched (.request appid) = some sched) :
      IncomingEffect conf s i f (.read_body true) ({ s with sched := sched }.goto i f (.handed s.sched.requests.length))
  | body_error {appid : AppId} (place : f.pc = .body appid) :
      IncomingEffect conf s i f (.read_body false) (s.goto i f (.failed .Body))
  | cancel : IncomingEffect conf s i f .cancel (s.goto i f .cancelled)

/-- What a step can do. -/
inductive Effect (conf : Config) (s : State) : Action → State → Prop
  | sched {a : Sched.Action} {sched : Sched.State} (allowed : s.allowed a = true)
      (step : Sched.step conf.sched s.sched a = some sched) : Effect conf s (.sched a) { s with sched := sched }
  | change {c : Change} : Effect conf s (.change c) { s with db := s.db.change c }
  | request {host : Option String} {path : String} :
      Effect conf s (.request host path) { s with incoming := s.incoming ++ [⟨rewrite_host host, path, .lookup⟩] }
  | incoming {i : ℕ} {f : Incoming} {b : IncomingAction} {s' : State} (request : s.incoming[i]? = some f)
      (effect : IncomingEffect conf s i f b s') : Effect conf s (.step_incoming i b) s'
  | task {b : TaskAction} {s' : State} (effect : TaskEffect s b s') : Effect conf s (.step_task b) s'

variable {conf : Config} {s s' : State}

theorem State.reply_eq (s : State) (back : ℕ) : s.reply back = { s with incoming := (s.reply back).incoming } := by
  unfold State.reply
  split
  · split <;> rfl
  · rfl

theorem task_effect {b : TaskAction} (h : s.task_step b = some s') : TaskEffect s b s' := by
  cases b with
  | recv_lookup =>
    simp only [State.task_step] at h
    split at h
    · rename_i hidle hqueue
      obtain rfl := Option.some.inj h
      exact .recv hidle hqueue
    · cases h
  | check =>
    simp only [State.task_step] at h
    split at h
    · rename_i hplace
      split at h
      · rename_i hfound
        obtain rfl := Option.some.inj h
        exact .hit hplace hfound
      · rename_i hmissing
        obtain rfl := Option.some.inj h
        exact .miss hplace hmissing
    · cases h
  | list ok =>
    simp only [State.task_step] at h
    split at h
    · rename_i hplace
      cases ok with
      | true =>
        obtain rfl := Option.some.inj h
        exact .listed hplace
      | false =>
        obtain rfl := Option.some.inj h
        exact .not_listed hplace
    · cases h
  | insert =>
    simp only [State.task_step] at h
    split at h
    · rename_i hplace
      obtain rfl := Option.some.inj h
      exact .insert hplace
    · cases h
  | reply =>
    simp only [State.task_step] at h
    split at h
    · rename_i hplace
      obtain rfl := Option.some.inj h
      rw [State.reply_eq]
      exact .reply hplace
    · cases h
  | gc_begin domains =>
    simp only [State.task_step] at h
    split at h
    · rename_i hidle
      obtain ⟨hperm, h⟩ := Option.ite_none_right_eq_some.1 h
      obtain rfl := Option.some.inj h
      exact .gc_begin hidle hperm
    · cases h
  | gc_list ok =>
    simp only [State.task_step] at h
    split at h
    · rename_i hplace
      cases ok with
      | true =>
        obtain rfl := Option.some.inj h
        exact .gc_listed hplace
      | false =>
        obtain rfl := Option.some.inj h
        exact .gc_not_listed hplace
    · cases h
  | gc_compare =>
    simp only [State.task_step] at h
    split at h
    · rename_i hplace
      obtain rfl := Option.some.inj h
      exact .gc_compare hplace
    · cases h
  | gc_end =>
    simp only [State.task_step] at h
    split at h
    · rename_i hplace
      obtain rfl := Option.some.inj h
      exact .gc_end hplace
    · cases h

theorem try_send_cases {α : Type} (capacity : ℕ) (queue : List α) (x : α) :
    (queue.length < capacity ∧ Sched.try_send capacity queue x = some (queue ++ [x]))
    ∨ (¬ queue.length < capacity ∧ Sched.try_send capacity queue x = none) := by
  unfold Sched.try_send
  split
  · exact Or.inl ⟨‹_›, rfl⟩
  · exact Or.inr ⟨‹_›, rfl⟩

theorem incoming_effect {i : ℕ} {f : Incoming} {a : IncomingAction} (h : s.incoming_step conf i f a = some s') :
    IncomingEffect conf s i f a s' := by
  unfold State.incoming_step at h
  split at h
  · rename_i hpc
    split at h
    · rename_i hroute
      obtain rfl := Option.some.inj h
      exact .found (Or.inl hpc) hroute
    · rename_i hmissing
      rcases try_send_cases 100 s.lookup_route_queue ((f.host, f.path), i) with ⟨hroom, hsend⟩ | ⟨hfull, hsend⟩
      · rw [hsend] at h
        obtain rfl := Option.some.inj h
        exact .ask hpc hmissing hroom
      · rw [hsend] at h
        obtain rfl := Option.some.inj h
        exact .full hpc hmissing hfull
  · rename_i hpc
    split at h
    · rename_i hroute
      obtain rfl := Option.some.inj h
      exact .found (Or.inr hpc) hroute
    · rename_i hmissing
      obtain rfl := Option.some.inj h
      exact .missing hpc hmissing
  · rename_i hpc
    obtain ⟨sched, hstep, rfl⟩ := Option.map_eq_some_iff.1 h
    exact .handed hpc hstep
  · rename_i hpc
    obtain rfl := Option.some.inj h
    exact .body_error hpc
  · obtain rfl := Option.some.inj h
    exact .cancel
  · obtain rfl := Option.some.inj h
    exact .cancel
  · obtain rfl := Option.some.inj h
    exact .cancel
  · cases h

theorem step_effect {a : Action} (h : s.step conf a = some s') : Effect conf s a s' := by
  cases a with
  | sched a =>
    obtain ⟨hallowed, h⟩ := Option.ite_none_right_eq_some.1 h
    obtain ⟨sched, hstep, rfl⟩ := Option.map_eq_some_iff.1 h
    exact .sched hallowed hstep
  | change c =>
    obtain rfl := Option.some.inj h
    exact .change
  | request host path =>
    obtain rfl := Option.some.inj h
    exact .request
  | step_incoming i b =>
    simp only [State.step] at h
    split at h
    · rename_i f hf
      exact .incoming hf (incoming_effect h)
    · cases h
  | step_task b => exact .task (task_effect h)

end Routing

end RustyWorkers

/-
What has been used last in the two caches of a proxy
(`rusty-workers-proxy/src/sched.rs`, and the metrics loop of `main.rs`).

Requests look routes and apps up with `get`, lookups check with `get` and put in
with `insert`. The background has no use of its own for an entry, but it walks
over them: `route_cache_gc_task` with `peek_iter`, `peek` and `remove`, which
leave the order alone, and `apps_gc_task` and the metrics loop with `iter`, which
counts as a use of every app, the last used one first, and so turns the order of
the apps round.

The machine is the one of `RouteCache`, in which a traversal leaves the apps in
the order of `LruCache.iter`, with the uses of requests and lookups on record.
The order of the routes always depends on these alone; that of the apps does as
long as no traversal finds two of them.
-/
import RustyWorkers.CacheGc
import RustyWorkers.Lib.Recency

set_option autoImplicit false

namespace RustyWorkers

open Lib

namespace Recency

open Sched (AppId AppConfig)

/-- The proxy, and what requests and lookups have used. -/
structure State where
  proxy : Routing.State
  route_uses : List String
  app_uses : List AppId

def start (conf : Routing.Config) (db : Routing.Database) : State := ⟨Routing.start conf db, [], []⟩

/-- The app that a step of a request or a lookup uses. -/
def uses_app (s : Sched.State) : Sched.Action → List AppId
  | .step_request r .lookup => (s.requests[r]?.map Sched.Request.appid).toList
  | .step_task .check =>
    match s.lookup with
    | .checking id _ => [id]
    | _ => []
  | .step_task .insert =>
    match s.lookup with
    | .inserting id _ _ => [id]
    | _ => []
  | _ => []

/-- The domain that a step of a request or a lookup uses. -/
def uses_route (s : Routing.State) : Routing.Action → List String
  | .step_incoming i .lookup => (s.incoming[i]?.map Routing.Incoming.host).toList
  | .step_task .check =>
    match s.lookup with
    | .checking domain _ => [domain]
    | _ => []
  | .step_task .insert =>
    match s.lookup with
    | .inserting domain _ _ => [domain]
    | _ => []
  | _ => []

/-- The order in which the metrics loop or a pass of `apps_gc_task` leaves the apps. -/
def traversal : Sched.Action → Option (List (AppId × ℕ))
  | .metrics order => some order
  | .step_task (.gc_begin order) => some order
  | _ => none

/-- A step of the proxy, and what is used in it. -/
def State.step (conf : Routing.Config) (s : State) : Routing.Action → Option State
  | .sched a =>
    if (traversal a).all (· = s.proxy.sched.apps.iter.entries) then
      (s.proxy.step conf (.sched a)).map fun proxy =>
        { s with proxy := proxy, app_uses := s.app_uses ++ uses_app s.proxy.sched a }
    else none
  | a =>
    (s.proxy.step conf a).map fun proxy =>
      { s with proxy := proxy, route_uses := s.route_uses ++ uses_route s.proxy a }

def machine (conf : Routing.Config) : Machine State Routing.Action := ⟨State.step conf⟩

/-- Traversals of the apps find at most one of them. -/
def CalmTraversal (s : State) : Routing.Action → Prop
  | .sched a => traversal a ≠ none → s.proxy.sched.apps.entries.length ≤ 1
  | _ => True

/-- Both caches are in the order in which requests and lookups have used their entries. -/
structure ByUse (s : State) : Prop where
  routes : s.proxy.route_cache.ByUse s.route_uses
  apps : s.proxy.sched.apps.ByUse s.app_uses

/-- The order of the entries of both caches depends only on what has used them,
and what an insert pushes out has not been used for longest. -/
def Undisturbed (s : State) : Prop :=
  s.proxy.route_cache.Undisturbed s.route_uses ∧ s.proxy.sched.apps.Undisturbed s.app_uses

/-! ## The cache of apps -/

section Apps

variable {conf : Sched.Config} {s s' : Sched.State}

/-- A step of a request. -/
theorem request_access {r : ℕ} {q : Sched.Request} {b : Sched.RequestAction} (hq : s.requests[r]? = some q)
    (h : Sched.request_step conf s r q b = some s') : s.apps.Access (uses_app s (.step_request r b)) s'.apps := by
  have huse : uses_app s (.step_request r .lookup) = [q.appid] := by
    rw [uses_app, hq]
    rfl
  cases Sched.request_effect h with
  | hit | ask | full | look_again =>
    rw [huse]
    exact .get q.appid
  | collect | pop | empty | no_client | choose | spawned | not_spawned | fetched | disconnect | pool | dropout
  | collect_pool | cancel => exact .peek

theorem terminate_apps {b : Sched.TaskAction} (hb : b = .recv_terminate ∨ b = .terminated)
    (h : Sched.task_step conf s b = some s') : s'.apps = s.apps := by
  rcases hb with rfl | rfl
  · simp only [Sched.task_step] at h
    split at h
    · obtain rfl := Option.some.inj h
      rfl
    · cases h
  · obtain ⟨-, h⟩ := Option.ite_none_right_eq_some.1 h
    obtain rfl := Option.some.inj h
    rfl

/-- A step of a background task other than a traversal. -/
theorem task_access {b : Sched.TaskAction} (h : Sched.task_step conf s b = some s')
    (hb : traversal (.step_task b) = none) : s.apps.Access (uses_app s (.step_task b)) s'.apps := by
  cases Sched.task_effect h with
  | quiet terminate =>
    rw [terminate_apps terminate h]
    rcases terminate with rfl | rfl <;> exact .peek
  | hit place | miss place =>
    simp only [uses_app, place]
    exact .get _
  | insert place =>
    simp only [uses_app, place]
    exact .insert _ _
  | gc_begin => cases hb
  | gc_remove => exact .remove _
  | recv | metadata | no_metadata | bundle | no_bundle | reply | gc_check | gc_end => exact .peek

/-- Every step but a traversal uses the cache of apps as it is on record. -/
theorem sched_access {a : Sched.Action} (h : Sched.step conf s a = some s') (ha : traversal a = none) :
    s.apps.Access (uses_app s a) s'.apps := by
  cases Sched.step_effect h with
  | tick | discover | drop_client | free | request => exact .peek
  | metrics => cases ha
  | step_request hq hs => exact request_access hq hs
  | step_task hs => exact task_access hs ha

/-- A traversal leaves the entries in the order that it is given. -/
theorem sched_traversal {a : Sched.Action} {order : List (AppId × ℕ)} (h : Sched.step conf s a = some s')
    (ha : traversal a = some order) : s'.apps.entries = order ∧ uses_app s a = [] := by
  cases Sched.step_effect h with
  | tick | discover | drop_client | free | request | step_request => cases ha
  | metrics =>
    obtain rfl := Option.some.inj ha
    exact ⟨rfl, rfl⟩
  | step_task hs =>
    cases Sched.task_effect hs with
    | quiet terminate => rcases terminate with rfl | rfl <;> cases ha
    | gc_begin =>
      obtain rfl := Option.some.inj ha
      exact ⟨rfl, rfl⟩
    | recv | hit | miss | metadata | no_metadata | bundle | no_bundle | insert | reply | gc_check | gc_remove
    | gc_end => cases ha

end Apps

/-! ## The cache of routes -/

/-- A pass of `route_cache_gc_task` compares with `peek`, and removes. -/
theorem compare_access (cache : LruCache String Routing.RouteMap) (domain : String) (map : Routing.RouteMap) :
    cache.Access [] (Routing.State.compare cache domain map) := by
  unfold Routing.State.compare
  split
  · split
    · exact .remove domain
    · exact .peek
  · exact .peek

/-- Every step uses the cache of routes as it is on record. -/
theorem route_access {conf : Routing.Config} {s s' : Routing.State} {a : Routing.Action} (h : s.step conf a = some s') :
    s.route_cache.Access (uses_route s a) s'.route_cache := by
  cases Routing.step_effect h with
  | sched | change | request => exact .peek
  | @incoming i f b t hf effect =>
    have huse : uses_route s (.step_incoming i .lookup) = [f.host] := by
      rw [uses_route, hf]
      rfl
    cases effect with
    | found | ask | full | missing =>
      rw [huse]
      exact .get f.host
    | handed | body_error | cancel => exact .peek
  | task effect =>
    cases effect with
    | hit place | miss place =>
      simp only [uses_route, place]
      exact .get _
    | insert place =>
      simp only [uses_route, place]
      exact .insert _ _
    | gc_compare => exact compare_access _ _ _
    | recv | listed | not_listed | reply | gc_begin | gc_listed | gc_not_listed | gc_end => exact .peek

/-- Only steps of the scheduler touch the cache of apps. -/
theorem incoming_apps {conf : Routing.Config} {s s' : Routing.State} {a : Routing.Action} (h : s.step conf a = some s')
    (ha : ∀ b, a ≠ .sched b) : s'.sched.apps = s.sched.apps := by
  cases Routing.step_effect h with
  | sched => exact absurd rfl (ha _)
  | change | request => rfl
  | incoming _ effect =>
    cases effect with
    | handed place step =>
      obtain rfl := Option.some.inj step
      rfl
    | found | ask | full | missing | body_error | cancel => rfl
  | task effect => cases effect <;> rfl

/-! ## Steps and runs -/

section Runs

variable {conf : Routing.Config} {db : Routing.Database} {s s' : State}

/-- A step of the scheduler. -/
theorem sched_step {b : Sched.Action} (h : s.step conf (.sched b) = some s') :
    (∀ order, traversal b = some order → order = s.proxy.sched.apps.entries.reverse)
      ∧ Sched.step conf.sched s.proxy.sched b = some s'.proxy.sched
      ∧ s'.proxy.route_cache = s.proxy.route_cache ∧ s'.route_uses = s.route_uses
      ∧ s'.app_uses = s.app_uses ++ uses_app s.proxy.sched b := by
  obtain ⟨horder, h⟩ := Option.ite_none_right_eq_some.1 h
  obtain ⟨proxy, hproxy, rfl⟩ := Option.map_eq_some_iff.1 h
  cases Routing.step_effect hproxy with
  | sched allowed step =>
    refine ⟨fun order hb => ?_, step, rfl, rfl, rfl⟩
    rw [hb, LruCache.iter_entries] at horder
    simpa using horder

/-- Any other step of the proxy. -/
theorem proxy_step {a : Routing.Action} (ha : ∀ b, a ≠ .sched b) (h : s.step conf a = some s') :
    s.proxy.step conf a = some s'.proxy ∧ s'.route_uses = s.route_uses ++ uses_route s.proxy a
      ∧ s'.app_uses = s.app_uses := by
  cases a with
  | sched b => exact absurd rfl (ha b)
  | change | request | step_incoming | step_task =>
    simp only [State.step] at h
    obtain ⟨proxy, hproxy, rfl⟩ := Option.map_eq_some_iff.1 h
    exact ⟨hproxy, rfl, rfl⟩

/-- Every step keeps the routes in the order of their uses. -/
theorem routes_by_use {a : Routing.Action} (h : s.proxy.route_cache.ByUse s.route_uses) (hs : s.step conf a = some s') :
    s'.proxy.route_cache.ByUse s'.route_uses := by
  by_cases ha : ∃ b, a = .sched b
  · obtain ⟨b, rfl⟩ := ha
    obtain ⟨-, -, hcache, huses, -⟩ := sched_step hs
    rw [hcache, huses]
    exact h
  · obtain ⟨hproxy, huses, -⟩ := proxy_step (fun b hb => ha ⟨b, hb⟩) hs
    rw [huses]
    exact LruCache.by_use_access h (route_access hproxy)

/-- A traversal turns the order of the apps round, and is no use of any. -/
theorem apps_traversed {b : Sched.Action} (hs : s.step conf (.sched b) = some s') (hb : traversal b ≠ none) :
    s'.proxy.sched.apps.entries = s.proxy.sched.apps.entries.reverse ∧ s'.app_uses = s.app_uses := by
  obtain ⟨horder, hstep, -, -, huses⟩ := sched_step hs
  obtain ⟨order, hb⟩ := Option.ne_none_iff_exists'.1 hb
  obtain ⟨hentries, hnone⟩ := sched_traversal hstep hb
  rw [hentries, huses, hnone, List.append_nil]
  exact ⟨horder order hb, rfl⟩

theorem apps_by_use {a : Routing.Action} (h : s.proxy.sched.apps.ByUse s.app_uses) (hcalm : CalmTraversal s a)
    (hs : s.step conf a = some s') : s'.proxy.sched.apps.ByUse s'.app_uses := by
  by_cases ha : ∃ b, a = .sched b
  · obtain ⟨b, rfl⟩ := ha
    by_cases hb : traversal b = none
    · obtain ⟨-, hstep, -, -, huses⟩ := sched_step hs
      rw [huses]
      exact LruCache.by_use_access h (sched_access hstep hb)
    · obtain ⟨hrev, huses⟩ := apps_traversed hs hb
      rw [huses]
      exact LruCache.by_use_reverse h hrev (hcalm hb)
  · have hother : ∀ b, a ≠ .sched b := fun b hb => ha ⟨b, hb⟩
    obtain ⟨hproxy, -, huses⟩ := proxy_step hother hs
    rw [huses, incoming_apps hproxy hother]
    exact h

theorem by_use_step {a : Routing.Action} (h : ByUse s) (hcalm : CalmTraversal s a) (hs : s.step conf a = some s') :
    ByUse s' := ⟨routes_by_use h.routes hs, apps_by_use h.apps hcalm hs⟩

/-- A traversal of two apps or more disturbs their order. -/
theorem disturbed_step {a : Routing.Action} (h : ByUse s) (hcalm : ¬ CalmTraversal s a) (hs : s.step conf a = some s') :
    ¬ Undisturbed s' := by
  cases a with
  | sched b =>
    obtain ⟨hb, hlen⟩ := Classical.not_imp.1 hcalm
    obtain ⟨hrev, huses⟩ := apps_traversed hs hb
    rintro ⟨-, happs⟩
    rw [huses] at happs
    exact LruCache.not_undisturbed_of_reverse h.apps hrev (by omega) happs
  | change | request | step_incoming | step_task => exact absurd trivial hcalm

theorem by_use_start (conf : Routing.Config) (db : Routing.Database) : ByUse (start conf db) :=
  ⟨LruCache.by_use_empty _, LruCache.by_use_empty _⟩

/-- The cache of routes is never disturbed. -/
theorem routes_undisturbed (conf : Routing.Config) (db : Routing.Database) (as : List Routing.Action) :
    (machine conf).Always (fun s => s.proxy.route_cache.Undisturbed s.route_uses) (start conf db) as :=
  (machine conf).always_of_meets (fun _ h => h.undisturbed) (fun _ _ _ h _ hs => routes_by_use h hs)
    (by_use_start conf db).routes ((machine conf).meets_true _ as)

/-- **The order of the apps is disturbed by the first traversal that finds two of
them.** In every run of the proxy, with any number of requests and all the
background tasks interleaved in any way, these are equivalent: in every state the
order of the entries of both caches depends only on the requests and lookups that
have used them, so that an insert pushes out what has not been used for longest;
and whenever the metrics loop or `apps_gc_task` walks over the cache of apps there
is at most one app in it. -/
theorem recency_undisturbed_iff (conf : Routing.Config) (db : Routing.Database) (as : List Routing.Action) :
    (machine conf).Always Undisturbed (start conf db) as ↔ (machine conf).Meets CalmTraversal (start conf db) as :=
  (machine conf).always_iff_meets (fun _ h => ⟨h.routes.undisturbed, h.apps.undisturbed⟩)
    (fun _ _ _ h hcalm hs => by_use_step h hcalm hs) (fun _ _ _ h hcalm hs => disturbed_step h hcalm hs)
    (by_use_start conf db)

/-! ## The wrong app is evicted -/

/-- Two apps fit into the cache. -/
def two_apps_conf : Routing.Config := ⟨⟨⟨50, 120000, 2⟩, ⟨⟨16, 100, 10, 50⟩, [], []⟩⟩, 4⟩

def app_config (id : AppId) : AppConfig := ⟨id, "v1", [], []⟩

/-- Three apps with a domain each. -/
def three_apps : Routing.Database :=
  ["first", "second", "third"].foldl (fun db id =>
    (db.change (.app_metadata_put (app_config id))).change (.route_mapping_insert id "/" id))
    (Routing.Database.empty.change (.app_bundle_put "v1" [1]))

/-- Request `i`, for the domain and the app of this name, neither of which is in its cache. -/
def request_app (i : ℕ) (id : String) : List Routing.Action :=
  Routing.route_request i id ++ Routing.look_app_up i (app_config id) [1]

/-- Two apps are requested, and the metrics loop walks over them. -/
def two_apps_counted : List Routing.Action :=
  request_app 0 "first" ++ request_app 1 "second" ++ [.sched (.metrics [("second", 1), ("first", 0)])]

/-- The app that has been requested last is the one that makes room for a third. -/
theorem last_requested_app_evicted :
    ∃ s t, (machine two_apps_conf).run (start two_apps_conf three_apps) two_apps_counted = some s
      ∧ ¬ (machine two_apps_conf).Always Undisturbed (start two_apps_conf three_apps) two_apps_counted
      ∧ s.app_uses.dedup = ["first", "second"]
      ∧ (machine two_apps_conf).run s (request_app 2 "third") = some t
      ∧ t.proxy.sched.apps.keys = ["first", "third"] := by
  have hrun : ((machine two_apps_conf).run (start two_apps_conf three_apps) two_apps_counted).map (fun s =>
      (s.app_uses.dedup, s.proxy.sched.apps.keys, ((machine two_apps_conf).run s (request_app 2 "third")).map
        fun t => t.proxy.sched.apps.keys))
      = some (["first", "second"], ["second", "first"], some ["first", "third"]) := by decide +kernel
  obtain ⟨s, hs, heq⟩ := Option.map_eq_some_iff.1 hrun
  simp only [Prod.mk.injEq] at heq
  obtain ⟨huses, hkeys, hthird⟩ := heq
  obtain ⟨t, ht, htkeys⟩ := Option.map_eq_some_iff.1 hthird
  refine ⟨s, t, hs, fun hall => ?_, huses, ht, htkeys⟩
  obtain ⟨-, happs⟩ := (machine two_apps_conf).always_run hall hs
  have horder := happs.order
  rw [huses, hkeys] at horder
  exact absurd horder (by decide)

end Runs

end Recency

end RustyWorkers

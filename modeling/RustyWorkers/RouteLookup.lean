/-
When a request fails with `NoRouteMapping`: the two lookups of
`Scheduler::handle_request` (`rusty-workers-proxy/src/sched.rs`), of the routes
of its domain and of its app.

Each time the request looks into a cache, asks a task to fill it, and looks
again. The queue to the task is bounded, and a request that finds it full fails.
Between the fill and the second look other requests go on, and have the cache
filled for themselves: when it is small, what has been filled for this request
may be evicted by then. And the proxy routes by the most specific path, also
when the app of that path is gone. Nothing else makes a request fail whose route
exists, as long as the tables stay as they are and the database answers; the
passes of the two gc tasks do not.
-/
import RustyWorkers.CacheGc

set_option autoImplicit false

namespace RustyWorkers

open Lib

namespace Routing

open Sched (AppId AppConfig AppState)

/-- The tables stay as they are, and the database answers. -/
def steady : Action → Bool
  | .change _ => false
  | .step_task (.list ok) | .step_task (.gc_list ok) => ok
  | .sched (.step_task (.app_metadata_get (.error _))) | .sched (.step_task (.app_bundle_get (.error _)))
  | .sched (.step_task (.gc_check (.error _))) => false
  | _ => true

/-- When request `i` asks for a lookup, the queue has room. -/
def has_room (i : ℕ) (s : State) : Action → Bool
  | .step_incoming j .lookup =>
    match s.incoming[j]? with
    | some f =>
      match f.pc with
      | .lookup => j ≠ i || (s.route f).isSome || s.lookup_route_queue.length < 100
      | _ => true
    | none => true
  | .sched (.step_request r .lookup) =>
    match s.incoming[i]?, s.sched.requests[r]? with
    | some f, some q =>
      match f.pc, q.pc with
      | .handed r', .lookup =>
        r' ≠ r || (s.sched.apps.find q.appid).isSome || s.sched.lookup_app_queue.length < 100
      | _, _ => true
    | _, _ => true
  | _ => true

/-- What has been looked up for request `i` is not evicted before it looks again. -/
def keeps (i : ℕ) (s : State) : Action → Bool
  | .step_task .insert =>
    match s.lookup, s.incoming[i]? with
    | .inserting domain _ _, some f =>
      match f.pc with
      | .waiting true => f.host ∉ s.route_cache.evicted domain
      | _ => true
    | _, _ => true
  | .sched (.step_task .insert) =>
    match s.sched.lookup, s.incoming[i]? with
    | .inserting id _ _, some f =>
      match f.pc with
      | .handed r =>
        match s.sched.requests[r]? with
        | some q =>
          match q.pc with
          | .waiting true => q.appid ∉ s.sched.apps.evicted id
          | _ => true
        | none => true
      | _ => true
    | _, _ => true
  | _ => true

/-- Request `i` has failed for want of a route. -/
def NoRoute (s : State) (i : ℕ) : Prop :=
  ∃ f, s.incoming[i]? = some f ∧ (f.pc = .failed .NoRouteMapping
    ∨ ∃ r q, f.pc = .handed r ∧ s.sched.requests[r]? = some q
      ∧ q.pc = .ended (.error (.sched .NoRouteMapping)))

variable {conf : Config} {db : Database} {s s' : State}

theorem steady_change {a : Action} (h : steady a = true) : is_change a = false := by
  cases a with
  | change c => cases h
  | sched | request | step_incoming | step_task => rfl

/-! ## Caches over tables that do not change -/

/-- None of the apps that the pass has taken down has changed. -/
def SameApps (db : Database) (apps : List (AppId × String × WorkerConfiguration)) : Prop :=
  ∀ x ∈ apps, ∀ row, db.app_metadata_get x.1 = some row → Sched.app_changed x.2.1 x.2.2 row = false

/-- The pass over the apps removes no app that exists. -/
def GcOk (db : Database) : Sched.GcPc → Prop
  | .idle => True
  | .scanning apps => SameApps db apps
  | .removing id apps => db.app_metadata_get id = none ∧ SameApps db apps

structure Unchanged (conf : Config) (db : Database) (s : State) : Prop where
  same : s.db = db
  period : Period conf s
  routes : RoutesFresh s
  apps : AppsFresh conf s
  compare : ∀ domain map rest, s.gc = .comparing domain map rest → map = s.db.route_mapping_list_for_domain domain
  gc : GcOk s.db s.sched.gc

theorem unchanged_start (conf : Config) (db : Database) : Unchanged conf db (start conf db) where
  same := rfl
  period := ⟨sound_start conf db, lookups_idle rfl rfl⟩
  routes := fun _ he => nomatch he
  apps := fun _ he => nomatch he
  compare := fun _ _ _ heq => nomatch heq
  gc := trivial

/-- A comparison with what the tables hold removes nothing. -/
theorem compare_fresh (h : RoutesFresh s) (domain : String) :
    State.compare s.route_cache domain (s.db.route_mapping_list_for_domain domain) = s.route_cache := by
  unfold State.compare
  split
  · rename_i entry hentry
    -- the entry is what the tables hold, so it is the same
    have hfresh := h _ (LruCache.mem_of_find hentry)
    rw [if_neg (not_not.2 hfresh)]
  · rfl

/-- The app that a lookup has built from a row has not changed. -/
theorem same_of_fresh {e : AppId × ℕ} (h : AppFresh conf s e) {b : AppState} (hb : s.sched.app_states[e.2]? = some b)
    {row : AppConfig} (hrow : s.db.app_metadata_get e.1 = some row) :
    Sched.app_changed b.bundle_id b.config row = false := by
  obtain ⟨a, ha, hlookup⟩ := h
  simp only [lookup_app, hrow, Option.bind_some] at hlookup
  obtain ⟨bundle, -, rfl⟩ := Option.map_eq_some_iff.1 hlookup
  simp only [Sched.State.app, hb, Option.map_some, Option.some.injEq] at ha
  -- what was built from the row has all that the comparison looks at
  have hbundle : b.bundle_id = row.bundle_id := congrArg AppState.bundle_id ha
  have hconfig : b.config = Sched.target_config conf.sched row := congrArg AppState.config ha
  rw [hbundle, hconfig]
  simp [Sched.app_changed, Sched.target_config]

theorem gc_ok_check {id : AppId} {bundle_id : String} {config : WorkerConfiguration}
    {rest : List (AppId × String × WorkerConfiguration)} {answer : Except GenericError (Option AppConfig)}
    (h : SameApps db ((id, bundle_id, config) :: rest)) (hanswer : agrees answer (db.app_metadata_get id) = true) :
    GcOk db (Sched.after_check id bundle_id config rest answer) := by
  have hrest : SameApps db rest := fun x hx => h x (List.mem_cons_of_mem _ hx)
  cases answer with
  | error e => exact hrest
  | ok found =>
    have hread := agrees_ok hanswer
    cases found with
    | none => exact ⟨hread.symm, hrest⟩
    | some row =>
      rw [Sched.after_check, h _ List.mem_cons_self row hread.symm]
      exact hrest

theorem unchanged_step (h : Unchanged conf db s) {a : Action} (hchange : is_change a = false)
    (hs : s.step conf a = some s') : Unchanged conf db s' := by
  have hdb : s'.db = s.db := by
    rcases step_cases hs hchange with hcalm | ⟨b, -, heffect⟩ | ⟨b, sched, -, -, -, rfl⟩
    · exact hcalm.db
    · cases heffect <;> rfl
    · rfl
  refine ⟨hdb.trans h.same, period_step h.period hchange hs,
    routes_fresh_step h.period.lookups h.routes hchange hs, apps_fresh_step h.period.lookups h.apps hchange hs, ?_, ?_⟩
  · intro domain map rest heq
    rw [hdb]
    rcases step_cases hs hchange with hcalm | ⟨b, -, heffect⟩ | ⟨b, sched, -, -, -, rfl⟩
    · exact h.compare domain map rest (hcalm.gc ▸ heq)
    · cases heffect with
      | gc_listed =>
        obtain ⟨rfl, rfl, -⟩ := GcPc.comparing.inj heq
        rfl
      | gc_begin | gc_not_listed | gc_compare | gc_end => cases heq
      | recv | hit | miss | listed | not_listed | insert | reply => exact h.compare domain map rest heq
    · exact h.compare domain map rest heq
  · rw [hdb]
    rcases step_cases hs hchange with hcalm | ⟨b, -, heffect⟩ | ⟨b, sched, -, hallowed, heffect, rfl⟩
    · rw [hcalm.sched.gc]
      exact h.gc
    · cases heffect <;> exact h.gc
    · have hgc := h.gc
      cases heffect with
      | quiet _ quiet =>
        rw [quiet.gc]
        exact hgc
      | gc_begin idle perm =>
        -- the pass takes down entries that are fresh
        intro x hx row hrow
        obtain ⟨e, he, hentry⟩ := List.mem_filterMap.1 hx
        obtain ⟨b, hb, rfl⟩ := Option.map_eq_some_iff.1 hentry
        exact same_of_fresh (h.apps e he) hb hrow
      | gc_check place =>
        rw [place] at hgc
        simp only [State.allowed, place] at hallowed
        exact gc_ok_check hgc hallowed
      | gc_remove place =>
        rw [place] at hgc
        exact hgc.2
      | gc_end => exact trivial
      | recv | hit | miss | metadata | no_metadata | bundle | no_bundle | insert | reply => exact hgc

/-! ## What stays in the caches -/

theorem route_kept (h : Unchanged conf db s) {a : Action} (hchange : is_change a = false)
    (hs : s.step conf a = some s') {domain : String} (hin : domain ∈ s.route_cache.entries.map Prod.fst)
    (hkeep : ∀ d map back, a = .step_task .insert → s.lookup = .inserting d map back →
      domain ∉ s.route_cache.evicted d) : domain ∈ s'.route_cache.entries.map Prod.fst := by
  rcases step_cases hs hchange with hcalm | ⟨b, rfl, heffect⟩ | ⟨b, sched, -, -, -, rfl⟩
  · exact (hcalm.route_cache.map Prod.fst).mem_iff.2 hin
  · cases heffect with
    | hit | miss => exact LruCache.key_mem_touch hin _
    | insert place => exact LruCache.key_mem_insert hin (hkeep _ _ _ rfl place)
    | gc_compare place =>
      rw [h.compare _ _ _ place]
      rw [compare_fresh h.routes]
      exact hin
    | recv | listed | not_listed | reply | gc_begin | gc_listed | gc_not_listed | gc_end => exact hin
  · exact hin

theorem app_kept (h : Unchanged conf db s) {a : Action} (hchange : is_change a = false)
    (hs : s.step conf a = some s') {id : AppId} (hid : (lookup_app conf s.db id).isSome = true)
    (hin : id ∈ s.sched.apps.entries.map Prod.fst)
    (hkeep : ∀ id' back x, a = .sched (.step_task .insert) → s.sched.lookup = .inserting id' back x →
      id ∉ s.sched.apps.evicted id') : id ∈ s'.sched.apps.entries.map Prod.fst := by
  rcases step_cases hs hchange with hcalm | ⟨b, -, heffect⟩ | ⟨b, sched, rfl, -, heffect, rfl⟩
  · exact (hcalm.sched.apps.map Prod.fst).mem_iff.2 hin
  · cases heffect <;> exact hin
  · cases heffect with
    | quiet _ quiet => exact (quiet.apps.map Prod.fst).mem_iff.2 hin
    | hit | miss => exact LruCache.key_mem_touch hin _
    | insert place => exact LruCache.key_mem_insert hin (hkeep _ _ _ rfl place)
    | gc_begin idle perm => exact (perm.map Prod.fst).mem_iff.2 hin
    | gc_remove place =>
      -- the pass removes what does not exist, and this app does
      refine LruCache.key_mem_remove hin fun heq => ?_
      have hgc := h.gc
      rw [place] at hgc
      rw [lookup_app, heq, hgc.1] at hid
      cases hid
    | recv | metadata | no_metadata | bundle | no_bundle | reply | gc_check | gc_end => exact hin

/-! ## Who asks for what -/

/-- What a lookup of routes is for, as long as it goes on. -/
def LookupPc.asked : LookupPc → Option (String × ℕ)
  | .checking domain back | .listing domain back | .inserting domain _ back => some (domain, back)
  | .idle | .replying _ => none

/-- What a lookup of an app is for, as long as it goes on. -/
def asked_app : Sched.LookupPc → Option (AppId × ℕ)
  | .checking id back | .metadata id back | .bundle id back _ | .inserting id back _ => some (id, back)
  | .idle | .replying _ => none

/-- Request `x.2` is for the domain `x.1`. -/
def ForDomain (s : State) (x : String × ℕ) : Prop := ∃ f, s.incoming[x.2]? = some f ∧ f.host = x.1

/-- Request `x.2` of the scheduler is for the app `x.1`. -/
def ForApp (s : State) (x : AppId × ℕ) : Prop := ∃ q, s.sched.requests[x.2]? = some q ∧ q.appid = x.1

/-- Lookups are for what the request that waits for them is for. -/
structure Asked (s : State) : Prop where
  route_queue : ∀ x ∈ s.lookup_route_queue, ForDomain s (x.1.1, x.2)
  route_task : ∀ x, s.lookup.asked = some x → ForDomain s x
  app_queue : ∀ x ∈ s.sched.lookup_app_queue, ForApp s x
  app_task : ∀ x, asked_app s.sched.lookup = some x → ForApp s x

theorem asked_start (conf : Config) (db : Database) : Asked (start conf db) :=
  ⟨(fun _ hx => nomatch hx), (fun _ hx => nomatch hx), (fun _ hx => nomatch hx), (fun _ hx => nomatch hx)⟩

/-- Where a request is after a step: where it was, where its own step leads, or
told that its lookup is over. -/
theorem incoming_after {a : Action} (hs : s.step conf a = some s') {i : ℕ} {f : Incoming}
    (hf : s.incoming[i]? = some f) :
    ∃ pc, s'.incoming[i]? = some { f with pc := pc }
      ∧ ((pc = f.pc ∧ ∀ b, a ≠ .step_incoming i b)
        ∨ (∃ b, a = .step_incoming i b ∧ IncomingEffect conf s i f b s')
        ∨ (a = .step_task .reply ∧ s.lookup = .replying i ∧ pc = .waiting true)) := by
  have hlt := (List.getElem?_eq_some_iff.1 hf).1
  cases step_effect hs with
  | sched | change => exact ⟨f.pc, hf, Or.inl ⟨rfl, by simp⟩⟩
  | request => exact ⟨f.pc, (List.getElem?_append_left hlt).trans hf, Or.inl ⟨rfl, by simp⟩⟩
  | @incoming j f₀ b _ hf₀ effect =>
    obtain ⟨pc, hset⟩ : ∃ pc, s'.incoming = s.incoming.set j { f₀ with pc := pc } := by
      cases effect <;> exact ⟨_, rfl⟩
    by_cases hj : j = i
    · subst hj
      obtain rfl := Option.some.inj (hf.symm.trans hf₀)
      exact ⟨pc, by rw [hset, List.getElem?_set_self hlt], Or.inr (Or.inl ⟨b, rfl, effect⟩)⟩
    · exact ⟨f.pc, by rw [hset, List.getElem?_set_ne hj, hf], Or.inl ⟨rfl, by simp [hj]⟩⟩
  | task effect =>
    cases effect with
    | @reply back place =>
      by_cases hback : back = i
      -- the request is told, if it waits
      · subst hback
        by_cases hwait : ∃ answered, f.pc = .waiting answered
        · obtain ⟨answered, hpc⟩ := hwait
          refine ⟨.waiting true, ?_, Or.inr (Or.inr ⟨rfl, place, rfl⟩)⟩
          simp only [State.reply, hf, hpc, State.goto, List.getElem?_set_self hlt]
        · refine ⟨f.pc, ?_, Or.inl ⟨rfl, by simp⟩⟩
          simp only [State.reply, hf]
          split
          · rename_i answered hpc
            exact absurd ⟨answered, hpc⟩ hwait
          · exact hf
      · refine ⟨f.pc, ?_, Or.inl ⟨rfl, by simp⟩⟩
        simp only [State.reply]
        split
        · split
          · exact (List.getElem?_set_ne hback).trans hf
          · exact hf
        · exact hf
    | recv | hit | miss | listed | not_listed | insert | gc_begin | gc_listed | gc_not_listed | gc_compare | gc_end =>
      exact ⟨f.pc, hf, Or.inl ⟨rfl, by simp⟩⟩

theorem for_domain_step {a : Action} (hs : s.step conf a = some s') {x : String × ℕ} (h : ForDomain s x) :
    ForDomain s' x := by
  obtain ⟨f, hf, hhost⟩ := h
  obtain ⟨pc, hf', -⟩ := incoming_after hs hf
  exact ⟨_, hf', hhost⟩

/-- The scheduler takes a step, or stays as it is. -/
theorem sched_after {a : Action} (hs : s.step conf a = some s') :
    (s'.sched = s.sched ∧ ∀ b, a ≠ .sched b)
    ∨ ∃ b, Sched.step conf.sched s.sched b = some s'.sched ∧ (a = .sched b ∨ ∃ appid, b = .request appid) := by
  cases step_effect hs with
  | sched allowed step => exact Or.inr ⟨_, step, Or.inl rfl⟩
  | change | request => exact Or.inl ⟨rfl, by simp⟩
  | incoming _ effect =>
    cases effect with
    | handed place step => exact Or.inr ⟨_, step, Or.inr ⟨_, rfl⟩⟩
    | found | ask | full | missing | body_error | cancel => exact Or.inl ⟨rfl, by simp⟩
  | task effect =>
    refine Or.inl ⟨?_, by simp⟩
    cases effect <;> rfl

theorem for_app_step {a : Action} (hs : s.step conf a = some s') {x : AppId × ℕ} (h : ForApp s x) :
    ForApp s' x := by
  obtain ⟨q, hq, happid⟩ := h
  rcases sched_after hs with ⟨hsame, -⟩ | ⟨b, hstep, -⟩
  · exact ⟨q, by rw [hsame, hq], happid⟩
  · obtain ⟨q', hq', hsame⟩ := Sched.appid_after hstep hq
    exact ⟨q', hq', hsame.trans happid⟩

theorem route_queue_after {a : Action} (hs : s.step conf a = some s') {x : (String × String) × ℕ}
    (hx : x ∈ s'.lookup_route_queue) : x ∈ s.lookup_route_queue ∨ ForDomain s (x.1.1, x.2) := by
  cases step_effect hs with
  | sched | change | request => exact Or.inl hx
  | @incoming j f b _ hf effect =>
    cases effect with
    | ask place missing room =>
      rcases List.mem_append.1 hx with hold | hnew
      · exact Or.inl hold
      · obtain rfl := List.mem_singleton.1 hnew
        exact Or.inr ⟨f, hf, rfl⟩
    | found | full | missing | handed | body_error | cancel => exact Or.inl hx
  | task effect =>
    cases effect with
    | recv idle head =>
      rw [head]
      exact Or.inl (List.mem_cons_of_mem _ hx)
    | hit | miss | listed | not_listed | insert | reply | gc_begin | gc_listed | gc_not_listed | gc_compare
    | gc_end => exact Or.inl hx

theorem route_task_after {a : Action} (hchange : is_change a = false) (hs : s.step conf a = some s')
    {x : String × ℕ} (hx : s'.lookup.asked = some x) :
    s.lookup.asked = some x ∨ ∃ path, ((x.1, path), x.2) ∈ s.lookup_route_queue := by
  rcases step_cases hs hchange with hcalm | ⟨b, -, heffect⟩ | ⟨b, sched, -, -, -, rfl⟩
  · exact Or.inl (hcalm.lookup ▸ hx)
  · cases heffect with
    | @recv domain path back queue idle head =>
      obtain rfl := Option.some.inj hx
      refine Or.inr ⟨path, ?_⟩
      rw [head]
      exact List.mem_cons_self
    | miss place =>
      rw [place]
      exact Or.inl hx
    | listed place =>
      rw [place]
      exact Or.inl hx
    | hit | not_listed | insert | reply => cases hx
    | gc_begin | gc_listed | gc_not_listed | gc_compare | gc_end => exact Or.inl hx
  · exact Or.inl hx

theorem app_task_after {a : Action} (hchange : is_change a = false) (hs : s.step conf a = some s')
    {x : AppId × ℕ} (hx : asked_app s'.sched.lookup = some x) :
    asked_app s.sched.lookup = some x ∨ x ∈ s.sched.lookup_app_queue := by
  rcases step_cases hs hchange with hcalm | ⟨b, -, heffect⟩ | ⟨b, sched, -, -, heffect, rfl⟩
  · exact Or.inl (hcalm.sched.lookup ▸ hx)
  · cases heffect <;> exact Or.inl hx
  · cases heffect with
    | quiet _ quiet => exact Or.inl (quiet.lookup ▸ hx)
    | recv idle head =>
      obtain rfl := Option.some.inj hx
      rw [head]
      exact Or.inr List.mem_cons_self
    | miss place =>
      rw [place]
      exact Or.inl hx
    | metadata place =>
      rw [place]
      exact Or.inl hx
    | bundle place =>
      rw [place]
      exact Or.inl hx
    | hit | no_metadata | no_bundle | insert | reply => cases hx
    | gc_begin | gc_check | gc_remove | gc_end => exact Or.inl hx

theorem asked_step (h : Asked s) {a : Action} (hchange : is_change a = false) (hs : s.step conf a = some s') :
    Asked s' := by
  refine ⟨fun x hx => for_domain_step hs ?_, fun x hx => for_domain_step hs ?_, fun x hx => for_app_step hs ?_,
    fun x hx => for_app_step hs ?_⟩
  · rcases route_queue_after hs hx with hold | hnew
    · exact h.route_queue x hold
    · exact hnew
  · rcases route_task_after hchange hs hx with hold | ⟨path, hqueue⟩
    · exact h.route_task x hold
    · exact h.route_queue _ hqueue
  · rcases sched_after hs with ⟨hsame, -⟩ | ⟨b, hstep, -⟩
    · exact h.app_queue x (hsame ▸ hx)
    · rcases Sched.lookup_queue_after hstep hx with hold | hnew
      · exact h.app_queue x hold
      · exact hnew
  · rcases app_task_after hchange hs hx with hold | hqueue
    · exact h.app_task x hold
    · exact h.app_queue x hqueue

/-! ## Lookups that are over -/

/-- When a lookup is over, what the request that waits for it asked for is in the
cache, if it exists. -/
structure Replied (conf : Config) (s : State) : Prop where
  route : ∀ back, s.lookup = .replying back →
    ∃ f, s.incoming[back]? = some f ∧ f.host ∈ s.route_cache.entries.map Prod.fst
  app : ∀ back, s.sched.lookup = .replying back →
    ∃ q, s.sched.requests[back]? = some q
      ∧ ((lookup_app conf s.db q.appid).isSome = true → q.appid ∈ s.sched.apps.entries.map Prod.fst)

theorem replied_start (conf : Config) (db : Database) : Replied conf (start conf db) :=
  ⟨(fun _ hx => nomatch hx), (fun _ hx => nomatch hx)⟩

theorem replied_route_step (hu : Unchanged conf db s) (hasked : Asked s) (h : Replied conf s) {a : Action}
    (hsteady : steady a = true) (hs : s.step conf a = some s') {back : ℕ} (hplace : s'.lookup = .replying back) :
    ∃ f, s'.incoming[back]? = some f ∧ f.host ∈ s'.route_cache.entries.map Prod.fst := by
  have hchange := steady_change hsteady
  -- the request has its domain in the cache already, and no insert is going on
  have hkept : s.lookup = .replying back →
      ∃ f, s'.incoming[back]? = some f ∧ f.host ∈ s'.route_cache.entries.map Prod.fst := by
    intro hold
    obtain ⟨f, hf, hin⟩ := h.route back hold
    obtain ⟨pc, hf', -⟩ := incoming_after hs hf
    refine ⟨_, hf', route_kept hu hchange hs hin fun d map b _ hinsert => ?_⟩
    rw [hold] at hinsert
    cases hinsert
  rcases step_cases hs hchange with hcalm | ⟨b, rfl, heffect⟩ | ⟨b, sched, -, -, -, rfl⟩
  · exact hkept (hcalm.lookup ▸ hplace)
  · cases heffect with
    | hit place found =>
      obtain rfl := LookupPc.replying.inj hplace
      obtain ⟨f, hf, hhost⟩ := hasked.route_task _ (congrArg LookupPc.asked place)
      refine ⟨f, hf, LruCache.key_mem_touch ?_ _⟩
      rw [hhost]
      exact LruCache.find_isSome_iff.1 (by rw [found]; rfl)
    | insert place =>
      obtain rfl := LookupPc.replying.inj hplace
      obtain ⟨f, hf, hhost⟩ := hasked.route_task _ (congrArg LookupPc.asked place)
      refine ⟨f, hf, ?_⟩
      rw [hhost]
      exact LruCache.key_mem_insert_self
    | not_listed => cases hsteady
    | recv | miss | listed | reply => cases hplace
    | gc_begin | gc_listed | gc_not_listed | gc_compare | gc_end => exact hkept hplace
  · exact hkept hplace

/-- The database answers, and not with what was asked for: it does not have it. -/
theorem missing_of_answer {α : Type} [DecidableEq α] {answer : Except GenericError (Option α)} {held : Option α}
    (hanswers : ∀ e, answer ≠ .error e) (hnone : ∀ x, answer ≠ .ok (some x)) (hagrees : agrees answer held = true) :
    held = none := by
  cases answer with
  | error e => exact absurd rfl (hanswers e)
  | ok found =>
    cases found with
    | none => exact (agrees_ok hagrees).symm
    | some x => exact absurd rfl (hnone x)

theorem replied_app_step (hu : Unchanged conf db s) (hasked : Asked s) (h : Replied conf s) {a : Action}
    (hsteady : steady a = true) (hs : s.step conf a = some s') {back : ℕ}
    (hplace : s'.sched.lookup = .replying back) :
    ∃ q, s'.sched.requests[back]? = some q
      ∧ ((lookup_app conf s'.db q.appid).isSome = true → q.appid ∈ s'.sched.apps.entries.map Prod.fst) := by
  have hchange := steady_change hsteady
  have hdb : s'.db = s.db := (unchanged_step hu hchange hs).same.trans hu.same.symm
  have hkept : s.sched.lookup = .replying back → ∃ q, s'.sched.requests[back]? = some q
      ∧ ((lookup_app conf s'.db q.appid).isSome = true → q.appid ∈ s'.sched.apps.entries.map Prod.fst) := by
    intro hold
    obtain ⟨q, hq, hin⟩ := h.app back hold
    obtain ⟨q', hq', happid⟩ : ForApp s' (q.appid, back) := for_app_step hs ⟨q, hq, rfl⟩
    refine ⟨q', hq', fun hsome => ?_⟩
    rw [happid] at hsome ⊢
    rw [hdb] at hsome
    refine app_kept hu hchange hs hsome (hin hsome) fun id b x _ hinsert => ?_
    rw [hold] at hinsert
    cases hinsert
  rcases step_cases hs hchange with hcalm | ⟨b, -, heffect⟩ | ⟨b, sched, rfl, hallowed, heffect, rfl⟩
  · exact hkept (hcalm.sched.lookup ▸ hplace)
  · refine hkept ?_
    cases heffect <;> exact hplace
  · cases heffect with
    | quiet _ quiet => exact hkept (quiet.lookup ▸ hplace)
    | hit place found =>
      obtain rfl := Sched.LookupPc.replying.inj hplace
      obtain ⟨q, hq, happid⟩ := hasked.app_task _ (congrArg asked_app place)
      refine ⟨q, hq, fun _ => LruCache.key_mem_touch ?_ _⟩
      rw [happid]
      exact LruCache.find_isSome_iff.1 (by rw [found]; rfl)
    | no_metadata place none =>
      -- the database answers, so the app does not exist
      obtain rfl := Sched.LookupPc.replying.inj hplace
      obtain ⟨q, hq, happid⟩ := hasked.app_task _ (congrArg asked_app place)
      simp only [State.allowed, place] at hallowed
      have hmissing := missing_of_answer (by rintro e rfl; cases hsteady) none hallowed
      refine ⟨q, hq, fun hsome => ?_⟩
      rw [happid, lookup_app, hmissing] at hsome
      cases hsome
    | no_bundle place none =>
      -- the app does, and its bundle does not
      obtain rfl := Sched.LookupPc.replying.inj hplace
      obtain ⟨q, hq, happid⟩ := hasked.app_task _ (congrArg asked_app place)
      simp only [State.allowed, place] at hallowed
      have hmissing := missing_of_answer (by rintro e rfl; cases hsteady) none hallowed
      refine ⟨q, hq, fun hsome => ?_⟩
      rw [happid, lookup_app, hu.period.lookups.metadata _ _ _ place, Option.bind_some, hmissing] at hsome
      cases hsome
    | insert place =>
      obtain rfl := Sched.LookupPc.replying.inj hplace
      obtain ⟨q, hq, happid⟩ := hasked.app_task _ (congrArg asked_app place)
      refine ⟨q, hq, fun _ => ?_⟩
      rw [happid]
      exact LruCache.key_mem_insert_self
    | recv | miss | metadata | bundle | reply => cases hplace
    | gc_begin | gc_check | gc_remove | gc_end => exact hkept hplace

/-! ## The request -/

/-- The first look of request `i` and its second one are as they should be, when
it is routed to `appid`. -/
def IncomingOk (s : State) (appid : AppId) (f : Incoming) : Prop :=
  match f.pc with
  | .lookup | .waiting false | .cancelled => True
  | .waiting true => f.host ∈ s.route_cache.entries.map Prod.fst
  | .body a => a = appid
  | .handed r =>
    ∃ q, s.sched.requests[r]? = some q ∧ q.appid = appid ∧ ¬ q.pc.NoRoute
      ∧ (q.pc = .waiting true → appid ∈ s.sched.apps.entries.map Prod.fst)
  | .failed e => e ≠ .NoRouteMapping

/-- All that a run without eviction and with room in the queues keeps. -/
structure Served (conf : Config) (db : Database) (i : ℕ) (appid : AppId) (s : State) : Prop where
  unchanged : Unchanged conf db s
  asked : Asked s
  replied : Replied conf s
  incoming : ∀ f, s.incoming[i]? = some f → db.Routes f.host f.path appid → IncomingOk s appid f

/-- A look finds the most specific route, if the domain is in the cache. -/
theorem route_eq (h : Unchanged conf db s) {f : Incoming} {appid : AppId} (hroute : db.Routes f.host f.path appid)
    (hin : f.host ∈ s.route_cache.entries.map Prod.fst) : s.route f = some appid := by
  obtain ⟨map, hmap⟩ := Option.isSome_iff_exists.1 (LruCache.find_isSome_iff.2 hin)
  have hfresh : map = s.db.route_mapping_list_for_domain f.host := h.routes _ (LruCache.mem_of_find hmap)
  rw [State.route, hmap, Option.bind_some, hfresh, h.same, lookup_most_specific hroute]

/-- A look that finds an app has the domain in the cache. -/
theorem route_some {f : Incoming} {appid : AppId} (h : s.route f = some appid) :
    f.host ∈ s.route_cache.entries.map Prod.fst := by
  obtain ⟨map, hmap, -⟩ := Option.bind_eq_some_iff.1 h
  exact LruCache.find_isSome_iff.1 (by rw [hmap]; rfl)

/-- A request begins with a look into the cache. -/
theorem incoming_new {a : Action} (hs : s.step conf a = some s') {i : ℕ} (hnone : s.incoming[i]? = none)
    {f : Incoming} (hf : s'.incoming[i]? = some f) : f.pc = .lookup := by
  have hsame : s'.incoming.length = s.incoming.length → f.pc = .lookup := by
    intro hlength
    rw [List.getElem?_eq_none_iff] at hnone
    have hlt := (List.getElem?_eq_some_iff.1 hf).1
    omega
  cases step_effect hs with
  | sched | change => exact hsame rfl
  | @request host path =>
    rw [List.getElem?_eq_none_iff] at hnone
    have hf' : (s.incoming ++ [⟨rewrite_host host, path, .lookup⟩])[i]? = some f := hf
    rw [List.getElem?_append_right hnone, List.getElem?_singleton] at hf'
    obtain ⟨-, heq⟩ := Option.ite_none_right_eq_some.1 hf'
    rw [← Option.some.inj heq]
  | incoming _ effect =>
    refine hsame ?_
    cases effect <;> exact List.length_set
  | task effect =>
    refine hsame ?_
    cases effect with
    | reply =>
      simp only [State.reply]
      split
      · split
        · exact List.length_set
        · rfl
      · rfl
    | recv | hit | miss | listed | not_listed | insert | gc_begin | gc_listed | gc_not_listed | gc_compare | gc_end =>
      rfl

/-- A request of the scheduler that is not at fault for its app. -/
theorem handed_ok {i : ℕ} {appid : AppId} (h : Served conf db i appid s)
    (happ : (lookup_app conf db appid).isSome = true) {a : Action} (hsteady : steady a = true)
    (hroom : has_room i s a = true) (hkeeps : keeps i s a = true) (hs : s.step conf a = some s') {f : Incoming}
    (hf : s.incoming[i]? = some f) {r : ℕ} (hpc : f.pc = .handed r) {q : Sched.Request}
    (hq : s.sched.requests[r]? = some q) (hid : q.appid = appid) (hno : ¬ q.pc.NoRoute)
    (hin : q.pc = .waiting true → appid ∈ s.sched.apps.entries.map Prod.fst) :
    ∃ q', s'.sched.requests[r]? = some q' ∧ q'.appid = appid ∧ ¬ q'.pc.NoRoute
      ∧ (q'.pc = .waiting true → appid ∈ s'.sched.apps.entries.map Prod.fst) := by
  have hchange := steady_change hsteady
  have hsome : (lookup_app conf s.db appid).isSome = true := by
    rw [h.unchanged.same]
    exact happ
  rcases sched_after hs with ⟨hsame, -⟩ | ⟨b, hstep, hb⟩
  · exact ⟨q, by rw [hsame, hq], hid, hno, by rw [hsame]; exact hin⟩
  · obtain ⟨q', hq', hid', hplace⟩ := Sched.request_place_after hstep hq hno
    refine ⟨q', hq', hid'.trans hid, ?_⟩
    -- it stays, is told, looks and misses, or goes on
    rcases hplace with rfl | ⟨rfl, hreply, hpc'⟩ | ⟨rfl, hnone, hfail⟩ | ⟨hwait, hno'⟩
    · refine ⟨hno, fun hwait => app_kept h.unchanged hchange hs hsome (hin hwait) fun id back x heq hinsert => ?_⟩
      subst heq
      simpa [keeps, hinsert, hf, hpc, hq, hwait, hid] using hkeeps
    · refine ⟨by rw [hpc']; exact id, fun _ => ?_⟩
      have ha : a = .sched (.step_task .reply) := by simpa using hb
      obtain ⟨q₀, hq₀, hfilled⟩ := h.replied.app r hreply
      obtain rfl := Option.some.inj (hq.symm.trans hq₀)
      rw [hid] at hfilled
      refine app_kept h.unchanged hchange hs hsome (hfilled hsome) fun id back x heq _ => ?_
      rw [ha] at heq
      cases heq
    · have ha : a = .sched (.step_request r .lookup) := by simpa using hb
      rcases hfail with ⟨hlook, hfull⟩ | hwait
      -- the first look asks for a lookup, and there is room
      · rw [ha] at hroom
        simp [has_room, hf, hq, hpc, hlook, hnone, hfull] at hroom
      -- the second look finds what was filled in
      · have hfind := LruCache.find_isSome_iff.2 (hin hwait)
        rw [← hid, hnone] at hfind
        cases hfind
    · exact ⟨hno', fun heq => absurd heq hwait⟩

/-- A step of another party. -/
theorem incoming_other {i : ℕ} {appid : AppId} (h : Served conf db i appid s)
    (happ : (lookup_app conf db appid).isSome = true) {a : Action} (hsteady : steady a = true)
    (hroom : has_room i s a = true) (hkeeps : keeps i s a = true) (hs : s.step conf a = some s') {f : Incoming}
    (hf : s.incoming[i]? = some f) (hok : IncomingOk s appid f) : IncomingOk s' appid f := by
  have hchange := steady_change hsteady
  unfold IncomingOk at hok ⊢
  split at hok
  · trivial
  · trivial
  · trivial
  · rename_i hpc
    refine route_kept h.unchanged hchange hs hok fun domain map back heq hinsert => ?_
    subst heq
    simpa [keeps, hinsert, hf, hpc] using hkeeps
  · exact hok
  · rename_i r hpc
    obtain ⟨q, hq, hid, hno, hin⟩ := hok
    exact handed_ok h happ hsteady hroom hkeeps hs hf hpc hq hid hno hin
  · exact hok

/-- A step of the request itself. -/
theorem incoming_own {i : ℕ} {appid : AppId} (h : Served conf db i appid s) {b : IncomingAction}
    (hroom : has_room i s (.step_incoming i b) = true) {f f' : Incoming} (hf : s.incoming[i]? = some f)
    (hok : IncomingOk s appid f) (hroute : db.Routes f.host f.path appid) (heffect : IncomingEffect conf s i f b s')
    (hf' : s'.incoming[i]? = some f') : IncomingOk s' appid f' := by
  have hlt := (List.getElem?_eq_some_iff.1 hf).1
  cases heffect with
  | @found a place route =>
    obtain rfl : _ = f' := Option.some.inj ((List.getElem?_set_self hlt).symm.trans hf')
    have hsame := route_eq h.unchanged hroute (route_some route)
    exact Option.some.inj (route.symm.trans hsame)
  | ask =>
    obtain rfl : _ = f' := Option.some.inj ((List.getElem?_set_self hlt).symm.trans hf')
    trivial
  | full place missing full => simp [has_room, hf, place, missing, full] at hroom
  | missing place missing =>
    simp only [IncomingOk, place] at hok
    have hsome := route_eq h.unchanged hroute hok
    rw [missing] at hsome
    cases hsome
  | @handed a sched place step =>
    obtain rfl : _ = f' := Option.some.inj ((List.getElem?_set_self hlt).symm.trans hf')
    simp only [IncomingOk, place] at hok
    obtain rfl := Option.some.inj step
    refine ⟨⟨a, .lookup⟩, ?_, hok, fun hno => hno, fun hwait => by cases hwait⟩
    exact List.getElem?_concat_length
  | body_error =>
    obtain rfl : _ = f' := Option.some.inj ((List.getElem?_set_self hlt).symm.trans hf')
    simp [IncomingOk]
  | cancel =>
    obtain rfl : _ = f' := Option.some.inj ((List.getElem?_set_self hlt).symm.trans hf')
    trivial

/-- What the run theorem asks of a step, for request `i`. -/
def calm (i : ℕ) (s : State) (a : Action) : Bool := steady a && has_room i s a && keeps i s a

theorem served_start (conf : Config) (db : Database) (i : ℕ) (appid : AppId) : Served conf db i appid (start conf db) :=
  ⟨unchanged_start conf db, asked_start conf db, replied_start conf db, fun _ hf => nomatch hf⟩

theorem served_step {i : ℕ} {appid : AppId} (h : Served conf db i appid s)
    (happ : (lookup_app conf db appid).isSome = true) {a : Action} (hcalm : calm i s a = true)
    (hs : s.step conf a = some s') : Served conf db i appid s' := by
  simp only [calm, Bool.and_eq_true] at hcalm
  obtain ⟨⟨hsteady, hroom⟩, hkeeps⟩ := hcalm
  have hchange := steady_change hsteady
  refine ⟨unchanged_step h.unchanged hchange hs, asked_step h.asked hchange hs,
    ⟨fun back => replied_route_step h.unchanged h.asked h.replied hsteady hs,
      fun back => replied_app_step h.unchanged h.asked h.replied hsteady hs⟩, fun f' hf' hroute => ?_⟩
  cases hf : s.incoming[i]? with
  | none =>
    -- a request that has just come has not looked yet
    have hnew := incoming_new hs hf hf'
    simp only [IncomingOk, hnew]
  | some f =>
    obtain ⟨pc, hpc, hwhere⟩ := incoming_after hs hf
    obtain rfl : { f with pc := pc } = f' := Option.some.inj (hpc.symm.trans hf')
    have hok := h.incoming f hf hroute
    rcases hwhere with ⟨rfl, -⟩ | ⟨b, rfl, heffect⟩ | ⟨rfl, hreply, rfl⟩
    · exact incoming_other h happ hsteady hroom hkeeps hs hf hok
    · exact incoming_own h hroom hf hok hroute heffect hf'
    · obtain ⟨f₀, hf₀, hin⟩ := h.replied.route i hreply
      obtain rfl := Option.some.inj (hf.symm.trans hf₀)
      exact route_kept h.unchanged hchange hs hin fun domain map back heq _ => by cases heq

/-- **An existing route is missed for three reasons only.** Take any run of a
proxy and its database, with any number of requests and the four tasks
interleaved in any way, in which the tables do not change and the database
answers. If the most specific path of a request maps to an app that exists, with
a bundle that exists, then the request does not fail with `NoRouteMapping`, unless
it has found a queue of lookups full, or what was looked up for it has been
evicted by an insert for another domain or app before it looked again. -/
theorem routed_unless_full_or_evicted {as : List Action} {s : State} {i : ℕ} {f : Incoming} {appid : AppId}
    {config : AppConfig} {bundle : Bytes} (hf : s.incoming[i]? = some f) (hroute : db.Routes f.host f.path appid)
    (hconfig : db.app_metadata_get appid = some config) (hbundle : db.app_bundle_get config.bundle_id = some bundle)
    (hm : (machine conf).Meets (fun s a => calm i s a = true) (start conf db) as)
    (hrun : (machine conf).run (start conf db) as = some s) : ¬ NoRoute s i := by
  have happ : (lookup_app conf db appid).isSome = true := by
    simp only [lookup_app, hconfig, Option.bind_some, hbundle, Option.map_some, Option.isSome_some]
  have hserved : Served conf db i appid s :=
    (machine conf).run_invariant_of_meets (fun _ _ _ hi hc hs => served_step hi happ hc hs)
      (served_start conf db i appid) hm hrun
  have hok := hserved.incoming f hf hroute
  rintro ⟨f₀, hf₀, hfail⟩
  obtain rfl := Option.some.inj (hf.symm.trans hf₀)
  rcases hfail with hpc | ⟨r, q, hpc, hq, hended⟩
  · simp [IncomingOk, hpc] at hok
  · simp only [IncomingOk, hpc] at hok
    obtain ⟨q₀, hq₀, -, hno, -⟩ := hok
    obtain rfl := Option.some.inj (hq.symm.trans hq₀)
    rw [hended] at hno
    exact hno rfl

/-! ## Four runs -/

/-- An app with its bundle, and a domain that is routed to it. -/
def published : Database :=
  ((Database.empty.change (.app_bundle_put "v1" [1])).change (.app_metadata_put ⟨"app", "v1", [], []⟩)).change
    (.route_mapping_insert "a.com" "/" "app")

theorem routed_unless_full_or_evicted_published :
    ∃ s f, (machine small_conf).run (start small_conf published)
        (route_request 0 "a.com:443" ++ look_app_up 0 ⟨"app", "v1", [], []⟩ [1]) = some s
      ∧ s.incoming[0]? = some f ∧ f.pc = .handed 0 ∧ ¬ NoRoute s 0 := by
  have hrun : ((machine small_conf).run (start small_conf published)
      (route_request 0 "a.com:443" ++ look_app_up 0 ⟨"app", "v1", [], []⟩ [1])).map (fun s => s.incoming[0]?)
      = some (some ⟨"a.com", "/x", .handed 0⟩) := rfl
  have hcheck : (machine small_conf).check (calm 0) (start small_conf published)
      (route_request 0 "a.com:443" ++ look_app_up 0 ⟨"app", "v1", [], []⟩ [1]) = true := rfl
  obtain ⟨s, hs, hf⟩ := Option.map_eq_some_iff.1 hrun
  have hroute : published.Routes "a.com" "/x" "app" := by
    refine ⟨⟨"a.com", "/", "app"⟩, List.mem_singleton_self _, rfl, rfl, rfl, fun other hother _ _ => ?_⟩
    rw [List.mem_singleton.1 hother]
  have hconfig : published.app_metadata_get "app" = some ⟨"app", "v1", [], []⟩ := rfl
  have hbundle : published.app_bundle_get "v1" = some [1] := rfl
  exact ⟨s, _, hs, hf, rfl, routed_unless_full_or_evicted hf hroute hconfig hbundle
    ((machine small_conf).meets_of_check hcheck) hs⟩

/-- The tables have, for the domain, a path that the request path begins with,
and it maps to an app that exists, with a bundle that exists. -/
def Database.HasRoute (db : Database) (domain path : String) : Prop :=
  ∃ row ∈ db.routes.rows, row.domain = domain ∧ starts_with path row.path = true
    ∧ ∃ config bundle, db.app_metadata_get row.appid = some config
      ∧ db.app_bundle_get config.bundle_id = some bundle

/-- Request `i` has a route and fails for want of one, in a run in which the
tables do not change and the database answers. -/
def Misses (db : Database) (as : List Action) (i : ℕ) : Prop :=
  (∀ a ∈ as, steady a = true) ∧ ∃ s f, (machine small_conf).run (start small_conf db) as = some s
    ∧ s.incoming[i]? = some f ∧ db.HasRoute f.host f.path ∧ NoRoute s i

theorem has_route_published : published.HasRoute "a.com" "/x" :=
  ⟨⟨"a.com", "/", "app"⟩, List.mem_singleton_self _, rfl, rfl, ⟨"app", "v1", [], []⟩, [1], rfl, rfl⟩

/-- A lookup of the task, for a domain that is not in the cache. -/
def fill : List Action :=
  [.step_task .recv_lookup, .step_task .check, .step_task (.list true), .step_task .insert, .step_task .reply]

/-- The cache has room for one domain, and two requests for two domains have
theirs looked up. -/
def two_domains : List Action :=
  [.request (some "a.com") "/x", .request (some "b.com") "/x", .step_incoming 0 .lookup, .step_incoming 1 .lookup]
    ++ fill ++ fill ++ [.step_incoming 0 .lookup]

/-- A hundred requests wait, and one more comes. -/
def crowd : List Action :=
  (List.range 101).flatMap fun i => [.request (some "a.com") "/x", .step_incoming i .lookup]

/-- A more specific path maps to an app that has been deleted. -/
def shadowed : Database := published.change (.route_mapping_insert "a.com" "/x" "gone")

def gone_app : List Action :=
  route_request 0 "a.com"
    ++ [.sched (.step_request 0 .lookup), .sched (.step_task .recv_lookup), .sched (.step_task .check),
      .sched (.step_task (.app_metadata_get (.ok none))), .sched (.step_task .reply), .sched (.step_request 0 .lookup)]

set_option maxRecDepth 4000 in
/-- An eviction, a full queue and a route to a deleted app each make a request
fail whose route exists. -/
theorem existing_routes_missed :
    Misses published two_domains 0 ∧ Misses published crowd 100 ∧ Misses shadowed gone_app 0 := by
  have hfailed : ∀ as i, (∀ a ∈ as, steady a = true) →
      ((machine small_conf).run (start small_conf published) as).map (fun s => s.incoming[i]?)
        = some (some ⟨"a.com", "/x", .failed .NoRouteMapping⟩) → Misses published as i := by
    intro as i hsteady hrun
    obtain ⟨s, hs, hf⟩ := Option.map_eq_some_iff.1 hrun
    exact ⟨hsteady, s, _, hs, hf, has_route_published, _, hf, Or.inl rfl⟩
  refine ⟨hfailed two_domains 0 (by decide) rfl, hfailed crowd 100 (by decide) rfl, by decide, ?_⟩
  have hrun : ((machine small_conf).run (start small_conf shadowed) gone_app).map (fun s =>
      (s.incoming[0]?, s.sched.requests[0]?))
      = some (some ⟨"a.com", "/x", .handed 0⟩, some ⟨"gone", .ended (.error (.sched .NoRouteMapping))⟩) := rfl
  obtain ⟨s, hs, heq⟩ := Option.map_eq_some_iff.1 hrun
  obtain ⟨hf, hq⟩ := Prod.mk.inj heq
  refine ⟨s, _, hs, hf, ?_, _, hf, Or.inr ⟨0, _, rfl, hq, rfl⟩⟩
  exact ⟨⟨"a.com", "/", "app"⟩, by decide, rfl, rfl, ⟨"app", "v1", [], []⟩, [1], rfl, rfl⟩

end Routing

end RustyWorkers

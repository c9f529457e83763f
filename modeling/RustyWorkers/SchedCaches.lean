/-
The cache of apps of the scheduler, under its steps.

Requests and the clock leave it alone (`Quiet`). What is in it is up to two
tasks, the one that looks apps up and the one that drops changed ones. The second
half is about the lookups that requests ask for: what a request finds when it
looks for its app, and where it is after a step.
-/
import RustyWorkers.SchedHandles
import RustyWorkers.SchedRequests

set_option autoImplicit false

namespace RustyWorkers

open Lib

namespace Sched

section Steps

variable {conf : Config} {s s' : State}

/-! ## Steps that leave the cache alone -/

theorem app_put {app : ℕ} {a : AppState} (ha : s.app_states[app]? = some a)
    (queues : List ReadyInstance × List ReadyInstance) (app' : ℕ) : (s.put app a queues).app app' = s.app app' := by
  by_cases heq : app = app'
  · subst heq
    simp only [State.app, State.put, ha, List.getElem?_set_self (List.getElem?_eq_some_iff.1 ha).1, Option.map_some]
  · simp only [State.app, State.put, List.getElem?_set_ne heq]

theorem Quiet.goto (h : Quiet s s') (r : ℕ) (q : Request) (pc : RequestPc) : Quiet s (s'.goto r q pc) :=
  ⟨h.apps, h.app, h.lookup, h.gc, h.bundle_reads⟩

theorem Quiet.put {app : ℕ} {a : AppState} (ha : s.app_states[app]? = some a)
    (queues : List ReadyInstance × List ReadyInstance) : Quiet s (s.put app a queues) :=
  ⟨.rfl, app_put ha queues, rfl, rfl, rfl⟩

theorem Quiet.touch (id : AppId) : Quiet s { s with apps := s.apps.touch id } :=
  ⟨List.filter_append_perm _ _, fun _ => rfl, rfl, rfl, rfl⟩

theorem request_step_quiet {r : ℕ} {q : Request} {a : RequestAction} (h : request_step conf s r q a = some s') :
    Quiet s s' := by
  cases request_effect h with
  | hit | full | look_again => exact (Quiet.touch _).goto _ _ _
  | ask => exact ⟨List.filter_append_perm _ _, fun _ => rfl, rfl, rfl, rfl⟩
  | spawned | disconnect => exact ⟨.rfl, fun _ => rfl, rfl, rfl, rfl⟩
  | collect _ ha | pop _ ha | pool _ ha | dropout _ ha | collect_pool _ ha => exact (Quiet.put ha _).goto _ _ _
  | empty | no_client | choose | not_spawned | fetched | cancel => exact (Quiet.refl s).goto _ _ _

/-- Only the background tasks change what is in the cache of apps. -/
theorem step_quiet {a : Action} (h : step conf s a = some s') (htask : ∀ b, a ≠ .step_task b) : Quiet s s' := by
  cases step_effect h with
  | tick | discover | drop_client | request => exact ⟨.rfl, fun _ => rfl, rfl, rfl, rfl⟩
  | metrics perm => exact ⟨perm, fun _ => rfl, rfl, rfl, rfl⟩
  | free unused ha => exact Quiet.put ha _
  | step_request hq hs => exact request_step_quiet hs
  | step_task hs => exact absurd rfl (htask _)

/-! ## Lookups of apps -/

/-- The request fails, or will fail, for want of an app. -/
def RequestPc.NoRoute : RequestPc → Prop
  | .pooling _ _ result | .pooled _ result | .ended result => result = .error (.sched .NoRouteMapping)
  | _ => False

/-- What a request finds when it looks for its app in the cache. -/
theorem lookup_cases {r : ℕ} {q : Request} (h : request_step conf s r q .lookup = some s') :
    (∃ app, s.apps.find q.appid = some app ∧ s'.lookup_app_queue = s.lookup_app_queue
      ∧ s'.requests = s.requests.set r { q with pc := .collecting app 0 })
    ∨ (s.apps.find q.appid = none ∧ q.pc = .lookup ∧ s.lookup_app_queue.length < 100
      ∧ s'.lookup_app_queue = s.lookup_app_queue ++ [(q.appid, r)]
      ∧ s'.requests = s.requests.set r { q with pc := .waiting false })
    ∨ (s.apps.find q.appid = none ∧ (q.pc = .lookup ∧ ¬ s.lookup_app_queue.length < 100 ∨ q.pc = .waiting true)
      ∧ s'.lookup_app_queue = s.lookup_app_queue
      ∧ s'.requests = s.requests.set r { q with pc := .ended (.error (.sched .NoRouteMapping)) }) := by
  cases request_effect h with
  | hit pc cached => exact Or.inl ⟨_, cached, rfl, rfl⟩
  | ask pc missing room => exact Or.inr (Or.inl ⟨missing, pc, room, rfl, rfl⟩)
  | full pc missing full => exact Or.inr (Or.inr ⟨missing, Or.inl ⟨pc, full⟩, rfl, rfl⟩)
  | look_again pc =>
    cases hfind : s.apps.find q.appid with
    | none => exact Or.inr (Or.inr ⟨rfl, Or.inr pc, rfl, rfl⟩)
    | some app => exact Or.inl ⟨app, rfl, rfl, rfl⟩

theorem Goes.no_route {pc pc' : RequestPc} {b : RequestAction} (h : Goes s pc b pc') (hb : b ≠ .lookup)
    (hpc : ¬ pc.NoRoute) : pc' ≠ .waiting true ∧ ¬ pc'.NoRoute := by
  cases h with
  | look | ask | look_again => exact absurd rfl hb
  | disconnect =>
    rename_i app i _
    rcases next_attempt_cases app i with ⟨-, hx⟩ | ⟨-, hx⟩ <;> simp [hx, RequestPc.NoRoute]
  | fetched result =>
    rename_i app i inst
    cases result with
    | network_error | response => simp [after_fetch, RequestPc.NoRoute]
    | backend_error e =>
      rcases after_error_cases app i inst e with ⟨-, he⟩ | ⟨-, he | he⟩
      · rcases next_attempt_cases app i with ⟨-, hx⟩ | ⟨-, hx⟩ <;> simp [he, hx, RequestPc.NoRoute]
      · simp [he, RequestPc.NoRoute]
      · simp [he, RequestPc.NoRoute]
  | pool => exact ⟨by simp, hpc⟩
  | collect_pool => exact ⟨by simp, fun hended => hpc (bind_build_response hended)⟩
  | collect | pop | empty | no_client | choose | spawned | not_spawned | cancel => simp [RequestPc.NoRoute]

/-- A request is for one app all along. -/
theorem appid_after {a : Action} (h : step conf s a = some s') {r : ℕ} {q : Request}
    (hq : s.requests[r]? = some q) : ∃ q', s'.requests[r]? = some q' ∧ q'.appid = q.appid := by
  have hlt := (List.getElem?_eq_some_iff.1 hq).1
  have hset : ∀ (j : ℕ) (q₀ : Request) (pc : RequestPc), s.requests[j]? = some q₀ →
      s'.requests = s.requests.set j { q₀ with pc := pc } →
      ∃ q', s'.requests[r]? = some q' ∧ q'.appid = q.appid := by
    intro j q₀ pc hq₀ hs
    rw [hs]
    by_cases hj : j = r
    · subst hj
      obtain rfl := Option.some.inj (hq.symm.trans hq₀)
      exact ⟨_, List.getElem?_set_self hlt, rfl⟩
    · exact ⟨q, by rw [List.getElem?_set_ne hj, hq], rfl⟩
  rcases step_requests h with ⟨appid, -, hs⟩ | ⟨j, q₀, b, pc, -, hq₀, -, hs⟩ | ⟨j, q₀, answered, -, hq₀, -, hs⟩
    | ⟨-, hs⟩
  · exact ⟨q, by rw [hs, List.getElem?_append_left hlt, hq], rfl⟩
  · exact hset j q₀ pc hq₀ hs
  · exact hset j q₀ _ hq₀ hs
  · exact ⟨q, by rw [hs, hq], rfl⟩

/-- Where a request is after a step, as far as its lookup is concerned. -/
theorem request_place_after {a : Action} (h : step conf s a = some s') {r : ℕ} {q : Request}
    (hq : s.requests[r]? = some q) (hpc : ¬ q.pc.NoRoute) :
    ∃ q', s'.requests[r]? = some q' ∧ q'.appid = q.appid
      ∧ (q' = q
        ∨ (a = .step_task .reply ∧ s.lookup = .replying r ∧ q'.pc = .waiting true)
        ∨ (a = .step_request r .lookup ∧ s.apps.find q.appid = none
          ∧ (q.pc = .lookup ∧ ¬ s.lookup_app_queue.length < 100 ∨ q.pc = .waiting true))
        ∨ (q'.pc ≠ .waiting true ∧ ¬ q'.pc.NoRoute)) := by
  have hlt := (List.getElem?_eq_some_iff.1 hq).1
  rcases step_requests h with ⟨appid, -, hs⟩ | ⟨j, q₀, b, pc, rfl, hq₀, hgoes, hs⟩
    | ⟨j, q₀, answered, ⟨rfl, hplace⟩, hq₀, -, hs⟩ | ⟨-, hs⟩
  · refine ⟨q, ?_, rfl, Or.inl rfl⟩
    rw [hs, List.getElem?_append_left hlt, hq]
  · by_cases hj : j = r
    · subst hj
      obtain rfl := Option.some.inj (hq.symm.trans hq₀)
      refine ⟨{ q with pc := pc }, by rw [hs, List.getElem?_set_self hlt], rfl, ?_⟩
      -- only a look for the app can fail for want of a route
      by_cases hb : b = .lookup
      · subst hb
        simp only [step, hq] at h
        have hpc' : ∀ pc', s'.requests = s.requests.set j { q with pc := pc' } → pc = pc' := fun pc' hset => by
          have heq := congrArg (fun l : List Request => l[j]?) (hs.symm.trans hset)
          simpa [List.getElem?_set_self hlt] using heq
        rcases lookup_cases h with ⟨app, -, -, hset⟩ | ⟨-, -, -, -, hset⟩ | ⟨hnone, hfail, -, hset⟩
        · rw [hpc' _ hset]
          exact Or.inr (Or.inr (Or.inr ⟨by simp, by simp [RequestPc.NoRoute]⟩))
        · rw [hpc' _ hset]
          exact Or.inr (Or.inr (Or.inr ⟨by simp, by simp [RequestPc.NoRoute]⟩))
        · exact Or.inr (Or.inr (Or.inl ⟨rfl, hnone, hfail⟩))
      · exact Or.inr (Or.inr (Or.inr (hgoes.no_route hb hpc)))
    · refine ⟨q, ?_, rfl, Or.inl rfl⟩
      rw [hs, List.getElem?_set_ne hj, hq]
  · by_cases hj : j = r
    · subst hj
      obtain rfl := Option.some.inj (hq.symm.trans hq₀)
      exact ⟨{ q with pc := .waiting true }, by rw [hs, List.getElem?_set_self hlt], rfl,
        Or.inr (Or.inl ⟨rfl, hplace, rfl⟩)⟩
    · refine ⟨q, ?_, rfl, Or.inl rfl⟩
      rw [hs, List.getElem?_set_ne hj, hq]
  · exact ⟨q, by rw [hs, hq], rfl, Or.inl rfl⟩

/-- A request is in the queue of lookups for its own app. -/
theorem lookup_queue_after {a : Action} (h : step conf s a = some s') {x : AppId × ℕ}
    (hx : x ∈ s'.lookup_app_queue) :
    x ∈ s.lookup_app_queue ∨ ∃ q, s.requests[x.2]? = some q ∧ q.appid = x.1 := by
  cases step_effect h with
  | tick | discover | drop_client | metrics | free | request => exact Or.inl hx
  | step_request hq hs =>
    rename_i q _
    obtain ⟨pc, -, -, -, -, hsame | happend⟩ := request_step_goes hs
    · exact Or.inl (hsame ▸ hx)
    · rw [happend] at hx
      rcases List.mem_append.1 hx with hold | hnew
      · exact Or.inl hold
      · obtain rfl := List.mem_singleton.1 hnew
        exact Or.inr ⟨q, hq, rfl⟩
  | step_task hs =>
    cases task_effect hs with
    | quiet _ _ _ queue => exact Or.inl (queue ▸ hx)
    | recv idle head =>
      rw [head]
      exact Or.inl (List.mem_cons_of_mem _ hx)
    | hit | miss | metadata | no_metadata | bundle | no_bundle | insert | reply | gc_begin | gc_check | gc_remove
    | gc_end => exact Or.inl hx

end Steps

end Sched

end RustyWorkers

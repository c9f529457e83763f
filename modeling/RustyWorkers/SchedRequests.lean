/-
What a step of the scheduler does to the requests and to `Scheduler.clients`, and
what requests end with.

A request goes from one await point of `handle_request` to another by a step of
its own (`Goes`), and in no other way but one: the lookup that it waits for tells
it that it is over. A runtime leaves `clients` when a request has met a network
error with it, and when it does not answer `query_runtimes`. What a request ends
with is the response of the worker, or an error of the crate `http` that does not
take it.
-/
import RustyWorkers.SchedSteps

set_option autoImplicit false

namespace RustyWorkers

open Lib

namespace Sched

/-! ## Responses -/

/-- An error of a loop is the error of one of its rounds. -/
theorem mapM_error {α β : Type} {f : α → Except RequestError β} {l : List α} {e : RequestError}
    (h : l.mapM f = .error e) : ∃ x ∈ l, f x = .error e := by
  induction l with
  | nil => cases h
  | cons x l ih =>
      rw [List.mapM_cons] at h
      cases hx : f x with
      | error e' =>
        rw [hx] at h
        obtain rfl := Except.error.inj h
        exact ⟨x, List.mem_cons_self, hx⟩
      | ok y =>
        rw [hx] at h
        cases hl : l.mapM f with
        | error e' =>
          rw [hl] at h
          obtain rfl := Except.error.inj h
          obtain ⟨z, hz, he⟩ := ih hl
          exact ⟨z, List.mem_cons_of_mem _ hz, he⟩
        | ok ys =>
          rw [hl] at h
          cases h

/-- An error of the crate `http`. -/
def RequestError.OfHttp (e : RequestError) : Prop :=
  e = .invalid_status_code ∨ e = .invalid_header_name ∨ e = .invalid_header_value

theorem header_from_bytes_error {p : String × String} {e : RequestError} (h : header_from_bytes p = .error e) :
    e.OfHttp := by
  unfold header_from_bytes header_name_from_bytes header_value_from_bytes at h
  split at h
  · split at h
    · cases h
    · obtain rfl := Except.error.inj h
      exact Or.inr (Or.inr rfl)
  · obtain rfl := Except.error.inj h
    exact Or.inr (Or.inl rfl)

/-- The response of a worker is returned, or the crate `http` does not take it. -/
theorem build_response_error {res : ResponseObject} {e : RequestError} (h : build_response res = .error e) :
    e.OfHttp := by
  unfold build_response status_from_u16 at h
  split at h
  · cases hheaders : (res.headers.flatMap fun e => e.2.map fun v => (e.1, v)).mapM header_from_bytes with
    | ok headers =>
      simp only [hheaders] at h
      cases h
    | error e' =>
      simp only [hheaders] at h
      obtain rfl := Except.error.inj h
      obtain ⟨p, -, hp⟩ := mapM_error hheaders
      exact header_from_bytes_error hp
  · obtain rfl := Except.error.inj h
    exact Or.inl rfl

/-- Its errors are not those of the scheduler. -/
theorem bind_build_response {result : FetchOutcome} {e : SchedError}
    (h : result.bind build_response = .error (.sched e)) : result = .error (.sched e) := by
  cases result with
  | error e' =>
    obtain rfl := Except.error.inj h
    rfl
  | ok res =>
    rcases build_response_error h with he | he | he <;> cases he

/-! ## Requests -/

/-- A step of `handle_request`, as far as the request itself is concerned. -/
inductive Goes (s : State) : RequestPc → RequestAction → RequestPc → Prop
  | look (app : Option ℕ) : Goes s .lookup .lookup (found app)
  | ask : Goes s .lookup .lookup (.waiting false)
  | look_again (app : Option ℕ) : Goes s (.waiting true) .lookup (found app)
  | collect {app i : ℕ} : Goes s (.collecting app i) .collect (.popping app i)
  | pop {app i : ℕ} (inst : ReadyInstance) : Goes s (.popping app i) .pop (.fetching app i inst)
  | empty {app i : ℕ} : Goes s (.popping app i) .pop (.choosing app i)
  | no_client {app i : ℕ} {rtid : RuntimeId} (none : s.clients = []) :
      Goes s (.choosing app i) (.choose rtid) (.ended (.error (.sched .NoAvailableInstance)))
  | choose {app i : ℕ} {rtid : RuntimeId} {client : Client} (entry : s.clients.lookup rtid = some client) :
      Goes s (.choosing app i) (.choose rtid) (.spawning app i rtid client)
  | spawned {app i : ℕ} {rtid : RuntimeId} {client : Client} {handle : WorkerHandle} :
      Goes s (.spawning app i rtid client) (.spawned (.ok handle)) (.fetching app i ⟨rtid, s.now, handle, client⟩)
  | not_spawned {app i : ℕ} {rtid : RuntimeId} {client : Client} {e : GenericError} :
      Goes s (.spawning app i rtid client) (.spawned (.error e)) (.ended (.error (.spawn e)))
  | fetched {app i : ℕ} {inst : ReadyInstance} (result : FetchResult) :
      Goes s (.fetching app i inst) (.fetched result) (after_fetch app i inst result)
  | disconnect {app i : ℕ} {inst : ReadyInstance} :
      Goes s (.disconnecting app i inst) .disconnect (next_attempt app i)
  | pool {app : ℕ} {inst : ReadyInstance} {result : FetchOutcome} {dropout : Bool} :
      Goes s (.pooling app inst result) (.pool dropout) (.pooled app result)
  | collect_pool {app : ℕ} {result : FetchOutcome} :
      Goes s (.pooled app result) .collect (.ended (result.bind build_response))
  | cancel {pc : RequestPc} : Goes s pc .cancel .cancelled

theorem found_cases (app : Option ℕ) :
    found app = .ended (.error (.sched .NoRouteMapping)) ∨ ∃ a, app = some a ∧ found app = .collecting a 0 := by
  cases app with
  | none => exact Or.inl rfl
  | some a => exact Or.inr ⟨a, rfl, rfl⟩

theorem next_attempt_cases (app i : ℕ) :
    (i + 1 < 3 ∧ next_attempt app i = .collecting app (i + 1))
    ∨ (3 ≤ i + 1 ∧ next_attempt app i = .ended (.error (.sched .RequestFailedAfterRetries))) := by
  unfold next_attempt
  split
  · exact Or.inl ⟨‹_›, rfl⟩
  · exact Or.inr ⟨by omega, rfl⟩

/-- Only `NoSuchWorker` is worth another attempt. -/
theorem after_error_cases (app i : ℕ) (inst : ReadyInstance) (e : ExecutionError) :
    (e = .NoSuchWorker ∧ after_fetch app i inst (.backend_error e) = next_attempt app i)
    ∨ (e ≠ .NoSuchWorker
      ∧ (after_fetch app i inst (.backend_error e) = .ended (.error (.sched .RequestFailedAfterRetries))
        ∨ after_fetch app i inst (.backend_error e)
          = .pooling app inst (.error (.sched .RequestFailedAfterRetries)))) := by
  cases e with
  | NoSuchWorker => exact Or.inl ⟨rfl, rfl⟩
  | ScriptThrowsException text => exact Or.inr ⟨by simp, Or.inr rfl⟩
  | RuntimeThrowsException | TimeLimitExceeded | MemoryLimitExceeded | IoTimeout =>
    exact Or.inr ⟨by simp, Or.inl rfl⟩

/-- Where a request goes by a choice: to another attempt, to the pool, or to its
end. -/
def RequestPc.Chosen : RequestPc → Prop
  | .collecting _ _ | .pooling _ _ _ | .ended _ => True
  | _ => False

theorem chosen_found (app : Option ℕ) : (found app).Chosen := by
  rcases found_cases app with hx | ⟨a, -, hx⟩
  · rw [hx]
    trivial
  · rw [hx]
    trivial

theorem chosen_next_attempt (app i : ℕ) : (next_attempt app i).Chosen := by
  rcases next_attempt_cases app i with ⟨-, hx⟩ | ⟨-, hx⟩
  · rw [hx]
    trivial
  · rw [hx]
    trivial

/-- After a network error there is no choice: the runtime is dropped first. -/
theorem chosen_after_fetch (app i : ℕ) (inst : ReadyInstance) {result : FetchResult}
    (h : result ≠ .network_error) : (after_fetch app i inst result).Chosen := by
  cases result with
  | network_error => exact absurd rfl h
  | response res => trivial
  | backend_error e =>
    rcases after_error_cases app i inst e with ⟨-, he⟩ | ⟨-, he | he⟩
    · rw [he]
      exact chosen_next_attempt app i
    · rw [he]
      trivial
    · rw [he]
      trivial

/-- Only a network error makes a request drop a runtime. -/
theorem Goes.of_disconnecting {s : State} {pc pc' : RequestPc} {b : RequestAction} (h : Goes s pc b pc')
    {app i : ℕ} {inst : ReadyInstance} (hpc : pc' = .disconnecting app i inst) :
    pc = .fetching app i inst ∧ b = .fetched .network_error := by
  have hplace : ¬ pc'.Chosen := by
    rw [hpc]
    exact id
  cases h with
  | look x | look_again x => exact absurd (chosen_found x) hplace
  | disconnect => exact absurd (chosen_next_attempt _ _) hplace
  | fetched result =>
    by_cases hnet : result = .network_error
    · subst hnet
      obtain ⟨rfl, rfl, rfl⟩ := RequestPc.disconnecting.inj hpc
      exact ⟨rfl, rfl⟩
    · exact absurd (chosen_after_fetch _ _ _ hnet) hplace
  | ask | collect | pop | empty | no_client | choose | spawned | not_spawned | pool | collect_pool | cancel =>
    cases hpc

/-- An instance comes from the pool or from a spawn. -/
theorem Goes.of_fetching {s : State} {pc pc' : RequestPc} {b : RequestAction} (h : Goes s pc b pc')
    {app i : ℕ} {inst : ReadyInstance} (hpc : pc' = .fetching app i inst) :
    (pc = .popping app i ∧ b = .pop)
    ∨ ∃ rtid client handle, pc = .spawning app i rtid client ∧ b = .spawned (.ok handle)
      ∧ inst = ⟨rtid, s.now, handle, client⟩ := by
  have hplace : ¬ pc'.Chosen := by
    rw [hpc]
    exact id
  cases h with
  | look x | look_again x => exact absurd (chosen_found x) hplace
  | disconnect => exact absurd (chosen_next_attempt _ _) hplace
  | pop inst' =>
    obtain ⟨rfl, rfl, rfl⟩ := RequestPc.fetching.inj hpc
    exact Or.inl ⟨rfl, rfl⟩
  | spawned =>
    obtain ⟨rfl, rfl, rfl⟩ := RequestPc.fetching.inj hpc
    exact Or.inr ⟨_, _, _, rfl, rfl, rfl⟩
  | fetched result =>
    by_cases hnet : result = .network_error
    · rw [hnet] at hpc
      cases hpc
    · exact absurd (chosen_after_fetch _ _ _ hnet) hplace
  | ask | collect | empty | no_client | choose | not_spawned | pool | collect_pool | cancel => cases hpc

/-- The clients after a step of a request. -/
def clients_after (clients : List (RuntimeId × Client)) : RequestPc → RequestAction → List (RuntimeId × Client)
  | .disconnecting _ _ inst, .disconnect => clients.filter (·.1 ≠ inst.rtid)
  | _, _ => clients

variable {conf : Config} {s s' : State}

theorem clients_after_of_ne {clients : List (RuntimeId × Client)} {pc : RequestPc} {a : RequestAction}
    (h : a ≠ .disconnect) : clients_after clients pc a = clients := by
  unfold clients_after
  split
  · exact absurd rfl h
  · rfl

/-- What a step of a request changes of the requests, the clients, the clock and
the queue of lookups. -/
theorem request_step_goes {r : ℕ} {q : Request} {a : RequestAction}
    (h : request_step conf s r q a = some s') :
    ∃ pc, Goes s q.pc a pc ∧ s'.requests = s.requests.set r { q with pc := pc }
      ∧ s'.clients = clients_after s.clients q.pc a ∧ s'.now = s.now
      ∧ (s'.lookup_app_queue = s.lookup_app_queue
        ∨ s'.lookup_app_queue = s.lookup_app_queue ++ [(q.appid, r)]) := by
  cases request_effect h with
  | hit pc cached =>
    rw [pc, clients_after_of_ne (by simp)]
    exact ⟨_, .look _, rfl, rfl, rfl, Or.inl rfl⟩
  | ask pc missing room =>
    rw [pc, clients_after_of_ne (by simp)]
    exact ⟨_, .ask, rfl, rfl, rfl, Or.inr rfl⟩
  | full pc missing full =>
    rw [pc, clients_after_of_ne (by simp)]
    exact ⟨_, .look _, rfl, rfl, rfl, Or.inl rfl⟩
  | look_again pc =>
    rw [pc, clients_after_of_ne (by simp)]
    exact ⟨_, .look_again _, rfl, rfl, rfl, Or.inl rfl⟩
  | collect pc ha =>
    rw [pc, clients_after_of_ne (by simp)]
    exact ⟨_, .collect, rfl, rfl, rfl, Or.inl rfl⟩
  | pop pc ha front =>
    rw [pc, clients_after_of_ne (by simp)]
    exact ⟨_, .pop _, rfl, rfl, rfl, Or.inl rfl⟩
  | empty pc ha front =>
    rw [pc, clients_after_of_ne (by simp)]
    exact ⟨_, .empty, rfl, rfl, rfl, Or.inl rfl⟩
  | no_client pc none =>
    rw [pc, clients_after_of_ne (by simp)]
    exact ⟨_, .no_client none, rfl, rfl, rfl, Or.inl rfl⟩
  | choose pc entry =>
    rw [pc, clients_after_of_ne (by simp)]
    exact ⟨_, .choose entry, rfl, rfl, rfl, Or.inl rfl⟩
  | spawned pc fresh ha =>
    rw [pc, clients_after_of_ne (by simp)]
    exact ⟨_, .spawned, rfl, rfl, rfl, Or.inl rfl⟩
  | not_spawned pc =>
    rw [pc, clients_after_of_ne (by simp)]
    exact ⟨_, .not_spawned, rfl, rfl, rfl, Or.inl rfl⟩
  | fetched result pc =>
    rw [pc, clients_after_of_ne (by simp)]
    exact ⟨_, .fetched result, rfl, rfl, rfl, Or.inl rfl⟩
  | disconnect pc =>
    rw [pc]
    exact ⟨_, .disconnect, rfl, rfl, rfl, Or.inl rfl⟩
  | pool pc ha | dropout pc ha =>
    rw [pc, clients_after_of_ne (by simp)]
    exact ⟨_, .pool, rfl, rfl, rfl, Or.inl rfl⟩
  | collect_pool pc ha =>
    rw [pc, clients_after_of_ne (by simp)]
    exact ⟨_, .collect_pool, rfl, rfl, rfl, Or.inl rfl⟩
  | cancel =>
    rw [clients_after_of_ne (by simp)]
    exact ⟨_, .cancel, rfl, rfl, rfl, Or.inl rfl⟩

/-- A background task changes nothing of this, but that a lookup tells the
request that waits for it that it is over. -/
theorem task_step_requests {a : TaskAction} (h : task_step conf s a = some s') :
    s'.clients = s.clients ∧ s'.now = s.now ∧ (s'.requests = s.requests
      ∨ ∃ back q answered, (a = .reply ∧ s.lookup = .replying back) ∧ s.requests[back]? = some q
        ∧ q.pc = .waiting answered ∧ s'.requests = s.requests.set back { q with pc := .waiting true }) := by
  cases task_effect h with
  | quiet terminate _ requests _ =>
    rcases terminate with rfl | rfl
    · simp only [task_step] at h
      split at h
      · obtain rfl := Option.some.inj h
        exact ⟨rfl, rfl, Or.inl rfl⟩
      · cases h
    · obtain ⟨-, h⟩ := Option.ite_none_right_eq_some.1 h
      obtain rfl := Option.some.inj h
      exact ⟨rfl, rfl, Or.inl rfl⟩
  | reply place =>
    rename_i back
    refine ⟨rfl, rfl, ?_⟩
    unfold reply
    split
    · rename_i q hq
      split
      · rename_i answered hpc
        exact Or.inr ⟨back, q, answered, ⟨rfl, place⟩, hq, hpc, rfl⟩
      · exact Or.inl rfl
    · exact Or.inl rfl
  | recv | hit | miss | metadata | no_metadata | bundle | no_bundle | insert | gc_begin | gc_check | gc_remove
  | gc_end => exact ⟨rfl, rfl, Or.inl rfl⟩

/-- The apps after a step of a background task. -/
theorem task_step_app_states {b : TaskAction} (h : task_step conf s b = some s') :
    s'.app_states = s.app_states
    ∨ ∃ id back a, s.lookup = .inserting id back a ∧ s'.app_states = s.app_states ++ [a] := by
  cases task_effect h with
  | quiet terminate =>
    rcases terminate with rfl | rfl
    · simp only [task_step] at h
      split at h
      · obtain rfl := Option.some.inj h
        exact Or.inl rfl
      · cases h
    · obtain ⟨-, h⟩ := Option.ite_none_right_eq_some.1 h
      obtain rfl := Option.some.inj h
      exact Or.inl rfl
  | insert place => exact Or.inr ⟨_, _, _, place, rfl⟩
  | recv | hit | miss | metadata | no_metadata | bundle | no_bundle | reply | gc_begin | gc_check | gc_remove
  | gc_end => exact Or.inl rfl

/-- What a step does to the list of requests. -/
theorem step_requests {a : Action} (h : step conf s a = some s') :
    (∃ appid, a = .request appid ∧ s'.requests = s.requests ++ [⟨appid, .lookup⟩])
    ∨ (∃ r q b pc, a = .step_request r b ∧ s.requests[r]? = some q ∧ Goes s q.pc b pc
      ∧ s'.requests = s.requests.set r { q with pc := pc })
    ∨ (∃ r q answered, (a = .step_task .reply ∧ s.lookup = .replying r) ∧ s.requests[r]? = some q
      ∧ q.pc = .waiting answered ∧ s'.requests = s.requests.set r { q with pc := .waiting true })
    ∨ ((∀ r b, a ≠ .step_request r b) ∧ s'.requests = s.requests) := by
  cases step_effect h with
  | tick | discover | drop_client | metrics | free => exact Or.inr (Or.inr (Or.inr ⟨by simp, rfl⟩))
  | request appid => exact Or.inl ⟨appid, rfl, rfl⟩
  | step_request hq hs =>
    obtain ⟨pc, hgoes, hrequests, -, -⟩ := request_step_goes hs
    exact Or.inr (Or.inl ⟨_, _, _, pc, rfl, hq, hgoes, hrequests⟩)
  | step_task hs =>
    obtain ⟨-, -, hrequests | ⟨r, q, answered, ⟨rfl, hplace⟩, hq, hpc, hrequests⟩⟩ := task_step_requests hs
    · exact Or.inr (Or.inr (Or.inr ⟨by simp, hrequests⟩))
    · exact Or.inr (Or.inr (Or.inl ⟨r, q, answered, ⟨rfl, hplace⟩, hq, hpc, hrequests⟩))

/-- A request stays in the list. -/
theorem requests_length {a : Action} (h : step conf s a = some s') :
    s.requests.length ≤ s'.requests.length := by
  rcases step_requests h with ⟨appid, -, hs⟩ | ⟨r, q, b, pc, -, -, -, hs⟩ | ⟨r, q, answered, -, -, -, hs⟩
    | ⟨-, hs⟩
  · rw [hs, List.length_append]
    omega
  · rw [hs, List.length_set]
  · rw [hs, List.length_set]
  · rw [hs]

/-- What a request is after a step: what it was, a new one, where a step of its
own leads, or told that its lookup is over. -/
theorem request_after {a : Action} (h : step conf s a = some s') {r : ℕ} {q' : Request}
    (hq' : s'.requests[r]? = some q') :
    ((∀ b, a ≠ .step_request r b) ∧ s.requests[r]? = some q')
    ∨ (s.requests.length ≤ r ∧ q'.pc = .lookup)
    ∨ (∃ q b, a = .step_request r b ∧ s.requests[r]? = some q ∧ Goes s q.pc b q'.pc)
    ∨ ∃ q answered, s.requests[r]? = some q ∧ q.pc = .waiting answered ∧ q'.pc = .waiting true := by
  -- the list grows at its end, or changes at one request
  rcases step_requests h with ⟨appid, rfl, hs⟩ | ⟨j, q, b, pc, rfl, hq, hgoes, hs⟩
    | ⟨j, q, answered, ⟨rfl, -⟩, hq, hpc, hs⟩ | ⟨hne, hs⟩
  · rw [hs] at hq'
    by_cases hlt : r < s.requests.length
    · rw [List.getElem?_append_left hlt] at hq'
      exact Or.inl ⟨by simp, hq'⟩
    · rw [List.getElem?_append_right (by omega), List.getElem?_singleton] at hq'
      split at hq'
      · obtain rfl := Option.some.inj hq'
        exact Or.inr (Or.inl ⟨by omega, rfl⟩)
      · cases hq'
  · rw [hs] at hq'
    by_cases hj : j = r
    · subst hj
      rw [List.getElem?_set_self (List.getElem?_eq_some_iff.1 hq).1] at hq'
      obtain rfl := Option.some.inj hq'
      exact Or.inr (Or.inr (Or.inl ⟨q, b, rfl, hq, hgoes⟩))
    · rw [List.getElem?_set_ne hj] at hq'
      exact Or.inl ⟨by simp [hj], hq'⟩
  · rw [hs] at hq'
    by_cases hj : j = r
    · subst hj
      rw [List.getElem?_set_self (List.getElem?_eq_some_iff.1 hq).1] at hq'
      obtain rfl := Option.some.inj hq'
      exact Or.inr (Or.inr (Or.inr ⟨q, answered, hq, hpc, rfl⟩))
    · rw [List.getElem?_set_ne hj] at hq'
      exact Or.inl ⟨by simp, hq'⟩
  · rw [hs] at hq'
    exact Or.inl ⟨hne r, hq'⟩

/-- A step of a request leads it on. -/
theorem own_step {r : ℕ} {b : RequestAction} (h : step conf s (.step_request r b) = some s') :
    ∃ q pc, s.requests[r]? = some q ∧ Goes s q.pc b pc ∧ s'.requests[r]? = some { q with pc := pc } := by
  cases step_effect h with
  | step_request hq hs =>
    rename_i q
    obtain ⟨pc, hgoes, hrequests, -, -⟩ := request_step_goes hs
    refine ⟨q, pc, hq, hgoes, ?_⟩
    rw [hrequests, List.getElem?_set_self (List.getElem?_eq_some_iff.1 hq).1]

theorem Goes.of_fetched {pc pc' : RequestPc} {result : FetchResult} (h : Goes s pc (.fetched result) pc') :
    ∃ app i inst, pc = .fetching app i inst ∧ pc' = after_fetch app i inst result := by
  cases h
  exact ⟨_, _, _, rfl, rfl⟩

/-- Only the clock moves the clock. -/
theorem step_now {a : Action} (h : step conf s a = some s') (htick : ∀ n, a ≠ .tick n) : s'.now = s.now := by
  cases step_effect h with
  | tick n => exact absurd rfl (htick n)
  | discover | drop_client | metrics | free | request => rfl
  | step_task hs => exact (task_step_requests hs).2.1
  | step_request hq hs =>
    obtain ⟨pc, -, -, -, hnow, -⟩ := request_step_goes hs
    exact hnow

/-- `Scheduler.clients` after a step. -/
def State.clients_after (s : State) : Action → List (RuntimeId × Client)
  | .discover rtid client => (rtid, client) :: s.clients
  | .drop_client rtid => s.clients.filter (·.1 ≠ rtid)
  | .step_request r b =>
    match s.requests[r]? with
    | some q => Sched.clients_after s.clients q.pc b
    | none => s.clients
  | _ => s.clients

theorem step_clients {a : Action} (h : step conf s a = some s') : s'.clients = s.clients_after a := by
  cases step_effect h with
  | tick | discover | drop_client | metrics | free | request => rfl
  | step_task hs => exact (task_step_requests hs).1
  | step_request hq hs =>
    obtain ⟨pc, -, -, hclients, -⟩ := request_step_goes hs
    rw [hclients, State.clients_after, hq]

/-- How a client leaves `clients`. -/
theorem clients_lost {a : Action} (h : step conf s a = some s') {e : RuntimeId × Client} (hin : e ∈ s.clients)
    (hout : e ∉ s'.clients) :
    a = .drop_client e.1 ∨ ∃ r q app i inst, a = .step_request r .disconnect ∧ s.requests[r]? = some q
      ∧ q.pc = .disconnecting app i inst ∧ inst.rtid = e.1 := by
  rw [step_clients h] at hout
  unfold State.clients_after at hout
  split at hout
  · exact absurd (List.mem_cons_of_mem _ hin) hout
  · rename_i id
    by_cases heq : e.1 = id
    · exact Or.inl (heq ▸ rfl)
    · exact absurd (List.mem_filter.2 ⟨hin, by simpa using heq⟩) hout
  · rename_i r b
    split at hout
    · rename_i q hq
      unfold clients_after at hout
      split at hout
      · rename_i app i inst hpc
        by_cases heq : e.1 = inst.rtid
        · exact Or.inr ⟨r, q, app, i, inst, rfl, hq, hpc, heq.symm⟩
        · exact absurd (List.mem_filter.2 ⟨hin, by simpa using heq⟩) hout
      · exact absurd hin hout
    · exact absurd hin hout
  · exact absurd hin hout

end Sched

end RustyWorkers

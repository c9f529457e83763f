/-
Which runtimes leave the pool of a proxy: `Scheduler.clients`, `query_runtimes`
and the error branch of `handle_request` (`rusty-workers-proxy/src/sched.rs`).

`query_runtimes` drops a runtime that does not answer `load`. `handle_request`
drops the id of a runtime when the RPC of a fetch fails, as "network error"; but
an RPC fails also when its deadline, `request_timeout_ms` after the call, has
passed, and how long a fetch takes is up to the script. The length of a message is
up to the app too, and a message that is longer than a frame costs the connection.
And the RPC may have failed over an old connection, while the runtime has been
discovered again over a new one: `remove` asks for the id only.

So a runtime that is up stays in the pool as long as none of this happens, and no
longer.
-/
import RustyWorkers.Dispatch
import RustyWorkers.SchedHandles

set_option autoImplicit false

namespace RustyWorkers

open Lib

namespace Sched

/-! ## The clients in use -/

/-- The entry of `clients` that an instance has come from. -/
def ReadyInstance.entry (inst : ReadyInstance) : RuntimeId × Client := (inst.rtid, inst.client)

/-- The client that a request holds. -/
def RequestPc.entry : RequestPc → Option (RuntimeId × Client)
  | .spawning _ _ rtid client => some (rtid, client)
  | .fetching _ _ inst | .disconnecting _ _ inst | .pooling _ inst _ => some inst.entry
  | .lookup | .waiting _ | .collecting _ _ | .popping _ _ | .choosing _ _ | .pooled _ _ | .ended _
  | .cancelled => none

/-- The instance whose runtime a request drops. -/
def RequestPc.to_drop : RequestPc → Option ReadyInstance
  | .disconnecting _ _ inst => some inst
  | _ => none

theorem to_drop_eq_some {pc : RequestPc} {inst : ReadyInstance} :
    pc.to_drop = some inst ↔ ∃ app i, pc = .disconnecting app i inst := by
  constructor
  · intro h
    unfold RequestPc.to_drop at h
    split at h
    · obtain rfl := Option.some.inj h
      exact ⟨_, _, rfl⟩
    · cases h
  · rintro ⟨app, i, rfl⟩
    rfl

/-- The map `clients`, a ready queue or a request has the client. -/
inductive Uses (s : State) : RuntimeId × Client → Prop
  | client {e : RuntimeId × Client} (mem : e ∈ s.clients) : Uses s e
  | ready {a : AppState} {inst : ReadyInstance} (app : a ∈ s.app_states) (mem : inst ∈ a.ready_instances) :
      Uses s inst.entry
  | inserting {id : AppId} {back : ℕ} {a : AppState} {inst : ReadyInstance}
      (place : s.lookup = .inserting id back a) (mem : inst ∈ a.ready_instances) : Uses s inst.entry
  | request {q : Request} {e : RuntimeId × Client} (mem : q ∈ s.requests) (pc : q.pc.entry = some e) : Uses s e

variable {conf : Config} {s s' : State} {e : RuntimeId × Client}

/-- Where nothing comes, nothing is used that was not. -/
theorem Uses.of_subset (h : Uses s' e) (hclients : s'.clients ⊆ s.clients) (happs : s'.app_states = s.app_states)
    (hlookup : ∀ id back a, s'.lookup = .inserting id back a → s.lookup = .inserting id back a)
    (hrequests : s'.requests = s.requests) : Uses s e := by
  cases h with
  | client mem => exact .client (hclients mem)
  | ready app mem => exact .ready (happs ▸ app) mem
  | inserting place mem => exact .inserting (hlookup _ _ _ place) mem
  | request mem pc => exact .request (hrequests ▸ mem) pc

theorem Uses.of_goto {r : ℕ} {q : Request} {pc : RequestPc} (h : Uses (s.goto r q pc) e) :
    Uses s e ∨ pc.entry = some e := by
  cases h with
  | client mem => exact Or.inl (.client mem)
  | ready app mem => exact Or.inl (.ready app mem)
  | inserting place mem => exact Or.inl (.inserting place mem)
  | request mem hpc =>
    rcases List.mem_or_eq_of_mem_set mem with hold | rfl
    · exact Or.inl (.request hold hpc)
    · exact Or.inr hpc

theorem Uses.of_put {app : ℕ} {a : AppState} {queues : List ReadyInstance × List ReadyInstance}
    (h : Uses (s.put app a queues) e) : Uses s e ∨ ∃ inst ∈ queues.1, inst.entry = e := by
  cases h with
  | client mem => exact Or.inl (.client mem)
  | ready app mem =>
    rcases List.mem_or_eq_of_mem_set app with hold | rfl
    · exact Or.inl (.ready hold mem)
    · exact Or.inr ⟨_, mem, rfl⟩
  | inserting place mem => exact Or.inl (.inserting place mem)
  | request mem pc => exact Or.inl (.request mem pc)

/-- A queue that only loses instances uses what it has used. -/
theorem Uses.of_put_subset {app : ℕ} {a : AppState} {queues : List ReadyInstance × List ReadyInstance}
    (h : Uses (s.put app a queues) e) (ha : s.app_states[app]? = some a) (hsub : queues.1 ⊆ a.ready_instances) :
    Uses s e := by
  rcases h.of_put with hold | ⟨inst, hmem, rfl⟩
  · exact hold
  · exact .ready (List.mem_of_getElem? ha) (hsub hmem)

theorem found_entry (app : Option ℕ) : (found app).entry = none := by
  rcases found_cases app with hx | ⟨a, -, hx⟩ <;> rw [hx] <;> rfl

theorem next_attempt_entry (app i : ℕ) : (next_attempt app i).entry = none := by
  rcases next_attempt_cases app i with ⟨-, hx⟩ | ⟨-, hx⟩ <;> rw [hx] <;> rfl

/-- After its fetch a request has the client of the fetch, or none. -/
theorem after_fetch_entry {app i : ℕ} {inst : ReadyInstance} {result : FetchResult}
    (h : (after_fetch app i inst result).entry = some e) : inst.entry = e := by
  cases result with
  | network_error | response => exact Option.some.inj h
  | backend_error err =>
    rcases after_error_cases app i inst err with ⟨-, hx⟩ | ⟨-, hx | hx⟩
    · rw [hx, next_attempt_entry] at h
      cases h
    · rw [hx] at h
      cases h
    · rw [hx] at h
      exact Option.some.inj h

/-- A request takes its client from the pool or from `clients`. -/
theorem uses_request {r : ℕ} {q : Request} {b : RequestAction} (hq : s.requests[r]? = some q)
    (hs : request_step conf s r q b = some s') (h : Uses s' e) : Uses s e := by
  have hmem := List.mem_of_getElem? hq
  have hsame : ∀ {t : State} {pc : RequestPc}, Uses (t.goto r q pc) e → pc.entry = none → Uses t e := by
    intro t pc ht hpc
    rcases ht.of_goto with hold | hnew
    · exact hold
    · rw [hpc] at hnew
      cases hnew
  cases request_effect hs with
  | hit | full | look_again => exact (hsame h (found_entry _)).of_subset (fun _ h => h) rfl (fun _ _ _ h => h) rfl
  | ask => exact (hsame h rfl).of_subset (fun _ h => h) rfl (fun _ _ _ h => h) rfl
  | empty | no_client | not_spawned | cancel => exact hsame h rfl
  | collect pc ha | collect_pool pc ha =>
    exact (hsame h rfl).of_put_subset ha fun _ hx => mem_gc_ready_instances.1 hx
  | @pop app i a inst ready pc ha front =>
    have hfront : ∀ x ∈ inst :: ready, Uses s x.entry := by
      intro x hx
      apply Uses.ready (List.mem_of_getElem? ha)
      rw [front]
      exact hx
    rcases h.of_goto with hold | hnew
    · rcases hold.of_put with hold | ⟨x, hx, rfl⟩
      · exact hold
      · exact hfront x (List.mem_cons_of_mem _ hx)
    · obtain rfl := Option.some.inj hnew
      exact hfront inst List.mem_cons_self
  | @choose app i rtid client pc entry =>
    rcases h.of_goto with hold | hnew
    · exact hold
    · obtain rfl := Option.some.inj hnew
      obtain ⟨l₁, l₂, hl, -⟩ := List.lookup_eq_some_iff.1 entry
      apply Uses.client
      rw [hl]
      exact List.mem_append_right _ List.mem_cons_self
  | spawned pc fresh ha =>
    rcases h.of_goto with hold | hnew
    · exact hold.of_subset (fun _ h => h) rfl (fun _ _ _ h => h) rfl
    · exact .request hmem (by rw [pc]; exact hnew)
  | fetched result pc =>
    rcases h.of_goto with hold | hnew
    · exact hold
    · obtain rfl := after_fetch_entry hnew
      exact .request hmem (by rw [pc]; rfl)
  | disconnect pc =>
    have hleft := hsame h (next_attempt_entry _ _)
    exact hleft.of_subset (fun x hx => (List.mem_filter.1 hx).1) rfl (fun _ _ _ h => h) rfl
  | @pool app inst result a pc ha =>
    rcases (hsame h rfl).of_put with hold | ⟨x, hx, rfl⟩
    · exact hold
    · rcases List.mem_append.1 hx with hx | hx
      · exact .ready (List.mem_of_getElem? ha) hx
      · rw [List.mem_singleton.1 hx]
        exact .request hmem (by rw [pc]; rfl)
  | dropout pc ha => exact (hsame h rfl).of_put_subset ha fun _ hx => hx

/-- A lookup brings an app with an empty queue. -/
theorem uses_task {b : TaskAction} (hs : task_step conf s b = some s') (h : Uses s' e) : Uses s e := by
  have hnone : ∀ {id : AppId} {back : ℕ} {pc : LookupPc} {a : AppState}, (∀ id back a, pc ≠ .inserting id back a) →
      pc = .inserting id back a → s.lookup = .inserting id back a := fun hpc heq => absurd heq (hpc _ _ _)
  cases task_effect hs with
  | quiet terminate =>
    rcases terminate with rfl | rfl
    · simp only [task_step] at hs
      split at hs
      · obtain rfl := Option.some.inj hs
        exact h.of_subset (fun _ h => h) rfl (fun _ _ _ h => h) rfl
      · cases hs
    · obtain ⟨-, hs⟩ := Option.ite_none_right_eq_some.1 hs
      obtain rfl := Option.some.inj hs
      exact h.of_subset (fun _ h => h) rfl (fun _ _ _ h => h) rfl
  | recv | hit | miss | metadata | no_metadata | no_bundle =>
    exact h.of_subset (fun _ h => h) rfl (fun _ _ _ heq => hnone (by simp) heq) rfl
  | gc_begin | gc_check | gc_remove | gc_end => exact h.of_subset (fun _ h => h) rfl (fun _ _ _ h => h) rfl
  | bundle place =>
    cases h with
    | client mem => exact .client mem
    | ready app mem => exact .ready app mem
    | inserting heq mem =>
      obtain ⟨-, -, rfl⟩ := LookupPc.inserting.inj heq
      cases mem
    | request mem pc => exact .request mem pc
  | insert place =>
    cases h with
    | client mem => exact .client mem
    | ready app mem =>
      rcases List.mem_append.1 app with hold | hnew
      · exact .ready hold mem
      · rw [List.mem_singleton.1 hnew] at mem
        exact .inserting place mem
    | inserting heq => cases heq
    | request mem pc => exact .request mem pc
  | reply place =>
    rename_i back
    cases h with
    | client mem => exact .client mem
    | ready app mem => exact .ready app mem
    | inserting heq => cases heq
    | request mem pc =>
      have hmem : _ ∈ (reply s back).requests := mem
      unfold reply at hmem
      split at hmem
      · split at hmem
        · rcases List.mem_or_eq_of_mem_set hmem with hold | rfl
          · exact .request hold pc
          · cases pc
        · exact .request hmem pc
      · exact .request hmem pc

/-- **Where clients come from.** A step uses the clients that were used before it, and the
one that it discovers. -/
theorem uses_step {a : Action} (hs : step conf s a = some s') (h : Uses s' e) :
    Uses s e ∨ ∃ rtid client, a = .discover rtid client ∧ e = (rtid, client) := by
  cases step_effect hs with
  | tick | metrics => exact Or.inl (h.of_subset (fun _ h => h) rfl (fun _ _ _ h => h) rfl)
  | @discover rtid client new =>
    cases h with
    | client mem =>
      rcases List.mem_cons.1 mem with rfl | hold
      · exact Or.inr ⟨rtid, client, rfl, rfl⟩
      · exact Or.inl (.client hold)
    | ready app mem => exact Or.inl (.ready app mem)
    | inserting place mem => exact Or.inl (.inserting place mem)
    | request mem pc => exact Or.inl (.request mem pc)
  | drop_client rtid =>
    exact Or.inl (h.of_subset (fun x hx => (List.mem_filter.1 hx).1) rfl (fun _ _ _ h => h) rfl)
  | free unused ha => exact Or.inl (h.of_put_subset ha (List.nil_subset _))
  | request appid =>
    cases h with
    | client mem => exact Or.inl (.client mem)
    | ready app mem => exact Or.inl (.ready app mem)
    | inserting place mem => exact Or.inl (.inserting place mem)
    | request mem pc =>
      rcases List.mem_append.1 mem with hold | hnew
      · exact Or.inl (.request hold pc)
      · rw [List.mem_singleton.1 hnew] at pc
        cases pc
  | step_request hq hs => exact Or.inl (uses_request hq hs h)
  | step_task hs => exact Or.inl (uses_task hs h)

/-- No id is in `clients` twice. -/
theorem keys_step {a : Action} (hs : step conf s a = some s') (h : (s.clients.map Prod.fst).Nodup) :
    (s'.clients.map Prod.fst).Nodup := by
  have hfilter : ∀ rtid, ((s.clients.filter (·.1 ≠ rtid)).map Prod.fst).Nodup := fun rtid =>
    h.sublist (List.filter_sublist.map _)
  rw [step_clients hs]
  unfold State.clients_after
  split
  · cases step_effect hs with
    | discover new => exact List.nodup_cons.2 ⟨new, h⟩
  · exact hfilter _
  · split
    · unfold clients_after
      split
      · exact hfilter _
      · exact h
    · exact h
  · exact h

end Sched

namespace Cluster

/-! ## What the pool keeps -/

/-- The runtimes that are up, and whose connection the network has left alone, stay in
`clients`. -/
def Kept (s : State) : Prop :=
  ∀ e ∈ s.discovered, s.up e.1 = true → s.connections e.2 ≠ .lost → e ∈ s.sched.clients

/-- What costs a runtime its place is none of the steps: no fetch is still out when the
clock has passed its deadline, a runtime has room in flight for `load` when it is asked,
no message is longer than a frame, and no request drops a runtime that has been
discovered again over another connection. -/
def harmless (conf : Config) (s : State) : Action → Prop
  | .sched (.tick n) => ∀ r < s.sched.requests.length, ∀ call ∈ s.fetching r, s.unanswered r = true →
      s.connected call.2.rtid call.2.client = true → s.sched.now + n ≤ (s.calls r).deadline
  | .sched (.drop_client rtid) => ∀ e ∈ s.sched.clients, e.1 = rtid → s.connected e.1 e.2 = true →
      s.in_flight e.2 < conf.max_in_flight_requests
  | .sched (.step_request r .disconnect) => ∀ q ∈ s.sched.requests[r]?, ∀ inst ∈ q.pc.to_drop,
      ∀ e ∈ s.sched.clients, e.1 = inst.rtid → s.connected e.1 e.2 = true → e.2 = inst.client
  | .serve r => ∀ call ∈ s.fetching r, conf.frames.fetch r call.2.handle ≤ conf.frames.max_frame_length
  | .reply _ answer => conf.frames.answer answer.result ≤ conf.frames.max_frame_length
  | .spawn_too_long r => ∀ call ∈ s.spawning r,
      conf.frames.spawn_worker call.1 ≤ conf.frames.max_frame_length
  | _ => True

instance (conf : Config) (s : State) : (a : Action) → Decidable (harmless conf s a)
  | .sched (.tick _) => inferInstanceAs (Decidable (∀ r < s.sched.requests.length, ∀ call ∈ s.fetching r, _))
  | .sched (.drop_client _) => inferInstanceAs (Decidable (∀ e ∈ s.sched.clients, _))
  | .sched (.step_request r .disconnect) => inferInstanceAs (Decidable (∀ q ∈ s.sched.requests[r]?, _))
  | .serve r => inferInstanceAs (Decidable (∀ call ∈ s.fetching r, _))
  | .reply _ _ => inferInstanceAs (Decidable (_ ≤ _))
  | .spawn_too_long r => inferInstanceAs (Decidable (∀ call ∈ s.spawning r, _))
  | .sched (.step_request _ .lookup) | .sched (.step_request _ .collect) | .sched (.step_request _ .pop)
  | .sched (.step_request _ (.choose _)) | .sched (.step_request _ (.spawned _))
  | .sched (.step_request _ (.fetched _)) | .sched (.step_request _ (.pool _)) | .sched (.step_request _ .cancel)
  | .sched (.discover _ _) | .sched (.metrics _) | .sched (.free _) | .sched (.request _) | .sched (.step_task _)
  | .runtime _ _ | .fetched _ | .fail _ | .lose _ | .down _ => .isTrue trivial

/-- A request that drops a runtime has met one that cannot be reached. -/
structure Healthy (s : State) : Prop where
  kept : Kept s
  keys : (s.sched.clients.map Prod.fst).Nodup
  known : ∀ e, Sched.Uses s.sched e → e ∈ s.discovered
  intact : ∀ client, s.connections client ≠ .reset
  fetches : ∀ r i inst, s.fetching r = some (i, inst) → s.unanswered r = true →
    s.connected inst.rtid inst.client = true → s.sched.now ≤ (s.calls r).deadline
  drops : ∀ (r : ℕ) (q : Sched.Request) (app i : ℕ) (inst : Sched.ReadyInstance),
    s.sched.requests[r]? = some q → q.pc = .disconnecting app i inst →
    s.connected inst.rtid inst.client = false

theorem healthy_start (conf : Config) : Healthy (start conf) := by
  refine ⟨fun e hin => ?_, List.nodup_nil, fun e huse => ?_, fun _ => ?_, fun r i inst hf => ?_,
    fun r q _ _ _ hq => ?_⟩
  · cases hin
  · cases huse with
    | client mem => cases mem
    | ready app => cases app
    | inserting place => cases place
    | request mem => cases mem
  · simp [start]
  · simp [State.fetching, start, Sched.start] at hf
  · simp [start, Sched.start] at hq

variable {conf : Config} {s s' : State}

/-- A client that can be reached is in `clients`. -/
theorem Healthy.entry (h : Healthy s) {e : RuntimeId × Sched.Client} (hin : e ∈ s.discovered)
    (hconnected : s.connected e.1 e.2 = true) : e ∈ s.sched.clients := by
  obtain ⟨hup, hintact⟩ := connected_eq_true.1 hconnected
  apply h.kept e hin hup
  rw [hintact]
  simp

/-- A runtime that is up can be reached, as long as its connection is not lost. -/
theorem Healthy.connected (h : Healthy s) {rtid : RuntimeId} {client : Sched.Client} (hup : s.up rtid = true)
    (hlost : s.connections client ≠ .lost) : s.connected rtid client = true := by
  apply connected_eq_true.2
  have hreset := h.intact client
  cases hc : s.connections client with
  | intact => exact ⟨hup, rfl⟩
  | reset => exact absurd hc hreset
  | lost => exact absurd hc hlost

/-! ## Steps of the scheduler -/

/-- A step of the scheduler takes a client that can be reached off `clients` for no
reason. -/
theorem kept_sched (h : Healthy s) {a : Sched.Action} (hstep : Sched.step conf.sched s.sched a = some s'.sched)
    (hallowed : s.allowed conf a = true) (hharmless : harmless conf s (.sched a)) (hup : s'.up = s.up)
    (hconnections : s'.connections = s.connections)
    (hdiscovered : ∀ e ∈ s'.discovered, e ∈ s.discovered ∨ a = .discover e.1 e.2) : Kept s' := by
  intro e hin hrt hlost
  rw [hup] at hrt
  rw [hconnections] at hlost
  rcases hdiscovered e hin with hold | rfl
  · have hconnected := h.connected hrt hlost
    have hclient := h.entry hold hconnected
    by_contra hout
    rcases Sched.clients_lost hstep hclient hout with rfl | ⟨r, q, app, i, inst, rfl, hq, hpc, hrtid⟩
    · -- `query_runtimes` drops what does not answer `load`
      have hroom := hharmless e hclient rfl hconnected
      have hasked := List.all_eq_true.1 hallowed e hclient
      simp [State.answers_load, hconnected, hroom] at hasked
    · -- a request drops what it could not reach
      have hunreached := h.drops r q app i inst hq hpc
      have hsame := hharmless q hq inst (Sched.to_drop_eq_some.2 ⟨app, i, hpc⟩) e hclient hrtid.symm hconnected
      rw [← hrtid, hsame, hunreached] at hconnected
      cases hconnected
  · rw [Sched.step_clients hstep]
    exact List.mem_cons_self

/-- What is used after a step of the scheduler has been discovered. -/
theorem known_sched (h : Healthy s) {a : Sched.Action} (hstep : Sched.step conf.sched s.sched a = some s'.sched)
    (hold : s.discovered ⊆ s'.discovered)
    (hnew : ∀ rtid client, a = .discover rtid client → (rtid, client) ∈ s'.discovered) :
    ∀ e, Sched.Uses s'.sched e → e ∈ s'.discovered := by
  intro e huse
  rcases Sched.uses_step hstep huse with huse | ⟨rtid, client, ha, rfl⟩
  · exact hold (h.known e huse)
  · exact hnew rtid client ha

/-- A request that is at a fetch after a step was there before, or has just made
its call. -/
theorem fetching_after {a : Sched.Action} (hstep : Sched.step conf.sched s.sched a = some s'.sched) {r i : ℕ}
    {inst : Sched.ReadyInstance} (hf : s'.fetching r = some (i, inst)) :
    ((∀ b, a ≠ .step_request r b) ∧ s.fetching r = some (i, inst))
    ∨ ∃ b, a = .step_request r b ∧ ∀ result, b ≠ .fetched result := by
  obtain ⟨q', app, hq', hpc⟩ := fetching_eq_some.1 hf
  rcases Sched.request_after hstep hq' with ⟨hne, hq⟩ | ⟨-, hnew⟩ | ⟨q, b, heq, -, hgoes⟩
    | ⟨q, answered, -, -, hnew⟩
  · exact Or.inl ⟨hne, fetching_eq_some.2 ⟨q', app, hq, hpc⟩⟩
  · rw [hpc] at hnew
    cases hnew
  · refine Or.inr ⟨b, heq, fun result hb => ?_⟩
    rcases hgoes.of_fetching hpc with ⟨-, hpop⟩ | ⟨rtid, client, handle, -, hspawned, -⟩
    · rw [hb] at hpop
      cases hpop
    · rw [hb] at hspawned
      cases hspawned
  · rw [hpc] at hnew
    cases hnew

/-- A request that drops a runtime after a step did so before, or its fetch has
failed. -/
theorem disconnecting_after {a : Sched.Action} (hstep : Sched.step conf.sched s.sched a = some s'.sched)
    {r : ℕ} {q' : Sched.Request} (hq' : s'.sched.requests[r]? = some q') {app i : ℕ}
    {inst : Sched.ReadyInstance} (hpc : q'.pc = .disconnecting app i inst) :
    s.sched.requests[r]? = some q'
      ∨ (a = .step_request r (.fetched .network_error) ∧ s.fetching r = some (i, inst)) := by
  rcases Sched.request_after hstep hq' with ⟨-, hq⟩ | ⟨-, hnew⟩ | ⟨q, b, rfl, hq, hgoes⟩
    | ⟨q, answered, -, -, hnew⟩
  · exact Or.inl hq
  · rw [hpc] at hnew
    cases hnew
  · obtain ⟨hold, rfl⟩ := hgoes.of_disconnecting hpc
    exact Or.inr ⟨rfl, fetching_eq_some.2 ⟨q, app, hq, hold⟩⟩
  · rw [hpc] at hnew
    cases hnew

/-- A step of the scheduler on its own. -/
theorem healthy_sched (h : Healthy s) {a : Sched.Action} {sched : Sched.State}
    (hharmless : harmless conf s (.sched a)) (hallowed : s.allowed conf a = true)
    (hstep : Sched.step conf.sched s.sched a = some sched) : Healthy (s.set_sched conf a sched) := by
  have hstep' : Sched.step conf.sched s.sched a = some (s.set_sched conf a sched).sched := hstep
  refine ⟨kept_sched h hstep' hallowed hharmless rfl rfl fun e hin => ?_, Sched.keys_step hstep h.keys,
    known_sched h hstep' (fun e hin => ?_) ?_, h.intact, fun r i inst hf hout hconnected => ?_,
    fun r q app i inst hq hpc => ?_⟩
  · simp only [State.set_sched] at hin
    split at hin
    · rcases List.mem_cons.1 hin with rfl | hold
      · exact Or.inr rfl
      · exact Or.inl hold
    · exact Or.inl hin
  · simp only [State.set_sched]
    split
    · exact List.mem_cons_of_mem _ hin
    · exact hin
  · rintro rtid client rfl
    exact List.mem_cons_self
  · rcases fetching_after hstep' hf with ⟨hne, hold⟩ | ⟨b, rfl, -⟩
    · have hcalls : (s.set_sched conf a sched).calls r = s.calls r := by
        simp only [State.set_sched]
        split
        · rename_i j b
          exact Function.update_of_ne (fun heq => hne b (by rw [heq])) _ _
        · rfl
      rw [State.unanswered, hcalls] at hout
      rw [hcalls]
      -- only the clock brings a call closer to its deadline
      by_cases htick : ∃ n, a = .tick n
      · obtain ⟨n, rfl⟩ := htick
        obtain rfl := Option.some.inj hstep
        obtain ⟨q, app, hq, -⟩ := fetching_eq_some.1 hold
        exact hharmless r (List.getElem?_eq_some_iff.1 hq).1 (i, inst) hold hout hconnected
      · push Not at htick
        change sched.now ≤ _
        rw [Sched.step_now hstep htick]
        exact h.fetches r i inst hold hout hconnected
    · -- the call has been made at this moment
      simp [State.set_sched]
  · rcases disconnecting_after hstep' hq hpc with hold | ⟨rfl, -⟩
    · exact h.drops r q app i inst hold hpc
    · cases hallowed

/-- A request is told what its fetch came back with. -/
theorem healthy_fetched (h : Healthy s) {r : ℕ} {result : Sched.FetchResult} {sched : Sched.State}
    (hstep : Sched.step conf.sched s.sched (.step_request r (.fetched result)) = some sched)
    (hbroken : result = .network_error → ∀ i inst, s.fetching r = some (i, inst) →
      s.connected inst.rtid inst.client = false) :
    Healthy { s with sched := sched } := by
  have hstep' : Sched.step conf.sched s.sched (.step_request r (.fetched result))
      = some (State.sched { s with sched := sched }) := hstep
  refine ⟨?_, Sched.keys_step hstep h.keys, known_sched h hstep' (fun _ hin => hin) (fun _ _ heq => by cases heq),
    h.intact, fun j i inst hf hout hconnected => ?_, fun j q app i inst hq hpc => ?_⟩
  · intro e hin hup hlost
    have hclient := h.kept e hin hup hlost
    by_contra hout
    rcases Sched.clients_lost hstep hclient hout with heq | ⟨j, q, app, i, inst, heq, -⟩
    · cases heq
    · cases heq
  · change sched.now ≤ (s.calls j).deadline
    rw [Sched.step_now hstep (by simp)]
    rcases fetching_after hstep' hf with ⟨-, hold⟩ | ⟨b, heq, hb⟩
    · exact h.fetches j i inst hold hout hconnected
    · exact absurd (Sched.Action.step_request.inj heq).2.symm (hb result)
  · rcases disconnecting_after hstep' hq hpc with hold | ⟨heq, hf⟩
    · exact h.drops j q app i inst hold hpc
    · obtain ⟨rfl, rfl⟩ : r = j ∧ result = .network_error := by simpa using heq
      exact hbroken rfl i inst hf

/-! ## Steps of the transport -/

/-- A call that is out goes on, and keeps its deadline. -/
theorem healthy_phase (h : Healthy s) {r : ℕ} (hout : s.unanswered r = true) (phase : Phase) :
    Healthy (s.set_phase r phase) := by
  refine ⟨h.kept, h.keys, h.known, h.intact, fun j i inst hf hj hconnected => ?_, h.drops⟩
  by_cases heq : j = r
  · subst heq
    have hdeadline : ((s.set_phase j phase).calls j).deadline = (s.calls j).deadline := by
      simp [State.set_phase]
    rw [hdeadline]
    exact h.fetches j i inst hf hout hconnected
  · have hcalls : (s.set_phase r phase).calls j = s.calls j := by
      simp [State.set_phase, Function.update_of_ne heq]
    rw [State.unanswered, hcalls] at hj
    rw [hcalls]
    exact h.fetches j i inst hf hj hconnected

/-- A runtime goes down, or the network loses a connection. -/
theorem healthy_worse (h : Healthy s) {up : RuntimeId → Bool} {connections : Sched.Client → Connection}
    (hup : ∀ rtid, up rtid = true → s.up rtid = true)
    (hconnections : ∀ client, connections client = s.connections client ∨ connections client = .lost) :
    Healthy { s with up := up, connections := connections } := by
  have hworse : ∀ rtid client, State.connected { s with up := up, connections := connections } rtid client = true →
      s.connected rtid client = true := by
    intro rtid client hconnected
    obtain ⟨hrt, hintact⟩ := connected_eq_true.1 hconnected
    rcases hconnections client with heq | heq
    · exact connected_eq_true.2 ⟨hup rtid hrt, heq ▸ hintact⟩
    · cases heq.symm.trans hintact
  refine ⟨fun e hin hrt hlost => ?_, h.keys, h.known, fun client hreset => ?_,
    fun r i inst hf hout hconnected => h.fetches r i inst hf hout (hworse _ _ hconnected),
    fun r q app i inst hq hpc => ?_⟩
  · rcases hconnections e.2 with heq | heq
    · exact h.kept e hin (hup _ hrt) (heq ▸ hlost)
    · exact absurd heq hlost
  · rcases hconnections client with heq | heq
    · exact h.intact client (heq ▸ hreset)
    · cases heq.symm.trans hreset
  · have hbefore := h.drops r q app i inst hq hpc
    rw [Bool.eq_false_iff] at hbefore ⊢
    exact fun hafter => hbefore (hworse _ _ hafter)

theorem healthy_step {a : Action} (h : Healthy s) (hharmless : harmless conf s a) (hs : s.step conf a = some s') :
    Healthy s' := by
  cases step_effect hs with
  | sched allowed step => exact healthy_sched h hharmless allowed step
  | @delivered r i k inst rt fetching sent found step =>
    have hruntime : Healthy (s.set_runtime inst.rtid rt) := ⟨h.kept, h.keys, h.known, h.intact, h.fetches, h.drops⟩
    exact healthy_phase hruntime (by simp [State.unanswered, State.set_runtime, sent]) _
  | unknown fetching sent => exact healthy_phase h (by simp [State.unanswered, sent]) _
  | reply fetching serving => exact healthy_phase h (by simp [State.unanswered, serving]) _
  | runtime nofetch step => exact ⟨h.kept, h.keys, h.known, h.intact, h.fetches, h.drops⟩
  -- what is harmless fits into a frame
  | call_too_long fetching sent connected long => exact absurd (hharmless _ fetching) (not_le.2 long)
  | answer_too_long fetching serving connected long =>
    have hfits : conf.frames.answer _ ≤ conf.frames.max_frame_length := hharmless
    omega
  | spawn_too_long spawning connected long => exact absurd (hharmless _ spawning) (not_le.2 long)
  | @fetched r result sched answered step =>
    refine healthy_fetched h step fun hnetwork => ?_
    -- an answer of a runtime is no network error
    cases result <;> cases hnetwork
  | @fail r i inst sched fetching unanswered broken step =>
    refine healthy_fetched h step fun _ j inst' hf => ?_
    obtain ⟨rfl, rfl⟩ : i = j ∧ inst = inst' := by simpa [fetching] using hf
    rcases broken with hdown | hlate
    · exact hdown
    · -- no fetch that can be answered is past its deadline
      by_contra hconnected
      have hdeadline := h.fetches r i inst fetching unanswered (by simpa using hconnected)
      omega
  | @lose client intact =>
    refine healthy_worse h (fun _ hup => hup) fun other => ?_
    by_cases heq : other = client
    · subst heq
      exact Or.inr (Function.update_self _ _ _)
    · exact Or.inl (Function.update_of_ne heq _ _)
  | @down rtid =>
    refine healthy_worse h (fun other hup => ?_) fun _ => Or.inl rfl
    by_cases heq : other = rtid
    · rw [heq, Function.update_self] at hup
      cases hup
    · rwa [Function.update_of_ne heq] at hup

/-! ## Steps that are not harmless -/

/-- A fetch that cannot be answered, or is late, costs its runtime the place in the
pool. -/
theorem fail_drops (conf : Config) {r i : ℕ} {inst : Sched.ReadyInstance} (hf : s.fetching r = some (i, inst))
    (hout : s.unanswered r = true)
    (hbroken : s.connected inst.rtid inst.client = false ∨ (s.calls r).deadline < s.sched.now) :
    ∃ t, (machine conf).run s [.fail r, .sched (.step_request r .disconnect)] = some t ∧ t.up = s.up
      ∧ t.connections = s.connections ∧ t.discovered = s.discovered
      ∧ ∀ client, (inst.rtid, client) ∉ t.sched.clients := by
  obtain ⟨q, app, hq, hpc⟩ := fetching_eq_some.1 hf
  have hfail : s.step conf (.fail r)
      = some { s with sched := s.sched.goto r q (.disconnecting app i inst) } := by
    simp only [State.step, hf, hout, hbroken, and_self, if_true, Sched.step, hq, Sched.request_step, hpc,
      Option.map_some]
  have hq' : (s.sched.goto r q (.disconnecting app i inst)).requests[r]?
      = some { q with pc := .disconnecting app i inst } :=
    List.getElem?_set_self (List.getElem?_eq_some_iff.1 hq).1
  have hdrop : ∃ sched, Sched.step conf.sched (s.sched.goto r q (.disconnecting app i inst))
      (.step_request r .disconnect) = some sched
      ∧ sched.clients = s.sched.clients.filter (·.1 ≠ inst.rtid) := by
    simp only [Sched.step, hq', Sched.request_step]
    exact ⟨_, rfl, rfl⟩
  obtain ⟨sched, hsched, hclients⟩ := hdrop
  refine ⟨State.set_sched conf { s with sched := s.sched.goto r q (.disconnecting app i inst) }
    (.step_request r .disconnect) sched, ?_, rfl, rfl, rfl, fun client => ?_⟩
  · refine (machine conf).run_cons_eq_some.2 ⟨_, hfail, ?_⟩
    rw [Machine.run_cons]
    simp [machine, State.step, State.allowed, hsched]
  · change (inst.rtid, client) ∉ sched.clients
    rw [hclients]
    simp

/-- The client of a fetch has been discovered. -/
theorem Healthy.fetching (h : Healthy s) {r i : ℕ} {inst : Sched.ReadyInstance}
    (hf : s.fetching r = some (i, inst)) : inst.entry ∈ s.discovered := by
  obtain ⟨q, app, hq, hpc⟩ := fetching_eq_some.1 hf
  apply h.known
  exact .request (List.mem_of_getElem? hq) (by rw [hpc]; rfl)

/-- A step after which a fetch cannot be answered, or is late, leads to the loss of its
runtime. -/
theorem lost_after {a : Action} (h : Healthy s) (hs : s.step conf a = some s') {r i : ℕ}
    {inst : Sched.ReadyInstance} (hf : s.fetching r = some (i, inst))
    (hconnected : s.connected inst.rtid inst.client = true) (hf' : s'.fetching r = some (i, inst))
    (hout : s'.unanswered r = true)
    (hbroken : s'.connected inst.rtid inst.client = false ∨ (s'.calls r).deadline < s'.sched.now)
    (hup : s'.up = s.up) (hlost : s'.connections inst.client ≠ .lost) (hdiscovered : s'.discovered = s.discovered) :
    ∃ bs t, bs.length ≤ 2 ∧ (machine conf).run s (a :: bs) = some t ∧ ¬ Kept t := by
  obtain ⟨t, hrun, hsame, hconnections, hlist, hgone⟩ := fail_drops conf hf' hout hbroken
  refine ⟨_, t, le_rfl, (machine conf).run_cons_eq_some.2 ⟨s', hs, hrun⟩, fun hkept => ?_⟩
  have hin : inst.entry ∈ t.discovered := by
    rw [hlist, hdiscovered]
    exact h.fetching hf
  apply hgone inst.client
  apply hkept _ hin
  · rw [hsame, hup]
    exact (connected_eq_true.1 hconnected).1
  · rw [hconnections]
    exact hlost

/-- A connection that is given up with a fetch on it is the loss of its runtime. -/
theorem lost_after_reset {a : Action} (h : Healthy s) {r i : ℕ} {inst : Sched.ReadyInstance}
    (hs : s.step conf a = some (s.reset inst.client)) (hf : s.fetching r = some (i, inst))
    (hconnected : s.connected inst.rtid inst.client = true) (hout : s.unanswered r = true) :
    ∃ bs t, bs.length ≤ 2 ∧ (machine conf).run s (a :: bs) = some t ∧ ¬ Kept t :=
  lost_after h hs hf hconnected hf hout (Or.inl (by simp [State.connected, State.reset])) rfl
    (by simp [State.reset]) rfl

/-- A client that is taken off `clients` while it can be reached is missed. -/
theorem not_kept (h : Healthy s) {e : RuntimeId × Sched.Client} (hin : e ∈ s.sched.clients)
    (hconnected : s.connected e.1 e.2 = true) (hup : s'.up = s.up) (hconnections : s'.connections = s.connections)
    (hdiscovered : s'.discovered = s.discovered) (hout : e ∉ s'.sched.clients) : ¬ Kept s' := by
  intro hkept
  obtain ⟨hrt, hintact⟩ := connected_eq_true.1 hconnected
  apply hout
  apply hkept e
  · rw [hdiscovered]
    exact h.known e (.client hin)
  · rw [hup]
    exact hrt
  · rw [hconnections, hintact]
    simp

/-- What a request has called `spawn_worker` with is of a client that it holds. -/
theorem spawning_entry {r : ℕ} {args : Sched.SpawnArgs} {rtid : RuntimeId} {client : Sched.Client}
    (h : s.spawning r = some (args, rtid, client)) : Sched.Uses s.sched (rtid, client) := by
  unfold State.spawning at h
  split at h
  · rename_i q hq
    split at h
    · rename_i app i rtid' client' hpc
      obtain ⟨a, -, heq⟩ := Option.map_eq_some_iff.1 h
      simp only [Prod.mk.injEq] at heq
      obtain ⟨-, rfl, rfl⟩ := heq
      exact .request (List.mem_of_getElem? hq) (by rw [hpc]; rfl)
    · cases h
  · cases h

/-- A connection that is given up with a spawn on it is the loss of its runtime, when
`query_runtimes` comes to it. -/
theorem lost_after_spawn {a : Action} (h : Healthy s) {r : ℕ} {args : Sched.SpawnArgs} {rtid : RuntimeId}
    {client : Sched.Client} (hs : s.step conf a = some (s.reset client))
    (hspawning : s.spawning r = some (args, rtid, client)) (hconnected : s.connected rtid client = true) :
    ∃ bs t, bs.length ≤ 2 ∧ (machine conf).run s (a :: bs) = some t ∧ ¬ Kept t := by
  have hknown := h.known _ (spawning_entry hspawning)
  have hin := h.entry hknown hconnected
  -- it is the only client under its id, so `load` has no answer
  have hallowed : (s.reset client).allowed conf (.drop_client rtid) = true := by
    apply List.all_eq_true.2
    intro e he
    by_cases hid : e.1 = rtid
    · have heq : e = (rtid, client) := List.inj_on_of_nodup_map h.keys he hin hid
      simp [heq, State.answers_load, State.connected, State.reset]
    · simp [hid]
  have hdrop : (s.reset client).step conf (.sched (.drop_client rtid)) = some ((s.reset client).set_sched conf
      (.drop_client rtid) { s.sched with clients := s.sched.clients.filter (·.1 ≠ rtid) }) := by
    rw [State.step, if_pos hallowed]
    rfl
  refine ⟨[.sched (.drop_client rtid)], _, by simp, (machine conf).run_cons_eq_some.2
    ⟨_, hs, (machine conf).run_cons_eq_some.2 ⟨_, hdrop, rfl⟩⟩, fun hkept => ?_⟩
  have hmissing := hkept (rtid, client) hknown (connected_eq_true.1 hconnected).1
    (by simp [State.set_sched, State.reset])
  simp [State.set_sched] at hmissing

/-- **Every step that is not harmless does harm.** After at most two more steps, of the
request or of `query_runtimes`, a runtime is missing. -/
theorem harmful_step {a : Action} (h : Healthy s) (hs : s.step conf a = some s') (hharm : ¬ harmless conf s a) :
    ∃ bs t, bs.length ≤ 2 ∧ (machine conf).run s (a :: bs) = some t ∧ ¬ Kept t := by
  have hstop : ¬ Kept s' → ∃ bs t, bs.length ≤ 2 ∧ (machine conf).run s (a :: bs) = some t ∧ ¬ Kept t :=
    fun hlost => ⟨[], s', by simp, (machine conf).run_cons_eq_some.2 ⟨s', hs, rfl⟩, hlost⟩
  cases step_effect hs with
  | @sched a sched allowed step =>
    cases a with
    | tick n =>
      simp only [harmless] at hharm
      push Not at hharm
      obtain ⟨r, -, ⟨i, inst⟩, hf, hout, hconnected, hlate⟩ := hharm
      obtain rfl := Option.some.inj step
      refine lost_after h hs hf hconnected hf hout (Or.inr hlate) rfl ?_ rfl
      have hintact : s.connections inst.client = .intact := (connected_eq_true.1 hconnected).2
      change s.connections inst.client ≠ .lost
      rw [hintact]
      simp
    | drop_client rtid =>
      simp only [harmless] at hharm
      push Not at hharm
      obtain ⟨e, hin, rfl, hconnected, -⟩ := hharm
      obtain rfl := Option.some.inj step
      exact hstop (not_kept h hin hconnected rfl rfl rfl (by simp [State.set_sched]))
    | step_request r b =>
      cases b with
      | disconnect =>
        simp only [harmless] at hharm
        push Not at hharm
        obtain ⟨q, hq, inst, hdrop, e, hin, hid, hconnected, -⟩ := hharm
        obtain ⟨app, i, hpc⟩ := Sched.to_drop_eq_some.1 hdrop
        have hclients := Sched.step_clients step
        rw [Sched.State.clients_after, Option.mem_def.1 hq] at hclients
        simp only [Sched.clients_after, hpc] at hclients
        refine hstop (not_kept h hin hconnected rfl rfl rfl ?_)
        change e ∉ sched.clients
        rw [hclients]
        simp [hid]
      | _ => exact absurd trivial hharm
    | _ => exact absurd trivial hharm
  | delivered fetching sent found step fits | unknown fetching sent missing fits =>
    refine absurd (fun call hcall => ?_) hharm
    obtain rfl := Option.some.inj (fetching.symm.trans hcall)
    exact fits
  | call_too_long fetching sent connected long =>
    exact lost_after_reset h hs fetching connected (by simp [State.unanswered, sent])
  | reply fetching serving worker result fits => exact absurd fits hharm
  | answer_too_long fetching serving connected long =>
    exact lost_after_reset h hs fetching connected (by simp [State.unanswered, serving])
  | spawn_too_long spawning connected long => exact lost_after_spawn h hs spawning connected
  | runtime | fetched | fail | lose | down => exact absurd trivial hharm

/-- **A healthy runtime stays in the pool as long as nothing harms it.** In every run of a
proxy and its runtimes, whatever the scripts do, whose steps are all harmless, the
runtimes that are up and whose connection the network has not lost stay in `clients`.
And from any state of such a run a step that is not harmless leads to the loss of a
runtime, in at most two steps more. -/
theorem kept_when_harmless (conf : Config) (as : List Action)
    (h : (machine conf).Meets (harmless conf) (start conf) as) :
    (machine conf).Always Kept (start conf) as
    ∧ ∀ s a s', (machine conf).run (start conf) as = some s → s.step conf a = some s' → ¬ harmless conf s a →
        ∃ bs t, bs.length ≤ 2 ∧ (machine conf).run s (a :: bs) = some t ∧ ¬ Kept t := by
  have hstep : ∀ s a s', Healthy s → harmless conf s a → s.step conf a = some s' → Healthy s' :=
    fun _ _ _ hi hc hs => healthy_step hi hc hs
  refine ⟨(machine conf).always_of_meets (fun _ hi => hi.kept) hstep (healthy_start conf) h, ?_⟩
  intro s a s' hrun hs hharm
  have hhealthy : Healthy s := (machine conf).run_invariant_of_meets hstep (healthy_start conf) h hrun
  exact harmful_step hhealthy hs hharm

/-- A request is served; its worker is pooled; a minute later `query_runtimes` asks for the
load, and another request is served by the worker. -/
def served_twice : List Action :=
  look_up ++ spawn 0 0 "a" ++ dispatch 0 0 0 ++ respond 0 0 ++ pool 0 ++ [.sched (.tick 60000)] ++ find_app 1
    ++ [.sched (.step_request 1 .collect), .sched (.step_request 1 .pop)] ++ dispatch 1 0 0
    ++ [.sched (.tick 30000)] ++ respond 1 0 ++ pool 1

theorem kept_when_harmless_served_twice :
    ∃ s, (machine demo_conf).run (start demo_conf) served_twice = some s ∧ s.sched.clients = [("rt", 0)]
      ∧ (machine demo_conf).Always Kept (start demo_conf) served_twice := by
  have hrun : ((machine demo_conf).run (start demo_conf) served_twice).map (fun s => s.sched.clients)
      = some [("rt", 0)] := rfl
  obtain ⟨s, hs, hclients⟩ := Option.map_eq_some_iff.1 hrun
  refine ⟨s, hs, hclients, (kept_when_harmless demo_conf served_twice ?_).1⟩
  have hcheck : (machine demo_conf).check (fun s a => decide (harmless demo_conf s a)) (start demo_conf)
      served_twice = true := by decide +kernel
  simpa using (machine demo_conf).meets_of_check hcheck

/-- The script of the first worker answers nothing and waits, for a second longer
than a request may take. -/
def silent_script : List Action :=
  look_up ++ spawn 0 0 "a" ++ dispatch 0 0 0
    ++ [.runtime "rt" (.worker 0 (.returned true)), .runtime "rt" (.worker 0 (.check none)),
      .sched (.tick 31000), .fail 0, .sched (.step_request 0 .disconnect)]

/-- The runtime is up, its connection is intact, and it is not in the pool any more. -/
theorem silent_script_drops_runtime :
    ∃ s, (machine demo_conf).run (start demo_conf) silent_script = some s
      ∧ ("rt", 0) ∈ s.discovered ∧ s.up "rt" = true ∧ s.connections 0 = .intact
      ∧ ("rt", 0) ∉ s.sched.clients := by
  have hrun : ((machine demo_conf).run (start demo_conf) silent_script).map (fun s =>
      (s.discovered, s.up "rt", s.connections 0, s.sched.clients)) = some ([("rt", 0)], true, .intact, []) := rfl
  obtain ⟨s, hs, heq⟩ := Option.map_eq_some_iff.1 hrun
  simp only [Prod.mk.injEq] at heq
  obtain ⟨hdiscovered, hup, hintact, hclients⟩ := heq
  exact ⟨s, hs, by simp [hdiscovered], hup, hintact, by simp [hclients]⟩

/-- The runtime is discovered again after its connection was lost, and a worker of the
pool, whose client is the old one, costs it the place. -/
example : ((machine demo_conf).run (start demo_conf) (look_up ++ spawn 0 0 "a" ++ dispatch 0 0 0 ++ respond 0 0
    ++ pool 0 ++ [.lose 0, .sched (.drop_client "rt"), .sched (.discover "rt" 1)] ++ find_app 1
    ++ [.sched (.step_request 1 .collect), .sched (.step_request 1 .pop), .fail 1,
      .sched (.step_request 1 .disconnect)])).map (fun s => (s.up "rt", s.connections 1, s.sched.clients))
      = some (true, .intact, []) := rfl

end Cluster

end RustyWorkers

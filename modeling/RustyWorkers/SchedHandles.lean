/-
Worker handles in the scheduler of the proxy: each is in one place at most, and
the fetches of a request go to workers of the app it has been routed to.

A handle is counted wherever it is: in the ready queues, in the hands of the
requests and in the terminate queue. A step moves an instance or forgets it, so
the count of a handle grows only when `spawn_worker` returns it, and then it has
been nowhere (`StepOk`). That a request never crosses apps is a matter of
provenance (`Traced`): every instance has been spawned with the arguments of the
`AppState` that it is kept for, and an `AppState` keeps its id, configuration
and bundle after it has left the cache.
-/
import RustyWorkers.Lib.Sums
import RustyWorkers.SchedSteps

set_option autoImplicit false

namespace RustyWorkers

open Lib

namespace Sched

/-! ## Counting -/

/-- How often a list has the handle `h`. -/
def copies (h : WorkerHandle) (l : List ReadyInstance) : ℕ := l.countP fun inst => inst.handle = h

@[simp] theorem copies_nil (h : WorkerHandle) : copies h [] = 0 := rfl

theorem copies_cons (h : WorkerHandle) (inst : ReadyInstance) (l : List ReadyInstance) :
    copies h (inst :: l) = copies h l + copies h [inst] := by
  simp [copies, List.countP_cons]

@[simp] theorem copies_append (h : WorkerHandle) (l l' : List ReadyInstance) :
    copies h (l ++ l') = copies h l + copies h l' := List.countP_append

theorem copies_pos {h : WorkerHandle} {l : List ReadyInstance} :
    0 < copies h l ↔ ∃ inst ∈ l, inst.handle = h := by
  simp [copies, List.countP_pos_iff]

/-- How many places have the handle `h`. -/
def State.copies (s : State) (h : WorkerHandle) : ℕ :=
  (s.app_states.map fun a => Sched.copies h a.ready_instances).sum
    + (s.requests.map fun q => Sched.copies h q.pc.held).sum
    + Sched.copies h s.terminate_queue + Sched.copies h s.terminating.toList

theorem copies_goto {s : State} {r : ℕ} {q : Request} (hr : s.requests[r]? = some q) (pc : RequestPc)
    (h : WorkerHandle) :
    (s.goto r q pc).copies h + copies h q.pc.held = s.copies h + copies h pc.held := by
  have hset := sum_map_set (fun q : Request => copies h q.pc.held) hr { q with pc := pc }
  dsimp only at hset
  simp only [State.copies, State.goto]
  omega

theorem copies_put {s : State} {app : ℕ} {a : AppState} (ha : s.app_states[app]? = some a)
    (queues : List ReadyInstance × List ReadyInstance) (h : WorkerHandle) :
    (s.put app a queues).copies h + (copies h a.ready_instances + copies h s.terminate_queue)
      = s.copies h + (copies h queues.1 + copies h queues.2) := by
  have hset := sum_map_set (fun a : AppState => copies h a.ready_instances) ha
    { a with ready_instances := queues.1 }
  dsimp only at hset
  simp only [State.copies, State.put]
  omega

/-! ## The terminate queue and the collection -/

theorem copies_send_terminate (h : WorkerHandle) (queue : List ReadyInstance) (inst : ReadyInstance) :
    copies h (send_terminate queue inst) ≤ copies h queue + copies h [inst] := by
  unfold send_terminate try_send
  split
  · rw [Option.getD_some, copies_append]
  · rw [Option.getD_none]
    omega

theorem mem_send_terminate {queue : List ReadyInstance} {inst x : ReadyInstance}
    (h : x ∈ send_terminate queue inst) : x ∈ queue ∨ x = inst := by
  unfold send_terminate try_send at h
  split at h
  · rw [Option.getD_some, List.mem_append, List.mem_singleton] at h
    exact h
  · exact Or.inl h

/-- A collection forgets instances, and makes none. -/
theorem copies_pop_while (h : WorkerHandle) (p : List ReadyInstance → Bool)
    (ready queue : List ReadyInstance) :
    copies h (pop_while p ready queue).1 + copies h (pop_while p ready queue).2
      ≤ copies h ready + copies h queue := by
  induction ready generalizing queue with
  | nil => exact le_rfl
  | cons inst ready ih =>
      rw [pop_while]
      split
      · have hrest := ih (send_terminate queue inst)
        have hsent := copies_send_terminate h queue inst
        rw [copies_cons]
        omega
      · exact le_rfl

/-- What a collection leaves in the ready queue was there, and what it sends to
the terminate queue comes from there. -/
theorem mem_pop_while {p : List ReadyInstance → Bool} {ready queue : List ReadyInstance}
    {x : ReadyInstance} :
    (x ∈ (pop_while p ready queue).1 → x ∈ ready)
      ∧ (x ∈ (pop_while p ready queue).2 → x ∈ ready ∨ x ∈ queue) := by
  induction ready generalizing queue with
  | nil => exact ⟨id, Or.inr⟩
  | cons inst ready ih =>
      rw [pop_while]
      split
      · obtain ⟨hready, hqueue⟩ := @ih (send_terminate queue inst)
        refine ⟨fun hx => List.mem_cons_of_mem _ (hready hx), fun hx => ?_⟩
        rcases hqueue hx with hx | hx
        · exact Or.inl (List.mem_cons_of_mem _ hx)
        · rcases mem_send_terminate hx with hx | rfl
          · exact Or.inr hx
          · exact Or.inl List.mem_cons_self
      · exact ⟨id, Or.inr⟩

theorem copies_gc_ready_instances (conf : Config) (now : ℕ) (h : WorkerHandle)
    (ready queue : List ReadyInstance) :
    copies h (gc_ready_instances conf now ready queue).1
        + copies h (gc_ready_instances conf now ready queue).2
      ≤ copies h ready + copies h queue :=
  (copies_pop_while h _ _ _).trans (copies_pop_while h _ _ _)

theorem mem_gc_ready_instances {conf : Config} {now : ℕ} {ready queue : List ReadyInstance}
    {x : ReadyInstance} :
    (x ∈ (gc_ready_instances conf now ready queue).1 → x ∈ ready)
      ∧ (x ∈ (gc_ready_instances conf now ready queue).2 → x ∈ ready ∨ x ∈ queue) := by
  refine ⟨fun hx => mem_pop_while.1 (mem_pop_while.1 hx), fun hx => ?_⟩
  rcases mem_pop_while.2 hx with hx | hx
  · exact Or.inl (mem_pop_while.1 hx)
  · exact mem_pop_while.2 hx

/-! ## Provenance -/

/-- What the workers of the app at `app` are spawned with. -/
def State.args (s : State) (app : ℕ) : Option SpawnArgs := s.app_states[app]?.map AppState.spawn_args

/-- The handle has come from `spawn_worker`. -/
def State.Known (s : State) (h : WorkerHandle) : Prop := h ∈ s.spawned.map Prod.fst

/-- The app state was built from an answer of the database for its id, and from
the bundle that the database gave for the id of its bundle. -/
def Built (conf : Config) (s : State) (a : AppState) : Prop :=
  ∃ config ∈ s.metadata_reads, ∃ bundle, (config.bundle_id, bundle) ∈ s.bundle_reads
    ∧ a = { AppState.build conf config bundle with ready_instances := a.ready_instances }

/-- A request uses an app of the id that it has been routed to, and has an
instance that was spawned for this app. -/
def RequestOk (s : State) (q : Request) : Prop :=
  ∀ app, q.pc.app = some app → ∃ x, s.args app = some x ∧ x.id = q.appid
    ∧ ∀ inst ∈ q.pc.held, (inst.handle, x) ∈ s.spawned

/-- What the lookup task has in its hands comes from the database. -/
def LookupOk (conf : Config) (s : State) : Prop :=
  match s.lookup with
  | .bundle id _ config => config ∈ s.metadata_reads ∧ config.id = id
  | .inserting id _ a => Built conf s a ∧ a.id = id ∧ a.ready_instances = []
  | _ => True

structure Traced (conf : Config) (s : State) : Prop where
  apps : ∀ e ∈ s.apps.entries, ∃ x, s.args e.2 = some x ∧ x.id = e.1
  requests : ∀ q ∈ s.requests, RequestOk s q
  ready : ∀ a ∈ s.app_states, ∀ inst ∈ a.ready_instances, (inst.handle, a.spawn_args) ∈ s.spawned
  terminating : ∀ inst ∈ s.terminate_queue ++ s.terminating.toList, s.Known inst.handle
  built : ∀ a ∈ s.app_states, Built conf s a
  lookup : LookupOk conf s
  fresh : (s.spawned.map Prod.fst).Nodup

theorem traced_start (conf : Config) : Traced conf (start conf) where
  apps := fun _ he => nomatch he
  requests := fun _ hq => nomatch hq
  ready := fun _ ha => nomatch ha
  terminating := fun _ hi => nomatch hi
  built := fun _ ha => nomatch ha
  lookup := trivial
  fresh := List.nodup_nil

section Operations

variable {conf : Config} {s : State}

theorem known_of_mem {inst : ReadyInstance} {x : SpawnArgs} (h : (inst.handle, x) ∈ s.spawned) :
    s.Known inst.handle := List.mem_map_of_mem (f := Prod.fst) h

/-- A handle that is somewhere has been spawned. -/
theorem Traced.known (h : Traced conf s) {handle : WorkerHandle} (hpos : 0 < s.copies handle) :
    s.Known handle := by
  have hcases : 0 < (s.app_states.map fun a => copies handle a.ready_instances).sum
      ∨ 0 < (s.requests.map fun q => copies handle q.pc.held).sum
      ∨ 0 < copies handle (s.terminate_queue ++ s.terminating.toList) := by
    rw [copies_append]
    unfold State.copies at hpos
    omega
  rcases hcases with hpos | hpos | hpos
  · obtain ⟨n, hn, hne⟩ := List.exists_mem_ne_zero_of_sum_ne_zero hpos.ne'
    obtain ⟨a, ha, rfl⟩ := List.mem_map.1 hn
    obtain ⟨inst, hinst, rfl⟩ := copies_pos.1 (Nat.pos_of_ne_zero hne)
    exact known_of_mem (h.ready a ha inst hinst)
  · obtain ⟨n, hn, hne⟩ := List.exists_mem_ne_zero_of_sum_ne_zero hpos.ne'
    obtain ⟨q, hq, rfl⟩ := List.mem_map.1 hn
    obtain ⟨inst, hinst, rfl⟩ := copies_pos.1 (Nat.pos_of_ne_zero hne)
    have happ : ∃ app, q.pc.app = some app := by
      cases hpc : q.pc <;> rw [hpc] at hinst <;> first | exact ⟨_, rfl⟩ | cases hinst
    obtain ⟨app, happ⟩ := happ
    obtain ⟨x, -, -, hheld⟩ := h.requests q hq app happ
    exact known_of_mem (hheld inst hinst)
  · obtain ⟨inst, hinst, rfl⟩ := copies_pos.1 hpos
    exact h.terminating inst hinst

/-- A request moves on. -/
theorem Traced.goto (h : Traced conf s) (r : ℕ) {q : Request} {pc : RequestPc}
    (hq : RequestOk s { q with pc := pc }) : Traced conf (s.goto r q pc) where
  apps := h.apps
  requests := by
    intro q' hq'
    rcases List.mem_or_eq_of_mem_set hq' with hold | rfl
    · exact h.requests q' hold
    · exact hq
  ready := h.ready
  terminating := h.terminating
  built := h.built
  lookup := h.lookup
  fresh := h.fresh

theorem args_put {app : ℕ} {a : AppState} (ha : s.app_states[app]? = some a)
    (queues : List ReadyInstance × List ReadyInstance) : (s.put app a queues).args = s.args := by
  funext i
  simp only [State.args, State.put, List.getElem?_set]
  by_cases hi : app = i
  · subst hi
    obtain ⟨hlt, -⟩ := List.getElem?_eq_some_iff.1 ha
    rw [if_pos rfl, if_pos hlt, ha]
    rfl
  · rw [if_neg hi]

/-- The queues of an app change. -/
theorem Traced.put (h : Traced conf s) {app : ℕ} {a : AppState} (ha : s.app_states[app]? = some a)
    {queues : List ReadyInstance × List ReadyInstance}
    (hready : ∀ inst ∈ queues.1, (inst.handle, a.spawn_args) ∈ s.spawned)
    (hqueue : ∀ inst ∈ queues.2, s.Known inst.handle) : Traced conf (s.put app a queues) where
  apps := by
    rw [args_put ha]
    exact h.apps
  requests := by
    intro q hq app' happ
    rw [args_put ha]
    exact h.requests q hq app' happ
  ready := by
    intro b hb
    rcases List.mem_or_eq_of_mem_set hb with hold | rfl
    · exact h.ready b hold
    · exact hready
  terminating := by
    intro inst hinst
    rcases List.mem_append.1 hinst with hin | hin
    · exact hqueue inst hin
    · exact h.terminating inst (List.mem_append_right _ hin)
  built := by
    intro b hb
    rcases List.mem_or_eq_of_mem_set hb with hold | rfl
    · exact h.built b hold
    · obtain ⟨config, hconfig, bundle, hbundle, heq⟩ := h.built a (List.mem_of_getElem? ha)
      refine ⟨config, hconfig, bundle, hbundle, ?_⟩
      rw [heq]
  lookup := h.lookup
  fresh := h.fresh

/-- The cache of apps forgets, or reorders, what it has. -/
theorem Traced.with_apps (h : Traced conf s) {apps : LruCache AppId ℕ}
    (hsub : ∀ e ∈ apps.entries, e ∈ s.apps.entries) : Traced conf { s with apps := apps } where
  apps := fun e he => h.apps e (hsub e he)
  requests := h.requests
  ready := h.ready
  terminating := h.terminating
  built := h.built
  lookup := h.lookup
  fresh := h.fresh

/-- The clock, the runtimes, the lookups that wait and the scan of the cache are
nobody's instances. -/
theorem Traced.rest (h : Traced conf s) (now : ℕ) (clients : List (RuntimeId × Client))
    (queue : List (AppId × ℕ)) (gc : GcPc) :
    Traced conf { s with now := now, clients := clients, lookup_app_queue := queue, gc := gc } where
  apps := h.apps
  requests := h.requests
  ready := h.ready
  terminating := h.terminating
  built := h.built
  lookup := h.lookup
  fresh := h.fresh

/-- A worker is spawned. -/
theorem Traced.spawn (h : Traced conf s) {handle : WorkerHandle} {x : SpawnArgs}
    (hnew : ¬ s.Known handle) : Traced conf { s with spawned := (handle, x) :: s.spawned } where
  apps := h.apps
  requests := by
    intro q hq app happ
    obtain ⟨y, hy, hid, hheld⟩ := h.requests q hq app happ
    exact ⟨y, hy, hid, fun inst hinst => List.mem_cons_of_mem _ (hheld inst hinst)⟩
  ready := fun a ha inst hinst => List.mem_cons_of_mem _ (h.ready a ha inst hinst)
  terminating := fun inst hinst => List.mem_cons_of_mem _ (h.terminating inst hinst)
  built := h.built
  lookup := h.lookup
  fresh := List.nodup_cons.2 ⟨hnew, h.fresh⟩

end Operations

/-! ## The steps of a request -/

/-- What a step leaves behind: where everything comes from, and no handle in
more places than before, unless it is new. -/
structure StepOk (conf : Config) (s s' : State) : Prop where
  traced : Traced conf s'
  copies : ∀ h, s'.copies h ≤ s.copies h ∨ ¬ s.Known h ∧ s'.copies h ≤ s.copies h + 1

section Requests

variable {conf : Config} {s : State} {r : ℕ} {q : Request}

/-- A request that keeps its app, and forgets instances at most. -/
theorem RequestOk.move (h : RequestOk s q) {pc : RequestPc}
    (happ : ∀ app, pc.app = some app → q.pc.app = some app) (hheld : pc.held.Sublist q.pc.held) :
    RequestOk s { q with pc := pc } := by
  intro app hpc
  obtain ⟨x, hx, hid, hinst⟩ := h app (happ app hpc)
  exact ⟨x, hx, hid, fun inst hin => hinst inst (hheld.subset hin)⟩

theorem StepOk.move (h : Traced conf s) (hr : s.requests[r]? = some q) (pc : RequestPc)
    (hq : RequestOk s { q with pc := pc }) (hheld : pc.held.Sublist q.pc.held) :
    StepOk conf s (s.goto r q pc) := by
  refine ⟨h.goto r hq, fun handle => Or.inl ?_⟩
  have hgoto := copies_goto hr pc handle
  have hle : Sched.copies handle pc.held ≤ Sched.copies handle q.pc.held := hheld.countP_le
  omega

/-- A request changes the queues of its app, and moves on. -/
theorem StepOk.put (h : Traced conf s) (hr : s.requests[r]? = some q) {app : ℕ} {a : AppState}
    (ha : s.app_states[app]? = some a) {queues : List ReadyInstance × List ReadyInstance}
    {pc : RequestPc} (hready : ∀ inst ∈ queues.1, (inst.handle, a.spawn_args) ∈ s.spawned)
    (hqueue : ∀ inst ∈ queues.2, s.Known inst.handle) (hq : RequestOk s { q with pc := pc })
    (hle : ∀ h, Sched.copies h queues.1 + Sched.copies h queues.2 + Sched.copies h pc.held
      ≤ Sched.copies h a.ready_instances + Sched.copies h s.terminate_queue
        + Sched.copies h q.pc.held) :
    StepOk conf s ((s.put app a queues).goto r q pc) := by
  have hq' : RequestOk (s.put app a queues) { q with pc := pc } := by
    unfold RequestOk
    rw [args_put ha]
    exact hq
  refine ⟨(h.put ha hready hqueue).goto r hq', fun handle => Or.inl ?_⟩
  have hgoto := copies_goto (s := s.put app a queues) hr pc handle
  have hput := copies_put ha queues handle
  have hcount := hle handle
  omega

theorem collect_ready (h : Traced conf s) {app : ℕ} {a : AppState} (ha : s.app_states[app]? = some a) :
    ∀ inst ∈ (gc_ready_instances conf s.now a.ready_instances s.terminate_queue).1,
      (inst.handle, a.spawn_args) ∈ s.spawned := by
  intro inst hinst
  exact h.ready a (List.mem_of_getElem? ha) inst (mem_gc_ready_instances.1 hinst)

theorem collect_queue (h : Traced conf s) {app : ℕ} {a : AppState} (ha : s.app_states[app]? = some a) :
    ∀ inst ∈ (gc_ready_instances conf s.now a.ready_instances s.terminate_queue).2,
      s.Known inst.handle := by
  intro inst hinst
  rcases mem_gc_ready_instances.2 hinst with hin | hin
  · exact known_of_mem (h.ready a (List.mem_of_getElem? ha) inst hin)
  · exact h.terminating inst (List.mem_append_left _ hin)

/-- `gc_ready_instances`, by a request that holds no instance. -/
theorem StepOk.collect (h : Traced conf s) (hr : s.requests[r]? = some q) {app : ℕ} {a : AppState}
    (ha : s.app_states[app]? = some a) {pc : RequestPc} (hq : RequestOk s { q with pc := pc })
    (hnone : pc.held = []) : StepOk conf s ((s.collect conf app a).goto r q pc) := by
  refine StepOk.put h hr ha (collect_ready h ha) (collect_queue h ha) hq fun handle => ?_
  have hle := copies_gc_ready_instances conf s.now handle a.ready_instances s.terminate_queue
  rw [hnone, copies_nil]
  omega

/-- What the cache of apps has for an id is an app of this id. -/
theorem found_ok (h : Traced conf s) : RequestOk s { q with pc := found (s.apps.find q.appid) } := by
  intro app happ
  cases hfind : s.apps.find q.appid with
  | none =>
      rw [hfind] at happ
      cases happ
  | some app' =>
      rw [hfind] at happ
      obtain rfl : app' = app := Option.some.inj happ
      obtain ⟨x, hx, hid⟩ := h.apps _ (LruCache.mem_of_find hfind)
      exact ⟨x, hx, hid, fun inst hinst => nomatch hinst⟩

theorem found_held (app : Option ℕ) : (found app).held = [] := by cases app <;> rfl

theorem next_attempt_held (app i : ℕ) : (next_attempt app i).held = [] := by
  unfold next_attempt
  split <;> rfl

theorem next_attempt_app {app i app' : ℕ} (h : (next_attempt app i).app = some app') : app = app' := by
  unfold next_attempt at h
  split at h
  · exact Option.some.inj h
  · cases h

/-- A lookup in the cache of apps counts as a use. -/
theorem traced_touch (h : Traced conf s) (id : AppId) : Traced conf { s with apps := s.apps.touch id } :=
  h.with_apps fun _ he => LruCache.mem_of_touch he

theorem RequestOk.next (h : RequestOk s q) {app : ℕ} (happ : q.pc.app = some app) (i : ℕ) :
    RequestOk s { q with pc := next_attempt app i } := by
  refine h.move (fun app' h' => ?_) ?_
  · rw [← next_attempt_app h']
    exact happ
  · rw [next_attempt_held]
    exact List.nil_sublist _

/-- A request that ends. -/
theorem RequestOk.end (pc : RequestPc) (hnone : pc.app = none) : RequestOk s { q with pc := pc } := by
  intro app happ
  dsimp only at happ
  rw [hnone] at happ
  cases happ

/-- A request that keeps its app, and holds no instance any more. -/
theorem RequestOk.keep (h : RequestOk s q) {pc : RequestPc} (happ : pc.app = q.pc.app) (hnone : pc.held = []) :
    RequestOk s { q with pc := pc } := by
  refine h.move (fun app heq => ?_) ?_
  · rw [← happ]
    exact heq
  · rw [hnone]
    exact List.nil_sublist _

theorem StepOk.keep (h : Traced conf s) (hr : s.requests[r]? = some q) {pc : RequestPc}
    (happ : pc.app = q.pc.app) (hnone : pc.held = []) : StepOk conf s (s.goto r q pc) := by
  refine StepOk.move h hr pc ((h.requests q (List.mem_of_getElem? hr)).keep happ hnone) ?_
  rw [hnone]
  exact List.nil_sublist _

/-- The app of a request has the arguments that its instances were spawned with. -/
theorem RequestOk.of_app (h : RequestOk s q) {app : ℕ} {a : AppState} (happ : q.pc.app = some app)
    (ha : s.app_states[app]? = some a) :
    s.args app = some a.spawn_args ∧ a.spawn_args.id = q.appid
      ∧ ∀ inst ∈ q.pc.held, (inst.handle, a.spawn_args) ∈ s.spawned := by
  obtain ⟨x, hx, hid, hheld⟩ := h app happ
  have hargs : s.args app = some a.spawn_args := by
    rw [State.args, ha]
    rfl
  obtain rfl := Option.some.inj (hx.symm.trans hargs)
  exact ⟨hx, hid, hheld⟩

/-- An instance is taken from the ready queue. -/
theorem pop_ok (h : Traced conf s) (hr : s.requests[r]? = some q) {app i : ℕ} {a : AppState}
    {inst : ReadyInstance} {ready : List ReadyInstance} (hpc : q.pc = .popping app i)
    (ha : s.app_states[app]? = some a) (hready : a.ready_instances = inst :: ready) :
    StepOk conf s ((s.put app a (ready, s.terminate_queue)).goto r q
      (.fetching app i { inst with last_active := s.now })) := by
  have hq := h.requests q (List.mem_of_getElem? hr)
  have hmem := h.ready a (List.mem_of_getElem? ha)
  rw [hready] at hmem
  refine StepOk.put h hr ha (fun x hx => hmem x (List.mem_cons_of_mem _ hx))
    (fun x hx => h.terminating x (List.mem_append_left _ hx)) ?_ fun handle => ?_
  · -- the instance was kept for the app of the request
    intro app' heq
    obtain rfl := Option.some.inj heq
    obtain ⟨hargs, hid, -⟩ := hq.of_app (by rw [hpc]; rfl) ha
    refine ⟨a.spawn_args, hargs, hid, fun y hy => ?_⟩
    rw [List.mem_singleton.1 hy]
    exact hmem inst List.mem_cons_self
  · have hsame : Sched.copies handle [{ inst with last_active := s.now }]
        = Sched.copies handle [inst] := by simp [Sched.copies]
    have hheld : (RequestPc.fetching app i { inst with last_active := s.now }).held
        = [{ inst with last_active := s.now }] := rfl
    have hcons := copies_cons handle inst ready
    rw [hheld, hsame, hready]
    dsimp only
    omega

/-- A worker is spawned for the app of the request. -/
theorem spawned_ok (h : Traced conf s) (hr : s.requests[r]? = some q) {app i : ℕ} {rtid : RuntimeId}
    {client : Client} {handle : WorkerHandle} {a : AppState} (hpc : q.pc = .spawning app i rtid client) (hnew : ¬ s.Known handle)
    (ha : s.app_states[app]? = some a) :
    StepOk conf s ({ s with spawned := (handle, a.spawn_args) :: s.spawned }.goto r q
      (.fetching app i ⟨rtid, s.now, handle, client⟩)) := by
  have hq := h.requests q (List.mem_of_getElem? hr)
  have hspawn := h.spawn (x := a.spawn_args) hnew
  refine ⟨hspawn.goto r ?_, fun h' => ?_⟩
  · intro app' heq
    obtain rfl := Option.some.inj heq
    obtain ⟨hargs, hid, -⟩ := hq.of_app (by rw [hpc]; rfl) ha
    refine ⟨a.spawn_args, hargs, hid, fun y hy => ?_⟩
    rw [List.mem_singleton.1 hy]
    exact List.mem_cons_self
  · have hgoto := copies_goto (s := { s with spawned := (handle, a.spawn_args) :: s.spawned }) hr
      (.fetching app i ⟨rtid, s.now, handle, client⟩) h'
    have hheld : (RequestPc.fetching app i ⟨rtid, s.now, handle, client⟩).held = [⟨rtid, s.now, handle, client⟩] := rfl
    have hcopies : State.copies { s with spawned := (handle, a.spawn_args) :: s.spawned } h'
        = s.copies h' := rfl
    rw [hheld, hpc, hcopies] at hgoto
    by_cases heq : handle = h'
    · subst heq
      have hone : Sched.copies handle [⟨rtid, s.now, handle, client⟩] = 1 := by simp [Sched.copies]
      exact Or.inr ⟨hnew, by omega⟩
    · have hzero : Sched.copies h' [⟨rtid, s.now, handle, client⟩] = 0 := by simp [Sched.copies, heq]
      exact Or.inl (by omega)

/-- After a fetch a request has its app still, or has ended, and has the instance
at most. -/
theorem after_fetch_held (app i : ℕ) (inst : ReadyInstance) (result : FetchResult) :
    (∀ app', (after_fetch app i inst result).app = some app' → app = app')
      ∧ (after_fetch app i inst result).held.Sublist [inst] := by
  unfold after_fetch
  split
  · exact ⟨fun _ => Option.some.inj, List.Sublist.refl _⟩
  · refine ⟨fun _ => next_attempt_app, ?_⟩
    rw [next_attempt_held]
    exact List.nil_sublist _
  · split
    · exact ⟨(fun _ heq => nomatch heq), List.nil_sublist _⟩
    · exact ⟨fun _ => Option.some.inj, List.Sublist.refl _⟩
  · exact ⟨fun _ => Option.some.inj, List.Sublist.refl _⟩

/-- A fetch has come back. -/
theorem fetched_ok (h : Traced conf s) (hr : s.requests[r]? = some q) {app i : ℕ} {inst : ReadyInstance}
    (hpc : q.pc = .fetching app i inst) (result : FetchResult) :
    StepOk conf s (s.goto r q (after_fetch app i inst result)) := by
  have hq := h.requests q (List.mem_of_getElem? hr)
  obtain ⟨happ, hheld⟩ := after_fetch_held app i inst result
  have hsub : (after_fetch app i inst result).held.Sublist q.pc.held := by
    rw [hpc]
    exact hheld
  refine StepOk.move h hr _ (hq.move (fun app' heq => ?_) hsub) hsub
  rw [hpc, ← happ app' heq]
  rfl

/-- An instance goes back to its app, or drops out. -/
theorem pool_ok (h : Traced conf s) (hr : s.requests[r]? = some q) {app : ℕ} {inst : ReadyInstance}
    {result : FetchOutcome} {a : AppState} (hpc : q.pc = .pooling app inst result)
    (ha : s.app_states[app]? = some a) {queues : List ReadyInstance × List ReadyInstance}
    (hready : ∀ x ∈ queues.1, x ∈ a.ready_instances ∨ x = inst)
    (hqueue : ∀ x ∈ queues.2, x ∈ s.terminate_queue ∨ x = inst)
    (hcount : ∀ handle, Sched.copies handle queues.1 + Sched.copies handle queues.2
      ≤ Sched.copies handle a.ready_instances + Sched.copies handle s.terminate_queue
        + Sched.copies handle [inst]) :
    StepOk conf s ((s.put app a queues).goto r q (.pooled app result)) := by
  have hq := h.requests q (List.mem_of_getElem? hr)
  have hheld : q.pc.held = [inst] := by rw [hpc]; rfl
  have hown : (inst.handle, a.spawn_args) ∈ s.spawned := by
    obtain ⟨-, -, hinst⟩ := hq.of_app (by rw [hpc]; rfl) ha
    exact hinst inst (by rw [hheld]; exact List.mem_cons_self)
  refine StepOk.put h hr ha (fun x hx => ?_) (fun x hx => ?_) (hq.keep (by rw [hpc]; rfl) rfl) fun handle => ?_
  · rcases hready x hx with hold | rfl
    · exact h.ready a (List.mem_of_getElem? ha) x hold
    · exact hown
  · rcases hqueue x hx with hold | rfl
    · exact h.terminating x (List.mem_append_left _ hold)
    · exact known_of_mem hown
  · have hnone : (RequestPc.pooled app result).held = [] := rfl
    rw [hheld, hnone, copies_nil]
    exact hcount handle

/-- The steps of a request. -/
theorem request_step_ok (h : Traced conf s) (hr : s.requests[r]? = some q) {a : RequestAction}
    {s' : State} (hs : request_step conf s r q a = some s') : StepOk conf s s' := by
  have hq := h.requests q (List.mem_of_getElem? hr)
  have htouch := traced_touch h q.appid
  have hfound := found_ok (q := q) h
  cases request_effect hs with
  | hit pc cached =>
      rw [cached] at hfound
      have hmove := StepOk.move htouch hr _ hfound (List.nil_sublist _)
      exact ⟨hmove.traced, hmove.copies⟩
  | ask pc missing room =>
      have hmove := StepOk.move (htouch.rest s.now s.clients (s.lookup_app_queue ++ [(q.appid, r)]) s.gc) hr
        (.waiting false) (RequestOk.end _ rfl) (List.nil_sublist _)
      exact ⟨hmove.traced, hmove.copies⟩
  | full pc missing full =>
      have hmove := StepOk.move htouch hr (found none) (RequestOk.end _ rfl) (List.nil_sublist _)
      exact ⟨hmove.traced, hmove.copies⟩
  | look_again pc =>
      have hmove := StepOk.move htouch hr _ hfound (by rw [found_held]; exact List.nil_sublist _)
      exact ⟨hmove.traced, hmove.copies⟩
  | collect pc ha => exact StepOk.collect h hr ha (hq.keep (by rw [pc]; rfl) rfl) rfl
  | pop pc ha front => exact pop_ok h hr pc ha front
  | empty pc | choose pc => exact StepOk.keep h hr (by rw [pc]; rfl) rfl
  | no_client | not_spawned | cancel => exact StepOk.move h hr _ (RequestOk.end _ rfl) (List.nil_sublist _)
  | spawned pc fresh ha => exact spawned_ok h hr pc fresh ha
  | fetched result pc => exact fetched_ok h hr pc result
  | disconnect pc =>
      rename_i app i inst
      have hmove := StepOk.move (h.rest s.now (s.clients.filter (·.1 ≠ inst.rtid)) s.lookup_app_queue s.gc)
        hr _ (hq.next (by rw [pc]; rfl) i) (by rw [next_attempt_held]; exact List.nil_sublist _)
      exact ⟨hmove.traced, hmove.copies⟩
  | pool pc ha =>
      refine pool_ok h hr pc ha (fun x hx => ?_) (fun x hx => Or.inl hx) fun handle => ?_
      · simpa using hx
      · rw [copies_append]
        dsimp only
        omega
  | dropout pc ha =>
      rename_i inst _ _
      refine pool_ok h hr pc ha (fun x hx => Or.inl hx) (fun x hx => mem_send_terminate hx) fun handle => ?_
      have hsent := copies_send_terminate handle s.terminate_queue inst
      dsimp only
      omega
  | collect_pool pc ha => exact StepOk.collect h hr ha (RequestOk.end _ rfl) rfl

end Requests

/-! ## The background tasks -/

section Tasks

variable {conf : Config} {s : State}

/-- The lookup task goes on, with what it has in its hands. -/
theorem Traced.with_lookup (h : Traced conf s) (lookup : LookupPc)
    (hl : LookupOk conf { s with lookup := lookup }) : Traced conf { s with lookup := lookup } where
  apps := h.apps
  requests := h.requests
  ready := h.ready
  terminating := h.terminating
  built := h.built
  lookup := hl
  fresh := h.fresh

theorem reply_ok (h : Traced conf s) (back : ℕ) : StepOk conf s (reply s back) := by
  have hsame : StepOk conf s s := ⟨h, fun _ => Or.inl le_rfl⟩
  unfold reply
  split
  · next q hr =>
      split
      · exact StepOk.move h hr _ (RequestOk.end _ rfl) (List.nil_sublist _)
      · exact hsame
  · exact hsame

/-- The answers of the database are remembered. -/
theorem Traced.with_reads (h : Traced conf s) {lookup : LookupPc} {metadata_reads : List AppConfig}
    {bundle_reads : List (String × Bytes)} (hm : s.metadata_reads ⊆ metadata_reads)
    (hb : s.bundle_reads ⊆ bundle_reads)
    (hl : LookupOk conf { s with
      lookup := lookup, metadata_reads := metadata_reads, bundle_reads := bundle_reads }) :
    Traced conf { s with
      lookup := lookup, metadata_reads := metadata_reads, bundle_reads := bundle_reads } where
  apps := h.apps
  requests := h.requests
  ready := h.ready
  terminating := h.terminating
  built := by
    intro a ha
    obtain ⟨config, hconfig, bundle, hbundle, heq⟩ := h.built a ha
    exact ⟨config, hm hconfig, bundle, hb hbundle, heq⟩
  lookup := hl
  fresh := h.fresh

theorem args_append (a : AppState) {app : ℕ} {x : SpawnArgs} (h : s.args app = some x) :
    State.args { s with app_states := s.app_states ++ [a] } app = some x := by
  unfold State.args at h ⊢
  obtain ⟨b, hb, hx⟩ := Option.map_eq_some_iff.1 h
  obtain ⟨hlt, -⟩ := List.getElem?_eq_some_iff.1 hb
  dsimp only
  rw [List.getElem?_append_left hlt, hb]
  exact congrArg some hx

/-- An app that has been looked up gets its address, and into the cache. -/
theorem insert_ok (h : Traced conf s) {id : AppId} {back : ℕ} {a : AppState}
    (hpc : s.lookup = .inserting id back a) :
    StepOk conf s { s with
      app_states := s.app_states ++ [a]
      apps := s.apps.insert id s.app_states.length
      lookup := .replying back } := by
  have hlookup := h.lookup
  unfold LookupOk at hlookup
  rw [hpc] at hlookup
  obtain ⟨hbuilt, hid, hnone⟩ := hlookup
  refine ⟨?_, fun handle => Or.inl ?_⟩
  · exact {
      apps := by
        intro e he
        rcases LruCache.mem_of_insert he with hold | rfl
        · obtain ⟨x, hx, hxid⟩ := h.apps e hold
          exact ⟨x, args_append a hx, hxid⟩
        · refine ⟨a.spawn_args, ?_, hid⟩
          simp [State.args]
      requests := by
        intro q hq app happ
        obtain ⟨x, hx, hxid, hheld⟩ := h.requests q hq app happ
        exact ⟨x, args_append a hx, hxid, hheld⟩
      ready := by
        intro b hb
        rcases List.mem_append.1 hb with hb | hb
        · exact h.ready b hb
        · obtain rfl := List.mem_singleton.1 hb
          rw [hnone]
          intro inst hinst
          cases hinst
      terminating := h.terminating
      built := by
        intro b hb
        rcases List.mem_append.1 hb with hb | hb
        · exact h.built b hb
        · obtain rfl := List.mem_singleton.1 hb
          exact hbuilt
      lookup := trivial
      fresh := h.fresh }
  · simp [State.copies, hnone]

theorem recv_terminate_ok (h : Traced conf s) {s' : State} (hs : task_step conf s .recv_terminate = some s') :
    StepOk conf s s' := by
  simp only [task_step] at hs
  split at hs
  · next inst queue hnone hqueue =>
      obtain rfl := Option.some.inj hs
      refine ⟨⟨h.apps, h.requests, h.ready, ?_, h.built, h.lookup, h.fresh⟩, fun handle => Or.inl ?_⟩
      · intro x hx
        refine h.terminating x ?_
        rw [hnone, hqueue]
        simpa [or_comm] using hx
      · have hcons := copies_cons handle inst queue
        simp only [State.copies, hnone, hqueue, Option.toList_some, Option.toList_none, copies_nil]
        omega
  · cases hs

theorem terminated_ok (h : Traced conf s) : StepOk conf s { s with terminating := none } := by
  refine ⟨⟨h.apps, h.requests, h.ready, ?_, h.built, h.lookup, h.fresh⟩, fun handle => Or.inl ?_⟩
  · intro x hx
    refine h.terminating x ?_
    simp only [Option.toList_none, List.append_nil] at hx
    exact List.mem_append_left _ hx
  · simp only [State.copies, Option.toList_none, copies_nil]
    omega

/-- The steps of the background tasks. -/
theorem task_step_ok (h : Traced conf s) {a : TaskAction} {s' : State}
    (hs : task_step conf s a = some s') : StepOk conf s s' := by
  have hreplying : ∀ back, StepOk conf s { s with lookup := .replying back } := fun back =>
    ⟨h.with_lookup (.replying back) trivial, fun _ => Or.inl le_rfl⟩
  have happs : ∀ (apps : LruCache AppId ℕ) (gc : GcPc), (∀ e ∈ apps.entries, e ∈ s.apps.entries) →
      StepOk conf s { s with apps := apps, gc := gc } := fun apps gc hsub =>
    ⟨(h.with_apps hsub).rest s.now s.clients s.lookup_app_queue gc, fun _ => Or.inl le_rfl⟩
  have hgc : ∀ gc, StepOk conf s { s with gc := gc } := fun gc => happs s.apps gc fun _ he => he
  cases task_effect hs with
  | quiet terminate =>
      rcases terminate with rfl | rfl
      · exact recv_terminate_ok h hs
      · obtain ⟨-, hs⟩ := Option.ite_none_right_eq_some.1 hs
        obtain rfl := Option.some.inj hs
        exact terminated_ok h
  | recv idle head =>
      rename_i id back queue
      have hrest := (h.with_lookup (.checking id back) trivial).rest s.now s.clients queue s.gc
      exact ⟨hrest, fun _ => Or.inl le_rfl⟩
  | hit place cached =>
      exact ⟨(traced_touch h _).with_lookup (.replying _) trivial, fun _ => Or.inl le_rfl⟩
  | miss place missing =>
      exact ⟨(traced_touch h _).with_lookup (.metadata _ _) trivial, fun _ => Or.inl le_rfl⟩
  | metadata place =>
      refine ⟨h.with_reads (List.subset_cons_self _ _) (List.Subset.refl _) ?_, fun _ => Or.inl le_rfl⟩
      exact ⟨List.mem_cons_self, rfl⟩
  | no_metadata | no_bundle => exact hreplying _
  | bundle place =>
      rename_i id back config bundle
      have hlookup := h.lookup
      unfold LookupOk at hlookup
      rw [place] at hlookup
      obtain ⟨hconfig, hid⟩ := hlookup
      refine ⟨h.with_reads (List.Subset.refl _) (List.subset_cons_self _ _) ?_, fun _ => Or.inl le_rfl⟩
      exact ⟨⟨config, hconfig, bundle, List.mem_cons_self, rfl⟩, hid, rfl⟩
  | insert place => exact insert_ok h place
  | reply place =>
      rename_i back
      have hreply := reply_ok h back
      rw [reply_eq] at hreply
      exact ⟨hreply.traced.with_lookup .idle trivial, hreply.copies⟩
  | gc_begin idle perm => exact happs _ _ fun _ he => LruCache.mem_of_reorder perm he
  | gc_check | gc_end => exact hgc _
  | gc_remove place => exact happs _ _ fun _ he => LruCache.mem_of_remove he

end Tasks

/-! ## All steps -/

/-- Nobody is in more places than one. -/
def Exclusive (s : State) : Prop := ∀ h, s.copies h ≤ 1

/-- **The step lemma.** -/
theorem step_ok {conf : Config} {s : State} (h : Traced conf s) {a : Action} {s' : State}
    (hs : step conf s a = some s') : StepOk conf s s' := by
  have hsame : StepOk conf s s := ⟨h, fun _ => Or.inl le_rfl⟩
  cases step_effect hs with
  | tick n => exact ⟨h.rest _ s.clients s.lookup_app_queue s.gc, hsame.copies⟩
  | discover | drop_client => exact ⟨h.rest s.now _ s.lookup_app_queue s.gc, hsame.copies⟩
  | metrics perm => exact ⟨h.with_apps fun _ he => LruCache.mem_of_reorder perm he, hsame.copies⟩
  | free unused ha =>
      refine ⟨h.put ha (fun _ hx => nomatch hx) fun x hx => h.terminating x (List.mem_append_left _ hx),
        fun handle => Or.inl ?_⟩
      have hput := copies_put ha ([], s.terminate_queue) handle
      simp only [copies_nil] at hput
      omega
  | request appid =>
      refine ⟨⟨h.apps, ?_, h.ready, h.terminating, h.built, h.lookup, h.fresh⟩, fun handle => Or.inl ?_⟩
      · intro q hq
        rcases List.mem_append.1 hq with hq | hq
        · exact h.requests q hq
        · rw [List.mem_singleton.1 hq]
          exact RequestOk.end (q := ⟨appid, .lookup⟩) .lookup rfl
      · simp [State.copies, RequestPc.held]
  | step_request hq hs => exact request_step_ok h hq hs
  | step_task hs => exact task_step_ok h hs

theorem exclusive_step {conf : Config} {s s' : State} (ht : Traced conf s) (he : Exclusive s)
    (hok : StepOk conf s s') : Exclusive s' := by
  intro h
  rcases hok.copies h with hle | ⟨hnew, hle⟩
  · exact hle.trans (he h)
  · -- a handle that is new has been nowhere
    have hzero : ¬ 0 < s.copies h := fun hpos => hnew (ht.known hpos)
    omega

/-- The run lemma. -/
theorem run_ok {conf : Config} {as : List Action} {s : State}
    (hrun : (machine conf).run (start conf) as = some s) : Traced conf s ∧ Exclusive s := by
  refine (machine conf).run_invariant (I := fun s => Traced conf s ∧ Exclusive s) ?_
    ⟨traced_start conf, fun h => Nat.zero_le 1⟩ hrun
  rintro s a s' ⟨ht, he⟩ hs
  have hok := step_ok ht hs
  exact ⟨hok.traced, exclusive_step ht he hok⟩

/-! ## Places -/

/-- Where an instance can be. -/
inductive Place where
  | ready_queue (app : ℕ)
  | request (r : ℕ)
  | terminate_queue
deriving DecidableEq

/-- The instances that are at a place; the terminate queue with the one that is
being terminated. -/
def State.holds (s : State) : Place → List ReadyInstance
  | .ready_queue app => (s.app_states[app]?.map AppState.ready_instances).getD []
  | .request r => (s.requests[r]?.map fun q => q.pc.held).getD []
  | .terminate_queue => s.terminate_queue ++ s.terminating.toList

/-- The worker handle is at the place. -/
def State.At (s : State) (p : Place) (h : WorkerHandle) : Prop := ∃ inst ∈ s.holds p, inst.handle = h

section Places

variable {α : Type*} (f : α → List ReadyInstance) (l : List α) (h : WorkerHandle)

theorem copies_getD (i : ℕ) :
    Sched.copies h ((l[i]?.map f).getD []) ≤ (l.map fun x => Sched.copies h (f x)).sum := by
  cases hx : l[i]? with
  | none => exact Nat.zero_le _
  | some x => exact le_sum_map (fun x => Sched.copies h (f x)) hx

theorem copies_getD_add {i j : ℕ} (hne : i ≠ j) :
    Sched.copies h ((l[i]?.map f).getD []) + Sched.copies h ((l[j]?.map f).getD [])
      ≤ (l.map fun x => Sched.copies h (f x)).sum := by
  have hi := copies_getD f l h i
  have hj := copies_getD f l h j
  cases hx : l[i]? with
  | none => simpa using hj
  | some x =>
      cases hy : l[j]? with
      | none => simpa [hx] using hi
      | some y => exact add_le_sum_map (fun x => Sched.copies h (f x)) hx hy hne

end Places

/-- Two places together have no more copies of a handle than there are. -/
theorem copies_holds_add (s : State) (h : WorkerHandle) {p p' : Place} (hne : p ≠ p') :
    Sched.copies h (s.holds p) + Sched.copies h (s.holds p') ≤ s.copies h := by
  have happ := copies_getD AppState.ready_instances s.app_states h
  have hreq := copies_getD (fun q : Request => q.pc.held) s.requests h
  unfold State.copies
  cases p with
  | ready_queue i =>
      have hi := happ i
      cases p' with
      | ready_queue j =>
          have hij : i ≠ j := fun heq => hne (congrArg Place.ready_queue heq)
          have hadd := copies_getD_add AppState.ready_instances s.app_states h hij
          simp only [State.holds]
          omega
      | request r =>
          have hr := hreq r
          simp only [State.holds]
          omega
      | terminate_queue =>
          simp only [State.holds, copies_append]
          omega
  | request i =>
      have hi := hreq i
      cases p' with
      | ready_queue j =>
          have hj := happ j
          simp only [State.holds]
          omega
      | request j =>
          have hij : i ≠ j := fun heq => hne (congrArg Place.request heq)
          have hadd := copies_getD_add (fun q : Request => q.pc.held) s.requests h hij
          simp only [State.holds]
          omega
      | terminate_queue =>
          simp only [State.holds, copies_append]
          omega
  | terminate_queue =>
      cases p' with
      | ready_queue j =>
          have hj := happ j
          simp only [State.holds, copies_append]
          omega
      | request j =>
          have hj := hreq j
          simp only [State.holds, copies_append]
          omega
      | terminate_queue => exact absurd rfl hne

/-- A handle that is nowhere twice is at one place at most. -/
theorem Exclusive.place {s : State} (he : Exclusive s) {p p' : Place} {h : WorkerHandle}
    (hp : s.At p h) (hp' : s.At p' h) : p = p' := by
  by_contra hne
  have hpos := copies_pos.2 hp
  have hpos' := copies_pos.2 hp'
  have hadd := copies_holds_add s h hne
  have hone := he h
  omega

/-- **Handles are used exclusively and never cross apps.** In every state that
the scheduler reaches, a worker handle is in one place at most, and there only
once; and a request that fetches does so from a worker that was spawned, once,
with the id that the request has been routed to and with the configuration and
the bundle of one app state, which was built for this id from the database. -/
theorem handles_exclusive (conf : Config) (as : List Action) (s : State)
    (hrun : (machine conf).run (start conf) as = some s) :
    (∀ h, s.copies h ≤ 1) ∧ (∀ p p' h, s.At p h → s.At p' h → p = p')
    ∧ ∀ (r : ℕ) (q : Request) (app i : ℕ) (inst : ReadyInstance), s.requests[r]? = some q →
        q.pc = .fetching app i inst →
        ∃ a, s.app_states[app]? = some a ∧ a.id = q.appid ∧ Built conf s a
          ∧ ∀ x, (inst.handle, x) ∈ s.spawned ↔ x = a.spawn_args := by
  obtain ⟨htraced, hexclusive⟩ := run_ok hrun
  refine ⟨hexclusive, fun p p' h hp hp' => hexclusive.place hp hp', ?_⟩
  intro r q app i inst hr hpc
  obtain ⟨x, hx, hid, hheld⟩ := htraced.requests q (List.mem_of_getElem? hr) app (by rw [hpc]; rfl)
  obtain ⟨a, ha, rfl⟩ := Option.map_eq_some_iff.1 hx
  have hspawned := hheld inst (by rw [hpc]; exact List.mem_cons_self)
  refine ⟨a, ha, hid, htraced.built a (List.mem_of_getElem? ha), fun y => ⟨fun hy => ?_, ?_⟩⟩
  · -- a handle is spawned once
    have hinj := List.inj_on_of_nodup_map htraced.fresh hy hspawned rfl
    exact congrArg Prod.snd hinj
  · rintro rfl
    exact hspawned

def first_conf : Config := ⟨⟨50, 120000, 100⟩, ⟨⟨16, 100, 10, 50⟩, [], []⟩⟩

def first_app : AppConfig := ⟨"app", "bundle", [("k", "v")], [⟨"kv", "ns"⟩]⟩

/-- A request for an app that is not in the cache: it is looked up, a worker is
spawned for it, and the request fetches from it. -/
def first_request : List Action :=
  [.discover "rt" 0, .request "app", .step_request 0 .lookup, .step_task .recv_lookup,
    .step_task .check, .step_task (.app_metadata_get (.ok (some first_app))),
    .step_task (.app_bundle_get (.ok (some [1, 2, 3]))), .step_task .insert, .step_task .reply,
    .step_request 0 .lookup, .step_request 0 .collect, .step_request 0 .pop,
    .step_request 0 (.choose "rt"), .step_request 0 (.spawned (.ok ⟨"w"⟩))]

theorem handles_exclusive_first_request :
    ∃ s, (machine first_conf).run (start first_conf) first_request = some s
      ∧ s.spawned = [(⟨"w"⟩, ⟨"app", target_config first_conf first_app, [1, 2, 3]⟩)]
      ∧ ∃ inst ∈ s.holds (.request 0), s.copies inst.handle ≤ 1
          ∧ ∀ p, s.At p inst.handle → p = .request 0 := by
  have hone := handles_exclusive first_conf first_request _ rfl
  refine ⟨_, rfl, rfl, ⟨"rt", 0, ⟨"w"⟩, 0⟩, List.mem_cons_self, hone.1 _, fun p hp => ?_⟩
  exact hone.2.1 p (.request 0) ⟨"w"⟩ hp ⟨_, List.mem_cons_self, rfl⟩

end Sched

end RustyWorkers

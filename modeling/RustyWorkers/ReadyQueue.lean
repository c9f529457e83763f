/-
What the ready queues hand out (`AppState::gc_ready_instances`,
`AppState::pool_instance` and `AppState::get_instance`).

`gc_ready_instances` drops instances from the front as long as the front is not
usable, so that it leaves only usable ones when no expired one stands behind one
that is usable. An instance is stamped when it is taken and goes to the back of
the queue when its request is over, and requests take any time; and
`get_instance` lets the lock go between the collection and the pop, so that the
clock can go on and other requests can pop and pool in between.
-/
import RustyWorkers.SchedHandles
import RustyWorkers.SchedRequests

set_option autoImplicit false

namespace RustyWorkers

open Lib

namespace Sched

/-! ## Collection -/

/-- No expired instance stands behind one that is usable. -/
def ExpiredFirst (conf : Config) (now : ℕ) (ready : List ReadyInstance) : Prop :=
  ready.Pairwise fun x y => x.is_usable conf now = true → y.is_usable conf now = true

/-- All instances are usable. -/
def Usable (conf : Config) (now : ℕ) (ready : List ReadyInstance) : Prop :=
  ∀ inst ∈ ready, inst.is_usable conf now = true

section Collection

variable {conf : Config} {now : ℕ}

theorem pop_while_suffix (p : List ReadyInstance → Bool) (ready queue : List ReadyInstance) :
    (pop_while p ready queue).1 <:+ ready := by
  induction ready generalizing queue with
  | nil => exact List.suffix_refl []
  | cons inst ready ih =>
      rw [pop_while]
      split
      · exact (ih _).trans (List.suffix_cons inst ready)
      · exact List.suffix_refl _

/-- The loop ends where its condition fails. -/
theorem pop_while_ends (p : List ReadyInstance → Bool) (ready queue : List ReadyInstance) :
    (pop_while p ready queue).1 = [] ∨ p (pop_while p ready queue).1 = false := by
  induction ready generalizing queue with
  | nil => exact Or.inl rfl
  | cons inst ready ih =>
      rw [pop_while]
      split
      · exact ih _
      · rename_i hp
        exact Or.inr (by simpa using hp)

/-- What is left when the queue has been cut to its length. -/
def trimmed (conf : Config) (ready queue : List ReadyInstance) : List ReadyInstance × List ReadyInstance :=
  pop_while (fun l => l.length > conf.local_config.max_ready_instances_per_app) ready queue

/-- The instances that the queue is cut to are its last ones. -/
theorem trimmed_eq (ready queue : List ReadyInstance) :
    (trimmed conf ready queue).1 = ready.drop (ready.length - conf.local_config.max_ready_instances_per_app) := by
  unfold trimmed
  induction ready generalizing queue with
  | nil => simp [pop_while]
  | cons inst ready ih =>
      rw [pop_while]
      split
      · rename_i hlong
        have hlong : conf.local_config.max_ready_instances_per_app < ready.length + 1 := by simpa using hlong
        have hlength : (inst :: ready).length - conf.local_config.max_ready_instances_per_app
            = (ready.length - conf.local_config.max_ready_instances_per_app) + 1 := by
          rw [List.length_cons]
          omega
        rw [ih, hlength, List.drop_succ_cons]
      · rename_i hshort
        have hshort : ready.length + 1 ≤ conf.local_config.max_ready_instances_per_app := by simpa using hshort
        have hlength : (inst :: ready).length - conf.local_config.max_ready_instances_per_app = 0 := by
          rw [List.length_cons]
          omega
        rw [hlength, List.drop_zero]

theorem gc_ready_instances_eq (ready queue : List ReadyInstance) :
    gc_ready_instances conf now ready queue
      = pop_while (fun l => !l.head?.all (ReadyInstance.is_usable conf now)) (trimmed conf ready queue).1
          (trimmed conf ready queue).2 := rfl

theorem gc_length (ready queue : List ReadyInstance) :
    (gc_ready_instances conf now ready queue).1.length ≤ conf.local_config.max_ready_instances_per_app := by
  have htrimmed : (trimmed conf ready queue).1.length ≤ conf.local_config.max_ready_instances_per_app := by
    rcases pop_while_ends (fun l => l.length > conf.local_config.max_ready_instances_per_app) ready queue
      with hnil | hfails
    · rw [trimmed, hnil]
      exact Nat.zero_le _
    · rw [decide_eq_false_iff_not, not_lt] at hfails
      exact hfails
  rw [gc_ready_instances_eq]
  exact (pop_while_suffix _ _ _).length_le.trans htrimmed

/-- The front of the queue is usable after a collection. -/
theorem gc_front (ready queue : List ReadyInstance) :
    ∀ inst, (gc_ready_instances conf now ready queue).1.head? = some inst → inst.is_usable conf now = true := by
  intro inst hinst
  rw [gc_ready_instances_eq] at hinst
  rcases pop_while_ends (fun l => !l.head?.all (ReadyInstance.is_usable conf now))
    (trimmed conf ready queue).1 (trimmed conf ready queue).2 with hnil | hfails
  · rw [hnil] at hinst
    cases hinst
  · rw [hinst] at hfails
    simpa using hfails

/-- Where no expired instance stands behind a usable one, all are usable when the front is. -/
theorem ExpiredFirst.usable {ready : List ReadyInstance} (h : ExpiredFirst conf now ready)
    (hfront : ∀ inst, ready.head? = some inst → inst.is_usable conf now = true) : Usable conf now ready := by
  cases ready with
  | nil => exact fun _ hx => nomatch hx
  | cons inst ready =>
      have hinst := hfront inst rfl
      intro x hx
      rcases List.mem_cons.1 hx with rfl | hx
      · exact hinst
      · exact (List.pairwise_cons.1 h).1 x hx hinst

/-- **When `gc_ready_instances` leaves usable instances only**: of those that the queue is cut to,
no expired one stands behind a usable one. -/
theorem gc_usable_iff (ready queue : List ReadyInstance) :
    Usable conf now (gc_ready_instances conf now ready queue).1 ↔
      ExpiredFirst conf now (ready.drop (ready.length - conf.local_config.max_ready_instances_per_app)) := by
  rw [← trimmed_eq ready queue]
  constructor
  · intro husable
    rw [gc_ready_instances_eq] at husable
    generalize (trimmed conf ready queue).1 = l at husable ⊢
    generalize (trimmed conf ready queue).2 = queue at husable
    -- induction on what is dropped: nothing of it is usable, and what is left is
    induction l generalizing queue with
    | nil => exact List.Pairwise.nil
    | cons inst l ih =>
        rw [pop_while] at husable
        split at husable
        · rename_i hdropped
          have hexpired : inst.is_usable conf now = false := by simpa using hdropped
          refine List.pairwise_cons.2 ⟨fun x _ hinst => ?_, ih _ husable⟩
          rw [hexpired] at hinst
          cases hinst
        · refine List.pairwise_cons.2 ⟨fun x hx _ => husable x (List.mem_cons_of_mem _ hx), ?_⟩
          have hrest : ∀ x ∈ l, x.is_usable conf now = true := fun x hx => husable x (List.mem_cons_of_mem _ hx)
          exact List.pairwise_of_forall_mem_list fun x _ y hy _ => hrest y hy
  · intro hfirst
    have hsuffix : (gc_ready_instances conf now ready queue).1 <:+ (trimmed conf ready queue).1 := by
      rw [gc_ready_instances_eq]
      exact pop_while_suffix _ _ _
    exact ExpiredFirst.usable (List.Pairwise.sublist hsuffix.sublist hfirst) (gc_front ready queue)

end Collection

/-! ## The queues after a step -/

/-- The ready queue of the app at an address. -/
def State.ready (s : State) (app : ℕ) : List ReadyInstance :=
  (s.app_states[app]?.map AppState.ready_instances).getD []

/-- The app whose queue the request is about to pop. -/
def RequestPc.to_pop : RequestPc → Option ℕ
  | .popping app _ => some app
  | _ => none

/-- The app whose queue the request is about to push to, and what it has. -/
def RequestPc.to_push : RequestPc → Option (ℕ × ReadyInstance)
  | .pooling app inst _ => some (app, inst)
  | _ => none

/-- A request stands between the collection and the pop of `get_instance`. -/
def State.Popping (s : State) (app : ℕ) : Prop := ∃ q ∈ s.requests, q.pc.to_pop = some app

instance (s : State) (app : ℕ) : Decidable (s.Popping app) := inferInstanceAs (Decidable (∃ _ ∈ _, _))

/-- Another request than `r` does so too. -/
def State.PoppingToo (s : State) (r app : ℕ) : Prop :=
  ∃ j < s.requests.length, j ≠ r ∧ ∃ q ∈ s.requests[j]?, q.pc.to_pop = some app

instance (s : State) (r app : ℕ) : Decidable (s.PoppingToo r app) :=
  inferInstanceAs (Decidable (∃ j < _, j ≠ r ∧ ∃ q ∈ s.requests[j]?, _))

section Queues

variable {conf : Config} {s s' : State}

theorem ready_of_app {app : ℕ} {a : AppState} (ha : s.app_states[app]? = some a) :
    s.ready app = a.ready_instances := by
  rw [State.ready, ha]
  rfl

theorem ready_put {app : ℕ} {a : AppState} (ha : s.app_states[app]? = some a)
    (queues : List ReadyInstance × List ReadyInstance) (other : ℕ) :
    (s.put app a queues).ready other = if other = app then queues.1 else s.ready other := by
  have hlt := (List.getElem?_eq_some_iff.1 ha).1
  simp only [State.ready, State.put]
  split
  · rename_i heq
    rw [heq, List.getElem?_set_self hlt]
    rfl
  · rename_i hne
    rw [List.getElem?_set_ne (Ne.symm hne)]

/-- An app comes with an empty queue. -/
theorem ready_append {a : AppState} (hempty : a.ready_instances = [])
    (h : s'.app_states = s.app_states ++ [a]) (app : ℕ) : s'.ready app = s.ready app := by
  unfold State.ready
  rw [h]
  by_cases hlt : app < s.app_states.length
  · rw [List.getElem?_append_left hlt]
  · rw [List.getElem?_append_right (by omega), List.getElem?_singleton, List.getElem?_eq_none (by omega)]
    split
    · rw [Option.map_some, Option.getD_some, hempty]
      rfl
    · rfl

/-- What a step does to the ready queue of an app: a request collects, pops or pools, or
the app is gone with its queue. -/
inductive Queued (conf : Config) (s s' : State) (app : ℕ) : Action → Prop
  | same {a : Action} (ready : s'.ready app = s.ready app) : Queued conf s s' app a
  | freed {a : Action} (ready : s'.ready app = []) : Queued conf s s' app a
  | collected {r : ℕ} {q : Request} (request : s.requests[r]? = some q) (uses : q.pc.app = some app)
      (ready : s'.ready app = (gc_ready_instances conf s.now (s.ready app) s.terminate_queue).1) :
      Queued conf s s' app (.step_request r .collect)
  | popped {r : ℕ} {q : Request} (request : s.requests[r]? = some q) (pops : q.pc.to_pop = some app)
      (ready : s'.ready app = (s.ready app).tail) : Queued conf s s' app (.step_request r .pop)
  | pooled {r : ℕ} {q : Request} {inst : ReadyInstance} (request : s.requests[r]? = some q)
      (pushes : q.pc.to_push = some (app, inst)) (ready : s'.ready app = s.ready app ++ [inst]) :
      Queued conf s s' app (.step_request r (.pool false))

/-- A step under the lock of a queue leaves the others. -/
theorem queued_put {at_app : ℕ} {a : AppState} (ha : s.app_states[at_app]? = some a)
    {queues : List ReadyInstance × List ReadyInstance} {app : ℕ} {b : Action}
    (hs : s'.app_states = (s.put at_app a queues).app_states)
    (hown : app = at_app → s'.ready app = queues.1 → Queued conf s s' app b) : Queued conf s s' app b := by
  have hready : s'.ready app = (s.put at_app a queues).ready app := by
    rw [State.ready, State.ready, hs]
  rw [ready_put ha] at hready
  split at hready
  · rename_i heq
    exact hown heq hready
  · exact .same hready

/-- **What a step does to the ready queues.** -/
theorem ready_after (hlookup : LookupOk conf s) {a : Action} (h : step conf s a = some s') (app : ℕ) :
    Queued conf s s' app a := by
  cases step_effect h with
  | tick | discover | drop_client | metrics | request => exact .same rfl
  | free unused ha => exact queued_put ha rfl fun _ hready => .freed hready
  | step_task hs =>
    rcases task_step_app_states hs with heq | ⟨id, back, a, hplace, heq⟩
    · apply Queued.same
      rw [State.ready, State.ready, heq]
    · rw [LookupOk, hplace] at hlookup
      exact .same (ready_append hlookup.2.2 heq app)
  | step_request hq hs =>
    cases request_effect hs with
    | hit | ask | full | look_again | no_client | choose | spawned | not_spawned | fetched | disconnect | cancel =>
      exact .same rfl
    | empty pc ha front => exact .same rfl
    | collect pc ha | collect_pool pc ha =>
      refine queued_put ha rfl fun happ hready => .collected hq (by rw [pc, happ]; rfl) ?_
      rw [hready, happ, ready_of_app ha]
    | pop pc ha front =>
      refine queued_put ha rfl fun happ hready => .popped hq (by rw [pc, happ]; rfl) ?_
      rw [hready, happ, ready_of_app ha, front]
      rfl
    | pool pc ha =>
      refine queued_put ha rfl fun happ hready => .pooled hq (by rw [pc, happ]; rfl) ?_
      rw [hready, happ, ready_of_app ha]
    | dropout pc ha =>
      refine queued_put ha rfl fun happ hready => .same ?_
      rw [hready, happ, ready_of_app ha]

/-- The queue after a collection. -/
theorem ready_of_collect {r : ℕ} {q : Request} {app : ℕ}
    (h : step conf s (.step_request r .collect) = some s') (hq : s.requests[r]? = some q)
    (happ : q.pc.app = some app) :
    s'.ready app = (gc_ready_instances conf s.now (s.ready app) s.terminate_queue).1 := by
  cases step_effect h with
  | step_request hq' hs =>
    obtain rfl := Option.some.inj (hq.symm.trans hq')
    cases request_effect hs with
    | collect pc ha | collect_pool pc ha =>
      rw [pc] at happ
      obtain rfl := Option.some.inj happ
      rw [ready_of_app ha]
      exact (ready_put ha _ _).trans (if_pos rfl)

/-- A request stands before the pop when it has collected. -/
theorem Goes.of_popping {pc pc' : RequestPc} {b : RequestAction} (h : Goes s pc b pc') {app : ℕ}
    (hpc : pc'.to_pop = some app) : pc.app = some app ∧ b = .collect := by
  have hplace : ¬ pc'.Chosen := by
    intro hchosen
    cases pc' with
    | popping => exact hchosen
    | _ => cases hpc
  cases h with
  | collect => exact ⟨hpc, rfl⟩
  | look x | look_again x => exact absurd (chosen_found x) hplace
  | disconnect => exact absurd (chosen_next_attempt _ _) hplace
  | fetched result =>
    by_cases hnet : result = .network_error
    · rw [hnet] at hpc
      cases hpc
    · exact absurd (chosen_after_fetch _ _ _ hnet) hplace
  | ask | pop | empty | no_client | choose | spawned | not_spawned | pool | collect_pool | cancel => cases hpc

/-- Who stands before the pop after a step has stood there, or has just
collected. -/
theorem popping_after {a : Action} (h : step conf s a = some s') {app : ℕ} (hpop : s'.Popping app) :
    s.Popping app ∨ ∃ r q, a = .step_request r .collect ∧ s.requests[r]? = some q ∧ q.pc.app = some app := by
  obtain ⟨q', hmem, hpc⟩ := hpop
  obtain ⟨r, hr⟩ := List.mem_iff_getElem?.1 hmem
  rcases request_after h hr with ⟨-, hsame⟩ | ⟨-, hnew⟩ | ⟨q, b, rfl, hq, hgoes⟩ | ⟨q, answered, -, -, hnew⟩
  · exact Or.inl ⟨q', List.mem_of_getElem? hsame, hpc⟩
  · rw [hnew] at hpc
    cases hpc
  · obtain ⟨happ, rfl⟩ := hgoes.of_popping hpc
    exact Or.inr ⟨r, q, rfl, hq, happ⟩
  · rw [hnew] at hpc
    cases hpc

/-- Who stands before the pop after another request has popped stood there too. -/
theorem popping_too {r : ℕ} {app : ℕ} (h : step conf s (.step_request r .pop) = some s') (hpop : s'.Popping app) :
    s.PoppingToo r app := by
  obtain ⟨q', hmem, hpc⟩ := hpop
  obtain ⟨j, hj⟩ := List.mem_iff_getElem?.1 hmem
  rcases request_after h hj with ⟨hother, hsame⟩ | ⟨-, hnew⟩ | ⟨q, b, heq, hq, hgoes⟩ | ⟨q, answered, -, -, hnew⟩
  · refine ⟨j, (List.getElem?_eq_some_iff.1 hsame).1, fun hjr => ?_, q', hsame, hpc⟩
    exact hother .pop (by rw [hjr])
  · rw [hnew] at hpc
    cases hpc
  · -- its own pop has led it away from there
    obtain ⟨-, rfl⟩ := hgoes.of_popping hpc
    cases heq
  · rw [hnew] at hpc
    cases hpc

end Queues

/-! ## Runs -/

/-- No collection finds an expired instance behind a usable one among those that it cuts the queue
to; and what a request that has collected is about to pop stays usable: neither the clock, nor the
pop of another request, nor a pool into an empty queue puts an expired instance to the front. -/
def Timely (conf : Config) (s : State) : Action → Prop
  | .tick n => ∀ q ∈ s.requests, ∀ app ∈ q.pc.to_pop, ∀ inst ∈ (s.ready app).head?,
      inst.is_usable conf (s.now + n) = true
  | .step_request r .collect => ∀ q ∈ s.requests[r]?, ∀ app ∈ q.pc.app, ExpiredFirst conf s.now
      ((s.ready app).drop ((s.ready app).length - conf.local_config.max_ready_instances_per_app))
  | .step_request r .pop => ∀ q ∈ s.requests[r]?, ∀ app ∈ q.pc.to_pop, s.PoppingToo r app →
      ∀ inst ∈ (s.ready app).tail.head?, inst.is_usable conf s.now = true
  | .step_request r (.pool false) => ∀ q ∈ s.requests[r]?, ∀ p ∈ q.pc.to_push, s.ready p.1 = [] →
      s.Popping p.1 → p.2.is_usable conf s.now = true
  | _ => True

/-- A collection leaves a queue that is short enough and has usable instances
only, and what is popped is usable. -/
def Sound (conf : Config) (s : State) : Action → Prop
  | .step_request r .collect => ∀ s', step conf s (.step_request r .collect) = some s' →
      ∀ q ∈ s.requests[r]?, ∀ app ∈ q.pc.app,
        (s'.ready app).length ≤ conf.local_config.max_ready_instances_per_app ∧ Usable conf s'.now (s'.ready app)
  | .step_request r .pop => ∀ q ∈ s.requests[r]?, ∀ app ∈ q.pc.to_pop, ∀ inst ∈ (s.ready app).head?,
      inst.is_usable conf s.now = true
  | _ => True

instance (conf : Config) (now : ℕ) (ready : List ReadyInstance) : Decidable (ExpiredFirst conf now ready) :=
  inferInstanceAs (Decidable (List.Pairwise _ _))

instance (conf : Config) (s : State) : (a : Action) → Decidable (Timely conf s a)
  | .tick _ => inferInstanceAs (Decidable (∀ q ∈ s.requests, _))
  | .step_request r .collect => inferInstanceAs (Decidable (∀ q ∈ s.requests[r]?, ∀ app ∈ q.pc.app, _))
  | .step_request r .pop => inferInstanceAs (Decidable (∀ q ∈ s.requests[r]?, ∀ app ∈ q.pc.to_pop, _))
  | .step_request r (.pool false) => inferInstanceAs (Decidable (∀ q ∈ s.requests[r]?, ∀ p ∈ q.pc.to_push, _))
  | .step_request _ (.pool true) | .step_request _ .lookup | .step_request _ (.choose _)
  | .step_request _ (.spawned _) | .step_request _ (.fetched _) | .step_request _ .disconnect
  | .step_request _ .cancel | .discover _ _ | .drop_client _ | .metrics _ | .free _ | .request _ | .step_task _ =>
    .isTrue trivial

/-- The instance at the front of the queue is usable. -/
def State.FrontUsable (conf : Config) (s : State) (app : ℕ) : Prop :=
  ∀ inst, (s.ready app).head? = some inst → inst.is_usable conf s.now = true

/-- The invariant: a request that is about to pop finds a usable instance, or none. -/
structure Collected (conf : Config) (s : State) : Prop where
  traced : Traced conf s
  popping : ∀ app, s.Popping app → s.FrontUsable conf app

theorem collected_start (conf : Config) : Collected conf (start conf) where
  traced := traced_start conf
  popping := fun _ _ _ hx => nomatch hx

section Steps

variable {conf : Config} {s s' : State} {a : Action}

/-- A collection leaves a usable instance in front. -/
theorem front_of_collect {r : ℕ} {q : Request} {app : ℕ} (hs : step conf s (.step_request r .collect) = some s')
    (hq : s.requests[r]? = some q) (happ : q.pc.app = some app) : s'.FrontUsable conf app := by
  intro inst hinst
  rw [ready_of_collect hs hq happ] at hinst
  rw [step_now hs (by simp)]
  exact gc_front _ _ inst hinst

/-- The front of the queue of a request that stays before its pop. -/
theorem Collected.front_step (h : Collected conf s) (ha : Timely conf s a) (hs : step conf s a = some s')
    {app : ℕ} (hpop' : s'.Popping app) (hpop : s.Popping app) : s'.FrontUsable conf app := by
  have hfront := h.popping app hpop
  by_cases htick : ∃ n, a = .tick n
  · obtain ⟨n, rfl⟩ := htick
    obtain rfl := Option.some.inj hs
    obtain ⟨q, hq, hpc⟩ := hpop
    exact fun inst hinst => ha q hq app hpc inst hinst
  · have hnow : s'.now = s.now := step_now hs fun n hn => htick ⟨n, hn⟩
    intro inst hinst
    rw [hnow]
    cases ready_after h.traced.lookup hs app with
    | same ready =>
      rw [ready] at hinst
      exact hfront inst hinst
    | freed ready =>
      rw [ready] at hinst
      cases hinst
    | collected request uses ready =>
      rw [← hnow]
      exact front_of_collect hs request uses inst hinst
    | popped request pops ready =>
      rw [ready] at hinst
      exact ha _ request app pops (popping_too hs hpop') inst hinst
    | pooled request pushes ready =>
      rw [ready] at hinst
      cases hready : s.ready app with
      | nil =>
        rw [hready] at hinst
        obtain rfl := Option.some.inj hinst
        exact ha _ request _ pushes hready hpop
      | cons x rest =>
        rw [hready] at hinst
        obtain rfl := Option.some.inj hinst
        exact hfront x (by rw [hready]; rfl)

/-- The step lemma. -/
theorem Collected.step (h : Collected conf s) (ha : Timely conf s a) (hs : step conf s a = some s') :
    Collected conf s' where
  traced := (step_ok h.traced hs).traced
  popping := by
    intro app hpop
    -- the request stood before the pop already, or this step is its collection
    rcases popping_after hs hpop with hbefore | ⟨r, q, rfl, hq, happ⟩
    · exact h.front_step ha hs hpop hbefore
    · exact front_of_collect hs hq happ

theorem Collected.sound (h : Collected conf s) (ha : Timely conf s a) : Sound conf s a := by
  unfold Sound
  split
  · intro s' hs q hq app happ
    have hready := ready_of_collect hs hq happ
    rw [hready, step_now hs (by simp)]
    exact ⟨gc_length _ _, (gc_usable_iff _ _).2 (ha q hq app happ)⟩
  · intro q hq app hpc inst hinst
    exact h.popping app ⟨q, List.mem_of_getElem? hq, hpc⟩ inst hinst
  · trivial

end Steps

/-- **In time, the queues are sound.** In every run of the scheduler, with any requests in any order
and of any duration, whose steps are all `Timely`: every collection leaves at most
`max_ready_instances_per_app` instances, all of them usable, and every instance that is popped is
usable. -/
theorem ready_instances_sound (conf : Config) (as : List Action)
    (h : (machine conf).Meets (Timely conf) (start conf) as) :
    (machine conf).Meets (Sound conf) (start conf) as :=
  (machine conf).meets_of_meets (I := Collected conf) (fun _ _ _ hi ha hs => hi.step ha hs)
    (fun _ _ _ hi ha _ => hi.sound ha) (collected_start conf) h

/-- A request whose worker serves one request after another. -/
def one_after_another : List Action :=
  first_request ++
    [.step_request 0 (.fetched (.response ⟨[], 200, []⟩)), .step_request 0 (.pool false),
      .step_request 0 .collect, .tick 60000, .request "app", .step_request 1 .lookup,
      .step_request 1 .collect, .step_request 1 .pop]

theorem ready_instances_sound_one_after_another :
    (machine first_conf).Meets (Sound first_conf) (start first_conf) one_after_another := by
  refine ready_instances_sound first_conf one_after_another ?_
  have hcheck : (machine first_conf).check (fun s a => decide (Timely first_conf s a)) (start first_conf)
      one_after_another = true := by decide
  simpa using (machine first_conf).meets_of_check hcheck

/-- A request that takes longer than the expiration time, while another one that
has begun later is over and has been pooled. -/
def slow_request : List Action :=
  first_request ++
    [.request "app", .step_request 1 .lookup, .step_request 1 .collect, .step_request 1 .pop, .tick 100000,
      .step_request 1 (.choose "rt"), .step_request 1 (.spawned (.ok ⟨"w'"⟩)),
      .step_request 1 (.fetched (.response ⟨[], 200, []⟩)), .step_request 1 (.pool false),
      .step_request 1 .collect, .tick 30000, .step_request 0 (.fetched (.response ⟨[], 200, []⟩)),
      .step_request 0 (.pool false)]

/-- The instance of the slow request has expired, stands behind a usable one and
survives the collection. -/
theorem expired_instance_survives :
    ¬ ∀ (conf : Config) (as : List Action), (machine conf).Meets (Sound conf) (start conf) as := by
  intro h
  have hsound := (machine first_conf).meets_at (h first_conf (slow_request ++ [.step_request 0 .collect])) rfl rfl
  have hcollected := hsound _ rfl _ rfl 0 rfl
  exact absurd (hcollected.2 ⟨"rt", 0, ⟨"w"⟩, 0⟩ (by decide)) (by decide)

end Sched

end RustyWorkers

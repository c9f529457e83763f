/-
Terminations and the generations of an isolate: the loop of `isolate_worker`
(`rusty-workers-runtime/src/isolate.rs`) against `do_remote_termination`
(`executor.rs`).

An isolate runs one job after the other, and the handles of earlier jobs outlive
them: a monitor, a fetch or the map of instances may call
`do_remote_termination` at any time, from any thread. Both sides take the lock
of the generation. The remote side compares, records its reason and terminates
under the lock, and the worker advances the generation and cancels what is
pending under the lock; here every one of these is a step of its own, and the
worker goes on with its job while a remote call holds the lock.

V8 has one flag, and a script that meets it is terminated whoever has set it.
`terminate_requested` therefore keeps the handles through which the flag was
set, and an empty list is a flag that is down. `asked` is read by no step.
-/
import RustyWorkers.Monitor

set_option autoImplicit false

namespace RustyWorkers

open Lib

namespace IsolateWorker

open Monitor (TerminationReason)

/-- `InstanceHandle`. `asked` lists the reasons of the calls that have found the
generation of the handle to be the current one. -/
structure InstanceHandle where
  creation_generation : ℕ
  termination_reason : TerminationReason
  asked : List TerminationReason
deriving DecidableEq

/-- Where a `do_remote_termination` is, which has the lock. -/
inductive RemotePc where
  | checking (reason : Option TerminationReason)
  | recording (reason : TerminationReason)
  | terminating
  | unlocking
deriving DecidableEq

/-- The lock of the generation. -/
inductive Lock where
  | free
  | worker
  | remote (i : ℕ) (pc : RemotePc)
deriving DecidableEq

/-- Where `isolate_worker` is. It is `preparing` while it sets up the context
and runs `librt`, and `executing i` between `Instance::new` and the end of the
job. -/
inductive WorkerPc where
  | receiving
  | preparing
  | executing (i : ℕ)
  | finished (poisoned : Bool)
  | advancing
  | cancelling
  | unlocking
  | cleaning
  | disposed
deriving DecidableEq

structure State where
  generation : ℕ
  lock : Lock
  terminate_requested : List ℕ
  pc : WorkerPc
  handles : List InstanceHandle
deriving DecidableEq

/-- A new isolate. -/
def start : State := ⟨0, .free, [], .receiving, []⟩

inductive Action where
  | recv_job
  | close
  | new_instance
  | fail_new
  | consume
  | finish (poisoned : Bool)
  | dispose
  | lock_generation
  | advance
  | cancel
  | unlock
  | cleanup (ok : Bool)
  | remote_lock (i : ℕ) (reason : Option TerminationReason)
  | remote_check
  | remote_record
  | remote_terminate
  | remote_unlock
deriving DecidableEq

/-- The handle takes a reason, if it has none yet. -/
def InstanceHandle.record (x : InstanceHandle) (reason : TerminationReason) : InstanceHandle :=
  { x with
    termination_reason := if x.termination_reason = .unknown then reason else x.termination_reason
    asked := x.asked ++ [reason] }

/-- A step of `isolate_worker`. -/
def worker_step (s : State) : Action → Option State
  | .recv_job => if s.pc = .receiving then some { s with pc := .preparing } else none
  | .close => if s.pc = .receiving then some { s with pc := .disposed } else none
  | .new_instance =>
    -- `*generation.0.lock().unwrap()`
    if s.pc = .preparing ∧ s.lock = .free then
      some { s with
        pc := .executing s.handles.length
        handles := s.handles ++ [⟨s.generation, .unknown, []⟩] }
    else none
  | .fail_new => if s.pc = .preparing then some { s with pc := .finished false } else none
  | .consume =>
    -- JavaScript that runs meets the flag: `librt`, or the script of the instance
    match s.pc with
    | .preparing | .executing _ =>
      if s.terminate_requested = [] then none else some { s with terminate_requested := [] }
    | _ => none
  | .finish poisoned =>
    match s.pc with
    | .executing _ => some { s with pc := .finished poisoned }
    | _ => none
  | .dispose => if s.pc = .finished true then some { s with pc := .disposed } else none
  | .lock_generation =>
    if s.pc = .finished false ∧ s.lock = .free then
      some { s with pc := .advancing, lock := .worker }
    else none
  | .advance =>
    if s.pc = .advancing then some { s with pc := .cancelling, generation := s.generation + 1 }
    else none
  | .cancel =>
    if s.pc = .cancelling then some { s with pc := .unlocking, terminate_requested := [] } else none
  | .unlock => if s.pc = .unlocking then some { s with pc := .cleaning, lock := .free } else none
  | .cleanup ok =>
    if s.pc = .cleaning then some { s with pc := if ok then .receiving else .disposed } else none
  | _ => none

/-- A step of `do_remote_termination`. -/
def remote_step (s : State) : Action → Option State
  | .remote_lock i reason =>
    if s.lock = .free ∧ i < s.handles.length then
      some { s with lock := .remote i (.checking reason) }
    else none
  | .remote_check =>
    match s.lock with
    | .remote i (.checking reason) =>
      s.handles[i]?.map fun x =>
        if s.generation = x.creation_generation then
          match reason with
          | some reason => { s with lock := .remote i (.recording reason) }
          | none => { s with lock := .remote i .terminating }
        else { s with lock := .remote i .unlocking }
    | _ => none
  | .remote_record =>
    match s.lock with
    | .remote i (.recording reason) =>
      s.handles[i]?.map fun x =>
        { s with lock := .remote i .terminating, handles := s.handles.set i (x.record reason) }
    | _ => none
  | .remote_terminate =>
    match s.lock with
    | .remote i .terminating =>
      -- the handle of an isolate that has been disposed of does nothing
      some { s with
        lock := .remote i .unlocking
        terminate_requested :=
          if s.pc = .disposed then s.terminate_requested else i :: s.terminate_requested }
    | _ => none
  | .remote_unlock =>
    match s.lock with
    | .remote _ .unlocking => some { s with lock := .free }
    | _ => none
  | _ => none

def step (s : State) (a : Action) : Option State :=
  match a with
  | .remote_lock .. | .remote_check | .remote_record | .remote_terminate | .remote_unlock =>
    remote_step s a
  | _ => worker_step s a

/-- One isolate, from its creation to the end of `isolate_worker`. -/
def machine : Machine State Action := ⟨step⟩

/-- The generation has been advanced since the last job, and no instance has
been made in it. -/
def WorkerPc.between : WorkerPc → Bool
  | .receiving | .preparing | .cancelling | .unlocking | .cleaning => true
  | _ => false

/-- `isolate_worker` holds the lock. -/
def WorkerPc.locks : WorkerPc → Bool
  | .advancing | .cancelling | .unlocking => true
  | _ => false

/-- The remote call has found its generation to be the current one. -/
def RemotePc.passed : RemotePc → Bool
  | .recording _ | .terminating => true
  | _ => false

/-- The handle is one of the present generation. -/
def State.Current (s : State) (i : ℕ) : Prop :=
  ∃ x, s.handles[i]? = some x ∧ x.creation_generation = s.generation

/-- The first reason that says something. -/
def first_reason (reasons : List TerminationReason) : TerminationReason :=
  (reasons.find? fun r => r ≠ .unknown).getD .unknown

/-! ## What a step can do -/

inductive Effect (s : State) : Action → State → Prop
  | recv_job (pc : s.pc = .receiving) : Effect s .recv_job { s with pc := .preparing }
  | close (pc : s.pc = .receiving) : Effect s .close { s with pc := .disposed }
  | new_instance (pc : s.pc = .preparing) (lock : s.lock = .free) :
      Effect s .new_instance
        { s with
          pc := .executing s.handles.length
          handles := s.handles ++ [⟨s.generation, .unknown, []⟩] }
  | fail_new (pc : s.pc = .preparing) : Effect s .fail_new { s with pc := .finished false }
  | consume (pc : s.pc = .preparing ∨ ∃ i, s.pc = .executing i) :
      Effect s .consume { s with terminate_requested := [] }
  | finish {i : ℕ} {poisoned : Bool} (pc : s.pc = .executing i) :
      Effect s (.finish poisoned) { s with pc := .finished poisoned }
  | dispose (pc : s.pc = .finished true) : Effect s .dispose { s with pc := .disposed }
  | lock_generation (pc : s.pc = .finished false) (lock : s.lock = .free) :
      Effect s .lock_generation { s with pc := .advancing, lock := .worker }
  | advance (pc : s.pc = .advancing) :
      Effect s .advance { s with pc := .cancelling, generation := s.generation + 1 }
  | cancel (pc : s.pc = .cancelling) : Effect s .cancel { s with pc := .unlocking, terminate_requested := [] }
  | unlock (pc : s.pc = .unlocking) : Effect s .unlock { s with pc := .cleaning, lock := .free }
  | cleanup {ok : Bool} (pc : s.pc = .cleaning) :
      Effect s (.cleanup ok) { s with pc := if ok then .receiving else .disposed }
  | remote_lock {i : ℕ} {reason : Option TerminationReason} (lock : s.lock = .free) :
      Effect s (.remote_lock i reason) { s with lock := .remote i (.checking reason) }
  | current {i : ℕ} {reason : Option TerminationReason} {x : InstanceHandle}
      (lock : s.lock = .remote i (.checking reason)) (hx : s.handles[i]? = some x)
      (same : s.generation = x.creation_generation) :
      Effect s .remote_check { s with lock := .remote i (reason.elim .terminating .recording) }
  | stale {i : ℕ} {reason : Option TerminationReason} {x : InstanceHandle}
      (lock : s.lock = .remote i (.checking reason)) (hx : s.handles[i]? = some x)
      (stale : s.generation ≠ x.creation_generation) :
      Effect s .remote_check { s with lock := .remote i .unlocking }
  | record {i : ℕ} {reason : TerminationReason} {x : InstanceHandle}
      (lock : s.lock = .remote i (.recording reason)) (hx : s.handles[i]? = some x) :
      Effect s .remote_record
        { s with lock := .remote i .terminating, handles := s.handles.set i (x.record reason) }
  | terminate {i : ℕ} (lock : s.lock = .remote i .terminating) :
      Effect s .remote_terminate
        { s with
          lock := .remote i .unlocking
          terminate_requested :=
            if s.pc = .disposed then s.terminate_requested else i :: s.terminate_requested }
  | remote_unlock {i : ℕ} (lock : s.lock = .remote i .unlocking) :
      Effect s .remote_unlock { s with lock := .free }

theorem worker_effect {s s' : State} {a : Action} (h : worker_step s a = some s') : Effect s a s' := by
  cases a with
  | recv_job =>
      obtain ⟨hpc, h⟩ := Option.ite_none_right_eq_some.1 h
      obtain rfl := Option.some.inj h
      exact .recv_job hpc
  | close =>
      obtain ⟨hpc, h⟩ := Option.ite_none_right_eq_some.1 h
      obtain rfl := Option.some.inj h
      exact .close hpc
  | new_instance =>
      obtain ⟨⟨hpc, hlock⟩, h⟩ := Option.ite_none_right_eq_some.1 h
      obtain rfl := Option.some.inj h
      exact .new_instance hpc hlock
  | fail_new =>
      obtain ⟨hpc, h⟩ := Option.ite_none_right_eq_some.1 h
      obtain rfl := Option.some.inj h
      exact .fail_new hpc
  | consume =>
      simp only [worker_step] at h
      split at h
      · obtain ⟨-, h⟩ := Option.ite_none_left_eq_some.1 h
        obtain rfl := Option.some.inj h
        exact .consume (Or.inl ‹_›)
      · obtain ⟨-, h⟩ := Option.ite_none_left_eq_some.1 h
        obtain rfl := Option.some.inj h
        exact .consume (Or.inr ⟨_, ‹_›⟩)
      · cases h
  | finish poisoned =>
      simp only [worker_step] at h
      split at h
      · obtain rfl := Option.some.inj h
        exact .finish ‹_›
      · cases h
  | dispose =>
      obtain ⟨hpc, h⟩ := Option.ite_none_right_eq_some.1 h
      obtain rfl := Option.some.inj h
      exact .dispose hpc
  | lock_generation =>
      obtain ⟨⟨hpc, hlock⟩, h⟩ := Option.ite_none_right_eq_some.1 h
      obtain rfl := Option.some.inj h
      exact .lock_generation hpc hlock
  | advance =>
      obtain ⟨hpc, h⟩ := Option.ite_none_right_eq_some.1 h
      obtain rfl := Option.some.inj h
      exact .advance hpc
  | cancel =>
      obtain ⟨hpc, h⟩ := Option.ite_none_right_eq_some.1 h
      obtain rfl := Option.some.inj h
      exact .cancel hpc
  | unlock =>
      obtain ⟨hpc, h⟩ := Option.ite_none_right_eq_some.1 h
      obtain rfl := Option.some.inj h
      exact .unlock hpc
  | cleanup ok =>
      obtain ⟨hpc, h⟩ := Option.ite_none_right_eq_some.1 h
      obtain rfl := Option.some.inj h
      exact .cleanup hpc
  | remote_lock | remote_check | remote_record | remote_terminate | remote_unlock => cases h

theorem remote_effect {s s' : State} {a : Action} (h : remote_step s a = some s') : Effect s a s' := by
  cases a with
  | remote_lock i reason =>
      obtain ⟨⟨hlock, -⟩, h⟩ := Option.ite_none_right_eq_some.1 h
      obtain rfl := Option.some.inj h
      exact .remote_lock hlock
  | remote_check =>
      simp only [remote_step] at h
      split at h
      · rename_i i reason hlock
        obtain ⟨x, hx, rfl⟩ := Option.map_eq_some_iff.1 h
        by_cases hgen : s.generation = x.creation_generation
        · rw [if_pos hgen]
          have heffect : Effect s .remote_check _ := .current hlock hx hgen
          cases reason <;> exact heffect
        · rw [if_neg hgen]
          exact .stale hlock hx hgen
      · cases h
  | remote_record =>
      simp only [remote_step] at h
      split at h
      · obtain ⟨x, hx, rfl⟩ := Option.map_eq_some_iff.1 h
        exact .record ‹_› hx
      · cases h
  | remote_terminate =>
      simp only [remote_step] at h
      split at h
      · obtain rfl := Option.some.inj h
        exact .terminate ‹_›
      · cases h
  | remote_unlock =>
      simp only [remote_step] at h
      split at h
      · obtain rfl := Option.some.inj h
        exact .remote_unlock ‹_›
      · cases h
  | _ => cases h

theorem step_effect {s s' : State} {a : Action} (h : step s a = some s') : Effect s a s' := by
  unfold step at h
  split at h <;> first | exact remote_effect h | exact worker_effect h

/-! ## The invariant -/

structure Inv (s : State) : Prop where
  sorted : (s.handles.map InstanceHandle.creation_generation).Pairwise (· < ·)
  past : ∀ x ∈ s.handles, x.creation_generation ≤ s.generation
  between : s.pc.between = true → ∀ x ∈ s.handles, x.creation_generation < s.generation
  tenant : ∀ i, s.pc = .executing i → s.Current i
  requested : s.pc ≠ .cancelling → ∀ i ∈ s.terminate_requested, s.Current i
  passed : ∀ i pc, s.lock = .remote i pc → pc.passed = true → s.Current i
  worker : s.lock = .worker ↔ s.pc.locks = true
  reasons : ∀ x ∈ s.handles, x.termination_reason = first_reason x.asked

theorem inv_start : Inv start where
  sorted := List.Pairwise.nil
  past := fun _ hx => nomatch hx
  between := fun _ _ hx => nomatch hx
  tenant := fun _ hi => nomatch hi
  requested := fun _ _ hi => nomatch hi
  passed := fun _ _ hl => nomatch hl
  worker := by decide
  reasons := fun _ hx => nomatch hx

variable {s s' : State}

/-- One handle at most is of the present generation. -/
theorem Inv.current_unique (h : Inv s) {i j : ℕ} (hi : s.Current i) (hj : s.Current j) : i = j := by
  obtain ⟨x, hx, hxg⟩ := hi
  obtain ⟨y, hy, hyg⟩ := hj
  -- generations of handles grow, so two handles of one generation are one
  have hmono := List.pairwise_iff_getElem.1 h.sorted
  obtain ⟨hilt, rfl⟩ := List.getElem?_eq_some_iff.1 hx
  obtain ⟨hjlt, rfl⟩ := List.getElem?_eq_some_iff.1 hy
  rcases lt_trichotomy i j with hlt | heq | hlt
  · have hless := hmono i j (by simpa using hilt) (by simpa using hjlt) hlt
    simp only [List.getElem_map] at hless
    omega
  · exact heq
  · have hless := hmono j i (by simpa using hjlt) (by simpa using hilt) hlt
    simp only [List.getElem_map] at hless
    omega

theorem Inv.not_current (h : Inv s) (hbetween : s.pc.between = true) (i : ℕ) : ¬ s.Current i := by
  rintro ⟨x, hx, hxg⟩
  have hlt := h.between hbetween x (List.mem_of_getElem? hx)
  omega

/-- Between two jobs nothing is pending, once the worker has cancelled. -/
theorem Inv.quiet (h : Inv s) (hbetween : s.pc.between = true) (hpc : s.pc ≠ .cancelling) :
    s.terminate_requested = [] := by
  rw [List.eq_nil_iff_forall_not_mem]
  exact fun i hi => h.not_current hbetween i (h.requested hpc i hi)

/-- A step that leaves the handles and the generation alone. -/
theorem Inv.moved (h : Inv s) {lock : Lock} {requested : List ℕ} {pc : WorkerPc}
    (hbetween : pc.between = true → s.pc.between = true)
    (htenant : ∀ i, pc = .executing i → s.pc = .executing i)
    (hrequested : pc ≠ .cancelling → ∀ i ∈ requested, s.Current i)
    (hpassed : ∀ i pc, lock = .remote i pc → pc.passed = true → s.Current i)
    (hworker : lock = .worker ↔ pc.locks = true) :
    Inv ⟨s.generation, lock, requested, pc, s.handles⟩ where
  sorted := h.sorted
  past := h.past
  between := fun hb => h.between (hbetween hb)
  tenant := fun i hi => h.tenant i (htenant i hi)
  requested := hrequested
  passed := hpassed
  worker := hworker
  reasons := h.reasons

/-- A step of `isolate_worker` that does not touch the lock. -/
theorem Inv.moved_pc (h : Inv s) {pc : WorkerPc} {requested : List ℕ}
    (hbetween : pc.between = true → s.pc.between = true)
    (htenant : ∀ i, pc = .executing i → s.pc = .executing i)
    (hrequested : pc ≠ .cancelling → ∀ i ∈ requested, s.Current i)
    (hlocks : pc.locks = s.pc.locks) :
    Inv ⟨s.generation, s.lock, requested, pc, s.handles⟩ := by
  refine h.moved hbetween htenant hrequested h.passed ?_
  rw [hlocks]
  exact h.worker

/-- A step of a remote call that has the lock. -/
theorem Inv.moved_lock (h : Inv s) {i : ℕ} {pc : RemotePc} {lock : Lock}
    (hlock : s.lock = .remote i pc) (hpassed : ∀ i pc, lock = .remote i pc → pc.passed = true → s.Current i)
    (hne : lock ≠ .worker) {requested : List ℕ}
    (hrequested : ∀ i ∈ requested, s.Current i) :
    Inv ⟨s.generation, lock, requested, s.pc, s.handles⟩ := by
  refine h.moved id (fun _ => id) (fun _ => hrequested) hpassed ?_
  rw [← h.worker, hlock]
  simp [hne]

/-- While a remote call has the lock, what is pending is of this generation. -/
theorem Inv.requested_remote (h : Inv s) {i : ℕ} {pc : RemotePc} (hlock : s.lock = .remote i pc) :
    ∀ j ∈ s.terminate_requested, s.Current j := by
  refine h.requested fun hpc => ?_
  have hworker : s.lock = .worker := h.worker.2 (by rw [hpc]; rfl)
  rw [hlock] at hworker
  cases hworker

theorem first_reason_append (reasons : List TerminationReason) (r : TerminationReason) :
    first_reason (reasons ++ [r])
      = if first_reason reasons = .unknown then r else first_reason reasons := by
  unfold first_reason
  rw [List.find?_append]
  cases hfind : reasons.find? fun r => r ≠ .unknown with
  | none => by_cases hr : r = .unknown <;> simp [hr]
  | some r' =>
      have hne : r' ≠ .unknown := by simpa using List.find?_some hfind
      simp [hne]

theorem inv_record (h : Inv s) {i : ℕ} {reason : TerminationReason} {x : InstanceHandle}
    (hlock : s.lock = .remote i (.recording reason)) (hx : s.handles[i]? = some x) :
    Inv { s with lock := .remote i .terminating, handles := s.handles.set i (x.record reason) } := by
  have hgen : (s.handles.set i (x.record reason)).map InstanceHandle.creation_generation
      = s.handles.map InstanceHandle.creation_generation := by
    obtain ⟨hlt, rfl⟩ := List.getElem?_eq_some_iff.1 hx
    have hbound : i < (s.handles.map InstanceHandle.creation_generation).length := by simpa using hlt
    have hsame : (s.handles[i].record reason).creation_generation
        = (s.handles.map InstanceHandle.creation_generation)[i] := by
      rw [List.getElem_map]
      rfl
    rw [List.map_set, hsame]
    exact List.set_getElem_self _
  -- recording a reason moves no handle to another generation
  have hcurrent : ∀ j, s.Current j →
      State.Current { s with lock := .remote i .terminating, handles := s.handles.set i (x.record reason) } j := by
    rintro j ⟨y, hy, hyg⟩
    have hmap := congrArg (fun l => l[j]?) hgen
    simp only [List.getElem?_map] at hmap
    rw [hy] at hmap
    obtain ⟨z, hz, hzg⟩ := Option.map_eq_some_iff.1 hmap
    exact ⟨z, hz, hzg.trans hyg⟩
  have hmem : ∀ z ∈ s.handles.set i (x.record reason),
      ∃ y ∈ s.handles, y.creation_generation = z.creation_generation := by
    intro z hz
    rcases List.mem_or_eq_of_mem_set hz with hold | rfl
    · exact ⟨z, hold, rfl⟩
    · exact ⟨x, List.mem_of_getElem? hx, rfl⟩
  exact {
    sorted := by
      rw [hgen]
      exact h.sorted
    past := by
      intro z hz
      obtain ⟨y, hy, hyg⟩ := hmem z hz
      rw [← hyg]
      exact h.past y hy
    between := by
      intro hb z hz
      obtain ⟨y, hy, hyg⟩ := hmem z hz
      rw [← hyg]
      exact h.between hb y hy
    tenant := fun j hj => hcurrent j (h.tenant j hj)
    requested := fun _ j hj => hcurrent j (h.requested_remote hlock j hj)
    passed := by
      intro j pc hl _
      cases hl
      exact hcurrent i (h.passed i _ hlock rfl)
    worker := by
      rw [← h.worker, hlock]
      simp
    reasons := by
      intro z hz
      rcases List.mem_or_eq_of_mem_set hz with hold | rfl
      · exact h.reasons z hold
      · have hfirst := h.reasons x (List.mem_of_getElem? hx)
        simp only [InstanceHandle.record]
        rw [first_reason_append, ← hfirst] }

theorem inv_new_instance (h : Inv s) (hpc : s.pc = .preparing) (hlock : s.lock = .free) :
    Inv { s with
      pc := .executing s.handles.length
      handles := s.handles ++ [⟨s.generation, .unknown, []⟩] } := by
  have hbetween : s.pc.between = true := by rw [hpc]; rfl
  have hquiet := h.quiet hbetween (by rw [hpc]; exact WorkerPc.noConfusion)
  exact {
    sorted := by
      rw [List.map_append, List.pairwise_append]
      refine ⟨h.sorted, List.pairwise_singleton _ _, ?_⟩
      intro g hg g' hg'
      obtain ⟨x, hx, rfl⟩ := List.mem_map.1 hg
      obtain rfl : g' = s.generation := by simpa using hg'
      exact h.between hbetween x hx
    past := by
      intro x hx
      rcases List.mem_append.1 hx with hold | hnew
      · exact h.past x hold
      · rw [List.mem_singleton.1 hnew]
    between := fun hb => by cases hb
    tenant := by
      intro i hi
      cases hi
      exact ⟨_, List.getElem?_concat_length, rfl⟩
    requested := by
      intro _ i hi
      dsimp only at hi
      rw [hquiet] at hi
      cases hi
    passed := by
      intro i pc hl
      dsimp only at hl
      rw [hlock] at hl
      cases hl
    worker := by
      dsimp only
      rw [hlock]
      simp [WorkerPc.locks]
    reasons := by
      intro x hx
      rcases List.mem_append.1 hx with hold | hnew
      · exact h.reasons x hold
      · rw [List.mem_singleton.1 hnew]
        rfl }

theorem inv_advance (h : Inv s) (hpc : s.pc = .advancing) :
    Inv { s with pc := .cancelling, generation := s.generation + 1 } := by
  -- nobody is between the comparison and the termination, as the worker has the lock
  have hworker : s.lock = .worker := h.worker.2 (by rw [hpc]; rfl)
  exact {
    sorted := h.sorted
    past := fun x hx => Nat.le_succ_of_le (h.past x hx)
    between := fun _ x hx => Nat.lt_succ_of_le (h.past x hx)
    tenant := fun i hi => by cases hi
    requested := fun hne => absurd rfl hne
    passed := by
      intro i pc hl
      dsimp only at hl
      rw [hworker] at hl
      cases hl
    worker := by
      dsimp only
      rw [hworker]
      simp [WorkerPc.locks]
    reasons := h.reasons }

/-! ## Every step keeps the invariant -/

theorem inv_step (s : State) (a : Action) (s' : State) (h : Inv s)
    (hs : machine.step s a = some s') : Inv s' := by
  cases step_effect hs with
  | recv_job pc =>
      exact h.moved_pc (fun _ => by rw [pc]; rfl) (fun i hi => by cases hi)
        (fun _ => h.requested (by simp [pc])) (by rw [pc]; rfl)
  | close pc | fail_new pc | finish pc | dispose pc =>
      exact h.moved_pc (fun hb => by cases hb) (fun i hi => by cases hi)
        (fun _ => h.requested (by simp [pc])) (by rw [pc]; rfl)
  | new_instance pc lock => exact inv_new_instance h pc lock
  | consume => exact h.moved_pc id (fun _ => id) (fun _ i hi => by cases hi) rfl
  | lock_generation pc =>
      exact h.moved (fun hb => by cases hb) (fun i hi => by cases hi)
        (fun _ => h.requested (by simp [pc])) (fun i pc hl => by cases hl) (by simp [WorkerPc.locks])
  | advance pc => exact inv_advance h pc
  | cancel pc =>
      exact h.moved_pc (fun _ => by rw [pc]; rfl) (fun i hi => by cases hi) (fun _ i hi => by cases hi)
        (by rw [pc]; rfl)
  | unlock pc =>
      exact h.moved (fun _ => by rw [pc]; rfl) (fun i hi => by cases hi)
        (fun _ => h.requested (by simp [pc])) (fun i pc hl => by cases hl) (by simp [WorkerPc.locks])
  | cleanup pc =>
      rename_i ok
      have hreq := h.requested (by simp [pc])
      cases ok with
      | true =>
          exact h.moved_pc (fun _ => by rw [pc]; rfl) (fun i hi => by cases hi) (fun _ => hreq)
            (by rw [pc]; rfl)
      | false =>
          exact h.moved_pc (fun hb => by cases hb) (fun i hi => by cases hi) (fun _ => hreq)
            (by rw [pc]; rfl)
  | remote_lock lock =>
      refine h.moved id (fun _ => id) h.requested (fun j pc hl hpassed => ?_) ?_
      · cases hl
        cases hpassed
      · rw [← h.worker, lock]
        simp
  | current lock hx same =>
      -- the comparison holds as long as the lock is held
      refine h.moved_lock lock (fun j pc hl _ => ?_) (by simp) (h.requested_remote lock)
      cases hl
      exact ⟨_, hx, same.symm⟩
  | stale lock =>
      refine h.moved_lock lock (fun j pc hl hpassed => ?_) (by simp) (h.requested_remote lock)
      cases hl
      cases hpassed
  | record lock hx => exact inv_record h lock hx
  | terminate lock =>
      rename_i i
      have hreq := h.requested_remote lock
      refine h.moved_lock lock (fun j pc hl hpassed => ?_) (by simp) ?_
      · cases hl
        cases hpassed
      · by_cases hpc : s.pc = .disposed
        · rw [if_pos hpc]
          exact hreq
        · rw [if_neg hpc]
          exact List.forall_mem_cons.2 ⟨h.passed i _ lock rfl, hreq⟩
  | remote_unlock lock =>
      exact h.moved_lock lock (fun j pc hl _ => by cases hl) (by simp) (h.requested_remote lock)

theorem inv_run {as : List Action} (h : machine.run start as = some s) : Inv s :=
  machine.run_invariant inv_step inv_start h

/-! ## A current call is not lost -/

/-- Neither does the script of instance `i` meet the flag, nor is its job over
and wiped. -/
def spares (i : ℕ) (s : State) : Action → Prop
  | .consume => s.pc ≠ .executing i
  | .cancel => False
  | _ => True

theorem requested_step {i : ℕ} (s : State) (a : Action) (s' : State)
    (h : Inv s ∧ i ∈ s.terminate_requested) (hspares : spares i s a)
    (hs : machine.step s a = some s') : Inv s' ∧ i ∈ s'.terminate_requested := by
  refine ⟨inv_step s a s' h.1 hs, ?_⟩
  obtain ⟨hinv, hi⟩ := h
  cases step_effect hs with
  | consume pc =>
      rcases pc with hpc | ⟨j, hpc⟩
      · -- `librt` runs in a clean isolate
        rw [hinv.quiet (by rw [hpc]; rfl) (by simp [hpc])] at hi
        cases hi
      · have hij := hinv.current_unique (hinv.requested (by simp [hpc]) i hi) (hinv.tenant j hpc)
        rw [hij] at hspares
        exact absurd hpc hspares
  | cancel => exact absurd hspares id
  | terminate lock =>
      dsimp only
      split
      · exact hi
      · exact List.mem_cons_of_mem _ hi
  | recv_job | close | new_instance | fail_new | finish | dispose | lock_generation | advance | unlock | cleanup
  | remote_lock | current | stale | record | remote_unlock => exact hi

/-- A call of handle `i` under way, which has found its generation to be the
current one, or is about to. -/
inductive Calling (i : ℕ) (reason : Option TerminationReason) (s : State) : Prop
  | checking (lock : s.lock = .remote i (.checking reason)) (current : s.Current i)
  | recording (r : TerminationReason) (some : reason = some r) (lock : s.lock = .remote i (.recording r))
  | terminating (lock : s.lock = .remote i .terminating)
      (told : ∀ r, reason = some r → ∃ x, s.handles[i]? = some x ∧ r ∈ x.asked)
  | unlocking (lock : s.lock = .remote i .unlocking)
      (told : ∀ r, reason = some r → ∃ x, s.handles[i]? = some x ∧ r ∈ x.asked)
      (pending : s.pc = .disposed ∨ i ∈ s.terminate_requested)

theorem Calling.locked {i : ℕ} {reason : Option TerminationReason} (h : Calling i reason s) :
    ∃ pc, s.lock = .remote i pc := by
  cases h with
  | checking lock | recording _ _ lock | terminating lock | unlocking lock => exact ⟨_, lock⟩

/-- While the call has the lock, the worker changes neither the generation nor
the handles. -/
theorem Calling.keep {i : ℕ} {reason : Option TerminationReason} (h : Calling i reason s)
    (hlock : s'.lock = s.lock) (hgeneration : s'.generation = s.generation) (hhandles : s'.handles = s.handles)
    (hdisposed : s.pc = .disposed → s'.pc = .disposed)
    (hpending : i ∈ s.terminate_requested → i ∈ s'.terminate_requested) : Calling i reason s' := by
  cases h with
  | checking lock current =>
      refine .checking (hlock.trans lock) ?_
      obtain ⟨x, hx, hxg⟩ := current
      exact ⟨x, by rw [hhandles, hx], by rw [hgeneration, hxg]⟩
  | recording r hr lock => exact .recording r hr (hlock.trans lock)
  | terminating lock told => exact .terminating (hlock.trans lock) (by rwa [hhandles])
  | unlocking lock told pending =>
      exact .unlocking (hlock.trans lock) (by rwa [hhandles]) (pending.imp hdisposed hpending)

theorem calling_step {i : ℕ} {reason : Option TerminationReason} (s : State) (a : Action) (s' : State)
    (h : Inv s ∧ Calling i reason s) (ha : spares i s a ∧ a ≠ .remote_unlock)
    (hs : machine.step s a = some s') : Inv s' ∧ Calling i reason s' := by
  refine ⟨inv_step s a s' h.1 hs, ?_⟩
  obtain ⟨hinv, hcall⟩ := h
  obtain ⟨hspares, hunlock⟩ := ha
  obtain ⟨rpc, hlock⟩ := hcall.locked
  have hpending := fun hi => (requested_step (i := i) s a s' ⟨hinv, hi⟩ hspares hs).2
  -- the worker is at no step that needs the lock
  have hlocks : s.pc.locks = false := by
    rw [← Bool.not_eq_true, ← hinv.worker, hlock]
    simp
  cases step_effect hs with
  | recv_job pc | close pc | fail_new pc | finish pc | dispose pc | cleanup pc =>
      exact hcall.keep rfl rfl rfl (fun hd => by simp [pc] at hd) hpending
  | consume => exact hcall.keep rfl rfl rfl id hpending
  | new_instance _ lock | lock_generation _ lock | remote_lock lock =>
      rw [hlock] at lock
      cases lock
  | advance pc | cancel pc | unlock pc =>
      rw [pc] at hlocks
      cases hlocks
  | current lock hx same =>
      cases hcall with
      | checking lock' =>
          obtain ⟨rfl, rfl⟩ : _ ∧ _ := by simpa using lock'.symm.trans lock
          cases reason with
          | none => exact .terminating rfl (fun r hr => by cases hr)
          | some r => exact .recording r rfl rfl
      | recording _ _ lock' | terminating lock' | unlocking lock' => cases lock'.symm.trans lock
  | stale lock hx stale =>
      cases hcall with
      | checking lock' current =>
          obtain ⟨rfl, rfl⟩ : _ ∧ _ := by simpa using lock'.symm.trans lock
          obtain ⟨y, hy, hyg⟩ := current
          obtain rfl := Option.some.inj (hx.symm.trans hy)
          exact absurd hyg.symm stale
      | recording _ _ lock' | terminating lock' | unlocking lock' => cases lock'.symm.trans lock
  | record lock hx =>
      rename_i x
      cases hcall with
      | recording r hr lock' =>
          obtain ⟨rfl, rfl⟩ : _ ∧ _ := by simpa using lock'.symm.trans lock
          refine .terminating rfl fun r' hr' => ⟨x.record r, ?_, ?_⟩
          · obtain ⟨hlt, -⟩ := List.getElem?_eq_some_iff.1 hx
            exact List.getElem?_set_self hlt
          · rw [hr] at hr'
            cases hr'
            simp [InstanceHandle.record]
      | checking lock' | terminating lock' | unlocking lock' => cases lock'.symm.trans lock
  | terminate lock =>
      cases hcall with
      | terminating lock' told =>
          obtain rfl : _ = _ := by simpa using lock'.symm.trans lock
          refine .unlocking rfl told ?_
          by_cases hd : s.pc = .disposed
          · exact Or.inl hd
          · right
            dsimp only
            rw [if_neg hd]
            exact List.mem_cons_self
      | checking lock' | recording _ _ lock' | unlocking lock' => cases lock'.symm.trans lock
  | remote_unlock => exact absurd rfl hunlock

/-- A call that finds another generation does nothing. -/
theorem stale_call {i : ℕ} {reason : Option TerminationReason} {x : InstanceHandle}
    (hlock : s.lock = .remote i (.checking reason)) (hx : s.handles[i]? = some x)
    (hstale : x.creation_generation ≠ s.generation) :
    machine.step s .remote_check = some { s with lock := .remote i .unlocking } := by
  change step s .remote_check = _
  simp only [step, remote_step, hlock, hx, Option.map_some, if_neg (Ne.symm hstale)]

/-- **A termination reaches its own instance.** In every interleaving of any
number of isolates with calls of `do_remote_termination`:
what is pending while an instance executes was asked for through its own handle,
and nothing is pending while `librt` is prepared for the next one; a call whose
generation is over changes nothing; a call whose generation is the current one
has, when it lets the lock go, recorded its reason and left a termination
pending, which stays until the script of the instance meets it or its job is
over; and the reason of a handle is the first that was asked for. -/
theorem termination_exact {as : List (ℕ × Action)} {f : ℕ → State}
    (h : (machine.family ℕ).run (fun _ => start) as = some f) (k : ℕ) :
    (∀ i ∈ (f k).terminate_requested, ∀ j, (f k).pc = .executing j → i = j)
    ∧ ((f k).pc = .receiving ∨ (f k).pc = .preparing ∨ (f k).pc = .cleaning →
        (f k).terminate_requested = [])
    ∧ (∀ i reason x, (f k).lock = .remote i (.checking reason) → (f k).handles[i]? = some x →
        x.creation_generation ≠ (f k).generation →
        machine.step (f k) .remote_check = some { f k with lock := .remote i .unlocking })
    ∧ (∀ i reason bs t, (f k).lock = .remote i (.checking reason) → (f k).Current i →
        machine.Meets (fun s a => spares i s a ∧ a ≠ .remote_unlock) (f k) bs →
        machine.run (f k) bs = some t → t.lock = .remote i .unlocking →
        (t.pc = .disposed ∨ i ∈ t.terminate_requested)
          ∧ ∀ r, reason = some r → ∃ x, t.handles[i]? = some x ∧ r ∈ x.asked)
    ∧ (∀ i ∈ (f k).terminate_requested, ∀ bs t, machine.Meets (spares i) (f k) bs →
        machine.run (f k) bs = some t → i ∈ t.terminate_requested)
    ∧ ∀ x ∈ (f k).handles, x.termination_reason = first_reason x.asked := by
  have hinv : Inv (f k) := inv_run (machine.family_run h k)
  refine ⟨?_, ?_, fun i reason x => stale_call, ?_, ?_, hinv.reasons⟩
  · intro i hi j hpc
    exact hinv.current_unique (hinv.requested (by simp [hpc]) i hi) (hinv.tenant j hpc)
  · rintro (hpc | hpc | hpc) <;> exact hinv.quiet (by simp [hpc, WorkerPc.between]) (by simp [hpc])
  · intro i reason bs t hlock hcurrent hmeets hrun hunlocking
    have hchecking : Calling i reason (f k) := .checking hlock hcurrent
    have hcalling := (machine.run_invariant_of_meets calling_step ⟨hinv, hchecking⟩ hmeets hrun).2
    cases hcalling with
    | unlocking lock told pending => exact ⟨pending, told⟩
    | checking lock current =>
        rw [lock] at hunlocking
        cases hunlocking
    | recording r hr lock =>
        rw [lock] at hunlocking
        cases hunlocking
    | terminating lock told =>
        rw [lock] at hunlocking
        cases hunlocking
  · intro i hi bs t hmeets hrun
    exact (machine.run_invariant_of_meets requested_step ⟨hinv, hi⟩ hmeets hrun).2

/-- The first instance of isolate 0 ends; a monitor calls for the second one in
time and for the first one too late. -/
def two_tenants : List (ℕ × Action) :=
  [(0, .recv_job), (0, .new_instance), (0, .finish false), (0, .lock_generation), (0, .advance),
    (0, .cancel), (0, .unlock), (0, .cleanup true), (0, .recv_job), (0, .new_instance),
    (0, .remote_lock 0 (some .cache_policy)), (0, .remote_check), (0, .remote_unlock),
    (0, .remote_lock 1 (some .time_limit)), (0, .remote_check), (0, .remote_record),
    (0, .remote_terminate)]

theorem termination_exact_two_tenants :
    ∃ f, (machine.family ℕ).run (fun _ => start) two_tenants = some f
      ∧ (f 0).pc = .executing 1 ∧ (f 0).terminate_requested = [1]
      ∧ (∀ i ∈ (f 0).terminate_requested, ∀ j, (f 0).pc = .executing j → i = j) := by
  have hrun : ((machine.family ℕ).run (fun _ => start) two_tenants).map (fun f => (f 0))
      = some ⟨1, .remote 1 .unlocking, [1], .executing 1,
        [⟨0, .unknown, []⟩, ⟨1, .time_limit, [.time_limit]⟩]⟩ := rfl
  obtain ⟨f, hf, hzero⟩ := Option.map_eq_some_iff.1 hrun
  exact ⟨f, hf, by rw [hzero], by rw [hzero], (termination_exact hf 0).1⟩

end IsolateWorker

end RustyWorkers

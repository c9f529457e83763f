/-
The I/O of one request: `IoWaiter`, `IoProcessor` and the calls in flight
(`rusty-workers-runtime/src/io.rs`).

The executor thread issues calls into a bounded channel and, when its script
has nothing left to run, waits for results. `IoProcessor::run` takes calls off
the channel, gets a permit for each and spawns it. A call in flight may need
array buffers, which only the executor can allocate, and only inside `wait`: it
sends a request on the result channel and blocks until the answer.

An action is one step of one party. What the outside does is in the action: the
slot that the slab hands out, how many buffers a call asks for, the result that
it ends with, whether an allocation is granted, and when the task sender drops
the `IoScope`.
-/
import RustyWorkers.Lib.Machine
import RustyWorkers.HandleTask

set_option autoImplicit false

namespace RustyWorkers

open Lib

/-- Whether `handle_task` may call `allocate_arraybuffer` for the call. -/
def AsyncCallV.allocates : AsyncCallV → Bool
  | .Fetch _ | .KvGet _ | .KvScan _ _ => true
  | .SetTimeout _ | .KvPut _ _ _ | .KvDelete _ | .KvCmpUpdate _ _ _ _ => false

/-- Where the executor thread is, as far as I/O is concerned. -/
inductive ExecutorPc where
  | running
  | issuing (index : ℕ) (task : AsyncCall)
  | waiting
  | dropped
  | panicked
deriving DecidableEq

/-- Where `IoProcessor::run` is: in the `select!`, at `acquire_owned().await`
with a call in hand, or past the loop. -/
inductive RunPc where
  | select
  | acquire (index : ℕ) (task : AsyncCall)
  | exited
deriving DecidableEq

/-- Where a call in flight is: at work with the outside, waiting for `n` more
buffers, or in possession of all it needs to finish. -/
inductive TaskPc where
  | working
  | allocating (n : ℕ)
  | allocated
deriving DecidableEq

/-- A spawned call; it holds a permit. -/
structure InFlight where
  index : ℕ
  task : AsyncCall
  pc : TaskPc
deriving DecidableEq

/-- `BackToExecutorItem`; a buffer request carries the way back to its call. -/
inductive BackToExecutorItem where
  | TaskResult (index : ℕ) (result : Seen)
  | BufferCreation (index : ℕ)

/-- `IoWaiter`, `IoProcessor` and what is between them. -/
structure IoState where
  remaining_budget : ℕ
  inflight : ℕ → Option ℕ
  executor : ExecutorPc
  backlog : List (ℕ × AsyncCall)
  results : List BackToExecutorItem
  run : RunPc
  permits : ℕ
  tasks : List InFlight
  scope : Bool

inductive IoAction where
  | issue (task : AsyncCall) (cb index : ℕ)
  | send
  | wait
  | recv (granted : Bool)
  | drop_waiter
  | kill
  | next
  | acquire
  | request (x : InFlight) (n : ℕ)
  | finish (x : InFlight) (result : Seen)
  | kill_task (x : InFlight)
  | drop_scope

/-- The capacity of the task channel. -/
def backlog_capacity (conf : ExecutorConfiguration) : ℕ := conf.max_io_per_request + 200

/-! ## One call in flight -/

/-- The call asks for `n` buffers, if there is anyone left to ask. -/
def InFlight.ask (alive : Bool) (n : ℕ) (x : InFlight) : InFlight :=
  { x with pc := if alive then .allocating n else .allocated }

/-- A call that asked for a buffer gets an answer; a refused one ends with an
error and waits for no further buffer. -/
def InFlight.reply (granted : Bool) (index : ℕ) (x : InFlight) : InFlight :=
  if x.index = index then
    match x.pc with
    | .allocating (n + 2) => { x with pc := if granted then .allocating (n + 1) else .allocated }
    | .allocating _ => { x with pc := .allocated }
    | _ => x
  else x

/-- Requests that nobody will answer any more fail. -/
def InFlight.orphan (x : InFlight) : InFlight :=
  match x.pc with
  | .allocating _ => { x with pc := .allocated }
  | _ => x

namespace IoState

/-- `IoWaiter::new`. -/
def new (conf : ExecutorConfiguration) : IoState where
  remaining_budget := conf.max_io_per_request
  inflight _ := none
  executor := .running
  backlog := []
  results := []
  run := .select
  permits := conf.max_io_concurrency
  tasks := []
  scope := true

/-! ## The executor -/

/-- `IoWaiter::issue` up to the `blocking_send`; `none` stands for
`IoLimitExceeded`. `index` is the slot that the slab takes. -/
def issue (s : IoState) (count_budget : Bool) (task : AsyncCall) (cb index : ℕ) : Option IoState :=
  if count_budget && s.remaining_budget == 0 then none
  else some { s with
    remaining_budget := if count_budget then s.remaining_budget - 1 else s.remaining_budget
    inflight := Function.update s.inflight index (some cb)
    executor := .issuing index task }

/-- The `blocking_send` of `issue`: it waits for room, and fails once the
processor is gone. -/
def send (conf : ExecutorConfiguration) (s : IoState) (index : ℕ) (task : AsyncCall) :
    Option IoState :=
  if s.run = .exited then
    some { s with inflight := Function.update s.inflight index none, executor := .running }
  else if s.backlog.length < backlog_capacity conf then
    some { s with backlog := s.backlog ++ [(index, task)], executor := .running }
  else none

/-- One round of the loop of `IoWaiter::wait`. All senders of the result channel
are gone once the processor has exited and no call is in flight. -/
def recv (s : IoState) (granted : Bool) : Option IoState :=
  match s.results with
  | .TaskResult index _ :: rest =>
    match s.inflight index with
    | some _ => some { s with
        results := rest
        inflight := Function.update s.inflight index none
        executor := .running }
    | none => some { s with executor := .panicked }
  | .BufferCreation index :: rest =>
    some { s with results := rest, tasks := s.tasks.map (InFlight.reply granted index) }
  | [] => if s.run = .exited ∧ s.tasks = [] then some { s with executor := .dropped } else none

/-- `state.io_waiter = None`: both channel ends of the executor are dropped. -/
def drop_waiter (s : IoState) : IoState :=
  { s with executor := .dropped, results := [], tasks := s.tasks.map InFlight.orphan }

/-! ## The processor -/

/-- The arm `x = self.next()`; it ends the loop when the executor is gone. -/
def next (s : IoState) : Option IoState :=
  match s.backlog with
  | (index, task) :: rest => some { s with backlog := rest, run := .acquire index task }
  | [] => if s.executor = .dropped then some { s with run := .exited } else none

/-- `acquire_owned().await`, and the spawn. -/
def acquire (s : IoState) (index : ℕ) (task : AsyncCall) : Option IoState :=
  if 0 < s.permits then
    some { s with
      permits := s.permits - 1
      tasks := s.tasks ++ [⟨index, task, .working⟩]
      run := .select }
  else none

/-! ## The calls in flight -/

def request (s : IoState) (x : InFlight) (n : ℕ) : IoState :=
  { s with
    tasks := s.tasks.map fun y => if y = x then x.ask (decide (s.executor ≠ .dropped)) n else y
    results := if s.executor = .dropped then s.results
      else s.results ++ List.replicate n (.BufferCreation x.index) }

/-- The call is over and its permit free again. -/
def release (s : IoState) (x : InFlight) : IoState :=
  { s with tasks := s.tasks.erase x, permits := s.permits + 1 }

/-- `res.respond(..)`. -/
def respond (s : IoState) (index : ℕ) (result : Seen) : IoState :=
  { s with results := if s.executor = .dropped then s.results else s.results ++ [.TaskResult index result] }

/-- One step of one party. Calls are always issued with `count_budget = false`
(`call_service_callback`). -/
def step (conf : ExecutorConfiguration) (s : IoState) : IoAction → Option IoState
  | .issue task cb index =>
    if s.executor = .running ∧ s.inflight index = none then
      some ((s.issue false task cb index).getD s)
    else none
  | .send =>
    match s.executor with
    | .issuing index task => s.send conf index task
    | _ => none
  | .wait => if s.executor = .running then some { s with executor := .waiting } else none
  | .recv granted => if s.executor = .waiting then s.recv granted else none
  | .drop_waiter => if s.executor = .running then some s.drop_waiter else none
  | .kill => if s.run = .select ∧ s.scope = false then some { s with run := .exited } else none
  | .next => if s.run = .select then s.next else none
  | .acquire =>
    match s.run with
    | .acquire index task => s.acquire index task
    | _ => none
  | .request x n =>
    if x ∈ s.tasks ∧ x.pc = .working ∧ x.task.v.allocates = true ∧ 0 < n then some (s.request x n)
    else none
  | .finish x result =>
    if x ∈ s.tasks then
      match x.pc with
      | .allocating _ => none
      | _ => some ((s.release x).respond x.index result)
    else none
  | .kill_task x => if x ∈ s.tasks ∧ s.run = .exited then some (s.release x) else none
  | .drop_scope => if s.scope = true then some { s with scope := false } else none

/-- The I/O of one request. -/
def machine (conf : ExecutorConfiguration) : Machine IoState IoAction := ⟨step conf⟩

/-! ## What each step does -/

variable {conf : ExecutorConfiguration} {s s' : IoState}

theorem step_issue {task : AsyncCall} {cb index : ℕ} (h : step conf s (.issue task cb index) = some s') :
    s.executor = .running ∧ s.inflight index = none
      ∧ s' = { s with inflight := Function.update s.inflight index (some cb), executor := .issuing index task } := by
  simp only [step] at h
  split at h
  · rename_i hrun
    exact ⟨hrun.1, hrun.2, (Option.some.inj h).symm⟩
  · cases h

theorem step_send (h : step conf s .send = some s') :
    ∃ index task, s.executor = .issuing index task
      ∧ ((s.run = .exited
          ∧ s' = { s with inflight := Function.update s.inflight index none, executor := .running })
        ∨ (s.run ≠ .exited ∧ s.backlog.length < backlog_capacity conf
          ∧ s' = { s with backlog := s.backlog ++ [(index, task)], executor := .running })) := by
  simp only [step] at h
  split at h
  · rename_i index task hexec
    refine ⟨index, task, hexec, ?_⟩
    unfold send at h
    split at h
    · exact Or.inl ⟨‹_›, (Option.some.inj h).symm⟩
    · split at h
      · exact Or.inr ⟨‹_›, ‹_›, (Option.some.inj h).symm⟩
      · cases h
  · cases h

theorem step_wait (h : step conf s .wait = some s') :
    s.executor = .running ∧ s' = { s with executor := .waiting } := by
  simp only [step] at h
  split at h
  · exact ⟨‹_›, (Option.some.inj h).symm⟩
  · cases h

/-- `wait` delivers a result, meets a slot that is not taken, answers a request,
or ends. -/
theorem step_recv {granted : Bool} (h : step conf s (.recv granted) = some s') :
    s.executor = .waiting
      ∧ ((∃ index result rest cb, s.results = .TaskResult index result :: rest
            ∧ s.inflight index = some cb
            ∧ s' = { s with results := rest, inflight := Function.update s.inflight index none, executor := .running })
        ∨ (∃ index result rest, s.results = .TaskResult index result :: rest
            ∧ s.inflight index = none ∧ s' = { s with executor := .panicked })
        ∨ (∃ index rest, s.results = .BufferCreation index :: rest
            ∧ s' = { s with results := rest, tasks := s.tasks.map (InFlight.reply granted index) })
        ∨ (s.results = [] ∧ s.run = .exited ∧ s.tasks = [] ∧ s' = { s with executor := .dropped })) := by
  simp only [step] at h
  split at h
  · refine ⟨‹_›, ?_⟩
    unfold recv at h
    split at h
    · rename_i index result rest hresults
      split at h
      · rename_i cb hcb
        exact Or.inl ⟨index, result, rest, cb, hresults, hcb, (Option.some.inj h).symm⟩
      · rename_i hnone
        exact Or.inr (Or.inl ⟨index, result, rest, hresults, hnone, (Option.some.inj h).symm⟩)
    · rename_i index rest hresults
      exact Or.inr (Or.inr (Or.inl ⟨index, rest, hresults, (Option.some.inj h).symm⟩))
    · rename_i hresults
      split at h
      · rename_i hdone
        exact Or.inr (Or.inr (Or.inr ⟨hresults, hdone.1, hdone.2, (Option.some.inj h).symm⟩))
      · cases h
  · cases h

theorem step_drop_waiter (h : step conf s .drop_waiter = some s') :
    s.executor = .running ∧ s' = s.drop_waiter := by
  simp only [step] at h
  split at h
  · exact ⟨‹_›, (Option.some.inj h).symm⟩
  · cases h

theorem step_kill (h : step conf s .kill = some s') :
    s.run = .select ∧ s.scope = false ∧ s' = { s with run := .exited } := by
  simp only [step] at h
  split at h
  · rename_i hk
    exact ⟨hk.1, hk.2, (Option.some.inj h).symm⟩
  · cases h

theorem step_next (h : step conf s .next = some s') :
    s.run = .select
      ∧ ((∃ index task rest, s.backlog = (index, task) :: rest
            ∧ s' = { s with backlog := rest, run := .acquire index task })
        ∨ (s.backlog = [] ∧ s.executor = .dropped ∧ s' = { s with run := .exited })) := by
  simp only [step] at h
  split at h
  · refine ⟨‹_›, ?_⟩
    unfold next at h
    split at h
    · rename_i index task rest hbacklog
      exact Or.inl ⟨index, task, rest, hbacklog, (Option.some.inj h).symm⟩
    · rename_i hbacklog
      split at h
      · exact Or.inr ⟨hbacklog, ‹_›, (Option.some.inj h).symm⟩
      · cases h
  · cases h

theorem step_acquire (h : step conf s .acquire = some s') :
    ∃ index task, s.run = .acquire index task ∧ 0 < s.permits
      ∧ s' = { s with permits := s.permits - 1, tasks := s.tasks ++ [⟨index, task, .working⟩], run := .select } := by
  simp only [step] at h
  split at h
  · rename_i index task hrun
    unfold acquire at h
    split at h
    · exact ⟨index, task, hrun, ‹_›, (Option.some.inj h).symm⟩
    · cases h
  · cases h

theorem step_request {x : InFlight} {n : ℕ} (h : step conf s (.request x n) = some s') :
    x ∈ s.tasks ∧ x.pc = .working ∧ x.task.v.allocates = true ∧ 0 < n ∧ s' = s.request x n := by
  simp only [step] at h
  split at h
  · rename_i hreq
    exact ⟨hreq.1, hreq.2.1, hreq.2.2.1, hreq.2.2.2, (Option.some.inj h).symm⟩
  · cases h

theorem step_finish {x : InFlight} {result : Seen} (h : step conf s (.finish x result) = some s') :
    x ∈ s.tasks ∧ (∀ n, x.pc ≠ .allocating n) ∧ s' = (s.release x).respond x.index result := by
  simp only [step] at h
  split at h
  · refine ⟨‹_›, ?_⟩
    split at h
    · cases h
    · rename_i hno
      exact ⟨hno, (Option.some.inj h).symm⟩
  · cases h

theorem step_kill_task {x : InFlight} (h : step conf s (.kill_task x) = some s') :
    x ∈ s.tasks ∧ s.run = .exited ∧ s' = s.release x := by
  simp only [step] at h
  split at h
  · rename_i hk
    exact ⟨hk.1, hk.2, (Option.some.inj h).symm⟩
  · cases h

theorem step_drop_scope (h : step conf s .drop_scope = some s') :
    s.scope = true ∧ s' = { s with scope := false } := by
  simp only [step] at h
  split at h
  · exact ⟨‹_›, (Option.some.inj h).symm⟩
  · cases h

end IoState

end RustyWorkers

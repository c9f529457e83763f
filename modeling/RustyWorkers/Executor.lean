/-
The thread of an instance: `Instance::run` and `Instance::cleanup`
(`rusty-workers-runtime/src/executor.rs`), with the fetches that wait for it
(`InstanceHandle::fetch`), the execution tokens (`semaphore.rs`) and the map
`instances` (`runtime.rs`).

`Instance::run` is a state machine whose states are the places where it blocks,
where user code runs, and where a `?` may leave it. User code runs in more
places than the calls of the script's functions: an accessor of the global
object when `_dispatchEvent` is looked up, and the `toString` of a thrown value
when `check_on_task` describes it. Wherever it runs it may call the host, so
`SendFetchResponse` and `Done` are actions of every such state.

A fetch is known by a name. It is at one place at a time: at the `send` of the
task channel, in the channel, in the hands of `run`, behind
`fetch_response_channel`, or answered. What the script does, whether a check of
memory fails, whether a token is there in time, and what the outside does to the
handle are in the action. An execution token is taken from the channel of the
semaphore and given back by the drop of its `Permit`, so the step of an instance
takes the number of free tokens and returns it.
-/
import RustyWorkers.Lib.Machine
import RustyWorkers.Monitor
import RustyWorkers.Types

set_option autoImplicit false

namespace RustyWorkers

open Lib

namespace Executor

open Monitor (TimerControl TerminationReason)

abbrev ExecutionResult := Except ExecutionError ResponseObject

/-- What `TryCatch` has caught. -/
inductive Exception where
  | thrown (description : String)
  | terminated (reason : TerminationReason)
deriving DecidableEq

/-- The error of `check_on_task`. -/
def Exception.error : Exception → ExecutionError
  | .terminated .unknown => .RuntimeThrowsException
  | .terminated .time_limit => .TimeLimitExceeded
  | .terminated .cache_policy => .RuntimeThrowsException
  | .thrown description => .ScriptThrowsException description

/-- `ResponseObject { status: 500, ..Default::default() }`. -/
def default_response : ResponseObject := ⟨[], 500, []⟩

/-- How `InstanceHandle::fetch` comes to its result: what the script sent, an
error that `run` sent, the response that `run` sends when the script sent none,
the drop of the sender, or a closed task channel. -/
inductive Answer where
  | script (res : ResponseObject)
  | error (e : ExecutionError)
  | no_response
  | dropped
  | refused
deriving DecidableEq

/-- What `InstanceHandle::fetch` returns. -/
def Answer.result : Answer → ExecutionResult
  | .script res => .ok res
  | .error e => .error e
  | .no_response => .ok default_response
  | .dropped => .error .RuntimeThrowsException
  | .refused => .error .NoSuchWorker

/-- Where `Instance::run` is. -/
inductive Pc (ι : Type) where
  | starting
  | initializing
  | ready
  | script
  | script_check
  | loop_top
  | receiving
  | received (task : ι)
  | dispatching (task : ι)
  | event
  | checking
  | waiting
  | resuming
  | calling
  | callback
  | finishing
  | exited
  | cleaned
deriving DecidableEq

/-- The states in which user code may run. -/
def Pc.user_code {ι : Type} : Pc ι → Bool
  | .script | .script_check | .dispatching _ | .event | .checking | .callback => true
  | _ => false

/-- The task that `run` holds outside of the slot of the isolate. -/
def Pc.in_hand {ι : Type} : Pc ι → List ι
  | .received task => [task]
  | _ => []

/-- `InstanceState` and the locals of `run`, with the fetches of the instance.
`timer_tx` is all that was sent to the monitor; `fetches`, `dequeued` and
`dispatched` list the fetches that have begun, that `run` has taken off the
channel and that `_dispatchEvent` was called with. -/
structure Instance (ι : Type) where
  pc : Pc ι
  permits : ℕ
  timer_tx : List TimerControl
  handle : Bool
  sending : List ι
  task_rx : List ι
  fetch_response_channel : Option ι
  io_waiter : Bool
  done : Bool
  results : List (ι × Answer)
  cancelled : List ι
  fetches : List ι
  dequeued : List ι
  dispatched : List ι

inductive Action (ι : Type) where
  | fetch (id : ι)
  | enqueue (id : ι)
  | refuse (id : ι)
  | cancel (id : ι)
  | drop_handle
  | acquire (granted : Bool)
  | initialized (ok : Bool)
  | check (exception : Option Exception)
  | returned (ok : Bool)
  | send_fetch_response (res : ResponseObject)
  | done
  | next_task
  | recv
  | dispatch (ok : Bool)
  | wait (result : Bool)
  | arguments (ok : Bool)
  | finish
  | cleanup
  | crash

namespace Instance

variable {ι : Type}

/-- `Instance::new`. -/
def new : Instance ι :=
  ⟨.starting, 0, [], false, [], [], none, false, false, [], [], [], [], []⟩

def start_timer (s : Instance ι) : Instance ι := { s with timer_tx := s.timer_tx ++ [.start] }

def stop_timer (s : Instance ι) : Instance ι := { s with timer_tx := s.timer_tx ++ [.stop] }

def reset_timer (s : Instance ι) : Instance ι := { s with timer_tx := s.timer_tx ++ [.reset] }

/-- `try_send_fetch_response`. -/
def try_send_fetch_response (s : Instance ι) (a : Answer) : Instance ι :=
  match s.fetch_response_channel with
  | some id => { s with fetch_response_channel := none, results := s.results ++ [(id, a)] }
  | none => s

/-- `acquire_execution_token`, and `permit = ..`. -/
def take_permit (tokens : ℕ) (s : Instance ι) : Option (ℕ × Instance ι) :=
  if 0 < tokens then some (tokens - 1, { s with permits := s.permits + 1 }) else none

/-- `drop(permit)`. -/
def drop_permit (tokens : ℕ) (s : Instance ι) : ℕ × Instance ι :=
  (tokens + 1, { s with permits := s.permits - 1 })

/-- `run` returns, or unwinds: what it owns is dropped. -/
def exit (tokens : ℕ) (s : Instance ι) : ℕ × Instance ι :=
  (tokens + s.permits, { s with
    pc := .exited
    permits := 0
    results := s.results ++ s.pc.in_hand.map fun id => (id, .dropped) })

/-- The slot of the isolate is emptied, by `cleanup` or with the isolate. The
sender behind `fetch_response_channel` is dropped, and so is the receiver of the
task channel with the tasks in it. -/
def cleanup (s : Instance ι) : Instance ι :=
  { s with
    pc := .cleaned
    io_waiter := false
    fetch_response_channel := none
    task_rx := []
    results := s.results ++ (s.fetch_response_channel.toList ++ s.task_rx).map fun id => (id, .dropped) }

/-- The top of the loop, up to `blocking_recv`. -/
def next_task (tokens : ℕ) (s : Instance ι) : ℕ × Instance ι :=
  { s.stop_timer.reset_timer with io_waiter := false, done := false, pc := .receiving }.drop_permit tokens

/-- From `populate_with_task` to the lookup of `_dispatchEvent`. -/
def populate_with_task (s : Instance ι) (task : ι) : Instance ι :=
  { s.start_timer with fetch_response_channel := some task, io_waiter := true, pc := .dispatching task }

/-- From the `stop_timer` before the wait to `IoWaiter::wait`. -/
def wait_io (tokens : ℕ) (s : Instance ι) : ℕ × Instance ι :=
  { s.stop_timer with io_waiter := false, pc := .waiting }.drop_permit tokens

/-- The end of `check_on_task` in the loop that drives a task to completion. -/
def checked (tokens : ℕ) (s : Instance ι) : Option Exception → ℕ × Instance ι
  | some exception =>
    if exception.error.terminates_worker then
      (s.try_send_fetch_response (.error exception.error)).exit tokens
    else (tokens, { s.try_send_fetch_response (.error exception.error) with pc := .finishing })
  | none => if s.done then (tokens, { s with pc := .finishing }) else s.wait_io tokens

variable [DecidableEq ι]

/-- One step of the thread, or of a fetch; the number is that of the free
tokens. -/
def step (tokens : ℕ) (s : Instance ι) (a : Action ι) : Option (ℕ × Instance ι) :=
  match s.pc, a with
  -- `InstanceHandle::fetch`
  | _, .fetch id =>
    if s.handle = true ∧ id ∉ s.fetches then
      some (tokens, { s with fetches := s.fetches ++ [id], sending := s.sending ++ [id] })
    else none
  | pc, .enqueue id =>
    -- the channel has room for one task
    if id ∈ s.sending ∧ s.task_rx = [] ∧ pc ≠ .cleaned then
      some (tokens, { s with sending := s.sending.erase id, task_rx := [id] })
    else none
  | pc, .refuse id =>
    if id ∈ s.sending ∧ pc = .cleaned then
      some (tokens, { s with sending := s.sending.erase id, results := s.results ++ [(id, .refused)] })
    else none
  | _, .cancel id =>
    if id ∈ s.sending then
      some (tokens, { s with sending := s.sending.erase id, cancelled := s.cancelled ++ [id] })
    else none
  | _, .drop_handle =>
    if s.handle = true ∧ s.sending = [] then some (tokens, { s with handle := false }) else none
  -- calls of the host
  | pc, .send_fetch_response res =>
    if pc.user_code = true then some (tokens, s.try_send_fetch_response (.script res)) else none
  | pc, .done => if pc.user_code = true then some (tokens, { s with done := true }) else none
  -- the script
  | .starting, .acquire true => { s with pc := .initializing }.take_permit tokens
  | .starting, .acquire false => some (s.exit tokens)
  | .initializing, .initialized true => some (tokens, { s with pc := .ready, handle := true })
  | .initializing, .initialized false => some (s.exit tokens)
  | .ready, .check none => some (tokens, { s.start_timer with pc := .script })
  | .ready, .check (some _) => some (s.exit tokens)
  | .script, .returned true => some (tokens, { s with pc := .script_check })
  | .script, .returned false => some (s.exit tokens)
  | .script_check, .check none => some (tokens, { s with pc := .loop_top })
  | .script_check, .check (some _) => some (s.exit tokens)
  -- a task
  | .loop_top, .next_task => some (s.next_task tokens)
  | .receiving, .recv =>
    match s.task_rx with
    | task :: rest =>
      some (tokens, { s with task_rx := rest, dequeued := s.dequeued ++ [task], pc := .received task })
    | [] => if s.handle = false then some (s.exit tokens) else none
  | .received task, .acquire true => (s.populate_with_task task).take_permit tokens
  | .received _, .acquire false => some (s.exit tokens)
  | .dispatching task, .dispatch true =>
    some (tokens, { s with dispatched := s.dispatched ++ [task], pc := .event })
  | .dispatching _, .dispatch false => some (s.exit tokens)
  | .event, .returned true | .callback, .returned true => some (tokens, { s with pc := .checking })
  | .event, .returned false | .callback, .returned false => some (s.exit tokens)
  | .checking, .check exception => some (s.checked tokens exception)
  | .waiting, .wait true => some (tokens, { s with io_waiter := true, pc := .resuming })
  | .waiting, .wait false =>
    some ({ s.try_send_fetch_response (.error .IoTimeout) with io_waiter := true }.exit tokens)
  | .resuming, .acquire true => { s.start_timer with pc := .calling }.take_permit tokens
  | .resuming, .acquire false => some (s.exit tokens)
  | .calling, .arguments true => some (tokens, { s with pc := .callback })
  | .calling, .arguments false => some (s.exit tokens)
  | .finishing, .finish => some (tokens, { s.try_send_fetch_response .no_response with pc := .loop_top })
  -- the end
  | .exited, .cleanup => some (tokens, s.cleanup)
  | .exited, .crash | .cleaned, .crash => none
  | _, .crash => some (s.exit tokens)
  | _, _ => none

end Instance

/-! ## What a step can do -/

namespace Instance

variable {ι : Type}

/-- `try_send_fetch_response` changes the channel and the results only. -/
theorem try_send_cases (s : Instance ι) (a : Answer) :
    (s.fetch_response_channel = none ∧ s.try_send_fetch_response a = s)
    ∨ ∃ id, s.fetch_response_channel = some id ∧ s.try_send_fetch_response a
        = { s with fetch_response_channel := none, results := s.results ++ [(id, a)] } := by
  unfold try_send_fetch_response
  split
  · rename_i id hid
    exact Or.inr ⟨id, hid, rfl⟩
  · exact Or.inl ⟨‹_›, rfl⟩

@[simp] theorem pc_try_send (s : Instance ι) (a : Answer) : (s.try_send_fetch_response a).pc = s.pc := by
  rcases s.try_send_cases a with ⟨-, hs⟩ | ⟨id, -, hs⟩ <;> rw [hs]

@[simp] theorem permits_try_send (s : Instance ι) (a : Answer) :
    (s.try_send_fetch_response a).permits = s.permits := by
  rcases s.try_send_cases a with ⟨-, hs⟩ | ⟨id, -, hs⟩ <;> rw [hs]

@[simp] theorem timer_try_send (s : Instance ι) (a : Answer) :
    (s.try_send_fetch_response a).timer_tx = s.timer_tx := by
  rcases s.try_send_cases a with ⟨-, hs⟩ | ⟨id, -, hs⟩ <;> rw [hs]

@[simp] theorem channel_try_send (s : Instance ι) (a : Answer) :
    (s.try_send_fetch_response a).fetch_response_channel = none := by
  rcases s.try_send_cases a with ⟨hnone, hs⟩ | ⟨id, -, hs⟩
  · rw [hs]
    exact hnone
  · rw [hs]

@[simp] theorem dequeued_try_send (s : Instance ι) (a : Answer) :
    (s.try_send_fetch_response a).dequeued = s.dequeued := by
  rcases s.try_send_cases a with ⟨-, hs⟩ | ⟨id, -, hs⟩ <;> rw [hs]

@[simp] theorem dispatched_try_send (s : Instance ι) (a : Answer) :
    (s.try_send_fetch_response a).dispatched = s.dispatched := by
  rcases s.try_send_cases a with ⟨-, hs⟩ | ⟨id, -, hs⟩ <;> rw [hs]

end Instance

/-- The steps that change nothing but the place in `run`. -/
inductive Pc.Moves {ι : Type} : Pc ι → Pc ι → Prop
  | script : Moves .script .script_check
  | script_check : Moves .script_check .loop_top
  | event : Moves .event .checking
  | callback : Moves .callback .checking
  | arguments : Moves .calling .callback
  | done : Moves .checking .finishing

/-- What a step of an instance can do, the exits of `run` taken together. -/
inductive Effect {ι : Type} [DecidableEq ι] (tokens : ℕ) (s : Instance ι) :
    Action ι → ℕ × Instance ι → Prop
  | fetch {id : ι} (handle : s.handle = true) (fresh : id ∉ s.fetches) :
      Effect tokens s (.fetch id)
        (tokens, { s with fetches := s.fetches ++ [id], sending := s.sending ++ [id] })
  | enqueue {id : ι} (mem : id ∈ s.sending) (room : s.task_rx = []) (opened : s.pc ≠ .cleaned) :
      Effect tokens s (.enqueue id) (tokens, { s with sending := s.sending.erase id, task_rx := [id] })
  | refuse {id : ι} (mem : id ∈ s.sending) (closed : s.pc = .cleaned) :
      Effect tokens s (.refuse id)
        (tokens, { s with sending := s.sending.erase id, results := s.results ++ [(id, .refused)] })
  | cancel {id : ι} (mem : id ∈ s.sending) :
      Effect tokens s (.cancel id)
        (tokens, { s with sending := s.sending.erase id, cancelled := s.cancelled ++ [id] })
  | drop_handle : Effect tokens s .drop_handle (tokens, { s with handle := false })
  | respond {res : ResponseObject} (user : s.pc.user_code = true) :
      Effect tokens s (.send_fetch_response res) (tokens, s.try_send_fetch_response (.script res))
  | done (user : s.pc.user_code = true) : Effect tokens s .done (tokens, { s with done := true })
  | start (pc : s.pc = .starting) (free : 0 < tokens) :
      Effect tokens s (.acquire true) (tokens - 1, { s with pc := .initializing, permits := s.permits + 1 })
  | ready (pc : s.pc = .initializing) :
      Effect tokens s (.initialized true) (tokens, { s with pc := .ready, handle := true })
  | run (pc : s.pc = .ready) : Effect tokens s (.check none) (tokens, { s.start_timer with pc := .script })
  | moves {a : Action ι} {pc : Pc ι} (moves : s.pc.Moves pc) : Effect tokens s a (tokens, { s with pc := pc })
  | next_task (pc : s.pc = .loop_top) : Effect tokens s .next_task (s.next_task tokens)
  | recv {task : ι} {rest : List ι} (pc : s.pc = .receiving) (queue : s.task_rx = task :: rest) :
      Effect tokens s .recv
        (tokens, { s with task_rx := rest, dequeued := s.dequeued ++ [task], pc := .received task })
  | populate {task : ι} (pc : s.pc = .received task) (free : 0 < tokens) :
      Effect tokens s (.acquire true)
        (tokens - 1, { s.populate_with_task task with permits := s.permits + 1 })
  | dispatch {task : ι} (pc : s.pc = .dispatching task) :
      Effect tokens s (.dispatch true)
        (tokens, { s with dispatched := s.dispatched ++ [task], pc := .event })
  | recovers {exception : Exception} (pc : s.pc = .checking)
      (mild : exception.error.terminates_worker = false) :
      Effect tokens s (.check (some exception))
        (tokens, { s.try_send_fetch_response (.error exception.error) with pc := .finishing })
  | wait_io (pc : s.pc = .checking) : Effect tokens s (.check none) (s.wait_io tokens)
  | resumes (pc : s.pc = .waiting) :
      Effect tokens s (.wait true) (tokens, { s with io_waiter := true, pc := .resuming })
  | call (pc : s.pc = .resuming) (free : 0 < tokens) :
      Effect tokens s (.acquire true)
        (tokens - 1, { s.start_timer with pc := .calling, permits := s.permits + 1 })
  | finish (pc : s.pc = .finishing) :
      Effect tokens s .finish (tokens, { s.try_send_fetch_response .no_response with pc := .loop_top })
  | exits {a : Action ι} (running : s.pc ≠ .exited ∧ s.pc ≠ .cleaned) : Effect tokens s a (s.exit tokens)
  | fails {a : Action ι} {e : ExecutionError} {io_waiter : Bool} (pc : s.pc = .checking ∨ s.pc = .waiting)
      (known : e ≠ .NoSuchWorker) :
      Effect tokens s a ({ s.try_send_fetch_response (.error e) with io_waiter := io_waiter }.exit tokens)
  | cleanup (pc : s.pc = .exited) : Effect tokens s .cleanup (tokens, s.cleanup)

/-- The errors of `check_on_task` never say that there is no such worker. -/
theorem Exception.error_ne (exception : Exception) : exception.error ≠ .NoSuchWorker := by
  cases exception with
  | thrown description => simp [Exception.error]
  | terminated reason => cases reason <;> simp [Exception.error]

theorem Effect.of_checked {ι : Type} [DecidableEq ι] {tokens : ℕ} {s : Instance ι}
    {exception : Option Exception} (hpc : s.pc = .checking) :
    Effect tokens s (.check exception) (s.checked tokens exception) := by
  cases exception with
  | some exception =>
    rw [Instance.checked]
    split
    · exact Effect.fails (Or.inl hpc) exception.error_ne
    · rename_i hmild
      exact .recovers hpc (Bool.eq_false_iff.2 hmild)
  | none =>
    rw [Instance.checked]
    split
    · exact .moves (hpc ▸ .done)
    · exact .wait_io hpc

/-- Every step has one of the effects. -/
theorem Instance.step_effect {ι : Type} [DecidableEq ι] {tokens : ℕ} {s : Instance ι} {a : Action ι}
    {r : ℕ × Instance ι} (h : s.step tokens a = some r) : Effect tokens s a r := by
  have hexits (hpc : s.pc ≠ .exited ∧ s.pc ≠ .cleaned) (h : some (s.exit tokens) = some r) :
      Effect tokens s a r := Option.some.inj h ▸ .exits hpc
  unfold Instance.step at h
  split at h
  -- the fetches and the calls of the host, in every state
  · obtain ⟨⟨hhandle, hfresh⟩, h⟩ := Option.ite_none_right_eq_some.1 h
    exact Option.some.inj h ▸ .fetch hhandle hfresh
  · obtain ⟨⟨hmem, hroom, hopened⟩, h⟩ := Option.ite_none_right_eq_some.1 h
    exact Option.some.inj h ▸ .enqueue hmem hroom hopened
  · obtain ⟨⟨hmem, hclosed⟩, h⟩ := Option.ite_none_right_eq_some.1 h
    exact Option.some.inj h ▸ .refuse hmem hclosed
  · obtain ⟨hmem, h⟩ := Option.ite_none_right_eq_some.1 h
    exact Option.some.inj h ▸ .cancel hmem
  · obtain ⟨-, h⟩ := Option.ite_none_right_eq_some.1 h
    exact Option.some.inj h ▸ .drop_handle
  · obtain ⟨huser, h⟩ := Option.ite_none_right_eq_some.1 h
    exact Option.some.inj h ▸ .respond huser
  · obtain ⟨huser, h⟩ := Option.ite_none_right_eq_some.1 h
    exact Option.some.inj h ▸ .done huser
  all_goals rename_i hpc
  -- the script
  · obtain ⟨hfree, h⟩ := Option.ite_none_right_eq_some.1 h
    exact Option.some.inj h ▸ .start hpc hfree
  · exact hexits (by simp [hpc]) h
  · exact Option.some.inj h ▸ .ready hpc
  · exact hexits (by simp [hpc]) h
  · exact Option.some.inj h ▸ .run hpc
  · exact hexits (by simp [hpc]) h
  · exact Option.some.inj h ▸ .moves (hpc ▸ .script)
  · exact hexits (by simp [hpc]) h
  · exact Option.some.inj h ▸ .moves (hpc ▸ .script_check)
  · exact hexits (by simp [hpc]) h
  -- a task
  · exact Option.some.inj h ▸ .next_task hpc
  · split at h
    · exact Option.some.inj h ▸ .recv hpc ‹_›
    · exact hexits (by simp [hpc]) (Option.ite_none_right_eq_some.1 h).2
  · obtain ⟨hfree, h⟩ := Option.ite_none_right_eq_some.1 h
    exact Option.some.inj h ▸ .populate hpc hfree
  · exact hexits (by simp [hpc]) h
  · exact Option.some.inj h ▸ .dispatch hpc
  · exact hexits (by simp [hpc]) h
  · exact Option.some.inj h ▸ .moves (hpc ▸ .event)
  · exact Option.some.inj h ▸ .moves (hpc ▸ .callback)
  · exact hexits (by simp [hpc]) h
  · exact hexits (by simp [hpc]) h
  · exact Option.some.inj h ▸ .of_checked hpc
  · exact Option.some.inj h ▸ .resumes hpc
  · exact Option.some.inj h ▸ .fails (Or.inr hpc) (by simp)
  · obtain ⟨hfree, h⟩ := Option.ite_none_right_eq_some.1 h
    exact Option.some.inj h ▸ .call hpc hfree
  · exact hexits (by simp [hpc]) h
  · exact Option.some.inj h ▸ .moves (hpc ▸ .arguments)
  · exact hexits (by simp [hpc]) h
  · exact Option.some.inj h ▸ .finish hpc
  -- the end
  · exact Option.some.inj h ▸ .cleanup hpc
  · cases h
  · cases h
  · exact hexits ⟨‹_›, ‹_›⟩ h
  · cases h

/-! ## The instances of a runtime -/

/-- Where the handle of a worker is: with `spawn`, in the map `instances`, or
removed from it by its expiry or capacity, by `terminate` or by the monitor. -/
inductive Listing where
  | spawning
  | listed
  | removed
deriving DecidableEq

structure Worker (ι : Type) where
  handle : String
  listing : Listing
  inst : Instance ι

/-- `Runtime`: the free tokens, and every worker that was ever spawned. -/
structure Runtime (ι : Type) where
  execution_token : ℕ
  workers : List (Worker ι)

inductive RuntimeAction (ι : Type) where
  | spawn (handle : String)
  | insert (k : ℕ)
  | remove (k : ℕ)
  | worker (k : ℕ) (a : Action ι)

namespace Runtime

variable {ι : Type} [DecidableEq ι]

def new (execution_concurrency : ℕ) : Runtime ι := ⟨execution_concurrency, []⟩

/-- What the map allows a worker: a fetch finds the handle in it, and the handle
goes when it is in there no more. -/
def allowed (w : Worker ι) : Action ι → Bool
  | .fetch _ => w.listing = .listed
  | .drop_handle => w.listing ≠ .listed
  | _ => true

def step (rt : Runtime ι) : RuntimeAction ι → Option (Runtime ι)
  | .spawn handle =>
    -- `WorkerHandle::generate`
    if handle ∈ rt.workers.map Worker.handle then none
    else some { rt with workers := rt.workers ++ [⟨handle, .spawning, .new⟩] }
  | .insert k =>
    match rt.workers[k]? with
    | some w =>
      if w.listing = .spawning ∧ w.inst.handle = true then
        some { rt with workers := rt.workers.set k { w with listing := .listed } }
      else none
    | none => none
  | .remove k =>
    match rt.workers[k]? with
    | some w =>
      if w.listing = .listed then
        some { rt with workers := rt.workers.set k { w with listing := .removed } }
      else none
    | none => none
  | .worker k a =>
    match rt.workers[k]? with
    | some w =>
      if allowed w a then
        (w.inst.step rt.execution_token a).map fun r =>
          ⟨r.1, rt.workers.set k { w with inst := r.2 }⟩
      else none
    | none => none

/-- A runtime with any number of instances. -/
def machine (ι : Type) [DecidableEq ι] : Machine (Runtime ι) (RuntimeAction ι) := ⟨step⟩

variable {rt rt' : Runtime ι}

/-- A step of a runtime: a new worker, a change of the map, or a step of the
thread or a fetch of one worker. -/
theorem step_cases {a : RuntimeAction ι} (h : step rt a = some rt') :
    (∃ handle, handle ∉ rt.workers.map Worker.handle
      ∧ rt' = { rt with workers := rt.workers ++ [⟨handle, .spawning, .new⟩] })
    ∨ (∃ k w listing, rt.workers[k]? = some w
      ∧ (w.listing = .spawning ∧ listing = .listed ∨ w.listing = .listed ∧ listing = .removed)
      ∧ rt' = { rt with workers := rt.workers.set k { w with listing := listing } })
    ∨ (∃ k w b tokens inst, a = .worker k b ∧ rt.workers[k]? = some w ∧ allowed w b = true
      ∧ w.inst.step rt.execution_token b = some (tokens, inst)
      ∧ rt' = ⟨tokens, rt.workers.set k { w with inst := inst }⟩) := by
  cases a with
  | spawn handle =>
    simp only [step, Option.ite_none_left_eq_some, Option.some.injEq] at h
    exact Or.inl ⟨handle, h.1, h.2.symm⟩
  | insert k =>
    simp only [step] at h
    split at h
    · rename_i w hw
      simp only [Option.ite_none_right_eq_some, Option.some.injEq] at h
      exact Or.inr (Or.inl ⟨k, w, .listed, hw, Or.inl ⟨h.1.1, rfl⟩, h.2.symm⟩)
    · cases h
  | remove k =>
    simp only [step] at h
    split at h
    · rename_i w hw
      simp only [Option.ite_none_right_eq_some, Option.some.injEq] at h
      exact Or.inr (Or.inl ⟨k, w, .removed, hw, Or.inr ⟨h.1, rfl⟩, h.2.symm⟩)
    · cases h
  | worker k b =>
    simp only [step] at h
    split at h
    · rename_i w hw
      simp only [Option.ite_none_right_eq_some, Option.map_eq_some_iff] at h
      obtain ⟨hallowed, r, hstep, rfl⟩ := h
      exact Or.inr (Or.inr ⟨k, w, b, r.1, r.2, rfl, hw, hallowed, hstep, rfl⟩)
    · cases h

/-- What every instance has at first and keeps in each of its steps holds of all
instances of a runtime. -/
theorem instances_step {I : Instance ι → Prop} (hnew : I .new)
    (hkeep : ∀ tokens s b tokens' s', I s → s.step tokens b = some (tokens', s') → I s')
    {a : RuntimeAction ι} (hrt : ∀ w ∈ rt.workers, I w.inst) (h : step rt a = some rt') :
    ∀ w ∈ rt'.workers, I w.inst := by
  rcases step_cases h with ⟨handle, -, rfl⟩ | ⟨k, w, listing, hw, -, rfl⟩
    | ⟨k, w, b, tokens, inst, -, hw, -, hstep, rfl⟩
  · intro v hv
    rcases List.mem_append.1 hv with hold | hnewv
    · exact hrt v hold
    · rw [List.mem_singleton.1 hnewv]
      exact hnew
  · intro v hv
    rcases List.mem_or_eq_of_mem_set hv with hold | rfl
    · exact hrt v hold
    · exact hrt w (List.mem_of_getElem? hw)
  · intro v hv
    rcases List.mem_or_eq_of_mem_set hv with hold | rfl
    · exact hrt v hold
    · exact hkeep _ _ _ _ _ (hrt w (List.mem_of_getElem? hw)) hstep

end Runtime

end Executor

end RustyWorkers

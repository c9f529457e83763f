/-
The CPU time limit: `Runtime::monitor_task`, `fetch`, `terminate` and `spawn`
(`rusty-workers-runtime/src/runtime.rs`) with `InstanceHandle` and its `Drop`
(`executor.rs`) and the generations of an isolate (`isolate.rs`).

A worker has one `InstanceHandle` behind an `Arc`. Its `holders` are the owners
of a clone of it: the map `instances`, each fetch in flight, `spawn` until it
has filled the map, and the monitor between taking the entry off the map and
the kill. The expiry of the map, and its capacity, may evict any entry at any
time. When the last holder goes, `Drop` terminates the isolate.

Four parties move independently: the thread of the instance, the fetches, the
map, and the monitor. The step of a worker is a function of the worker and its
isolate alone (`worker_step`), so the invariant is a statement about one worker
(`WorkerOk`), and that other workers are not disturbed is proved once
(`sound_set`): a thread runs one worker at a time, and a handle whose generation
is over does nothing.
-/
import RustyWorkers.Lib.Machine

set_option autoImplicit false

namespace RustyWorkers

open Lib

namespace Monitor

inductive TimerControl where
  | start
  | stop
  | reset
deriving DecidableEq

inductive TerminationReason where
  | unknown
  | time_limit
  | cache_policy
deriving DecidableEq

/-- An owner of a clone of the `Arc<InstanceHandle>`. -/
inductive Holder where
  | ready_callback
  | spawn
  | instances
  | fetch
  | monitor
deriving DecidableEq

/-- Where `Instance::run` is: before the script, in user code, or waiting for a
task or for I/O. -/
inductive ThreadPc where
  | starting
  | running
  | waiting
  | ended
deriving DecidableEq

/-- Where `monitor_task` is. `timed_out` is in the deadline branch, before the
lock of the map. -/
inductive MonitorPc where
  | not_started
  | selecting
  | timed_out
  | killing
  | exited_by_deadline
  | exited_by_stop
deriving DecidableEq

structure Isolate where
  generation : ℕ
  running : Option ℕ
  terminate_requested : Bool
deriving DecidableEq

structure Worker where
  isolate : ℕ
  creation_generation : ℕ
  thread : ThreadPc
  termination_reason : TerminationReason
  holders : List Holder
  timer_rx : List TimerControl
  initial_budget : ℕ
  budget : ℕ
  deadline : Option ℕ
  monitor : MonitorPc
deriving DecidableEq

structure State where
  now : ℕ
  isolates : ℕ → Isolate
  workers : List Worker

/-- What can happen to one worker. -/
inductive WorkerAction where
  | fail_init
  | ready (delivered : Bool)
  | cancel_spawn
  | insert
  | fetch
  | fetch_end
  | terminate
  | evict
  | wait_io
  | end_task
  | resume
  | finish
  | timer_op
  | timer_closed
  | deadline
  | take_entry
  | kill
deriving DecidableEq

inductive Action where
  | tick (n : ℕ)
  | spawn (isolate budget : ℕ)
  | worker (w : ℕ) (a : WorkerAction)
deriving DecidableEq

def start : State := ⟨0, fun _ => ⟨0, none, false⟩, []⟩

/-- `InstanceHandle::do_remote_termination`. -/
def do_remote_termination (iso : Isolate) (x : Worker) (reason : Option TerminationReason) :
    Isolate × Worker :=
  if iso.generation = x.creation_generation then
    ({ iso with terminate_requested := true },
      { x with
        termination_reason := match reason with
          | some reason => if x.termination_reason = .unknown then reason else x.termination_reason
          | none => x.termination_reason })
  else (iso, x)

/-- A clone of the handle is dropped, and the handle itself with the last one. -/
def release (iso : Isolate) (x : Worker) (h : Holder) : Isolate × Worker :=
  if x.holders.erase h = [] then
    do_remote_termination iso { x with holders := [] } (some .cache_policy)
  else (iso, { x with holders := x.holders.erase h })

/-- The end of a job in `isolate_worker`. -/
def end_job (iso : Isolate) : Isolate := ⟨iso.generation + 1, none, false⟩

/-- A message of the instance to its monitor. -/
def timer_control (now : ℕ) (x : Worker) : TimerControl → Worker
  | .start => { x with deadline := some (now + x.budget) }
  | .stop =>
    { x with
      budget := match x.deadline with
        | some deadline => if now > deadline then 0 else deadline - now
        | none => x.budget
      deadline := none }
  | .reset => { x with budget := x.initial_budget }

/-- A step of the thread of the instance. -/
def thread_step (iso : Isolate) (x : Worker) : WorkerAction → Option (Isolate × Worker)
  | .fail_init =>
    if x.thread = .starting then
      let (iso, x) := release iso x .ready_callback
      some (end_job iso, { x with thread := .ended })
    else none
  | .ready delivered =>
    if x.thread = .starting ∧ .ready_callback ∈ x.holders then
      let x := { x with thread := .running, timer_rx := x.timer_rx ++ [.start] }
      if delivered then some (iso, { x with holders := .spawn :: x.holders.erase .ready_callback })
      else some (release iso x .ready_callback)
    else none
  | .wait_io =>
    if x.thread = .running then
      some (iso, { x with thread := .waiting, timer_rx := x.timer_rx ++ [.stop] })
    else none
  | .end_task =>
    if x.thread = .running then
      some (iso, { x with thread := .waiting, timer_rx := x.timer_rx ++ [.stop, .reset] })
    else none
  | .resume =>
    if x.thread = .waiting then
      some (iso, { x with thread := .running, timer_rx := x.timer_rx ++ [.start] })
    else none
  | .finish =>
    if x.thread = .running ∨ x.thread = .waiting then
      some (end_job iso, { x with thread := .ended })
    else none
  | _ => none

/-- A step of `monitor_task`. -/
def monitor_step (now : ℕ) (iso : Isolate) (x : Worker) : WorkerAction → Option (Isolate × Worker)
  | .timer_op =>
    match x.monitor, x.timer_rx with
    | .selecting, op :: ops => some (iso, timer_control now { x with timer_rx := ops } op)
    | _, _ => none
  | .timer_closed =>
    if x.monitor = .selecting ∧ x.timer_rx = [] ∧ x.thread = .ended then
      if .instances ∈ x.holders then
        some (release iso { x with monitor := .exited_by_stop } .instances)
      else some (iso, { x with monitor := .exited_by_stop })
    else none
  | .deadline =>
    if x.monitor = .selecting ∧ ∃ d ∈ x.deadline, d ≤ now then
      some (iso, { x with monitor := .timed_out })
    else none
  | .take_entry =>
    if x.monitor = .timed_out then
      if .instances ∈ x.holders then
        some (iso, { x with
          monitor := .killing
          holders := .monitor :: x.holders.erase .instances })
      else some (iso, { x with monitor := .exited_by_deadline })
    else none
  | .kill =>
    if x.monitor = .killing then
      let (iso, x) := do_remote_termination iso x (some .time_limit)
      some (release iso { x with monitor := .exited_by_deadline } .monitor)
    else none
  | _ => none

/-- A step of one worker: of `spawn`, of a fetch, of the map, of the thread of
the instance or of the monitor. -/
def worker_step (now : ℕ) (iso : Isolate) (x : Worker) (a : WorkerAction) :
    Option (Isolate × Worker) :=
  match a with
  | .cancel_spawn => if .spawn ∈ x.holders then some (release iso x .spawn) else none
  | .insert =>
    if .spawn ∈ x.holders ∧ x.monitor = .not_started then
      some (iso, { x with
        monitor := .selecting
        holders := .instances :: x.holders.erase .spawn })
    else none
  | .fetch =>
    if .instances ∈ x.holders then some (iso, { x with holders := .fetch :: x.holders }) else none
  | .fetch_end => if .fetch ∈ x.holders then some (release iso x .fetch) else none
  | .terminate | .evict =>
    if .instances ∈ x.holders then some (release iso x .instances) else none
  | .timer_op | .timer_closed | .deadline | .take_entry | .kill => monitor_step now iso x a
  | _ => thread_step iso x a

/-- `s` with another worker `w`, whose isolate is `iso`. -/
def State.set (s : State) (w : ℕ) (iso : Isolate) (x : Worker) : State :=
  { s with isolates := Function.update s.isolates x.isolate iso, workers := s.workers.set w x }

/-- `spawn` has taken isolate `i`, and `Instance::new` has made the handle. -/
def spawned (s : State) (i budget : ℕ) : State :=
  { s with
    isolates := Function.update s.isolates i { s.isolates i with running := some s.workers.length }
    workers := s.workers ++ [⟨i, (s.isolates i).generation, .starting, .unknown, [.ready_callback], [],
      budget, budget, none, .not_started⟩] }

/-- One step of the runtime. -/
def step (s : State) : Action → Option State
  | .tick n => some { s with now := s.now + n }
  | .spawn i budget => if (s.isolates i).running = none then some (spawned s i budget) else none
  | .worker w a =>
    match s.workers[w]? with
    | some x => (worker_step s.now (s.isolates x.isolate) x a).map fun r => s.set w r.1 r.2
    | none => none

/-- The runtime with its workers. -/
def machine : Machine State Action := ⟨step⟩

/-- The isolate still executes `Instance::run` of this worker. -/
def Worker.Live (x : Worker) : Prop := x.thread ≠ .ended

/-- No script runs whose monitor has left through its deadline branch, unless
its isolate has been told to terminate. -/
def Enforced (s : State) : Prop :=
  ∀ (w : ℕ) (x : Worker), s.workers[w]? = some x → x.monitor = .exited_by_deadline →
    x.thread = .running → (s.isolates x.isolate).terminate_requested = true

/-- A worker that its monitor has given up has been told to terminate, or is
over. -/
def Worker.Told (iso : Isolate) (x : Worker) : Prop :=
  x.monitor = .exited_by_deadline → x.Live → iso.terminate_requested = true

/-- `Enforced` with the workers that wait for a task or for I/O, and may go on
to run their script. -/
def EnforcedLive (s : State) : Prop :=
  ∀ (w : ℕ) (x : Worker), s.workers[w]? = some x → x.Told (s.isolates x.isolate)

/-- When a monitor that has timed out gets to the map, it finds the entry of its
worker there, or nobody holds the handle any more, or the worker is over. -/
def finds_entry (s : State) : Action → Prop
  | .worker w .take_entry =>
    ∀ x : Worker, s.workers[w]? = some x → x.Live → .instances ∈ x.holders ∨ x.holders = []
  | _ => True

/-- An isolate that is idle has nothing left of the last termination. -/
def Isolate.Clean (iso : Isolate) : Prop := iso.running = none → iso.terminate_requested = false

/-! ## The invariant of one worker -/

/-- What holds of a worker and its isolate in every state. -/
structure WorkerOk (iso : Isolate) (w : ℕ) (x : Worker) : Prop where
  here : x.Live → iso.running = some w ∧ iso.generation = x.creation_generation
  past : ¬ x.Live → x.creation_generation < iso.generation
  dropped : x.Live → x.holders = [] → iso.terminate_requested = true
  requested : x.Live → iso.terminate_requested = true →
    x.holders = [] ∨ x.monitor = .exited_by_deadline
  unknown : x.Live → iso.terminate_requested = false → x.termination_reason = .unknown
  killing : x.monitor = .killing → .monitor ∈ x.holders

/-- What a step of worker `w` leaves behind, for the worker itself and for the
others of its isolate. -/
structure StepOk (p : Prop) (iso : Isolate) (w : ℕ) (x : Worker) (r : Isolate × Worker) :
    Prop where
  ok : WorkerOk r.1 w r.2
  isolate : r.2.isolate = x.isolate
  others : r.1 = iso ∨ x.Live ∧ iso.generation ≤ r.1.generation ∧ r.1.Clean
  told : p → x.Told iso → r.2.Told r.1

section Local

variable {now : ℕ} {iso : Isolate} {w : ℕ} {x : Worker} {p : Prop}

/-- A step that leaves the isolate alone, and neither drops the handle nor lets
the monitor go. -/
theorem WorkerOk.moved (h : WorkerOk iso w x) {y : Worker} (hlive : y.Live ↔ x.Live)
    (hgen : y.creation_generation = x.creation_generation)
    (hreason : y.termination_reason = x.termination_reason)
    (hholders : y.holders = [] ↔ x.holders = [])
    (hexit : y.monitor = .exited_by_deadline ↔ x.monitor = .exited_by_deadline)
    (hkill : y.monitor = .killing → .monitor ∈ y.holders) : WorkerOk iso w y := by
  refine ⟨?_, ?_, ?_, ?_, ?_, hkill⟩
  · intro hy
    rw [hgen]
    exact h.here (hlive.1 hy)
  · intro hy
    rw [hgen]
    exact h.past fun hx => hy (hlive.2 hx)
  · intro hy hnone
    exact h.dropped (hlive.1 hy) (hholders.1 hnone)
  · intro hy hterm
    rw [hholders, hexit]
    exact h.requested (hlive.1 hy) hterm
  · intro hy hterm
    rw [hreason]
    exact h.unknown (hlive.1 hy) hterm

theorem StepOk.moved (h : WorkerOk iso w x) {y : Worker} (hlive : y.Live ↔ x.Live)
    (hiso : y.isolate = x.isolate) (hgen : y.creation_generation = x.creation_generation)
    (hreason : y.termination_reason = x.termination_reason)
    (hholders : y.holders = [] ↔ x.holders = [])
    (hexit : y.monitor = .exited_by_deadline ↔ x.monitor = .exited_by_deadline)
    (hkill : y.monitor = .killing → .monitor ∈ y.holders) : StepOk p iso w x (iso, y) where
  ok := h.moved hlive hgen hreason hholders hexit hkill
  isolate := hiso
  others := Or.inl rfl
  told := fun _ htold hy hl => htold (hexit.1 hy) (hlive.1 hl)

/-- A handle whose generation is over does nothing. -/
theorem do_remote_termination_past (h : x.creation_generation < iso.generation)
    (reason : Option TerminationReason) : do_remote_termination iso x reason = (iso, x) := by
  have hne : iso.generation ≠ x.creation_generation := by omega
  simp only [do_remote_termination, if_neg hne]

/-- The handle of a live worker reaches its isolate, and the first reason stays. -/
theorem do_remote_termination_live (h : iso.generation = x.creation_generation)
    (reason : TerminationReason) :
    do_remote_termination iso x (some reason) =
      ({ iso with terminate_requested := true },
        { x with termination_reason :=
            if x.termination_reason = .unknown then reason else x.termination_reason }) :=
  if_pos h

theorem busy_clean (h : iso.running = some w) : iso.Clean := by
  intro hnone
  rw [h] at hnone
  cases hnone

/-- A clone of the handle goes. -/
theorem release_ok (h : WorkerOk iso w x) (holder : Holder)
    (hkill : x.monitor = .killing → holder ≠ .monitor) :
    StepOk p iso w x (release iso x holder) := by
  have hstay : x.monitor = .killing → .monitor ∈ x.holders.erase holder := by
    intro hm
    exact (List.mem_erase_of_ne fun heq => hkill hm heq.symm).2 (h.killing hm)
  by_cases hnone : x.holders.erase holder = []
  · have hno : x.monitor ≠ .killing := by
      intro hm
      rw [hnone] at hstay
      cases hstay hm
    simp only [release, if_pos hnone]
    by_cases hlive : x.Live
    · have hbusy : Isolate.Clean { iso with terminate_requested := true } :=
        busy_clean (h.here hlive).1
      have hsent := do_remote_termination_live (x := { x with holders := [] }) (h.here hlive).2
        .cache_policy
      rw [hsent]
      exact {
        ok := {
          here := fun _ => h.here hlive
          past := fun hx => absurd hlive hx
          dropped := fun _ _ => rfl
          requested := fun _ _ => Or.inl rfl
          unknown := fun _ hfalse => nomatch hfalse
          killing := fun hm => absurd hm hno }
        isolate := rfl
        others := Or.inr ⟨hlive, le_rfl, hbusy⟩
        told := fun _ _ _ _ => rfl }
    · have hnothing := do_remote_termination_past (x := { x with holders := [] }) (h.past hlive)
        (some .cache_policy)
      rw [hnothing]
      exact {
        ok := {
          here := fun hx => absurd hx hlive
          past := h.past
          dropped := fun hx => absurd hx hlive
          requested := fun hx => absurd hx hlive
          unknown := fun hx => absurd hx hlive
          killing := fun hm => absurd hm hno }
        isolate := rfl
        others := Or.inl rfl
        told := fun _ htold => htold }
  · simp only [release, if_neg hnone]
    have hsome : x.holders ≠ [] := by
      intro hnil
      rw [hnil] at hnone
      exact hnone rfl
    exact StepOk.moved h Iff.rfl rfl rfl rfl ⟨fun hy => absurd hy hnone, fun hx => absurd hx hsome⟩
      Iff.rfl hstay

/-- The step of a worker that differs from `x` in nothing that matters here. -/
theorem StepOk.of_moved {y : Worker} {r : Isolate × Worker} (h : StepOk p iso w y r)
    (hlive : y.Live ↔ x.Live) (hiso : y.isolate = x.isolate)
    (hexit : y.monitor = .exited_by_deadline ↔ x.monitor = .exited_by_deadline) :
    StepOk p iso w x r where
  ok := h.ok
  isolate := h.isolate.trans hiso
  others := h.others.imp_right fun hy => ⟨hlive.1 hy.1, hy.2⟩
  told := fun hf htold => h.told hf fun hy hl => htold (hexit.1 hy) (hlive.1 hl)

theorem release_thread (holder : Holder) : (release iso x holder).2.thread = x.thread := by
  unfold release do_remote_termination
  split
  · split <;> rfl
  · rfl

theorem StepOk.trans {r r' : Isolate × Worker} (h : StepOk p iso w x r) (hlive : r.2.Live → x.Live)
    (h' : StepOk p r.1 w r.2 r') : StepOk p iso w x r' where
  ok := h'.ok
  isolate := h'.isolate.trans h.isolate
  others := by
    rcases h'.others with hsame | ⟨hl, hle, hclean⟩
    · rw [hsame]
      exact h.others
    · refine Or.inr ⟨hlive hl, ?_, hclean⟩
      rcases h.others with hiso | ⟨-, hle', -⟩
      · rwa [hiso] at hle
      · omega
  told := fun hf htold => h'.told hf (h.told hf htold)

/-- The isolate is given back, in its next generation. -/
theorem end_job_ok (h : WorkerOk iso w x) (hx : x.Live) :
    StepOk p iso w x (end_job iso, { x with thread := .ended }) := by
  have hover : ¬ Worker.Live { x with thread := .ended } := fun hl => hl rfl
  exact {
    ok := {
      here := fun hl => absurd hl hover
      past := fun _ => by
        have hgen := (h.here hx).2
        simp only [end_job]
        omega
      dropped := fun hl => absurd hl hover
      requested := fun hl => absurd hl hover
      unknown := fun hl => absurd hl hover
      killing := h.killing }
    isolate := rfl
    others := Or.inr ⟨hx, by simp only [end_job]; omega, fun _ => rfl⟩
    told := fun _ _ _ hl => absurd hl hover }

/-- A reason that has been given stays, and so does the request. -/
theorem release_keeps (hterm : iso.terminate_requested = true) (hreason : x.termination_reason ≠ .unknown)
    (holder : Holder) : (release iso x holder).1.terminate_requested = true
      ∧ (release iso x holder).2.termination_reason = x.termination_reason := by
  unfold release do_remote_termination
  split
  · split
    · exact ⟨rfl, rfl⟩
    · exact ⟨hterm, rfl⟩
  · exact ⟨hterm, rfl⟩

/-- The kill: a live worker is told to terminate, for its time limit. -/
theorem kill_ok (h : WorkerOk iso w x) {r : Isolate × Worker}
    (hs : monitor_step now iso x .kill = some r) :
    StepOk p iso w x r
      ∧ (x.Live → r.1.terminate_requested = true ∧ r.2.termination_reason = .time_limit) := by
  simp only [monitor_step, Option.ite_none_right_eq_some, Option.some.injEq] at hs
  obtain ⟨hm, rfl⟩ := hs
  have hheld := h.killing hm
  by_cases hlive : x.Live
  · -- nobody has told the isolate before: the monitor itself holds the handle
    have hquiet : iso.terminate_requested = false := by
      by_contra htrue
      rcases h.requested hlive (by simpa using htrue) with hnone | hexit
      · rw [hnone] at hheld
        cases hheld
      · rw [hm] at hexit
        cases hexit
    rw [do_remote_termination_live (h.here hlive).2, if_pos (h.unknown hlive hquiet)]
    dsimp only
    set y : Worker := { x with termination_reason := .time_limit, monitor := .exited_by_deadline }
      with hy
    have hok : WorkerOk { iso with terminate_requested := true } w y := {
      here := fun _ => h.here hlive
      past := fun hl => absurd hlive hl
      dropped := fun _ _ => rfl
      requested := fun _ _ => Or.inr rfl
      unknown := fun _ hfalse => nomatch hfalse
      killing := fun hk => nomatch hk }
    have hrel := release_ok (p := p) hok .monitor (fun hk => nomatch hk)
    refine ⟨⟨hrel.ok, hrel.isolate, Or.inr ⟨hlive, ?_⟩, fun hf _ => hrel.told hf fun _ _ => rfl⟩,
      fun _ => release_keeps rfl (x := y) TerminationReason.noConfusion .monitor⟩
    rcases hrel.others with hsame | ⟨-, hle, hclean⟩
    · rw [hsame]
      exact ⟨le_rfl, busy_clean (h.here hlive).1⟩
    · exact ⟨hle, hclean⟩
  · rw [do_remote_termination_past (h.past hlive)]
    dsimp only
    have hok : WorkerOk iso w { x with monitor := .exited_by_deadline } := {
      here := fun hl => absurd hl hlive
      past := h.past
      dropped := fun hl => absurd hl hlive
      requested := fun hl => absurd hl hlive
      unknown := fun hl => absurd hl hlive
      killing := fun hk => nomatch hk }
    have hrel := release_ok (p := p) hok .monitor (fun hk => nomatch hk)
    exact ⟨⟨hrel.ok, hrel.isolate, hrel.others, fun hf _ => hrel.told hf fun _ hl => absurd hl hlive⟩,
      fun hl => absurd hl hlive⟩

theorem timer_control_ok (h : WorkerOk iso w x) (op : TimerControl) :
    StepOk p iso w x (iso, timer_control now x op) := by
  cases op <;> exact StepOk.moved h Iff.rfl rfl rfl rfl Iff.rfl Iff.rfl h.killing

/-- One holder takes the place of another. -/
theorem replaced {holder new : Holder} (hheld : holder ∈ x.holders) :
    new :: x.holders.erase holder = [] ↔ x.holders = [] := by
  constructor
  · intro hnil
    cases hnil
  · intro hnil
    rw [hnil] at hheld
    cases hheld

theorem keeps_monitor {holder new : Holder} (h : .monitor ∈ x.holders) (hne : holder ≠ .monitor) :
    .monitor ∈ new :: x.holders.erase holder :=
  List.mem_cons_of_mem _ ((List.mem_erase_of_ne (Ne.symm hne)).2 h)

/-- The steps of the thread. -/
theorem thread_step_ok (h : WorkerOk iso w x) {a : WorkerAction} {r : Isolate × Worker}
    (hs : thread_step iso x a = some r) : StepOk p iso w x r := by
  cases a with
  | fail_init =>
      simp only [thread_step, Option.ite_none_right_eq_some, Option.some.injEq] at hs
      obtain ⟨ht, rfl⟩ := hs
      have hlive : x.Live := by simp [Worker.Live, ht]
      have hrel := release_ok (p := p) h .ready_callback
        (fun _ heq => nomatch heq)
      have hlive' : (release iso x .ready_callback).2.Live := by
        rwa [Worker.Live, release_thread]
      exact hrel.trans (fun _ => hlive) (end_job_ok hrel.ok hlive')
  | ready delivered =>
      simp only [thread_step, Option.ite_none_right_eq_some] at hs
      obtain ⟨⟨ht, hheld⟩, hs⟩ := hs
      have hmoved : WorkerOk iso w { x with thread := .running, timer_rx := x.timer_rx ++ [.start] } := by
        refine h.moved ?_ rfl rfl Iff.rfl Iff.rfl h.killing
        simp [Worker.Live, ht]
      cases delivered with
      | true =>
          cases hs
          refine StepOk.moved h ?_ rfl rfl rfl (replaced hheld) Iff.rfl fun hk => ?_
          · simp [Worker.Live, ht]
          · exact keeps_monitor (h.killing hk) (by decide)
      | false =>
          cases hs
          have hrel := release_ok (p := p) hmoved .ready_callback
            (fun _ heq => nomatch heq)
          refine hrel.of_moved ?_ rfl Iff.rfl
          simp [Worker.Live, ht]
  | wait_io | end_task | resume =>
      simp only [thread_step, Option.ite_none_right_eq_some, Option.some.injEq] at hs
      obtain ⟨ht, rfl⟩ := hs
      refine StepOk.moved h ?_ rfl rfl rfl Iff.rfl Iff.rfl h.killing
      simp [Worker.Live, ht]
  | finish =>
      simp only [thread_step, Option.ite_none_right_eq_some, Option.some.injEq] at hs
      obtain ⟨ht, rfl⟩ := hs
      refine end_job_ok h fun hover => ?_
      rw [hover] at ht
      simp at ht
  | _ => cases hs

/-- The steps of the monitor. -/
theorem monitor_step_ok (h : WorkerOk iso w x) {a : WorkerAction} {r : Isolate × Worker}
    (hf : a = .take_entry → p → x.Live → .instances ∈ x.holders ∨ x.holders = [])
    (hs : monitor_step now iso x a = some r) : StepOk p iso w x r := by
  cases a with
  | timer_op =>
      simp only [monitor_step] at hs
      split at hs
      · next op ops hm hrx =>
          cases hs
          have hmoved : WorkerOk iso w { x with timer_rx := ops } :=
            h.moved Iff.rfl rfl rfl Iff.rfl Iff.rfl h.killing
          exact (timer_control_ok hmoved op).of_moved Iff.rfl rfl Iff.rfl
      · cases hs
  | timer_closed =>
      simp only [monitor_step, Option.ite_none_right_eq_some] at hs
      obtain ⟨⟨hm, -, ht⟩, hs⟩ := hs
      have hmoved : WorkerOk iso w { x with monitor := .exited_by_stop } :=
        h.moved Iff.rfl rfl rfl Iff.rfl (by simp [hm]) fun hk => nomatch hk
      split at hs
      · cases hs
        have hrel := release_ok (p := p) hmoved .instances (fun hk => nomatch hk)
        exact hrel.of_moved Iff.rfl rfl (by simp [hm])
      · cases hs
        exact StepOk.moved h Iff.rfl rfl rfl rfl Iff.rfl (by simp [hm]) fun hk => nomatch hk
  | deadline =>
      simp only [monitor_step, Option.ite_none_right_eq_some, Option.some.injEq] at hs
      obtain ⟨⟨hm, -⟩, rfl⟩ := hs
      exact StepOk.moved h Iff.rfl rfl rfl rfl Iff.rfl (by simp [hm]) fun hk => nomatch hk
  | take_entry =>
      simp only [monitor_step, Option.ite_none_right_eq_some] at hs
      obtain ⟨hm, hs⟩ := hs
      split at hs
      · next hentry =>
          cases hs
          exact StepOk.moved h Iff.rfl rfl rfl rfl (replaced hentry) (by simp [hm])
            fun _ => List.mem_cons_self
      · next hentry =>
          -- the entry is gone: the monitor gives up
          cases hs
          exact {
            ok := {
              here := h.here
              past := h.past
              dropped := h.dropped
              requested := fun _ _ => Or.inr rfl
              unknown := h.unknown
              killing := fun hk => nomatch hk }
            isolate := rfl
            others := Or.inl rfl
            told := fun hp _ _ hlive => by
              rcases hf rfl hp hlive with hin | hnone
              · exact absurd hin hentry
              · exact h.dropped hlive hnone }
  | kill => exact (kill_ok h hs).1
  | _ => cases hs

/-- **The step lemma of one worker.** -/
theorem worker_step_ok (h : WorkerOk iso w x) {a : WorkerAction} {r : Isolate × Worker}
    (hf : a = .take_entry → p → x.Live → .instances ∈ x.holders ∨ x.holders = [])
    (hs : worker_step now iso x a = some r) : StepOk p iso w x r := by
  cases a with
  | cancel_spawn | fetch_end | terminate | evict =>
      simp only [worker_step, Option.ite_none_right_eq_some, Option.some.injEq] at hs
      obtain ⟨-, rfl⟩ := hs
      exact release_ok h _ fun _ heq => nomatch heq
  | insert =>
      simp only [worker_step, Option.ite_none_right_eq_some, Option.some.injEq] at hs
      obtain ⟨⟨hheld, hm⟩, rfl⟩ := hs
      exact StepOk.moved h Iff.rfl rfl rfl rfl (replaced hheld) (by simp [hm]) fun hk => nomatch hk
  | fetch =>
      simp only [worker_step, Option.ite_none_right_eq_some, Option.some.injEq] at hs
      obtain ⟨hentry, rfl⟩ := hs
      have hsome : .fetch :: x.holders = [] ↔ x.holders = [] := by
        constructor
        · intro hnil
          cases hnil
        · intro hnil
          rw [hnil] at hentry
          cases hentry
      exact StepOk.moved h Iff.rfl rfl rfl rfl hsome Iff.rfl
        fun hk => List.mem_cons_of_mem _ (h.killing hk)
  | timer_op | timer_closed | deadline | take_entry | kill =>
      simp only [worker_step] at hs
      exact monitor_step_ok h hf hs
  | _ =>
      simp only [worker_step] at hs
      exact thread_step_ok h hs

end Local

/-! ## All workers -/

/-- The invariant of the runtime. -/
structure Sound (s : State) : Prop where
  worker : ∀ (w : ℕ) (x : Worker), s.workers[w]? = some x → WorkerOk (s.isolates x.isolate) w x
  clean : ∀ i, (s.isolates i).Clean

theorem sound_start : Sound start where
  worker := by
    intro w x hx
    simp [start] at hx
  clean := fun _ _ => rfl

/-- A worker that is over does not mind the generations that follow. -/
theorem WorkerOk.later {iso iso' : Isolate} {w : ℕ} {x : Worker} (h : WorkerOk iso w x)
    (hx : ¬ x.Live) (hle : iso.generation ≤ iso'.generation) : WorkerOk iso' w x where
  here := fun hl => absurd hl hx
  past := fun _ => (h.past hx).trans_le hle
  dropped := fun hl => absurd hl hx
  requested := fun hl => absurd hl hx
  unknown := fun hl => absurd hl hx
  killing := h.killing

/-- After a step of worker `w`, another worker has the isolate that it had, or
is over and on the isolate of `w`. -/
theorem other_worker {s : State} (h : Sound s) {p : Prop} {w v : ℕ} {x y : Worker}
    {r : Isolate × Worker} (hx : s.workers[w]? = some x) (hy : s.workers[v]? = some y) (hne : v ≠ w)
    (hr : StepOk p (s.isolates x.isolate) w x r) :
    (s.set w r.1 r.2).isolates y.isolate = s.isolates y.isolate
      ∨ ¬ y.Live ∧ (s.isolates y.isolate).generation ≤ ((s.set w r.1 r.2).isolates y.isolate).generation := by
  by_cases hiso : y.isolate = x.isolate
  · have hset : (s.set w r.1 r.2).isolates y.isolate = r.1 := by
      simp [State.set, hr.isolate, hiso]
    rw [hset, hiso]
    refine hr.others.imp_right fun hother => ⟨fun hlive => ?_, hother.2.1⟩
    -- the thread of the isolate runs one worker
    have hw := ((h.worker w x hx).here hother.1).1
    have hv := ((h.worker v y hy).here hlive).1
    rw [hiso, hw] at hv
    exact hne (Option.some.inj hv).symm
  · left
    have hother : y.isolate ≠ r.2.isolate := by rwa [hr.isolate]
    simp only [State.set]
    rw [Function.update_of_ne hother]

theorem workers_set {s : State} {w v : ℕ} {iso : Isolate} {x x' y : Worker}
    (hx : s.workers[w]? = some x) (hy : (s.set w iso x').workers[v]? = some y) :
    v = w ∧ y = x' ∨ v ≠ w ∧ s.workers[v]? = some y := by
  simp only [State.set, List.getElem?_set] at hy
  by_cases hv : w = v
  · subst hv
    obtain ⟨hlt, -⟩ := List.getElem?_eq_some_iff.1 hx
    simp only [if_true, hlt, Option.some.injEq] at hy
    exact Or.inl ⟨rfl, hy.symm⟩
  · rw [if_neg hv] at hy
    exact Or.inr ⟨Ne.symm hv, hy⟩

/-- One worker steps, the others are as they were. -/
theorem sound_set {s : State} (h : Sound s) {p : Prop} {w : ℕ} {x : Worker} {r : Isolate × Worker}
    (hx : s.workers[w]? = some x) (hr : StepOk p (s.isolates x.isolate) w x r) :
    Sound (s.set w r.1 r.2) := by
  refine ⟨fun v y hy => ?_, fun i => ?_⟩
  · rcases workers_set hx hy with ⟨rfl, rfl⟩ | ⟨hne, hold⟩
    · have hset : (s.set v r.1 r.2).isolates r.2.isolate = r.1 := by simp [State.set]
      rw [hset]
      exact hr.ok
    · rcases other_worker h hx hold hne hr with hsame | ⟨hover, hle⟩
      · rw [hsame]
        exact h.worker v y hold
      · exact (h.worker v y hold).later hover hle
  · by_cases hi : i = r.2.isolate
    · subst hi
      have hset : (s.set w r.1 r.2).isolates r.2.isolate = r.1 := by simp [State.set]
      rw [hset]
      rcases hr.others with hsame | ⟨-, -, hclean⟩
      · rw [hsame]
        exact h.clean x.isolate
      · exact hclean
    · have hset : (s.set w r.1 r.2).isolates i = s.isolates i := by simp [State.set, hi]
      rw [hset]
      exact h.clean i

/-- … and if the worker has been told when its monitor gives it up, so has each. -/
theorem enforced_set {s : State} (h : Sound s) (he : EnforcedLive s) {p : Prop} (hp : p) {w : ℕ}
    {x : Worker} {r : Isolate × Worker} (hx : s.workers[w]? = some x)
    (hr : StepOk p (s.isolates x.isolate) w x r) : EnforcedLive (s.set w r.1 r.2) := by
  intro v y hy
  rcases workers_set hx hy with ⟨rfl, rfl⟩ | ⟨hne, hold⟩
  · have hset : (s.set v r.1 r.2).isolates r.2.isolate = r.1 := by simp [State.set]
    rw [hset]
    exact hr.told hp (he v x hx)
  · rcases other_worker h hx hold hne hr with hsame | ⟨hover, -⟩
    · rw [hsame]
      exact he v y hold
    · exact fun _ hlive => absurd hlive hover

/-- What a step can do: time passes, a worker is spawned on an idle isolate, or
one worker makes a step of its own. -/
theorem step_cases {s s' : State} {a : Action} (hs : machine.step s a = some s') :
    (∃ n, s' = { s with now := s.now + n })
    ∨ (∃ i budget, (s.isolates i).running = none ∧ s' = spawned s i budget)
    ∨ ∃ w b x r, a = .worker w b ∧ s.workers[w]? = some x
        ∧ worker_step s.now (s.isolates x.isolate) x b = some r ∧ s' = s.set w r.1 r.2 := by
  replace hs : step s a = some s' := hs
  cases a with
  | tick n =>
      cases hs
      exact Or.inl ⟨n, rfl⟩
  | spawn i budget =>
      simp only [step, Option.ite_none_right_eq_some, Option.some.injEq] at hs
      obtain ⟨hidle, rfl⟩ := hs
      exact Or.inr (Or.inl ⟨i, budget, hidle, rfl⟩)
  | worker w b =>
      simp only [step] at hs
      split at hs
      · next x hx =>
          obtain ⟨r, hr, rfl⟩ := Option.map_eq_some_iff.1 hs
          exact Or.inr (Or.inr ⟨w, b, x, r, rfl, hx, hr, rfl⟩)
      · cases hs

/-- An isolate that is taken has no live worker from before. -/
theorem spawned_other {s : State} (h : Sound s) {i budget v : ℕ} {y : Worker}
    (hidle : (s.isolates i).running = none) (hy : s.workers[v]? = some y) :
    (spawned s i budget).isolates y.isolate = s.isolates y.isolate
      ∨ ¬ y.Live
        ∧ ((spawned s i budget).isolates y.isolate).generation = (s.isolates y.isolate).generation := by
  by_cases hiso : y.isolate = i
  · refine Or.inr ⟨fun hlive => ?_, by simp [spawned, hiso]⟩
    have hrun := ((h.worker v y hy).here hlive).1
    rw [hiso, hidle] at hrun
    cases hrun
  · left
    simp only [spawned]
    rw [Function.update_of_ne hiso]

theorem workers_spawned {s : State} {i budget v : ℕ} {y : Worker}
    (hy : (spawned s i budget).workers[v]? = some y) :
    s.workers[v]? = some y ∨ v = s.workers.length ∧ y = ⟨i, (s.isolates i).generation, .starting,
      .unknown, [.ready_callback], [], budget, budget, none, .not_started⟩ := by
  simp only [spawned] at hy
  rcases Nat.lt_or_ge v s.workers.length with hlt | hge
  · rw [List.getElem?_append_left hlt] at hy
    exact Or.inl hy
  · rw [List.getElem?_append_right hge] at hy
    have hzero : v - s.workers.length = 0 := by
      by_contra hne
      rw [List.getElem?_eq_none (by simp; omega)] at hy
      cases hy
    rw [hzero] at hy
    exact Or.inr ⟨by omega, (Option.some.inj hy).symm⟩

theorem sound_spawned {s : State} (h : Sound s) {i : ℕ} (budget : ℕ)
    (hidle : (s.isolates i).running = none) : Sound (spawned s i budget) := by
  have hquiet := h.clean i hidle
  refine ⟨fun v y hy => ?_, fun j => ?_⟩
  · rcases workers_spawned hy with hold | ⟨rfl, rfl⟩
    · rcases spawned_other h hidle hold with hsame | ⟨hover, hgen⟩
      · rw [hsame]
        exact h.worker v y hold
      · exact (h.worker v y hold).later hover hgen.ge
    · have hset : (spawned s i budget).isolates i
          = { s.isolates i with running := some s.workers.length } := by simp [spawned]
      dsimp only
      rw [hset]
      exact {
        here := fun _ => ⟨rfl, rfl⟩
        past := fun hover => absurd ThreadPc.noConfusion hover
        dropped := fun _ hnil => nomatch hnil
        requested := fun _ hterm => absurd hterm (by simp [hquiet])
        unknown := fun _ _ => rfl
        killing := fun hk => nomatch hk }
  · by_cases hj : j = i
    · subst hj
      have hset : (spawned s j budget).isolates j
          = { s.isolates j with running := some s.workers.length } := by simp [spawned]
      rw [hset]
      exact busy_clean rfl
    · have hset : (spawned s i budget).isolates j = s.isolates j := by simp [spawned, hj]
      rw [hset]
      exact h.clean j

theorem enforced_spawned {s : State} (h : Sound s) (he : EnforcedLive s) {i : ℕ} (budget : ℕ)
    (hidle : (s.isolates i).running = none) : EnforcedLive (spawned s i budget) := by
  intro v y hy
  rcases workers_spawned hy with hold | ⟨rfl, rfl⟩
  · rcases spawned_other h hidle hold with hsame | ⟨hover, -⟩
    · rw [hsame]
      exact he v y hold
    · exact fun _ hlive => absurd hlive hover
  · intro hexit
    cases hexit

/-- The step lemma. -/
theorem sound_step (s : State) (a : Action) (s' : State) (h : Sound s)
    (hs : machine.step s a = some s') : Sound s' := by
  rcases step_cases hs with ⟨n, rfl⟩ | ⟨i, budget, hidle, rfl⟩ | ⟨w, b, x, r, -, hx, hr, rfl⟩
  · exact ⟨h.worker, h.clean⟩
  · exact sound_spawned h budget hidle
  · exact sound_set h hx (worker_step_ok (p := False) (h.worker w x hx) (fun _ hf => hf.elim) hr)

/-- The step lemma of the time limit. -/
theorem enforced_step (s : State) (a : Action) (s' : State) (h : Sound s ∧ EnforcedLive s)
    (hc : finds_entry s a) (hs : machine.step s a = some s') : Sound s' ∧ EnforcedLive s' := by
  refine ⟨sound_step s a s' h.1 hs, ?_⟩
  rcases step_cases hs with ⟨n, rfl⟩ | ⟨i, budget, hidle, rfl⟩ | ⟨w, b, x, r, rfl, hx, hr, rfl⟩
  · exact h.2
  · exact enforced_spawned h.1 h.2 budget hidle
  · refine enforced_set h.1 h.2 trivial hx (worker_step_ok (h.1.worker w x hx) ?_ hr)
    rintro rfl _ hlive
    exact hc x hx hlive

/-- The monitor finds no entry, and somebody holds the handle: it gives up, and
nobody tells the isolate. -/
theorem gives_up {s : State} {a : Action} {s' : State} (h : Sound s) (hc : ¬ finds_entry s a)
    (hs : machine.step s a = some s') :
    ∃ w x, a = .worker w .take_entry ∧ s.workers[w]? = some x ∧ x.Live
      ∧ s'.workers[w]? = some { x with monitor := .exited_by_deadline }
      ∧ (s'.isolates x.isolate).terminate_requested = false := by
  rcases a with n | ⟨i, budget⟩ | ⟨w, b⟩
  · exact absurd trivial hc
  · exact absurd trivial hc
  cases b with
  | take_entry =>
      simp only [finds_entry, not_forall, not_or] at hc
      obtain ⟨x, hx, hlive, hentry, hheld⟩ := hc
      replace hs : step s (.worker w .take_entry) = some s' := hs
      simp only [step, hx, worker_step, monitor_step, if_neg hentry, Option.map_if] at hs
      simp only [Option.ite_none_right_eq_some, Option.some.injEq] at hs
      obtain ⟨hm, rfl⟩ := hs
      obtain ⟨hlt, -⟩ := List.getElem?_eq_some_iff.1 hx
      refine ⟨w, x, rfl, hx, hlive, by simp [State.set, hlt], ?_⟩
      -- whoever has told the isolate has left no holder, or is this monitor
      by_contra htrue
      have hterm : (s.isolates x.isolate).terminate_requested = true := by
        simpa [State.set] using htrue
      rcases (h.worker w x hx).requested hlive hterm with hnone | hexit
      · exact hheld hnone
      · rw [hm] at hexit
        cases hexit
  | _ => exact absurd trivial hc

theorem not_enforced_of_gives_up (s : State) (a : Action) (s' : State) (h : Sound s ∧ EnforcedLive s)
    (hc : ¬ finds_entry s a) (hs : machine.step s a = some s') : ¬ EnforcedLive s' := by
  intro he
  obtain ⟨w, x, -, -, hlive, hx', hquiet⟩ := gives_up h.1 hc hs
  have htold := he w _ hx' rfl hlive
  dsimp only at htold
  rw [hquiet] at htold
  cases htold

theorem EnforcedLive.enforced {s : State} (h : EnforcedLive s) : Enforced s := by
  intro w x hx hexit hrun
  refine h w x hx hexit ?_
  rw [Worker.Live, hrun]
  exact ThreadPc.noConfusion

/-- **When the time limit is enforced.** No worker runs, or may go on to run,
its script with nobody left to stop it, in every state of a run, if and only if
each monitor that times out finds the entry of its worker in the map, unless the
handle has been dropped altogether. Otherwise a fetch in flight keeps the handle
alive, and a script that runs at that moment runs on. A monitor that does find
the entry terminates the script for its time limit. -/
theorem time_limit_enforced_iff (as : List Action) :
    (machine.Always EnforcedLive start as ↔ machine.Meets finds_entry start as)
    ∧ (machine.Meets finds_entry start as → machine.Always Enforced start as)
    ∧ (∀ s a s', machine.run start as = some s → ¬ finds_entry s a → machine.step s a = some s' →
        ∃ w x, a = .worker w .take_entry ∧ s.workers[w]? = some x
          ∧ (x.thread = .running → ¬ Enforced s'))
    ∧ ∀ s w x s', machine.run start as = some s → s.workers[w]? = some x → x.Live →
        machine.step s (.worker w .kill) = some s' →
        ∃ x', s'.workers[w]? = some x' ∧ x'.termination_reason = .time_limit
          ∧ (s'.isolates x.isolate).terminate_requested = true := by
  have hstart : Sound start ∧ EnforcedLive start := by
    refine ⟨sound_start, fun w x hx => ?_⟩
    simp [start] at hx
  refine ⟨?_, ?_, ?_, ?_⟩
  · exact machine.always_iff_meets (fun _ h => h.2) enforced_step not_enforced_of_gives_up hstart
  · exact machine.always_of_meets (fun _ h => h.2.enforced) enforced_step hstart
  · intro s a s' hrun hc hs
    have hsound := machine.run_invariant sound_step sound_start hrun
    obtain ⟨w, x, ha, hx, -, hx', hquiet⟩ := gives_up hsound hc hs
    refine ⟨w, x, ha, hx, fun hthread he => ?_⟩
    have htold := he w _ hx' rfl hthread
    dsimp only at htold
    rw [hquiet] at htold
    cases htold
  · intro s w x s' hrun hx hlive hs
    have hsound := machine.run_invariant sound_step sound_start hrun
    replace hs : step s (.worker w .kill) = some s' := hs
    simp only [step, hx, worker_step] at hs
    obtain ⟨r, hr, rfl⟩ := Option.map_eq_some_iff.1 hs
    obtain ⟨hok, hkilled⟩ := kill_ok (p := False) (hsound.worker w x hx) hr
    obtain ⟨hlt, -⟩ := List.getElem?_eq_some_iff.1 hx
    refine ⟨r.2, by simp [State.set, hlt], (hkilled hlive).2, ?_⟩
    simpa [State.set, hok.isolate] using (hkilled hlive).1

/-- A fetch is in flight and its script runs. The worker is terminated by its
handle, which takes the entry off the map, and then the time is over. -/
def terminated_under_fetch : List Action :=
  [.spawn 0 50, .worker 0 (.ready true), .worker 0 .insert, .worker 0 .fetch, .worker 0 .end_task,
    .worker 0 .resume, .worker 0 .timer_op, .worker 0 .timer_op, .worker 0 .timer_op,
    .worker 0 .timer_op, .worker 0 .terminate, .tick 50, .worker 0 .deadline,
    .worker 0 .take_entry]

theorem script_runs_on :
    ∃ s, machine.run start terminated_under_fetch = some s
      ∧ (∃ x, s.workers[0]? = some x ∧ x.thread = .running ∧ x.monitor = .exited_by_deadline
          ∧ (s.isolates x.isolate).terminate_requested = false)
      ∧ ¬ Enforced s := by
  refine ⟨_, rfl, ⟨_, rfl, rfl, rfl, rfl⟩, fun h => ?_⟩
  cases h 0 _ rfl rfl rfl

end Monitor

end RustyWorkers

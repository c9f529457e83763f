/-
The CPU time of a worker: the commands of `Instance::run` and the budget of
`Runtime::monitor_task`, on one clock.

`run` sends `Start`, `Stop` and `Reset` to its monitor, which takes each of them
up at the moment it is sent. The log of these commands, the latest one first, is
read by no step. `charged` says what the log is worth: the time between each
`Start` and its `Stop`, since the last `Reset`. `Account` is what one command and
the passing of time keep between this and the two variables of the monitor, and
`run` sends the commands in an order in which it does.
-/
import RustyWorkers.ExecutionTokens
import RustyWorkers.Monitor

set_option autoImplicit false

namespace RustyWorkers

open Lib

namespace Executor

/-! ## The commands of `Instance::run` -/

variable {ι : Type}

/-- `run` is over. -/
def Pc.over : Pc ι → Bool
  | .exited | .cleaned => true
  | _ => false

/-- The states between `start_timer` and the next `stop_timer`. In the others
`run` waits for a task, for I/O or for a token, or has not come to the script. -/
def Pc.on_clock : Pc ι → Bool
  | .script | .script_check | .loop_top | .dispatching _ | .event | .checking | .calling | .callback
  | .finishing => true
  | _ => false

theorem Pc.Moves.on_clock {pc pc' : Pc ι} (h : pc.Moves pc') :
    pc.over = false ∧ pc'.over = false ∧ pc'.on_clock = pc.on_clock := by
  cases h <;> exact ⟨rfl, rfl, rfl⟩

/-- What a step of an instance sends to the monitor. -/
inductive Sends (s s' : Instance ι) : Action ι → List Monitor.TimerControl → Prop
  | nothing {a : Action ι} (clock : s'.pc.over = false → s.pc.over = false ∧ s'.pc.on_clock = s.pc.on_clock) :
      Sends s s' a []
  | start {a : Action ι} (running : s.pc.over = false) (off : s.pc.on_clock = false) (on : s'.pc.on_clock = true) :
      Sends s s' a [.start]
  | stop {a : Action ι} (running : s.pc.over = false) (on : s.pc.on_clock = true) (off : s'.pc.on_clock = false) :
      Sends s s' a [.stop]
  | next_task (top : s.pc = .loop_top) (receiving : s'.pc = .receiving) : Sends s s' .next_task [.stop, .reset]

/-- A step that sends nothing. -/
theorem Sends.none {s s' : Instance ι} {a : Action ι} (htimer : s'.timer_tx = s.timer_tx)
    (hclock : s'.pc.over = false → s.pc.over = false ∧ s'.pc.on_clock = s.pc.on_clock) :
    ∃ ops, s'.timer_tx = s.timer_tx ++ ops ∧ Sends s s' a ops :=
  ⟨[], by rw [htimer, List.append_nil], .nothing hclock⟩

variable [DecidableEq ι] {tokens : ℕ} {s : Instance ι} {a : Action ι} {r : ℕ × Instance ι}

theorem Instance.step_sends (h : s.step tokens a = some r) :
    ∃ ops, r.2.timer_tx = s.timer_tx ++ ops ∧ Sends s r.2 a ops := by
  cases step_effect h with
  | fetch | enqueue | refuse | cancel | drop_handle | done => exact Sends.none rfl fun hover => ⟨hover, rfl⟩
  | respond user =>
    refine Sends.none (s.timer_try_send _) fun hover => ?_
    rw [s.pc_try_send] at hover ⊢
    exact ⟨hover, rfl⟩
  | start pc | ready pc | recv pc | dispatch pc | resumes pc =>
    refine Sends.none rfl fun _ => ?_
    rw [pc]
    exact ⟨rfl, rfl⟩
  | recovers pc | finish pc =>
    refine Sends.none (s.timer_try_send _) fun _ => ?_
    rw [pc]
    exact ⟨rfl, rfl⟩
  | moves hmoves =>
    obtain ⟨hover, -, hclock⟩ := hmoves.on_clock
    exact Sends.none rfl fun _ => ⟨hover, hclock⟩
  | run pc | populate pc | call pc =>
    refine ⟨_, rfl, .start ?_ ?_ rfl⟩
    · rw [pc]
      rfl
    · rw [pc]
      rfl
  | wait_io pc =>
    refine ⟨_, rfl, .stop ?_ ?_ rfl⟩
    · rw [pc]
      rfl
    · rw [pc]
      rfl
  | next_task pc => exact ⟨_, List.append_assoc _ _ _, .next_task pc rfl⟩
  | exits | cleanup => exact Sends.none rfl fun hover => nomatch hover
  | fails => exact Sends.none (s.timer_try_send _) fun hover => nomatch hover

end Executor

namespace CpuBudget

open Monitor (TimerControl)
open Executor (Instance Pc)

/-! ## Commands in time -/

/-- Commands with the time they were sent at, the latest one first. -/
abbrev Log := List (ℕ × TimerControl)

/-- The last command is `Start`. -/
def Log.on : Log → Bool
  | (_, .start) :: _ => true
  | _ => false

/-- The time between `Start` and `Stop` since the last `Reset`; a `Start` that
has no `Stop` yet counts up to `now`. -/
def Log.charged (now : ℕ) : Log → ℕ
  | [] => 0
  | (t, .start) :: log => now - t + Log.charged t log
  | (t, .stop) :: log => Log.charged t log
  | (_, .reset) :: _ => 0

/-- A command may be sent after the log: `Start` and `Stop` alternate, and
`Reset` comes only while stopped. -/
def Log.Allows (log : Log) : TimerControl → Prop
  | .start | .reset => log.on = false
  | .stop => log.on = true

def Log.Alternates : Log → Prop
  | [] => True
  | (_, op) :: log => Log.Alternates log ∧ Log.Allows log op

/-- The last command is not in the future. -/
def Log.Past (log : Log) (now : ℕ) : Prop := ∀ e ∈ log.head?, e.1 ≤ now

/-- The time that passes is charged when the timer is on. -/
theorem Log.charged_add {log : Log} {now : ℕ} (h : log.Past now) (n : ℕ) :
    log.charged (now + n) = log.charged now + if log.on then n else 0 := by
  unfold Log.charged Log.on
  split
  · rfl
  · rename_i t log
    have hpast : t ≤ now := h (t, .start) rfl
    rw [if_pos rfl]
    omega
  · rfl
  · rfl

/-- What is left to the worker in the eyes of its monitor. -/
def remaining (now : ℕ) (x : Monitor.Worker) : ℕ :=
  match x.deadline with
  | some deadline => deadline - now
  | none => x.budget

/-- The monitor has what the log has left of the budget. -/
structure Account (max_time now : ℕ) (x : Monitor.Worker) (log : Log) : Prop where
  initial : x.initial_budget = max_time
  deadline : x.deadline.isSome = log.on
  remaining : remaining now x = max_time - log.charged now

section Account

variable {max_time now : ℕ} {x : Monitor.Worker} {log : Log}

theorem Account.tick (h : Account max_time now x log) (hpast : log.Past now) (n : ℕ) :
    Account max_time (now + n) x log := by
  have hdeadline := h.deadline
  have hremaining := h.remaining
  refine ⟨h.initial, hdeadline, ?_⟩
  rw [log.charged_add hpast]
  unfold CpuBudget.remaining at hremaining ⊢
  split at hremaining
  · rename_i d hd
    rw [hd, Option.isSome_some] at hdeadline
    rw [← hdeadline, if_pos rfl]
    omega
  · rename_i hd
    rw [hd, Option.isSome_none] at hdeadline
    rw [← hdeadline, if_neg Bool.false_ne_true]
    omega

/-- The monitor takes up a command that may be sent. -/
theorem Account.control (h : Account max_time now x log) {op : TimerControl} (hallows : log.Allows op) :
    Account max_time now (Monitor.timer_control now x op) ((now, op) :: log) := by
  have hdeadline := h.deadline
  have hremaining := h.remaining
  unfold CpuBudget.remaining at hremaining
  cases op with
  | start =>
      -- the timer is off, and what is left is the budget
      rw [hallows, Option.isSome_eq_false_iff, Option.isNone_iff_eq_none] at hdeadline
      simp only [hdeadline] at hremaining
      refine ⟨h.initial, rfl, ?_⟩
      show now + x.budget - now = max_time - (now - now + log.charged now)
      omega
  | stop =>
      -- the timer is on, and what is left is up to the deadline
      rw [hallows, Option.isSome_iff_exists] at hdeadline
      obtain ⟨d, hd⟩ := hdeadline
      simp only [hd] at hremaining
      refine ⟨h.initial, rfl, ?_⟩
      simp only [Monitor.timer_control, CpuBudget.remaining, hd, Log.charged]
      split
      · omega
      · exact hremaining
  | reset =>
      rw [hallows, Option.isSome_eq_false_iff, Option.isNone_iff_eq_none] at hdeadline
      refine ⟨h.initial, ?_, ?_⟩
      · simp only [Monitor.timer_control, hdeadline, Option.isSome_none, Log.on]
      · simp only [Monitor.timer_control, CpuBudget.remaining, hdeadline, Log.charged]
        exact h.initial

/-- The deadline is not there before the budget is used up. -/
theorem Account.spent (h : Account max_time now x log) {d : ℕ} (hd : d ∈ x.deadline) (hle : d ≤ now) :
    max_time ≤ log.charged now := by
  have hremaining := h.remaining
  rw [CpuBudget.remaining, Option.mem_def.1 hd] at hremaining
  dsimp only at hremaining
  omega

end Account

/-! ## The worker and its monitor -/

variable {ι : Type}

/-- An instance with its monitor. -/
structure State (ι : Type) where
  now : ℕ
  inst : Instance ι
  isolate : Monitor.Isolate
  worker : Monitor.Worker
  log : Log

inductive Action (ι : Type) where
  | tick (n : ℕ)
  | run (tokens : ℕ) (a : Executor.Action ι)
  | deadline

/-- `Instance::new`, and the monitor that `Runtime::spawn` starts for it with
`max_time_ms`. -/
def start (max_time : ℕ) : State ι :=
  ⟨0, .new, ⟨0, some 0, false⟩,
    ⟨0, 0, .starting, .unknown, [.instances], [], max_time, max_time, none, .selecting⟩, []⟩

/-- A command is sent, and the monitor takes it up at once, when it is still
there. -/
def State.send (s : State ι) (op : TimerControl) : State ι :=
  { s with
    worker :=
      match Monitor.monitor_step s.now s.isolate { s.worker with timer_rx := [op] } .timer_op with
      | some r => r.2
      | none => s.worker
    log := (s.now, op) :: s.log }

/-- What the commands keep. -/
structure Kept (max_time : ℕ) (s : State ι) : Prop where
  account : s.worker.monitor = .selecting → Account max_time s.now s.worker s.log
  alternates : s.log.Alternates
  past : s.log.Past s.now

/-- The invariant: the log is what `run` has sent, and says whether `run` is on
the clock. -/
structure Exact (max_time : ℕ) (s : State ι) : Prop extends Kept max_time s where
  sent : s.inst.timer_tx = (s.log.map Prod.snd).reverse
  clock : s.inst.pc.over = false → s.log.on = s.inst.pc.on_clock

section Commands

variable {max_time : ℕ} {s : State ι}

theorem send_selecting (h : s.worker.monitor = .selecting) (op : TimerControl) :
    (s.send op).worker = Monitor.timer_control s.now { s.worker with timer_rx := [] } op := by
  simp only [State.send, Monitor.monitor_step, h]

theorem send_gone (h : s.worker.monitor ≠ .selecting) (op : TimerControl) : (s.send op).worker = s.worker := by
  simp only [State.send, Monitor.monitor_step]
  split
  · rename_i hr
    split at hr
    · exact absurd ‹_› h
    · cases hr
  · rfl

theorem send_monitor (s : State ι) (op : TimerControl) : (s.send op).worker.monitor = s.worker.monitor := by
  by_cases h : s.worker.monitor = .selecting
  · rw [send_selecting h]
    cases op <;> rfl
  · rw [send_gone h]

theorem Kept.send (h : Kept max_time s) (op : TimerControl) (hallows : s.log.Allows op) :
    Kept max_time (s.send op) where
  account := by
    intro hselecting
    rw [send_monitor] at hselecting
    -- what is in the channel does not matter to the account
    have haccount := h.account hselecting
    have htaken : Account max_time s.now { s.worker with timer_rx := [] } s.log :=
      ⟨haccount.initial, haccount.deadline, haccount.remaining⟩
    rw [send_selecting hselecting]
    exact htaken.control hallows
  alternates := ⟨h.alternates, hallows⟩
  past := by
    intro e he
    obtain rfl := Option.some.inj he
    exact le_rfl

theorem foldl_send (ops : List TimerControl) (s : State ι) :
    (ops.foldl State.send s).inst = s.inst
    ∧ ((ops.foldl State.send s).log.map Prod.snd).reverse = (s.log.map Prod.snd).reverse ++ ops := by
  induction ops generalizing s with
  | nil => simp
  | cons op ops ih =>
      obtain ⟨hinst, hlog⟩ := ih (s.send op)
      refine ⟨hinst, ?_⟩
      rw [List.foldl_cons, hlog]
      simp [State.send]

/-- The commands of one step of `run` are in order, and leave the timer as the
place of `run` says. -/
theorem Exact.sends (h : Exact max_time s) {inst : Instance ι} {a : Executor.Action ι} {ops : List TimerControl}
    (hops : Executor.Sends s.inst inst a ops) :
    Kept max_time (ops.foldl State.send { s with inst := inst })
    ∧ (inst.pc.over = false → (ops.foldl State.send { s with inst := inst }).log.on = inst.pc.on_clock) := by
  have hkept : Kept max_time { s with inst := inst } := ⟨h.account, h.alternates, h.past⟩
  cases hops with
  | nothing clock =>
    refine ⟨hkept, fun hover => ?_⟩
    obtain ⟨hbefore, hclock⟩ := clock hover
    exact (h.clock hbefore).trans hclock.symm
  | start running off on =>
    have hoff : s.log.on = false := (h.clock running).trans off
    exact ⟨hkept.send .start hoff, fun _ => on.symm⟩
  | stop running on off =>
    have hon : s.log.on = true := (h.clock running).trans on
    exact ⟨hkept.send .stop hon, fun _ => off.symm⟩
  | next_task top receiving =>
    -- the timer runs at the top of the loop, and `Reset` comes after its `Stop`
    have hon : s.log.on = true := by
      rw [h.clock (by rw [top]; rfl), top]
      rfl
    have hstop := hkept.send .stop hon
    refine ⟨hstop.send .reset rfl, fun _ => ?_⟩
    rw [receiving]
    rfl

end Commands

/-! ## Runs -/

variable [DecidableEq ι]

def step (s : State ι) : Action ι → Option (State ι)
  | .tick n => some { s with now := s.now + n }
  | .run tokens a =>
    (s.inst.step tokens a).map fun r =>
      (r.2.timer_tx.drop s.inst.timer_tx.length).foldl State.send { s with inst := r.2 }
  | .deadline =>
    (Monitor.monitor_step s.now s.isolate s.worker .deadline).map fun r =>
      { s with isolate := r.1, worker := r.2 }

/-- A worker on one clock with its monitor; other workers give and take the
tokens. -/
def machine (ι : Type) [DecidableEq ι] : Machine (State ι) (Action ι) := ⟨step⟩

section Runs

variable {max_time : ℕ} {s s' : State ι}

omit [DecidableEq ι] in
theorem exact_start (max_time : ℕ) : Exact max_time (start max_time : State ι) where
  account := fun _ => ⟨rfl, rfl, rfl⟩
  alternates := trivial
  past := fun _ he => nomatch he
  sent := rfl
  clock := fun _ => rfl

/-- A step of `run` with the commands that it sends. -/
theorem run_cases {tokens : ℕ} {a : Executor.Action ι} (h : step s (.run tokens a) = some s') :
    ∃ inst ops, inst.timer_tx = s.inst.timer_tx ++ ops ∧ Executor.Sends s.inst inst a ops
      ∧ s' = ops.foldl State.send { s with inst := inst } := by
  obtain ⟨r, hr, rfl⟩ := Option.map_eq_some_iff.1 h
  obtain ⟨ops, htimer, hops⟩ := Instance.step_sends hr
  refine ⟨r.2, ops, htimer, hops, ?_⟩
  rw [htimer, List.drop_left]

/-- The step lemma. -/
theorem Exact.step (h : Exact max_time s) {a : Action ι} (hs : step s a = some s') : Exact max_time s' := by
  cases a with
  | tick n =>
    obtain rfl := Option.some.inj hs
    refine ⟨⟨fun hselecting => (h.account hselecting).tick h.past n, h.alternates, ?_⟩, h.sent, h.clock⟩
    exact fun e he => (h.past e he).trans (Nat.le_add_right _ _)
  | run tokens a =>
    obtain ⟨inst, ops, htimer, hops, rfl⟩ := run_cases hs
    obtain ⟨hkept, hclock⟩ := h.sends hops
    obtain ⟨hinst, hlog⟩ := foldl_send ops { s with inst := inst }
    refine ⟨hkept, ?_, ?_⟩
    · rw [hinst, hlog, htimer, h.sent]
    · rw [hinst]
      exact hclock
  | deadline =>
    obtain ⟨r, hr, rfl⟩ := Option.map_eq_some_iff.1 hs
    obtain ⟨-, hr⟩ := Option.ite_none_right_eq_some.1 hr
    obtain rfl := Option.some.inj hr
    exact ⟨⟨(fun hselecting => nomatch hselecting), h.alternates, h.past⟩, h.sent, h.clock⟩

theorem Exact.run {as : List (Action ι)} (h : (machine ι).run (start max_time) as = some s) : Exact max_time s :=
  (machine ι).run_invariant (fun _ _ _ hi hs => hi.step hs) (exact_start max_time) h

/-- Only the next task gives time back. -/
theorem charged_mono (h : Exact max_time s) {a : Action ι} (hs : step s a = some s')
    (ha : ∀ tokens, a ≠ .run tokens .next_task) : s.log.charged s.now ≤ s'.log.charged s'.now := by
  cases a with
  | tick n =>
    obtain rfl := Option.some.inj hs
    have hadd := s.log.charged_add h.past n
    dsimp only
    omega
  | run tokens a =>
    obtain ⟨inst, ops, htimer, hops, rfl⟩ := run_cases hs
    cases hops with
    | nothing | stop => exact le_rfl
    | start =>
      show s.log.charged s.now ≤ s.now - s.now + s.log.charged s.now
      omega
    | next_task => exact absurd rfl (ha tokens)
  | deadline =>
    obtain ⟨r, hr, rfl⟩ := Option.map_eq_some_iff.1 hs
    exact le_rfl

end Runs

/-- **CPU budget accounting is exact.** In every run of an instance with its
monitor, over any number of tasks and waits and with any time between the steps:
what the monitor has left is `max_time_ms` less what the log of the commands
charges; the deadline branch is taken only when all of it has been charged;
`Start` and `Stop` alternate and `Reset` comes only while stopped; the time that
passes is charged when `run` is on the clock, and only then; and what has been
charged is given back only by the step to the next task. -/
theorem cpu_budget_exact (max_time : ℕ) (as : List (Action ι)) (s : State ι)
    (h : (machine ι).run (start max_time) as = some s) :
    s.inst.timer_tx = (s.log.map Prod.snd).reverse
    ∧ (s.worker.monitor = .selecting → remaining s.now s.worker = max_time - s.log.charged s.now)
    ∧ (∀ s', step s .deadline = some s' → max_time ≤ s.log.charged s.now)
    ∧ s.log.Alternates
    ∧ (s.inst.pc.over = false → ∀ n,
        s.log.charged (s.now + n) = s.log.charged s.now + if s.inst.pc.on_clock then n else 0)
    ∧ ∀ a s', step s a = some s' → (∀ tokens, a ≠ .run tokens .next_task) →
        s.log.charged s.now ≤ s'.log.charged s'.now := by
  have hexact := Exact.run h
  refine ⟨hexact.sent, fun hselecting => (hexact.account hselecting).remaining, ?_, hexact.alternates, ?_,
    fun a s' hs ha => charged_mono hexact hs ha⟩
  · intro s' hs
    obtain ⟨r, hr, rfl⟩ := Option.map_eq_some_iff.1 hs
    obtain ⟨⟨hselecting, d, hd, hle⟩, -⟩ := Option.ite_none_right_eq_some.1 hr
    exact (hexact.account hselecting).spent hd hle
  · intro hover n
    rw [s.log.charged_add hexact.past, hexact.clock hover]

/-- A worker that starts, runs its script for 3, waits for a task for 10, and
handles it for 4, of which it waits 2 for I/O. -/
def one_task : List (Action ℕ) :=
  [.run 1 (.acquire true), .run 0 (.initialized true), .run 0 (.check none), .tick 3, .run 0 (.returned true),
    .run 0 (.check none), .run 0 .next_task, .run 1 (.fetch 0), .run 1 (.enqueue 0), .tick 10, .run 1 .recv,
    .run 1 (.acquire true), .run 0 (.dispatch true), .tick 1, .run 0 (.returned true), .run 0 (.check none),
    .tick 2, .run 1 (.wait true), .run 1 (.acquire true), .run 0 (.arguments true), .tick 1]

theorem cpu_budget_exact_one_task :
    ∃ s : State ℕ, (machine ℕ).run (start 5) one_task = some s ∧ s.now = 17 ∧ remaining s.now s.worker = 3 := by
  have hrun : ((machine ℕ).run (start 5) one_task).map
      (fun s => (s.now, decide (s.worker.monitor = .selecting), s.log.charged s.now)) = some (17, true, 2) := by decide
  obtain ⟨s, hs, hvalues⟩ := Option.map_eq_some_iff.1 hrun
  obtain ⟨hnow, hselecting, hcharged⟩ : s.now = 17 ∧ s.worker.monitor = .selecting ∧ s.log.charged s.now = 2 := by
    simpa using hvalues
  have haccount := (cpu_budget_exact 5 one_task s hs).2.1 hselecting
  rw [hcharged] at haccount
  exact ⟨s, hs, hnow, haccount⟩

end CpuBudget

end RustyWorkers

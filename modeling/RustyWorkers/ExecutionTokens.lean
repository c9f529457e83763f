/-
User code runs on paid-for CPU: permits and timer commands in `Instance::run`
(`rusty-workers-runtime/src/executor.rs`, `semaphore.rs`).

`Pc.permits` and `Pc.timer` say what `run` owns and what it told the monitor
last, at each of its states, and `Paid` that this is so. A step then changes the
free tokens against the permits of the instance, whichever way it leaves `run`,
so the two together stay what the runtime has begun with.
-/
import RustyWorkers.Executor
import RustyWorkers.Lib.Sums

set_option autoImplicit false

namespace RustyWorkers

open Lib

namespace Executor

variable {ι : Type}

/-- How many permits `run` owns. -/
def Pc.permits : Pc ι → ℕ
  | .starting | .receiving | .received _ | .waiting | .resuming | .exited | .cleaned => 0
  | .initializing | .ready | .script | .script_check | .loop_top | .dispatching _ | .event | .checking
  | .calling | .callback | .finishing => 1

/-- `run` is between a `start_timer` and the next command. -/
def Pc.timed : Pc ι → Bool
  | .script | .script_check | .dispatching _ | .event | .checking | .calling | .callback => true
  | _ => false

/-- `run` blocks in `blocking_recv` or in `IoWaiter::wait`. -/
def Pc.blocked : Pc ι → Bool
  | .receiving | .waiting => true
  | _ => false

/-- What the state of `run` says about the permits and the timer is so. -/
structure Paid (s : Instance ι) : Prop where
  permits : s.permits = s.pc.permits
  started : s.pc.timed = true → s.timer_tx.getLast? = some .start
  stopped : s.pc.blocked = true → s.timer_tx.getLast? ≠ some .start

theorem Pc.timed_of_user_code {pc : Pc ι} (h : pc.user_code = true) : pc.timed = true := by
  cases pc <;> simp_all [Pc.user_code, Pc.timed]

theorem Pc.permits_of_user_code {pc : Pc ι} (h : pc.user_code = true) : pc.permits = 1 := by
  cases pc <;> simp_all [Pc.user_code, Pc.permits]

theorem Pc.permits_of_blocked {pc : Pc ι} (h : pc.blocked = true) : pc.permits = 0 := by
  cases pc <;> simp_all [Pc.blocked, Pc.permits]

theorem paid_new : Paid (Instance.new : Instance ι) := by
  refine ⟨rfl, fun ht => ?_, fun hb => ?_⟩
  · cases ht
  · cases hb

/-! ## One step -/

section Steps

variable {s s' : Instance ι}

/-- Nothing is paid or told. -/
theorem Paid.congr (h : Paid s) (hpc : s'.pc = s.pc) (hpermits : s'.permits = s.permits)
    (htimer : s'.timer_tx = s.timer_tx) : Paid s' := by
  constructor
  · rw [hpermits, hpc]
    exact h.permits
  · rw [hpc, htimer]
    exact h.started
  · rw [hpc, htimer]
    exact h.stopped

/-- `run` goes on to a state that is paid like the last one, and told no more
than it. -/
theorem Paid.goto (h : Paid s) (hpermits : s'.permits = s.permits) (htimer : s'.timer_tx = s.timer_tx)
    (hpaid : s'.pc.permits = s.pc.permits) (htimed : s'.pc.timed = true → s.pc.timed = true)
    (hblocked : s'.pc.blocked = false) : Paid s' := by
  constructor
  · rw [hpermits, hpaid]
    exact h.permits
  · intro ht
    rw [htimer]
    exact h.started (htimed ht)
  · intro hb
    rw [hblocked] at hb
    cases hb

/-- The timer has just been started. -/
theorem Paid.of_start (hpermits : s'.permits = s'.pc.permits) (htimer : s'.timer_tx = s.timer_tx ++ [.start])
    (hblocked : s'.pc.blocked = false) : Paid s' := by
  refine ⟨hpermits, fun _ => ?_, fun hb => ?_⟩
  · rw [htimer, List.getLast?_concat]
  · rw [hblocked] at hb
    cases hb

/-- The timer has just been stopped or reset. -/
theorem Paid.of_stop {c : Monitor.TimerControl} (hpermits : s'.permits = s'.pc.permits)
    (htimer : ∃ cs, s'.timer_tx = cs ++ [c]) (hc : c ≠ .start) (htimed : s'.pc.timed = false) : Paid s' := by
  obtain ⟨cs, htimer⟩ := htimer
  refine ⟨hpermits, fun ht => ?_, fun _ => ?_⟩
  · rw [htimed] at ht
    cases ht
  · rw [htimer, List.getLast?_concat]
    exact fun heq => hc (Option.some.inj heq)

/-- A token is taken, and the timer is started. -/
theorem Paid.take {tokens : ℕ} (hnone : s.permits = 0) (free : 0 < tokens) (hpermits : s'.permits = s.permits + 1)
    (hpaid : s'.pc.permits = 1) (htimer : s'.timer_tx = s.timer_tx ++ [.start]) (hblocked : s'.pc.blocked = false) :
    Paid s' ∧ tokens - 1 + s'.permits = tokens + s.permits := by
  refine ⟨.of_start ?_ htimer hblocked, ?_⟩
  · omega
  · omega

/-- The token is given back, and the timer is stopped or reset. -/
theorem Paid.give {tokens : ℕ} {c : Monitor.TimerControl} (hone : s.permits = 1) (hpermits : s'.permits = s.permits - 1)
    (hpaid : s'.pc.permits = 0) (htimer : ∃ cs, s'.timer_tx = cs ++ [c]) (hc : c ≠ .start)
    (htimed : s'.pc.timed = false) : Paid s' ∧ tokens + 1 + s'.permits = tokens + s.permits := by
  refine ⟨.of_stop ?_ htimer hc htimed, ?_⟩
  · omega
  · omega

theorem Paid.of_exited (hpermits : s'.permits = 0) (hpc : s'.pc = .exited ∨ s'.pc = .cleaned) : Paid s' := by
  rcases hpc with hpc | hpc <;>
    exact ⟨by rw [hpermits, hpc]; rfl, fun ht => by simp [hpc, Pc.timed] at ht,
      fun hb => by simp [hpc, Pc.blocked] at hb⟩

theorem Pc.Moves.paid {pc pc' : Pc ι} (h : pc.Moves pc') :
    pc'.permits = pc.permits ∧ (pc'.timed = true → pc.timed = true) ∧ pc'.blocked = false := by
  cases h <;> simp [Pc.permits, Pc.timed, Pc.blocked]

variable [DecidableEq ι]

/-- A step keeps the tokens that are free together with those of the instance. -/
theorem paid_step {tokens : ℕ} {a : Action ι} {r : ℕ × Instance ι} (h : Paid s)
    (hs : s.step tokens a = some r) : Paid r.2 ∧ r.1 + r.2.permits = tokens + s.permits := by
  have hpermits := h.permits
  cases Instance.step_effect hs with
  | fetch | enqueue | refuse | cancel | drop_handle | done => exact ⟨h.congr rfl rfl rfl, rfl⟩
  | respond user => exact ⟨h.congr (s.pc_try_send _) (s.permits_try_send _) (s.timer_try_send _), by simp⟩
  | start pc free =>
    rw [pc, Pc.permits] at hpermits
    refine ⟨⟨?_, (fun ht => by cases ht), (fun hb => by cases hb)⟩, ?_⟩
    · change s.permits + 1 = 1
      omega
    · change tokens - 1 + (s.permits + 1) = tokens + s.permits
      omega
  | ready pc =>
    refine ⟨h.goto rfl rfl ?_ (fun ht => by cases ht) rfl, rfl⟩
    rw [pc]
    rfl
  | run pc =>
    rw [pc, Pc.permits] at hpermits
    exact ⟨.of_start (s := s) hpermits rfl rfl, rfl⟩
  | moves hmoves =>
    obtain ⟨hpaid, htimed, hblocked⟩ := hmoves.paid
    exact ⟨h.goto rfl rfl hpaid htimed hblocked, rfl⟩
  | next_task pc =>
    rw [pc, Pc.permits] at hpermits
    exact Paid.give hpermits rfl rfl ⟨s.timer_tx ++ [.stop], rfl⟩ (fun heq => by cases heq) rfl
  | recv pc queue =>
    refine ⟨h.goto rfl rfl ?_ (fun ht => by cases ht) rfl, rfl⟩
    rw [pc]
    rfl
  | populate pc free =>
    rw [pc, Pc.permits] at hpermits
    exact Paid.take hpermits free rfl rfl rfl rfl
  | dispatch pc =>
    refine ⟨h.goto rfl rfl ?_ (fun _ => ?_) rfl, rfl⟩ <;>
    · rw [pc]
      rfl
  | recovers pc mild =>
    refine ⟨h.goto (s.permits_try_send _) (s.timer_try_send _) ?_ (fun ht => by cases ht) rfl, ?_⟩
    · rw [pc]
      rfl
    · change tokens + (s.try_send_fetch_response _).permits = _
      rw [Instance.permits_try_send]
  | wait_io pc =>
    rw [pc, Pc.permits] at hpermits
    exact Paid.give hpermits rfl rfl ⟨s.timer_tx, rfl⟩ (fun heq => by cases heq) rfl
  | resumes pc =>
    refine ⟨h.goto rfl rfl ?_ (fun ht => by cases ht) rfl, rfl⟩
    rw [pc]
    rfl
  | call pc free =>
    rw [pc, Pc.permits] at hpermits
    exact Paid.take hpermits free rfl rfl rfl rfl
  | finish pc =>
    refine ⟨h.goto (s.permits_try_send _) (s.timer_try_send _) ?_ (fun ht => by cases ht) rfl, ?_⟩
    · rw [pc]
      rfl
    · change tokens + (s.try_send_fetch_response _).permits = _
      rw [Instance.permits_try_send]
  | exits running => exact ⟨.of_exited rfl (Or.inl rfl), rfl⟩
  | fails pc known =>
    refine ⟨.of_exited rfl (Or.inl rfl), ?_⟩
    change tokens + (s.try_send_fetch_response _).permits + 0 = _
    rw [Instance.permits_try_send, add_zero]
  | cleanup pc =>
    rw [pc, Pc.permits] at hpermits
    exact ⟨.of_exited hpermits (Or.inr rfl), rfl⟩

end Steps

/-! ## The tokens of a runtime -/

/-- All instances are paid for, and no token is lost or made. -/
structure Runtime.Balanced (execution_concurrency : ℕ) (rt : Runtime ι) : Prop where
  paid : ∀ w ∈ rt.workers, Paid w.inst
  tokens : rt.execution_token + (rt.workers.map fun w => w.inst.permits).sum = execution_concurrency

variable [DecidableEq ι] {execution_concurrency : ℕ} {rt rt' : Runtime ι}

theorem balanced_step {a : RuntimeAction ι} (h : rt.Balanced execution_concurrency)
    (hs : rt.step a = some rt') : rt'.Balanced execution_concurrency := by
  refine ⟨Runtime.instances_step paid_new (fun _ _ _ _ _ hi hs => (paid_step hi hs).1) h.paid hs, ?_⟩
  have htokens := h.tokens
  -- only a step of a worker moves tokens, and it keeps the sum
  rcases Runtime.step_cases hs with ⟨handle, -, rfl⟩ | ⟨k, w, listing, hw, -, rfl⟩
    | ⟨k, w, b, tokens, inst, -, hw, -, hstep, rfl⟩
  · rw [List.map_append, List.sum_append]
    exact htokens
  · have hset := sum_map_set (fun w : Worker ι => w.inst.permits) hw { w with listing := listing }
    dsimp only at hset ⊢
    omega
  · have hset := sum_map_set (fun w : Worker ι => w.inst.permits) hw { w with inst := inst }
    have hpaid := (paid_step (h.paid w (List.mem_of_getElem? hw)) hstep).2
    dsimp only at hset hpaid ⊢
    omega

omit [DecidableEq ι] in
/-- Every instance that runs user code has a permit of its own. -/
theorem count_user_code (hpaid : ∀ w ∈ rt.workers, Paid w.inst) :
    (rt.workers.countP fun w => w.inst.pc.user_code) ≤ (rt.workers.map fun w => w.inst.permits).sum := by
  generalize rt.workers = workers at hpaid
  -- induction on the workers: each that runs user code brings one permit
  induction workers with
  | nil => simp
  | cons w workers ih =>
    have hrest := ih fun v hv => hpaid v (List.mem_cons_of_mem _ hv)
    rw [List.countP_cons, List.map_cons, List.sum_cons]
    by_cases huser : w.inst.pc.user_code = true
    · have hone := (hpaid w List.mem_cons_self).permits
      rw [Pc.permits_of_user_code huser] at hone
      rw [if_pos huser]
      omega
    · rw [if_neg huser]
      omega

/-- **User code runs on paid-for CPU.** In every run of any number of instances
of a runtime: where user code runs, the instance has exactly one permit, and the
last command to its monitor is `Start`; where it waits for a task or for I/O it
has none, and the last command is not `Start`; an instance that is over has
none. So at most `execution_concurrency` instances run user code at once, and
the free tokens and the permits are as many as there were tokens at first. -/
theorem paid_for_cpu {as : List (RuntimeAction ι)}
    (h : (Runtime.machine ι).run (.new execution_concurrency) as = some rt) :
    (∀ w ∈ rt.workers,
      (w.inst.pc.user_code = true → w.inst.permits = 1 ∧ w.inst.timer_tx.getLast? = some .start)
      ∧ (w.inst.pc.blocked = true → w.inst.permits = 0 ∧ w.inst.timer_tx.getLast? ≠ some .start)
      ∧ (w.inst.pc = .exited ∨ w.inst.pc = .cleaned → w.inst.permits = 0))
    ∧ (rt.workers.countP fun w => w.inst.pc.user_code) ≤ execution_concurrency
    ∧ rt.execution_token + (rt.workers.map fun w => w.inst.permits).sum = execution_concurrency := by
  have hbalanced : rt.Balanced execution_concurrency :=
    (Runtime.machine ι).run_invariant (fun _ _ _ hi hs => balanced_step hi hs)
      ⟨fun _ hw => by simp [Runtime.new] at hw, by simp [Runtime.new]⟩ h
  have htokens := hbalanced.tokens
  refine ⟨fun w hw => ⟨fun huser => ?_, fun hblocked => ?_, fun hover => ?_⟩, ?_, htokens⟩
  · have hpaid := hbalanced.paid w hw
    exact ⟨hpaid.permits.trans (Pc.permits_of_user_code huser), hpaid.started (Pc.timed_of_user_code huser)⟩
  · have hpaid := hbalanced.paid w hw
    exact ⟨hpaid.permits.trans (Pc.permits_of_blocked hblocked), hpaid.stopped hblocked⟩
  · have hpermits := (hbalanced.paid w hw).permits
    rcases hover with hpc | hpc <;>
    · rw [hpc] at hpermits
      exact hpermits
  · have hcount := count_user_code hbalanced.paid
    omega

/-- Two workers share one token: the first one waits for a task when the second
one runs its script. -/
def one_token : List (RuntimeAction ℕ) :=
  [.spawn "a", .worker 0 (.acquire true), .worker 0 (.initialized true), .insert 0,
    .worker 0 (.check none), .spawn "b", .worker 0 (.returned true), .worker 0 (.check none),
    .worker 0 .next_task, .worker 1 (.acquire true), .worker 1 (.initialized true), .insert 1,
    .worker 1 (.check none)]

theorem paid_for_cpu_one_token :
    ∃ rt, (Runtime.machine ℕ).run (.new 1) one_token = some rt
      ∧ rt.workers.map (fun w => w.inst.pc) = [.receiving, .script]
      ∧ (rt.workers.countP fun w => w.inst.pc.user_code) ≤ 1 := by
  have hrun : ((Runtime.machine ℕ).run (.new 1) one_token).map
      (fun rt => rt.workers.map fun w => w.inst.pc) = some [.receiving, .script] := by decide
  obtain ⟨rt, hrt, hpcs⟩ := Option.map_eq_some_iff.1 hrun
  exact ⟨rt, hrt, hpcs, (paid_for_cpu hrt).2.1⟩

end Executor

end RustyWorkers

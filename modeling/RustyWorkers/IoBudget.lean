/-
The I/O budget of a request: `remaining_budget` of `IoWaiter`
(`rusty-workers-runtime/src/io.rs`), and `call_service_callback` (`executor.rs`),
which says whether a call counts.

The machine is the one of `Io` with a count of the calls that `issue` has
accepted; which calls are charged to the budget is a parameter of it. If all of
them are, no run has more accepted calls than `max_io_per_request`, and a call
after that fails and changes nothing (`charged_enforced`): `issue` does its part.
`call_service_callback` charges none. Then the counter keeps its first value, and
the limit holds in the runs that never come to it.
-/
import RustyWorkers.IoDeadlock

set_option autoImplicit false

namespace RustyWorkers

open Lib IoState

namespace IoBudget

/-- The I/O of a request, with the number of calls that `issue` has accepted. -/
structure State where
  io : IoState
  accepted : ℕ

/-- `IoWaiter::new`, for each request. -/
def new (conf : ExecutorConfiguration) : State := ⟨.new conf, 0⟩

/-- Whether `issue` returns `Ok(())` in this step. -/
def accepts (s : IoState) : IoAction → Bool
  | .send => decide (s.run ≠ .exited)
  | _ => false

/-- A step of `Io`, where the caller of `issue` passes `count_budget task`. -/
def step (count_budget : AsyncCall → Bool) (conf : ExecutorConfiguration) (s : State) : IoAction → Option State
  | .issue task cb index =>
    if s.io.executor = .running ∧ s.io.inflight index = none then
      some { s with io := (s.io.issue (count_budget task) task cb index).getD s.io }
    else none
  | a => (s.io.step conf a).map fun io => ⟨io, if accepts s.io a then s.accepted + 1 else s.accepted⟩

def machine (count_budget : AsyncCall → Bool) (conf : ExecutorConfiguration) : Machine State IoAction :=
  ⟨step count_budget conf⟩

/-- What `call_service_callback` passes, for every call. -/
def call_service (_ : AsyncCall) : Bool := false

/-! ## The budget -/

/-- A call past the budget fails with `IoLimitExceeded`, and leaves all as it is. -/
def Refuses (count_budget : AsyncCall → Bool) (conf : ExecutorConfiguration) (s : State) : IoAction → Prop
  | .issue task cb index => conf.max_io_per_request ≤ s.accepted →
      s.io.issue (count_budget task) task cb index = none
        ∧ step count_budget conf s (.issue task cb index) = some s
  | _ => True

/-- No more calls are accepted than configured, and further calls are refused. -/
structure Enforced (count_budget : AsyncCall → Bool) (conf : ExecutorConfiguration) (as : List IoAction) : Prop where
  bound : (machine count_budget conf).Always (fun s => s.accepted ≤ conf.max_io_per_request) (new conf) as
  refused : (machine count_budget conf).Meets (Refuses count_budget conf) (new conf) as

/-- The script calls while it has calls left. -/
def Within (conf : ExecutorConfiguration) (s : State) : IoAction → Prop
  | .issue _ _ _ => s.accepted < conf.max_io_per_request
  | _ => True

/-! ## What a step does -/

/-- The calls that are accepted, and the one that is on its way into the channel. -/
def used (s : State) : ℕ :=
  match s.io.executor with
  | .issuing _ _ => s.accepted + 1
  | _ => s.accepted

theorem accepted_le_used (s : State) : s.accepted ≤ used s := by
  unfold used
  split
  · exact Nat.le_succ _
  · exact le_rfl

theorem used_le (s : State) : used s ≤ s.accepted + 1 := by
  unfold used
  split
  · exact le_rfl
  · exact Nat.le_succ _

theorem used_of {s : State} (h : ∀ index task, s.io.executor ≠ .issuing index task) : used s = s.accepted := by
  unfold used
  split
  · exact absurd ‹_› (h _ _)
  · rfl

variable {count_budget : AsyncCall → Bool} {conf : ExecutorConfiguration}

/-- A call is sent: it is accepted, or the processor is gone. -/
theorem send_used {s : State} {io : IoState} (h : s.io.step conf .send = some io) :
    io.remaining_budget = s.io.remaining_budget
      ∧ used ⟨io, if accepts s.io .send then s.accepted + 1 else s.accepted⟩ ≤ used s := by
  obtain ⟨index, task, hexec, hsent⟩ := step_send h
  have hused : used s = s.accepted + 1 := by rw [used, hexec]
  -- the call that was on its way is counted, or is given up
  have hdone : io.remaining_budget = s.io.remaining_budget ∧ ∀ index task, io.executor ≠ .issuing index task := by
    obtain ⟨-, rfl⟩ | ⟨-, -, rfl⟩ := hsent
    · exact ⟨rfl, by simp⟩
    · exact ⟨rfl, by simp⟩
  refine ⟨hdone.1, ?_⟩
  rw [hused, used_of hdone.2]
  split
  · exact le_rfl
  · exact Nat.le_succ _

/-- No other step of `Io` touches the counter, or begins a call. -/
theorem step_frame {s io : IoState} {a : IoAction} (h : s.step conf a = some io)
    (hissue : ∀ task cb index, a ≠ .issue task cb index) (hsend : a ≠ .send) :
    io.remaining_budget = s.remaining_budget
      ∧ (io.executor = s.executor ∨ ∀ index task, io.executor ≠ .issuing index task) := by
  cases a with
  | issue task cb index => exact absurd rfl (hissue task cb index)
  | send => exact absurd rfl hsend
  | wait =>
      obtain ⟨-, rfl⟩ := step_wait h
      exact ⟨rfl, Or.inr (by simp)⟩
  | recv granted =>
      obtain ⟨-, ⟨_, _, _, _, _, _, rfl⟩ | ⟨_, _, _, _, _, rfl⟩ | ⟨_, _, _, rfl⟩ | ⟨_, _, _, rfl⟩⟩ := step_recv h
      · exact ⟨rfl, Or.inr (by simp)⟩
      · exact ⟨rfl, Or.inr (by simp)⟩
      · exact ⟨rfl, Or.inl rfl⟩
      · exact ⟨rfl, Or.inr (by simp)⟩
  | drop_waiter =>
      obtain ⟨-, rfl⟩ := step_drop_waiter h
      exact ⟨rfl, Or.inr (by simp [IoState.drop_waiter])⟩
  | kill =>
      obtain ⟨-, -, rfl⟩ := step_kill h
      exact ⟨rfl, Or.inl rfl⟩
  | next =>
      obtain ⟨-, ⟨_, _, _, _, rfl⟩ | ⟨_, _, rfl⟩⟩ := step_next h
      · exact ⟨rfl, Or.inl rfl⟩
      · exact ⟨rfl, Or.inl rfl⟩
  | acquire =>
      obtain ⟨_, _, -, -, rfl⟩ := step_acquire h
      exact ⟨rfl, Or.inl rfl⟩
  | request x n =>
      obtain ⟨-, -, -, -, rfl⟩ := step_request h
      exact ⟨rfl, Or.inl rfl⟩
  | finish x result =>
      obtain ⟨-, -, rfl⟩ := step_finish h
      exact ⟨rfl, Or.inl rfl⟩
  | kill_task x =>
      obtain ⟨-, -, rfl⟩ := step_kill_task h
      exact ⟨rfl, Or.inl rfl⟩
  | drop_scope =>
      obtain ⟨-, rfl⟩ := step_drop_scope h
      exact ⟨rfl, Or.inl rfl⟩

theorem frame_used {s : State} {io : IoState}
    (h : io.executor = s.io.executor ∨ ∀ index task, io.executor ≠ .issuing index task) :
    used ⟨io, s.accepted⟩ ≤ used s := by
  rcases h with hsame | hnone
  · exact le_of_eq (by simp only [used, hsame])
  · rw [used_of hnone]
    exact accepted_le_used s

/-- **What a step does to the budget.** A call is refused, or it is charged if it
counts; no other step touches the counter, or has a call accepted that was not
on its way. -/
theorem step_effect {s s' : State} {a : IoAction} (h : step count_budget conf s a = some s') :
    (∃ task cb index, a = .issue task cb index ∧ s.io.issue (count_budget task) task cb index = none ∧ s' = s)
    ∨ (∃ task cb index, a = .issue task cb index
        ∧ s.io.issue (count_budget task) task cb index = some s'.io
        ∧ used s = s.accepted ∧ s'.accepted = s.accepted)
    ∨ ((∀ task cb index, a ≠ .issue task cb index)
        ∧ s'.io.remaining_budget = s.io.remaining_budget ∧ used s' ≤ used s) := by
  cases a with
  | issue task cb index =>
      simp only [step] at h
      split at h
      · rename_i hready
        obtain rfl := Option.some.inj h
        cases hissue : s.io.issue (count_budget task) task cb index with
        | none => exact Or.inl ⟨task, cb, index, rfl, hissue, by rw [Option.getD_none]⟩
        | some io =>
            refine Or.inr (Or.inl ⟨task, cb, index, rfl, ?_, used_of (by simp [hready.1]), rfl⟩)
            rw [Option.getD_some]
            exact hissue
      · cases h
  | send =>
      obtain ⟨io, hio, rfl⟩ := Option.map_eq_some_iff.1 h
      exact Or.inr (Or.inr ⟨by simp, send_used hio⟩)
  | _ =>
      obtain ⟨io, hio, rfl⟩ := Option.map_eq_some_iff.1 h
      obtain ⟨hbudget, hexec⟩ := step_frame hio (by simp) (by simp)
      exact Or.inr (Or.inr ⟨by simp, hbudget, frame_used hexec⟩)

/-- What `issue` takes from the budget. -/
theorem issue_budget {s io : IoState} {count : Bool} {task : AsyncCall} {cb index : ℕ}
    (h : s.issue count task cb index = some io) :
    (count = true → 1 ≤ s.remaining_budget)
      ∧ io.remaining_budget = if count then s.remaining_budget - 1 else s.remaining_budget := by
  unfold issue at h
  split at h
  · cases h
  · rename_i hleft
    obtain rfl := Option.some.inj h
    refine ⟨fun hcount => ?_, rfl⟩
    rw [hcount] at hleft
    simp only [Bool.true_and, beq_iff_eq] at hleft
    omega

/-! ## If every call is charged -/

/-- The calls and what is left are the budget. -/
def Charged (conf : ExecutorConfiguration) (s : State) : Prop :=
  s.io.remaining_budget + used s ≤ conf.max_io_per_request

theorem charged_new (conf : ExecutorConfiguration) : Charged conf (new conf) := le_rfl

theorem charged_step {s s' : State} {a : IoAction} (hs : Charged conf s)
    (h : step (fun _ => true) conf s a = some s') : Charged conf s' := by
  unfold Charged at hs ⊢
  obtain ⟨_, _, _, -, -, rfl⟩ | ⟨_, _, _, -, hissue, hused, hsame⟩ | ⟨-, hbudget, hused⟩ := step_effect h
  · exact hs
  · -- what the call takes from the budget goes to the call on its way
    obtain ⟨hleft, htaken⟩ := issue_budget hissue
    have hone := hleft rfl
    have hnew := used_le s'
    rw [if_pos rfl] at htaken
    omega
  · omega

theorem charged_refuses {s s' : State} {a : IoAction} (hs : Charged conf s)
    (h : step (fun _ => true) conf s a = some s') : Refuses (fun _ => true) conf s a := by
  cases a with
  | issue task cb index =>
      intro hfull
      -- when all calls are accepted nothing is left
      have hle := accepted_le_used s
      have hzero : s.io.remaining_budget = 0 := by
        unfold Charged at hs
        omega
      have hnone : s.io.issue true task cb index = none := by
        rw [issue, hzero]
        rfl
      obtain ⟨_, _, _, -, -, rfl⟩ | ⟨_, _, _, heq, hissue, -⟩ | ⟨hother, -⟩ := step_effect h
      · exact ⟨hnone, h⟩
      · cases heq
        rw [hnone] at hissue
        cases hissue
      · exact absurd rfl (hother task cb index)
  | _ => trivial

/-- `issue` keeps to the budget, if it is told to. -/
theorem charged_enforced (conf : ExecutorConfiguration) (as : List IoAction) : Enforced (fun _ => true) conf as where
  bound := by
    refine (machine (fun _ => true) conf).always_of_meets (I := Charged conf) (C := fun _ _ => True) ?_ ?_
      (charged_new conf) ((machine (fun _ => true) conf).meets_true _ _)
    · intro s hs
      have hle := accepted_le_used s
      unfold Charged at hs
      omega
    · exact fun s a s' hs _ h => charged_step hs h
  refused :=
    (machine (fun _ => true) conf).meets_of_meets (I := Charged conf) (C := fun _ _ => True)
      (fun s a s' hs _ h => charged_step hs h) (fun s a s' hs _ h => charged_refuses hs h)
      (charged_new conf) ((machine (fun _ => true) conf).meets_true _ _)

/-! ## As the calls are made -/

/-- The counter keeps its first value. -/
theorem never_charged {as : List IoAction} {t : State}
    (h : (machine call_service conf).run (new conf) as = some t) :
    t.io.remaining_budget = conf.max_io_per_request := by
  refine (machine call_service conf).run_invariant
    (I := fun s => s.io.remaining_budget = conf.max_io_per_request) (fun s a s' hs hstep => ?_) rfl h
  obtain ⟨_, _, _, -, -, rfl⟩ | ⟨_, _, _, -, hissue, -⟩ | ⟨-, hbudget, -⟩ := step_effect hstep
  · exact hs
  · exact (issue_budget hissue).2.trans hs
  · exact hbudget.trans hs

/-- Without a charge no call is refused. -/
theorem issue_uncharged (s : IoState) (task : AsyncCall) (cb index : ℕ) :
    s.issue (call_service task) task cb index ≠ none := by
  intro h
  cases h

theorem within_of_refuses {s s' : State} {a : IoAction} (h : step call_service conf s a = some s')
    (hrefuses : Refuses call_service conf s a) : Within conf s a := by
  cases a with
  | issue task cb index =>
      by_contra hfull
      exact issue_uncharged s.io task cb index (hrefuses (not_lt.1 hfull)).1
  | _ => trivial

theorem refuses_of_within {s : State} {a : IoAction} (h : Within conf s a) : Refuses call_service conf s a := by
  cases a with
  | issue task cb index => exact fun hfull => absurd h (not_lt.2 hfull)
  | _ => trivial

theorem within_step {s s' : State} {a : IoAction} (hs : used s ≤ conf.max_io_per_request) (hwithin : Within conf s a)
    (h : step call_service conf s a = some s') : used s' ≤ conf.max_io_per_request := by
  obtain ⟨_, _, _, -, -, rfl⟩ | ⟨_, _, _, rfl, -, -, hsame⟩ | ⟨-, -, hused⟩ := step_effect h
  · exact hs
  · -- the call is the last one at most
    have hleft : s.accepted < conf.max_io_per_request := hwithin
    have hnew := used_le s'
    omega
  · exact hused.trans hs

/-- **When the I/O budget holds.** For every configuration and every run of a
request, whatever its script calls and whenever: no more calls are accepted than
`max_io_per_request`, and calls after that fail with `IoLimitExceeded` and leave
everything as it is, if and only if there are no calls after that. -/
theorem budget_enforced_iff (conf : ExecutorConfiguration) (as : List IoAction) :
    Enforced call_service conf as ↔ (machine call_service conf).Meets (Within conf) (new conf) as := by
  have hnew : used (new conf) ≤ conf.max_io_per_request := Nat.zero_le _
  constructor
  · intro h
    exact (machine call_service conf).meets_of_meets (I := fun _ => True) (fun _ _ _ _ _ _ => trivial)
      (fun s a s' _ hrefuses hs => within_of_refuses hs hrefuses) trivial h.refused
  · intro h
    refine ⟨?_, ?_⟩
    · exact (machine call_service conf).always_of_meets (fun s hs => (accepted_le_used s).trans hs)
        (fun s a s' hs hwithin hstep => within_step hs hwithin hstep) hnew h
    · exact (machine call_service conf).meets_of_meets (I := fun _ => True) (fun _ _ _ _ _ _ => trivial)
        (fun s a s' _ hwithin _ => refuses_of_within hwithin) trivial h

/-! ## Past the budget -/

/-- What the calls do without a charge is what they do in `Io`. -/
theorem step_call_service (s : State) (a : IoAction) :
    step call_service conf s a
      = (s.io.step conf a).map fun io => ⟨io, if accepts s.io a then s.accepted + 1 else s.accepted⟩ := by
  cases a with
  | issue task cb index =>
      simp only [step, IoState.step]
      split
      · rfl
      · rfl
  | _ => rfl

theorem step_of_io {s io : IoState} {a : IoAction} (h : s.step conf a = some io) (k : ℕ) :
    (machine call_service conf).step ⟨s, k⟩ a = some ⟨io, if accepts s a then k + 1 else k⟩ := by
  have hstep : step call_service conf ⟨s, k⟩ a
      = (s.step conf a).map fun io => ⟨io, if accepts s a then k + 1 else k⟩ := step_call_service _ a
  rw [h] at hstep
  exact hstep

theorem run_io {as : List IoAction} {s t : State} (h : (machine call_service conf).run s as = some t) :
    (IoState.machine conf).run s.io as = some t.io := by
  induction as generalizing s with
  | nil =>
      obtain rfl := Option.some.inj h
      rfl
  | cons a as ih =>
      obtain ⟨s', hstep, hrun⟩ := (machine call_service conf).run_cons_eq_some.1 h
      obtain ⟨io, hio, rfl⟩ := Option.map_eq_some_iff.1 ((step_call_service s a).symm.trans hstep)
      exact (IoState.machine conf).run_cons_eq_some.2 ⟨io, hio, ih hrun⟩

/-- Calls that are issued while there is room are accepted. -/
theorem run_fill_accepted (n : ℕ) {s t : IoState} {i k : ℕ} (halive : s.run ≠ .exited)
    (h : (IoState.machine conf).run s (fill i n) = some t) :
    (machine call_service conf).run ⟨s, k⟩ (fill i n) = some ⟨t, k + n⟩ := by
  -- two steps of the run for each call
  induction n generalizing s i k with
  | zero =>
      obtain rfl := Option.some.inj h
      rfl
  | succ n ih =>
      obtain ⟨s₁, hissue, h⟩ := (IoState.machine conf).run_cons_eq_some.1 h
      obtain ⟨s₂, hsend, h⟩ := (IoState.machine conf).run_cons_eq_some.1 h
      have hissue₁ : s.step conf (.issue get_call i i) = some s₁ := hissue
      have hsend₂ : s₁.step conf .send = some s₂ := hsend
      have halive₁ : s₁.run ≠ .exited := by
        obtain ⟨-, -, rfl⟩ := step_issue hissue₁
        exact halive
      have halive₂ : s₂.run ≠ .exited := by
        obtain ⟨_, _, -, ⟨hexit, -⟩ | ⟨-, -, rfl⟩⟩ := step_send hsend₂
        · exact absurd hexit halive₁
        · exact halive₁
      have hcall : (machine call_service conf).step ⟨s, k⟩ (.issue get_call i i) = some ⟨s₁, k⟩ :=
        step_of_io hissue₁ k
      have haccept : (machine call_service conf).step ⟨s₁, k⟩ .send = some ⟨s₂, k + 1⟩ := by
        rw [step_of_io hsend₂ k, accepts, decide_eq_true halive₁, if_pos rfl]
      have hrest := ih (k := k + 1) halive₂ h
      rw [Nat.add_assoc, Nat.add_comm 1 n] at hrest
      refine (machine call_service conf).run_cons_eq_some.2 ⟨_, hcall, ?_⟩
      exact (machine call_service conf).run_cons_eq_some.2 ⟨_, haccept, hrest⟩

/-- **No configuration limits the calls.** The channel alone has room for more. -/
theorem limit_exceeded (conf : ExecutorConfiguration) :
    ∃ t, (machine call_service conf).run (new conf) (fill 0 (conf.max_io_per_request + 1)) = some t
      ∧ conf.max_io_per_request < t.accepted := by
  have halive : (IoState.new conf).run ≠ .exited := by simp [IoState.new]
  have hroom : (IoState.new conf).backlog.length + (conf.max_io_per_request + 1) ≤ backlog_capacity conf := by
    simp only [IoState.new, List.length_nil, backlog_capacity]
    omega
  obtain ⟨t, ht, -⟩ := run_fill conf (conf.max_io_per_request + 1) rfl halive (fun _ _ => rfl) hroom
  refine ⟨⟨t, 0 + (conf.max_io_per_request + 1)⟩, run_fill_accepted _ halive ht, ?_⟩
  exact (Nat.lt_succ_self _).trans_eq (Nat.zero_add _).symm

/-- One call for each request. -/
def one_call_conf : ExecutorConfiguration := ⟨32, 1000, 10, 1⟩

/-- The second call is accepted as the first one is. -/
theorem second_call_accepted : ¬ Enforced call_service one_call_conf (fill 0 2) := by
  intro h
  obtain ⟨t, ht, hover⟩ := limit_exceeded one_call_conf
  exact absurd ((machine call_service one_call_conf).always_run h.bound ht) (not_le.2 hover)

end IoBudget

end RustyWorkers

/-
When dropping the `IoScope` cancels the I/O of a request.

`IoProcessor::run` sees the end of the scope in its `select!` only. Once it has
taken a call off the channel it awaits a permit outside of the `select!`, and
the calls in flight are told to stop by the exit of `run` only: with no permit
free it waits for one of them to finish by itself. So cancellation works
exactly as long as a permit is free whenever the processor takes a call.

The steps that count as internal are those of the processor, the death of the
calls in flight once it has exited, and, when the executor has dropped its
`IoWaiter`, the return of `InstanceHandle::fetch`, which drops the scope.
-/
import RustyWorkers.Io

set_option autoImplicit false

namespace RustyWorkers

open Lib

namespace IoState

/-- No call in flight has to finish for this step. -/
def internal (s : IoState) : IoAction → Prop
  | .kill | .next | .acquire | .kill_task _ => True
  | .drop_scope => s.executor = .dropped
  | _ => False

/-- `run` can exit, every call in flight die, and with them the last sender of
the result channel, by internal steps alone. -/
def CanExit (conf : ExecutorConfiguration) (s : IoState) : Prop :=
  ∃ t, (machine conf).Reach internal s t ∧ t.run = .exited ∧ t.tasks = []

/-- Nobody is there for the results any more. -/
def Abandoned (s : IoState) : Prop := s.scope = false ∨ s.executor = .dropped

/-- If the request is abandoned, or its scope is dropped now, its I/O can end. -/
def Cancellable (conf : ExecutorConfiguration) (s : IoState) : Prop :=
  (Abandoned s → CanExit conf s) ∧ CanExit conf { s with scope := false }

/-- A permit is free when the processor takes a call. -/
def takes_with_permit (s : IoState) : IoAction → Prop
  | .next => s.backlog ≠ [] → 0 < s.permits
  | _ => True

/-- The processor holds a call for which there is no permit. -/
def Blocked (s : IoState) : Prop := (∃ index task, s.run = .acquire index task) ∧ s.permits = 0

variable {conf : ExecutorConfiguration} {s s' : IoState}

/-! ## The way out -/

theorem CanExit.after {a : IoAction} {t : IoState} (hs : (machine conf).step s a = some t)
    (hok : internal s a) (h : CanExit conf t) : CanExit conf s := by
  obtain ⟨u, hu, hexit, hempty⟩ := h
  exact ⟨u, (machine conf).reach_step hok hs hu, hexit, hempty⟩

/-- Once `run` has exited, the calls in flight die one after the other. -/
theorem canExit_of_exited (h : s.run = .exited) : CanExit conf s := by
  generalize hn : s.tasks.length = n
  induction n generalizing s with
  | zero => exact ⟨s, .refl, h, List.eq_nil_of_length_eq_zero hn⟩
  | succ n ih =>
      obtain ⟨x, rest, hx⟩ := List.exists_cons_of_length_eq_add_one hn
      have hmem : x ∈ s.tasks := by simp [hx]
      have hstep : (machine conf).step s (.kill_task x) = some (s.release x) := by
        change (if x ∈ s.tasks ∧ s.run = .exited then _ else _) = _
        rw [if_pos ⟨hmem, h⟩]
      have hlen : (s.release x).tasks.length = n := by
        change (s.tasks.erase x).length = n
        rw [List.length_erase_of_mem hmem]
        omega
      exact .after hstep trivial (ih (s := s.release x) h hlen)

/-- From its `select!` the processor sees the end of the scope. -/
theorem canExit_of_select (hrun : s.run = .select) (h : Abandoned s) : CanExit conf s := by
  have hkilled : ∀ u : IoState, u.run = .select → u.scope = false → CanExit conf u := by
    intro u hu hscope
    have hstep : (machine conf).step u .kill = some { u with run := .exited } := by
      change (if u.run = .select ∧ u.scope = false then _ else _) = _
      rw [if_pos ⟨hu, hscope⟩]
    exact .after hstep trivial (canExit_of_exited rfl)
  cases hscope : s.scope with
  | false => exact hkilled s hrun hscope
  | true =>
      have hdropped : s.executor = .dropped := h.resolve_left (by simp [hscope])
      have hstep : (machine conf).step s .drop_scope = some { s with scope := false } := by
        change (if s.scope = true then _ else _) = _
        rw [if_pos hscope]
      exact .after hstep hdropped (hkilled { s with scope := false } hrun rfl)

/-- With a permit for the call it holds, the processor gets back to its `select!`. -/
theorem canExit_of_not_blocked (hun : ¬ Blocked s) (h : Abandoned s) : CanExit conf s := by
  cases hrun : s.run with
  | exited => exact canExit_of_exited hrun
  | select => exact canExit_of_select hrun h
  | acquire index task =>
      have hpos : 0 < s.permits := by
        by_contra hno
        exact hun ⟨⟨index, task, hrun⟩, by omega⟩
      have hstep : (machine conf).step s .acquire = some { s with
          permits := s.permits - 1, tasks := s.tasks ++ [⟨index, task, .working⟩], run := .select } := by
        simp [machine, step, hrun, acquire, hpos]
      exact .after hstep trivial (canExit_of_select rfl h)

theorem cancellable_of_not_blocked (h : ¬ Blocked s) : Cancellable conf s :=
  ⟨canExit_of_not_blocked h, canExit_of_not_blocked h (Or.inl rfl)⟩

/-- A processor that holds a call and finds no permit cannot get away. -/
theorem not_canExit_of_blocked (h : Blocked s) : ¬ CanExit conf s := by
  rintro ⟨t, ht, hexit, _⟩
  have hstuck : Blocked t := by
    refine (machine conf).reach_invariant (fun u a u' hu hok hs => ?_) h ht
    obtain ⟨⟨index, task, hrun⟩, hpermits⟩ := hu
    change step conf u a = some u' at hs
    cases a with
    | kill =>
        obtain ⟨hselect, _⟩ := step_kill hs
        rw [hrun] at hselect
        cases hselect
    | next =>
        obtain ⟨hselect, _⟩ := step_next hs
        rw [hrun] at hselect
        cases hselect
    | acquire =>
        obtain ⟨_, _, _, hfree, _⟩ := step_acquire hs
        omega
    | kill_task x =>
        obtain ⟨_, hexited, _⟩ := step_kill_task hs
        rw [hrun] at hexited
        cases hexited
    | drop_scope =>
        obtain ⟨_, rfl⟩ := step_drop_scope hs
        exact ⟨⟨index, task, hrun⟩, hpermits⟩
    | _ => exact absurd hok id
  obtain ⟨⟨index, task, hrun⟩, _⟩ := hstuck
  rw [hrun] at hexit
  cases hexit

/-! ## Runs -/

theorem not_blocked_step (s : IoState) (a : IoAction) (s' : IoState) (h : ¬ Blocked s)
    (hc : takes_with_permit s a) (hs : (machine conf).step s a = some s') : ¬ Blocked s' := by
  change step conf s a = some s' at hs
  rintro ⟨⟨index, task, hrun⟩, hpermits⟩
  cases a with
  | next =>
      obtain ⟨_, ⟨_, _, _, hbacklog, rfl⟩ | ⟨_, _, rfl⟩⟩ := step_next hs
      · have hpos : 0 < s.permits := hc (by simp [hbacklog])
        have hzero : s.permits = 0 := hpermits
        omega
      · cases hrun
  | acquire =>
      obtain ⟨_, _, _, _, rfl⟩ := step_acquire hs
      cases hrun
  | kill =>
      obtain ⟨_, _, rfl⟩ := step_kill hs
      cases hrun
  | finish x result =>
      obtain ⟨_, _, rfl⟩ := step_finish hs
      exact absurd hpermits (Nat.succ_ne_zero s.permits)
  | kill_task x =>
      obtain ⟨_, _, rfl⟩ := step_kill_task hs
      exact absurd hpermits (Nat.succ_ne_zero s.permits)
  | issue call cb i =>
      obtain ⟨_, _, rfl⟩ := step_issue hs
      exact h ⟨⟨index, task, hrun⟩, hpermits⟩
  | send =>
      obtain ⟨_, _, _, ⟨_, rfl⟩ | ⟨_, _, rfl⟩⟩ := step_send hs
      · exact h ⟨⟨index, task, hrun⟩, hpermits⟩
      · exact h ⟨⟨index, task, hrun⟩, hpermits⟩
  | wait =>
      obtain ⟨_, rfl⟩ := step_wait hs
      exact h ⟨⟨index, task, hrun⟩, hpermits⟩
  | recv granted =>
      obtain ⟨_, hcase⟩ := step_recv hs
      rcases hcase with ⟨_, _, _, _, _, _, rfl⟩ | ⟨_, _, _, _, _, rfl⟩ | ⟨_, _, _, rfl⟩ | ⟨_, _, _, rfl⟩
      · exact h ⟨⟨index, task, hrun⟩, hpermits⟩
      · exact h ⟨⟨index, task, hrun⟩, hpermits⟩
      · exact h ⟨⟨index, task, hrun⟩, hpermits⟩
      · exact h ⟨⟨index, task, hrun⟩, hpermits⟩
  | drop_waiter =>
      obtain ⟨_, rfl⟩ := step_drop_waiter hs
      exact h ⟨⟨index, task, hrun⟩, hpermits⟩
  | request x n =>
      obtain ⟨_, _, _, _, rfl⟩ := step_request hs
      exact h ⟨⟨index, task, hrun⟩, hpermits⟩
  | drop_scope =>
      obtain ⟨_, rfl⟩ := step_drop_scope hs
      exact h ⟨⟨index, task, hrun⟩, hpermits⟩

theorem not_cancellable_of_take {a : IoAction} (hs : (machine conf).step s a = some s')
    (hc : ¬ takes_with_permit s a) : ¬ Cancellable conf s' := by
  change step conf s a = some s' at hs
  cases a with
  | next =>
      have hc' : s.backlog ≠ [] ∧ ¬ 0 < s.permits := by
        by_contra hno
        exact hc fun hne => by_contra fun hp => hno ⟨hne, hp⟩
      obtain ⟨_, ⟨index, task, rest, _, rfl⟩ | ⟨hempty, _⟩⟩ := step_next hs
      · intro h
        refine not_canExit_of_blocked ?_ h.2
        exact ⟨⟨index, task, rfl⟩, Nat.eq_zero_of_not_pos hc'.2⟩
      · exact absurd hempty hc'.1
  | _ => exact absurd trivial hc

/-- **When cancellation works.** In a run of any number of calls of any kind,
every state can be cancelled (abandoned, or its scope dropped now, it lets
`run` exit and all calls in flight die without any of them having to finish)
if and only if the processor takes a call only when a permit is free. -/
theorem cancellable_iff (conf : ExecutorConfiguration) (as : List IoAction) :
    (machine conf).Always (Cancellable conf) (new conf) as
      ↔ (machine conf).Meets takes_with_permit (new conf) as := by
  have h0 : ¬ Blocked (new conf) := by
    rintro ⟨⟨index, task, hrun⟩, _⟩
    cases hrun
  exact (machine conf).always_iff_meets (fun s h => cancellable_of_not_blocked h) not_blocked_step
    (fun s a s' _ hc hs => not_cancellable_of_take hs hc) h0

/-- `setTimeout(f, 3600000)`. -/
def timeout_call : AsyncCall := ⟨.SetTimeout 3600000, []⟩

/-- One permit for I/O, and the default budget. -/
def serial_conf : ExecutorConfiguration := ⟨32, 1000, 1, 50⟩

/-- Two timers with one permit: the processor holds the second when the scope
is dropped. -/
def two_timers : List IoAction :=
  [.issue timeout_call 0 0, .send, .issue timeout_call 1 1, .send, .wait, .next, .acquire, .next,
   .drop_scope]

theorem two_timers_stuck :
    ∃ s, (machine serial_conf).run (new serial_conf) two_timers = some s ∧ s.scope = false
      ∧ ¬ CanExit serial_conf s := by
  refine ⟨_, rfl, rfl, not_canExit_of_blocked ⟨⟨1, timeout_call, ?_⟩, ?_⟩⟩
  · rfl
  · rfl

end IoState

end RustyWorkers

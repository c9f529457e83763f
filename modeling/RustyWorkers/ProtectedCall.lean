/-
The protected-call protocol (`rusty-workers-runtime/src/executor.rs`).

`_do_protected_call` sets the thread-local `JMP_ENV` while user JavaScript
runs, so that an out-of-memory callback can jump out; `wrap_callback` takes it
away while a host callback runs, and puts it back. User code that runs while it
is not there brings the process down: its next host call meets the `expect` of
`wrap_callback`, and an allocation failure has nowhere to jump to.

The model follows the frames on the stack of the executor thread and the
position of `Instance::run`. There are three places where the host touches an
object of the script and user code can hide behind it: an element of the buffer
list of a service call (`get_index`), the property `_dispatchEvent` of the
global object (`Object::get`), and a thrown object that is converted to a
string (`exception_description`). What a script has put there is part of the
action.
-/
import RustyWorkers.Lib.Machine

set_option autoImplicit false

namespace RustyWorkers

open Lib

namespace ProtectedCall

/-- A frame on the stack: a `_do_protected_call`, user JavaScript, or a host
callback that has `unread` elements of its buffer list still to read. -/
inductive Frame where
  | protected_call
  | script
  | callback (unread : ℕ)
deriving DecidableEq

/-- Where `Instance::run` is. -/
inductive InstancePc where
  | init
  | check_init
  | idle
  | lookup
  | dispatch
  | check_task
  | waiting
  | resume
  | ended
deriving DecidableEq

/-- A thrown value: converting it to a string runs no user code, or does. -/
inductive Thrown where
  | plain
  | scripted
deriving DecidableEq

/-- The panics of the protocol, each of which aborts the process. -/
inductive Panic where
  | not_in_protected_call
  | unprotected_oom
  | re_entering
deriving DecidableEq

structure State where
  jmp_env : Bool
  stack : List Frame
  pc : InstancePc
  exception : Option Thrown
  panicked : Option Panic
deriving DecidableEq

inductive Action where
  | enter
  | leave (thrown : Option Thrown) (enough_memory : Bool)
  | call_host (buffers : ℕ) (enough_memory : Bool)
  | get_index (accessor : Bool)
  | host_return
  | hidden_return (failed : Bool)
  | oom
  | recv_task
  | shutdown
  | get_dispatch_event (accessor : Bool)
  | check (done terminated : Bool)
  | wait_result (received : Bool)
deriving DecidableEq

def State.panic (s : State) (p : Panic) : State := { s with panicked := some p }

/-- Before the script of the worker runs. -/
def start : State := ⟨false, [], .init, none, none⟩

/-- Where `Instance::run` goes after its `protected_js`. -/
def after_call : InstancePc → InstancePc
  | .init => .check_init
  | _ => .check_task

/-- Where it goes when `check_on_init` or `check_on_task` reports an exception:
only a normal exception of a task is survived. -/
def after_exception (terminated : Bool) : InstancePc → InstancePc
  | .check_task => if terminated then .ended else .idle
  | _ => .ended

/-- Where it goes after user code that it did not mean to enter. -/
def after_hidden (failed : Bool) : InstancePc → InstancePc
  | .lookup => if failed then .ended else .dispatch
  | pc => after_exception failed pc

/-- `protected_js` with `_do_protected_call`, up to the first line of user code. -/
def enter (s : State) : State :=
  if s.jmp_env then s.panic .re_entering
  else { s with jmp_env := true, stack := [.script, .protected_call] }

/-- The end of the user code: `JMP_ENV` is cleared, and `protected_js` checks
the memory that is left. -/
def leave (s : State) (thrown : Option Thrown) (enough_memory : Bool) : State :=
  { s with
    jmp_env := false
    stack := []
    exception := thrown
    pc := if enough_memory then after_call s.pc else .ended }

/-- `wrap_callback`, up to the first line of its closure. Without enough memory
it throws and has not touched `JMP_ENV`. -/
def wrap_callback (s : State) (buffers : ℕ) (enough_memory : Bool) : State :=
  if !enough_memory then s
  else if s.jmp_env then { s with jmp_env := false, stack := .callback buffers :: s.stack }
  else s.panic .not_in_protected_call

/-- `oom_protected_callback`: the jump ends the protected call, and
`Instance::run` with it. -/
def oom_protected_callback (s : State) : State :=
  if s.jmp_env then { s with jmp_env := false, stack := [], pc := .ended }
  else s.panic .unprotected_oom

/-- `check_on_init` and `check_on_task`. -/
def check (s : State) (done terminated : Bool) : State :=
  match s.exception with
  | some .scripted => { s with stack := [.script] }
  | some .plain => { s with pc := after_exception terminated s.pc }
  | none =>
    match s.pc with
    | .check_init => { s with pc := .idle }
    | _ => { s with pc := if done then .idle else .waiting }

/-- One step of the executor thread. -/
def step (s : State) (a : Action) : Option State :=
  if s.panicked.isSome then none
  else match a, s.stack with
  | .enter, [] => if s.pc = .init ∨ s.pc = .dispatch ∨ s.pc = .resume then some (enter s) else none
  | .leave thrown enough_memory, [.script, .protected_call] => some (leave s thrown enough_memory)
  | .call_host buffers enough_memory, .script :: _ => some (wrap_callback s buffers enough_memory)
  | .get_index accessor, .callback (unread + 1) :: below =>
    if accessor then some { s with stack := .script :: .callback unread :: below }
    else some { s with stack := .callback unread :: below }
  | .host_return, .callback _ :: below => some { s with jmp_env := true, stack := below }
  | .hidden_return _, .script :: .callback unread :: below =>
    some { s with stack := .callback unread :: below }
  | .hidden_return failed, [.script] => some { s with stack := [], pc := after_hidden failed s.pc }
  | .oom, .script :: _ => some (oom_protected_callback s)
  | .recv_task, [] => if s.pc = .idle then some { s with pc := .lookup, exception := none } else none
  | .shutdown, [] => if s.pc = .idle then some { s with pc := .ended } else none
  | .get_dispatch_event accessor, [] =>
    if s.pc = .lookup then
      if accessor then some { s with stack := [.script] } else some { s with pc := .dispatch }
    else none
  | .check done terminated, [] =>
    if s.pc = .check_init ∨ s.pc = .check_task then some (check s done terminated) else none
  | .wait_result received, [] =>
    if s.pc = .waiting then some { s with pc := if received then .resume else .ended } else none
  | _, _ => none

/-- The executor thread in `Instance::run`. -/
def machine : Machine State Action := ⟨step⟩

/-- User JavaScript executes. -/
def in_script (s : State) : Prop := s.stack.head? = some .script

/-- User code runs under a protected call only, and nothing has panicked. -/
def Protected (s : State) : Prop := (in_script s → s.jmp_env = true) ∧ s.panicked = none

/-- The script has hidden no code behind what the host touches here: no
accessor in a buffer list, no accessor for `_dispatchEvent`, no thrown object
with a conversion of its own. -/
def no_hidden_entry (s : State) : Action → Prop
  | .get_index accessor => accessor = false
  | .get_dispatch_event accessor => accessor = false
  | .check _ _ => s.exception ≠ some .scripted
  | _ => True

/-- The stacks that come about when the host never enters user code by accident,
each with its `JMP_ENV`. -/
inductive Shape : List Frame → Bool → Prop
  | host : Shape [] false
  | script : Shape [.script, .protected_call] true
  | callback (unread : ℕ) : Shape [.callback unread, .script, .protected_call] false

def Sound (s : State) : Prop := Shape s.stack s.jmp_env ∧ s.panicked = none

theorem sound_start : Sound start := ⟨.host, rfl⟩

theorem Sound.is_protected {s : State} (h : Sound s) : Protected s := by
  obtain ⟨hshape, hpanic⟩ := h
  refine ⟨fun hscript => ?_, hpanic⟩
  unfold in_script at hscript
  generalize s.stack = stack at hshape hscript
  generalize s.jmp_env = env at hshape
  cases hshape with
  | host => cases hscript
  | script => rfl
  | callback unread => cases hscript

/-- The step lemma: a step that enters no hidden code keeps `JMP_ENV` set exactly
while a script runs; one that does runs user code without it. -/
theorem step_cases {s s' : State} {a : Action} (h : Sound s) (hs : step s a = some s') :
    (no_hidden_entry s a ∧ Sound s')
    ∨ (¬ no_hidden_entry s a ∧ in_script s' ∧ s'.jmp_env = false ∧ s'.panicked = none) := by
  obtain ⟨env, stack, pc, exception, panicked⟩ := s
  obtain ⟨hshape, hpanic⟩ := h
  dsimp only at hshape hpanic
  subst hpanic
  cases hshape with
  | host =>
      cases a with
      | enter =>
          simp only [step, Option.isSome_none, Bool.false_eq_true, if_false] at hs
          obtain ⟨-, hs⟩ := Option.ite_none_right_eq_some.1 hs
          obtain rfl := Option.some.inj hs
          exact Or.inl ⟨trivial, .script, rfl⟩
      | recv_task | shutdown | wait_result =>
          simp only [step, Option.isSome_none, Bool.false_eq_true, if_false] at hs
          obtain ⟨-, hs⟩ := Option.ite_none_right_eq_some.1 hs
          obtain rfl := Option.some.inj hs
          exact Or.inl ⟨trivial, .host, rfl⟩
      | get_dispatch_event accessor =>
          simp only [step, Option.isSome_none, Bool.false_eq_true, if_false] at hs
          obtain ⟨-, hs⟩ := Option.ite_none_right_eq_some.1 hs
          cases accessor with
          | false =>
              obtain rfl := Option.some.inj hs
              exact Or.inl ⟨rfl, .host, rfl⟩
          | true =>
              obtain rfl := Option.some.inj hs
              exact Or.inr ⟨by simp [no_hidden_entry], rfl, rfl, rfl⟩
      | check done terminated =>
          simp only [step, Option.isSome_none, Bool.false_eq_true, if_false] at hs
          obtain ⟨-, hs⟩ := Option.ite_none_right_eq_some.1 hs
          obtain rfl := Option.some.inj hs
          unfold check
          rcases exception with _ | _ | _
          · refine Or.inl ⟨by simp [no_hidden_entry], ?_⟩
            cases pc <;> exact ⟨.host, rfl⟩
          · exact Or.inl ⟨by simp [no_hidden_entry], .host, rfl⟩
          · -- the conversion of the thrown object is user code
            exact Or.inr ⟨by simp [no_hidden_entry], rfl, rfl, rfl⟩
      | _ => simp [step] at hs
  | script =>
      cases a with
      | leave | oom =>
          obtain rfl := Option.some.inj hs
          exact Or.inl ⟨trivial, .host, rfl⟩
      | call_host buffers enough_memory =>
          obtain rfl := Option.some.inj hs
          cases enough_memory with
          | false => exact Or.inl ⟨trivial, .script, rfl⟩
          | true => exact Or.inl ⟨trivial, .callback buffers, rfl⟩
      | _ => simp [step] at hs
  | callback unread =>
      cases a with
      | get_index accessor =>
          cases unread with
          | zero => simp [step] at hs
          | succ unread =>
              cases accessor with
              | false =>
                  obtain rfl := Option.some.inj hs
                  exact Or.inl ⟨rfl, .callback unread, rfl⟩
              | true =>
                  obtain rfl := Option.some.inj hs
                  exact Or.inr ⟨by simp [no_hidden_entry], rfl, rfl, rfl⟩
      | host_return =>
          obtain rfl := Option.some.inj hs
          exact Or.inl ⟨trivial, .script, rfl⟩
      | _ => simp [step] at hs

theorem sound_step (s : State) (a : Action) (s' : State) (h : Sound s) (hc : no_hidden_entry s a)
    (hs : machine.step s a = some s') : Sound s' := by
  rcases step_cases h hs with ⟨-, hsound⟩ | ⟨hentry, -⟩
  · exact hsound
  · exact absurd hc hentry

/-- A hidden entry runs user code without `JMP_ENV`, and its next host call
panics. -/
theorem hidden_entry (s : State) (a : Action) (s' : State) (h : Sound s) (hc : ¬ no_hidden_entry s a)
    (hs : machine.step s a = some s') :
    in_script s' ∧ s'.jmp_env = false ∧ s'.panicked = none := by
  rcases step_cases h hs with ⟨hentry, -⟩ | ⟨-, hin⟩
  · exact absurd hentry hc
  · exact hin

/-- **When the protocol holds.** User code runs under a protected call only, and
nothing panics, in every state of a run if and only if the host enters no hidden
code in it. Where it does, one call of `_rt_callService` or `queueMicrotask` in
the hidden code aborts the process. -/
theorem protected_iff (as : List Action) :
    (machine.Always Protected start as ↔ machine.Meets no_hidden_entry start as)
    ∧ ∀ s a s', machine.Meets no_hidden_entry start as → machine.run start as = some s →
        machine.step s a = some s' → ¬ no_hidden_entry s a →
        ∃ t, machine.step s' (.call_host 0 true) = some t
          ∧ t.panicked = some .not_in_protected_call := by
  constructor
  · refine machine.always_iff_meets (fun s h => h.is_protected) sound_step (fun s a s' h hc hs hp => ?_)
      sound_start
    obtain ⟨hscript, hnone, _⟩ := hidden_entry s a s' h hc hs
    have hset := hp.1 hscript
    rw [hnone] at hset
    cases hset
  · intro s a s' hmeets hrun hs hc
    have hsound := machine.run_invariant_of_meets sound_step sound_start hmeets hrun
    obtain ⟨hscript, hnone, hpanic⟩ := hidden_entry s a s' hsound hc hs
    obtain ⟨env, stack, pc, exception, panicked⟩ := s'
    dsimp only at hnone hpanic
    subst hnone hpanic
    unfold in_script at hscript
    dsimp only at hscript
    cases stack with
    | nil => cases hscript
    | cons frame below =>
        cases hscript
        exact ⟨_, rfl, rfl⟩

/-- `_rt_callService("..", buffers)` at the start of the script, where the first
element of `buffers` has a getter that calls `queueMicrotask`. -/
def getter_in_buffers : List Action :=
  [.enter, .call_host 1 true, .get_index true, .call_host 0 true]

theorem getter_aborts :
    ∃ s, machine.run start getter_in_buffers = some s
      ∧ s.panicked = some .not_in_protected_call ∧ ¬ machine.Always Protected start getter_in_buffers := by
  refine ⟨_, rfl, rfl, fun h => ?_⟩
  have hlast := (((h.2 _ rfl).2 _ rfl).2 _ rfl).2 _ rfl
  exact absurd hlast.2 (by decide)

end ProtectedCall

end RustyWorkers

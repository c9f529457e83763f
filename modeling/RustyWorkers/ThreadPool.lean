/-
The pool of isolate threads: `IsolateThreadPool` and its `ThreadGuard`
(`rusty-workers-runtime/src/isolate.rs`).

`run` first waits for a permit of the semaphore, then pops a thread, and gives
both back through two guards. The thread guard is declared after the permit, so
it is dropped first, however the call comes to an end: with the result, by the
panic of an `unwrap`, or because its future is dropped at one of the three
`await`s. The two drops are two steps, between which other calls go on.

The semaphore is fair. A permit that is given back goes to the first of its
waiters, who then has it before he runs again, and may be cancelled in between.
What the thread does with a job is in the action: whether the channel takes the
job, and whether a result comes back.
-/
import RustyWorkers.Lib.Machine
import RustyWorkers.Lib.Sums

set_option autoImplicit false

namespace RustyWorkers

open Lib

namespace ThreadPool

/-- Where a call of `IsolateThreadPool::run` is. -/
inductive Pc where
  | start
  | acquiring
  | granted
  | acquired
  | sending (th : ℕ)
  | receiving (th : ℕ)
  | dropping_guard (th : ℕ)
  | dropping_permit
  | ended
  | panicked
deriving DecidableEq, Repr

/-- `IsolateThreadPool`: the stack of threads, and the `notifier` with its queue
of waiters. The calls have numbers, in the order in which they were made. -/
structure State where
  threads : List ℕ
  permits : ℕ
  waiters : List ℕ
  calls : List Pc
deriving DecidableEq, Repr

inductive Action where
  | run
  | acquire (i : ℕ)
  | resume (i : ℕ)
  | pop (i : ℕ)
  | send (i : ℕ) (sent : Bool)
  | receive (i : ℕ)
  | drop_guard (i : ℕ)
  | drop_permit (i : ℕ)
  | cancel (i : ℕ)
deriving DecidableEq, Repr

/-- `IsolateThreadPool::new`. -/
def new (size : ℕ) : State := ⟨List.range size, size, [], []⟩

namespace State

def goto (s : State) (i : ℕ) (pc : Pc) : State := { s with calls := s.calls.set i pc }

/-- A permit is given back to the semaphore. -/
def release (s : State) : State :=
  match s.waiters with
  | w :: waiters => { s.goto w .granted with waiters := waiters }
  | [] => { s with permits := s.permits + 1 }

/-- The first poll of `notifier.acquire()`. -/
def acquire (s : State) (i : ℕ) : State :=
  if 0 < s.permits then { s.goto i .acquired with permits := s.permits - 1 }
  else { s.goto i .acquiring with waiters := s.waiters ++ [i] }

/-- `threads.lock().unwrap().pop().expect(..)`. -/
def pop (s : State) (i : ℕ) : State :=
  match s.threads with
  | th :: threads => { s.goto i (.sending th) with threads := threads }
  | [] => s.goto i .panicked

end State

/-- A step of call `i`, which is at `pc`. -/
def call_step (s : State) (i : ℕ) (pc : Pc) : Action → Option State
  | .acquire _ => if pc = .start then some (s.acquire i) else none
  | .resume _ => if pc = .granted then some (s.goto i .acquired) else none
  | .pop _ => if pc = .acquired then some (s.pop i) else none
  | .send _ sent =>
    match pc with
    -- without a receiver the `unwrap` panics
    | .sending th => some (s.goto i (if sent then .receiving th else .dropping_guard th))
    | _ => none
  | .receive _ =>
    match pc with
    | .receiving th => some (s.goto i (.dropping_guard th))
    | _ => none
  | .drop_guard _ =>
    match pc with
    | .dropping_guard th => some { s.goto i .dropping_permit with threads := th :: s.threads }
    | _ => none
  | .drop_permit _ => if pc = .dropping_permit then some (s.goto i .ended).release else none
  | .cancel _ =>
    match pc with
    | .start => some (s.goto i .ended)
    | .acquiring => some { s.goto i .ended with waiters := s.waiters.erase i }
    -- a permit that was on its way to the call goes to the next one
    | .granted => some (s.goto i .ended).release
    | .sending th => some (s.goto i (.dropping_guard th))
    | .receiving th => some (s.goto i (.dropping_guard th))
    | _ => none
  | .run => none

def Action.call : Action → Option ℕ
  | .run => none
  | .acquire i | .resume i | .pop i | .send i _ | .receive i | .drop_guard i | .drop_permit i | .cancel i => some i

def step (s : State) (a : Action) : Option State :=
  match a.call with
  | none => some { s with calls := s.calls ++ [.start] }
  | some i => s.calls[i]?.bind fun pc => call_step s i pc a

/-- A pool and all that call it. -/
def machine : Machine State Action := ⟨step⟩

/-! ## Who has what -/

/-- The permits that a call has. -/
def Pc.permits : Pc → ℕ
  | .granted | .acquired | .sending _ | .receiving _ | .dropping_guard _ | .dropping_permit => 1
  | .start | .acquiring | .ended | .panicked => 0

/-- The thread that the guard of a call has. -/
def Pc.thread : Pc → Option ℕ
  | .sending th | .receiving th | .dropping_guard th => some th
  | _ => none

/-- The call has a permit and has not popped yet. -/
def Pc.unpopped : Pc → ℕ
  | .granted | .acquired => 1
  | _ => 0

/-- The threads that the guards have. -/
def State.held (s : State) : List ℕ := s.calls.filterMap Pc.thread

/-- The permits of calls that have not popped yet. -/
def State.unpopped (s : State) : ℕ := (s.calls.map Pc.unpopped).sum

/-- What is promised of a pool of `size` threads. -/
structure Sound (size : ℕ) (s : State) : Prop where
  permits_covered : s.permits + s.unpopped ≤ s.threads.length
  no_panic : Pc.panicked ∉ s.calls
  each_thread_once : (s.threads ++ s.held).Perm (List.range size)
  all_back : (∀ pc ∈ s.calls, pc = .ended) → s.threads.Perm (List.range size) ∧ s.permits = size

/-- The two accounts, and the queue of the semaphore. -/
structure Inv (size : ℕ) (s : State) : Prop where
  permits : s.permits + (s.calls.map Pc.permits).sum = size
  threads : (s.threads ++ s.held).Perm (List.range size)
  waiting : ∀ w ∈ s.waiters, s.calls[w]? = some .acquiring
  waiters : s.waiters.Nodup
  no_panic : Pc.panicked ∉ s.calls

/-! ## The accounts of one call -/

variable {size : ℕ} {s s' : State} {i : ℕ} {pc pc' : Pc}

/-- A call whose guard has a thread has popped, and has its permit still. -/
theorem Pc.unpopped_add (pc : Pc) : pc.unpopped + pc.thread.toList.length ≤ pc.permits := by
  cases pc <;> simp [Pc.unpopped, Pc.thread, Pc.permits]

theorem unpopped_add_held (calls : List Pc) :
    (calls.map Pc.unpopped).sum + (calls.filterMap Pc.thread).length ≤ (calls.map Pc.permits).sum := by
  induction calls with
  | nil => exact le_rfl
  | cons pc calls ih =>
      have hone := pc.unpopped_add
      rw [List.map_cons, List.map_cons, List.sum_cons, List.sum_cons, List.filterMap_cons]
      rcases hth : pc.thread with _ | th
      · rw [hth, Option.toList_none, List.length_nil] at hone
        show _ + (calls.filterMap Pc.thread).length ≤ _
        omega
      · rw [hth, Option.toList_some, List.length_singleton] at hone
        show _ + (th :: calls.filterMap Pc.thread).length ≤ _
        rw [List.length_cons]
        omega

/-- Every permit that is free, or with a call that has not popped, has a thread
on the stack. -/
theorem Inv.covered (h : Inv size s) : s.permits + s.unpopped ≤ s.threads.length := by
  have hlen := h.threads.length_eq
  have hsum := unpopped_add_held s.calls
  have hpermits := h.permits
  rw [List.length_append, List.length_range] at hlen
  rw [State.held] at hlen
  rw [State.unpopped]
  omega

theorem Inv.sound (h : Inv size s) : Sound size s := by
  refine ⟨h.covered, h.no_panic, h.threads, fun hended => ?_⟩
  have hheld : s.held = [] := by
    rw [State.held, List.filterMap_eq_nil_iff]
    intro pc hpc
    rw [hended pc hpc]
    rfl
  have hnone : (s.calls.map Pc.permits).sum = 0 := by
    rw [List.sum_eq_zero_iff]
    intro n hn
    obtain ⟨pc, hpc, rfl⟩ := List.mem_map.1 hn
    rw [hended pc hpc]
    rfl
  refine ⟨?_, ?_⟩
  · have hthreads := h.threads
    rwa [hheld, List.append_nil] at hthreads
  · have hpermits := h.permits
    omega

theorem inv_new (size : ℕ) : Inv size (new size) := by
  refine ⟨Nat.add_zero size, ?_, fun w hw => absurd hw List.not_mem_nil, List.nodup_nil, List.not_mem_nil⟩
  show (List.range size ++ []).Perm _
  rw [List.append_nil]

/-! ## One step -/

/-- The calls that wait are not disturbed when another one goes on. -/
theorem Inv.waiting_goto (h : Inv size s) (hpc : s.calls[i]? = some pc) (hne : pc ≠ .acquiring) (pc' : Pc) :
    ∀ w ∈ s.waiters, (s.calls.set i pc')[w]? = some .acquiring := by
  intro w hw
  have hwi : i ≠ w := by
    rintro rfl
    have hacq := h.waiting i hw
    rw [hpc, Option.some.injEq] at hacq
    exact hne hacq
  rw [List.getElem?_set_ne hwi]
  exact h.waiting w hw

theorem Inv.no_panic_goto (h : Inv size s) (hne : pc' ≠ .panicked) (i : ℕ) : Pc.panicked ∉ s.calls.set i pc' := by
  intro hmem
  rcases List.mem_or_eq_of_mem_set hmem with hold | heq
  · exact h.no_panic hold
  · exact hne heq.symm

/-- Call `i` goes on: what it gets of permits and threads, the pool gives. -/
theorem Inv.account (h : Inv size s) (hpc : s.calls[i]? = some pc) (hcalls : s'.calls = s.calls.set i pc')
    (hpermits : s'.permits + pc'.permits = s.permits + pc.permits)
    (hthreads : (pc'.thread.toList ++ s'.threads).Perm (pc.thread.toList ++ s.threads))
    (hwaiting : ∀ w ∈ s'.waiters, (s.calls.set i pc')[w]? = some .acquiring) (hwaiters : s'.waiters.Nodup)
    (hne : pc' ≠ .panicked) : Inv size s' := by
  have hall := h.permits
  have hsum := sum_map_set Pc.permits hpc pc'
  refine ⟨?_, ?_, hcalls ▸ hwaiting, hwaiters, hcalls ▸ h.no_panic_goto hne i⟩
  · rw [hcalls]
    omega
  · have hheld : (pc.thread.toList ++ s'.held).Perm (pc'.thread.toList ++ s.held) := by
      rw [State.held, hcalls]
      exact perm_filterMap_set Pc.thread hpc pc'
    refine (List.perm_append_left_iff pc.thread.toList).1 ?_
    -- the thread that the call had goes to the front, the one that it gets to its hand
    calc
      List.Perm (pc.thread.toList ++ (s'.threads ++ s'.held)) (s'.threads ++ (pc.thread.toList ++ s'.held)) :=
        List.perm_append_comm_assoc _ _ _
      List.Perm _ (s'.threads ++ (pc'.thread.toList ++ s.held)) := hheld.append_left _
      List.Perm _ (pc'.thread.toList ++ (s'.threads ++ s.held)) := List.perm_append_comm_assoc _ _ _
      List.Perm _ (pc'.thread.toList ++ s'.threads ++ s.held) := List.Perm.of_eq (List.append_assoc _ _ _).symm
      List.Perm _ (pc.thread.toList ++ s.threads ++ s.held) := hthreads.append_right _
      List.Perm _ (pc.thread.toList ++ (s.threads ++ s.held)) := List.Perm.of_eq (List.append_assoc _ _ _)
      List.Perm _ (pc.thread.toList ++ List.range size) := h.threads.append_left _

/-- A step of a call that changes neither account. -/
theorem Inv.move (h : Inv size s) (hpc : s.calls[i]? = some pc) (hpermits : pc'.permits = pc.permits)
    (hthread : pc'.thread = pc.thread) (hne : pc ≠ .acquiring) (hne' : pc' ≠ .panicked) : Inv size (s.goto i pc') := by
  refine h.account hpc rfl ?_ ?_ (h.waiting_goto hpc hne pc') h.waiters hne'
  · rw [hpermits]
    rfl
  · rw [hthread]
    exact List.Perm.refl _

/-- The state of a call that has come to its end, but for its permit. -/
structure Owing (size : ℕ) (s : State) : Prop where
  permits : s.permits + (s.calls.map Pc.permits).sum + 1 = size
  threads : (s.threads ++ s.held).Perm (List.range size)
  waiting : ∀ w ∈ s.waiters, s.calls[w]? = some .acquiring
  waiters : s.waiters.Nodup
  no_panic : Pc.panicked ∉ s.calls

/-- The permit goes to the first waiter, or back to the free ones. -/
theorem Owing.release (h : Owing size s) : Inv size s.release := by
  have hall := h.permits
  rw [State.release]
  split
  · rename_i w waiters hw
    -- the first waiter has the permit before anybody else can take it
    have hnodup := h.waiters
    rw [hw, List.nodup_cons] at hnodup
    have hfirst : s.calls[w]? = some .acquiring := h.waiting w (by rw [hw]; exact List.mem_cons_self)
    have hsum := sum_map_set Pc.permits hfirst .granted
    have hperm : (s.goto w .granted).held.Perm s.held := perm_filterMap_set Pc.thread hfirst .granted
    refine ⟨?_, (hperm.append_left _).trans h.threads, ?_, hnodup.2, ?_⟩
    · show s.permits + ((s.calls.set w .granted).map Pc.permits).sum = size
      have h0 : Pc.permits .acquiring = 0 := rfl
      have h1 : Pc.permits .granted = 1 := rfl
      omega
    · intro v hv
      have hne : w ≠ v := by
        rintro rfl
        exact hnodup.1 hv
      show (s.calls.set w .granted)[v]? = _
      rw [List.getElem?_set_ne hne]
      exact h.waiting v (by rw [hw]; exact List.mem_cons_of_mem _ hv)
    · intro hmem
      rcases List.mem_or_eq_of_mem_set hmem with hold | heq
      · exact h.no_panic hold
      · cases heq
  · refine ⟨?_, h.threads, h.waiting, h.waiters, h.no_panic⟩
    show s.permits + 1 + (s.calls.map Pc.permits).sum = size
    omega

/-- A call without a thread ends, and owes its permit. -/
theorem Inv.owing (h : Inv size s) (hpc : s.calls[i]? = some pc) (hpermits : pc.permits = 1)
    (hthread : pc.thread = none) (hne : pc ≠ .acquiring) : Owing size (s.goto i .ended) := by
  have hsum := sum_map_set Pc.permits hpc .ended
  have hall := h.permits
  have hperm := perm_filterMap_set Pc.thread hpc .ended
  rw [hthread] at hperm
  refine ⟨?_, (hperm.append_left s.threads).trans h.threads, h.waiting_goto hpc hne .ended, h.waiters,
    h.no_panic_goto (fun heq => by cases heq) i⟩
  show s.permits + ((s.calls.set i .ended).map Pc.permits).sum + 1 = size
  have h0 : Pc.permits .ended = 0 := rfl
  omega

theorem Inv.acquire (h : Inv size s) (hpc : s.calls[i]? = some .start) : Inv size (s.acquire i) := by
  rw [State.acquire]
  by_cases hfree : 0 < s.permits
  · rw [if_pos hfree]
    refine h.account hpc rfl ?_ (List.Perm.refl _) (h.waiting_goto hpc (fun heq => by cases heq) .acquired) h.waiters
      (fun heq => by cases heq)
    show s.permits - 1 + 1 = s.permits + 0
    omega
  · -- the call joins the end of the queue
    rw [if_neg hfree]
    have hi : i ∉ s.waiters := by
      intro hmem
      have hacq := h.waiting i hmem
      rw [hpc] at hacq
      cases hacq
    refine h.account hpc rfl rfl (List.Perm.refl _) ?_ ?_ (fun heq => by cases heq)
    · intro w hw
      rcases List.mem_append.1 hw with hold | hnew
      · exact h.waiting_goto hpc (fun heq => by cases heq) .acquiring w hold
      · rw [List.mem_singleton.1 hnew]
        exact List.getElem?_set_self (List.getElem?_eq_some_iff.1 hpc).1
    · exact List.nodup_append.2 ⟨h.waiters, List.nodup_singleton i, fun v hv w hw => by
        rw [List.mem_singleton.1 hw]
        rintro rfl
        exact hi hv⟩

/-- A call with a permit finds a thread, because its permit is covered. -/
theorem Inv.pop (h : Inv size s) (hpc : s.calls[i]? = some .acquired) : Inv size (s.pop i) := by
  have hcovered := h.covered
  have hone : 1 ≤ s.unpopped := le_sum_map Pc.unpopped hpc
  rw [State.pop]
  rcases hth : s.threads with _ | ⟨th, threads⟩
  · -- without a thread the permit of this call would not be covered
    rw [hth, List.length_nil] at hcovered
    omega
  · refine h.account hpc rfl rfl ?_ (h.waiting_goto hpc (fun heq => by cases heq) (.sending th)) h.waiters
      (fun heq => by cases heq)
    rw [hth]
    exact List.Perm.refl _

/-- The guard of a call gives its thread back, while the permit is still its own. -/
theorem Inv.drop_guard {th : ℕ} (h : Inv size s) (hpc : s.calls[i]? = some (.dropping_guard th)) :
    Inv size { s.goto i .dropping_permit with threads := th :: s.threads } :=
  h.account hpc rfl rfl (List.Perm.refl _) (h.waiting_goto hpc (fun heq => by cases heq) .dropping_permit) h.waiters
    (fun heq => by cases heq)

/-- A call that waits in the queue is cancelled. -/
theorem Inv.leave (h : Inv size s) (hpc : s.calls[i]? = some .acquiring) :
    Inv size { s.goto i .ended with waiters := s.waiters.erase i } := by
  refine h.account hpc rfl rfl (List.Perm.refl _) ?_ (h.waiters.erase i) (fun heq => by cases heq)
  intro w hw
  obtain ⟨hne, hold⟩ := (h.waiters.mem_erase_iff).1 hw
  rw [List.getElem?_set_ne (Ne.symm hne)]
  exact h.waiting w hold

theorem Inv.run (h : Inv size s) : Inv size { s with calls := s.calls ++ [.start] } := by
  have hheld : State.held { s with calls := s.calls ++ [.start] } = s.held := by
    rw [State.held, List.filterMap_append]
    exact List.append_nil _
  refine ⟨?_, ?_, ?_, h.waiters, ?_⟩
  · have hall := h.permits
    rw [List.map_append, List.sum_append]
    show s.permits + (_ + 0) = size
    omega
  · rw [hheld]
    exact h.threads
  · intro w hw
    have hold := h.waiting w hw
    rw [List.getElem?_append_left (List.getElem?_eq_some_iff.1 hold).1]
    exact hold
  · intro hmem
    rcases List.mem_append.1 hmem with hold | hnew
    · exact h.no_panic hold
    · cases List.mem_singleton.1 hnew

theorem inv_call_step {a : Action} (h : Inv size s) (hpc : s.calls[i]? = some pc)
    (hs : call_step s i pc a = some s') : Inv size s' := by
  cases a with
  | run => cases hs
  | acquire j =>
      obtain ⟨rfl, hs⟩ := Option.ite_none_right_eq_some.1 hs
      exact Option.some.inj hs ▸ h.acquire hpc
  | resume j =>
      obtain ⟨rfl, hs⟩ := Option.ite_none_right_eq_some.1 hs
      exact Option.some.inj hs ▸ h.move hpc rfl rfl (fun heq => by cases heq) (fun heq => by cases heq)
  | pop j =>
      obtain ⟨rfl, hs⟩ := Option.ite_none_right_eq_some.1 hs
      exact Option.some.inj hs ▸ h.pop hpc
  | send j sent =>
      cases pc <;> try cases hs
      rename_i th
      cases sent
      · exact h.move hpc rfl rfl (fun heq => by cases heq) (fun heq => by cases heq)
      · exact h.move hpc rfl rfl (fun heq => by cases heq) (fun heq => by cases heq)
  | receive j =>
      cases pc <;> try cases hs
      exact h.move hpc rfl rfl (fun heq => by cases heq) (fun heq => by cases heq)
  | drop_guard j =>
      cases pc <;> try cases hs
      exact h.drop_guard hpc
  | drop_permit j =>
      obtain ⟨rfl, hs⟩ := Option.ite_none_right_eq_some.1 hs
      exact Option.some.inj hs ▸ (h.owing hpc rfl rfl (fun heq => by cases heq)).release
  | cancel j =>
      cases pc <;> try cases hs
      · exact h.move hpc rfl rfl (fun heq => by cases heq) (fun heq => by cases heq)
      · exact h.leave hpc
      · exact (h.owing hpc rfl rfl (fun heq => by cases heq)).release
      · exact h.move hpc rfl rfl (fun heq => by cases heq) (fun heq => by cases heq)
      · exact h.move hpc rfl rfl (fun heq => by cases heq) (fun heq => by cases heq)

/-- Every step of every call keeps both accounts. -/
theorem inv_step (s : State) (a : Action) (s' : State) (h : Inv size s) (hs : machine.step s a = some s') :
    Inv size s' := by
  change step s a = some s' at hs
  rw [step] at hs
  split at hs
  · exact Option.some.inj hs ▸ h.run
  · obtain ⟨pc, hpc, hcall⟩ := Option.bind_eq_some_iff.1 hs
    exact inv_call_step h hpc hcall

/-- **No permit without a thread.** For every size of the pool, in every state of
every run of its calls: the permits that are free, or with a call that has not
popped yet, are at most as many as the threads on the stack; the `expect` after
`pop` has not failed; every thread is in one place; and when all calls have ended,
all threads and permits are back. -/
theorem permits_have_threads (size : ℕ) (as : List Action) : machine.Always (Sound size) (new size) as :=
  machine.always_of_meets (fun _ => Inv.sound) (fun s a s' hi _ hs => inv_step s a s' hi hs) (inv_new size)
    (machine.meets_true _ as)

/-- Two calls on a pool of one thread: the second waits, is given the permit when
the first has been cancelled at its `send`, and is cancelled before it runs. -/
example : machine.run (new 1) [.run, .run, .acquire 0, .pop 0, .acquire 1, .cancel 0, .drop_guard 0, .drop_permit 0,
    .cancel 1] = some ⟨[0], 1, [], [.ended, .ended]⟩ := by decide

end ThreadPool

end RustyWorkers

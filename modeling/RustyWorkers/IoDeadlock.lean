/-
When the executor and its `IoProcessor` deadlock.

`IoWaiter::issue` blocks when the task channel is full, and never counts the
call against `max_io_per_request`: `call_service_callback` passes
`count_budget = false`. So the channel can be full while the processor holds
one more call for which it has no permit, and every call in flight may come to
ask for a buffer that only the blocked executor could allocate.

`Prone` describes that situation before the last requests have been made. It
cannot arise while the executor is blocked, so it is enough, and necessary,
that no call is issued in it.
-/
import RustyWorkers.Io

set_option autoImplicit false

namespace RustyWorkers

open Lib

namespace IoState

/-- The circular wait: the executor blocked in `issue`, the processor blocked on
a permit, every call in flight blocked in `allocate_arraybuffer`. -/
def Deadlocked (conf : ExecutorConfiguration) (s : IoState) : Prop :=
  (∃ index task, s.executor = .issuing index task)
    ∧ s.backlog.length = backlog_capacity conf
    ∧ (∃ index task, s.run = .acquire index task)
    ∧ s.permits = 0
    ∧ ∀ x ∈ s.tasks, ∃ n, x.pc = .allocating n

/-- The channel is full, the processor waits for a permit, there is none, and
every call in flight is a `Fetch`, `KvGet` or `KvScan` that has not got its
buffers. -/
def Prone (conf : ExecutorConfiguration) (s : IoState) : Prop :=
  s.backlog.length = backlog_capacity conf
    ∧ (∃ index task, s.run = .acquire index task)
    ∧ s.permits = 0
    ∧ ∀ x ∈ s.tasks, x.task.v.allocates = true ∧ x.pc ≠ .allocated

/-- No call is issued in a prone state. -/
def issues_safely (conf : ExecutorConfiguration) (s : IoState) : IoAction → Prop
  | .issue _ _ _ => ¬ Prone conf s
  | _ => True

/-- The channel is never overfull, only calls that allocate wait for buffers,
and a blocked executor is not in a prone state. -/
structure Safe (conf : ExecutorConfiguration) (s : IoState) : Prop where
  capacity : s.backlog.length ≤ backlog_capacity conf
  asking : ∀ x ∈ s.tasks, ∀ n, x.pc = .allocating n → x.task.v.allocates = true
  blocked : (∃ index task, s.executor = .issuing index task) → ¬ Prone conf s

theorem safe_new (conf : ExecutorConfiguration) : Safe conf (new conf) where
  capacity := Nat.zero_le _
  asking := by simp [new]
  blocked := by simp [new]

/-- A deadlock is a prone state with a blocked executor. -/
theorem Safe.not_deadlocked {conf : ExecutorConfiguration} {s : IoState} (h : Safe conf s) :
    ¬ Deadlocked conf s := by
  rintro ⟨hissuing, hfull, hacquire, hpermits, htasks⟩
  refine h.blocked hissuing ⟨hfull, hacquire, hpermits, fun x hx => ?_⟩
  obtain ⟨n, hn⟩ := htasks x hx
  exact ⟨h.asking x hx n hn, by simp [hn]⟩

variable {conf : ExecutorConfiguration} {s s' : IoState}

theorem reply_task (granted : Bool) (index : ℕ) (x : InFlight) :
    (x.reply granted index).task = x.task := by
  unfold InFlight.reply
  split
  · split <;> rfl
  · rfl

/-- An answer never makes a call ask for more. -/
theorem reply_allocating {granted : Bool} {index n : ℕ} {x : InFlight}
    (h : (x.reply granted index).pc = .allocating n) : ∃ m, x.pc = .allocating m := by
  unfold InFlight.reply at h
  split at h
  · split at h
    · exact ⟨_, ‹_›⟩
    · cases h
    · exact ⟨n, h⟩
  · exact ⟨n, h⟩

theorem orphan_not_allocating (x : InFlight) (n : ℕ) : x.orphan.pc ≠ .allocating n := by
  unfold InFlight.orphan
  split
  · simp
  · rename_i hno
    exact hno n

/-- The step lemma: where no call is issued in a prone state, no step makes a
blocked executor's state prone. -/
theorem safe_step (s : IoState) (a : IoAction) (s' : IoState) (h : Safe conf s)
    (hc : issues_safely conf s a) (hs : (machine conf).step s a = some s') : Safe conf s' := by
  change step conf s a = some s' at hs
  cases a with
  | issue task cb index =>
      obtain ⟨_, _, rfl⟩ := step_issue hs
      exact ⟨h.capacity, h.asking, fun _ => hc⟩
  | send =>
      obtain ⟨index, task, _, ⟨_, rfl⟩ | ⟨_, hroom, rfl⟩⟩ := step_send hs
      · exact ⟨h.capacity, h.asking, by simp⟩
      · refine ⟨?_, h.asking, by simp⟩
        rw [List.length_append, List.length_singleton]
        omega
  | wait =>
      obtain ⟨_, rfl⟩ := step_wait hs
      exact ⟨h.capacity, h.asking, by simp⟩
  | recv granted =>
      obtain ⟨hwait, hcase⟩ := step_recv hs
      rcases hcase with ⟨index, result, rest, cb, _, _, rfl⟩ | ⟨index, result, rest, _, _, rfl⟩
        | ⟨index, rest, _, rfl⟩ | ⟨_, _, _, rfl⟩
      · exact ⟨h.capacity, h.asking, by simp⟩
      · exact ⟨h.capacity, h.asking, by simp⟩
      · refine ⟨h.capacity, ?_, by simp [hwait]⟩
        intro y hy n hn
        obtain ⟨x, hx, rfl⟩ := List.mem_map.1 hy
        obtain ⟨m, hm⟩ := reply_allocating hn
        rw [reply_task]
        exact h.asking x hx m hm
      · exact ⟨h.capacity, h.asking, by simp⟩
  | drop_waiter =>
      obtain ⟨_, rfl⟩ := step_drop_waiter hs
      refine ⟨h.capacity, ?_, by simp [drop_waiter]⟩
      intro y hy n hn
      obtain ⟨x, _, rfl⟩ := List.mem_map.1 hy
      exact absurd hn (orphan_not_allocating x n)
  | kill =>
      obtain ⟨_, _, rfl⟩ := step_kill hs
      refine ⟨h.capacity, h.asking, fun _ hp => ?_⟩
      obtain ⟨_, _, hrun⟩ := hp.2.1
      cases hrun
  | next =>
      obtain ⟨_, ⟨index, task, rest, hbacklog, rfl⟩ | ⟨_, _, rfl⟩⟩ := step_next hs
      · -- the call that is taken leaves room behind
        have hcap := h.capacity
        rw [hbacklog, List.length_cons] at hcap
        refine ⟨?_, h.asking, fun _ hp => ?_⟩
        · change rest.length ≤ backlog_capacity conf
          omega
        · have hfull : rest.length = backlog_capacity conf := hp.1
          omega
      · refine ⟨h.capacity, h.asking, fun _ hp => ?_⟩
        obtain ⟨_, _, hrun⟩ := hp.2.1
        cases hrun
  | acquire =>
      obtain ⟨index, task, _, _, rfl⟩ := step_acquire hs
      refine ⟨h.capacity, ?_, fun _ hp => ?_⟩
      · intro x hx n hn
        rcases List.mem_append.1 hx with hold | hnew
        · exact h.asking x hold n hn
        · rw [List.mem_singleton.1 hnew] at hn
          cases hn
      · obtain ⟨_, _, hrun⟩ := hp.2.1
        cases hrun
  | request x n =>
      obtain ⟨hx, hworking, halloc, _, rfl⟩ := step_request hs
      refine ⟨h.capacity, ?_, fun hissuing hp => h.blocked hissuing ⟨hp.1, hp.2.1, hp.2.2.1, ?_⟩⟩
      · intro z hz n hn
        obtain ⟨y, hy, rfl⟩ := List.mem_map.1 hz
        by_cases hyx : y = x
        · rw [if_pos hyx]
          exact halloc
        · rw [if_neg hyx] at hn ⊢
          exact h.asking y hy n hn
      · -- the call that asks had not got its buffers before either
        intro y hy
        by_cases hyx : y = x
        · subst hyx
          exact ⟨halloc, by simp [hworking]⟩
        · have hz := hp.2.2.2 _ (List.mem_map.2 ⟨y, hy, rfl⟩)
          rw [if_neg hyx] at hz
          exact hz
  | finish x result =>
      obtain ⟨_, _, rfl⟩ := step_finish hs
      refine ⟨h.capacity, fun y hy n hn => h.asking y (List.mem_of_mem_erase hy) n hn,
        fun _ hp => ?_⟩
      have hfree : s.permits + 1 = 0 := hp.2.2.1
      omega
  | kill_task x =>
      obtain ⟨_, _, rfl⟩ := step_kill_task hs
      refine ⟨h.capacity, fun y hy n hn => h.asking y (List.mem_of_mem_erase hy) n hn,
        fun _ hp => ?_⟩
      have hfree : s.permits + 1 = 0 := hp.2.2.1
      omega
  | drop_scope =>
      obtain ⟨_, rfl⟩ := step_drop_scope hs
      exact ⟨h.capacity, h.asking, h.blocked⟩

/-! ## From a prone state to the deadlock -/

/-- The action is a call's request for buffers. -/
def IsRequest (a : IoAction) : Prop := ∃ x n, a = .request x n

/-- The calls in flight alone can bring the deadlock about. -/
def CanDeadlock (conf : ExecutorConfiguration) (s : IoState) : Prop :=
  ∃ bs t, (∀ b ∈ bs, IsRequest b) ∧ (machine conf).run s bs = some t ∧ Deadlocked conf t

theorem not_working_ask (alive : Bool) {n : ℕ} {x : InFlight} : (x.ask alive n).pc ≠ .working := by
  unfold InFlight.ask
  cases alive <;> simp

/-- A request in a prone state leaves it prone. -/
theorem prone_request (h : Prone conf s) (halive : s.executor ≠ .dropped) {x : InFlight}
    (hx : x ∈ s.tasks) : Prone conf (s.request x 1) := by
  refine ⟨h.1, h.2.1, h.2.2.1, ?_⟩
  intro z hz
  obtain ⟨y, hy, rfl⟩ := List.mem_map.1 hz
  by_cases hyx : y = x
  · rw [if_pos hyx]
    refine ⟨(h.2.2.2 x hx).1, ?_⟩
    simp [InFlight.ask, halive]
  · rw [if_neg hyx]
    exact h.2.2.2 y hy

/-- In a prone state with a blocked executor the calls still at work, all among
`todo`, ask one after the other, and then nobody can move. -/
theorem canDeadlock_of_prone (todo : List InFlight) (hprone : Prone conf s)
    (hissuing : ∃ index task, s.executor = .issuing index task)
    (htodo : ∀ y ∈ s.tasks, y.pc = .working → y ∈ todo) : CanDeadlock conf s := by
  induction todo generalizing s with
  | nil =>
      refine ⟨[], s, by simp, rfl, hissuing, hprone.1, hprone.2.1, hprone.2.2.1, fun y hy => ?_⟩
      have hno : y.pc ≠ .working := fun hw => by simpa using htodo y hy hw
      have hgot := (hprone.2.2.2 y hy).2
      cases hpc : y.pc with
      | working => exact absurd hpc hno
      | allocating n => exact ⟨n, rfl⟩
      | allocated => exact absurd hpc hgot
  | cons x todo ih =>
      by_cases hx : x ∈ s.tasks ∧ x.pc = .working
      · have halive : s.executor ≠ .dropped := by
          obtain ⟨index, task, he⟩ := hissuing
          simp [he]
        have hstep : (machine conf).step s (.request x 1) = some (s.request x 1) := by
          change (if x ∈ s.tasks ∧ x.pc = .working ∧ x.task.v.allocates = true ∧ 0 < 1 then _ else _) = _
          rw [if_pos ⟨hx.1, hx.2, (hprone.2.2.2 x hx.1).1, Nat.one_pos⟩]
        have hrest : ∀ z ∈ (s.request x 1).tasks, z.pc = .working → z ∈ todo := by
          intro z hz hw
          obtain ⟨y, hy, rfl⟩ := List.mem_map.1 hz
          by_cases hyx : y = x
          · rw [if_pos hyx] at hw
            exact absurd hw (not_working_ask _)
          · rw [if_neg hyx] at hw ⊢
            exact (List.mem_cons.1 (htodo y hy hw)).resolve_left hyx
        obtain ⟨bs, t, hbs, hrun, hdead⟩ := ih (prone_request hprone halive hx.1) hissuing hrest
        refine ⟨.request x 1 :: bs, t, ?_, ?_, hdead⟩
        · intro b hb
          rcases List.mem_cons.1 hb with rfl | hb
          · exact ⟨x, 1, rfl⟩
          · exact hbs b hb
        · rw [Machine.run_cons, hstep]
          exact hrun
      · refine ih hprone hissuing fun y hy hw => ?_
        refine (List.mem_cons.1 (htodo y hy hw)).resolve_left ?_
        rintro rfl
        exact hx ⟨hy, hw⟩

/-- Requests do not issue calls. -/
theorem Safe.not_canDeadlock (h : Safe conf s) : ¬ CanDeadlock conf s := by
  rintro ⟨bs, t, hbs, hrun, hdead⟩
  have hmeets : (machine conf).Meets (issues_safely conf) s bs := by
    clear hrun
    induction bs generalizing s with
    | nil => trivial
    | cons b bs ih =>
        intro s' hs'
        have hb : issues_safely conf s b := by
          obtain ⟨x, n, rfl⟩ := hbs b List.mem_cons_self
          trivial
        exact ⟨hb, ih (safe_step s b s' h hb hs') fun b' hb' => hbs b' (List.mem_cons_of_mem b hb')⟩
  exact ((machine conf).run_invariant_of_meets safe_step h hmeets hrun).not_deadlocked hdead

theorem canDeadlock_of_issue {a : IoAction} (hs : (machine conf).step s a = some s')
    (hc : ¬ issues_safely conf s a) : CanDeadlock conf s' := by
  change step conf s a = some s' at hs
  cases a with
  | issue task cb index =>
      obtain ⟨_, _, rfl⟩ := step_issue hs
      have hprone : Prone conf s := not_not.1 hc
      exact canDeadlock_of_prone s.tasks hprone ⟨index, task, rfl⟩ fun y hy _ => hy
  | _ => exact absurd trivial hc

/-- Nothing that the parties do ends the circular wait. -/
theorem deadlocked_step {a : IoAction} (h : Deadlocked conf s)
    (hs : (machine conf).step s a = some s') : a = .drop_scope ∧ Deadlocked conf s' := by
  obtain ⟨⟨index, task, hexec⟩, hfull, ⟨index', task', hrun⟩, hpermits, htasks⟩ := h
  change step conf s a = some s' at hs
  cases a with
  | drop_scope =>
      obtain ⟨_, rfl⟩ := step_drop_scope hs
      exact ⟨rfl, ⟨index, task, hexec⟩, hfull, ⟨index', task', hrun⟩, hpermits, htasks⟩
  | send =>
      obtain ⟨_, _, _, ⟨hexited, _⟩ | ⟨_, hroom, _⟩⟩ := step_send hs
      · rw [hrun] at hexited
        cases hexited
      · omega
  | acquire =>
      obtain ⟨_, _, _, hfree, _⟩ := step_acquire hs
      omega
  | request x n =>
      obtain ⟨hx, hworking, _⟩ := step_request hs
      obtain ⟨m, hm⟩ := htasks x hx
      rw [hm] at hworking
      cases hworking
  | finish x result =>
      obtain ⟨hx, hno, _⟩ := step_finish hs
      obtain ⟨m, hm⟩ := htasks x hx
      exact absurd hm (hno m)
  | kill_task x =>
      obtain ⟨_, hexited, _⟩ := step_kill_task hs
      rw [hrun] at hexited
      cases hexited
  | issue task cb index => simp [step, hexec] at hs
  | wait => simp [step, hexec] at hs
  | recv granted => simp [step, hexec] at hs
  | drop_waiter => simp [step, hexec] at hs
  | kill => simp [step, hrun] at hs
  | next => simp [step, hrun] at hs

/-- **When the executor and the processor deadlock.** For every configuration
and every run: the calls in flight can bring about a deadlock in no state of
the run if and only if no call is issued in a prone state; so no run that keeps
to this reaches a deadlock. A deadlock, once reached, is there for good. -/
theorem deadlock_free_iff (conf : ExecutorConfiguration) :
    (∀ as, (machine conf).Always (fun s => ¬ CanDeadlock conf s) (new conf) as
      ↔ (machine conf).Meets (issues_safely conf) (new conf) as)
    ∧ (∀ as s, (machine conf).Meets (issues_safely conf) (new conf) as →
      (machine conf).run (new conf) as = some s → ¬ Deadlocked conf s)
    ∧ ∀ s a s', Deadlocked conf s → (machine conf).step s a = some s' →
      a = .drop_scope ∧ Deadlocked conf s' := by
  refine ⟨fun as => ?_, fun as s hmeets hrun => ?_, fun s a s' h hs => deadlocked_step h hs⟩
  · exact (machine conf).always_iff_meets (fun s h => h.not_canDeadlock) safe_step
      (fun s a s' _ hc hs hno => hno (canDeadlock_of_issue hs hc)) (safe_new conf)
  · exact ((machine conf).run_invariant_of_meets safe_step (safe_new conf) hmeets hrun).not_deadlocked

/-- `getRaw(key)` on the namespace `kv`. -/
def get_call : AsyncCall := ⟨.KvGet "kv", [[107]]⟩

/-- One call at a time, and no I/O budget: a channel for 200 calls. -/
def narrow_conf : ExecutorConfiguration := ⟨32, 1000, 1, 0⟩

/-- Issue `n` calls, which take the slots from `i` on. -/
def fill (i : ℕ) : ℕ → List IoAction
  | 0 => []
  | n + 1 => .issue get_call i i :: .send :: fill (i + 1) n

/-- While there is room in the channel, calls can be issued that nobody takes. -/
theorem run_fill (conf : ExecutorConfiguration) (n : ℕ) {s : IoState} {i : ℕ}
    (hexec : s.executor = .running) (hrun : s.run ≠ .exited)
    (hfree : ∀ j, i ≤ j → s.inflight j = none)
    (hroom : s.backlog.length + n ≤ backlog_capacity conf) :
    ∃ t, (machine conf).run s (fill i n) = some t ∧ t.executor = .running ∧ t.run = s.run
      ∧ (∀ j, i + n ≤ j → t.inflight j = none) ∧ t.backlog.length = s.backlog.length + n
      ∧ t.permits = s.permits ∧ t.tasks = s.tasks := by
  induction n generalizing s i with
  | zero => exact ⟨s, rfl, hexec, rfl, hfree, rfl, rfl, rfl⟩
  | succ n ih =>
      let s₁ : IoState :=
        { s with inflight := Function.update s.inflight i (some i), executor := .issuing i get_call }
      let s₂ : IoState := { s₁ with backlog := s.backlog ++ [(i, get_call)], executor := .running }
      have hissue : (machine conf).step s (.issue get_call i i) = some s₁ := by
        change (if s.executor = .running ∧ s.inflight i = none then _ else _) = _
        rw [if_pos ⟨hexec, hfree i le_rfl⟩]
        rfl
      have hsend : (machine conf).step s₁ .send = some s₂ := by
        change s₁.send conf i get_call = _
        unfold send
        rw [if_neg hrun, if_pos (show s.backlog.length < backlog_capacity conf by omega)]
      have hfree₂ : ∀ j, i + 1 ≤ j → s₂.inflight j = none := by
        intro j hj
        have hne : j ≠ i := by omega
        change Function.update s.inflight i (some i) j = none
        rw [Function.update_of_ne hne]
        exact hfree j (by omega)
      have hlen : s₂.backlog.length = s.backlog.length + 1 := by
        change (s.backlog ++ [(i, get_call)]).length = _
        rw [List.length_append, List.length_singleton]
      obtain ⟨t, ht, he, hr, hf, hl, hp, hx⟩ := ih (s := s₂) rfl hrun hfree₂ (by omega)
      refine ⟨t, ?_, he, hr, fun j hj => hf j (by omega), by omega, hp, hx⟩
      refine (machine conf).run_cons_eq_some.2 ⟨s₁, hissue, ?_⟩
      exact (machine conf).run_cons_eq_some.2 ⟨s₂, hsend, ht⟩

/-- 203 calls in one turn of the script: one in flight, one in the hands of the
processor, 200 in the channel, one blocked. Then the one in flight finds its
value and asks for a buffer. -/
def burst : List IoAction :=
  [.issue get_call 0 0, .send, .next, .acquire, .issue get_call 1 1, .send, .next]
    ++ (fill 2 200 ++ [.issue get_call 202 202, .request ⟨0, get_call, .working⟩ 1])

theorem burst_deadlocks :
    ∃ s, (machine narrow_conf).run (new narrow_conf) burst = some s ∧ Deadlocked narrow_conf s := by
  have hstart : ∃ s, (machine narrow_conf).run (new narrow_conf)
      [.issue get_call 0 0, .send, .next, .acquire, .issue get_call 1 1, .send, .next] = some s
      ∧ s.executor = .running ∧ s.run = .acquire 1 get_call ∧ s.backlog = [] ∧ s.permits = 0
      ∧ s.tasks = [⟨0, get_call, .working⟩] ∧ ∀ j, 2 ≤ j → s.inflight j = none := by
    refine ⟨_, rfl, rfl, rfl, rfl, rfl, rfl, fun j hj => ?_⟩
    change Function.update (Function.update (fun _ => none) 0 (some 0)) 1 (some 1) j = none
    rw [Function.update_of_ne (by omega), Function.update_of_ne (by omega)]
  obtain ⟨s, hs, hexec, hrun, hempty, hpermits, htasks, hfree⟩ := hstart
  have hroom : s.backlog.length + 200 ≤ backlog_capacity narrow_conf := by
    rw [hempty]
    decide
  have halive : s.run ≠ .exited := by simp [hrun]
  obtain ⟨t, ht, hexec', hrun', hfree', hlen, hpermits', htasks'⟩ :=
    run_fill narrow_conf 200 hexec halive hfree hroom
  have hlast : ∃ u, (machine narrow_conf).run t
      [.issue get_call 202 202, .request ⟨0, get_call, .working⟩ 1] = some u
      ∧ u.executor = .issuing 202 get_call ∧ u.backlog = t.backlog ∧ u.run = t.run
      ∧ u.permits = t.permits ∧ u.tasks = [⟨0, get_call, .allocating 1⟩] := by
    have hmem : (⟨0, get_call, .working⟩ : InFlight) ∈ t.tasks := by simp [htasks', htasks]
    have halloc : get_call.v.allocates = true := rfl
    refine ⟨IoState.request { t with
      inflight := Function.update t.inflight 202 (some 202)
      executor := .issuing 202 get_call } ⟨0, get_call, .working⟩ 1, ?_, rfl, rfl, rfl, rfl, ?_⟩
    · simp [machine, step, hexec', hfree' 202 le_rfl, issue, hmem, halloc]
    · simp [request, htasks', htasks, InFlight.ask]
  obtain ⟨u, hu, hexec'', hbacklog, hrun'', hpermits'', htasks''⟩ := hlast
  refine ⟨u, ?_, ⟨202, get_call, hexec''⟩, ?_, ⟨1, get_call, ?_⟩, ?_, fun x hx => ?_⟩
  · rw [burst, Machine.run_append, hs, Option.bind_some, Machine.run_append, ht]
    exact hu
  · rw [hbacklog, hlen, hempty]
    rfl
  · rw [hrun'', hrun', hrun]
  · rw [hpermits'', hpermits', hpermits]
  · rw [htasks'', List.mem_singleton] at hx
    exact ⟨1, by rw [hx]⟩

end IoState

end RustyWorkers

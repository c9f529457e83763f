/-
Which event answers which request: `Instance::run`
(`rusty-workers-runtime/src/executor.rs`) together with `FetchEvent`
(`librt/src/std.js`).

The instance executes one task after the other and keeps the reply channel of
the current one. Each task creates a `FetchEvent` in the heap of the script,
which outlives the task: an exception in a callback, or a `Done` of the script,
ends a task whose `respondWith` is still waiting for its promise. The waiting
continuations are the `responders`. When one of them goes on, in whatever later
task, it calls `SendFetchResponse`, and the call does not say which event it is
for: it takes the channel that is there.

A task has the number in which it was received, and its event and its channel
have the same number. An event that the script has constructed by itself has
none. The replies are recorded with what produced them.
-/
import RustyWorkers.Lib.Machine

set_option autoImplicit false

namespace RustyWorkers

open Lib

namespace FetchEvent

/-- Where `_respondWith` is: at its promise, at the body of the response, or
past `SendFetchResponse`. -/
inductive Phase where
  | awaiting
  | reading
  | answered
deriving DecidableEq

/-- A `_respondWith` of an event that has not come to its end. `guarded` says
that it was called by `respondWith`, which answers an exception with a 500. -/
structure Responder where
  event : Option ℕ
  phase : Phase
  guarded : Bool
deriving DecidableEq

/-- What a reply was made by. -/
inductive Origin where
  | event (e : Option ℕ)
  | script
  | error
  | default
deriving DecidableEq

/-- Where `Instance::run` is. -/
inductive InstancePc where
  | idle
  | running
  | waiting
  | ended
deriving DecidableEq

/-- How a protected call ends. -/
inductive Outcome where
  | completed
  | normal_exception
  | terminated
  | out_of_memory
deriving DecidableEq

structure State where
  pc : InstancePc
  received : ℕ
  task : Option ℕ
  fetch_response_channel : Option ℕ
  done : Bool
  events : List ℕ
  responders : List Responder
  replies : List (ℕ × Origin)
deriving DecidableEq

inductive Action where
  | recv_task (event_created : Bool)
  | respond_with (e : Option ℕ) (guarded : Bool)
  | settle (r : Responder)
  | send_fetch_response (r : Responder)
  | call_done (r : Responder)
  | throw (r : Responder) (logged : Bool)
  | script_send
  | script_done
  | finish (outcome : Outcome)
  | io_result
  | io_timeout
  | shutdown
deriving DecidableEq

/-- The script of the worker is about to run. -/
def start : State := ⟨.running, 0, none, none, false, [], [], []⟩

namespace State

/-- `InstanceState::try_send_fetch_response`. -/
def try_send_fetch_response (s : State) (origin : Origin) : State :=
  match s.fetch_response_channel with
  | some n => { s with fetch_response_channel := none, replies := s.replies ++ [(n, origin)] }
  | none => s

/-- The end of a task: a 500 if nothing has answered it, and the cleanup at the
top of the loop. -/
def end_task (s : State) : State :=
  { s.try_send_fetch_response .default with pc := .idle, task := none, done := false }

/-- `r` goes on as `rs`. -/
def become (s : State) (r : Responder) (rs : List Responder) : State :=
  { s with responders := s.responders.erase r ++ rs }

/-- What follows the protected call of the script or of a callback. -/
def finish (s : State) : Outcome → State
  | .completed =>
    match s.task with
    | none => { s with pc := .idle, done := false }
    | some _ => if s.done then s.end_task else { s with pc := .waiting }
  | .normal_exception =>
    match s.task with
    | none => { s with pc := .ended }
    | some _ => (s.try_send_fetch_response .error).end_task
  | .terminated => { s.try_send_fetch_response .error with pc := .ended }
  | .out_of_memory => { s with pc := .ended }

end State

/-- An exception in `_respondWith`: `respondWith` logs it and calls
`_respondWith` once more, with a response of its own. -/
def Responder.throw (r : Responder) (logged : Bool) : List Responder :=
  if r.guarded && logged then [⟨r.event, .reading, false⟩] else []

/-- A step of the code of the script, which runs. -/
def script_step (s : State) : Action → Option State
  | .respond_with e guarded =>
    if ∀ n ∈ e, n ∈ s.events then
      some { s with responders := s.responders ++ [⟨e, .awaiting, guarded⟩] }
    else none
  | .settle r =>
    if r ∈ s.responders ∧ r.phase = .awaiting then some (s.become r [{ r with phase := .reading }])
    else none
  | .send_fetch_response r =>
    if r ∈ s.responders ∧ r.phase = .reading then
      some ((s.try_send_fetch_response (.event r.event)).become r [{ r with phase := .answered }])
    else none
  | .call_done r =>
    if r ∈ s.responders ∧ r.phase = .answered then some { s.become r [] with done := true }
    else none
  | .throw r logged =>
    if r ∈ s.responders then some (s.become r (r.throw logged)) else none
  | .script_send => some (s.try_send_fetch_response .script)
  | .script_done => some { s with done := true }
  | .finish outcome => some (s.finish outcome)
  | _ => none

/-- One step of the instance. -/
def step (s : State) (a : Action) : Option State :=
  match s.pc with
  | .running => script_step s a
  | .idle =>
    match a with
    | .recv_task event_created =>
      some { s with
        pc := .running
        received := s.received + 1
        task := some s.received
        fetch_response_channel := some s.received
        events := if event_created then s.received :: s.events else s.events }
    | .shutdown => some { s with pc := .ended }
    | _ => none
  | .waiting =>
    match a with
    | .io_result => some { s with pc := .running }
    | .io_timeout => some { s.try_send_fetch_response .error with pc := .ended }
    | _ => none
  | .ended => none

/-- An instance with its script. -/
def machine : Machine State Action := ⟨step⟩

/-- A reply that a `respondWith` produced comes from the event of its task. -/
def RightClient (s : State) : Prop := ∀ n e, (n, Origin.event e) ∈ s.replies → e = some n

/-- When a `_respondWith` sends, the current task is that of its event, or has
been answered. -/
def answers_own_task (s : State) : Action → Prop
  | .send_fetch_response r => s.task = r.event ∨ s.fetch_response_channel = none
  | _ => True

/-- No `_respondWith` outlives its task: a script calls it for the event it is
given, and none is left when the next task comes. -/
def leaves_nothing (s : State) : Action → Prop
  | .recv_task _ => s.responders = []
  | .respond_with e _ => e = s.task
  | _ => True

/-- What a step of the instance can do. -/
inductive Effect (s : State) : Action → State → Prop
  | recv_task {event_created : Bool} (pc : s.pc = .idle) :
      Effect s (.recv_task event_created)
        { s with
          pc := .running
          received := s.received + 1
          task := some s.received
          fetch_response_channel := some s.received
          events := if event_created then s.received :: s.events else s.events }
  | shutdown (pc : s.pc = .idle) : Effect s .shutdown { s with pc := .ended }
  | io_result (pc : s.pc = .waiting) : Effect s .io_result { s with pc := .running }
  | io_timeout (pc : s.pc = .waiting) :
      Effect s .io_timeout { s.try_send_fetch_response .error with pc := .ended }
  | respond_with {e : Option ℕ} {guarded : Bool} (pc : s.pc = .running) :
      Effect s (.respond_with e guarded) { s with responders := s.responders ++ [⟨e, .awaiting, guarded⟩] }
  | settle {r : Responder} (pc : s.pc = .running) (mem : r ∈ s.responders) :
      Effect s (.settle r) (s.become r [{ r with phase := .reading }])
  | send_fetch_response {r : Responder} (pc : s.pc = .running) (mem : r ∈ s.responders) :
      Effect s (.send_fetch_response r)
        ((s.try_send_fetch_response (.event r.event)).become r [{ r with phase := .answered }])
  | call_done {r : Responder} (pc : s.pc = .running) (mem : r ∈ s.responders) :
      Effect s (.call_done r) { s.become r [] with done := true }
  | throw {r : Responder} {logged : Bool} (pc : s.pc = .running) (mem : r ∈ s.responders) :
      Effect s (.throw r logged) (s.become r (r.throw logged))
  | script_send (pc : s.pc = .running) : Effect s .script_send (s.try_send_fetch_response .script)
  | script_done (pc : s.pc = .running) : Effect s .script_done { s with done := true }
  | finish {outcome : Outcome} (pc : s.pc = .running) : Effect s (.finish outcome) (s.finish outcome)

theorem step_effect {s s' : State} {a : Action} (h : step s a = some s') : Effect s a s' := by
  unfold step at h
  split at h
  · rename_i hpc
    cases a with
    | respond_with e guarded =>
        obtain ⟨-, h⟩ := Option.ite_none_right_eq_some.1 h
        obtain rfl := Option.some.inj h
        exact .respond_with hpc
    | settle r =>
        obtain ⟨⟨hr, -⟩, h⟩ := Option.ite_none_right_eq_some.1 h
        obtain rfl := Option.some.inj h
        exact .settle hpc hr
    | send_fetch_response r =>
        obtain ⟨⟨hr, -⟩, h⟩ := Option.ite_none_right_eq_some.1 h
        obtain rfl := Option.some.inj h
        exact .send_fetch_response hpc hr
    | call_done r =>
        obtain ⟨⟨hr, -⟩, h⟩ := Option.ite_none_right_eq_some.1 h
        obtain rfl := Option.some.inj h
        exact .call_done hpc hr
    | throw r logged =>
        obtain ⟨hr, h⟩ := Option.ite_none_right_eq_some.1 h
        obtain rfl := Option.some.inj h
        exact .throw hpc hr
    | script_send =>
        obtain rfl := Option.some.inj h
        exact .script_send hpc
    | script_done =>
        obtain rfl := Option.some.inj h
        exact .script_done hpc
    | finish outcome =>
        obtain rfl := Option.some.inj h
        exact .finish hpc
    | _ => cases h
  · split at h
    · obtain rfl := Option.some.inj h
      exact .recv_task ‹_›
    · obtain rfl := Option.some.inj h
      exact .shutdown ‹_›
    · cases h
  · split at h
    · obtain rfl := Option.some.inj h
      exact .io_result ‹_›
    · obtain rfl := Option.some.inj h
      exact .io_timeout ‹_›
    · cases h
  · cases h

/-- The channel, while it is there, is that of the current task. -/
structure Paired (s : State) : Prop where
  right : RightClient s
  own : ∀ n, s.fetch_response_channel = some n → s.task = some n

theorem paired_start : Paired start := ⟨fun _ _ h => (nomatch h), fun _ h => (nomatch h)⟩

/-- A reply keeps the pairing, unless an event answers the task of another. -/
theorem Paired.try_send {s : State} (h : Paired s) {origin : Origin}
    (ho : ∀ e n, origin = .event e → s.fetch_response_channel = some n → e = some n) :
    Paired (s.try_send_fetch_response origin) := by
  unfold State.try_send_fetch_response
  split
  · next n hn =>
      refine ⟨fun k e he => ?_, fun k hk => by cases hk⟩
      rcases List.mem_append.1 he with he | he
      · exact h.right k e he
      · obtain ⟨rfl, horigin⟩ := Prod.mk.inj (List.mem_singleton.1 he)
        exact ho e k horigin.symm hn
  · exact h

theorem channel_after_send (s : State) (origin : Origin) :
    (s.try_send_fetch_response origin).fetch_response_channel = none := by
  unfold State.try_send_fetch_response
  split
  · rfl
  · next hn => exact hn

@[simp] theorem task_after_send (s : State) (origin : Origin) :
    (s.try_send_fetch_response origin).task = s.task := by
  unfold State.try_send_fetch_response
  split <;> rfl

@[simp] theorem responders_after_send (s : State) (origin : Origin) :
    (s.try_send_fetch_response origin).responders = s.responders := by
  unfold State.try_send_fetch_response
  split <;> rfl

/-- The answers of the instance itself are nobody's event. -/
theorem Paired.try_send_own {s : State} (h : Paired s) (origin : Origin)
    (ho : ∀ e, origin ≠ .event e) : Paired (s.try_send_fetch_response origin) :=
  h.try_send fun e _ he _ => absurd he (ho e)

theorem Paired.end_task {s : State} (h : Paired s) : Paired s.end_task := by
  refine ⟨(h.try_send_own .default (fun e he => by cases he)).right, fun n hn => ?_⟩
  rw [State.end_task, channel_after_send] at hn
  cases hn

theorem Paired.finish {s : State} (h : Paired s) (outcome : Outcome) : Paired (s.finish outcome) := by
  have herror := h.try_send_own .error (fun e he => by cases he)
  cases outcome with
  | completed =>
      simp only [State.finish]
      split
      · exact ⟨h.right, h.own⟩
      · split
        · exact h.end_task
        · exact ⟨h.right, h.own⟩
  | normal_exception =>
      simp only [State.finish]
      split
      · exact ⟨h.right, h.own⟩
      · exact herror.end_task
  | terminated => exact ⟨herror.right, herror.own⟩
  | out_of_memory => exact ⟨h.right, h.own⟩

/-- The step lemma. -/
theorem paired_step (s : State) (a : Action) (s' : State) (h : Paired s) (hc : answers_own_task s a)
    (hs : machine.step s a = some s') : Paired s' := by
  cases step_effect hs with
  | recv_task => exact ⟨h.right, fun n hn => hn⟩
  | io_timeout =>
      have hsent := h.try_send_own .error (fun e he => by cases he)
      exact ⟨hsent.right, hsent.own⟩
  | send_fetch_response pc mem =>
      rename_i r
      have hsent : Paired (s.try_send_fetch_response (.event r.event)) := by
        refine h.try_send fun e n he hn => ?_
        obtain rfl := Origin.event.inj he
        rcases hc with htask | hnone
        · rw [← htask]
          exact h.own n hn
        · rw [hnone] at hn
          cases hn
      exact ⟨hsent.right, hsent.own⟩
  | script_send => exact h.try_send_own .script fun e he => by cases he
  | finish => exact h.finish _
  | shutdown | io_result | respond_with | settle | call_done | throw | script_done => exact ⟨h.right, h.own⟩

/-- A `_respondWith` of another event answers the current task: the client of
that task gets its data. -/
theorem wrong_client (s : State) (a : Action) (s' : State) (h : Paired s)
    (hc : ¬ answers_own_task s a) (hs : machine.step s a = some s') : ¬ RightClient s' := by
  cases step_effect hs with
  | send_fetch_response pc mem =>
      rename_i r
      obtain ⟨htask, hchannel⟩ := not_or.1 hc
      obtain ⟨n, hn⟩ := Option.ne_none_iff_exists'.1 hchannel
      have hown := h.own n hn
      intro hright
      have hreply : (n, Origin.event r.event) ∈ (s.try_send_fetch_response (.event r.event)).replies := by
        simp [State.try_send_fetch_response, hn]
      exact htask (hown.trans (hright n r.event hreply).symm)
  | _ => exact absurd trivial hc

/-! ## Scripts that leave nothing behind -/

/-- While a task executes, every `_respondWith` is for its event. -/
def Owned (s : State) : Prop :=
  s.pc = .idle ∨ s.pc = .ended ∨ ∀ r ∈ s.responders, r.event = s.task

theorem owned_start : Owned start := Or.inr (Or.inr fun _ h => nomatch h)

theorem owned_become {s : State} (h : ∀ r ∈ s.responders, r.event = s.task) {r : Responder}
    (hr : r ∈ s.responders) {rs : List Responder} (hrs : ∀ q ∈ rs, q.event = r.event) :
    ∀ q ∈ (s.become r rs).responders, q.event = s.task := by
  intro q hq
  rcases List.mem_append.1 hq with hq | hq
  · exact h q (List.mem_of_mem_erase hq)
  · exact (hrs q hq).trans (h r hr)

theorem Responder.throw_event {r q : Responder} {logged : Bool} (h : q ∈ r.throw logged) :
    q.event = r.event := by
  unfold Responder.throw at h
  split at h
  · rw [List.mem_singleton.1 h]
  · cases h

theorem owned_finish {s : State} (h : ∀ r ∈ s.responders, r.event = s.task) (outcome : Outcome) :
    Owned (s.finish outcome) := by
  cases outcome with
  | completed =>
      simp only [State.finish]
      split
      · exact Or.inl rfl
      · split
        · exact Or.inl rfl
        · exact Or.inr (Or.inr h)
  | normal_exception =>
      simp only [State.finish]
      split
      · exact Or.inr (Or.inl rfl)
      · exact Or.inl rfl
  | terminated => exact Or.inr (Or.inl rfl)
  | out_of_memory => exact Or.inr (Or.inl rfl)

theorem Owned.responders {s : State} (h : Owned s) (hidle : s.pc ≠ .idle) (hended : s.pc ≠ .ended) :
    ∀ r ∈ s.responders, r.event = s.task := by
  rcases h with hpc | hpc | hown
  · exact absurd hpc hidle
  · exact absurd hpc hended
  · exact hown

theorem owned_step (s : State) (a : Action) (s' : State) (h : Owned s) (hc : leaves_nothing s a)
    (hs : machine.step s a = some s') : Owned s' := by
  have hrunning : s.pc = .running → ∀ r ∈ s.responders, r.event = s.task := fun pc =>
    h.responders (by simp [pc]) (by simp [pc])
  cases step_effect hs with
  | recv_task =>
      refine Or.inr (Or.inr fun r hr => ?_)
      have hnone : s.responders = [] := hc
      rw [hnone] at hr
      cases hr
  | shutdown | io_timeout => exact Or.inr (Or.inl rfl)
  | io_result pc => exact Or.inr (Or.inr (h.responders (by simp [pc]) (by simp [pc])))
  | respond_with pc =>
      refine Or.inr (Or.inr fun q hq => ?_)
      rcases List.mem_append.1 hq with hq | hq
      · exact hrunning pc q hq
      · rw [List.mem_singleton.1 hq]
        exact hc
  | settle pc mem =>
      exact Or.inr (Or.inr (owned_become (hrunning pc) mem fun q hq => by rw [List.mem_singleton.1 hq]))
  | send_fetch_response pc mem =>
      rename_i r
      have hsame : ∀ q ∈ (s.try_send_fetch_response (.event r.event)).responders,
          q.event = (s.try_send_fetch_response (.event r.event)).task := by simpa using hrunning pc
      exact Or.inr (Or.inr (owned_become hsame (by simpa using mem)
        fun q hq => by rw [List.mem_singleton.1 hq]))
  | call_done pc mem => exact Or.inr (Or.inr (owned_become (hrunning pc) mem fun q hq => nomatch hq))
  | throw pc mem =>
      exact Or.inr (Or.inr (owned_become (hrunning pc) mem fun q hq => Responder.throw_event hq))
  | script_send pc => exact Or.inr (Or.inr (by simpa using hrunning pc))
  | script_done pc => exact Or.inr (Or.inr (hrunning pc))
  | finish pc => exact owned_finish (hrunning pc) _

/-- Where no `_respondWith` outlives its task, each one that sends is for the
current task. -/
theorem answers_own_of_owned {s : State} (h : Owned s) {a : Action} {s' : State}
    (hs : machine.step s a = some s') : answers_own_task s a := by
  cases step_effect hs with
  | send_fetch_response pc mem => exact Or.inl (h.responders (by simp [pc]) (by simp [pc]) _ mem).symm
  | _ => trivial

/-- **When answers reach the right client.** A reply that a `respondWith`
produced has reached the client of its event, in every state of a run, if and
only if no `_respondWith` of another event, a leftover of an earlier task among
them, sends while a task is unanswered. A script that answers each event in the
task of that event, with no exception in between, meets this. -/
theorem right_client_iff (as : List Action) :
    (machine.Always RightClient start as ↔ machine.Meets answers_own_task start as)
    ∧ (machine.Meets leaves_nothing start as → machine.Always RightClient start as) := by
  refine ⟨machine.always_iff_meets (fun _ h => h.right) paired_step wrong_client paired_start, ?_⟩
  refine machine.always_of_meets (I := fun s => Paired s ∧ Owned s) (fun s h => h.1.right) ?_
    ⟨paired_start, owned_start⟩
  rintro s a s' ⟨hpaired, howned⟩ hc hs
  exact ⟨paired_step s a s' hpaired (answers_own_of_owned howned hs) hs, owned_step s a s' howned hc hs⟩

/-- The handler of the first event waits for a promise and a timer callback
throws, which ends that task. The promise settles while the second task
executes, and the first answer goes to the second client. -/
def leftover_answer : List Action :=
  [.finish .completed, .recv_task true, .respond_with (some 0) true, .finish .completed, .io_result,
    .finish .normal_exception, .recv_task true, .settle ⟨some 0, .awaiting, true⟩,
    .send_fetch_response ⟨some 0, .reading, true⟩]

theorem first_answer_to_second_client :
    (∃ s, machine.run start leftover_answer = some s ∧ (1, Origin.event (some 0)) ∈ s.replies)
      ∧ ¬ machine.Always RightClient start leftover_answer := by
  refine ⟨⟨_, rfl, by decide⟩, fun h => ?_⟩
  have hlast := ((((((((h.2 _ rfl).2 _ rfl).2 _ rfl).2 _ rfl).2 _ rfl).2 _ rfl).2 _ rfl).2 _ rfl).2 _ rfl
  exact absurd (hlast 1 (some 0) (by decide)) (by decide)

end FetchEvent

end RustyWorkers

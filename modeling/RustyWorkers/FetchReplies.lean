/-
Every accepted task is answered once, before the next one starts: the replies of
`Instance::run` (`rusty-workers-runtime/src/executor.rs`).

A fetch that has begun is in exactly one place (`Answered.place`), and only the
places "answered" and "cancelled" are for good. What the place of `run` adds is
in `Control`: `fetch_response_channel` is empty wherever `run` is not at work on
a task, and emptied when it goes there. So at `blocking_recv` the fetch of each
task that was taken off the channel has its one result, and when the slot of the
isolate is empty nothing is left to answer but what the closed channel refuses.
-/
import RustyWorkers.Executor

set_option autoImplicit false

namespace RustyWorkers

open Lib

namespace Executor

variable {ι : Type}

/-! ## The invariant -/

/-- What holds of the slot and the task of `run` at each of its states. -/
def Control (s : Instance ι) : Prop :=
  match s.pc with
  | .starting | .initializing | .ready | .script | .script_check | .loop_top =>
    s.fetch_response_channel = none
  | .receiving => s.fetch_response_channel = none ∧ s.io_waiter = false ∧ s.done = false
  | .received task => s.fetch_response_channel = none ∧ task ∈ s.dequeued ∧ task ∉ s.dispatched
  | .dispatching task => task ∈ s.dequeued ∧ task ∉ s.dispatched
  | .event | .checking | .waiting | .resuming | .calling | .callback | .finishing | .exited => True
  | .cleaned => s.fetch_response_channel = none ∧ s.task_rx = []

section

variable [DecidableEq ι]

/-- How often the fetch `id` is somewhere after it was taken off the channel. -/
def Instance.taken (s : Instance ι) (id : ι) : ℕ :=
  s.pc.in_hand.count id + s.fetch_response_channel.toList.count id + (s.results.map Prod.fst).count id

/-- How often the fetch `id` is anywhere. -/
def Instance.places (s : Instance ι) (id : ι) : ℕ :=
  s.sending.count id + s.task_rx.count id + s.cancelled.count id + s.taken id

/-- Each fetch is in one place, and at most once with the script. -/
structure Answered (s : Instance ι) : Prop where
  control : Control s
  once : s.fetches.Nodup
  place : ∀ id, s.places id = s.fetches.count id
  dequeued_once : s.dequeued.Nodup
  dequeued : ∀ id ∈ s.dequeued, 0 < s.taken id
  dispatched_once : s.dispatched.Nodup
  dispatched : ∀ id ∈ s.dispatched, id ∈ s.dequeued
  refused : ∀ id, (id, Answer.refused) ∈ s.results → id ∉ s.dequeued
  known : ∀ id, (id, Answer.error .NoSuchWorker) ∉ s.results

theorem answered_new : Answered (Instance.new : Instance ι) where
  control := rfl
  once := List.nodup_nil
  place := fun _ => rfl
  dequeued_once := List.nodup_nil
  dequeued := fun _ hid => by cases hid
  dispatched_once := List.nodup_nil
  dispatched := fun _ hid => by cases hid
  refused := fun _ hid => by cases hid
  known := fun _ hid => by cases hid

variable {s s' : Instance ι}

/-- A fetch that was taken off the channel is not in it, nor before it. -/
theorem Answered.not_waiting (h : Answered s) {id : ι} (hid : id ∈ s.dequeued) :
    s.sending.count id = 0 ∧ s.task_rx.count id = 0 ∧ s.cancelled.count id = 0 ∧ s.taken id = 1 := by
  have hplace := h.place id
  have htaken := h.dequeued id hid
  have honce := List.nodup_iff_count_le_one.1 h.once id
  rw [Instance.places] at hplace
  omega

/-- What `run` answers, and the drop of a sender. -/
def Answer.Given (a : Answer) : Prop := a ≠ .refused ∧ a ≠ .error .NoSuchWorker

/-- A step that moves fetches, and answers some of those that were accepted. -/
theorem Answered.keep (h : Answered s) (hcontrol : Control s') (hplaces : ∀ id, s'.places id = s.places id)
    (htaken : ∀ id, s.taken id ≤ s'.taken id)
    (hresults : ∀ p ∈ s'.results, p ∈ s.results ∨ p.2.Given)
    (hfetches : s'.fetches = s.fetches) (hdequeued : s'.dequeued = s.dequeued)
    (hdispatched : s'.dispatched = s.dispatched) : Answered s' where
  control := hcontrol
  once := by
    rw [hfetches]
    exact h.once
  place := by
    intro id
    rw [hplaces, hfetches]
    exact h.place id
  dequeued_once := by
    rw [hdequeued]
    exact h.dequeued_once
  dequeued := by
    intro id hid
    rw [hdequeued] at hid
    exact (h.dequeued id hid).trans_le (htaken id)
  dispatched_once := by
    rw [hdispatched]
    exact h.dispatched_once
  dispatched := by
    rw [hdispatched, hdequeued]
    exact h.dispatched
  refused := by
    intro id hid
    rw [hdequeued]
    rcases hresults _ hid with hold | hgiven
    · exact h.refused id hold
    · exact absurd rfl hgiven.1
  known := by
    intro id hid
    rcases hresults _ hid with hold | hgiven
    · exact h.known id hold
    · exact hgiven.2 rfl

/-- All that the invariant speaks of, but for the place of `run`. -/
def Instance.replies (s : Instance ι) :=
  (s.sending, s.task_rx, s.cancelled, s.fetch_response_channel, s.results, s.fetches, s.dequeued, s.dispatched)

/-- A step that changes nothing that is counted. -/
theorem Answered.move (h : Answered s) (hcontrol : Control s') (hhand : s'.pc.in_hand = s.pc.in_hand)
    (hreplies : s'.replies = s.replies) : Answered s' := by
  simp only [Instance.replies, Prod.mk.injEq] at hreplies
  obtain ⟨hsending, htask_rx, hcancelled, hchannel, hresults, hfetches, hdequeued, hdispatched⟩ := hreplies
  have htaken : ∀ id, s'.taken id = s.taken id := by
    intro id
    rw [Instance.taken, Instance.taken, hhand, hchannel, hresults]
  refine h.keep hcontrol (fun id => ?_) (fun id => (htaken id).ge) ?_ hfetches hdequeued hdispatched
  · rw [Instance.places, Instance.places, hsending, htask_rx, hcancelled, htaken]
  · intro p hp
    rw [hresults] at hp
    exact Or.inl hp

/-! ## The operations -/

omit [DecidableEq ι] in
/-- What `Control` says where user code runs does not depend on the channel. -/
theorem control_of_user_code (h : Control s) (huser : s.pc.user_code = true) (hpc : s'.pc = s.pc)
    (hchannel : s'.fetch_response_channel = s.fetch_response_channel ∨ s'.fetch_response_channel = none)
    (hdequeued : s'.dequeued = s.dequeued) (hdispatched : s'.dispatched = s.dispatched) : Control s' := by
  unfold Control at h ⊢
  rw [hpc, hdequeued, hdispatched]
  cases hpc : s.pc <;> simp_all [Pc.user_code]

omit [DecidableEq ι] in
theorem control_of_busy (hpc : s.pc = .checking ∨ s.pc = .waiting ∨ s.pc = .finishing) : Control s := by
  rw [Control]
  rcases hpc with hpc | hpc | hpc <;>
  · rw [hpc]
    trivial

/-- `try_send_fetch_response` answers the fetch behind the channel, if there is
one. -/
theorem answered_try_send (h : Answered s) {a : Answer} (ha : a.Given)
    (hcontrol : Control (s.try_send_fetch_response a)) : Answered (s.try_send_fetch_response a) := by
  rcases s.try_send_cases a with ⟨-, hs⟩ | ⟨id, hid, hs⟩
  · rw [hs]
    exact h
  · rw [hs] at hcontrol ⊢
    -- the fetch goes from behind the channel to the results
    have htaken : ∀ j, Instance.taken { s with
        fetch_response_channel := none, results := s.results ++ [(id, a)] } j = s.taken j := by
      intro j
      simp only [Instance.taken, hid, Option.toList, List.map_append, List.count_append, List.map_cons,
        List.map_nil, List.count_nil]
      omega
    refine h.keep hcontrol (fun j => ?_) (fun j => (htaken j).ge) ?_ rfl rfl rfl
    · rw [Instance.places, Instance.places, htaken]
    · intro p hp
      rcases List.mem_append.1 hp with hold | hnew
      · exact Or.inl hold
      · rw [List.mem_singleton.1 hnew]
        exact Or.inr ha

omit [DecidableEq ι] in
theorem map_dropped (ids : List ι) : (ids.map fun id => (id, Answer.dropped)).map Prod.fst = ids := by
  rw [List.map_map]
  exact List.map_id _

/-- The task that is in hand when `run` returns is dropped. -/
theorem answered_exit (h : Answered s) (tokens : ℕ) : Answered (s.exit tokens).2 := by
  have htaken : ∀ id, (s.exit tokens).2.taken id = s.taken id := by
    intro id
    change ([] : List ι).count id + s.fetch_response_channel.toList.count id
      + ((s.results ++ s.pc.in_hand.map fun id => (id, Answer.dropped)).map Prod.fst).count id = _
    rw [List.map_append, map_dropped, List.count_append, List.count_nil, Instance.taken]
    omega
  refine h.keep trivial (fun id => ?_) (fun id => (htaken id).ge) ?_ rfl rfl rfl
  · rw [Instance.places, Instance.places, htaken]
    rfl
  · intro p hp
    rcases List.mem_append.1 hp with hold | hnew
    · exact Or.inl hold
    · obtain ⟨id, -, rfl⟩ := List.mem_map.1 hnew
      exact Or.inr ⟨by simp, by simp⟩

/-- With the slot go the sender behind the channel, and the tasks in the queue. -/
theorem answered_cleanup (h : Answered s) (hpc : s.pc = .exited) : Answered s.cleanup := by
  have hhand : s.pc.in_hand = [] := by
    rw [hpc]
    rfl
  have htaken : ∀ id, s.cleanup.taken id = s.taken id + s.task_rx.count id := by
    intro id
    change ([] : List ι).count id + ([] : List ι).count id
      + ((s.results ++ (s.fetch_response_channel.toList ++ s.task_rx).map
          fun id => (id, Answer.dropped)).map Prod.fst).count id = _
    rw [List.map_append, map_dropped, List.count_append, List.count_append, List.count_nil, Instance.taken,
      hhand, List.count_nil]
    omega
  refine h.keep ⟨rfl, rfl⟩ (fun id => ?_) (fun id => ?_) ?_ rfl rfl rfl
  · rw [Instance.places, Instance.places, htaken]
    simp only [Instance.cleanup, List.count_nil]
    omega
  · rw [htaken]
    omega
  · intro p hp
    rcases List.mem_append.1 hp with hold | hnew
    · exact Or.inl hold
    · obtain ⟨id, -, rfl⟩ := List.mem_map.1 hnew
      exact Or.inr ⟨by simp, by simp⟩

/-! ## One step -/

/-- A new fetch is at the `send`. -/
theorem answered_fetch (h : Answered s) {id : ι} (hfresh : id ∉ s.fetches) :
    Answered { s with fetches := s.fetches ++ [id], sending := s.sending ++ [id] } where
  control := h.control
  once := by
    have hconcat := List.Nodup.concat hfresh h.once
    rwa [List.concat_eq_append] at hconcat
  place := by
    intro j
    have hplace := h.place j
    simp only [Instance.places, Instance.taken, List.count_append] at hplace ⊢
    omega
  dequeued_once := h.dequeued_once
  dequeued := h.dequeued
  dispatched_once := h.dispatched_once
  dispatched := h.dispatched
  refused := h.refused
  known := h.known

/-- The closed channel refuses a task that it never had. -/
theorem answered_refuse (h : Answered s) {id : ι} (hmem : id ∈ s.sending) :
    Answered { s with sending := s.sending.erase id, results := s.results ++ [(id, .refused)] } where
  control := h.control
  once := h.once
  place := by
    intro j
    have hplace := h.place j
    have hpos := List.count_pos_iff.2 hmem
    simp only [Instance.places, Instance.taken, List.count_erase, List.map_append, List.count_append,
      List.map_cons, List.map_nil, List.count_singleton] at hplace ⊢
    split
    · rename_i heq
      rw [eq_of_beq heq] at hpos
      omega
    · omega
  dequeued_once := h.dequeued_once
  dequeued := by
    intro j hj
    have htaken := h.dequeued j hj
    simp only [Instance.taken, List.map_append, List.count_append] at htaken ⊢
    omega
  dispatched_once := h.dispatched_once
  dispatched := h.dispatched
  refused := by
    intro j hj
    rcases List.mem_append.1 hj with hold | hnew
    · exact h.refused j hold
    · intro hdequeued
      cases List.mem_singleton.1 hnew
      have hwaiting := (h.not_waiting hdequeued).1
      have hpos := List.count_pos_iff.2 hmem
      omega
  known := by
    intro j hj
    rcases List.mem_append.1 hj with hold | hnew
    · exact h.known j hold
    · cases List.mem_singleton.1 hnew

/-- `run` takes a task off the channel. -/
theorem answered_recv (h : Answered s) (hpc : s.pc = .receiving) {task : ι} {rest : List ι}
    (hqueue : s.task_rx = task :: rest) :
    Answered { s with task_rx := rest, dequeued := s.dequeued ++ [task], pc := .received task } := by
  have hcontrol := h.control
  rw [Control, hpc] at hcontrol
  have hwaiting : 0 < s.task_rx.count task := by
    rw [hqueue]
    exact List.count_pos_iff.2 List.mem_cons_self
  have hnew : task ∉ s.dequeued := by
    intro hmem
    have hcount := (h.not_waiting hmem).2.1
    omega
  -- the task is in hand now, and counts as taken
  have htaken : ∀ id, Instance.taken { s with
      task_rx := rest, dequeued := s.dequeued ++ [task], pc := .received task } id
      = [task].count id + s.taken id := by
    intro id
    simp only [Instance.taken, hpc, Pc.in_hand, List.count_nil]
    omega
  exact {
    control := ⟨hcontrol.1, List.mem_append_right _ List.mem_cons_self,
      fun hmem => hnew (h.dispatched task hmem)⟩
    once := h.once
    place := by
      intro id
      have hplace := h.place id
      rw [Instance.places, hqueue, List.count_cons] at hplace
      rw [Instance.places, htaken, List.count_singleton]
      dsimp only
      omega
    dequeued_once := by
      have hconcat := List.Nodup.concat hnew h.dequeued_once
      rwa [List.concat_eq_append] at hconcat
    dequeued := by
      intro id hid
      rw [htaken]
      rcases List.mem_append.1 hid with hold | hlast
      · have hpos := h.dequeued id hold
        omega
      · rw [List.mem_singleton.1 hlast, List.count_singleton_self]
        omega
    dispatched_once := h.dispatched_once
    dispatched := fun id hid => List.mem_append_left _ (h.dispatched id hid)
    refused := by
      intro id hid hmem
      rcases List.mem_append.1 hmem with hold | hlast
      · exact h.refused id hid hold
      · -- an answered fetch is not in the channel
        have hplace := h.place task
        have honce := List.nodup_iff_count_le_one.1 h.once task
        rw [List.mem_singleton.1 hlast] at hid
        have hpos : 0 < (s.results.map Prod.fst).count task :=
          List.count_pos_iff.2 (List.mem_map_of_mem hid)
        rw [Instance.places, Instance.taken] at hplace
        omega
    known := h.known }

/-- `_dispatchEvent` is called with the task. -/
theorem answered_dispatch (h : Answered s) {task : ι} (hpc : s.pc = .dispatching task) :
    Answered { s with dispatched := s.dispatched ++ [task], pc := .event } := by
  have hcontrol := h.control
  rw [Control, hpc] at hcontrol
  obtain ⟨hdequeued, hnew⟩ := hcontrol
  have htaken : ∀ id, Instance.taken { s with
      dispatched := s.dispatched ++ [task], pc := .event } id = s.taken id := by
    intro id
    rw [Instance.taken, Instance.taken, hpc]
    rfl
  exact {
    control := trivial
    once := h.once
    place := by
      intro id
      rw [Instance.places, htaken]
      exact h.place id
    dequeued_once := h.dequeued_once
    dequeued := by
      intro id hid
      rw [htaken]
      exact h.dequeued id hid
    dispatched_once := by
      have hconcat := List.Nodup.concat hnew h.dispatched_once
      rwa [List.concat_eq_append] at hconcat
    dispatched := by
      intro id hid
      rcases List.mem_append.1 hid with hold | hlast
      · exact h.dispatched id hold
      · rw [List.mem_singleton.1 hlast]
        exact hdequeued
    refused := h.refused
    known := h.known }

/-- `populate_with_task` puts the sender of the task in hand into the slot. -/
theorem answered_populate (h : Answered s) {task : ι} (hpc : s.pc = .received task) (permits : ℕ) :
    Answered { s.populate_with_task task with permits := permits } := by
  have hcontrol := h.control
  rw [Control, hpc] at hcontrol
  have htaken : ∀ id, Instance.taken { s.populate_with_task task with permits := permits } id = s.taken id := by
    intro id
    simp only [Instance.taken, Instance.populate_with_task, Instance.start_timer, hpc, hcontrol.1, Pc.in_hand,
      Option.toList, List.count_nil]
    omega
  refine h.keep hcontrol.2 (fun id => ?_) (fun id => (htaken id).ge) (fun _ hp => Or.inl hp) rfl rfl rfl
  rw [Instance.places, Instance.places, htaken]
  rfl

omit [DecidableEq ι] in
theorem Pc.Moves.in_hand {pc pc' : Pc ι} (h : pc.Moves pc') : pc.in_hand = [] ∧ pc'.in_hand = [] := by
  cases h <;> exact ⟨rfl, rfl⟩

omit [DecidableEq ι] in
/-- The moves lead to states that need no more of the channel than the last. -/
theorem control_moves (h : Control s) {pc : Pc ι} (hmoves : s.pc.Moves pc) : Control { s with pc := pc } := by
  unfold Control at h ⊢
  generalize hold : s.pc = old at hmoves h
  cases hmoves <;> trivial

/-- A fetch goes from the `send` to the channel. -/
theorem answered_enqueue (h : Answered s) {id : ι} (hmem : id ∈ s.sending) (hroom : s.task_rx = [])
    (hopened : s.pc ≠ .cleaned) :
    Answered { s with sending := s.sending.erase id, task_rx := [id] } := by
  have hcontrol := h.control
  have hpos := List.count_pos_iff.2 hmem
  refine h.keep ?_ (fun j => ?_) (fun _ => le_rfl) (fun _ hp => Or.inl hp) rfl rfl rfl
  · unfold Control at hcontrol ⊢
    cases hpc : s.pc <;> simp_all
  · rw [Instance.places, Instance.places, hroom, List.count_nil, List.count_singleton, List.count_erase]
    change _ + _ + s.cancelled.count j + s.taken j = _
    by_cases heq : (id == j) = true
    · rw [if_pos heq]
      rw [eq_of_beq heq] at hpos
      omega
    · rw [if_neg heq]
      omega

/-- The caller gives up before its task is in the channel. -/
theorem answered_cancel (h : Answered s) {id : ι} (hmem : id ∈ s.sending) :
    Answered { s with sending := s.sending.erase id, cancelled := s.cancelled ++ [id] } := by
  have hpos := List.count_pos_iff.2 hmem
  refine h.keep h.control (fun j => ?_) (fun _ => le_rfl) (fun _ hp => Or.inl hp) rfl rfl rfl
  rw [Instance.places, Instance.places, List.count_append, List.count_singleton, List.count_erase]
  change _ + s.task_rx.count j + _ + s.taken j = _
  by_cases heq : (id == j) = true
  · rw [if_pos heq]
    rw [eq_of_beq heq] at hpos
    omega
  · rw [if_neg heq]
    omega

theorem answered_step {tokens : ℕ} {a : Action ι} {r : ℕ × Instance ι} (h : Answered s)
    (hs : s.step tokens a = some r) : Answered r.2 := by
  have hcontrol := h.control
  cases Instance.step_effect hs with
  | fetch handle fresh => exact answered_fetch h fresh
  | enqueue mem room opened => exact answered_enqueue h mem room opened
  | refuse mem closed => exact answered_refuse h mem
  | cancel mem => exact answered_cancel h mem
  | drop_handle => exact h.move hcontrol rfl rfl
  | respond user =>
    exact answered_try_send h ⟨by simp, by simp⟩ (control_of_user_code hcontrol user (s.pc_try_send _)
      (Or.inr (s.channel_try_send _)) (s.dequeued_try_send _) (s.dispatched_try_send _))
  | done user => exact h.move (control_of_user_code hcontrol user rfl (Or.inl rfl) rfl rfl) rfl rfl
  | start pc free =>
    rw [Control, pc] at hcontrol
    exact h.move hcontrol (by rw [pc]; rfl) rfl
  | ready pc =>
    rw [Control, pc] at hcontrol
    exact h.move hcontrol (by rw [pc]; rfl) rfl
  | run pc =>
    rw [Control, pc] at hcontrol
    exact h.move hcontrol (by rw [pc]; rfl) rfl
  | moves hmoves =>
    obtain ⟨hold, hnew⟩ := hmoves.in_hand
    exact h.move (control_moves hcontrol hmoves) (hnew.trans hold.symm) rfl
  | next_task pc =>
    rw [Control, pc] at hcontrol
    exact h.move ⟨hcontrol, rfl, rfl⟩ (by rw [pc]; rfl) rfl
  | recv pc queue => exact answered_recv h pc queue
  | populate pc free => exact answered_populate h pc _
  | dispatch pc => exact answered_dispatch h pc
  | @recovers exception pc mild =>
    have hsent := answered_try_send h (a := .error exception.error)
      ⟨by simp, by simpa using exception.error_ne⟩
      (control_of_busy (Or.inl ((s.pc_try_send _).trans pc)))
    exact hsent.move trivial (by rw [s.pc_try_send, pc]; rfl) rfl
  | wait_io pc => exact h.move trivial (by rw [pc]; rfl) rfl
  | resumes pc => exact h.move trivial (by rw [pc]; rfl) rfl
  | call pc free => exact h.move trivial (by rw [pc]; rfl) rfl
  | finish pc =>
    have hsent := answered_try_send h (a := .no_response) ⟨by simp, by simp⟩
      (control_of_busy (Or.inr (Or.inr ((s.pc_try_send _).trans pc))))
    exact hsent.move (s.channel_try_send _) (by rw [s.pc_try_send, pc]; rfl) rfl
  | exits running => exact answered_exit h tokens
  | @fails _ e io_waiter pc known =>
    have hsent := answered_try_send h (a := .error e) ⟨by simp, by simpa using known⟩
      (control_of_busy (by rw [s.pc_try_send]; tauto))
    have hback : Answered { s.try_send_fetch_response (.error e) with io_waiter := io_waiter } := by
      refine hsent.move (control_of_busy ?_) rfl rfl
      change (s.try_send_fetch_response _).pc = _ ∨ (s.try_send_fetch_response _).pc = _ ∨ _
      rw [s.pc_try_send]
      tauto
    exact answered_exit hback tokens
  | cleanup pc => exact answered_cleanup h pc

/-! ## All instances of a runtime -/

theorem answered_run {execution_concurrency : ℕ} {as : List (RuntimeAction ι)} {rt : Runtime ι}
    (h : (Runtime.machine ι).run (.new execution_concurrency) as = some rt) :
    ∀ w ∈ rt.workers, Answered w.inst :=
  (Runtime.machine ι).run_invariant (I := fun rt => ∀ w ∈ rt.workers, Answered w.inst)
    (fun _ _ _ hi hs => Runtime.instances_step answered_new (fun _ _ _ _ _ h hs => answered_step h hs) hi hs)
    (fun _ hw => by simp [Runtime.new] at hw) h

/-- Outside of a task, a fetch that was taken off the channel has its result. -/
theorem Answered.count_results (h : Answered s) (hchannel : s.fetch_response_channel = none)
    (hhand : s.pc.in_hand = []) {id : ι} (hid : id ∈ s.dequeued) :
    (s.results.map Prod.fst).count id = 1 := by
  have htaken := (h.not_waiting hid).2.2.2
  rw [Instance.taken, hchannel, hhand] at htaken
  simpa using htaken

/-- **Every accepted task is answered once, before the next one starts.** In
every run of any number of instances, whatever their scripts do:
where an instance waits for the next task the slot is clean, and every fetch
that was taken off the channel has exactly one result; no fetch ever has two;
one that was taken off the channel is never told that there is no such worker;
and when the instance is over every fetch has its result, but for those that
gave up and those whose task never got into the channel, and these are refused. -/
theorem answered_once {execution_concurrency : ℕ} {as : List (RuntimeAction ι)} {rt : Runtime ι}
    (h : (Runtime.machine ι).run (.new execution_concurrency) as = some rt) {w : Worker ι}
    (hw : w ∈ rt.workers) :
    (w.inst.pc = .receiving →
      w.inst.fetch_response_channel = none ∧ w.inst.io_waiter = false ∧ w.inst.done = false
        ∧ ∀ id ∈ w.inst.dequeued, (w.inst.results.map Prod.fst).count id = 1)
    ∧ (w.inst.results.map Prod.fst).Nodup
    ∧ (∀ id ∈ w.inst.dequeued, ∀ a, (id, a) ∈ w.inst.results → a.result ≠ .error .NoSuchWorker)
    ∧ (w.inst.pc = .cleaned → ∀ id ∈ w.inst.fetches,
        (w.inst.results.map Prod.fst).count id = 1 ∨ id ∈ w.inst.cancelled
        ∨ (id ∈ w.inst.sending ∧ id ∉ w.inst.dequeued
          ∧ ∃ s, w.inst.step rt.execution_token (.refuse id) = some (rt.execution_token, s)
            ∧ (id, Answer.refused) ∈ s.results)) := by
  have hanswered := answered_run h w hw
  have hcontrol := hanswered.control
  refine ⟨fun hpc => ?_, ?_, fun id hid a ha => ?_, fun hpc id hid => ?_⟩
  · rw [Control, hpc] at hcontrol
    obtain ⟨hchannel, hio, hdone⟩ := hcontrol
    refine ⟨hchannel, hio, hdone, fun id hid => hanswered.count_results hchannel ?_ hid⟩
    rw [hpc]
    rfl
  · rw [List.nodup_iff_count_le_one]
    intro id
    have hplace := hanswered.place id
    have honce := List.nodup_iff_count_le_one.1 hanswered.once id
    rw [Instance.places, Instance.taken] at hplace
    omega
  · cases a with
    | refused => exact absurd hid (hanswered.refused id ha)
    | error e =>
      intro heq
      obtain rfl : e = .NoSuchWorker := by simpa [Answer.result] using heq
      exact hanswered.known id ha
    | script | no_response | dropped => simp [Answer.result]
  · rw [Control, hpc] at hcontrol
    obtain ⟨hchannel, hqueue⟩ := hcontrol
    have hplace := hanswered.place id
    have hone := List.count_eq_one_of_mem hanswered.once hid
    have hhand : w.inst.pc.in_hand = [] := by
      rw [hpc]
      rfl
    rw [Instance.places, Instance.taken, hchannel, hqueue, hhand, hone] at hplace
    by_cases hsending : id ∈ w.inst.sending
    · refine Or.inr (Or.inr ⟨hsending, fun hdequeued => ?_, ?_⟩)
      · have hzero := (hanswered.not_waiting hdequeued).1
        have hpos := List.count_pos_iff.2 hsending
        omega
      · refine ⟨{ w.inst with
          sending := w.inst.sending.erase id, results := w.inst.results ++ [(id, .refused)] }, ?_, ?_⟩
        · simp [Instance.step, hsending, hpc]
        · exact List.mem_append_right _ List.mem_cons_self
    · by_cases hcancelled : id ∈ w.inst.cancelled
      · exact Or.inr (Or.inl hcancelled)
      · rw [List.count_eq_zero_of_not_mem hsending, List.count_eq_zero_of_not_mem hcancelled] at hplace
        simp only [Option.toList_none, List.count_nil] at hplace
        omega

/-- A worker answers its first task with the response of the script, is told of
a second one in time and of a third one too late, and ends for lack of a token. -/
def three_fetches : List (RuntimeAction ℕ) :=
  [.spawn "a", .worker 0 (.acquire true), .worker 0 (.initialized true), .insert 0,
    .worker 0 (.check none), .worker 0 (.returned true), .worker 0 (.check none), .worker 0 .next_task,
    .worker 0 (.fetch 0), .worker 0 (.enqueue 0), .worker 0 .recv, .worker 0 (.acquire true),
    .worker 0 (.dispatch true), .worker 0 (.send_fetch_response default_response),
    .worker 0 .done, .worker 0 (.returned true), .worker 0 (.check none), .worker 0 .finish,
    .worker 0 .next_task, .worker 0 (.fetch 1), .worker 0 (.enqueue 1), .worker 0 .recv,
    .worker 0 (.fetch 2), .worker 0 (.acquire false), .worker 0 .cleanup, .worker 0 (.refuse 2)]

theorem answered_once_three_fetches :
    ∃ rt w, (Runtime.machine ℕ).run (.new 1) three_fetches = some rt ∧ rt.workers[0]? = some w
      ∧ w.inst.results = [(0, .script default_response), (1, .dropped), (2, .refused)]
      ∧ (w.inst.results.map Prod.fst).Nodup := by
  have hrun : ((Runtime.machine ℕ).run (.new 1) three_fetches).map
      (fun rt => rt.workers[0]?.map fun w => w.inst.results)
      = some (some [(0, .script default_response), (1, .dropped), (2, .refused)]) := by decide
  obtain ⟨rt, hrt, hworker⟩ := Option.map_eq_some_iff.1 hrun
  obtain ⟨w, hw, hresults⟩ := Option.map_eq_some_iff.1 hworker
  exact ⟨rt, w, hrt, hw, hresults, (answered_once hrt (List.mem_of_getElem? hw)).2.1⟩

end

end Executor

end RustyWorkers

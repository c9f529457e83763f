/-
A request reaches user code at most once, when none of its calls fails: the
retries of `Scheduler::handle_request` (`rusty-workers-proxy/src/sched.rs`) over
`Runtime::fetch` and `Instance::run`.

The loop retries on `NoSuchWorker` alone, and that answer has two origins: the
map `instances` does not have the worker, or the task channel of the instance is
closed. In both the task never was in the channel. So as long as a request has
an attempt before it (`Undelivered`), no task of it is anywhere, and from the
delivery on all that there is of it is one task of one instance.
-/
import RustyWorkers.Cluster

set_option autoImplicit false

namespace RustyWorkers

open Lib

namespace Executor

variable {ι : Type} [DecidableEq ι]

/-! ## The fetches of an instance -/

omit [DecidableEq ι] in
theorem results_try_send (s : Instance ι) (a : Answer) :
    ∀ p ∈ s.results, p ∈ (s.try_send_fetch_response a).results := by
  intro p hp
  rcases s.try_send_cases a with ⟨-, hs⟩ | ⟨id, -, hs⟩
  · rw [hs]
    exact hp
  · rw [hs]
    exact List.mem_append_left _ hp

omit [DecidableEq ι] in
theorem fetches_try_send (s : Instance ι) (a : Answer) :
    (s.try_send_fetch_response a).fetches = s.fetches := by
  rcases s.try_send_cases a with ⟨-, hs⟩ | ⟨id, -, hs⟩ <;> rw [hs]

/-- Answers are for good, and a fetch begins by its own action. -/
theorem fetches_step {tokens : ℕ} {s : Instance ι} {a : Action ι} {r : ℕ × Instance ι}
    (h : s.step tokens a = some r) :
    (∀ p ∈ s.results, p ∈ r.2.results) ∧ ∀ id ∈ r.2.fetches, id ∈ s.fetches ∨ a = .fetch id := by
  cases Instance.step_effect h with
  | fetch handle fresh =>
    refine ⟨fun p hp => hp, fun id hid => ?_⟩
    rcases List.mem_append.1 hid with hold | hnew
    · exact Or.inl hold
    · rw [List.mem_singleton.1 hnew]
      exact Or.inr rfl
  | refuse | exits | cleanup => exact ⟨fun p hp => List.mem_append_left _ hp, fun id hid => Or.inl hid⟩
  | respond | recovers | finish =>
    exact ⟨results_try_send s _, fun id hid => Or.inl ((fetches_try_send s _) ▸ hid)⟩
  | fails =>
    exact ⟨fun p hp => List.mem_append_left _ (results_try_send s _ p hp),
      fun id hid => Or.inl ((fetches_try_send s _) ▸ hid)⟩
  | enqueue | cancel | drop_handle | done | start | ready | run | moves | next_task | recv | populate
  | dispatch | wait_io | resumes | call =>
    exact ⟨fun p hp => hp, fun id hid => Or.inl hid⟩

/-- A worker of a runtime after a step, against what it was before. -/
theorem fetches_runtime_step {rt rt' : Runtime ι} {a : RuntimeAction ι} (h : rt.step a = some rt') {k : ℕ}
    {w' : Worker ι} (hw' : rt'.workers[k]? = some w') {id : ι} (hid : id ∈ w'.inst.fetches)
    (hnew : a ≠ .worker k (.fetch id)) :
    ∃ w, rt.workers[k]? = some w ∧ id ∈ w.inst.fetches ∧ ∀ p ∈ w.inst.results, p ∈ w'.inst.results := by
  -- a worker that is new has no fetch, and only a step of its own gives one to an old worker
  rcases Runtime.step_cases h with ⟨handle, -, rfl⟩ | ⟨j, w, listing, hw, -, rfl⟩
    | ⟨j, w, b, tokens, inst, rfl, hw, -, hstep, rfl⟩
  · by_cases hlt : k < rt.workers.length
    · rw [List.getElem?_append_left hlt] at hw'
      exact ⟨w', hw', hid, fun p hp => hp⟩
    · rw [List.getElem?_append_right (by omega), List.getElem?_singleton] at hw'
      split at hw'
      · obtain rfl := Option.some.inj hw'
        cases hid
      · cases hw'
  · by_cases hj : j = k
    · subst hj
      rw [List.getElem?_set_self (List.getElem?_eq_some_iff.1 hw).1] at hw'
      obtain rfl := Option.some.inj hw'
      exact ⟨w, hw, hid, fun p hp => hp⟩
    · rw [List.getElem?_set_ne hj] at hw'
      exact ⟨w', hw', hid, fun p hp => hp⟩
  · by_cases hj : j = k
    · subst hj
      rw [List.getElem?_set_self (List.getElem?_eq_some_iff.1 hw).1] at hw'
      obtain rfl := Option.some.inj hw'
      obtain ⟨hresults, hfetches⟩ := fetches_step hstep
      rcases hfetches id hid with hold | heq
      · exact ⟨w, hw, hold, hresults⟩
      · exact absurd (heq ▸ rfl) hnew
    · rw [List.getElem?_set_ne hj] at hw'
      exact ⟨w', hw', hid, fun p hp => hp⟩

/-- A task that was handed to the script is a fetch of the instance that was not
refused. -/
theorem Answered.of_dispatched {s : Instance ι} (h : Answered s) {id : ι} (hid : id ∈ s.dispatched) :
    id ∈ s.fetches ∧ (id, Answer.refused) ∉ s.results := by
  have hdequeued := h.dispatched id hid
  have htaken := (h.not_waiting hdequeued).2.2.2
  have hplace := h.place id
  rw [Instance.places] at hplace
  exact ⟨List.count_pos_iff.1 (by omega), fun hrefused => h.refused id hrefused hdequeued⟩

end Executor

namespace Cluster

open Executor (Runtime RuntimeAction Answer Answered)

/-! ## The invariant -/

/-- The task of the attempt `id` is with worker `k` of a runtime, which has not
refused it. -/
def Delivered (s : State) (rtid : RuntimeId) (k : ℕ) (id : FetchId) : Prop :=
  ∃ w, (s.runtimes rtid).workers[k]? = some w ∧ id ∈ w.inst.fetches ∧ (id, Answer.refused) ∉ w.inst.results

/-- The request is about to make its first attempt, or its next one: it is on
the way to a fetch, or its call has not been delivered, or was answered
`NoSuchWorker`. -/
def Undelivered (s : State) (r : ℕ) : Prop :=
  match s.sched.requests[r]? with
  | none => True
  | some q =>
    match q.pc with
    | .lookup | .waiting _ | .collecting _ _ | .popping _ _ | .choosing _ _ | .spawning _ _ _ _ => True
    | .fetching _ _ _ =>
      (s.calls r).phase = .sent ∨ (s.calls r).phase = .answered (.error .NoSuchWorker)
    | .disconnecting _ _ _ | .pooling _ _ _ | .pooled _ _ | .ended _ | .cancelled => False

/-- What holds of request `r` as long as its calls do not fail. -/
structure Once (r : ℕ) (s : State) : Prop where
  answered : ∀ rtid, ∀ w ∈ (s.runtimes rtid).workers, Answered w.inst
  quiet : Undelivered s r → ∀ rtid k j, ¬ Delivered s rtid k (r, j)
  serving : ∀ i inst k, s.fetching r = some (i, inst) → (s.calls r).phase = .serving k →
    ∀ rtid k' j, Delivered s rtid k' (r, j) → rtid = inst.rtid ∧ k' = k ∧ j = i
  connected : ∀ q app i inst, s.sched.requests[r]? = some q → q.pc ≠ .disconnecting app i inst
  once : ∀ rtid k j rtid' k' j', Delivered s rtid k (r, j) → Delivered s rtid' k' (r, j') →
    rtid = rtid' ∧ k = k' ∧ j = j'

variable {conf : Config} {s s' : State} {r : ℕ}

theorem once_start (conf : Config) (r : ℕ) : Once r (start conf) := by
  have hnone : ∀ rtid k id, ¬ Delivered (start conf) rtid k id := by
    rintro rtid k id ⟨w, hw, -⟩
    simp [start, Runtime.new] at hw
  refine ⟨fun rtid w hw => ?_, fun _ rtid k j => hnone rtid k _, fun _ _ _ hf => ?_, fun q _ _ _ hq => ?_,
    fun _ _ _ _ _ _ hd => absurd hd (hnone _ _ _)⟩
  · simp [start, Runtime.new] at hw
  · simp [State.fetching, start, Sched.start] at hf
  · simp [start, Sched.start] at hq

/-! ## Steps of the scheduler -/

/-- A step that leaves the runtimes alone. -/
theorem Once.of_sched (h : Once r s) (hruntimes : s'.runtimes = s.runtimes)
    (hundelivered : Undelivered s' r → Undelivered s r)
    (hserving : ∀ i inst k, s'.fetching r = some (i, inst) → (s'.calls r).phase = .serving k →
      s.fetching r = some (i, inst) ∧ (s.calls r).phase = .serving k)
    (hconnected : ∀ q app i inst, s'.sched.requests[r]? = some q → q.pc ≠ .disconnecting app i inst) :
    Once r s' := by
  have hdelivered : ∀ rtid k id, Delivered s' rtid k id ↔ Delivered s rtid k id := by
    intro rtid k id
    rw [Delivered, Delivered, hruntimes]
  constructor
  · rw [hruntimes]
    exact h.answered
  · intro hun rtid k j hd
    exact h.quiet (hundelivered hun) rtid k j ((hdelivered _ _ _).1 hd)
  · intro i inst k hf hp rtid k' j hd
    obtain ⟨hf, hp⟩ := hserving i inst k hf hp
    exact h.serving i inst k hf hp rtid k' j ((hdelivered _ _ _).1 hd)
  · exact hconnected
  · intro rtid k j rtid' k' j' hd hd'
    exact h.once rtid k j rtid' k' j' ((hdelivered _ _ _).1 hd) ((hdelivered _ _ _).1 hd')

/-- A step of the scheduler that is not one of the request. -/
theorem once_other (h : Once r s) {a : Sched.Action} (hstep : Sched.step conf.sched s.sched a = some s'.sched)
    (hother : ∀ b, a ≠ .step_request r b) (hcalls : s'.calls r = s.calls r)
    (hruntimes : s'.runtimes = s.runtimes) : Once r s' := by
  have hlength := Sched.requests_length hstep
  refine h.of_sched hruntimes (fun hun => ?_) (fun i inst k hf hp => ?_) (fun q' app i inst hq' => ?_)
  · cases hq' : s'.sched.requests[r]? with
    | none =>
      have hnone : s.sched.requests[r]? = none := by
        rw [List.getElem?_eq_none_iff] at hq' ⊢
        omega
      simp [Undelivered, hnone]
    | some q' =>
      -- others can only tell the request that its lookup is over
      rcases Sched.request_after hstep hq' with ⟨-, hq⟩ | ⟨hnew, -⟩ | ⟨q, b, rfl, -⟩ | ⟨q, answered, hq, hpc, -⟩
      · simpa only [Undelivered, hq, hq', hcalls] using hun
      · simp [Undelivered, List.getElem?_eq_none_iff.2 hnew]
      · exact absurd rfl (hother b)
      · simp [Undelivered, hq, hpc]
  · obtain ⟨q', app, hq', hpc'⟩ := fetching_eq_some.1 hf
    rcases Sched.request_after hstep hq' with ⟨-, hq⟩ | ⟨-, hnew⟩ | ⟨q, b, rfl, -⟩ | ⟨q, answered, -, -, hnew⟩
    · exact ⟨fetching_eq_some.2 ⟨q', app, hq, hpc'⟩, hcalls ▸ hp⟩
    · rw [hpc'] at hnew
      cases hnew
    · exact absurd rfl (hother b)
    · rw [hpc'] at hnew
      cases hnew
  · rcases Sched.request_after hstep hq' with ⟨-, hq⟩ | ⟨-, hnew⟩ | ⟨q, b, rfl, -⟩ | ⟨q, answered, -, -, hnew⟩
    · exact h.connected q' app i inst hq
    · simp [hnew]
    · exact absurd rfl (hother b)
    · simp [hnew]

/-- A step of the request on the way to its fetch, or after it: the call that it
makes has not been sent. -/
theorem once_own (h : Once r s) {b : Sched.RequestAction}
    (hstep : Sched.step conf.sched s.sched (.step_request r b) = some s'.sched)
    (hfetched : ∀ result, b ≠ .fetched result) (hcalls : (s'.calls r).phase = .sent)
    (hruntimes : s'.runtimes = s.runtimes) : Once r s' := by
  obtain ⟨q, pc, hq, hgoes, hq'⟩ := Sched.own_step hstep
  have hconnected := h.connected q
  refine h.of_sched hruntimes (fun hun => ?_) (fun i inst k hf hp => ?_) (fun q' app i inst heq hpc => ?_)
  · simp only [Undelivered, hq'] at hun
    generalize hold : q.pc = pc at hgoes hconnected
    -- from a place after the fetch no step leads back to an attempt
    cases hgoes <;> simp_all [Undelivered]
  · rw [hcalls] at hp
    cases hp
  · obtain rfl := Option.some.inj (hq'.symm.trans heq)
    exact hfetched _ (hgoes.of_disconnecting hpc).2

/-- The request is told what its call came back with. -/
theorem once_fetched (h : Once r s) {result : Executor.ExecutionResult}
    (hanswered : (s.calls r).phase = .answered result)
    (hstep : Sched.step conf.sched s.sched (.step_request r (.fetched (fetch_result result))) = some s'.sched)
    (hcalls : s'.calls = s.calls) (hruntimes : s'.runtimes = s.runtimes) : Once r s' := by
  obtain ⟨q, pc, hq, hgoes, hq'⟩ := Sched.own_step hstep
  obtain ⟨app, i, inst, hpc, rfl⟩ := hgoes.of_fetched
  refine h.of_sched hruntimes (fun hun => ?_) (fun j inst' k hf hp => ?_) (fun q' app' j inst' heq hpc' => ?_)
  · simp only [Undelivered, hq'] at hun
    simp only [Undelivered, hq, hpc]
    right
    -- only `NoSuchWorker` leads to another attempt
    cases result with
    | ok res => exact hun.elim
    | error e =>
      rcases Sched.after_error_cases app i inst e with ⟨rfl, -⟩ | ⟨-, he | he⟩
      · exact hanswered
      · rw [fetch_result, he] at hun
        exact hun.elim
      · rw [fetch_result, he] at hun
        exact hun.elim
  · rw [hcalls, hanswered] at hp
    cases hp
  · obtain rfl := Option.some.inj (hq'.symm.trans heq)
    have hresult := (hgoes.of_disconnecting hpc').2
    cases result <;> simp [fetch_result] at hresult

/-! ## Steps of the runtimes -/

/-- A step of a runtime that is no call brings no task. -/
theorem delivered_runtime {rtid : RuntimeId} {a : RuntimeAction FetchId} {rt : Runtime FetchId}
    (hstep : (s.runtimes rtid).step a = some rt) {id : FetchId} (hnew : ∀ k, a ≠ .worker k (.fetch id))
    {rtid' : RuntimeId} {k : ℕ} (hd : Delivered (s.set_runtime rtid rt) rtid' k id) :
    Delivered s rtid' k id := by
  obtain ⟨w', hw', hid, hrefused⟩ := hd
  by_cases heq : rtid' = rtid
  · subst heq
    simp only [State.set_runtime, Function.update_self] at hw'
    obtain ⟨w, hw, hold, hresults⟩ := Executor.fetches_runtime_step hstep hw' hid (hnew k)
    exact ⟨w, hw, hold, fun hin => hrefused (hresults _ hin)⟩
  · simp only [State.set_runtime, Function.update_of_ne heq] at hw'
    exact ⟨w', hw', hid, hrefused⟩

theorem answered_runtime (h : Once r s) {rtid : RuntimeId} {a : RuntimeAction FetchId} {rt : Runtime FetchId}
    (hstep : (s.runtimes rtid).step a = some rt) :
    ∀ rtid', ∀ w ∈ ((s.set_runtime rtid rt).runtimes rtid').workers, Answered w.inst := by
  intro rtid' w hw
  by_cases heq : rtid' = rtid
  · subst heq
    simp only [State.set_runtime, Function.update_self] at hw
    exact Executor.Runtime.instances_step Executor.answered_new
      (fun _ _ _ _ _ hi hs => Executor.answered_step hi hs) (h.answered rtid') hstep w hw
  · simp only [State.set_runtime, Function.update_of_ne heq] at hw
    exact h.answered rtid' w hw

theorem once_runtime (h : Once r s) {rtid : RuntimeId} {a : RuntimeAction FetchId} {rt : Runtime FetchId}
    (hstep : (s.runtimes rtid).step a = some rt) (hnew : ∀ k j, a ≠ .worker k (.fetch (r, j))) :
    Once r (s.set_runtime rtid rt) where
  answered := answered_runtime h hstep
  quiet := fun hun rtid' k j hd => h.quiet hun rtid' k j (delivered_runtime hstep (fun k => hnew k j) hd)
  serving := fun i inst k hf hp rtid' k' j hd =>
    h.serving i inst k hf hp rtid' k' j (delivered_runtime hstep (fun k => hnew k j) hd)
  connected := h.connected
  once := fun rtid₁ k₁ j₁ rtid₂ k₂ j₂ hd₁ hd₂ =>
    h.once rtid₁ k₁ j₁ rtid₂ k₂ j₂ (delivered_runtime hstep (fun k => hnew k j₁) hd₁)
      (delivered_runtime hstep (fun k => hnew k j₂) hd₂)

/-! ## The call -/

/-- The call of another request goes on. -/
theorem once_phase_other (h : Once r s) {j : ℕ} (hne : r ≠ j) (phase : Phase) :
    Once r (s.set_phase j phase) := by
  have hcalls : (s.set_phase j phase).calls r = s.calls r := Function.update_of_ne hne _ _
  refine h.of_sched rfl (fun hun => ?_) (fun i inst k hf hp => ?_) h.connected
  · simp only [Undelivered, hcalls] at hun
    exact hun
  · rw [hcalls] at hp
    exact ⟨hf, hp⟩

/-- The call is answered: by `NoSuchWorker` only if its task is nowhere. -/
theorem once_answered (h : Once r s) {i : ℕ} {inst : Sched.ReadyInstance} (hf : s.fetching r = some (i, inst))
    {result : Executor.ExecutionResult}
    (hresult : result = .error .NoSuchWorker → ∀ rtid k j, ¬ Delivered s rtid k (r, j)) :
    Once r (s.set_phase r (.answered result)) := by
  have hphase : ((s.set_phase r (.answered result)).calls r).phase = .answered result := by
    simp [State.set_phase]
  constructor
  · exact h.answered
  · intro hun rtid k j hd
    obtain ⟨q, app, hq, hpc⟩ := fetching_eq_some.1 hf
    have hq' : (s.set_phase r (.answered result)).sched.requests[r]? = some q := hq
    -- an answered call counts as undelivered with `NoSuchWorker` alone
    simp only [Undelivered, hq', hpc, hphase] at hun
    rcases hun with hun | hun
    · cases hun
    · exact hresult (by simpa using hun) rtid k j hd
  · intro i' inst' k hf' hp
    rw [hphase] at hp
    cases hp
  · exact h.connected
  · exact h.once

/-- The runtime hands the task of the attempt to an instance, and it is the only
one. -/
theorem once_delivered (h : Once r s) {i k : ℕ} {inst : Sched.ReadyInstance}
    (hf : s.fetching r = some (i, inst)) (hsent : (s.calls r).phase = .sent) {rt : Runtime FetchId}
    (hstep : (s.runtimes inst.rtid).step (.worker k (.fetch (r, i))) = some rt) :
    Once r ((s.set_runtime inst.rtid rt).set_phase r (.serving k)) := by
  obtain ⟨q, app, hq, hpc⟩ := fetching_eq_some.1 hf
  -- before the delivery no task of the request is anywhere
  have hquiet : ∀ rtid k j, ¬ Delivered s rtid k (r, j) := by
    refine h.quiet ?_
    simp only [Undelivered, hq, hpc]
    exact Or.inl hsent
  have honly : ∀ rtid k' j, Delivered (s.set_runtime inst.rtid rt) rtid k' (r, j) →
      rtid = inst.rtid ∧ k' = k ∧ j = i := by
    rintro rtid k' j ⟨w', hw', hid, hrefused⟩
    by_contra hne
    by_cases heq : rtid = inst.rtid
    · subst heq
      simp only [State.set_runtime, Function.update_self] at hw'
      have hnew : (RuntimeAction.worker k (.fetch (r, i)) : RuntimeAction FetchId) ≠ .worker k' (.fetch (r, j)) := by
        intro hact
        simp only [RuntimeAction.worker.injEq, Executor.Action.fetch.injEq, Prod.mk.injEq, true_and] at hact
        exact hne ⟨rfl, hact.1.symm, hact.2.symm⟩
      obtain ⟨w, hw, hold, hresults⟩ := Executor.fetches_runtime_step hstep hw' hid hnew
      exact hquiet _ _ _ ⟨w, hw, hold, fun hin => hrefused (hresults _ hin)⟩
    · simp only [State.set_runtime, Function.update_of_ne heq] at hw'
      exact hquiet _ _ _ ⟨w', hw', hid, hrefused⟩
  have hphase : (((s.set_runtime inst.rtid rt).set_phase r (.serving k)).calls r).phase = .serving k := by
    simp [State.set_phase]
  constructor
  · exact answered_runtime h hstep
  · intro hun
    have hq' : ((s.set_runtime inst.rtid rt).set_phase r (.serving k)).sched.requests[r]? = some q := hq
    simp only [Undelivered, hq', hpc, hphase] at hun
    simp at hun
  · intro i' inst' k'' hf' hp rtid k' j hd
    rw [hphase] at hp
    obtain rfl : k = k'' := by simpa using hp
    obtain ⟨rfl, rfl⟩ : i = i' ∧ inst = inst' := by
      have heq : s.fetching r = some (i', inst') := hf'
      simpa [hf] using heq
    exact honly rtid k' j hd
  · exact h.connected
  · intro rtid₁ k₁ j₁ rtid₂ k₂ j₂ hd₁ hd₂
    obtain ⟨rfl, rfl, rfl⟩ := honly _ _ _ hd₁
    obtain ⟨rfl, rfl, rfl⟩ := honly _ _ _ hd₂
    exact ⟨rfl, rfl, rfl⟩

/-! ## The run -/

theorem once_step {a : Action} (h : Once r s) (hfail : a ≠ .fail r) (hs : s.step conf a = some s') :
    Once r s' := by
  cases step_effect hs with
  | @sched a sched allowed step =>
    by_cases hown : ∃ b, a = .step_request r b
    · obtain ⟨b, rfl⟩ := hown
      refine once_own h step (fun result heq => ?_) ?_ rfl
      · rw [heq] at allowed
        cases allowed
      · simp [State.set_sched]
    · push Not at hown
      refine once_other h step hown ?_ rfl
      simp only [State.set_sched]
      split
      · rename_i j b
        exact Function.update_of_ne (fun heq => hown b (by rw [heq])) _ _
      · rfl
  | @delivered j i k inst rt fetching sent found step =>
    by_cases heq : r = j
    · subst heq
      exact once_delivered h fetching sent step
    · refine once_phase_other (once_runtime h step fun k' j' hact => heq ?_) heq _
      simp only [RuntimeAction.worker.injEq, Executor.Action.fetch.injEq, Prod.mk.injEq] at hact
      exact hact.2.1.symm
  | @unknown j i inst fetching sent missing =>
    by_cases heq : r = j
    · subst heq
      refine once_answered h fetching fun _ => h.quiet ?_
      obtain ⟨q, app, hq, hpc⟩ := fetching_eq_some.1 fetching
      simp only [Undelivered, hq, hpc]
      exact Or.inl sent
    · exact once_phase_other h heq _
  | @runtime rtid a rt nofetch step =>
    refine once_runtime h step fun k j heq => ?_
    rw [heq] at nofetch
    cases nofetch
  | @reply j i k inst answer w fetching serving worker result =>
    by_cases heq : r = j
    · subst heq
      refine once_answered h fetching fun hno rtid k' j hd => ?_
      -- the task is with this worker, and the worker has refused it
      obtain ⟨rfl, rfl, rfl⟩ := h.serving _ _ _ fetching serving rtid k' j hd
      obtain ⟨w', hw', -, hrefused⟩ := hd
      obtain rfl := Option.some.inj (worker.symm.trans hw')
      cases answer with
      | refused => exact hrefused result
      | error e =>
        obtain rfl : e = .NoSuchWorker := by simpa [Answer.result] using hno
        exact (h.answered _ w (List.mem_of_getElem? worker)).known _ result
      | script | no_response | dropped => simp [Answer.result] at hno
    · exact once_phase_other h heq _
  | @fetched j result sched answered step =>
    by_cases heq : r = j
    · subst heq
      exact once_fetched h answered step rfl rfl
    · exact once_other h step (fun b hact => heq (Sched.Action.step_request.inj hact).1.symm) rfl rfl
  | @fail j i inst sched fetching unanswered broken step =>
    have hne : r ≠ j := fun heq => hfail (heq ▸ rfl)
    exact once_other h step (fun b hact => hne (Sched.Action.step_request.inj hact).1.symm) rfl rfl
  | call_too_long | answer_too_long | spawn_too_long | lose | down =>
    -- the connections are no part of what holds of the request
    exact ⟨h.answered, h.quiet, h.serving, h.connected, h.once⟩

/-- **A request is dispatched at most once.** In every run of a proxy and its
runtimes in which no call of request `r` fails, whatever happens to its workers
and to the calls of the others: of all attempts of `r` at most one is passed to
`_dispatchEvent`, by one worker, once; and from then on `r` makes no further
attempt, so an attempt that was answered `NoSuchWorker` never reaches user code. -/
theorem dispatched_once {as : List Action} {s : State} {r : ℕ}
    (hm : (machine conf).Meets (fun _ a => a ≠ .fail r) (start conf) as)
    (h : (machine conf).run (start conf) as = some s) :
    (∀ (rtid : RuntimeId) (k j : ℕ) (w : Executor.Worker FetchId), (s.runtimes rtid).workers[k]? = some w →
      (r, j) ∈ w.inst.dispatched → ¬ Undelivered s r
        ∧ ∀ (rtid' : RuntimeId) (k' j' : ℕ) (w' : Executor.Worker FetchId),
          (s.runtimes rtid').workers[k']? = some w' → (r, j') ∈ w'.inst.dispatched → rtid = rtid' ∧ k = k' ∧ j = j')
    ∧ ∀ rtid, ∀ w ∈ (s.runtimes rtid).workers, w.inst.dispatched.Nodup := by
  have honce : Once r s :=
    (machine conf).run_invariant_of_meets (fun _ _ _ hi hc hs => once_step hi hc hs) (once_start conf r) hm h
  have hdelivered : ∀ (rtid : RuntimeId) (k j : ℕ) (w : Executor.Worker FetchId), (s.runtimes rtid).workers[k]? = some w →
      (r, j) ∈ w.inst.dispatched → Delivered s rtid k (r, j) := by
    intro rtid k j w hw hd
    obtain ⟨hfetch, hrefused⟩ := (honce.answered rtid w (List.mem_of_getElem? hw)).of_dispatched hd
    exact ⟨w, hw, hfetch, hrefused⟩
  refine ⟨fun rtid k j w hw hd => ?_, fun rtid w hw => (honce.answered rtid w hw).dispatched_once⟩
  have hthis := hdelivered rtid k j w hw hd
  refine ⟨fun hun => honce.quiet hun rtid k j hthis, fun rtid' k' j' w' hw' hd' => ?_⟩
  exact honce.once rtid k j rtid' k' j' hthis (hdelivered rtid' k' j' w' hw' hd')

/-! ## Two requests -/

/-- Frames of up to 8 MiB; of a message only its bundle and its body count. -/
def demo_frames : Frames where
  max_frame_length := 8388608
  spawn_worker := fun args => args.bundle.length
  fetch := fun _ _ => 0
  answer := fun
    | .ok res => res.body.length
    | .error _ => 0

def demo_conf : Config := ⟨⟨⟨50, 120000, 100⟩, ⟨⟨16, 100, 10, 50⟩, [], []⟩⟩, 30000, 1, 1000, demo_frames⟩

/-- A runtime is discovered, and a request has the app looked up. -/
def look_up : List Action :=
  [.sched (.discover "rt" 0), .sched (.request "app"), .sched (.step_request 0 .lookup),
    .sched (.step_task .recv_lookup), .sched (.step_task .check),
    .sched (.step_task (.app_metadata_get (.ok (some ⟨"app", "bundle", [], []⟩)))),
    .sched (.step_task (.app_bundle_get (.ok (some [])))), .sched (.step_task .insert),
    .sched (.step_task .reply), .sched (.step_request 0 .lookup)]

/-- A later request finds the app in the cache. -/
def find_app (r : ℕ) : List Action := [.sched (.request "app"), .sched (.step_request r .lookup)]

/-- Request `r` gets a worker of its own, which is the `k`-th of the runtime. -/
def spawn (r k : ℕ) (handle : String) : List Action :=
  [.sched (.step_request r .collect), .sched (.step_request r .pop),
    .sched (.step_request r (.choose "rt")), .runtime "rt" (.spawn handle),
    .runtime "rt" (.worker k (.acquire true)), .runtime "rt" (.worker k (.initialized true)),
    .runtime "rt" (.insert k), .sched (.step_request r (.spawned (.ok ⟨handle⟩))),
    .runtime "rt" (.worker k (.check none)), .runtime "rt" (.worker k (.returned true)),
    .runtime "rt" (.worker k (.check none)), .runtime "rt" (.worker k .next_task)]

/-- The worker is sent attempt `i` of request `r`, and dispatches it. -/
def dispatch (r i k : ℕ) : List Action :=
  [.serve r, .runtime "rt" (.worker k (.enqueue (r, i))), .runtime "rt" (.worker k .recv),
    .runtime "rt" (.worker k (.acquire true)), .runtime "rt" (.worker k (.dispatch true))]

/-- The worker responds, and request `r` has its answer. -/
def respond (r k : ℕ) : List Action :=
  [.runtime "rt" (.worker k (.send_fetch_response Executor.default_response)),
    .runtime "rt" (.worker k .done), .runtime "rt" (.worker k (.returned true)),
    .runtime "rt" (.worker k (.check none)), .runtime "rt" (.worker k .finish),
    .runtime "rt" (.worker k .next_task), .reply r (.script Executor.default_response), .fetched r]

/-- Request `r` pools its worker. -/
def pool (r : ℕ) : List Action :=
  [.sched (.step_request r (.pool false)), .sched (.step_request r .collect)]

/-- Request `r` takes a worker from the pool that the runtime has evicted. -/
def take_dead (r : ℕ) : List Action :=
  [.sched (.step_request r .collect), .sched (.step_request r .pop), .serve r, .fetched r]

/-- The worker of request 0 is evicted; request 1 finds it in the pool, is told
that there is no such worker, and goes to a second one. -/
def retried_request : List Action :=
  look_up ++ spawn 0 0 "a" ++ dispatch 0 0 0 ++ respond 0 0 ++ pool 0 ++ [.runtime "rt" (.remove 0)]
    ++ find_app 1 ++ take_dead 1 ++ spawn 1 1 "b" ++ dispatch 1 1 1

theorem dispatched_once_retried_request :
    ∃ s w, (machine demo_conf).run (start demo_conf) retried_request = some s
      ∧ (s.runtimes "rt").workers[1]? = some w ∧ (1, 1) ∈ w.inst.dispatched
      ∧ ¬ Undelivered s 1 := by
  have hrun : ((machine demo_conf).run (start demo_conf) retried_request).map (fun s =>
      (s.runtimes "rt").workers[1]?.map fun w => w.inst.dispatched) = some (some [(1, 1)]) := rfl
  have hmeets : (machine demo_conf).Meets (fun _ a => a ≠ .fail 1) (start demo_conf) retried_request :=
    (machine demo_conf).meets_of_forall (C := fun a => a ≠ .fail 1)
      (by simp [retried_request, look_up, spawn, dispatch, respond, pool, find_app, take_dead]) _
  obtain ⟨s, hs, hworker⟩ := Option.map_eq_some_iff.1 hrun
  obtain ⟨w, hw, hdispatched⟩ := Option.map_eq_some_iff.1 hworker
  have hmem : (1, 1) ∈ w.inst.dispatched := by
    rw [hdispatched]
    exact List.mem_cons_self
  exact ⟨s, w, hs, hw, hmem, ((dispatched_once hmeets hs).1 "rt" 1 1 w hw hmem).1⟩

end Cluster

end RustyWorkers

/-
Which callback gets which result: the slab of `IoWaiter` and the calls that
carry its indices (`rusty-workers-runtime/src/io.rs`).

An index is all that a call keeps of its callback on its way through the task
channel, `IoProcessor::run`, the task that executes it and the result channel,
and the slab gives an index away again as soon as it is free. The machine of
this file is the one of `Io` with every call numbered: the slot, the queues, the
tasks and the results say which call they are about. No step looks at a number.
Without the numbers it is the machine of `Io` step by step (`erase_step`,
`lift_step`), so what is proved here is about that one.

The invariant ties every index on its way to one slot: the indices in transit
are distinct, and the slot of each holds the callback of the very call that is
in transit with it.
-/
import RustyWorkers.Io

set_option autoImplicit false

namespace RustyWorkers

open Lib

namespace IoCallbacks

/-- A call of `IoWaiter::issue`: the request that made it, and its number there. -/
structure Call where
  request_id : ℕ
  id : ℕ
  task : AsyncCall
  cb : ℕ
deriving DecidableEq

/-- Where the executor thread is, as in `Io`. -/
inductive ExecutorPc where
  | running
  | issuing (index : ℕ) (call : Call)
  | waiting
  | dropped
  | panicked
deriving DecidableEq

inductive RunPc where
  | select
  | acquire (index : ℕ) (call : Call)
  | exited
deriving DecidableEq

structure InFlight where
  index : ℕ
  call : Call
  pc : TaskPc
deriving DecidableEq

inductive BackToExecutorItem where
  | TaskResult (index : ℕ) (call : Call) (result : Seen)
  | BufferCreation (index : ℕ)

/-- What `wait` has returned: the callback of the call `callback`, with the
result of the call `source`. -/
structure Delivery where
  callback : Call
  source : Call
  result : Seen

/-- `IoState` of a request, with numbered calls. `finished` and `delivered` list
what the tasks have responded and what `wait` has returned. -/
structure State where
  request_id : ℕ
  remaining_budget : ℕ
  inflight : ℕ → Option Call
  executor : ExecutorPc
  backlog : List (ℕ × Call)
  results : List BackToExecutorItem
  run : RunPc
  permits : ℕ
  tasks : List InFlight
  scope : Bool
  next_id : ℕ
  finished : List (Call × Seen)
  delivered : List Delivery

inductive Action where
  | issue (count_budget : Bool) (task : AsyncCall) (cb index : ℕ)
  | send
  | wait
  | recv (granted : Bool)
  | drop_waiter
  | kill
  | next
  | acquire
  | request (x : InFlight) (n : ℕ)
  | finish (x : InFlight) (result : Seen)
  | kill_task (x : InFlight)
  | drop_scope

/-! ## Without the numbers -/

def ExecutorPc.erase : ExecutorPc → RustyWorkers.ExecutorPc
  | .running => .running
  | .issuing index call => .issuing index call.task
  | .waiting => .waiting
  | .dropped => .dropped
  | .panicked => .panicked

def RunPc.erase : RunPc → RustyWorkers.RunPc
  | .select => .select
  | .acquire index call => .acquire index call.task
  | .exited => .exited

def InFlight.erase (x : InFlight) : RustyWorkers.InFlight := ⟨x.index, x.call.task, x.pc⟩

def BackToExecutorItem.erase : BackToExecutorItem → RustyWorkers.BackToExecutorItem
  | .TaskResult index _ result => .TaskResult index result
  | .BufferCreation index => .BufferCreation index

def State.erase (s : State) : IoState where
  remaining_budget := s.remaining_budget
  inflight index := (s.inflight index).map Call.cb
  executor := s.executor.erase
  backlog := s.backlog.map fun p => (p.1, p.2.task)
  results := s.results.map BackToExecutorItem.erase
  run := s.run.erase
  permits := s.permits
  tasks := s.tasks.map InFlight.erase
  scope := s.scope

def Action.erase : Action → IoAction
  | .issue _ task cb index => .issue task cb index
  | .send => .send
  | .wait => .wait
  | .recv granted => .recv granted
  | .drop_waiter => .drop_waiter
  | .kill => .kill
  | .next => .next
  | .acquire => .acquire
  | .request x n => .request x.erase n
  | .finish x result => .finish x.erase result
  | .kill_task x => .kill_task x.erase
  | .drop_scope => .drop_scope

/-! ## The steps -/

/-- The state of a call in flight changes as in `Io`. -/
def InFlight.with_pc (x : InFlight) (f : RustyWorkers.InFlight → RustyWorkers.InFlight) : InFlight :=
  { x with pc := (f x.erase).pc }

namespace State

/-- `IoWaiter::new`. -/
def new (conf : ExecutorConfiguration) (request_id : ℕ) : State where
  request_id := request_id
  remaining_budget := conf.max_io_per_request
  inflight _ := none
  executor := .running
  backlog := []
  results := []
  run := .select
  permits := conf.max_io_concurrency
  tasks := []
  scope := true
  next_id := 0
  finished := []
  delivered := []

/-- The next call to be issued. -/
def next_call (s : State) (task : AsyncCall) (cb : ℕ) : Call := ⟨s.request_id, s.next_id, task, cb⟩

/-- `IoWaiter::issue` up to the `blocking_send`; `none` stands for
`IoLimitExceeded`. -/
def issue (s : State) (count_budget : Bool) (task : AsyncCall) (cb index : ℕ) : Option State :=
  if count_budget && s.remaining_budget == 0 then none
  else some { s with
    remaining_budget := if count_budget then s.remaining_budget - 1 else s.remaining_budget
    inflight := Function.update s.inflight index (some (s.next_call task cb))
    executor := .issuing index (s.next_call task cb)
    next_id := s.next_id + 1 }

/-- The `blocking_send` of `issue`. -/
def send (conf : ExecutorConfiguration) (s : State) (index : ℕ) (call : Call) : Option State :=
  if s.run = .exited then
    some { s with inflight := Function.update s.inflight index none, executor := .running }
  else if s.backlog.length < backlog_capacity conf then
    some { s with backlog := s.backlog ++ [(index, call)], executor := .running }
  else none

/-- One round of the loop of `IoWaiter::wait`; `Slab::remove` panics at a slot
that is not taken. -/
def recv (s : State) (granted : Bool) : Option State :=
  match s.results with
  | .TaskResult index call result :: rest =>
    match s.inflight index with
    | some callback => some { s with
        results := rest
        inflight := Function.update s.inflight index none
        executor := .running
        delivered := s.delivered ++ [⟨callback, call, result⟩] }
    | none => some { s with executor := .panicked }
  | .BufferCreation index :: rest =>
    some { s with
      results := rest
      tasks := s.tasks.map fun x => x.with_pc (RustyWorkers.InFlight.reply granted index) }
  | [] => if s.run = .exited ∧ s.tasks = [] then some { s with executor := .dropped } else none

def drop_waiter (s : State) : State :=
  { s with
    executor := .dropped
    results := []
    tasks := s.tasks.map fun x => x.with_pc RustyWorkers.InFlight.orphan }

/-- The arm `x = self.next()`. -/
def next (s : State) : Option State :=
  match s.backlog with
  | (index, call) :: rest => some { s with backlog := rest, run := .acquire index call }
  | [] => if s.executor = .dropped then some { s with run := .exited } else none

/-- `acquire_owned().await`, and the spawn. -/
def acquire (s : State) (index : ℕ) (call : Call) : Option State :=
  if 0 < s.permits then
    some { s with
      permits := s.permits - 1
      tasks := s.tasks ++ [⟨index, call, .working⟩]
      run := .select }
  else none

def request (s : State) (x : InFlight) (n : ℕ) : State :=
  { s with
    tasks := s.tasks.map fun y =>
      if y = x then x.with_pc (RustyWorkers.InFlight.ask (decide (s.executor ≠ .dropped)) n) else y
    results := if s.executor = .dropped then s.results
      else s.results ++ List.replicate n (.BufferCreation x.index) }

def release (s : State) (x : InFlight) : State :=
  { s with tasks := s.tasks.erase x, permits := s.permits + 1 }

/-- `res.respond(..)`. -/
def respond (s : State) (x : InFlight) (result : Seen) : State :=
  { s with
    finished := s.finished ++ [(x.call, result)]
    results := if s.executor = .dropped then s.results
      else s.results ++ [.TaskResult x.index x.call result] }

/-- One step of one party. -/
def step (conf : ExecutorConfiguration) (s : State) : Action → Option State
  | .issue count_budget task cb index =>
    if s.executor = .running ∧ s.inflight index = none then
      some ((s.issue count_budget task cb index).getD s)
    else none
  | .send =>
    match s.executor with
    | .issuing index call => s.send conf index call
    | _ => none
  | .wait => if s.executor = .running then some { s with executor := .waiting } else none
  | .recv granted => if s.executor = .waiting then s.recv granted else none
  | .drop_waiter => if s.executor = .running then some s.drop_waiter else none
  | .kill => if s.run = .select ∧ s.scope = false then some { s with run := .exited } else none
  | .next => if s.run = .select then s.next else none
  | .acquire =>
    match s.run with
    | .acquire index call => s.acquire index call
    | _ => none
  | .request x n =>
    if x ∈ s.tasks ∧ x.pc = .working ∧ x.call.task.v.allocates = true ∧ 0 < n then some (s.request x n)
    else none
  | .finish x result =>
    if x ∈ s.tasks then
      match x.pc with
      | .allocating _ => none
      | _ => some ((s.release x).respond x result)
    else none
  | .kill_task x => if x ∈ s.tasks ∧ s.run = .exited then some (s.release x) else none
  | .drop_scope => if s.scope = true then some { s with scope := false } else none

end State

/-- The I/O of one request, with numbered calls. -/
def machine (conf : ExecutorConfiguration) : Machine State Action := ⟨State.step conf⟩

/-! ## What is in transit -/

/-- The index that a call carries, with the number of the call. -/
abbrev Carried := ℕ × Call

def ExecutorPc.carried : ExecutorPc → List Carried
  | .issuing index call => [(index, call)]
  | _ => []

def RunPc.carried : RunPc → List Carried
  | .acquire index call => [(index, call)]
  | _ => []

def InFlight.carried (x : InFlight) : Carried := (x.index, x.call)

def BackToExecutorItem.carried : BackToExecutorItem → Option Carried
  | .TaskResult index call _ => some (index, call)
  | .BufferCreation _ => none

/-- The calls that have not been responded to. -/
def State.pending (s : State) : Multiset Carried :=
  (s.executor.carried : Multiset Carried) + s.backlog + s.run.carried + s.tasks.map InFlight.carried

/-- The responses that `wait` has not seen. -/
def State.responded (s : State) : Multiset Carried :=
  (s.results.filterMap BackToExecutorItem.carried : List Carried)

/-- Every index in transit leads to the callback of its own call. -/
structure Inv (s : State) : Prop where
  slots : ∀ p ∈ s.pending + s.responded, s.inflight p.1 = some p.2
  own : ∀ i c, s.inflight i = some c → c.request_id = s.request_id
  distinct : ((s.pending + s.responded).map Prod.fst).Nodup
  numbered : ∀ i c, s.inflight i = some c → c.id < s.next_id
  own_slot : ∀ i j c c', s.inflight i = some c → s.inflight j = some c' → c.id = c'.id → i = j
  finished : ∀ f ∈ s.finished, f.1.id < s.next_id ∧ ∀ p ∈ s.pending, p.2.id ≠ f.1.id
  finished_once : (s.finished.map fun f => f.1.id).Nodup
  results : ∀ i c r, .TaskResult i c r ∈ s.results → (c, r) ∈ s.finished
  delivered : ∀ d ∈ s.delivered, d.callback = d.source ∧ (d.source, d.result) ∈ s.finished
    ∧ d.source.request_id = s.request_id ∧ d.callback.id < s.next_id
    ∧ ∀ i c, s.inflight i = some c → c.id ≠ d.callback.id
  delivered_once : (s.delivered.map fun d => d.callback.id).Nodup
  alive : s.executor ≠ .panicked

theorem inv_new (conf : ExecutorConfiguration) (request_id : ℕ) : Inv (State.new conf request_id) where
  slots := fun _ hp => by cases hp
  own := fun _ _ hc => by cases hc
  distinct := by simp [State.new, State.pending, State.responded, ExecutorPc.carried, RunPc.carried]
  numbered := fun _ _ hc => by cases hc
  own_slot := fun _ _ _ _ hc => by cases hc
  finished := fun _ hf => by cases hf
  finished_once := List.nodup_nil
  results := fun _ _ _ hr => by cases hr
  delivered := fun _ hd => by cases hd
  delivered_once := List.nodup_nil
  alive := by simp [State.new]

variable {conf : ExecutorConfiguration} {s s' : State}

/-- A step that leaves the slab and the records alone, and loses calls at most. -/
theorem Inv.moved (h : Inv s) (hrequest : s'.request_id = s.request_id)
    (hslab : s'.inflight = s.inflight) (hnext : s'.next_id = s.next_id)
    (hfinished : s'.finished = s.finished) (hdelivered : s'.delivered = s.delivered)
    (hpending : s'.pending ≤ s.pending) (hresponded : s'.responded ≤ s.responded)
    (hresults : ∀ i c r, .TaskResult i c r ∈ s'.results → .TaskResult i c r ∈ s.results)
    (halive : s'.executor ≠ .panicked) : Inv s' := by
  have hle : s'.pending + s'.responded ≤ s.pending + s.responded := add_le_add hpending hresponded
  exact {
    slots := by
      intro p hp
      rw [hslab]
      exact h.slots p (Multiset.mem_of_le hle hp)
    own := by
      rw [hslab, hrequest]
      exact h.own
    distinct := Multiset.nodup_of_le (Multiset.map_le_map hle) h.distinct
    numbered := by
      rw [hslab, hnext]
      exact h.numbered
    own_slot := by
      rw [hslab]
      exact h.own_slot
    finished := by
      rw [hfinished, hnext]
      intro f hf
      obtain ⟨hlt, hne⟩ := h.finished f hf
      exact ⟨hlt, fun p hp => hne p (Multiset.mem_of_le hpending hp)⟩
    finished_once := by
      rw [hfinished]
      exact h.finished_once
    results := by
      rw [hfinished]
      exact fun i c r hr => h.results i c r (hresults i c r hr)
    delivered := by
      rw [hdelivered, hfinished, hrequest, hnext, hslab]
      exact h.delivered
    delivered_once := by
      rw [hdelivered]
      exact h.delivered_once
    alive := halive }

/-- The slot that the slab gives to a new call is nobody's. -/
theorem inv_issue (h : Inv s) (hrun : s.executor = .running) {index : ℕ}
    (hfree : s.inflight index = none) {count_budget : Bool} {task : AsyncCall} {cb : ℕ}
    (hissue : s.issue count_budget task cb index = some s') : Inv s' := by
  unfold State.issue at hissue
  split at hissue
  · cases hissue
  obtain rfl := (Option.some.inj hissue).symm
  have hpending : State.pending { s with
      remaining_budget := if count_budget then s.remaining_budget - 1 else s.remaining_budget
      inflight := Function.update s.inflight index (some (s.next_call task cb))
      executor := .issuing index (s.next_call task cb)
      next_id := s.next_id + 1 } = (index, s.next_call task cb) ::ₘ s.pending := by
    simp only [State.pending, hrun, ExecutorPc.carried, Multiset.coe_nil, zero_add,
      Multiset.coe_singleton, Multiset.singleton_add, Multiset.cons_add]
  -- a slot that is in transit is not free
  have hother : ∀ p ∈ s.pending + s.responded, p.1 ≠ index := by
    rintro p hp rfl
    rw [h.slots p hp] at hfree
    cases hfree
  have hcases : ∀ i c, Function.update s.inflight index (some (s.next_call task cb)) i = some c →
      (i = index ∧ c = s.next_call task cb) ∨ (i ≠ index ∧ s.inflight i = some c) := by
    intro i c hc
    by_cases hi : i = index
    · rw [hi, Function.update_self] at hc
      exact Or.inl ⟨hi, (Option.some.inj hc).symm⟩
    · rw [Function.update_of_ne hi] at hc
      exact Or.inr ⟨hi, hc⟩
  exact {
    slots := by
      intro p hp
      rw [hpending, Multiset.cons_add, Multiset.mem_cons] at hp
      rcases hp with rfl | hp
      · exact Function.update_self _ _ _
      · exact (Function.update_of_ne (hother p hp) _ _).trans (h.slots p hp)
    own := by
      intro i c hc
      rcases hcases i c hc with ⟨-, rfl⟩ | ⟨-, hold⟩
      · rfl
      · exact h.own i c hold
    distinct := by
      rw [hpending, Multiset.cons_add, Multiset.map_cons, Multiset.nodup_cons]
      refine ⟨fun hmem => ?_, h.distinct⟩
      obtain ⟨p, hp, hindex⟩ := Multiset.mem_map.1 hmem
      exact hother p hp hindex
    numbered := by
      intro i c hc
      rcases hcases i c hc with ⟨-, rfl⟩ | ⟨-, hold⟩
      · exact Nat.lt_succ_self _
      · exact Nat.lt_succ_of_lt (h.numbered i c hold)
    own_slot := by
      intro i j c c' hc hc' hid
      rcases hcases i c hc with ⟨rfl, rfl⟩ | ⟨-, hold⟩
      · rcases hcases j c' hc' with ⟨rfl, -⟩ | ⟨-, hold'⟩
        · rfl
        · exact absurd hid (h.numbered j c' hold').ne'
      · rcases hcases j c' hc' with ⟨rfl, rfl⟩ | ⟨-, hold'⟩
        · exact absurd hid (h.numbered i c hold).ne
        · exact h.own_slot i j c c' hold hold' hid
    finished := by
      intro f hf
      obtain ⟨hlt, hne⟩ := h.finished f hf
      refine ⟨Nat.lt_succ_of_lt hlt, fun p hp => ?_⟩
      rw [hpending, Multiset.mem_cons] at hp
      rcases hp with rfl | hp
      · exact hlt.ne'
      · exact hne p hp
    finished_once := h.finished_once
    results := h.results
    delivered := by
      intro d hd
      obtain ⟨hsame, hresult, hrequest, hlt, hne⟩ := h.delivered d hd
      refine ⟨hsame, hresult, hrequest, Nat.lt_succ_of_lt hlt, fun i c hc => ?_⟩
      rcases hcases i c hc with ⟨-, rfl⟩ | ⟨-, hold⟩
      · exact hlt.ne'
      · exact hne i c hold
    delivered_once := h.delivered_once
    alive := by simp }

/-- A slot is given back: the calls that are still in transit have others. -/
theorem Inv.free_slot (h : Inv s) {index : ℕ} {call : Call} {pending responded : Multiset Carried}
    (htransit : s.pending + s.responded = (index, call) ::ₘ (pending + responded)) :
    (∀ p ∈ pending + responded, Function.update s.inflight index none p.1 = some p.2)
      ∧ ((pending + responded).map Prod.fst).Nodup ∧ s.inflight index = some call := by
  have hdistinct := h.distinct
  rw [htransit, Multiset.map_cons, Multiset.nodup_cons] at hdistinct
  have hslots := h.slots
  rw [htransit] at hslots
  refine ⟨fun p hp => ?_, hdistinct.2, hslots (index, call) (Multiset.mem_cons_self _ _)⟩
  have hne : p.1 ≠ index := by
    intro heq
    exact hdistinct.1 (Multiset.mem_map.2 ⟨p, hp, heq⟩)
  rw [Function.update_of_ne hne]
  exact hslots p (Multiset.mem_cons_of_mem hp)

theorem inflight_of_update {inflight : ℕ → Option Call} {index i : ℕ} {c : Call}
    (hc : Function.update inflight index none i = some c) : inflight i = some c ∧ i ≠ index := by
  by_cases hi : i = index
  · subst hi
    rw [Function.update_self] at hc
    cases hc
  · rw [Function.update_of_ne hi] at hc
    exact ⟨hc, hi⟩

/-- A failed issue gives its slot back. -/
theorem inv_send_failed (h : Inv s) {index : ℕ} {call : Call} (hexec : s.executor = .issuing index call) :
    Inv { s with inflight := Function.update s.inflight index none, executor := .running } := by
  have hpending : s.pending = (index, call) ::ₘ
      State.pending { s with inflight := Function.update s.inflight index none, executor := .running } := by
    simp only [State.pending, hexec, ExecutorPc.carried, Multiset.coe_nil, zero_add,
      Multiset.coe_singleton, Multiset.singleton_add, Multiset.cons_add]
  have htransit := congrArg (· + s.responded) hpending
  rw [Multiset.cons_add] at htransit
  obtain ⟨hslots, hdistinct, -⟩ := h.free_slot htransit
  exact {
    slots := hslots
    own := fun i c hc => h.own i c (inflight_of_update hc).1
    distinct := hdistinct
    numbered := fun i c hc => h.numbered i c (inflight_of_update hc).1
    own_slot := fun i j c c' hc hc' =>
      h.own_slot i j c c' (inflight_of_update hc).1 (inflight_of_update hc').1
    finished := by
      intro f hf
      obtain ⟨hlt, hne⟩ := h.finished f hf
      refine ⟨hlt, fun p hp => hne p ?_⟩
      rw [hpending]
      exact Multiset.mem_cons_of_mem hp
    finished_once := h.finished_once
    results := h.results
    delivered := by
      intro d hd
      obtain ⟨hsame, hresult, hrequest, hlt, hne⟩ := h.delivered d hd
      exact ⟨hsame, hresult, hrequest, hlt, fun i c hc => hne i c (inflight_of_update hc).1⟩
    delivered_once := h.delivered_once
    alive := by simp }

/-- `wait` takes a result: the slot is that of the call whose result it is. -/
theorem inv_recv_result (h : Inv s) {index : ℕ} {call callback : Call} {result : Seen}
    {rest : List BackToExecutorItem} (hresults : s.results = .TaskResult index call result :: rest)
    (hexec : s.executor = .waiting) (hslot : s.inflight index = some callback) :
    Inv { s with
      results := rest
      inflight := Function.update s.inflight index none
      executor := .running
      delivered := s.delivered ++ [⟨callback, call, result⟩] } := by
  have hresponded : s.responded
      = (index, call) ::ₘ ((rest.filterMap BackToExecutorItem.carried : List Carried) : Multiset Carried) := by
    rw [State.responded, hresults]
    rfl
  have htransit : s.pending + s.responded = (index, call) ::ₘ
      (s.pending + ((rest.filterMap BackToExecutorItem.carried : List Carried) : Multiset Carried)) := by
    rw [hresponded, Multiset.add_cons]
  obtain ⟨hslots, hdistinct, hown⟩ := h.free_slot htransit
  obtain rfl : callback = call := Option.some.inj (hslot.symm.trans hown)
  have hpending : State.pending { s with
      results := rest
      inflight := Function.update s.inflight index none
      executor := .running
      delivered := s.delivered ++ [⟨callback, callback, result⟩] } = s.pending := by
    simp only [State.pending, hexec, ExecutorPc.carried]
  have hfinished := h.results index callback result (by rw [hresults]; exact List.mem_cons_self)
  exact {
    slots := by
      rw [hpending]
      exact hslots
    own := fun i c hc => h.own i c (inflight_of_update hc).1
    distinct := by
      rw [hpending]
      exact hdistinct
    numbered := fun i c hc => h.numbered i c (inflight_of_update hc).1
    own_slot := fun i j c c' hc hc' =>
      h.own_slot i j c c' (inflight_of_update hc).1 (inflight_of_update hc').1
    finished := by
      rw [hpending]
      exact h.finished
    finished_once := h.finished_once
    results := fun i c r hr => h.results i c r (by rw [hresults]; exact List.mem_cons_of_mem _ hr)
    delivered := by
      intro d hd
      rcases List.mem_append.1 hd with hold | hnew
      · obtain ⟨hsame, hresult, hrequest, hlt, hne⟩ := h.delivered d hold
        exact ⟨hsame, hresult, hrequest, hlt, fun i c hc => hne i c (inflight_of_update hc).1⟩
      · rw [List.mem_singleton.1 hnew]
        refine ⟨rfl, hfinished, h.own index callback hslot, h.numbered index callback hslot,
          fun i c hc hid => ?_⟩
        -- the number is in one slot only, and that slot is free now
        obtain ⟨hc, hne⟩ := inflight_of_update hc
        exact hne (h.own_slot i index c callback hc hslot hid)
    delivered_once := by
      rw [List.map_append, List.map_singleton, ← List.concat_eq_append]
      refine List.Nodup.concat (fun hmem => ?_) h.delivered_once
      obtain ⟨d, hd, heq⟩ := List.mem_map.1 hmem
      exact (h.delivered d hd).2.2.2.2 index callback hslot heq.symm
    alive := by simp }

theorem carried_with_pc (f : RustyWorkers.InFlight → RustyWorkers.InFlight) (x : InFlight) :
    (x.with_pc f).carried = x.carried := rfl

theorem pending_erase {x : InFlight} (hx : x ∈ s.tasks) :
    s.pending = x.carried ::ₘ (s.release x).pending := by
  have hperm : (s.tasks.map InFlight.carried).Perm (x.carried :: (s.tasks.erase x).map InFlight.carried) :=
    (List.perm_cons_erase hx).map InFlight.carried
  have hcoe := Multiset.coe_eq_coe.2 hperm
  rw [← Multiset.cons_coe] at hcoe
  simp only [State.pending, State.release, hcoe, Multiset.add_cons]

theorem respond_results (s : State) (x : InFlight) (result : Seen) :
    ((s.release x).respond x result).results =
      if s.executor = .dropped then s.results else s.results ++ [.TaskResult x.index x.call result] := rfl

/-- A task that responds is done with its call. -/
theorem inv_finish (h : Inv s) {x : InFlight} (hx : x ∈ s.tasks) (result : Seen) :
    Inv ((s.release x).respond x result) := by
  have hpending : s.pending = x.carried ::ₘ ((s.release x).respond x result).pending :=
    pending_erase hx
  have hresponded : ((s.release x).respond x result).responded ≤ x.carried ::ₘ s.responded := by
    rw [State.responded, respond_results]
    by_cases hdropped : s.executor = .dropped
    · rw [if_pos hdropped]
      exact Multiset.le_cons_self _ _
    · rw [if_neg hdropped, State.responded, List.filterMap_append, Multiset.cons_coe, Multiset.coe_le]
      exact (List.perm_append_singleton _ _).subperm
  have hle : ((s.release x).respond x result).pending + ((s.release x).respond x result).responded
      ≤ s.pending + s.responded := by
    rw [hpending, Multiset.cons_add, ← Multiset.add_cons]
    exact add_le_add_right hresponded _
  have hmem : x.carried ∈ s.pending := by
    rw [hpending]
    exact Multiset.mem_cons_self _ _
  have hslot := h.slots x.carried (Multiset.mem_add.2 (Or.inl hmem))
  have hnew : x.call.id ∉ s.finished.map fun f => f.1.id := by
    intro hin
    obtain ⟨f, hf, hid⟩ := List.mem_map.1 hin
    exact (h.finished f hf).2 x.carried hmem hid.symm
  -- the number of the call is in its own slot, so no other call in transit has it
  have hothers : ∀ p ∈ ((s.release x).respond x result).pending, p.2.id ≠ x.call.id := by
    intro p hp hid
    have hp' : p ∈ s.pending := by
      rw [hpending]
      exact Multiset.mem_cons_of_mem hp
    have hpslot := h.slots p (Multiset.mem_add.2 (Or.inl hp'))
    have hindex : p.1 = x.carried.1 := h.own_slot _ _ _ _ hpslot hslot hid
    have hdistinct := h.distinct
    rw [hpending, Multiset.cons_add, Multiset.map_cons, Multiset.nodup_cons] at hdistinct
    exact hdistinct.1 (Multiset.mem_map.2 ⟨p, Multiset.mem_add.2 (Or.inl hp), hindex⟩)
  exact {
    slots := fun p hp => h.slots p (Multiset.mem_of_le hle hp)
    own := h.own
    distinct := Multiset.nodup_of_le (Multiset.map_le_map hle) h.distinct
    numbered := h.numbered
    own_slot := h.own_slot
    finished := by
      intro f hf
      rcases List.mem_append.1 hf with hold | hfnew
      · obtain ⟨hlt, hne⟩ := h.finished f hold
        refine ⟨hlt, fun p hp => hne p ?_⟩
        rw [hpending]
        exact Multiset.mem_cons_of_mem hp
      · rw [List.mem_singleton.1 hfnew]
        exact ⟨h.numbered _ _ hslot, hothers⟩
    finished_once := by
      change ((s.finished ++ [(x.call, result)]).map fun f => f.1.id).Nodup
      rw [List.map_append, List.map_singleton, ← List.concat_eq_append]
      exact List.Nodup.concat hnew h.finished_once
    results := by
      intro i c r hr
      rw [respond_results] at hr
      by_cases hdropped : s.executor = .dropped
      · rw [if_pos hdropped] at hr
        exact List.mem_append_left _ (h.results i c r hr)
      · rw [if_neg hdropped] at hr
        rcases List.mem_append.1 hr with hold | hrnew
        · exact List.mem_append_left _ (h.results i c r hold)
        · cases List.mem_singleton.1 hrnew
          exact List.mem_append_right _ List.mem_cons_self
    delivered := by
      intro d hd
      obtain ⟨hsame, hresult, hrequest, hlt, hne⟩ := h.delivered d hd
      exact ⟨hsame, List.mem_append_left _ hresult, hrequest, hlt, hne⟩
    delivered_once := h.delivered_once
    alive := h.alive }

/-- A change of the tasks that leaves them their calls. -/
theorem map_carried {g : InFlight → InFlight} (hg : ∀ x, (g x).carried = x.carried)
    (tasks : List InFlight) : (tasks.map g).map InFlight.carried = tasks.map InFlight.carried := by
  rw [List.map_map]
  exact List.map_congr_left fun x _ => hg x

/-- A call goes from the executor to the backlog. -/
theorem inv_send {index : ℕ} {call : Call} (h : Inv s) (hexec : s.executor = .issuing index call)
    (hsend : s.send conf index call = some s') : Inv s' := by
  unfold State.send at hsend
  split at hsend
  · obtain rfl := Option.some.inj hsend
    exact inv_send_failed h hexec
  · rw [Option.ite_none_right_eq_some] at hsend
    obtain ⟨-, hs⟩ := hsend
    obtain rfl := Option.some.inj hs
    refine h.moved rfl rfl rfl rfl rfl (le_of_eq ?_) le_rfl (fun _ _ _ hr => hr) (by simp)
    simp only [State.pending, hexec, ExecutorPc.carried, Multiset.coe_nil, zero_add, ← Multiset.coe_add]
    rw [add_comm (s.backlog : Multiset Carried)]

theorem inv_recv {granted : Bool} (h : Inv s) (hexec : s.executor = .waiting)
    (hrecv : s.recv granted = some s') : Inv s' := by
  unfold State.recv at hrecv
  split at hrecv
  · rename_i index call result rest hresults
    have hmem : (index, call) ∈ s.responded := by
      rw [State.responded, hresults]
      exact List.mem_cons_self
    -- the slot of a result is never vacant
    have hslot := h.slots (index, call) (Multiset.mem_add.2 (Or.inr hmem))
    simp only [hslot, Option.some.injEq] at hrecv
    subst hrecv
    exact inv_recv_result h hresults hexec hslot
  · rename_i index rest hresults
    obtain rfl := Option.some.inj hrecv
    refine h.moved rfl rfl rfl rfl rfl (le_of_eq ?_) (le_of_eq ?_) ?_ h.alive
    · simp only [State.pending]
      rw [map_carried (carried_with_pc (RustyWorkers.InFlight.reply granted index))]
    · rw [State.responded, State.responded, hresults]
      rfl
    · intro i c r hr
      rw [hresults]
      exact List.mem_cons_of_mem _ hr
  · rw [Option.ite_none_right_eq_some] at hrecv
    obtain ⟨-, hs⟩ := hrecv
    obtain rfl := Option.some.inj hs
    refine h.moved rfl rfl rfl rfl rfl (le_of_eq ?_) le_rfl (fun _ _ _ hr => hr) (by simp)
    simp only [State.pending, hexec, ExecutorPc.carried]

/-- What was not received yet is lost with the waiter. -/
theorem inv_drop_waiter (h : Inv s) (hrun : s.executor = .running) : Inv s.drop_waiter := by
  refine h.moved rfl rfl rfl rfl rfl (le_of_eq ?_) (Multiset.zero_le _) (fun _ _ _ hr => by cases hr)
    (by simp [State.drop_waiter])
  simp only [State.pending, State.drop_waiter, hrun, ExecutorPc.carried]
  rw [map_carried (carried_with_pc RustyWorkers.InFlight.orphan)]

theorem inv_next (h : Inv s) (hrun : s.run = .select) (hnext : s.next = some s') : Inv s' := by
  unfold State.next at hnext
  split at hnext
  · rename_i index call rest hbacklog
    obtain rfl := Option.some.inj hnext
    refine h.moved rfl rfl rfl rfl rfl (le_of_eq ?_) le_rfl (fun _ _ _ hr => hr) h.alive
    simp only [State.pending, hrun, hbacklog, RunPc.carried, Multiset.coe_nil, add_zero]
    rw [← Multiset.cons_coe (index, call) rest, ← Multiset.singleton_add, Multiset.coe_singleton,
      add_comm {(index, call)}, add_assoc (s.executor.carried : Multiset Carried)]
  · rw [Option.ite_none_right_eq_some] at hnext
    obtain ⟨-, hs⟩ := hnext
    obtain rfl := Option.some.inj hs
    refine h.moved rfl rfl rfl rfl rfl (le_of_eq ?_) le_rfl (fun _ _ _ hr => hr) h.alive
    simp only [State.pending, hrun, RunPc.carried]

theorem inv_acquire {index : ℕ} {call : Call} (h : Inv s) (hrun : s.run = .acquire index call)
    (hacquire : s.acquire index call = some s') : Inv s' := by
  unfold State.acquire at hacquire
  rw [Option.ite_none_right_eq_some] at hacquire
  obtain ⟨-, hs⟩ := hacquire
  obtain rfl := Option.some.inj hs
  refine h.moved rfl rfl rfl rfl rfl (le_of_eq ?_) le_rfl (fun _ _ _ hr => hr) h.alive
  simp only [State.pending, hrun, RunPc.carried, List.map_append, Multiset.coe_nil, add_zero,
    ← Multiset.coe_add, List.map_cons, List.map_nil]
  rw [add_comm ((s.tasks.map InFlight.carried : List Carried) : Multiset Carried), ← add_assoc]
  rfl

/-- A request for buffers carries no call. -/
theorem inv_request (h : Inv s) (x : InFlight) (n : ℕ) : Inv (s.request x n) := by
  have hnone : (List.replicate n (BackToExecutorItem.BufferCreation x.index)).filterMap
      BackToExecutorItem.carried = [] := by
    rw [List.filterMap_eq_nil_iff]
    intro item hitem
    rw [List.eq_of_mem_replicate hitem]
    rfl
  refine h.moved rfl rfl rfl rfl rfl (le_of_eq ?_) (le_of_eq ?_) ?_ h.alive
  · simp only [State.pending, State.request]
    rw [map_carried]
    intro y
    split
    · rename_i heq
      rw [heq]
      rfl
    · rfl
  · simp only [State.responded, State.request]
    split
    · rfl
    · rw [List.filterMap_append, hnone, List.append_nil]
  · intro i c r hr
    simp only [State.request] at hr
    split at hr
    · exact hr
    · rcases List.mem_append.1 hr with hold | hnew
      · exact hold
      · cases List.eq_of_mem_replicate hnew

/-- A call that is killed is never heard of again. -/
theorem inv_kill_task (h : Inv s) {x : InFlight} (hx : x ∈ s.tasks) : Inv (s.release x) := by
  refine h.moved rfl rfl rfl rfl rfl ?_ le_rfl (fun _ _ _ hr => hr) h.alive
  rw [pending_erase hx]
  exact Multiset.le_cons_self _ _

theorem inv_step {a : Action} (h : Inv s) (hs : State.step conf s a = some s') : Inv s' := by
  cases a with
  | issue count_budget task cb index =>
    simp only [State.step, Option.ite_none_right_eq_some, Option.some.injEq] at hs
    obtain ⟨⟨hrun, hfree⟩, rfl⟩ := hs
    cases hissue : s.issue count_budget task cb index with
    | none => exact h
    | some s' => exact inv_issue h hrun hfree hissue
  | send =>
    simp only [State.step] at hs
    split at hs
    · exact inv_send h ‹_› hs
    · cases hs
  | wait =>
    simp only [State.step, Option.ite_none_right_eq_some, Option.some.injEq] at hs
    obtain ⟨hrun, rfl⟩ := hs
    refine h.moved rfl rfl rfl rfl rfl (le_of_eq ?_) le_rfl (fun _ _ _ hr => hr) (by simp)
    simp only [State.pending, hrun, ExecutorPc.carried]
  | recv granted =>
    simp only [State.step, Option.ite_none_right_eq_some] at hs
    exact inv_recv h hs.1 hs.2
  | drop_waiter =>
    simp only [State.step, Option.ite_none_right_eq_some, Option.some.injEq] at hs
    obtain ⟨hrun, rfl⟩ := hs
    exact inv_drop_waiter h hrun
  | kill =>
    simp only [State.step, Option.ite_none_right_eq_some, Option.some.injEq] at hs
    obtain ⟨⟨hrun, -⟩, rfl⟩ := hs
    refine h.moved rfl rfl rfl rfl rfl (le_of_eq ?_) le_rfl (fun _ _ _ hr => hr) h.alive
    simp only [State.pending, hrun, RunPc.carried]
  | next =>
    simp only [State.step, Option.ite_none_right_eq_some] at hs
    exact inv_next h hs.1 hs.2
  | acquire =>
    simp only [State.step] at hs
    split at hs
    · exact inv_acquire h ‹_› hs
    · cases hs
  | request x n =>
    simp only [State.step, Option.ite_none_right_eq_some, Option.some.injEq] at hs
    obtain ⟨-, rfl⟩ := hs
    exact inv_request h x n
  | finish x result =>
    simp only [State.step, Option.ite_none_right_eq_some] at hs
    obtain ⟨hx, hs⟩ := hs
    split at hs
    · cases hs
    · obtain rfl := Option.some.inj hs
      exact inv_finish h hx result
  | kill_task x =>
    simp only [State.step, Option.ite_none_right_eq_some, Option.some.injEq] at hs
    obtain ⟨⟨hx, -⟩, rfl⟩ := hs
    exact inv_kill_task h hx
  | drop_scope =>
    simp only [State.step, Option.ite_none_right_eq_some, Option.some.injEq] at hs
    obtain ⟨-, rfl⟩ := hs
    exact h.moved rfl rfl rfl rfl rfl le_rfl le_rfl (fun _ _ _ hr => hr) h.alive

theorem inv_run {request_id : ℕ} {as : List Action} {t : State}
    (h : (machine conf).run (State.new conf request_id) as = some t) : Inv t :=
  (machine conf).run_invariant (fun _ _ _ hi hs => inv_step hi hs) (inv_new conf request_id) h

/-! ## The machine of `Io` -/

/-- The calls that the action is about are those of the state, and the call is
not counted, as `call_service_callback` issues it. -/
def Action.Known (s : State) : Action → Prop
  | .issue count_budget _ _ _ => count_budget = false
  | .request x _ | .finish x _ | .kill_task x => x ∈ s.tasks
  | _ => True

/-- Two tasks that are the same without the number are the same. -/
theorem Inv.erase_inj (h : Inv s) {x y : InFlight} (hx : x ∈ s.tasks) (hy : y ∈ s.tasks)
    (heq : x.erase = y.erase) : x = y := by
  have hindex : x.index = y.index := congrArg RustyWorkers.InFlight.index heq
  have hpc : x.pc = y.pc := congrArg RustyWorkers.InFlight.pc heq
  have hmem : ∀ z ∈ s.tasks, z.carried ∈ s.pending + s.responded := by
    intro z hz
    exact Multiset.mem_add.2 (Or.inl (Multiset.mem_add.2 (Or.inr (List.mem_map_of_mem hz))))
  have hcall : x.call = y.call := by
    have hslot := h.slots _ (hmem x hx)
    have hslot' := h.slots _ (hmem y hy)
    simp only [InFlight.carried, hindex] at hslot hslot'
    exact Option.some.inj (hslot.symm.trans hslot')
  cases x
  cases y
  simp_all

@[simp] theorem erase_executor_running : s.erase.executor = .running ↔ s.executor = .running := by
  cases h : s.executor <;> simp [State.erase, ExecutorPc.erase, h]

@[simp] theorem erase_executor_waiting : s.erase.executor = .waiting ↔ s.executor = .waiting := by
  cases h : s.executor <;> simp [State.erase, ExecutorPc.erase, h]

@[simp] theorem erase_executor_dropped : s.erase.executor = .dropped ↔ s.executor = .dropped := by
  cases h : s.executor <;> simp [State.erase, ExecutorPc.erase, h]

@[simp] theorem erase_run_select : s.erase.run = .select ↔ s.run = .select := by
  cases h : s.run <;> simp [State.erase, RunPc.erase, h]

@[simp] theorem erase_run_exited : s.erase.run = .exited ↔ s.run = .exited := by
  cases h : s.run <;> simp [State.erase, RunPc.erase, h]

@[simp] theorem erase_inflight (index : ℕ) : s.erase.inflight index = (s.inflight index).map Call.cb := rfl

theorem erase_update (inflight : ℕ → Option Call) (index : ℕ) (c : Option Call) :
    (fun i => (Function.update inflight index c i).map Call.cb)
      = Function.update (fun i => (inflight i).map Call.cb) index (c.map Call.cb) :=
  Function.comp_update (Option.map Call.cb) inflight index c

/-- The tasks change alike with their numbers and without. -/
theorem erase_with_pc {f : RustyWorkers.InFlight → RustyWorkers.InFlight}
    (hf : ∀ x, (f x).index = x.index ∧ (f x).task = x.task) (tasks : List InFlight) :
    (tasks.map fun x => x.with_pc f).map InFlight.erase = (tasks.map InFlight.erase).map f := by
  rw [List.map_map, List.map_map]
  refine List.map_congr_left fun x _ => ?_
  obtain ⟨hindex, htask⟩ := hf x.erase
  change RustyWorkers.InFlight.mk x.index x.call.task (f x.erase).pc = f x.erase
  rw [show x.index = (f x.erase).index from hindex.symm, show x.call.task = (f x.erase).task from htask.symm]

theorem erase_remove (h : Inv s) {x : InFlight} (hx : x ∈ s.tasks) :
    (s.tasks.erase x).map InFlight.erase = (s.tasks.map InFlight.erase).erase x.erase := by
  have hinj : ∀ y ∈ s.tasks, y.erase = x.erase → y = x := fun y hy heq => h.erase_inj hy hx heq
  generalize s.tasks = tasks at hinj
  induction tasks with
  | nil => rfl
  | cons y ys ih =>
    have hys := ih fun z hz => hinj z (List.mem_cons_of_mem _ hz)
    by_cases heq : y = x
    · rw [heq, List.erase_cons_head, List.map_cons, List.erase_cons_head]
    · have hne : y.erase ≠ x.erase := fun h => heq (hinj y List.mem_cons_self h)
      rw [List.erase_cons_tail (by simpa using heq), List.map_cons, List.map_cons,
        List.erase_cons_tail (by simpa using hne), hys]

theorem erase_send {index : ℕ} {call : Call} :
    s.erase.send conf index call.task = (s.send conf index call).map State.erase := by
  simp only [IoState.send, State.send, erase_run_exited]
  split
  · simp only [Option.map_some, State.erase, ExecutorPc.erase, erase_update, Option.map_none]
  · have hlength : s.erase.backlog.length = s.backlog.length := List.length_map _
    rw [hlength]
    split
    · simp [State.erase, ExecutorPc.erase]
    · rfl

theorem reply_keeps (granted : Bool) (index : ℕ) (x : RustyWorkers.InFlight) :
    (x.reply granted index).index = x.index ∧ (x.reply granted index).task = x.task := by
  unfold RustyWorkers.InFlight.reply
  split
  · split <;> exact ⟨rfl, rfl⟩
  · exact ⟨rfl, rfl⟩

theorem orphan_keeps (x : RustyWorkers.InFlight) : x.orphan.index = x.index ∧ x.orphan.task = x.task := by
  unfold RustyWorkers.InFlight.orphan
  split <;> exact ⟨rfl, rfl⟩

theorem erase_recv (h : Inv s) {granted : Bool} :
    s.erase.recv granted = (s.recv granted).map State.erase := by
  have hresults : s.erase.results = s.results.map BackToExecutorItem.erase := rfl
  simp only [IoState.recv, State.recv, hresults]
  cases hitems : s.results with
  | nil =>
    have htasks : s.erase.tasks = [] ↔ s.tasks = [] := List.map_eq_nil_iff
    simp only [List.map_nil, erase_run_exited, htasks]
    split
    · simp [State.erase, ExecutorPc.erase, hitems]
    · rfl
  | cons item rest =>
    cases item with
    | TaskResult index call result =>
      have hmem : (index, call) ∈ s.responded := by
        rw [State.responded, hitems]
        exact List.mem_cons_self
      have hslot := h.slots (index, call) (Multiset.mem_add.2 (Or.inr hmem))
      simp only [List.map_cons, BackToExecutorItem.erase, erase_inflight, hslot, Option.map_some]
      simp only [State.erase, ExecutorPc.erase, erase_update, Option.map_none]
    | BufferCreation index =>
      simp only [List.map_cons, BackToExecutorItem.erase, Option.map_some, State.erase,
        erase_with_pc (reply_keeps granted index)]

theorem erase_next : s.erase.next = s.next.map State.erase := by
  have hbacklog : s.erase.backlog = s.backlog.map fun p => (p.1, p.2.task) := rfl
  simp only [IoState.next, State.next, hbacklog]
  cases hcalls : s.backlog with
  | nil =>
    simp only [List.map_nil, erase_executor_dropped]
    split
    · simp [State.erase, RunPc.erase, hcalls]
    · rfl
  | cons p rest => simp only [List.map_cons, Option.map_some, State.erase, RunPc.erase]

theorem erase_acquire {index : ℕ} {call : Call} :
    s.erase.acquire index call.task = (s.acquire index call).map State.erase := by
  simp only [IoState.acquire, State.acquire]
  change (if 0 < s.permits then _ else _) = _
  split
  · simp [State.erase, RunPc.erase, InFlight.erase]
  · rfl

theorem erase_release (h : Inv s) {x : InFlight} (hx : x ∈ s.tasks) :
    s.erase.release x.erase = (s.release x).erase := by
  simp only [IoState.release, State.release, State.erase, erase_remove h hx]

theorem erase_respond {x : InFlight} {result : Seen} :
    s.erase.respond x.erase.index result = (s.respond x result).erase := by
  simp only [IoState.respond, State.respond, erase_executor_dropped]
  by_cases hdropped : s.executor = .dropped
  · simp [State.erase, hdropped]
  · simp [State.erase, hdropped, BackToExecutorItem.erase, InFlight.erase]

theorem erase_mem {x : InFlight} (hx : x ∈ s.tasks) : x.erase ∈ s.erase.tasks := List.mem_map_of_mem hx

theorem erase_request (h : Inv s) {x : InFlight} (hx : x ∈ s.tasks) (n : ℕ) :
    s.erase.request x.erase n = (s.request x n).erase := by
  have htasks (alive : Bool) : (s.tasks.map InFlight.erase).map (fun y =>
      if y = x.erase then x.erase.ask alive n else y)
      = (s.tasks.map fun y =>
          if y = x then x.with_pc (RustyWorkers.InFlight.ask alive n) else y).map InFlight.erase := by
    rw [List.map_map, List.map_map]
    refine List.map_congr_left fun y hy => ?_
    by_cases heq : y = x
    · subst heq
      simp [InFlight.with_pc, InFlight.erase, RustyWorkers.InFlight.ask]
    · have hne : y.erase ≠ x.erase := fun he => heq (h.erase_inj hy hx he)
      simp [heq, hne]
  have hrequests : (List.replicate n (BackToExecutorItem.BufferCreation x.index)).map
      BackToExecutorItem.erase = List.replicate n (.BufferCreation x.erase.index) := List.map_replicate
  simp only [IoState.request, State.request, ne_eq, erase_executor_dropped]
  by_cases hdropped : s.executor = .dropped
  · simp only [hdropped, not_true_eq_false, decide_false, if_true, State.erase, ← htasks]
  · simp only [hdropped, not_false_eq_true, decide_true, if_false, State.erase, ← htasks,
      List.map_append, hrequests]

theorem erase_executor (s : State) : s.erase.executor = s.executor.erase := rfl

theorem erase_run (s : State) : s.erase.run = s.run.erase := rfl

/-- **The numbers change nothing.** Without them a step of this machine is a
step of the machine of `Io`. -/
theorem step_erase (h : Inv s) {a : Action} (ha : a.Known s) :
    IoState.step conf s.erase a.erase = (State.step conf s a).map State.erase := by
  cases a with
  | issue count_budget task cb index =>
    obtain rfl : count_budget = false := ha
    simp only [State.step, IoState.step, Action.erase, erase_executor_running, erase_inflight,
      Option.map_eq_none_iff]
    split
    · simp [IoState.issue, State.issue, State.erase, ExecutorPc.erase, erase_update, State.next_call]
    · rfl
  | send =>
    simp only [State.step, IoState.step, Action.erase]
    rw [erase_executor]
    cases s.executor with
    | issuing index call => exact erase_send
    | _ => rfl
  | wait =>
    simp only [State.step, IoState.step, Action.erase, erase_executor_running]
    split <;> rfl
  | recv granted =>
    simp only [State.step, IoState.step, Action.erase, erase_executor_waiting]
    split
    · exact erase_recv h
    · rfl
  | drop_waiter =>
    simp only [State.step, IoState.step, Action.erase, erase_executor_running]
    split
    · simp only [Option.map_some, State.drop_waiter, IoState.drop_waiter, State.erase, ExecutorPc.erase,
        erase_with_pc orphan_keeps, List.map_nil]
    · rfl
  | kill =>
    simp only [State.step, IoState.step, Action.erase, erase_run_select]
    change (if s.run = .select ∧ s.scope = false then _ else _) = _
    split <;> rfl
  | next =>
    simp only [State.step, IoState.step, Action.erase, erase_run_select]
    split
    · exact erase_next
    · rfl
  | acquire =>
    simp only [State.step, IoState.step, Action.erase]
    rw [erase_run]
    cases s.run with
    | acquire index call => exact erase_acquire
    | _ => rfl
  | request x n =>
    have hx : x ∈ s.tasks := ha
    simp only [State.step, IoState.step, Action.erase, hx, erase_mem hx, true_and]
    change (if x.pc = .working ∧ x.call.task.v.allocates = true ∧ 0 < n then _ else _) = _
    split
    · exact congrArg some (erase_request h hx n)
    · rfl
  | finish x result =>
    have hx : x ∈ s.tasks := ha
    simp only [State.step, IoState.step, Action.erase, hx, erase_mem hx, if_true]
    change (match x.pc with | .allocating _ => _ | _ => _) = _
    cases x.pc with
    | allocating n => rfl
    | _ =>
      simp only [Option.map_some, Option.some.injEq]
      rw [erase_release h hx, erase_respond]
  | kill_task x =>
    have hx : x ∈ s.tasks := ha
    simp only [State.step, IoState.step, Action.erase, hx, erase_mem hx, true_and, erase_run_exited]
    split
    · exact congrArg some (erase_release h hx)
    · rfl
  | drop_scope =>
    simp only [State.step, IoState.step, Action.erase]
    change (if s.scope = true then _ else _) = _
    split <;> rfl

/-- Every step of `Io` is one of this machine. -/
theorem known_of_erase {b : IoAction} {t : IoState} (hb : IoState.step conf s.erase b = some t) :
    ∃ a : Action, a.Known s ∧ a.erase = b := by
  cases b with
  | issue task cb index => exact ⟨.issue false task cb index, rfl, rfl⟩
  | request x n =>
    obtain ⟨y, hy, rfl⟩ := List.mem_map.1 (IoState.step_request hb).1
    exact ⟨.request y n, hy, rfl⟩
  | finish x result =>
    obtain ⟨y, hy, rfl⟩ := List.mem_map.1 (IoState.step_finish hb).1
    exact ⟨.finish y result, hy, rfl⟩
  | kill_task x =>
    obtain ⟨y, hy, rfl⟩ := List.mem_map.1 (IoState.step_kill_task hb).1
    exact ⟨.kill_task y, hy, rfl⟩
  | send => exact ⟨.send, trivial, rfl⟩
  | wait => exact ⟨.wait, trivial, rfl⟩
  | recv granted => exact ⟨.recv granted, trivial, rfl⟩
  | drop_waiter => exact ⟨.drop_waiter, trivial, rfl⟩
  | kill => exact ⟨.kill, trivial, rfl⟩
  | next => exact ⟨.next, trivial, rfl⟩
  | acquire => exact ⟨.acquire, trivial, rfl⟩
  | drop_scope => exact ⟨.drop_scope, trivial, rfl⟩

/-- **Refinement.** Every run of the machine of `Io` is a run with numbers, so
its states are what the states of this machine are without them. -/
theorem run_lift {request_id : ℕ} {bs : List IoAction} {t : IoState}
    (h : (IoState.machine conf).run (IoState.new conf) bs = some t) :
    ∃ as s, (machine conf).run (State.new conf request_id) as = some s ∧ s.erase = t := by
  suffices hlift : ∀ s, Inv s → ∀ bs t, (IoState.machine conf).run s.erase bs = some t →
      ∃ as s', (machine conf).run s as = some s' ∧ s'.erase = t from
    hlift _ (inv_new conf request_id) bs t h
  intro s hinv bs
  induction bs generalizing s with
  | nil =>
    intro t ht
    exact ⟨[], s, rfl, Option.some.inj ht⟩
  | cons b bs ih =>
    intro t ht
    obtain ⟨t', hb, ht⟩ := (IoState.machine conf).run_cons_eq_some.1 ht
    obtain ⟨a, ha, rfl⟩ := known_of_erase hb
    have hstep : (State.step conf s a).map State.erase = some t' := (step_erase hinv ha).symm.trans hb
    obtain ⟨s', hs, rfl⟩ := Option.map_eq_some_iff.1 hstep
    obtain ⟨as, s'', hrun, herase⟩ := ih s' (inv_step hinv hs) t ht
    exact ⟨a :: as, s'', (machine conf).run_cons_eq_some.2 ⟨s', hs, hrun⟩, herase⟩

/-! ## A failed issue -/

/-- Between the two halves of an `issue` no one else touches the slab. -/
def Issuing (index : ℕ) (call : Call) (slab : ℕ → Option Call) (s : State) : Prop :=
  s.executor = .issuing index call ∧ s.inflight = slab

theorem issuing_step {index : ℕ} {call : Call} {slab : ℕ → Option Call} {a : Action}
    (h : Issuing index call slab s) (ha : a ≠ .send) (hs : State.step conf s a = some s') :
    Issuing index call slab s' := by
  obtain ⟨hexec, hslab⟩ := h
  cases a with
  | send => exact absurd rfl ha
  | issue | wait | recv | drop_waiter => simp [State.step, hexec] at hs
  | next =>
    simp only [State.step, Option.ite_none_right_eq_some, State.next] at hs
    obtain ⟨-, hs⟩ := hs
    split at hs
    · obtain rfl := Option.some.inj hs
      exact ⟨hexec, hslab⟩
    · simp [hexec] at hs
  | acquire =>
    simp only [State.step, State.acquire] at hs
    split at hs
    · rw [Option.ite_none_right_eq_some] at hs
      obtain rfl := Option.some.inj hs.2
      exact ⟨hexec, hslab⟩
    · cases hs
  | finish x result =>
    simp only [State.step, Option.ite_none_right_eq_some] at hs
    obtain ⟨-, hs⟩ := hs
    split at hs
    · cases hs
    · obtain rfl := Option.some.inj hs
      exact ⟨hexec, hslab⟩
  | kill | request | kill_task | drop_scope =>
    simp only [State.step, Option.ite_none_right_eq_some, Option.some.injEq] at hs
    obtain ⟨-, rfl⟩ := hs
    exact ⟨hexec, hslab⟩

/-- An issue that fails leaves the slab as it was: at once when the budget is
used up, and otherwise however long the `blocking_send` takes to fail. -/
theorem failed_issue {count_budget : Bool} {task : AsyncCall} {cb index : ℕ} {s₁ : State}
    (hissue : State.step conf s (.issue count_budget task cb index) = some s₁) :
    (s.issue count_budget task cb index = none ∧ s₁.inflight = s.inflight)
      ∨ ∀ as s₂ s₃, (machine conf).Meets (fun _ a => a ≠ .send) s₁ as → (machine conf).run s₁ as = some s₂ →
        State.step conf s₂ .send = some s₃ → s₂.run = .exited → s₃.inflight = s.inflight := by
  simp only [State.step, Option.ite_none_right_eq_some, Option.some.injEq] at hissue
  obtain ⟨⟨hrun, hfree⟩, rfl⟩ := hissue
  cases hs : s.issue count_budget task cb index with
  | none => exact Or.inl ⟨rfl, rfl⟩
  | some s₁ =>
    refine Or.inr fun as s₂ s₃ hmeets hrun hsend hexited => ?_
    have hissued : Issuing index (s.next_call task cb)
        (Function.update s.inflight index (some (s.next_call task cb))) s₁ := by
      unfold State.issue at hs
      split at hs
      · cases hs
      · obtain rfl := Option.some.inj hs
        exact ⟨rfl, rfl⟩
    obtain ⟨hexec, hslab⟩ := (machine conf).run_invariant_of_meets
      (fun _ _ _ hi hc hs => issuing_step hi hc hs) hissued hmeets hrun
    simp only [State.step, hexec, State.send, hexited, if_true, Option.some.injEq] at hsend
    subst hsend
    change Function.update s₂.inflight index none = s.inflight
    rw [hslab, Function.update_idem, Function.update_eq_self_iff]
    exact hfree.symm

/-! ## The requests of an instance -/

inductive InstanceAction where
  | new
  | io (k : ℕ) (a : Action)

/-- The loop of `Instance::run`: the waiter of a request is dropped before the
next one is made, and the processors and the calls of all requests go on. -/
def Requests.step (conf : ExecutorConfiguration) (rs : List State) : InstanceAction → Option (List State)
  | .new =>
    if ∀ r ∈ rs, r.executor = .dropped then some (rs ++ [State.new conf rs.length]) else none
  | .io k a => rs[k]?.bind fun r => (r.step conf a).map fun r' => rs.set k r'

def requests (conf : ExecutorConfiguration) : Machine (List State) InstanceAction := ⟨Requests.step conf⟩

/-- Each request has its own waiter, at its own place. -/
def Requests.Inv (rs : List State) : Prop :=
  ∀ k r, rs[k]? = some r → IoCallbacks.Inv r ∧ r.request_id = k

theorem step_request_id {a : Action} (hs : State.step conf s a = some s') :
    s'.request_id = s.request_id := by
  cases a with
  | issue count_budget task cb index =>
    simp only [State.step, Option.ite_none_right_eq_some, Option.some.injEq, State.issue] at hs
    obtain ⟨-, rfl⟩ := hs
    split <;> rfl
  | send => grind [State.step, State.send]
  | recv granted => grind [State.step, State.recv]
  | next => grind [State.step, State.next]
  | acquire => grind [State.step, State.acquire]
  | finish x result => grind [State.step, State.release, State.respond]
  | wait | drop_waiter | kill | request | kill_task | drop_scope =>
    simp only [State.step, Option.ite_none_right_eq_some, Option.some.injEq] at hs
    obtain ⟨-, rfl⟩ := hs
    rfl

theorem Requests.inv_step {rs rs' : List State} {a : InstanceAction} (h : Requests.Inv rs)
    (hs : Requests.step conf rs a = some rs') : Requests.Inv rs' := by
  intro k r hk
  cases a with
  | new =>
    simp only [Requests.step, Option.ite_none_right_eq_some, Option.some.injEq] at hs
    obtain ⟨-, rfl⟩ := hs
    by_cases hlt : k < rs.length
    · rw [List.getElem?_append_left hlt] at hk
      exact h k r hk
    · rw [List.getElem?_append_right (by omega), List.getElem?_singleton] at hk
      split at hk
      · obtain rfl := Option.some.inj hk
        exact ⟨inv_new conf rs.length, by simp only [State.new]; omega⟩
      · cases hk
  | io j a =>
    simp only [Requests.step, Option.bind_eq_some_iff, Option.map_eq_some_iff] at hs
    obtain ⟨r₀, hj, r', hstep, rfl⟩ := hs
    obtain ⟨hinv, hrequest⟩ := h j r₀ hj
    by_cases heq : j = k
    · subst heq
      rw [List.getElem?_set_self (List.getElem?_eq_some_iff.1 hj).1] at hk
      obtain rfl := Option.some.inj hk
      exact ⟨IoCallbacks.inv_step hinv hstep, (step_request_id hstep).trans hrequest⟩
    · rw [List.getElem?_set_ne heq] at hk
      exact h k r hk

/-- **Async results reach the callback of their own call.** In every run of any
number of consecutive requests of an instance: `wait` never addresses a vacant
slot; what it returns is the callback of the call whose result it returns, a
call of the same request, with what its task responded; no callback is returned
twice, and no call has two results; and an issue that fails leaves the slab as
it was. -/
theorem callback_exact {as : List InstanceAction} {rs : List State}
    (h : (requests conf).run [] as = some rs) {k : ℕ} {r : State} (hk : rs[k]? = some r) :
    r.executor ≠ .panicked
    ∧ (∀ d ∈ r.delivered, d.callback = d.source ∧ d.source.request_id = k
        ∧ (d.source, d.result) ∈ r.finished)
    ∧ (r.delivered.map fun d => d.callback.id).Nodup
    ∧ (r.finished.map fun f => f.1.id).Nodup
    ∧ ∀ count_budget task cb index r₁, State.step conf r (.issue count_budget task cb index) = some r₁ →
        (r.issue count_budget task cb index = none ∧ r₁.inflight = r.inflight)
        ∨ ∀ bs r₂ r₃, (machine conf).Meets (fun _ a => a ≠ .send) r₁ bs →
            (machine conf).run r₁ bs = some r₂ → State.step conf r₂ .send = some r₃ →
            r₂.run = .exited → r₃.inflight = r.inflight := by
  have hinv : Requests.Inv rs :=
    (requests conf).run_invariant (fun _ _ _ hi hs => Requests.inv_step hi hs)
      (fun _ _ hk => by simp at hk) h
  obtain ⟨hr, hrequest⟩ := hinv k r hk
  refine ⟨hr.alive, fun d hd => ?_, hr.delivered_once, hr.finished_once,
    fun _ _ _ _ _ hissue => failed_issue hissue⟩
  obtain ⟨hsame, hresult, hown, -⟩ := hr.delivered d hd
  exact ⟨hsame, hown.trans hrequest, hresult⟩

/-- Two timers of one request end in the other order; the second one's slot is
taken again, and the next request begins. -/
def crossed_timers : List InstanceAction :=
  [.new,
    .io 0 (.issue false ⟨.SetTimeout 2, []⟩ 10 0), .io 0 .send,
    .io 0 (.issue false ⟨.SetTimeout 1, []⟩ 11 1), .io 0 .send,
    .io 0 .next, .io 0 .acquire, .io 0 .next, .io 0 .acquire,
    .io 0 (.finish ⟨1, ⟨0, 1, ⟨.SetTimeout 1, []⟩, 11⟩, .working⟩ .io_error),
    .io 0 .wait, .io 0 (.recv true),
    .io 0 (.issue false ⟨.SetTimeout 3, []⟩ 12 1), .io 0 .send,
    .io 0 (.finish ⟨0, ⟨0, 0, ⟨.SetTimeout 2, []⟩, 10⟩, .working⟩ .io_error),
    .io 0 .wait, .io 0 (.recv true), .io 0 .drop_waiter, .new]

theorem callback_exact_crossed_timers :
    ∃ rs r, (requests ⟨32, 1000, 2, 50⟩).run [] crossed_timers = some rs ∧ rs[0]? = some r
      ∧ rs.length = 2 ∧ r.delivered.map (fun d => d.callback.cb) = [11, 10]
      ∧ ∀ d ∈ r.delivered, d.callback = d.source := by
  have hrun : ((requests ⟨32, 1000, 2, 50⟩).run [] crossed_timers).map (fun rs =>
      (rs.length, rs[0]?.map fun r => r.delivered.map fun d => d.callback.cb)) = some (2, some [11, 10]) := rfl
  obtain ⟨rs, hrs, heq⟩ := Option.map_eq_some_iff.1 hrun
  obtain ⟨hlength, hdelivered⟩ := Prod.mk.inj heq
  obtain ⟨r, hr, hcbs⟩ := Option.map_eq_some_iff.1 hdelivered
  exact ⟨rs, r, hrs, hr, hlength, hcbs, fun d hd => ((callback_exact hrs hr).2.1 d hd).1⟩

end IoCallbacks

end RustyWorkers

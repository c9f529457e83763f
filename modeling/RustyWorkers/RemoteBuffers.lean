/-
The array buffers that tasks on other threads write their results into:
`RemoteBuffer` and `RemoteBufferSet` (`rusty-workers-runtime/src/remote_buffer.rs`),
with the parts of `io.rs` and of `Instance::run` that allocate, collect and deliver
them.

The set has the only strong reference to a buffer, a `RemoteBuffer` has a weak one.
A task asks for a buffer over the result channel, the V8 thread allocates it inside
`IoWaiter::wait` and answers over a channel that may have lost its receiver by then.
The task puts its buffers into its result, or drops them, or is dropped itself, all
on another thread; what is in the result channel when the V8 thread drops its end is
dropped later, on any thread. `wait` ends with `gc`, which reads one weak count after the other
while that goes on, and the V8 thread then upgrades what the result carries.

`gone` lists the entries that no `RemoteBuffer` refers to when a `gc` begins, and
`globals` who took or dropped what is in a buffer. No step reads either of them.
-/
import RustyWorkers.Lib.Arc
import RustyWorkers.Lib.Machine
import RustyWorkers.Lib.Sums

set_option autoImplicit false

namespace RustyWorkers

open Lib

namespace RemoteBuffers

/-- Which thread drops or takes. -/
inductive Thread where
  | v8
  | other
deriving DecidableEq, Repr

/-- What the mutex of a buffer guards: the `Global`, or nothing any more. -/
inductive Guarded where
  | global
  | taken
deriving DecidableEq, Repr

/-- A task on another thread. `held` are the `RemoteBuffer`s it has, `channels`
those that are in a channel to it; a task that is not alive only drops them. -/
structure Task where
  alive : Bool
  held : List ℕ
  channels : List ℕ
deriving DecidableEq, Repr

/-- `BackToExecutorItem`; a `RemoteBuffer` is known by the address it refers to. -/
inductive Item where
  | TaskResult (buffers : List ℕ)
  | BufferCreation (task : ℕ)
deriving DecidableEq, Repr

/-- Where the V8 thread is: outside `wait`, in its loop, in the two loops of `gc`
with the result it has received, at the delivery, or on the way out. -/
inductive V8Pc where
  | running
  | waiting
  | scanning (todo to_remove hand : List ℕ)
  | removing (to_remove hand : List ℕ)
  | delivering (hand : List ℕ)
  | upgraded (a : ℕ) (hand : List ℕ)
  | taken (a : ℕ) (hand : List ℕ)
  | dropping (hand : List ℕ)
  | dropping_set
  | ended
  | panicked
deriving DecidableEq, Repr

structure State where
  arcs : ArcHeap Guarded
  buffers : List ℕ
  tasks : List Task
  results : List Item
  v8 : V8Pc
  gone : List ℕ
  globals : List Thread

inductive Action where
  | spawn
  | ask (t : ℕ)
  | receive (t a : ℕ)
  | finish (t : ℕ)
  | kill (t : ℕ)
  | drop_buffer (t a : ℕ)
  | wait
  | recv (answer : Option ℕ)
  | disconnected
  | gc
  | upgrade
  | take
  | release
  | abandon
  | drop_next
  | drop_waiter
  | drop_entry
  | drop_message
deriving DecidableEq, Repr

/-- `IoWaiter::new`. -/
def start : State := ⟨fun _ => none, [], [], [], .running, [], []⟩

/-! ## Where the `RemoteBuffer`s are -/

def Item.remotes : Item → List ℕ
  | .TaskResult buffers => buffers
  | .BufferCreation _ => []

def Task.remotes (x : Task) : List ℕ := x.held ++ x.channels

/-- The `RemoteBuffer`s that the V8 thread has. -/
def V8Pc.hand : V8Pc → List ℕ
  | .scanning _ _ hand | .removing _ hand | .delivering hand | .dropping hand => hand
  | .upgraded a hand | .taken a hand => a :: hand
  | .running | .waiting | .dropping_set | .ended | .panicked => []

/-- Every `RemoteBuffer`, by its address. -/
def State.remotes (s : State) : List ℕ :=
  s.v8.hand ++ (s.results.flatMap Item.remotes ++ s.tasks.flatMap Task.remotes)

/-- The receiver of the result channel has not been dropped. -/
def V8Pc.listening : V8Pc → Bool
  | .dropping_set | .ended => false
  | _ => true

/-! ## Steps -/

namespace State

/-- A weak reference is dropped, on whichever thread. -/
def drop_weak (s : State) (a : ℕ) : State := { s with arcs := s.arcs.drop_weak a }

/-- A strong reference is dropped, and the `Global` with the last one. -/
def drop_strong (s : State) (thread : Thread) (a : ℕ) : State :=
  { s with
    arcs := (s.arcs.drop_strong a).1
    globals := if (s.arcs.drop_strong a).2 = some .global then thread :: s.globals else s.globals }

def set_task (s : State) (t : ℕ) (x : Task) : State := { s with tasks := s.tasks.set t x }

/-- `RemoteBufferSet::allocate`, when the precheck has passed, and the answer to
task `t`: without a receiver the new `RemoteBuffer` is dropped at once. -/
def allocate (s : State) (t a : ℕ) : State :=
  let s := { s with arcs := s.arcs.new_downgraded a .global, buffers := s.buffers ++ [a] }
  match s.tasks[t]? with
  | some x => if x.alive then s.set_task t { x with channels := x.channels ++ [a] } else s.drop_weak a
  | none => s.drop_weak a

/-- One round of the loop of `IoWaiter::wait`; `answer` is the address of the
buffer, if one is allocated. -/
def recv (s : State) (answer : Option ℕ) : Option State :=
  match s.results with
  | .TaskResult buffers :: results =>
    some { s with
      results := results
      v8 := .scanning s.buffers [] buffers
      gone := s.buffers.filter fun a => a ∉ s.remotes }
  | .BufferCreation t :: results =>
    match answer with
    | some a => if s.arcs a = none then some ({ s with results := results }.allocate t a) else none
    | none => some { s with results := results }
  | [] => none

/-- The V8 thread goes on in `RemoteBufferSet::gc`. -/
def gc (s : State) : Option State :=
  match s.v8 with
  | .scanning (k :: todo) to_remove hand =>
    some { s with v8 := .scanning todo (if s.arcs.weak_count k = 0 then to_remove ++ [k] else to_remove) hand }
  | .scanning [] to_remove hand => some { s with v8 := .removing to_remove hand }
  | .removing (k :: to_remove) hand =>
    some { s.drop_strong .v8 k with buffers := s.buffers.erase k, v8 := .removing to_remove hand }
  | .removing [] hand => some { s with v8 := .delivering hand }
  | _ => none

/-- The V8 thread goes on in `unwrap_on_v8_thread`, or past the last buffer. -/
def upgrade (s : State) : Option State :=
  match s.v8 with
  | .delivering (a :: hand) =>
    match s.arcs.upgrade a with
    | some arcs => some { s with arcs := arcs, v8 := .upgraded a hand }
    -- the `expect` of `Instance::run`
    | none => some { s with v8 := .panicked }
  | .delivering [] => some { s with v8 := .running }
  | _ => none

/-- `try_lock().unwrap().take().unwrap().take()`; only the V8 thread ever locks. -/
def take (s : State) : Option State :=
  match s.v8 with
  | .upgraded a hand =>
    if (s.arcs a).bind Arc.value = some .global then
      some { s with
        arcs := s.arcs.modify a fun _ => .taken
        globals := .v8 :: s.globals
        v8 := .taken a hand }
    else some { s with v8 := .panicked }
  | _ => none

/-- The upgraded reference and the `RemoteBuffer` go out of scope. -/
def release (s : State) : Option State :=
  match s.v8 with
  | .taken a hand => some { (s.drop_strong .v8 a).drop_weak a with v8 := .delivering hand }
  | _ => none

/-- The V8 thread drops the `RemoteBuffer`s that it has. -/
def drop_next (s : State) : Option State :=
  match s.v8 with
  | .dropping (a :: hand) => some { s.drop_weak a with v8 := .dropping hand }
  | .dropping [] => some { s with v8 := .running }
  | _ => none

/-- The V8 thread drops the entries of the set. -/
def drop_entry (s : State) : Option State :=
  match s.v8, s.buffers with
  | .dropping_set, k :: buffers => some { s.drop_strong .v8 k with buffers := buffers }
  | .dropping_set, [] => some { s with v8 := .ended }
  | _, _ => none

/-- The channel keeps what is in it when the receiver is gone, until its last endpoint
goes: on whichever thread, the messages are dropped one by one with what they carry. -/
def drop_message (s : State) : Option State :=
  if s.v8.listening then none
  else
    match s.results with
    | .TaskResult (a :: buffers) :: results => some { s.drop_weak a with results := .TaskResult buffers :: results }
    | _ :: results => some { s with results := results }
    | [] => none

end State

/-- A step of task `t`, which is `x`. -/
def task_step (s : State) (t : ℕ) (x : Task) : Action → Option State
  | .ask _ =>
    if x.alive then
      some (if s.v8.listening then { s with results := s.results ++ [.BufferCreation t] } else s)
    else none
  | .receive _ a =>
    if x.alive ∧ a ∈ x.channels then
      some (s.set_task t { x with held := a :: x.held, channels := x.channels.erase a })
    else none
  | .finish _ =>
    if x.alive then
      -- a result that cannot be sent is dropped
      some (if s.v8.listening then
          { s.set_task t { x with alive := false, held := [] } with results := s.results ++ [.TaskResult x.held] }
        else s.set_task t { x with alive := false })
    else none
  | .kill _ => if x.alive then some (s.set_task t { x with alive := false }) else none
  | .drop_buffer _ a =>
    if a ∈ x.held then some ((s.set_task t { x with held := x.held.erase a }).drop_weak a)
    else if a ∈ x.channels then some ((s.set_task t { x with channels := x.channels.erase a }).drop_weak a)
    else none
  | _ => none

/-- A step of the V8 thread. -/
def v8_step (s : State) : Action → Option State
  | .wait => if s.v8 = .running then some { s with v8 := .waiting } else none
  | .recv answer => if s.v8 = .waiting then s.recv answer else none
  | .disconnected => if s.v8 = .waiting then some { s with v8 := .running } else none
  | .gc => s.gc
  | .upgrade => s.upgrade
  | .take => s.take
  | .release => s.release
  -- an error of `Instance::run` before the delivery
  | .abandon =>
    match s.v8 with
    | .delivering hand => some { s with v8 := .dropping hand }
    | _ => none
  | .drop_next => s.drop_next
  -- `state.io_waiter = None` drops the receiver first, and then the set
  | .drop_waiter => if s.v8 = .running then some { s with v8 := .dropping_set } else none
  | .drop_entry => s.drop_entry
  | _ => none

def Action.task : Action → Option ℕ
  | .ask t | .receive t _ | .finish t | .kill t | .drop_buffer t _ => some t
  | _ => none

def step (s : State) (a : Action) : Option State :=
  match a, a.task with
  | .spawn, _ => some { s with tasks := s.tasks ++ [⟨true, [], []⟩] }
  | .drop_message, _ => s.drop_message
  | a, some t => s.tasks[t]?.bind fun x => task_step s t x a
  | a, none => v8_step s a

/-- The remote buffers of one request. -/
def machine : Machine State Action := ⟨step⟩

/-! ## What is promised -/

/-- The set of strong references is whole. -/
def V8Pc.set_whole : V8Pc → Bool
  | .dropping_set | .ended => false
  | _ => true

/-- What is promised of every state. -/
structure Sound (s : State) : Prop where
  no_panic : s.v8 ≠ .panicked
  strong : s.v8.set_whole = true →
    ∀ a ∈ s.remotes, a ∈ s.buffers ∧ ∃ arc, s.arcs a = some arc ∧ 0 < arc.strong
  globals_on_v8 : ∀ thread ∈ s.globals, thread = .v8
  reclaimed : ∀ hand, s.v8 = .delivering hand → ∀ a ∈ s.gone, a ∉ s.buffers
  all_reclaimed : s.v8 = .ended → ∀ a arc, s.arcs a = some arc → arc.value = none

/-! ## The counts -/

/-- The strong references that the V8 thread has beside those of the set. -/
def V8Pc.lent : V8Pc → List ℕ
  | .upgraded a _ | .taken a _ => [a]
  | _ => []

/-- The buffer whose `Global` has been taken while its `RemoteBuffer` is there. -/
def V8Pc.took : V8Pc → List ℕ
  | .taken a _ => [a]
  | _ => []

/-- The counts of every allocation are those of the references that there are: `R`
are the `RemoteBuffer`s, `B` the entries of the set. -/
structure Books (R B : List ℕ) (H : ArcHeap Guarded) (lent took : List ℕ) (whole : Bool) : Prop where
  nodup : R.Nodup
  nodup_set : B.Nodup
  inside : whole = true → ∀ a ∈ R, a ∈ B
  entry : ∀ a ∈ B, ∃ v, H a = some ⟨1 + lent.count a, R.count a, some v⟩ ∧ (a ∈ R → a ∉ took → v = .global)
  outside : ∀ a ∉ B, H a = if a ∈ R then some ⟨0, 1, none⟩ else none

section Counts

variable {R R' B lent took : List ℕ} {H : ArcHeap Guarded} {whole : Bool} {a : ℕ}

theorem Books.congr (h : Books R B H lent took whole) (hperm : R.Perm R') : Books R' B H lent took whole := by
  refine ⟨hperm.nodup_iff.1 h.nodup, h.nodup_set, fun hwhole a ha => h.inside hwhole a (hperm.mem_iff.2 ha), ?_, ?_⟩
  · intro a ha
    obtain ⟨v, hv, hglobal⟩ := h.entry a ha
    exact ⟨v, by rw [hv, hperm.count_eq], fun hR => hglobal (hperm.mem_iff.2 hR)⟩
  · intro a ha
    rw [h.outside a ha]
    exact if_congr hperm.mem_iff rfl rfl

/-- A `RemoteBuffer` goes. -/
theorem Books.drop_weak {took' : List ℕ} (h : Books (a :: R) B H lent took whole)
    (htook : ∀ b ∈ took, b = a ∨ b ∈ took') : Books R B (H.drop_weak a) lent took' whole := by
  obtain ⟨haR, hR⟩ := List.nodup_cons.1 h.nodup
  refine ⟨hR, h.nodup_set, fun hwhole b hb => h.inside hwhole b (List.mem_cons_of_mem a hb), ?_, ?_⟩
  · intro b hb
    obtain ⟨v, hv, hglobal⟩ := h.entry b hb
    by_cases hba : b = a
    · subst hba
      refine ⟨v, ?_, fun hbR => absurd hbR haR⟩
      rw [ArcHeap.drop_weak_self hv, if_neg (by omega), List.count_cons_self]
      rfl
    · refine ⟨v, ?_, fun hbR hnot => hglobal (List.mem_cons_of_mem a hbR) fun hmem => ?_⟩
      · rw [ArcHeap.drop_weak_ne hba, hv, List.count_cons_of_ne (Ne.symm hba)]
      · rcases htook b hmem with heq | hold
        · exact hba heq
        · exact hnot hold
  · intro b hb
    have hout := h.outside b hb
    by_cases hba : b = a
    · subst hba
      rw [if_pos List.mem_cons_self] at hout
      rw [ArcHeap.drop_weak_self hout, if_pos ⟨rfl, rfl⟩, if_neg haR]
    · rw [ArcHeap.drop_weak_ne hba, hout]
      refine if_congr ?_ rfl rfl
      rw [List.mem_cons, or_iff_right hba]

/-- A new buffer: one entry of the set, and one `RemoteBuffer`. -/
theorem Books.allocate (h : Books R B H [] [] true) (hfree : H a = none) :
    Books (a :: R) (B ++ [a]) (H.new_downgraded a .global) [] [] true := by
  have haB : a ∉ B := by
    intro hmem
    obtain ⟨v, hv, -⟩ := h.entry a hmem
    rw [hfree] at hv
    cases hv
  have haR : a ∉ R := fun hmem => haB (h.inside rfl a hmem)
  refine ⟨List.nodup_cons.2 ⟨haR, h.nodup⟩, ?_, ?_, ?_, ?_⟩
  · rw [List.nodup_append]
    refine ⟨h.nodup_set, List.nodup_singleton a, fun b hb c hc => ?_⟩
    rw [List.mem_singleton.1 hc]
    rintro rfl
    exact haB hb
  · intro _ b hb
    rcases List.mem_cons.1 hb with rfl | hbR
    · exact List.mem_append_right B (List.mem_singleton_self b)
    · exact List.mem_append_left [a] (h.inside rfl b hbR)
  · intro b hb
    by_cases hba : b = a
    · subst hba
      refine ⟨.global, ?_, fun _ _ => rfl⟩
      rw [ArcHeap.new_downgraded_self, List.count_cons_self, List.count_eq_zero_of_not_mem haR, List.count_nil]
    · rcases List.mem_append.1 hb with hbB | hba'
      · obtain ⟨v, hv, hglobal⟩ := h.entry b hbB
        refine ⟨v, ?_, fun hbR => hglobal ((List.mem_cons.1 hbR).resolve_left hba)⟩
        rw [ArcHeap.new_downgraded_ne hba, hv, List.count_cons_of_ne (Ne.symm hba)]
      · exact absurd (List.mem_singleton.1 hba') hba
  · intro b hb
    rw [List.mem_append, List.mem_singleton, not_or] at hb
    rw [ArcHeap.new_downgraded_ne hb.2, h.outside b hb.1]
    refine if_congr ?_ rfl rfl
    rw [List.mem_cons, or_iff_right hb.2]

/-- An entry of the set goes, and with it the value: either nothing refers to it
any more, or the whole set is on its way out. -/
theorem Books.drop_strong (h : Books R B H [] [] whole) (haB : a ∈ B) (hR : whole = true → a ∉ R) :
    Books R (B.erase a) (H.drop_strong a).1 [] [] whole := by
  have hmem : ∀ b, b ∈ B.erase a ↔ b ≠ a ∧ b ∈ B := fun b => h.nodup_set.mem_erase_iff
  refine ⟨h.nodup, h.nodup_set.erase a, ?_, ?_, ?_⟩
  · intro hwhole b hb
    refine (hmem b).2 ⟨?_, h.inside hwhole b hb⟩
    rintro rfl
    exact hR hwhole hb
  · intro b hb
    obtain ⟨hba, hbB⟩ := (hmem b).1 hb
    obtain ⟨v, hv, hglobal⟩ := h.entry b hbB
    exact ⟨v, by rw [ArcHeap.drop_strong_ne hba, hv], hglobal⟩
  · intro b hb
    by_cases hba : b = a
    · subst hba
      obtain ⟨v, hv, -⟩ := h.entry b haB
      rw [List.count_nil] at hv
      rw [(ArcHeap.drop_strong_last hv).1]
      by_cases hbR : b ∈ R
      · rw [if_pos hbR, List.count_eq_one_of_mem h.nodup hbR, if_neg Nat.one_ne_zero]
      · rw [if_neg hbR, if_pos (List.count_eq_zero_of_not_mem hbR)]
    · rw [ArcHeap.drop_strong_ne hba, h.outside b fun hbB => hb ((hmem b).2 ⟨hba, hbB⟩)]

theorem count_singleton_of_ne {b : ℕ} (hba : b ≠ a) : List.count b [a] = 0 :=
  List.count_eq_zero_of_not_mem fun hmem => hba (List.mem_singleton.1 hmem)

/-- A `RemoteBuffer` can be upgraded as long as the set is whole. -/
theorem Books.upgrade (h : Books (a :: R) B H [] [] true) :
    ∃ H', H.upgrade a = some H' ∧ Books (a :: R) B H' [a] [] true := by
  have haB := h.inside rfl a List.mem_cons_self
  obtain ⟨v, hv, hglobal⟩ := h.entry a haB
  rw [List.count_nil] at hv
  obtain ⟨H', hup, hself⟩ := ArcHeap.upgrade_self (show H a = some ⟨0 + 1, _, v⟩ from hv)
  refine ⟨H', hup, h.nodup, h.nodup_set, h.inside, ?_, ?_⟩
  · intro b hb
    by_cases hba : b = a
    · subst hba
      exact ⟨v, by rw [hself, List.count_singleton_self], hglobal⟩
    · obtain ⟨w, hw, hglobal'⟩ := h.entry b hb
      have hzero := count_singleton_of_ne hba
      exact ⟨w, by rw [ArcHeap.upgrade_ne hup hba, hw, List.count_nil, hzero], hglobal'⟩
  · intro b hb
    have hba : b ≠ a := (ne_of_mem_of_not_mem haB hb).symm
    rw [ArcHeap.upgrade_ne hup hba, h.outside b hb]

/-- The `Global` is there to be taken. -/
theorem Books.take (h : Books (a :: R) B H [a] [] true) :
    (H a).bind Arc.value = some .global ∧ Books (a :: R) B (H.modify a fun _ => .taken) [a] [a] true := by
  have haB := h.inside rfl a List.mem_cons_self
  obtain ⟨v, hv, hglobal⟩ := h.entry a haB
  refine ⟨?_, h.nodup, h.nodup_set, h.inside, ?_, ?_⟩
  · rw [hv, hglobal List.mem_cons_self List.not_mem_nil]
    rfl
  · intro b hb
    by_cases hba : b = a
    · subst hba
      exact ⟨.taken, ArcHeap.modify_self hv _, fun _ hnot => absurd (List.mem_singleton_self b) hnot⟩
    · obtain ⟨w, hw, hglobal'⟩ := h.entry b hb
      exact ⟨w, by rw [ArcHeap.modify_ne hba, hw], fun hbR _ => hglobal' hbR List.not_mem_nil⟩
  · intro b hb
    have hba : b ≠ a := (ne_of_mem_of_not_mem haB hb).symm
    rw [ArcHeap.modify_ne hba, h.outside b hb]

/-- The upgraded reference goes; the set has its own still, so no value does. -/
theorem Books.give_back (h : Books R B H [a] took whole) (haB : a ∈ B) :
    Books R B (H.drop_strong a).1 [] took whole ∧ (H.drop_strong a).2 = none := by
  obtain ⟨v, hv, hglobal⟩ := h.entry a haB
  rw [List.count_singleton_self] at hv
  obtain ⟨hself, hnone⟩ := ArcHeap.drop_strong_more (show H a = some ⟨0 + 2, _, v⟩ from hv)
  refine ⟨⟨h.nodup, h.nodup_set, h.inside, ?_, ?_⟩, hnone⟩
  · intro b hb
    by_cases hba : b = a
    · subst hba
      exact ⟨v, by rw [hself, List.count_nil], hglobal⟩
    · obtain ⟨w, hw, hglobal'⟩ := h.entry b hb
      have hzero := count_singleton_of_ne hba
      exact ⟨w, by rw [ArcHeap.drop_strong_ne hba, hw, List.count_nil, hzero], hglobal'⟩
  · intro b hb
    have hba : b ≠ a := (ne_of_mem_of_not_mem haB hb).symm
    rw [ArcHeap.drop_strong_ne hba, h.outside b hb]

/-- On the way out nothing is promised of what the tasks still have. -/
theorem Books.leave (h : Books R B H [] [] true) : Books R B H [] [] false :=
  ⟨h.nodup, h.nodup_set, fun hfalse => absurd hfalse Bool.false_ne_true, h.entry, h.outside⟩

/-- What `gc` reads: nobody else has the buffer. -/
theorem Books.weak_count (h : Books R B H lent took whole) (haB : a ∈ B) : H.weak_count a = 0 ↔ a ∉ R := by
  obtain ⟨v, hv, -⟩ := h.entry a haB
  rw [ArcHeap.weak_count_eq hv, List.count_eq_zero]

end Counts

/-! ## The invariant -/

/-- What the two loops of `gc` have found out so far. -/
def PcOk (s : State) : Prop :=
  match s.v8 with
  | .scanning todo to_remove _ =>
    (to_remove ++ todo).Nodup ∧ (∀ k ∈ to_remove ++ todo, k ∈ s.buffers) ∧ (∀ k ∈ to_remove, k ∉ s.remotes)
      ∧ ∀ k ∈ s.gone, k ∉ s.remotes ∧ k ∈ to_remove ++ todo
  | .removing to_remove _ =>
    to_remove.Nodup ∧ (∀ k ∈ to_remove, k ∈ s.buffers ∧ k ∉ s.remotes) ∧ ∀ k ∈ s.gone, k ∈ s.buffers → k ∈ to_remove
  | .delivering _ | .upgraded _ _ | .taken _ _ => ∀ k ∈ s.gone, k ∉ s.buffers
  | .ended => s.buffers = []
  | .panicked => False
  | .running | .waiting | .dropping _ | .dropping_set => True

structure Inv (s : State) : Prop where
  books : Books s.remotes s.buffers s.arcs s.v8.lent s.v8.took s.v8.set_whole
  globals : ∀ thread ∈ s.globals, thread = .v8
  pc : PcOk s

variable {s s' : State}

theorem Inv.sound (h : Inv s) : Sound s := by
  have hpc := h.pc
  refine ⟨?_, ?_, h.globals, ?_, ?_⟩
  · intro hpanic
    rw [PcOk, hpanic] at hpc
    exact hpc
  · intro hwhole a ha
    have haB := h.books.inside hwhole a ha
    obtain ⟨v, hv, -⟩ := h.books.entry a haB
    exact ⟨haB, _, hv, Nat.lt_of_lt_of_le Nat.zero_lt_one (Nat.le_add_right 1 _)⟩
  · intro hand hdelivering
    rw [PcOk, hdelivering] at hpc
    exact hpc
  · intro hended a arc harc
    rw [PcOk, hended] at hpc
    have hout := h.books.outside a (by rw [hpc]; exact List.not_mem_nil)
    rw [harc] at hout
    by_cases haR : a ∈ s.remotes
    · rw [if_pos haR] at hout
      rw [Option.some.inj hout]
    · rw [if_neg haR] at hout
      cases hout

/-- What `gc` has found out is not changed by others, who only drop and pass on. -/
theorem PcOk.mono (h : PcOk s) (hv8 : s'.v8 = s.v8) (hbuffers : s'.buffers = s.buffers) (hgone : s'.gone = s.gone)
    (hremotes : ∀ k ∈ s'.remotes, k ∈ s.remotes) : PcOk s' := by
  unfold PcOk at h ⊢
  rw [hv8, hbuffers, hgone]
  split at h <;> try exact h
  · obtain ⟨hnodup, hin, hfound, hall⟩ := h
    exact ⟨hnodup, hin, fun k hk hmem => hfound k hk (hremotes k hmem),
      fun k hk => ⟨fun hmem => (hall k hk).1 (hremotes k hmem), (hall k hk).2⟩⟩
  · obtain ⟨hnodup, hin, hall⟩ := h
    exact ⟨hnodup, fun k hk => ⟨(hin k hk).1, fun hmem => (hin k hk).2 (hremotes k hmem)⟩, hall⟩

/-- A step of another thread that passes `RemoteBuffer`s on. -/
theorem Inv.pass (h : Inv s) (hperm : s.remotes.Perm s'.remotes) (hv8 : s'.v8 = s.v8)
    (hbuffers : s'.buffers = s.buffers) (hgone : s'.gone = s.gone) (harcs : s'.arcs = s.arcs)
    (hglobals : s'.globals = s.globals) : Inv s' := by
  refine ⟨?_, by rw [hglobals]; exact h.globals, h.pc.mono hv8 hbuffers hgone fun k hk => hperm.mem_iff.2 hk⟩
  rw [hv8, hbuffers, harcs]
  exact h.books.congr hperm

/-- A step of another thread that drops a `RemoteBuffer`. -/
theorem Inv.drop {a : ℕ} (h : Inv s) (hperm : s.remotes.Perm (a :: s'.remotes)) (hv8 : s'.v8 = s.v8)
    (hbuffers : s'.buffers = s.buffers) (hgone : s'.gone = s.gone) (harcs : s'.arcs = s.arcs.drop_weak a)
    (hglobals : s'.globals = s.globals) : Inv s' := by
  refine ⟨?_, by rw [hglobals]; exact h.globals,
    h.pc.mono hv8 hbuffers hgone fun k hk => hperm.mem_iff.2 (List.mem_cons_of_mem a hk)⟩
  rw [hv8, hbuffers, harcs]
  exact (h.books.congr hperm).drop_weak fun b hb => Or.inr hb

/-! ## The tasks -/

/-- Task `t` gives `c` away, and gets `c'`. -/
theorem remotes_set_task (s : State) {t : ℕ} {x : Task} (hx : s.tasks[t]? = some x) (y : Task) (c c' : List ℕ) {d : List ℕ}
    (hold : x.remotes.Perm (c ++ d)) (hnew : y.remotes.Perm (c' ++ d)) :
    (c ++ (s.set_task t y).remotes).Perm (c' ++ s.remotes) := by
  have htasks := perm_flatMap_exchange hx hold hnew
  have hmove : ∀ e t : List ℕ, (e ++ (s.v8.hand ++ (s.results.flatMap Item.remotes ++ t))).Perm
      (s.v8.hand ++ (s.results.flatMap Item.remotes ++ (e ++ t))) := fun e t =>
    (List.perm_append_comm_assoc _ _ _).trans ((List.perm_append_comm_assoc _ _ _).append_left _)
  exact (hmove c _).trans (((htasks.append_left _).append_left _).trans (hmove c' _).symm)

/-- Task `t` gives `c` away. -/
theorem remotes_give (s : State) {t : ℕ} {x : Task} (hx : s.tasks[t]? = some x) (y : Task) (c : List ℕ)
    (hold : x.remotes.Perm (c ++ y.remotes)) : (c ++ (s.set_task t y).remotes).Perm s.remotes :=
  remotes_set_task s hx y c [] hold (List.Perm.refl _)

/-- Task `t` has what it had. -/
theorem remotes_keep (s : State) {t : ℕ} {x : Task} (hx : s.tasks[t]? = some x) (y : Task)
    (hsame : x.remotes.Perm y.remotes) : (s.set_task t y).remotes.Perm s.remotes :=
  remotes_give s hx y [] hsame

theorem inv_task_step {t : ℕ} {x : Task} {a : Action} (h : Inv s) (hx : s.tasks[t]? = some x)
    (hs : task_step s t x a = some s') : Inv s' := by
  cases a with
  | ask _ =>
      obtain ⟨-, hs⟩ := Option.ite_none_right_eq_some.1 hs
      by_cases hlisten : s.v8.listening = true
      · rw [if_pos hlisten] at hs
        obtain rfl := Option.some.inj hs
        refine h.pass ?_ rfl rfl rfl rfl rfl
        rw [State.remotes, State.remotes, List.flatMap_append]
        exact .of_eq (by rw [List.flatMap_singleton, Item.remotes, List.append_nil])
      · rw [if_neg hlisten] at hs
        exact Option.some.inj hs ▸ h
  | receive _ b =>
      obtain ⟨⟨-, hb⟩, hs⟩ := Option.ite_none_right_eq_some.1 hs
      obtain rfl := Option.some.inj hs
      have hsame : (Task.remotes { x with held := b :: x.held, channels := x.channels.erase b }).Perm x.remotes :=
        List.perm_middle.symm.trans ((List.perm_cons_erase hb).symm.append_left _)
      have hperm := remotes_keep s hx _ hsame.symm
      exact h.pass hperm.symm rfl rfl rfl rfl rfl
  | finish _ =>
      obtain ⟨-, hs⟩ := Option.ite_none_right_eq_some.1 hs
      by_cases hlisten : s.v8.listening = true
      · -- the buffers go from the task to the end of the queue
        rw [if_pos hlisten] at hs
        obtain rfl := Option.some.inj hs
        have hperm := remotes_give s hx { x with alive := false, held := [] } x.held (List.Perm.refl _)
        refine h.pass (List.Perm.trans hperm.symm ?_) rfl rfl rfl rfl rfl
        have hresults : ((s.results ++ [Item.TaskResult x.held]).flatMap Item.remotes)
            = s.results.flatMap Item.remotes ++ x.held := by
          rw [List.flatMap_append, List.flatMap_singleton, Item.remotes]
        show (x.held ++ (s.v8.hand ++ (s.results.flatMap Item.remotes ++ _))).Perm
          (s.v8.hand ++ ((s.results ++ [Item.TaskResult x.held]).flatMap Item.remotes ++ _))
        rw [hresults, List.append_assoc]
        exact (List.perm_append_comm_assoc _ _ _).trans ((List.perm_append_comm_assoc _ _ _).append_left _)
      · rw [if_neg hlisten] at hs
        obtain rfl := Option.some.inj hs
        have hperm := remotes_keep s hx { x with alive := false } (List.Perm.refl _)
        exact h.pass hperm.symm rfl rfl rfl rfl rfl
  | kill _ =>
      obtain ⟨-, hs⟩ := Option.ite_none_right_eq_some.1 hs
      obtain rfl := Option.some.inj hs
      have hperm := remotes_keep s hx { x with alive := false } (List.Perm.refl _)
      exact h.pass hperm.symm rfl rfl rfl rfl rfl
  | drop_buffer _ b =>
      rw [task_step] at hs
      by_cases hheld : b ∈ x.held
      · rw [if_pos hheld] at hs
        obtain rfl := Option.some.inj hs
        have hperm := remotes_give s hx { x with held := x.held.erase b } [b]
          ((List.perm_cons_erase hheld).append_right _)
        exact h.drop hperm.symm rfl rfl rfl rfl rfl
      · rw [if_neg hheld] at hs
        obtain ⟨hchannel, hs⟩ := Option.ite_none_right_eq_some.1 hs
        obtain rfl := Option.some.inj hs
        have hperm := remotes_give s hx { x with channels := x.channels.erase b } [b]
          (((List.perm_cons_erase hchannel).append_left _).trans List.perm_middle)
        exact h.drop hperm.symm rfl rfl rfl rfl rfl
  | spawn | wait | recv | disconnected | gc | upgrade | take | release | abandon | drop_next | drop_waiter
  | drop_entry | drop_message => cases hs

/-! ## The V8 thread -/

/-- The `RemoteBuffer`s that the V8 thread does not have. -/
def State.elsewhere (s : State) : List ℕ := s.results.flatMap Item.remotes ++ s.tasks.flatMap Task.remotes

theorem remotes_at {pc : V8Pc} (hv8 : s.v8 = pc) : s.remotes = pc.hand ++ s.elsewhere := by
  rw [State.remotes, hv8]
  rfl

/-- The counts, where the V8 thread is known. -/
theorem Inv.books_at {pc : V8Pc} (h : Inv s) (hv8 : s.v8 = pc) :
    Books (pc.hand ++ s.elsewhere) s.buffers s.arcs pc.lent pc.took pc.set_whole := by
  have hbooks := h.books
  rwa [remotes_at hv8, hv8] at hbooks

theorem Inv.pc_at {pc : V8Pc} (h : Inv s) (hv8 : s.v8 = pc) : PcOk { s with v8 := pc } := hv8 ▸ h.pc

/-- The V8 thread goes on, with what it has in its hand. -/
theorem Inv.go {pc pc' : V8Pc} (h : Inv s) (hv8 : s.v8 = pc) (hhand : pc'.hand = pc.hand) (hlent : pc'.lent = pc.lent)
    (htook : pc'.took = pc.took) (hwhole : pc'.set_whole = pc.set_whole) (hpc : PcOk { s with v8 := pc' }) :
    Inv { s with v8 := pc' } := by
  refine ⟨?_, h.globals, hpc⟩
  show Books (pc'.hand ++ s.elsewhere) s.buffers s.arcs pc'.lent pc'.took pc'.set_whole
  rw [hhand, hlent, htook, hwhole]
  exact h.books_at hv8

/-- An entry of the set is dropped on the V8 thread, whatever it held. -/
theorem globals_drop_strong (h : ∀ thread ∈ s.globals, thread = .v8) (a : ℕ) :
    ∀ thread ∈ (s.drop_strong .v8 a).globals, thread = .v8 := by
  intro thread hmem
  rw [State.drop_strong] at hmem
  dsimp only at hmem
  split at hmem
  · rcases List.mem_cons.1 hmem with rfl | hold
    · rfl
    · exact h thread hold
  · exact h thread hmem

theorem inv_allocate {t a : ℕ} (h : Inv s) (hv8 : s.v8 = .waiting) (hfree : s.arcs a = none) :
    Inv (s.allocate t a) := by
  have hbooks := h.books
  have hlent : s.v8.lent = [] := by rw [hv8]; rfl
  have htook : s.v8.took = [] := by rw [hv8]; rfl
  have hwhole : s.v8.set_whole = true := by rw [hv8]; rfl
  have hpc : ∀ s₀ : State, s₀.v8 = .waiting → PcOk s₀ := by
    intro s₀ hs₀
    rw [PcOk, hs₀]
    trivial
  rw [hlent, htook, hwhole] at hbooks
  have hnew := hbooks.allocate hfree
  -- the state with the new buffer, whose `RemoteBuffer` the V8 thread has for the moment
  have hdropped : Inv (State.drop_weak { s with arcs := s.arcs.new_downgraded a .global, buffers := s.buffers ++ [a] } a) := by
    refine ⟨?_, h.globals, hpc _ hv8⟩
    show Books s.remotes (s.buffers ++ [a]) ((s.arcs.new_downgraded a .global).drop_weak a) s.v8.lent s.v8.took
      s.v8.set_whole
    rw [hlent, htook, hwhole]
    exact hnew.drop_weak fun b hb => absurd hb List.not_mem_nil
  rw [State.allocate]
  dsimp only
  split
  · rename_i x hx
    by_cases halive : x.alive = true
    · rw [if_pos halive]
      refine ⟨?_, h.globals, hpc _ hv8⟩
      have hchannel : (Task.remotes { x with channels := x.channels ++ [a] }).Perm ([a] ++ x.remotes) :=
        (List.Perm.of_eq (List.append_assoc _ _ _).symm).trans List.perm_append_comm
      have hperm := remotes_set_task { s with
          arcs := s.arcs.new_downgraded a .global
          buffers := s.buffers ++ [a] } hx _ [] [a] (List.Perm.refl _) hchannel
      show Books _ (s.buffers ++ [a]) (s.arcs.new_downgraded a .global) s.v8.lent s.v8.took s.v8.set_whole
      rw [hlent, htook, hwhole]
      exact hnew.congr hperm.symm
    · rw [if_neg halive]
      exact hdropped
  · exact hdropped

theorem inv_recv {answer : Option ℕ} (h : Inv s) (hv8 : s.v8 = .waiting) (hs : s.recv answer = some s') : Inv s' := by
  rw [State.recv] at hs
  split at hs
  · -- a result: its buffers go from the queue into the hand, and `gc` begins
    rename_i buffers results hresults
    obtain rfl := Option.some.inj hs
    have hperm : s.remotes.Perm (buffers ++ (results.flatMap Item.remotes ++ s.tasks.flatMap Task.remotes)) := by
      rw [State.remotes, hv8, hresults, List.flatMap_cons, List.append_assoc]
      exact List.Perm.refl _
    have hbooks := h.books.congr hperm
    rw [hv8] at hbooks
    refine ⟨hbooks, h.globals, hbooks.nodup_set, fun k hk => hk, fun k hk => absurd hk List.not_mem_nil, ?_⟩
    intro k hk
    obtain ⟨hkB, hkR⟩ := List.mem_filter.1 hk
    exact ⟨fun hmem => of_decide_eq_true hkR (hperm.mem_iff.2 hmem), hkB⟩
  · rename_i t results hresults
    have hremotes : State.remotes { s with results := results } = s.remotes := by
      rw [State.remotes, State.remotes, hresults, List.flatMap_cons]
      rfl
    have hrest : Inv { s with results := results } := h.pass (.of_eq hremotes.symm) rfl rfl rfl rfl rfl
    split at hs
    · obtain ⟨hfree, hs⟩ := Option.ite_none_right_eq_some.1 hs
      exact Option.some.inj hs ▸ inv_allocate hrest hv8 hfree
    · exact Option.some.inj hs ▸ hrest
  · cases hs

/-- `gc` puts an entry on its list iff nothing refers to it any more. -/
theorem inv_scan {k : ℕ} {todo to_remove hand : List ℕ} (h : Inv s) (hv8 : s.v8 = .scanning (k :: todo) to_remove hand) :
    Inv { s with
      v8 := .scanning todo (if s.arcs.weak_count k = 0 then to_remove ++ [k] else to_remove) hand } := by
  have hpc := h.pc
  rw [PcOk, hv8] at hpc
  obtain ⟨hnodup, hin, hfound, hall⟩ := hpc
  have hread := h.books.weak_count (hin k (List.mem_append_right to_remove List.mem_cons_self))
  have hsplit : to_remove ++ k :: todo = (to_remove ++ [k]) ++ todo := by
    rw [List.append_assoc, List.singleton_append]
  have hremotes : ∀ l : List ℕ, State.remotes { s with v8 := .scanning todo l hand } = s.remotes := fun _ =>
    (remotes_at hv8).symm
  refine h.go hv8 rfl rfl rfl rfl ?_
  by_cases hzero : s.arcs.weak_count k = 0
  · rw [if_pos hzero]
    refine ⟨hsplit ▸ hnodup, hsplit ▸ hin, fun j hj => ?_, fun j hj => ?_⟩
    · rw [hremotes]
      rcases List.mem_append.1 hj with hold | hnew
      · exact hfound j hold
      · exact List.mem_singleton.1 hnew ▸ hread.1 hzero
    · rw [hremotes, ← hsplit]
      exact hall j hj
  · -- somebody has the buffer, and had it when `gc` began
    rw [if_neg hzero]
    have hsub : (to_remove ++ todo).Sublist (to_remove ++ k :: todo) :=
      (List.Sublist.refl _).append (List.sublist_cons_self k todo)
    refine ⟨hnodup.sublist hsub, fun j hj => hin j (hsub.subset hj), fun j hj => ?_, fun j hj => ?_⟩
    · rw [hremotes]
      exact hfound j hj
    · rw [hremotes]
      obtain ⟨hjR, hjin⟩ := hall j hj
      refine ⟨hjR, ?_⟩
      have hjk : j ≠ k := by
        rintro rfl
        exact hzero (hread.2 hjR)
      rcases List.mem_append.1 hjin with hold | hrest
      · exact List.mem_append_left _ hold
      · exact List.mem_append_right _ ((List.mem_cons.1 hrest).resolve_left hjk)

theorem inv_gc (h : Inv s) (hs : s.gc = some s') : Inv s' := by
  have hpc := h.pc
  rw [State.gc] at hs
  split at hs
  · rename_i hv8
    exact Option.some.inj hs ▸ inv_scan h hv8
  · rename_i to_remove hand hv8
    obtain rfl := Option.some.inj hs
    rw [PcOk, hv8] at hpc
    obtain ⟨hnodup, hin, hfound, hall⟩ := hpc
    rw [List.append_nil] at hnodup hin hall
    refine h.go hv8 rfl rfl rfl rfl ?_
    have hremotes : State.remotes { s with v8 := .removing to_remove hand } = s.remotes := (remotes_at hv8).symm
    exact ⟨hnodup, fun k hk => ⟨hin k hk, by rw [hremotes]; exact hfound k hk⟩, fun k hk _ => (hall k hk).2⟩
  · -- nothing refers to the entry since it was put on the list
    rename_i k to_remove hand hv8
    obtain rfl := Option.some.inj hs
    rw [PcOk, hv8] at hpc
    obtain ⟨hnodup, hin, hall⟩ := hpc
    obtain ⟨hk, hnodup⟩ := List.nodup_cons.1 hnodup
    obtain ⟨hkB, hkR⟩ := hin k List.mem_cons_self
    have hbooks := h.books
    have hremotes : State.remotes { s.drop_strong .v8 k with
        buffers := s.buffers.erase k
        v8 := .removing to_remove hand } = s.remotes := (remotes_at hv8).symm
    rw [hv8] at hbooks
    have hmem : ∀ j, j ∈ s.buffers.erase k ↔ j ≠ k ∧ j ∈ s.buffers := fun j => hbooks.nodup_set.mem_erase_iff
    refine ⟨?_, globals_drop_strong h.globals k, hnodup, fun j hj => ?_, fun j hj hjB => ?_⟩
    · rw [hremotes]
      exact hbooks.drop_strong hkB fun _ => hkR
    · obtain ⟨hjB, hjR⟩ := hin j (List.mem_cons_of_mem k hj)
      have hjk : j ≠ k := by
        rintro rfl
        exact hk hj
      exact ⟨(hmem j).2 ⟨hjk, hjB⟩, by rw [hremotes]; exact hjR⟩
    · obtain ⟨hjk, hjB⟩ := (hmem j).1 hjB
      exact (List.mem_cons.1 (hall j hj hjB)).resolve_left hjk
  · rename_i hand hv8
    obtain rfl := Option.some.inj hs
    obtain ⟨-, -, hall⟩ := h.pc_at hv8
    refine h.go hv8 rfl rfl rfl rfl ?_
    exact fun k hk hkB => List.not_mem_nil (hall k hk hkB)
  · cases hs

theorem inv_upgrade (h : Inv s) (hs : s.upgrade = some s') : Inv s' := by
  rw [State.upgrade] at hs
  split at hs
  · rename_i a hand hv8
    obtain ⟨arcs, hup, hnew⟩ := Books.upgrade (h.books_at hv8)
    rw [hup] at hs
    obtain rfl := Option.some.inj hs
    exact ⟨hnew, h.globals, h.pc_at hv8⟩
  · rename_i hv8
    obtain rfl := Option.some.inj hs
    exact h.go hv8 rfl rfl rfl rfl trivial
  · cases hs

theorem inv_take (h : Inv s) (hs : s.take = some s') : Inv s' := by
  rw [State.take] at hs
  split at hs
  · rename_i a hand hv8
    obtain ⟨hglobal, hnew⟩ := Books.take (h.books_at hv8)
    rw [if_pos hglobal] at hs
    obtain rfl := Option.some.inj hs
    refine ⟨hnew, fun thread hmem => ?_, h.pc_at hv8⟩
    rcases List.mem_cons.1 hmem with rfl | hold
    · rfl
    · exact h.globals thread hold
  · cases hs

theorem inv_release (h : Inv s) (hs : s.release = some s') : Inv s' := by
  rw [State.release] at hs
  split at hs
  · rename_i a hand hv8
    have hbooks := h.books_at hv8
    obtain ⟨hback, -⟩ := Books.give_back hbooks (hbooks.inside rfl a List.mem_cons_self)
    obtain rfl := Option.some.inj hs
    have htook : ∀ b ∈ [a], b = a ∨ b ∈ ([] : List ℕ) := fun b hb => Or.inl (List.mem_singleton.1 hb)
    exact ⟨hback.drop_weak htook, globals_drop_strong h.globals a, h.pc_at hv8⟩
  · cases hs

theorem inv_drop_next (h : Inv s) (hs : s.drop_next = some s') : Inv s' := by
  rw [State.drop_next] at hs
  split at hs
  · rename_i a hand hv8
    obtain rfl := Option.some.inj hs
    exact ⟨Books.drop_weak (h.books_at hv8) fun b hb => Or.inr hb, h.globals, trivial⟩
  · rename_i hv8
    obtain rfl := Option.some.inj hs
    exact h.go hv8 rfl rfl rfl rfl trivial
  · cases hs

theorem inv_drop_entry (h : Inv s) (hs : s.drop_entry = some s') : Inv s' := by
  have hbooks := h.books
  rw [State.drop_entry] at hs
  split at hs
  · rename_i k buffers hv8 hbuffers
    obtain rfl := Option.some.inj hs
    have hremotes : State.remotes { s.drop_strong .v8 k with buffers := buffers } = s.remotes := rfl
    rw [hv8, hbuffers] at hbooks
    have hnew := hbooks.drop_strong List.mem_cons_self fun hfalse => absurd hfalse Bool.false_ne_true
    rw [List.erase_cons_head] at hnew
    refine ⟨?_, globals_drop_strong h.globals k, ?_⟩
    · rw [hremotes]
      show Books s.remotes buffers (s.arcs.drop_strong k).1 s.v8.lent s.v8.took s.v8.set_whole
      rw [hv8]
      exact hnew
    · show PcOk { s.drop_strong .v8 k with buffers := buffers }
      have hv8' : State.v8 { s.drop_strong .v8 k with buffers := buffers } = .dropping_set := hv8
      rw [PcOk, hv8']
      trivial
  · rename_i hv8 hbuffers
    obtain rfl := Option.some.inj hs
    exact h.go hv8 rfl rfl rfl rfl hbuffers
  · cases hs

theorem inv_v8_step {a : Action} (h : Inv s) (hs : v8_step s a = some s') : Inv s' := by
  cases a with
  | wait =>
      obtain ⟨hv8, hs⟩ := Option.ite_none_right_eq_some.1 hs
      obtain rfl := Option.some.inj hs
      exact h.go hv8 rfl rfl rfl rfl trivial
  | recv answer =>
      obtain ⟨hv8, hs⟩ := Option.ite_none_right_eq_some.1 hs
      exact inv_recv h hv8 hs
  | disconnected =>
      obtain ⟨hv8, hs⟩ := Option.ite_none_right_eq_some.1 hs
      obtain rfl := Option.some.inj hs
      exact h.go hv8 rfl rfl rfl rfl trivial
  | gc => exact inv_gc h hs
  | upgrade => exact inv_upgrade h hs
  | take => exact inv_take h hs
  | release => exact inv_release h hs
  | abandon =>
      rw [v8_step] at hs
      split at hs
      · rename_i hand hv8
        obtain rfl := Option.some.inj hs
        exact h.go hv8 rfl rfl rfl rfl trivial
      · cases hs
  | drop_next => exact inv_drop_next h hs
  | drop_waiter =>
      -- what is in the channel stays there
      obtain ⟨hv8, hs⟩ := Option.ite_none_right_eq_some.1 hs
      obtain rfl := Option.some.inj hs
      exact ⟨Books.leave (h.books_at hv8), h.globals, trivial⟩
  | drop_entry => exact inv_drop_entry h hs
  | spawn | ask | receive | finish | kill | drop_buffer | drop_message => cases hs

/-! ## The channel without a receiver -/

theorem inv_drop_message (h : Inv s) (hs : s.drop_message = some s') : Inv s' := by
  obtain ⟨-, hs⟩ := Option.ite_none_left_eq_some.1 hs
  split at hs
  · rename_i a buffers results hresults
    obtain rfl := Option.some.inj hs
    refine h.drop ?_ rfl rfl rfl rfl rfl
    show s.remotes.Perm (a :: (s.v8.hand ++ (buffers ++ results.flatMap Item.remotes ++ s.tasks.flatMap Task.remotes)))
    rw [State.remotes, hresults, List.flatMap_cons]
    exact List.perm_middle
  · -- an empty result, or a request that nobody answers any more
    rename_i item results hitem hresults
    obtain rfl := Option.some.inj hs
    have hnone : item.remotes = [] := by
      rcases item with (_ | ⟨a, buffers⟩) | t
      · rfl
      · exact absurd rfl (hitem a buffers)
      · rfl
    refine h.pass (.of_eq ?_) rfl rfl rfl rfl rfl
    show s.remotes = s.v8.hand ++ (results.flatMap Item.remotes ++ s.tasks.flatMap Task.remotes)
    rw [State.remotes, hresults, List.flatMap_cons, hnone, List.nil_append]
  · cases hs

theorem inv_start : Inv start := by
  refine ⟨⟨List.nodup_nil, List.nodup_nil, fun _ a ha => absurd ha List.not_mem_nil, ?_, fun a _ => rfl⟩, ?_, trivial⟩
  · exact fun a ha => absurd ha List.not_mem_nil
  · exact fun thread hmem => absurd hmem List.not_mem_nil

/-- Every step of every thread keeps the counts. -/
theorem inv_step (s : State) (a : Action) (s' : State) (h : Inv s) (hs : machine.step s a = some s') : Inv s' := by
  change step s a = some s' at hs
  rw [step.eq_def] at hs
  split at hs
  · obtain rfl := Option.some.inj hs
    refine h.pass (.of_eq ?_) rfl rfl rfl rfl rfl
    rw [State.remotes, State.remotes, List.flatMap_append, List.flatMap_singleton]
    show _ = s.v8.hand ++ (_ ++ (_ ++ []))
    rw [List.append_nil]
  · exact inv_drop_message h hs
  · obtain ⟨x, hx, hs⟩ := Option.bind_eq_some_iff.1 hs
    exact inv_task_step h hx hs
  · exact inv_v8_step h hs

/-- **Remote buffers are valid until they are delivered, and reclaimed afterwards.**
In every state of every run: no `expect` and no `unwrap` of the delivery has
failed; as long as the set is there, each `RemoteBuffer`, wherever it is, has its
strong reference in the set; the `Global`s have been taken and dropped on the V8
thread only; after a `gc` no entry is left whose `RemoteBuffer` was delivered or
dropped before it; and at the end no buffer is. -/
theorem remote_buffers_valid (as : List Action) : machine.Always Sound start as :=
  machine.always_of_meets (fun _ => Inv.sound) (fun s a s' hi _ hs => inv_step s a s' hi hs) inv_start
    (machine.meets_true _ as)

end RemoteBuffers

end RustyWorkers

/-
The tables of `librt` that have names as their keys: the listeners of
`addEventListener` and `dispatchEvent` (`std.js`), the namespaces of `kv`
(`kv.js`) and the algorithms of `crypto.subtle.digest` (`subtle_crypto.js`).

All three are plain objects, and a lookup that finds no property of the object's
own goes on to `Object.prototype`. A name that is found there is taken for an
entry: it cannot be given a listener, a dispatch of it fails, `kv` has no namespace
for it, and `digest` takes it for an algorithm.

A listener is code of the script, so it may use all of this while it runs. The
`stack` has the loops of `dispatchEvent` that are under way, the innermost first.
A loop goes over the array of the listeners as it is when it gets there, reads the
`handleEvent` of each as it is then, and is given up when a listener throws. The check of `digest` is a microtask; the table
that it reads never changes.
-/
import RustyWorkers.Lib.Machine
import RustyWorkers.ResponseHeaders

set_option autoImplicit false

namespace RustyWorkers

open Lib

namespace NameTables

open ResponseHeaders (object_prototype)

/-! ## Plain objects -/

/-- What `object[k]` finds. -/
inductive Property (α : Type) where
  | own (x : α)
  | inherited
  | undefined
deriving DecidableEq

/-- `object[k]`, for an object with properties of its own. -/
def get_property {α : Type} (own : String → Option α) (k : String) : Property α :=
  match own k with
  | some x => .own x
  | none => if k ∈ object_prototype then .inherited else .undefined

/-! ## `kv` and `digest` -/

/-- What `kv[k]` is. -/
inductive KvValue where
  | namespace (name : String)
  | inherited
deriving DecidableEq

/-- `kvHandler.get`; the target of the proxy has no property of its own. -/
def kv_get (prop : String) : KvValue :=
  match get_property (fun _ => (none : Option Empty)) prop with
  | .own x => x.elim
  | .inherited => .inherited
  | .undefined => .namespace prop

inductive DigestAlgorithm where
  | Sha1
  | Sha256
  | Sha384
  | Sha512
deriving DecidableEq

/-- `DIGEST_MAP`. -/
def digest_map : List (String × DigestAlgorithm) :=
  [("SHA-1", .Sha1), ("SHA-256", .Sha256), ("SHA-384", .Sha384), ("SHA-512", .Sha512)]

/-- Whether `digest` goes on to the host. -/
inductive DigestCheck where
  | bad_algorithm
  | passed
deriving DecidableEq

/-- The algorithm check of `digest`. -/
def digest_check (algorithm : String) : DigestCheck :=
  match get_property (fun k => digest_map.lookup k) algorithm with
  | .own _ => .passed
  | .inherited => .passed
  | .undefined => .bad_algorithm

/-! ## Events -/

/-- A listener: a function, which `addEventListener` wraps, or an object as it is. -/
inductive Listener where
  | function (f : ℕ)
  | object (o : ℕ)
deriving DecidableEq

/-- How a dispatch ends: it completes, a listener throws, or `dispatchEvent` has a
value of the wrong type in its hands. -/
inductive Outcome where
  | completed
  | exception
  | type_error
deriving DecidableEq

/-- What has happened in one use of a table. -/
inductive Event where
  | added (k : String) (l : Listener) (ok : Bool)
  | dispatched (k : String) (invoked : List Listener) (outcome : Outcome)
  | kv (k : String) (value : KvValue)
  | digest (k : String) (check : DigestCheck)
deriving DecidableEq

/-- A loop of `dispatchEvent`: the place in the array of the listeners, and whether
one of them runs. -/
structure Frame where
  type : String
  index : ℕ
  invoked : List Listener
  running : Bool
deriving DecidableEq

/-- The last event of the log is the first of the list. `handles` are the objects that
have a method `handleEvent` now. -/
structure State where
  event_listeners : String → Option (List Listener)
  handles : ℕ → Bool
  stack : List Frame
  log : List Event

inductive Action where
  | add_event_listener (k : String) (l : Listener)
  | dispatch_event (k : String)
  | kv (k : String)
  | digest (k : String)
  | set_handle_event (o : ℕ) (callable : Bool)
  | next
  | returned
  | throw
deriving DecidableEq

def start : State := ⟨fun _ => none, fun _ => false, [], []⟩

namespace State

/-- The script runs, at its top level or in a listener. -/
def script_runs (s : State) : Bool :=
  match s.stack with
  | [] => true
  | f :: _ => f.running

def add_event_listener (s : State) (k : String) (l : Listener) : State :=
  match get_property s.event_listeners k with
  | .own listeners =>
    { s with
      event_listeners := Function.update s.event_listeners k (some (listeners ++ [l]))
      log := .added k l true :: s.log }
  -- what is inherited has no `push`
  | .inherited => { s with log := .added k l false :: s.log }
  | .undefined =>
    { s with
      event_listeners := Function.update s.event_listeners k (some [l])
      log := .added k l true :: s.log }

def dispatch_event (s : State) (k : String) : State :=
  match get_property s.event_listeners k with
  | .own _ => { s with stack := ⟨k, 0, [], false⟩ :: s.stack }
  -- what is inherited is not iterable
  | .inherited => { s with log := .dispatched k [] .type_error :: s.log }
  | .undefined => { s with log := .dispatched k [] .completed :: s.log }

/-- The listener that the loop comes to, if there is one more. -/
def next_listener (s : State) (f : Frame) : Option Listener := ((s.event_listeners f.type).getD [])[f.index]?

/-- Whether `l.handleEvent(event)` finds a function. -/
def callable (s : State) : Listener → Bool
  | .function _ => true
  | .object o => s.handles o

/-- The innermost loop goes on. -/
def next (s : State) (f : Frame) (rest : List Frame) : State :=
  match s.next_listener f with
  | some l =>
    if s.callable l then
      { s with stack := { f with index := f.index + 1, invoked := f.invoked ++ [l], running := true } :: rest }
    else { s with stack := rest, log := .dispatched f.type f.invoked .type_error :: s.log }
  | none => { s with stack := rest, log := .dispatched f.type f.invoked .completed :: s.log }

def step (s : State) : Action → Option State
  | .add_event_listener k l => if s.script_runs then some (s.add_event_listener k l) else none
  | .dispatch_event k => if s.script_runs then some (s.dispatch_event k) else none
  | .kv k => if s.script_runs then some { s with log := .kv k (kv_get k) :: s.log } else none
  | .digest k => if s.script_runs then some { s with log := .digest k (digest_check k) :: s.log } else none
  | .set_handle_event o callable =>
    if s.script_runs then some { s with handles := Function.update s.handles o callable } else none
  | .next =>
    match s.stack with
    | f :: rest => if f.running then none else some (s.next f rest)
    | [] => none
  | .returned =>
    match s.stack with
    | f :: rest => if f.running then some { s with stack := { f with running := false } :: rest } else none
    | [] => none
  | .throw =>
    match s.stack with
    | f :: rest =>
      if f.running then
        some { s with stack := rest, log := .dispatched f.type f.invoked .exception :: s.log }
      else none
    | [] => none

end State

def machine : Machine State Action := ⟨State.step⟩

/-! ## Every string an ordinary key -/

/-- The listeners that have been added under `k`, in order of addition. -/
def listeners_added (k : String) : List Event → List Listener
  | [] => []
  | .added k' l true :: log => if k' = k then listeners_added k log ++ [l] else listeners_added k log
  | _ :: log => listeners_added k log

/-- What a use of a table does to a key that is like all others. -/
def Event.Ordinary (log : List Event) : Event → Prop
  | .added _ _ ok => ok = true
  | .dispatched k invoked outcome => invoked = listeners_added k log ∧ outcome ≠ .type_error
  | .kv k value => value = .namespace k
  | .digest k check => check = .bad_algorithm ↔ k ∉ digest_map.map Prod.fst

/-- All uses so far. -/
def Ordinary : List Event → Prop
  | [] => True
  | e :: log => e.Ordinary log ∧ Ordinary log

/-- No use of a name that every object inherits. What a loop comes to is called,
and only the last listener of it throws. -/
def PlainUse (s : State) : Action → Prop
  | .add_event_listener k _ | .dispatch_event k | .kv k | .digest k => k ∉ object_prototype
  | .next => ∀ f ∈ s.stack.head?, ∀ l ∈ s.next_listener f, s.callable l = true
  | .throw => ∀ f ∈ s.stack.head?, s.next_listener f = none
  | .set_handle_event _ _ | .returned => True

/-! ## Lookups -/

section Lookups

variable {α : Type} {own : String → Option α} {k : String}

theorem get_own {x : α} (h : own k = some x) : get_property own k = .own x := by
  rw [get_property, h]

theorem get_inherited (h : own k = none) (hk : k ∈ object_prototype) : get_property own k = .inherited := by
  simp only [get_property, h, if_pos hk]

theorem get_undefined (h : own k = none) (hk : k ∉ object_prototype) : get_property own k = .undefined := by
  simp only [get_property, h, if_neg hk]

end Lookups

theorem kv_get_iff (k : String) : kv_get k = .namespace k ↔ k ∉ object_prototype := by
  unfold kv_get
  by_cases hk : k ∈ object_prototype
  · rw [get_inherited rfl hk]
    exact ⟨fun h => (by cases h), fun h => absurd hk h⟩
  · rw [get_undefined rfl hk]
    exact ⟨fun _ => hk, fun _ => rfl⟩

theorem digest_check_iff (k : String) :
    (digest_check k = .bad_algorithm ↔ k ∉ digest_map.map Prod.fst) ↔ k ∉ object_prototype := by
  unfold digest_check
  cases hown : digest_map.lookup k with
  | some alg =>
    have hmem : k ∈ digest_map.map Prod.fst := by
      rw [List.lookup_eq_some_iff] at hown
      obtain ⟨before, after, hsplit, -⟩ := hown
      rw [hsplit, List.map_append, List.map_cons]
      exact List.mem_append_right _ List.mem_cons_self
    -- no algorithm has a name that is inherited
    have hnames : ∀ name ∈ digest_map.map Prod.fst, name ∉ object_prototype := by decide
    rw [get_own hown]
    exact ⟨fun _ => hnames k hmem, fun _ => ⟨fun h => (by cases h), fun h => absurd hmem h⟩⟩
  | none =>
    have hno : k ∉ digest_map.map Prod.fst := by
      intro hmem
      obtain ⟨e, he, rfl⟩ := List.mem_map.1 hmem
      have hnone := List.lookup_eq_none_iff.1 hown e he
      simp at hnone
    by_cases hk : k ∈ object_prototype
    · rw [get_inherited hown hk]
      exact ⟨fun h => absurd (h.2 hno) (by simp), fun h => absurd hk h⟩
    · rw [get_undefined hown hk]
      exact ⟨fun _ => hk, fun _ => ⟨fun _ => hno, fun _ => rfl⟩⟩

/-! ## The invariant -/

/-- The table has the listeners that have been added, and none under a name that is
inherited; a loop has invoked those before its place. -/
structure Inv (s : State) : Prop where
  table : ∀ k, (s.event_listeners k).getD [] = listeners_added k s.log
  free : ∀ k ∈ object_prototype, s.event_listeners k = none
  frames : ∀ f ∈ s.stack, f.invoked = (listeners_added f.type s.log).take f.index ∧ f.index ≤ (listeners_added f.type s.log).length
  ordinary : Ordinary s.log

theorem inv_start : Inv start where
  table _ := rfl
  free _ _ := rfl
  frames _ hf := nomatch hf
  ordinary := trivial

variable {s s' : State}

/-- An event that adds no listener is put on record. -/
theorem Inv.record (h : Inv s) {e : Event} (he : ∀ k l, e ≠ .added k l true) (hord : e.Ordinary s.log) {stack : List Frame}
    (hstack : ∀ f ∈ stack, f ∈ s.stack) : Inv { s with stack := stack, log := e :: s.log } := by
  have hsame : ∀ k, listeners_added k (e :: s.log) = listeners_added k s.log := by
    intro k
    cases e with
    | added k' l ok =>
      cases ok with
      | true => exact absurd rfl (he k' l)
      | false => rfl
    | dispatched | kv | digest => rfl
  refine ⟨fun k => ?_, h.free, fun f hf => ?_, hord, h.ordinary⟩
  · rw [hsame]
    exact h.table k
  · rw [hsame]
    exact h.frames f (hstack f hf)

/-- A dispatch ends that has invoked all listeners of its type. -/
theorem Inv.ended (h : Inv s) {k : String} {invoked : List Listener} {outcome : Outcome}
    (hall : invoked = listeners_added k s.log) (hout : outcome ≠ .type_error) {stack : List Frame}
    (hstack : ∀ f ∈ stack, f ∈ s.stack) : Inv { s with stack := stack, log := .dispatched k invoked outcome :: s.log } := by
  have hord : (Event.dispatched k invoked outcome).Ordinary s.log := ⟨hall, hout⟩
  exact h.record (fun _ _ he => by cases he) hord hstack

/-- A listener is added at the end of those of its name. -/
theorem Inv.add (h : Inv s) {k : String} (hk : k ∉ object_prototype) (l : Listener) : Inv (s.add_event_listener k l) := by
  have hadd : s.add_event_listener k l =
      { s with
        event_listeners := Function.update s.event_listeners k (some (listeners_added k s.log ++ [l]))
        log := .added k l true :: s.log } := by
    have htable := h.table k
    unfold State.add_event_listener
    cases hown : s.event_listeners k with
    | some listeners =>
      rw [hown, Option.getD_some] at htable
      rw [get_own hown, htable]
    | none =>
      rw [hown, Option.getD_none] at htable
      rw [get_undefined hown hk, ← htable]
      rfl
  rw [hadd]
  refine ⟨fun k' => ?_, fun k' hk' => ?_, fun f hf => ?_, rfl, h.ordinary⟩
  · by_cases heq : k = k'
    · subst heq
      simp only [Function.update_self, Option.getD_some, listeners_added, if_true]
    · simp only [listeners_added, if_neg heq, Function.update_of_ne (Ne.symm heq)]
      exact h.table k'
  · have hne : k' ≠ k := fun heq => hk (heq ▸ hk')
    simp only [Function.update_of_ne hne]
    exact h.free k' hk'
  · -- the new listener comes after all that a loop has invoked
    obtain ⟨hinvoked, hindex⟩ := h.frames f hf
    by_cases heq : k = f.type
    · subst heq
      simp only [listeners_added, if_true, List.length_append]
      rw [List.take_append_of_le_length hindex]
      exact ⟨hinvoked, by omega⟩
    · simp only [listeners_added, if_neg heq]
      exact ⟨hinvoked, hindex⟩

theorem Inv.dispatch (h : Inv s) {k : String} (hk : k ∉ object_prototype) : Inv (s.dispatch_event k) := by
  unfold State.dispatch_event
  cases hown : s.event_listeners k with
  | some listeners =>
    rw [get_own hown]
    refine ⟨h.table, h.free, fun f hf => ?_, h.ordinary⟩
    rcases List.mem_cons.1 hf with rfl | hf
    · exact ⟨List.take_zero.symm, Nat.zero_le _⟩
    · exact h.frames f hf
  | none =>
    have htable := h.table k
    rw [hown, Option.getD_none] at htable
    rw [get_undefined hown hk]
    exact h.ended htable (by decide) fun f hf => hf

/-- The listener that a loop comes to is the next one that has been added. -/
theorem Inv.next_listener_eq (h : Inv s) (f : Frame) : s.next_listener f = (listeners_added f.type s.log)[f.index]? := by
  rw [State.next_listener, h.table]

/-- A loop that comes to no listener any more has invoked all of them. -/
theorem Inv.invoked_all (h : Inv s) {f : Frame} (hf : f ∈ s.stack) (hend : s.next_listener f = none) :
    f.invoked = listeners_added f.type s.log := by
  obtain ⟨hinvoked, -⟩ := h.frames f hf
  rw [h.next_listener_eq, List.getElem?_eq_none_iff] at hend
  rw [hinvoked, List.take_of_length_le hend]

/-- A loop that comes to another listener has not. -/
theorem Inv.not_invoked_all (h : Inv s) {f : Frame} (hf : f ∈ s.stack) {l : Listener} (hnext : s.next_listener f = some l) :
    f.invoked ≠ listeners_added f.type s.log := by
  obtain ⟨hinvoked, -⟩ := h.frames f hf
  rw [h.next_listener_eq] at hnext
  have hlt := (List.getElem?_eq_some_iff.1 hnext).1
  intro heq
  have hlen := congrArg List.length (hinvoked.symm.trans heq)
  rw [List.length_take] at hlen
  omega

theorem Inv.next (h : Inv s) {f : Frame} {rest : List Frame} (hstack : s.stack = f :: rest)
    (hcall : ∀ l ∈ s.next_listener f, s.callable l = true) : Inv (s.next f rest) := by
  have hf : f ∈ s.stack := hstack ▸ List.mem_cons_self
  have hrest : ∀ g ∈ rest, g ∈ s.stack := fun g hg => hstack ▸ List.mem_cons_of_mem f hg
  unfold State.next
  cases hnext : s.next_listener f with
  | some l =>
    simp only [hcall l hnext, if_true]
    refine ⟨h.table, h.free, fun g hg => ?_, h.ordinary⟩
    rcases List.mem_cons.1 hg with rfl | hg
    · obtain ⟨hinvoked, -⟩ := h.frames f hf
      rw [h.next_listener_eq] at hnext
      obtain ⟨hlt, rfl⟩ := List.getElem?_eq_some_iff.1 hnext
      simp only [hinvoked]
      exact ⟨List.take_append_getElem hlt, hlt⟩
    · exact h.frames g (hrest g hg)
  | none => exact h.ended (h.invoked_all hf hnext) (by decide) hrest

/-! ## Steps -/

/-- What a step can do. -/
inductive Effect (s : State) : Action → State → Prop
  | add (k : String) (l : Listener) : Effect s (.add_event_listener k l) (s.add_event_listener k l)
  | dispatch (k : String) : Effect s (.dispatch_event k) (s.dispatch_event k)
  | kv (k : String) : Effect s (.kv k) { s with log := .kv k (kv_get k) :: s.log }
  | digest (k : String) : Effect s (.digest k) { s with log := .digest k (digest_check k) :: s.log }
  | set_handle_event (o : ℕ) (callable : Bool) :
      Effect s (.set_handle_event o callable) { s with handles := Function.update s.handles o callable }
  | next {f : Frame} {rest : List Frame} (stack : s.stack = f :: rest) : Effect s .next (s.next f rest)
  | returned {f : Frame} {rest : List Frame} (stack : s.stack = f :: rest) :
      Effect s .returned { s with stack := { f with running := false } :: rest }
  | throw {f : Frame} {rest : List Frame} (stack : s.stack = f :: rest) :
      Effect s .throw { s with stack := rest, log := .dispatched f.type f.invoked .exception :: s.log }

theorem step_effect {a : Action} (h : s.step a = some s') : Effect s a s' := by
  cases a with
  | add_event_listener k l =>
    obtain ⟨-, h⟩ := Option.ite_none_right_eq_some.1 h
    obtain rfl := Option.some.inj h
    exact .add k l
  | dispatch_event k =>
    obtain ⟨-, h⟩ := Option.ite_none_right_eq_some.1 h
    obtain rfl := Option.some.inj h
    exact .dispatch k
  | kv k =>
    obtain ⟨-, h⟩ := Option.ite_none_right_eq_some.1 h
    obtain rfl := Option.some.inj h
    exact .kv k
  | digest k =>
    obtain ⟨-, h⟩ := Option.ite_none_right_eq_some.1 h
    obtain rfl := Option.some.inj h
    exact .digest k
  | set_handle_event o callable =>
    obtain ⟨-, h⟩ := Option.ite_none_right_eq_some.1 h
    obtain rfl := Option.some.inj h
    exact .set_handle_event o callable
  | next =>
    simp only [State.step] at h
    split at h
    · obtain ⟨-, h⟩ := Option.ite_none_left_eq_some.1 h
      obtain rfl := Option.some.inj h
      exact .next ‹_›
    · cases h
  | returned =>
    simp only [State.step] at h
    split at h
    · obtain ⟨-, h⟩ := Option.ite_none_right_eq_some.1 h
      obtain rfl := Option.some.inj h
      exact .returned ‹_›
    · cases h
  | throw =>
    simp only [State.step] at h
    split at h
    · obtain ⟨-, h⟩ := Option.ite_none_right_eq_some.1 h
      obtain rfl := Option.some.inj h
      exact .throw ‹_›
    · cases h

theorem inv_step {a : Action} (h : Inv s) (hplain : PlainUse s a) (hs : s.step a = some s') : Inv s' := by
  cases step_effect hs with
  | add k l => exact h.add hplain l
  | dispatch k => exact h.dispatch hplain
  | kv k =>
    have hord : (Event.kv k (kv_get k)).Ordinary s.log := (kv_get_iff k).2 hplain
    exact h.record (fun _ _ he => by cases he) hord fun f hf => hf
  | digest k =>
    have hord : (Event.digest k (digest_check k)).Ordinary s.log := (digest_check_iff k).2 hplain
    exact h.record (fun _ _ he => by cases he) hord fun f hf => hf
  | set_handle_event o callable => exact ⟨h.table, h.free, h.frames, h.ordinary⟩
  | next stack =>
    refine h.next stack (hplain _ ?_)
    rw [stack]
    rfl
  | @returned f rest stack =>
    refine ⟨h.table, h.free, fun g hg => ?_, h.ordinary⟩
    rcases List.mem_cons.1 hg with rfl | hg
    · exact h.frames f (stack ▸ List.mem_cons_self)
    · exact h.frames g (stack ▸ List.mem_cons_of_mem f hg)
  | @throw f rest stack =>
    -- the listener that throws was the last one
    have hf : f ∈ s.stack := stack ▸ List.mem_cons_self
    refine h.ended (h.invoked_all hf (hplain f ?_)) (by decide) fun g hg => stack ▸ List.mem_cons_of_mem f hg
    rw [stack]
    rfl

/-- Every other use is seen at once. -/
theorem broken_step {a : Action} (h : Inv s) (hplain : ¬ PlainUse s a) (hs : s.step a = some s') :
    ¬ Ordinary s'.log := by
  cases step_effect hs with
  | add k l =>
    have hk : k ∈ object_prototype := not_not.1 hplain
    rw [State.add_event_listener, get_inherited (h.free k hk) hk]
    rintro ⟨hok, -⟩
    cases hok
  | dispatch k =>
    have hk : k ∈ object_prototype := not_not.1 hplain
    rw [State.dispatch_event, get_inherited (h.free k hk) hk]
    rintro ⟨⟨-, hout⟩, -⟩
    exact hout rfl
  | kv k =>
    rintro ⟨hvalue, -⟩
    exact hplain ((kv_get_iff k).1 hvalue)
  | digest k =>
    rintro ⟨hcheck, -⟩
    exact hplain ((digest_check_iff k).1 hcheck)
  | @next f rest stack =>
    simp only [PlainUse, stack, List.head?_cons, Option.mem_def, Option.some.injEq, forall_eq', not_forall] at hplain
    obtain ⟨l, hnext, hcall⟩ := hplain
    rw [State.next, hnext]
    simp only [hcall]
    rintro ⟨⟨-, hout⟩, -⟩
    exact hout rfl
  | set_handle_event | returned => exact absurd trivial hplain
  | @throw f rest stack =>
    simp only [PlainUse, stack, List.head?_cons, Option.mem_def, Option.some.injEq, forall_eq'] at hplain
    obtain ⟨l, hnext⟩ := Option.ne_none_iff_exists'.1 hplain
    rintro ⟨⟨hall, -⟩, -⟩
    exact h.not_invoked_all (stack ▸ List.mem_cons_self) hnext hall

/-- **Every string but twelve is an ordinary key.** For every sequence of uses, also
from listeners: `addEventListener` never throws, a dispatch invokes exactly the
listeners that have been added under its type, in order, `kv[k]` is the namespace
`k`, and `digest` rejects exactly what is none of its four algorithms, iff no use
names a property of `Object.prototype`, every listener that a dispatch comes to is
callable, and a listener throws only when it is the last one. -/
theorem ordinary_keys_iff (as : List Action) :
    machine.Always (fun s => Ordinary s.log) start as ↔ machine.Meets PlainUse start as :=
  machine.always_iff_meets (fun _ h => h.ordinary) (fun _ _ _ h hplain hs => inv_step h hplain hs)
    (fun _ _ _ h hplain hs => broken_step h hplain hs) inv_start

/-- Each of the four uses, with an inherited name. -/
def inherited_names : List Action :=
  [.add_event_listener "constructor" (.function 0), .dispatch_event "toString", .kv "valueOf", .digest "__proto__"]

theorem inherited_names_found :
    (∃ s, machine.run start inherited_names = some s
        ∧ s.log = [.digest "__proto__" .passed, .kv "valueOf" .inherited, .dispatched "toString" [] .type_error,
          .added "constructor" (.function 0) false])
      ∧ ¬ machine.Always (fun s => Ordinary s.log) start inherited_names := by
  have hrun : (machine.run start inherited_names).map State.log
      = some [.digest "__proto__" .passed, .kv "valueOf" .inherited, .dispatched "toString" [] .type_error,
          .added "constructor" (.function 0) false] := by decide
  obtain ⟨s, hs, hlog⟩ := Option.map_eq_some_iff.1 hrun
  refine ⟨⟨s, hs, hlog⟩, fun hall => ?_⟩
  have hord := machine.always_run hall hs
  rw [hlog] at hord
  obtain ⟨-, hkv, -⟩ := hord
  cases hkv

end NameTables

end RustyWorkers

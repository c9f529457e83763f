/-
The timers of a worker: `setTimeout`, `setInterval`, `clearTimeout` and
`clearInterval` (`librt/src/std.js`).

A timer is a closure with its callback and the array of the further arguments; it
has a number, which is its place among the timers, and an id, under which the
table `inflightTimeouts` has it while it is live. The host makes a `SetTimeout`
call of a timer complete once, at any time or never (`io.rs`). Then `onFire` runs:
if the timer is live, an interval is first scheduled again and a timeout leaves
the table, and the callback is called. It is the last thing that `onFire` does, so
what the callback sets and clears are the steps that follow. Any call of the host
may be refused, which is an exception in `schedule`.

A callback is a function and `ms` a number, as their documentation says. Numbers
are doubles, so that `nextTimeoutId++` has no effect from `2^53` on. The history
is read by no step.
-/
import RustyWorkers.Lib.Machine

set_option autoImplicit false

namespace RustyWorkers

open Lib

namespace Timers

/-- A value of the script: an array, or something else. -/
inductive Value (α : Type) where
  | other (x : α)
  | array (items : List (Value α))

/-- A timer that was set with `args`, whose array holds `rest` by now. -/
structure Timer (α : Type) where
  id : ℕ
  is_interval : Bool
  args : List (Value α)
  rest : List (Value α)

/-- Timer `t` is set, an id is cleared, the callback of timer `t` is called. -/
inductive Event (α : Type) where
  | set (t : ℕ)
  | cleared (id : ℕ)
  | called (t : ℕ) (arguments : List (Value α))

structure State (α : Type) where
  inflight_timeouts : ℕ → Option Bool
  next_timeout_id : ℕ
  timers : List (Timer α)
  outstanding : List ℕ
  history : List (Event α)

inductive Action (α : Type) where
  | set_timeout (args : List (Value α)) (accepted : Bool)
  | set_interval (args : List (Value α)) (accepted : Bool)
  | clear_timeout (id : ℕ)
  | clear_interval (id : ℕ)
  | complete (t : ℕ) (accepted : Bool)
  | change_array (t : ℕ) (items : List (Value α))

variable {α : Type}

def start : State α := ⟨fun _ => none, 1, [], [], []⟩

/-- `n++` on a number without a fraction. -/
def increment (n : ℕ) : ℕ := if n < 2 ^ 53 then n + 1 else n

/-- The event is a call of the callback of timer `t`. -/
def Event.calls (t : ℕ) : Event α → Bool
  | .called u _ => u = t
  | _ => false

namespace State

/-- `schedule`, for timer `t`. -/
def schedule (s : State α) (t : ℕ) (accepted : Bool) : State α :=
  if accepted then { s with outstanding := s.outstanding ++ [t] } else s

/-- A timer gets the next id, under which it is live. -/
def add (s : State α) (args : List (Value α)) (is_interval : Bool) : State α :=
  { s with
    next_timeout_id := increment s.next_timeout_id
    inflight_timeouts := Function.update s.inflight_timeouts s.next_timeout_id (some is_interval)
    timers := s.timers ++ [⟨s.next_timeout_id, is_interval, args, args⟩]
    history := s.history ++ [.set s.timers.length] }

def schedule_timeout_or_interval (s : State α) (args : List (Value α)) (is_interval accepted : Bool) : State α :=
  (s.add args is_interval).schedule s.timers.length accepted

def set_timeout (s : State α) (args : List (Value α)) (accepted : Bool) : State α :=
  s.schedule_timeout_or_interval args false accepted

def set_interval (s : State α) (args : List (Value α)) (accepted : Bool) : State α :=
  s.schedule_timeout_or_interval args true accepted

def delete (s : State α) (id : ℕ) : State α :=
  { s with inflight_timeouts := Function.update s.inflight_timeouts id none }

def clear_timeout (s : State α) (id : ℕ) : State α :=
  { s.delete id with history := s.history ++ [.cleared id] }

def clear_interval (s : State α) (id : ℕ) : State α :=
  { s.delete id with history := s.history ++ [.cleared id] }

/-- `callback.call(this, args)`: the array is the one argument. -/
def call (s : State α) (t : ℕ) (timer : Timer α) : State α :=
  { s with history := s.history ++ [.called t [.array timer.rest]] }

/-- `onFire` of timer `t`. -/
def on_fire (s : State α) (t : ℕ) (timer : Timer α) (accepted : Bool) : State α :=
  match s.inflight_timeouts timer.id with
  | some true =>
    -- a refusal is an exception before the call
    if accepted then (s.schedule t true).call t timer else s
  | some false => (s.delete timer.id).call t timer
  | none => s

def step (s : State α) : Action α → Option (State α)
  | .set_timeout args accepted => some (s.set_timeout args accepted)
  | .set_interval args accepted => some (s.set_interval args accepted)
  | .clear_timeout id => some (s.clear_timeout id)
  | .clear_interval id => some (s.clear_interval id)
  | .complete t accepted =>
    if t ∈ s.outstanding then
      s.timers[t]?.map fun timer => { s with outstanding := s.outstanding.erase t }.on_fire t timer accepted
    else none
  | .change_array t items =>
    -- a callback that has been called has the array in its hands
    if s.history.any (Event.calls t) then
      some { s with timers := s.timers.modify t fun timer => { timer with rest := items } }
    else none

end State

def machine (α : Type) : Machine (State α) (Action α) := ⟨State.step⟩

/-! ## The contract -/

/-- What timers do whatever their arguments. -/
structure Safe (s : State α) : Prop where
  ids : (s.timers.map Timer.id).Nodup
  once : ∀ (t : ℕ) (timer : Timer α) a b, s.timers[t]? = some timer → timer.is_interval = false →
    ¬ [.called t a, .called t b].Sublist s.history
  silent : ∀ (t : ℕ) (timer : Timer α) a, s.timers[t]? = some timer →
    ¬ [.set t, .cleared timer.id, .called t a].Sublist s.history
  one_outstanding : ∀ (t : ℕ) (timer : Timer α), s.timers[t]? = some timer → timer.is_interval = true → s.outstanding.count t ≤ 1

/-- And every call passes the arguments with which the timer was set. -/
structure Contract (s : State α) : Prop extends Safe s where
  passed : ∀ (t : ℕ) (timer : Timer α) a, s.timers[t]? = some timer → .called t a ∈ s.history → a = timer.args

/-- No timer is set when there have been `2^53` of them. -/
def IdLeft (s : State α) : Action α → Prop
  | .set_timeout _ _ | .set_interval _ _ => s.timers.length < 2 ^ 53
  | _ => True

/-- The callback of a live timer is called. -/
def Fires (s : State α) : Action α → Prop
  | .complete t accepted =>
    ∃ timer, s.timers[t]? = some timer
      ∧ (s.inflight_timeouts timer.id = some false ∨ s.inflight_timeouts timer.id = some true ∧ accepted = true)
  | _ => False

/-! ## What a step does -/

/-- What a step can do. -/
inductive Effect (s : State α) : Action α → State α → Prop
  | set {a : Action α} {args : List (Value α)} {is_interval accepted : Bool}
      (ha : a = .set_timeout args accepted ∧ is_interval = false ∨ a = .set_interval args accepted ∧ is_interval = true) :
      Effect s a (s.schedule_timeout_or_interval args is_interval accepted)
  | clear {a : Action α} {id : ℕ} (ha : a = .clear_timeout id ∨ a = .clear_interval id) :
      Effect s a { s.delete id with history := s.history ++ [.cleared id] }
  | stale {t : ℕ} {accepted : Bool} {timer : Timer α} (mem : t ∈ s.outstanding) (get : s.timers[t]? = some timer)
      (quiet : ¬ Fires s (.complete t accepted)) :
      Effect s (.complete t accepted) { s with outstanding := s.outstanding.erase t }
  | again {t : ℕ} {timer : Timer α} (mem : t ∈ s.outstanding) (get : s.timers[t]? = some timer)
      (live : s.inflight_timeouts timer.id = some true) :
      Effect s (.complete t true) ({ s with outstanding := s.outstanding.erase t ++ [t] }.call t timer)
  | last {t : ℕ} {accepted : Bool} {timer : Timer α} (mem : t ∈ s.outstanding) (get : s.timers[t]? = some timer)
      (live : s.inflight_timeouts timer.id = some false) :
      Effect s (.complete t accepted)
        (({ s with outstanding := s.outstanding.erase t }.delete timer.id).call t timer)
  | change {t : ℕ} {items : List (Value α)} (called : s.history.any (Event.calls t) = true) :
      Effect s (.change_array t items) { s with timers := s.timers.modify t fun timer => { timer with rest := items } }

variable {s s' : State α}

theorem step_effect {a : Action α} (h : s.step a = some s') : Effect s a s' := by
  cases a with
  | set_timeout args accepted =>
    obtain rfl := Option.some.inj h
    exact .set (Or.inl ⟨rfl, rfl⟩)
  | set_interval args accepted =>
    obtain rfl := Option.some.inj h
    exact .set (Or.inr ⟨rfl, rfl⟩)
  | clear_timeout id =>
    obtain rfl := Option.some.inj h
    exact .clear (Or.inl rfl)
  | clear_interval id =>
    obtain rfl := Option.some.inj h
    exact .clear (Or.inr rfl)
  | complete t accepted =>
    obtain ⟨hmem, h⟩ := Option.ite_none_right_eq_some.1 h
    obtain ⟨timer, hget, rfl⟩ := Option.map_eq_some_iff.1 h
    unfold State.on_fire
    split
    · rename_i hlive
      cases accepted with
      | true => exact .again hmem hget hlive
      | false =>
        refine .stale hmem hget ?_
        rintro ⟨timer', hget', hfires⟩
        obtain rfl := Option.some.inj (hget.symm.trans hget')
        rcases hfires with hfires | ⟨-, hfalse⟩
        · rw [hfires] at hlive
          cases hlive
        · cases hfalse
    · exact .last hmem hget ‹_›
    · rename_i hdead
      refine .stale hmem hget ?_
      rintro ⟨timer', hget', hfires⟩
      obtain rfl := Option.some.inj (hget.symm.trans hget')
      rcases hfires with hfires | ⟨hfires, -⟩ <;> rw [hfires] at hdead <;> cases hdead
  | change_array t items =>
    obtain ⟨hcalled, h⟩ := Option.ite_none_right_eq_some.1 h
    obtain rfl := Option.some.inj h
    exact .change hcalled

/-! ## The invariant -/

/-- What holds while the ids last. A timer that has been cleared, and a timeout
that has been called, are not in the table any more. -/
structure Inv (s : State α) : Prop where
  count : s.timers.length ≤ 2 ^ 53
  next : s.next_timeout_id = min (s.timers.length + 1) (2 ^ 53)
  id : ∀ (t : ℕ) (timer : Timer α), s.timers[t]? = some timer → timer.id = t + 1
  kind : ∀ (t : ℕ) (timer : Timer α) b, s.timers[t]? = some timer → s.inflight_timeouts timer.id = some b → b = timer.is_interval
  set_known : ∀ t, .set t ∈ s.history → t < s.timers.length
  called_known : ∀ t a, .called t a ∈ s.history → t < s.timers.length
  stopped : ∀ (t : ℕ) (timer : Timer α), s.timers[t]? = some timer → [.set t, .cleared timer.id].Sublist s.history →
    s.inflight_timeouts timer.id = none
  spent : ∀ (t : ℕ) (timer : Timer α) a, s.timers[t]? = some timer → timer.is_interval = false → .called t a ∈ s.history →
    s.inflight_timeouts timer.id = none
  once : ∀ (t : ℕ) (timer : Timer α) a b, s.timers[t]? = some timer → timer.is_interval = false →
    ¬ [.called t a, .called t b].Sublist s.history
  silent : ∀ (t : ℕ) (timer : Timer α) a, s.timers[t]? = some timer →
    ¬ [.set t, .cleared timer.id, .called t a].Sublist s.history
  outstanding : s.outstanding.Nodup
  outstanding_known : ∀ t ∈ s.outstanding, t < s.timers.length

theorem inv_start : Inv (start : State α) where
  count := Nat.zero_le _
  next := rfl
  id _ _ hget := nomatch hget
  kind _ _ _ hget := nomatch hget
  set_known _ hmem := nomatch hmem
  called_known _ _ hmem := nomatch hmem
  stopped _ _ hget := nomatch hget
  spent _ _ _ hget := nomatch hget
  once _ _ _ _ hget := nomatch hget
  silent _ _ _ hget := nomatch hget
  outstanding := List.nodup_nil
  outstanding_known _ hmem := nomatch hmem

theorem Inv.safe (h : Inv s) : Safe s where
  ids := by
    refine List.nodup_iff_getElem?_ne_getElem?.2 fun i j hij hj => ?_
    rw [List.length_map] at hj
    have hi := List.getElem?_eq_getElem (hij.trans hj)
    have hj := List.getElem?_eq_getElem hj
    rw [List.getElem?_map, List.getElem?_map, hi, hj, Option.map_some, Option.map_some, h.id i _ hi, h.id j _ hj]
    simp only [ne_eq, Option.some.injEq]
    omega
  once := h.once
  silent := h.silent
  one_outstanding t _ _ _ := List.nodup_iff_count_le_one.1 h.outstanding t

/-! ## Events in order -/

/-- What ends with the last event, and what does not. -/
theorem sublist_concat {β : Type} (l : List β) {history : List β} {x e : β}
    (h : (l ++ [x]).Sublist (history ++ [e])) : (l ++ [x]).Sublist history ∨ x = e ∧ l.Sublist history := by
  obtain ⟨l₁, l₂, heq, h₁, h₂⟩ := List.sublist_append_iff.1 h
  rcases List.sublist_singleton.1 h₂ with rfl | rfl
  · rw [List.append_nil] at heq
    rw [heq]
    exact Or.inl h₁
  · obtain ⟨rfl, hx⟩ := List.append_inj' heq rfl
    exact Or.inr ⟨(List.cons.inj hx).1, h₁⟩

theorem pair_concat {β : Type} {history : List β} {x y e : β} (h : [x, y].Sublist (history ++ [e])) :
    [x, y].Sublist history ∨ y = e ∧ x ∈ history := by
  rcases sublist_concat [x] h with hold | ⟨hy, hx⟩
  · exact Or.inl hold
  · exact Or.inr ⟨hy, List.singleton_sublist.1 hx⟩

theorem triple_concat {β : Type} {history : List β} {x y z e : β} (h : [x, y, z].Sublist (history ++ [e])) :
    [x, y, z].Sublist history ∨ z = e ∧ [x, y].Sublist history := sublist_concat [x, y] h

theorem mem_concat {β : Type} {history : List β} {x e : β} (h : x ∈ history ++ [e]) : x ∈ history ∨ x = e := by
  rcases List.mem_append.1 h with hold | hnew
  · exact Or.inl hold
  · exact Or.inr (List.mem_singleton.1 hnew)

/-! ## What keeps the invariant -/

/-- An event happens, and timers may leave the table: the timer of an id that is
cleared and a timeout that is called do, and only live timers are called. -/
theorem Inv.record (h : Inv s) {inflight : ℕ → Option Bool}
    (hless : ∀ id b, inflight id = some b → s.inflight_timeouts id = some b) {e : Event α} (hset : ∀ t, e ≠ .set t)
    (hcleared : ∀ id, e = .cleared id → inflight id = none)
    (hcalled : ∀ t a, e = .called t a → ∃ timer b, s.timers[t]? = some timer
      ∧ s.inflight_timeouts timer.id = some b ∧ (b = false → inflight timer.id = none)) :
    Inv { s with inflight_timeouts := inflight, history := s.history ++ [e] } := by
  have hnone : ∀ id, s.inflight_timeouts id = none → inflight id = none := by
    intro id hdead
    by_contra hne
    obtain ⟨b, hlive⟩ := Option.ne_none_iff_exists'.1 hne
    rw [hless id b hlive] at hdead
    cases hdead
  -- a timer that is called is live
  have hlive : ∀ t timer a, s.timers[t]? = some timer → e = .called t a →
      ∃ b, s.inflight_timeouts timer.id = some b ∧ (b = false → inflight timer.id = none) := by
    intro t timer a hget he
    obtain ⟨timer', b, hget', hrest⟩ := hcalled t a he
    obtain rfl := Option.some.inj (hget.symm.trans hget')
    exact ⟨b, hrest⟩
  constructor
  case count => exact h.count
  case next => exact h.next
  case id => exact h.id
  case kind => exact fun t timer b hget hb => h.kind t timer b hget (hless _ _ hb)
  case set_known =>
    intro t hmem
    rcases mem_concat hmem with hold | hnew
    · exact h.set_known t hold
    · exact absurd hnew.symm (hset t)
  case called_known =>
    intro t a hmem
    rcases mem_concat hmem with hold | hnew
    · exact h.called_known t a hold
    · obtain ⟨timer, -, hget, -⟩ := hcalled t a hnew.symm
      exact (List.getElem?_eq_some_iff.1 hget).1
  case stopped =>
    intro t timer hget hsub
    rcases pair_concat hsub with hold | ⟨hnew, -⟩
    · exact hnone _ (h.stopped t timer hget hold)
    · exact hcleared _ hnew.symm
  case spent =>
    intro t timer a hget htimeout hmem
    rcases mem_concat hmem with hold | hnew
    · exact hnone _ (h.spent t timer a hget htimeout hold)
    · obtain ⟨b, hb, hdone⟩ := hlive t timer a hget hnew.symm
      exact hdone ((h.kind t timer b hget hb).trans htimeout)
  case once =>
    intro t timer a b hget htimeout hsub
    rcases pair_concat hsub with hold | ⟨hnew, hmem⟩
    · exact h.once t timer a b hget htimeout hold
    · -- the timeout left the table when it was called
      obtain ⟨c, hc, -⟩ := hlive t timer b hget hnew.symm
      rw [h.spent t timer a hget htimeout hmem] at hc
      cases hc
  case silent =>
    intro t timer a hget hsub
    rcases triple_concat hsub with hold | ⟨hnew, hstopped⟩
    · exact h.silent t timer a hget hold
    · -- the timer left the table when its id was cleared
      obtain ⟨c, hc, -⟩ := hlive t timer a hget hnew.symm
      rw [h.stopped t timer hget hstopped] at hc
      cases hc
  case outstanding => exact h.outstanding
  case outstanding_known => exact h.outstanding_known

/-- Other `SetTimeout` calls are outstanding. -/
theorem Inv.calls (h : Inv s) {outstanding : List ℕ} (hnodup : outstanding.Nodup)
    (hknown : ∀ t ∈ outstanding, t < s.timers.length) : Inv { s with outstanding := outstanding } :=
  { h with outstanding := hnodup, outstanding_known := hknown }

/-- The array of a timer changes, and nothing else about it. -/
theorem get_modify {t u : ℕ} {items : List (Value α)} {timer : Timer α}
    (h : (s.timers.modify u fun timer => { timer with rest := items })[t]? = some timer) :
    ∃ timer₀, s.timers[t]? = some timer₀ ∧ timer.id = timer₀.id ∧ timer.is_interval = timer₀.is_interval := by
  rw [List.getElem?_modify] at h
  obtain ⟨timer₀, hget, rfl⟩ := Option.map_eq_some_iff.1 h
  refine ⟨timer₀, hget, ?_⟩
  split <;> exact ⟨rfl, rfl⟩

theorem Inv.change (h : Inv s) (u : ℕ) (items : List (Value α)) :
    Inv { s with timers := s.timers.modify u fun timer => { timer with rest := items } } := by
  have hlen : (s.timers.modify u fun timer => { timer with rest := items }).length = s.timers.length :=
    List.length_modify _ _ _
  constructor
  case count => exact hlen ▸ h.count
  case next =>
    show s.next_timeout_id = _
    rw [hlen]
    exact h.next
  case id =>
    intro t timer hget
    obtain ⟨timer₀, hget₀, hid, -⟩ := get_modify hget
    rw [hid]
    exact h.id t timer₀ hget₀
  case kind =>
    intro t timer b hget hlive
    obtain ⟨timer₀, hget₀, hid, hkind⟩ := get_modify hget
    rw [hkind]
    exact h.kind t timer₀ b hget₀ (hid ▸ hlive)
  case set_known => exact fun t hmem => hlen ▸ h.set_known t hmem
  case called_known => exact fun t a hmem => hlen ▸ h.called_known t a hmem
  case stopped =>
    intro t timer hget hsub
    obtain ⟨timer₀, hget₀, hid, -⟩ := get_modify hget
    rw [hid] at hsub ⊢
    exact h.stopped t timer₀ hget₀ hsub
  case spent =>
    intro t timer a hget htimeout hmem
    obtain ⟨timer₀, hget₀, hid, hkind⟩ := get_modify hget
    rw [hid]
    exact h.spent t timer₀ a hget₀ (hkind ▸ htimeout) hmem
  case once =>
    intro t timer a b hget htimeout hsub
    obtain ⟨timer₀, hget₀, -, hkind⟩ := get_modify hget
    exact h.once t timer₀ a b hget₀ (hkind ▸ htimeout) hsub
  case silent =>
    intro t timer a hget hsub
    obtain ⟨timer₀, hget₀, hid, -⟩ := get_modify hget
    rw [hid] at hsub
    exact h.silent t timer₀ a hget₀ hsub
  case outstanding => exact h.outstanding
  case outstanding_known => exact fun t hmem => hlen ▸ h.outstanding_known t hmem

/-- The timers after one has been set. -/
theorem get_add {args : List (Value α)} {is_interval : Bool} {t : ℕ} {timer : Timer α}
    (h : (s.add args is_interval).timers[t]? = some timer) :
    s.timers[t]? = some timer ∨ t = s.timers.length ∧ timer = ⟨s.next_timeout_id, is_interval, args, args⟩ := by
  unfold State.add at h
  rcases lt_trichotomy t s.timers.length with hlt | heq | hgt
  · rw [List.getElem?_append_left hlt] at h
    exact Or.inl h
  · rw [heq, List.getElem?_concat_length] at h
    exact Or.inr ⟨heq, (Option.some.inj h).symm⟩
  · rw [List.getElem?_eq_none (by rw [List.length_append, List.length_singleton]; omega)] at h
    cases h

theorem length_add (s : State α) (args : List (Value α)) (is_interval : Bool) :
    (s.add args is_interval).timers.length = s.timers.length + 1 := List.length_append

/-- Nothing has happened to the new timer yet. -/
theorem Inv.get_old (h : Inv s) {args : List (Value α)} {is_interval : Bool} {t : ℕ} {timer : Timer α}
    (hget : (s.add args is_interval).timers[t]? = some timer)
    (hknown : .set t ∈ s.history ∨ ∃ a, .called t a ∈ s.history) : s.timers[t]? = some timer := by
  rcases get_add hget with hold | ⟨rfl, -⟩
  · exact hold
  · rcases hknown with hset | ⟨a, hcalled⟩
    · exact absurd (h.set_known _ hset) (lt_irrefl _)
    · exact absurd (h.called_known _ a hcalled) (lt_irrefl _)

theorem Inv.next_id (h : Inv s) (hlen : s.timers.length < 2 ^ 53) : s.next_timeout_id = s.timers.length + 1 := by
  rw [h.next]
  omega

/-- The timers that there were have other ids. -/
theorem Inv.inflight_old (h : Inv s) (hlen : s.timers.length < 2 ^ 53) (args : List (Value α)) (is_interval : Bool)
    {t : ℕ} {timer : Timer α} (hget : s.timers[t]? = some timer) :
    (s.add args is_interval).inflight_timeouts timer.id = s.inflight_timeouts timer.id := by
  have hlt := (List.getElem?_eq_some_iff.1 hget).1
  have hne : timer.id ≠ s.next_timeout_id := by
    rw [h.id t timer hget, h.next_id hlen]
    omega
  exact Function.update_of_ne hne _ _

/-- A timer gets an id that no other timer has had. -/
theorem Inv.add (h : Inv s) (hlen : s.timers.length < 2 ^ 53) (args : List (Value α)) (is_interval : Bool) :
    Inv (s.add args is_interval) := by
  constructor
  case count =>
    rw [length_add]
    omega
  case next =>
    show increment s.next_timeout_id = _
    rw [h.next_id hlen, length_add]
    unfold increment
    split <;> omega
  case id =>
    intro t timer hget
    rcases get_add hget with hget | ⟨rfl, rfl⟩
    · exact h.id t timer hget
    · exact h.next_id hlen
  case kind =>
    intro t timer b hget hlive
    rcases get_add hget with hget | ⟨rfl, rfl⟩
    · exact h.kind t timer b hget (h.inflight_old hlen args is_interval hget ▸ hlive)
    · have hnew := hlive.symm.trans (Function.update_self _ _ _)
      exact Option.some.inj hnew
  case set_known =>
    intro t hmem
    rw [length_add]
    rcases mem_concat hmem with hold | hnew
    · exact Nat.lt_succ_of_lt (h.set_known t hold)
    · obtain rfl := Event.set.inj hnew
      exact Nat.lt_succ_self _
  case called_known =>
    intro t a hmem
    rw [length_add]
    rcases mem_concat hmem with hold | hnew
    · exact Nat.lt_succ_of_lt (h.called_known t a hold)
    · cases hnew
  case stopped =>
    intro t timer hget hsub
    rcases pair_concat hsub with hsub | ⟨hnew, -⟩
    · have hold := h.get_old hget (Or.inl (hsub.subset List.mem_cons_self))
      rw [h.inflight_old hlen args is_interval hold]
      exact h.stopped t timer hold hsub
    · cases hnew
  case spent =>
    intro t timer a hget htimeout hmem
    rcases mem_concat hmem with hmem | hnew
    · have hold := h.get_old hget (Or.inr ⟨a, hmem⟩)
      rw [h.inflight_old hlen args is_interval hold]
      exact h.spent t timer a hold htimeout hmem
    · cases hnew
  case once =>
    intro t timer a b hget htimeout hsub
    rcases pair_concat hsub with hsub | ⟨hnew, -⟩
    · have hold := h.get_old hget (Or.inr ⟨a, hsub.subset List.mem_cons_self⟩)
      exact h.once t timer a b hold htimeout hsub
    · cases hnew
  case silent =>
    intro t timer a hget hsub
    rcases triple_concat hsub with hsub | ⟨hnew, -⟩
    · have hold := h.get_old hget (Or.inl (hsub.subset List.mem_cons_self))
      exact h.silent t timer a hold hsub
    · cases hnew
  case outstanding => exact h.outstanding
  case outstanding_known =>
    intro t hmem
    rw [length_add]
    exact Nat.lt_succ_of_lt (h.outstanding_known t hmem)

theorem Inv.set (h : Inv s) (hlen : s.timers.length < 2 ^ 53) (args : List (Value α)) (is_interval accepted : Bool) :
    Inv (s.schedule_timeout_or_interval args is_interval accepted) := by
  have hadd := h.add hlen args is_interval
  unfold State.schedule_timeout_or_interval State.schedule
  split
  · refine hadd.calls ?_ fun t hmem => ?_
    · rw [List.nodup_append]
      refine ⟨hadd.outstanding, List.nodup_singleton _, fun t hmem u hu heq => ?_⟩
      rw [List.mem_singleton.1 hu] at heq
      exact absurd (heq ▸ h.outstanding_known t hmem) (lt_irrefl _)
    · rcases mem_concat hmem with hold | rfl
      · exact hadd.outstanding_known t hold
      · rw [length_add]
        exact Nat.lt_succ_self _
  · exact hadd

/-! ## Steps -/

theorem Inv.delete_record (h : Inv s) (id : ℕ) {e : Event α} (hset : ∀ t, e ≠ .set t)
    (hcleared : ∀ id', e = .cleared id' → id' = id)
    (hcalled : ∀ t a, e = .called t a → ∃ timer, s.timers[t]? = some timer ∧ timer.id = id
      ∧ s.inflight_timeouts timer.id ≠ none) :
    Inv { s.delete id with history := s.history ++ [e] } := by
  refine h.record (fun id' b hlive => ?_) hset (fun id' he => ?_) fun t a he => ?_
  · change Function.update s.inflight_timeouts id none id' = some b at hlive
    by_cases heq : id' = id
    · rw [heq, Function.update_self] at hlive
      cases hlive
    · rwa [Function.update_of_ne heq] at hlive
  · rw [hcleared id' he]
    exact Function.update_self _ _ _
  · obtain ⟨timer, hget, rfl, hlive⟩ := hcalled t a he
    obtain ⟨b, hb⟩ := Option.ne_none_iff_exists'.1 hlive
    exact ⟨timer, b, hget, hb, fun _ => Function.update_self _ _ _⟩

theorem inv_step {a : Action α} (h : Inv s) (hid : IdLeft s a) (hs : s.step a = some s') : Inv s' := by
  cases step_effect hs with
  | set ha =>
    rcases ha with ⟨rfl, rfl⟩ | ⟨rfl, rfl⟩ <;> exact h.set hid _ _ _
  | clear ha =>
    refine h.delete_record _ (fun t he => by cases he) (fun id' he => ?_) fun t a he => by cases he
    exact (Event.cleared.inj he).symm
  | @stale t accepted timer mem get quiet =>
    exact h.calls (h.outstanding.erase t) fun u hu => h.outstanding_known u (List.mem_of_mem_erase hu)
  | @again t timer mem get live =>
    have hcalls : Inv { s with outstanding := s.outstanding.erase t ++ [t] } := by
      refine h.calls ?_ fun u hu => ?_
      · have hperm := (List.perm_append_singleton t (s.outstanding.erase t)).trans (List.perm_cons_erase mem).symm
        exact hperm.nodup_iff.2 h.outstanding
      · rcases mem_concat hu with hold | rfl
        · exact h.outstanding_known u (List.mem_of_mem_erase hold)
        · exact h.outstanding_known u mem
    refine hcalls.record (fun _ _ hlive => hlive) (fun u he => by cases he) (fun id he => by cases he) fun u a he => ?_
    obtain ⟨rfl, -⟩ := Event.called.inj he
    exact ⟨timer, true, get, live, fun hfalse => by cases hfalse⟩
  | @last t accepted timer mem get live =>
    have hcalls : Inv { s with outstanding := s.outstanding.erase t } :=
      h.calls (h.outstanding.erase t) fun u hu => h.outstanding_known u (List.mem_of_mem_erase hu)
    refine hcalls.delete_record timer.id (fun u he => by cases he) (fun id he => by cases he) fun u a he => ?_
    obtain ⟨rfl, -⟩ := Event.called.inj he
    refine ⟨timer, get, rfl, ?_⟩
    rw [live]
    simp
  | change => exact h.change _ _

theorem schedule_frame (s : State α) (t : ℕ) (accepted : Bool) :
    (s.schedule t accepted).timers = s.timers ∧ (s.schedule t accepted).history = s.history := by
  unfold State.schedule
  split <;> exact ⟨rfl, rfl⟩

/-- When there have been `2^53` timers, the next one gets the id of the last. -/
theorem reused_step {a : Action α} (h : Inv s) (hid : ¬ IdLeft s a) (hs : s.step a = some s') : ¬ Safe s' := by
  cases step_effect hs with
  | @set a args is_interval accepted ha =>
    have hfull : ¬ s.timers.length < 2 ^ 53 := by
      rcases ha with ⟨rfl, -⟩ | ⟨rfl, -⟩ <;> exact hid
    have hlen : s.timers.length = 2 ^ 53 := le_antisymm h.count (Nat.le_of_not_lt hfull)
    have hnext : s.next_timeout_id = s.timers.length := by
      rw [h.next]
      omega
    -- the timer before this one has the same id
    have hlast : s.timers.length - 1 < s.timers.length := by omega
    have hget := List.getElem?_eq_getElem hlast
    intro hsafe
    have hids := hsafe.ids
    rw [State.schedule_timeout_or_interval, (schedule_frame _ _ _).1, State.add, List.map_append, List.nodup_append] at hids
    refine hids.2.2 _ (List.mem_map.2 ⟨_, List.getElem_mem hlast, rfl⟩) _ (List.mem_singleton_self _) ?_
    rw [h.id _ _ hget]
    show _ = s.next_timeout_id
    omega
  | clear ha => rcases ha with rfl | rfl <;> exact absurd trivial hid
  | stale | again | last | change => exact absurd trivial hid

/-! ## Runs without a call -/

/-- No callback has been called yet, and so no script has an array of arguments. -/
structure Silent (s : State α) : Prop extends Inv s where
  no_call : ∀ t a, .called t a ∉ s.history
  intact : ∀ timer ∈ s.timers, timer.rest = timer.args

theorem Silent.contract (h : Silent s) : Contract s :=
  { h.toInv.safe with passed := fun t _ a _ hmem => absurd hmem (h.no_call t a) }

theorem silent_start : Silent (start : State α) :=
  { inv_start with
    no_call := fun _ _ hmem => nomatch hmem
    intact := fun _ hmem => nomatch hmem }

theorem silent_step {a : Action α} (h : Silent s) (hid : IdLeft s a) (hfires : ¬ Fires s a)
    (hs : s.step a = some s') : Silent s' := by
  have hinv := inv_step h.toInv hid hs
  cases step_effect hs with
  | @set a args is_interval accepted ha =>
    obtain ⟨htimers, hhistory⟩ := schedule_frame (s.add args is_interval) s.timers.length accepted
    refine { hinv with no_call := fun t b hmem => ?_, intact := fun timer hmem => ?_ }
    · rw [State.schedule_timeout_or_interval, hhistory] at hmem
      rcases mem_concat hmem with hold | hnew
      · exact h.no_call t b hold
      · cases hnew
    · rw [State.schedule_timeout_or_interval, htimers] at hmem
      rcases mem_concat hmem with hold | rfl
      · exact h.intact timer hold
      · rfl
  | clear ha =>
    refine { hinv with no_call := fun t a hmem => ?_, intact := h.intact }
    rcases mem_concat hmem with hold | hnew
    · exact h.no_call t a hold
    · cases hnew
  | stale => exact { hinv with no_call := h.no_call, intact := h.intact }
  | again mem get live => exact absurd ⟨_, get, Or.inr ⟨live, rfl⟩⟩ hfires
  | last mem get live => exact absurd ⟨_, get, Or.inl live⟩ hfires
  | change called =>
    obtain ⟨e, hmem, he⟩ := List.any_eq_true.1 called
    cases e with
    | called u a => exact absurd hmem (h.no_call u a)
    | set | cleared => cases he

/-- The array of the arguments is not the arguments. -/
theorem array_ne (args : List (Value α)) : [Value.array args] ≠ args := by
  intro heq
  have hsize := congrArg sizeOf heq
  simp only [List.cons.sizeOf_spec, List.nil.sizeOf_spec, Value.array.sizeOf_spec] at hsize
  omega

/-- The first call of a callback passes the array. -/
theorem called_step {a : Action α} (h : Silent s) (hfires : Fires s a) (hs : s.step a = some s') : ¬ Contract s' := by
  intro hcontract
  have hbroken : ∀ (t : ℕ) (timer : Timer α), s.timers[t]? = some timer → s'.timers = s.timers →
      .called t [.array timer.rest] ∈ s'.history → False := by
    intro t timer hget htimers hmem
    have hpassed := hcontract.passed t timer _ (htimers ▸ hget) hmem
    rw [h.intact timer (List.mem_of_getElem? hget)] at hpassed
    exact array_ne timer.args hpassed
  cases step_effect hs with
  | set ha => rcases ha with ⟨rfl, -⟩ | ⟨rfl, -⟩ <;> exact hfires
  | clear ha => rcases ha with rfl | rfl <;> exact hfires
  | stale mem get quiet => exact quiet hfires
  | again mem get live => exact hbroken _ _ get rfl (List.mem_append_right _ (List.mem_singleton_self _))
  | last mem get live => exact hbroken _ _ get rfl (List.mem_append_right _ (List.mem_singleton_self _))
  | change => exact hfires

/-! ## The contract, exactly -/

/-- **Only the arguments are wrong.** For every sequence of calls of the four
functions, from callbacks or elsewhere, and every order in which the host
completes `SetTimeout` calls: ids are never reused, a timeout is called at most
once, nothing is called after its id was cleared, and an interval has at most one
call of the host outstanding, as long as there are at most `2^53` timers. That the
callbacks are also passed the arguments with which the timers were set holds as
long as none is called: the first call of a callback passes it the array of its
arguments. -/
theorem timers_contract_iff (as : List (Action α)) :
    ((machine α).Always Safe start as ↔ (machine α).Meets IdLeft start as)
      ∧ ((machine α).Always Contract start as
        ↔ (machine α).Meets (fun s a => IdLeft s a ∧ ¬ Fires s a) start as) := by
  constructor
  · exact (machine α).always_iff_meets (fun _ h => h.safe) (fun _ _ _ h hid hs => inv_step h hid hs)
      (fun _ _ _ h hid hs => reused_step h hid hs) inv_start
  · refine (machine α).always_iff_meets (fun _ h => h.contract)
      (fun _ _ _ h hc hs => silent_step h hc.1 hc.2 hs) (fun s a s' h hc hs hcontract => ?_) silent_start
    by_cases hid : IdLeft s a
    · have hfires : Fires s a := by
        by_contra hno
        exact hc ⟨hid, hno⟩
      exact called_step h hfires hs hcontract
    · exact reused_step h.toInv hid hs hcontract.toSafe

/-- `setTimeout(callback, 0, "left", "right")`, and its call completes. -/
def timeout_of_two : List (Action String) := [.set_timeout [.other "left", .other "right"] true, .complete 0 true]

/-- The callback gets one argument. -/
theorem array_passed :
    (∃ s, (machine String).run start timeout_of_two = some s
        ∧ s.history = [.set 0, .called 0 [.array [.other "left", .other "right"]]])
      ∧ ¬ (machine String).Always Contract start timeout_of_two := by
  have hrun : ((machine String).run start timeout_of_two).map (fun s => (s.timers[0]?.map Timer.args, s.history))
      = some (some [.other "left", .other "right"],
        [.set 0, .called 0 [.array [.other "left", .other "right"]]]) := rfl
  obtain ⟨s, hs, heq⟩ := Option.map_eq_some_iff.1 hrun
  obtain ⟨hargs, hhistory⟩ := Prod.mk.inj heq
  obtain ⟨timer, hget, hargs⟩ := Option.map_eq_some_iff.1 hargs
  refine ⟨⟨s, hs, hhistory⟩, fun hall => ?_⟩
  have hpassed := ((machine String).always_run hall hs).passed 0 timer _ hget (hhistory ▸ List.mem_cons_of_mem _ List.mem_cons_self)
  rw [hargs] at hpassed
  have hlength := congrArg List.length hpassed
  simp at hlength

end Timers

end RustyWorkers

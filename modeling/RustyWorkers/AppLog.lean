/-
The log of the applications: `Runtime::write_log` and `log_worker`
(`rusty-workers-runtime/src/runtime.rs`) with `DataClient::applog_write`
(`rusty-workers/src/db.rs`).

`write_log` puts an entry into a channel for 1000 of them, or drops it there and
then. The worker takes them out one by one and offers each to sixteen writers at
once, by `select_all` over sixteen sends: the first of them, in their order, that
can complete takes the entry, and the other fifteen are dropped. A writer has a
channel of its own for sixteen entries and inserts one row at a time.

The writers hold the runtime weakly. Once everything else has let go of it, a
writer that takes an entry and finds no runtime ends, and what is in its channel
goes with it; a send to a writer that has ended completes at once, and the entry
is gone. `accepted`, `written` and `lost` are history: which entries there were,
which an insert was made for, and which went without one.
-/
import RustyWorkers.Lib.Machine
import RustyWorkers.Lib.Sums

set_option autoImplicit false

namespace RustyWorkers

open Lib

namespace AppLog

/-- `LogEntry`; the time is in nanoseconds since the epoch. -/
structure LogEntry where
  appid : String
  time : ℤ
  text : String
deriving DecidableEq, Repr

/-- An entry, and which one it is. -/
structure Queued where
  nr : ℕ
  entry : LogEntry
deriving DecidableEq, Repr

/-- A row of `applog`. -/
structure Row where
  appid : String
  logtime : ℕ
  subid : UInt32
  logcontent : String
deriving DecidableEq, Repr

/-- `duration_since(UNIX_EPOCH).unwrap_or_else(|_| ..).as_millis() as u64`. -/
def logtime (time : ℤ) : ℕ := (time.toNat / 1000000) % 2 ^ 64

/-- What `applog_write` inserts. -/
def LogEntry.row (e : LogEntry) (subid : UInt32) : Row := ⟨e.appid, logtime e.time, subid, e.text⟩

/-- One of the tasks that `log_worker` spawns, with its channel. -/
structure Writer where
  rx : List Queued
  writing : Option Queued
  ended : Bool
deriving DecidableEq, Repr

structure State where
  log : List Queued
  entry : Option Queued
  worker_ended : Bool
  writers : List Writer
  released : Bool
  accepted : List Queued
  written : List Queued
  lost : List Queued
  rows : List Row
deriving DecidableEq, Repr

/-- `release` is the last owner of the runtime, apart from the writers, letting go
of it; `stored` is whether the database takes the row. -/
inductive Action where
  | write_log (entry : LogEntry)
  | release
  | recv
  | send
  | take (i : ℕ)
  | applog_write (i : ℕ) (subid : UInt32) (stored : Bool)
deriving DecidableEq, Repr

def log_capacity : ℕ := 1000

def num_writers : ℕ := 16

def channel_capacity : ℕ := 16

def idle : Writer := ⟨[], none, false⟩

/-- `Runtime::new`. -/
def start : State := ⟨[], none, false, List.replicate num_writers idle, false, [], [], [], []⟩

/-- Whether `rt.upgrade()` finds the runtime: a writer has it during an insert. -/
def State.alive (s : State) : Bool := !s.released || s.writers.any fun w => w.writing.isSome

/-- Whether a send to the writer completes, with or without success. -/
def Writer.ready (w : Writer) : Bool := w.ended || decide (w.rx.length < channel_capacity)

/-- `Runtime::write_log`: a full channel, or a closed one, refuses the entry. -/
def write_log (s : State) (entry : LogEntry) : Option State :=
  if s.released then none
  else if s.worker_ended ∨ log_capacity ≤ s.log.length then some s
  else some { s with log := s.log ++ [⟨s.accepted.length, entry⟩], accepted := s.accepted ++ [⟨s.accepted.length, entry⟩] }

/-- `rx.recv().await` of the worker. -/
def recv (s : State) : Option State :=
  if s.worker_ended ∨ s.entry.isSome then none
  else
    match s.log with
    | q :: log => some { s with log := log, entry := some q }
    | [] => if s.alive then none else some { s with worker_ended := true }

/-- `select_all` over the sends. -/
def send (s : State) : Option State :=
  match s.entry, s.writers.findIdx? Writer.ready with
  | some q, some i =>
    (s.writers[i]?).map fun w =>
      if w.ended then { s with entry := none, lost := s.lost ++ [q] }
      else { s with entry := none, writers := s.writers.set i { w with rx := w.rx ++ [q] } }
  | _, _ => none

/-- `rx.recv().await` of a writer, and `rt.upgrade()`. -/
def take (s : State) (i : ℕ) : Option State :=
  (s.writers[i]?).bind fun w =>
    if w.ended ∨ w.writing.isSome then none
    else
      match w.rx with
      | q :: rx =>
        if s.alive then some { s with writers := s.writers.set i ⟨rx, some q, false⟩ }
        else some { s with writers := s.writers.set i ⟨[], none, true⟩, lost := s.lost ++ q :: rx }
      | [] => if s.worker_ended then some { s with writers := s.writers.set i ⟨[], none, true⟩ } else none

/-- The insert ends, and its result is dropped. -/
def applog_write (s : State) (i : ℕ) (subid : UInt32) (stored : Bool) : Option State :=
  (s.writers[i]?).bind fun w =>
    w.writing.map fun q =>
      { s with
        writers := s.writers.set i { w with writing := none }
        written := s.written ++ [q]
        rows := if stored then s.rows ++ [q.entry.row subid] else s.rows }

def step (s : State) : Action → Option State
  | .write_log entry => write_log s entry
  | .release => if s.released then none else some { s with released := true }
  | .recv => recv s
  | .send => send s
  | .take i => take s i
  | .applog_write i subid stored => applog_write s i subid stored

def machine : Machine State Action := ⟨step⟩

/-- What a writer has. -/
def Writer.entries (w : Writer) : List Queued := w.writing.toList ++ w.rx

/-- What has come out of the first channel. -/
def State.passed (s : State) : List Queued := s.writers.flatMap Writer.entries

/-- What no insert has been made for, and what is not lost. -/
def State.pending (s : State) : List Queued := s.passed ++ (s.entry.toList ++ s.log)

/-! ## What a step does -/

/-- The steps, with what has to hold for them. -/
inductive Effect (s : State) : Action → State → Prop where
  | accepted (entry : LogEntry) (up : s.released = false) (open_ : s.worker_ended = false) (room : s.log.length < log_capacity) :
      Effect s (.write_log entry) { s with
        log := s.log ++ [⟨s.accepted.length, entry⟩], accepted := s.accepted ++ [⟨s.accepted.length, entry⟩] }
  | refused (entry : LogEntry) : Effect s (.write_log entry) s
  | released : Effect s .release { s with released := true }
  | received (q : Queued) (log : List Queued) (idle : s.entry = none) (head : s.log = q :: log) :
      Effect s .recv { s with log := log, entry := some q }
  | closed (idle : s.entry = none) (empty : s.log = []) (gone : s.alive = false) :
      Effect s .recv { s with worker_ended := true }
  | sent (q : Queued) (i : ℕ) (w : Writer) (held : s.entry = some q) (first : s.writers.findIdx? Writer.ready = some i)
      (at_ : s.writers[i]? = some w) (up : w.ended = false) (room : w.rx.length < channel_capacity) :
      Effect s .send { s with entry := none, writers := s.writers.set i { w with rx := w.rx ++ [q] } }
  | dropped (q : Queued) (i : ℕ) (w : Writer) (held : s.entry = some q) (first : s.writers.findIdx? Writer.ready = some i)
      (at_ : s.writers[i]? = some w) (gone : w.ended = true) :
      Effect s .send { s with entry := none, lost := s.lost ++ [q] }
  | taken (i : ℕ) (q : Queued) (rx : List Queued) (at_ : s.writers[i]? = some ⟨q :: rx, none, false⟩) (up : s.alive = true) :
      Effect s (.take i) { s with writers := s.writers.set i ⟨rx, some q, false⟩ }
  | abandoned (i : ℕ) (q : Queued) (rx : List Queued) (at_ : s.writers[i]? = some ⟨q :: rx, none, false⟩)
      (gone : s.alive = false) :
      Effect s (.take i) { s with writers := s.writers.set i ⟨[], none, true⟩, lost := s.lost ++ q :: rx }
  | finished (i : ℕ) (at_ : s.writers[i]? = some idle) (gone : s.worker_ended = true) :
      Effect s (.take i) { s with writers := s.writers.set i ⟨[], none, true⟩ }
  | inserted (i : ℕ) (w : Writer) (q : Queued) (subid : UInt32) (stored : Bool) (at_ : s.writers[i]? = some w)
      (writing : w.writing = some q) :
      Effect s (.applog_write i subid stored) { s with
        writers := s.writers.set i { w with writing := none }, written := s.written ++ [q]
        rows := if stored then s.rows ++ [q.entry.row subid] else s.rows }

theorem ready_room {w : Writer} (h : w.ready = true) (hup : w.ended = false) : w.rx.length < channel_capacity := by
  rw [Writer.ready, hup, Bool.false_or] at h
  exact of_decide_eq_true h

theorem take_effect {s t : State} {i : ℕ} (h : take s i = some t) : Effect s (.take i) t := by
  obtain ⟨⟨rx, writing, ended⟩, hw, h⟩ := Option.bind_eq_some_iff.1 h
  simp only at h
  split at h
  · cases h
  rename_i hidle
  simp only [not_or, Bool.not_eq_true, Option.isSome_eq_false_iff, Option.isNone_iff_eq_none] at hidle
  obtain ⟨rfl, rfl⟩ := hidle
  split at h
  · rename_i q rx
    split at h
    · rename_i hup
      cases h
      exact Effect.taken i q rx hw hup
    · rename_i hgone
      cases h
      exact Effect.abandoned i q rx hw (by simpa using hgone)
  · split at h
    · rename_i hgone
      cases h
      exact Effect.finished i hw hgone
    · cases h

theorem send_effect {s t : State} (h : send s = some t) : Effect s .send t := by
  unfold send at h
  split at h
  · rename_i q i hheld hfirst
    obtain ⟨w, hw, h⟩ := Option.map_eq_some_iff.1 h
    split at h
    · rename_i hgone
      cases h
      exact Effect.dropped q i w hheld hfirst hw hgone
    · rename_i hup
      cases h
      have hup : w.ended = false := by simpa using hup
      have hready : w.ready = true := by
        obtain ⟨hlt, hready, -⟩ := List.findIdx?_eq_some_iff_getElem.1 hfirst
        rw [List.getElem?_eq_getElem hlt, Option.some.injEq] at hw
        rwa [hw] at hready
      exact Effect.sent q i w hheld hfirst hw hup (ready_room hready hup)
  · cases h

theorem step_effect {s t : State} {a : Action} (h : step s a = some t) : Effect s a t := by
  cases a with
  | write_log entry =>
    simp only [step, write_log] at h
    split at h
    · cases h
    rename_i hup
    split at h
    · cases h
      exact Effect.refused entry
    · rename_i hroom
      rw [not_or] at hroom
      cases h
      exact Effect.accepted entry (by simpa using hup) (by simpa using hroom.1) (by omega)
  | release =>
    simp only [step] at h
    split at h
    · cases h
    · cases h
      exact Effect.released
  | recv =>
    simp only [step, recv] at h
    split at h
    · cases h
    rename_i hidle
    simp only [not_or, Bool.not_eq_true, Option.isSome_eq_false_iff, Option.isNone_iff_eq_none] at hidle
    split at h
    · rename_i q log hlog
      cases h
      exact Effect.received q log hidle.2 hlog
    · rename_i hlog
      split at h
      · cases h
      · rename_i hgone
        cases h
        exact Effect.closed hidle.2 hlog (by simpa using hgone)
  | send => exact send_effect h
  | take i => exact take_effect h
  | applog_write i subid stored =>
    obtain ⟨w, hw, h⟩ := Option.bind_eq_some_iff.1 h
    obtain ⟨q, hq, h⟩ := Option.map_eq_some_iff.1 h
    cases h
    exact Effect.inserted i w q subid stored hw hq

/-! ## What is kept -/

/-- The entries in their order: those that are in the first channel or just out of
it come last, and every writer has some of the others, in the same order. -/
structure Ledger (s : State) (front : List Queued) : Prop where
  accepted : s.accepted = front ++ (s.entry.toList ++ s.log)
  numbered : s.accepted.map Queued.nr = List.range s.accepted.length
  passed : (s.written ++ s.lost ++ s.passed).Perm front
  writers : ∀ w ∈ s.writers, w.entries.Sublist front

theorem forall_set {α : Type*} {P : α → Prop} {l : List α} {i : ℕ} {y : α} (h : ∀ x ∈ l, P x) (hy : P y) :
    ∀ x ∈ l.set i y, P x := by
  intro x hx
  rcases List.mem_or_eq_of_mem_set hx with hmem | rfl
  · exact h x hmem
  · exact hy

/-- A writer is replaced by one that has no other entries, perhaps fewer. -/
theorem Ledger.set {s : State} {front o : List Queued} (h : Ledger s front) {i : ℕ} {w v : Writer}
    (hw : s.writers[i]? = some w) (hentries : w.entries = o ++ v.entries) :
    (∀ x ∈ s.writers.set i v, x.entries.Sublist front) ∧ (o ++ (s.writers.set i v).flatMap Writer.entries).Perm s.passed := by
  constructor
  · apply forall_set h.writers
    have hsub := h.writers w (List.mem_of_getElem? hw)
    rw [hentries] at hsub
    exact (List.sublist_append_right o v.entries).trans hsub
  · have hv : v.entries.Perm ([] ++ v.entries) := List.Perm.refl _
    exact perm_flatMap_exchange hw (List.Perm.of_eq hentries) hv

theorem ledger_step {s t : State} {a : Action} {front : List Queued} (he : Effect s a t) (h : Ledger s front) :
    ∃ front', Ledger t front' := by
  have hcount := fun x => h.passed.count_eq x
  cases he with
  | accepted entry =>
    refine ⟨front, ?_, ?_, h.passed, h.writers⟩
    · simp only [h.accepted, List.append_assoc]
    · rw [List.map_append, h.numbered, List.length_append, List.length_singleton, List.range_succ]
      rfl
  | refused => exact ⟨front, h⟩
  | released => exact ⟨front, h.accepted, h.numbered, h.passed, h.writers⟩
  | received q log hidle hlog =>
    refine ⟨front, ?_, h.numbered, h.passed, h.writers⟩
    rw [h.accepted, hidle, hlog]
    rfl
  | closed => exact ⟨front, h.accepted, h.numbered, h.passed, h.writers⟩
  | sent q i w hheld hfirst hw hup hroom =>
    -- the entry comes last of those that have passed, and last at its writer
    have hpassed : ((s.writers.set i { w with rx := w.rx ++ [q] }).flatMap Writer.entries).Perm ([q] ++ s.passed) := by
      have hold : w.entries.Perm ([] ++ w.entries) := List.Perm.refl _
      apply perm_flatMap_exchange hw hold
      rw [Writer.entries, ← List.append_assoc]
      exact List.perm_append_comm
    have hmore : ∀ x ∈ s.writers, x.entries.Sublist (front ++ [q]) := fun x hx =>
      (h.writers x hx).trans (List.sublist_append_left front [q])
    refine ⟨front ++ [q], ?_, h.numbered, ?_, ?_⟩
    · rw [h.accepted, hheld, List.append_assoc]
      rfl
    · apply List.perm_iff_count.2
      intro x
      have hx := hcount x
      have hq := hpassed.count_eq x
      simp only [State.passed, List.count_append] at hx hq ⊢
      omega
    · apply forall_set hmore
      rw [Writer.entries, ← List.append_assoc]
      exact (h.writers w (List.mem_of_getElem? hw)).append_right [q]
  | dropped q i w hheld hfirst hw hgone =>
    refine ⟨front ++ [q], ?_, h.numbered, ?_, ?_⟩
    · rw [h.accepted, hheld, List.append_assoc]
      rfl
    · apply List.perm_iff_count.2
      intro x
      have hx := hcount x
      simp only [State.passed, List.count_append] at hx ⊢
      omega
    · intro x hx
      exact (h.writers x hx).trans (List.sublist_append_left front [q])
  | taken i q rx hw hup =>
    obtain ⟨hwriters, hpassed⟩ := h.set (o := []) (v := ⟨rx, some q, false⟩) hw rfl
    refine ⟨front, h.accepted, h.numbered, ?_, hwriters⟩
    exact (hpassed.append_left (s.written ++ s.lost)).trans h.passed
  | abandoned i q rx hw hgone =>
    obtain ⟨hwriters, hpassed⟩ := h.set (o := q :: rx) (v := ⟨[], none, true⟩) hw (by simp [Writer.entries])
    refine ⟨front, h.accepted, h.numbered, ?_, hwriters⟩
    apply List.perm_iff_count.2
    intro x
    have hx := hcount x
    have hq := hpassed.count_eq x
    simp only [State.passed, List.count_append] at hx hq ⊢
    omega
  | finished i hw hgone =>
    obtain ⟨hwriters, hpassed⟩ := h.set (o := []) (v := ⟨[], none, true⟩) hw rfl
    refine ⟨front, h.accepted, h.numbered, ?_, hwriters⟩
    exact (hpassed.append_left (s.written ++ s.lost)).trans h.passed
  | inserted i w q subid stored hw hq =>
    obtain ⟨hwriters, hpassed⟩ := h.set (o := [q]) (v := { w with writing := none }) hw (by
      rw [Writer.entries, hq]
      rfl)
    refine ⟨front, h.accepted, h.numbered, ?_, hwriters⟩
    apply List.perm_iff_count.2
    intro x
    have hx := hcount x
    have hq := hpassed.count_eq x
    simp only [State.passed, List.count_append] at hx hq ⊢
    omega

/-- How much there is room for, and that a task which has ended has nothing. -/
structure Bounded (s : State) : Prop where
  log : s.log.length ≤ log_capacity
  writers : s.writers.length = num_writers
  rx : ∀ w ∈ s.writers, w.rx.length ≤ channel_capacity
  ended : ∀ w ∈ s.writers, w.ended = true → w.entries = []
  worker_ended : s.worker_ended = true → s.log = []

theorem bounded_step {s t : State} {a : Action} (he : Effect s a t) (h : Bounded s) : Bounded t := by
  obtain ⟨hlog, hwriters, hrx, hended, hworker⟩ := h
  cases he with
  | accepted entry hup hopen hroom =>
    refine ⟨?_, hwriters, hrx, hended, ?_⟩
    · rw [List.length_append, List.length_singleton]
      omega
    · intro hgone
      rw [hopen] at hgone
      cases hgone
  | refused => exact ⟨hlog, hwriters, hrx, hended, hworker⟩
  | released => exact ⟨hlog, hwriters, hrx, hended, hworker⟩
  | received q log hidle hhead =>
    rw [hhead, List.length_cons] at hlog
    refine ⟨?_, hwriters, hrx, hended, ?_⟩
    · show log.length ≤ log_capacity
      omega
    · intro hgone
      have hnil := hworker hgone
      rw [hhead] at hnil
      cases hnil
  | closed hidle hempty => exact ⟨hlog, hwriters, hrx, hended, fun _ => hempty⟩
  | sent q i w hheld hfirst hw hup hroom =>
    refine ⟨hlog, by rw [List.length_set, hwriters], forall_set hrx ?_, forall_set hended ?_, hworker⟩
    · rw [List.length_append, List.length_singleton]
      omega
    · intro hgone
      rw [hup] at hgone
      cases hgone
  | dropped => exact ⟨hlog, hwriters, hrx, hended, hworker⟩
  | taken i q rx hw hup =>
    refine ⟨hlog, by rw [List.length_set, hwriters], forall_set hrx ?_, forall_set hended (by simp), hworker⟩
    have hle := hrx _ (List.mem_of_getElem? hw)
    rw [List.length_cons] at hle
    show rx.length ≤ channel_capacity
    omega
  | abandoned i q rx hw hgone =>
    exact ⟨hlog, by rw [List.length_set, hwriters], forall_set hrx (Nat.zero_le _), forall_set hended fun _ => rfl, hworker⟩
  | finished i hw hgone =>
    exact ⟨hlog, by rw [List.length_set, hwriters], forall_set hrx (Nat.zero_le _), forall_set hended fun _ => rfl, hworker⟩
  | inserted i w q subid stored hw hq =>
    have hmem := List.mem_of_getElem? hw
    refine ⟨hlog, by rw [List.length_set, hwriters], forall_set hrx (hrx w hmem), forall_set hended ?_, hworker⟩
    intro hgone
    have hnone := hended w hmem hgone
    rw [Writer.entries, hq] at hnone
    cases hnone

theorem not_alive_iff {s : State} : s.alive = false ↔ s.released = true ∧ ∀ w ∈ s.writers, w.writing = none := by
  simp [State.alive, List.any_eq_false]

/-- Nothing ends, and nothing is lost, before the runtime is gone; and what goes
into the table is what the inserts were made for. -/
structure Upheld (s : State) : Prop where
  gone : (s.worker_ended = true ∨ (∃ w ∈ s.writers, w.ended = true) ∨ s.lost ≠ []) → s.alive = false
  rows : (s.rows.map fun r => (r.appid, r.logtime, r.logcontent)).Sublist
    (s.written.map fun q => (q.entry.appid, logtime q.entry.time, q.entry.text))

/-- Gone for good. -/
theorem not_alive_step {s t : State} {a : Action} (he : Effect s a t) (h : s.alive = false) : t.alive = false := by
  obtain ⟨hreleased, hnone⟩ := not_alive_iff.1 h
  cases he with
  | accepted entry hup =>
    rw [hup] at hreleased
    cases hreleased
  | refused => exact h
  | released => exact not_alive_iff.2 ⟨rfl, hnone⟩
  | received => exact not_alive_iff.2 ⟨hreleased, hnone⟩
  | closed => exact not_alive_iff.2 ⟨hreleased, hnone⟩
  | sent q i w hheld hfirst hw =>
    exact not_alive_iff.2 ⟨hreleased, forall_set hnone (hnone w (List.mem_of_getElem? hw))⟩
  | dropped => exact not_alive_iff.2 ⟨hreleased, hnone⟩
  | taken i q rx hw hup =>
    rw [hup] at h
    cases h
  | abandoned => exact not_alive_iff.2 ⟨hreleased, forall_set hnone rfl⟩
  | finished => exact not_alive_iff.2 ⟨hreleased, forall_set hnone rfl⟩
  | inserted => exact not_alive_iff.2 ⟨hreleased, forall_set hnone rfl⟩

theorem upheld_step {s t : State} {a : Action} (he : Effect s a t) (h : Upheld s) : Upheld t := by
  have hkeep := not_alive_step he
  cases he with
  | accepted => exact ⟨h.gone, h.rows⟩
  | refused => exact h
  | released => exact ⟨fun hg => hkeep (h.gone hg), h.rows⟩
  | received => exact ⟨fun hg => hkeep (h.gone hg), h.rows⟩
  | closed hidle hempty hgone => exact ⟨fun _ => hkeep hgone, h.rows⟩
  | sent q i w hheld hfirst hw hup =>
    refine ⟨fun hg => hkeep (h.gone ?_), h.rows⟩
    rcases hg with hg | ⟨x, hx, hgone⟩ | hg
    · exact Or.inl hg
    · rcases List.mem_or_eq_of_mem_set hx with hmem | rfl
      · exact Or.inr (Or.inl ⟨x, hmem, hgone⟩)
      · rw [hup] at hgone
        cases hgone
    · exact Or.inr (Or.inr hg)
  | dropped q i w hheld hfirst hw hgone =>
    exact ⟨fun _ => hkeep (h.gone (Or.inr (Or.inl ⟨w, List.mem_of_getElem? hw, hgone⟩))), h.rows⟩
  | taken i q rx hw hup =>
    refine ⟨fun hg => hkeep (h.gone ?_), h.rows⟩
    rcases hg with hg | ⟨x, hx, hgone⟩ | hg
    · exact Or.inl hg
    · rcases List.mem_or_eq_of_mem_set hx with hmem | rfl
      · exact Or.inr (Or.inl ⟨x, hmem, hgone⟩)
      · cases hgone
    · exact Or.inr (Or.inr hg)
  | abandoned i q rx hw hgone => exact ⟨fun _ => hkeep hgone, h.rows⟩
  | finished i hw hgone => exact ⟨fun _ => hkeep (h.gone (Or.inl hgone)), h.rows⟩
  | inserted i w q subid stored hw hq =>
    refine ⟨fun hg => hkeep (h.gone ?_), ?_⟩
    · rcases hg with hg | ⟨x, hx, hgone⟩ | hg
      · exact Or.inl hg
      · rcases List.mem_or_eq_of_mem_set hx with hmem | rfl
        · exact Or.inr (Or.inl ⟨x, hmem, hgone⟩)
        · exact Or.inr (Or.inl ⟨w, List.mem_of_getElem? hw, hgone⟩)
      · exact Or.inr (Or.inr hg)
    · rw [List.map_append]
      cases stored with
      | false => exact h.rows.trans (List.sublist_append_left _ _)
      | true =>
        rw [if_pos rfl, List.map_append]
        exact h.rows.append (List.Sublist.refl _)

/-! ## Every run -/

structure Inv (s : State) : Prop where
  ledger : ∃ front, Ledger s front
  bounded : Bounded s
  upheld : Upheld s

theorem inv_start : Inv start := by
  refine ⟨⟨[], rfl, rfl, List.Perm.refl _, ?_⟩, ⟨Nat.zero_le _, List.length_replicate, ?_, ?_, fun _ => rfl⟩,
    ⟨?_, List.Sublist.refl _⟩⟩
  · intro w hw
    rw [List.eq_of_mem_replicate hw]
    exact List.Sublist.refl _
  · intro w hw
    rw [List.eq_of_mem_replicate hw]
    exact Nat.zero_le _
  · intro w hw _
    rw [List.eq_of_mem_replicate hw]
    rfl
  · rintro (hgone | ⟨w, hw, hgone⟩ | hgone)
    · cases hgone
    · rw [List.eq_of_mem_replicate hw] at hgone
      cases hgone
    · exact absurd rfl hgone

theorem inv_step (s : State) (a : Action) (t : State) (h : Inv s) (hs : machine.step s a = some t) : Inv t := by
  have he := step_effect hs
  obtain ⟨front, hledger⟩ := h.ledger
  exact ⟨ledger_step he hledger, bounded_step he h.bounded, upheld_step he h.upheld⟩

theorem inv_run {as : List Action} {s : State} (h : machine.run start as = some s) : Inv s :=
  machine.run_invariant inv_step inv_start h

/-- What the writers can hold: a channel each, and the row that is being inserted. -/
theorem entries_length_le {w : Writer} (h : w.rx.length ≤ channel_capacity) : w.entries.length ≤ channel_capacity + 1 := by
  have hone : w.writing.toList.length ≤ 1 := by
    cases w.writing with
    | none => exact Nat.zero_le _
    | some q => exact Nat.le_refl _
  rw [Writer.entries, List.length_append]
  omega

/-- **No entry is lost or written twice.** As long as something holds the runtime,
every entry that the channel took is either with the one insert that was made for
it or among at most 1273 that are on their way, and the rows of the table are made
of the written ones, in that order. -/
theorem log_conserved (as : List Action) (s : State) (h : machine.run start as = some s) :
    (s.written ++ s.lost ++ s.pending).Perm s.accepted ∧ s.accepted.Nodup ∧ (s.alive = true → s.lost = []) ∧
      s.pending.length ≤ 1273 ∧ (s.rows.map fun r => (r.appid, r.logtime, r.logcontent)).Sublist
        (s.written.map fun q => (q.entry.appid, logtime q.entry.time, q.entry.text)) := by
  obtain ⟨⟨front, hledger⟩, hbounded, hupheld⟩ := inv_run h
  refine ⟨?_, ?_, ?_, ?_, hupheld.rows⟩
  · rw [State.pending, ← List.append_assoc, hledger.accepted]
    exact hledger.passed.append_right _
  · apply List.Nodup.of_map Queued.nr
    rw [hledger.numbered]
    exact List.nodup_range
  · intro halive
    by_contra hlost
    rw [hupheld.gone (Or.inr (Or.inr hlost))] at halive
    cases halive
  · have hsum : s.passed.length ≤ s.writers.length * (channel_capacity + 1) := by
      rw [State.passed, List.length_flatMap, ← List.length_map (f := fun w : Writer => w.entries.length)]
      apply List.sum_le_card_nsmul
      intro n hn
      obtain ⟨w, hw, rfl⟩ := List.mem_map.1 hn
      exact entries_length_le (hbounded.rx w hw)
    have hentry : s.entry.toList.length ≤ 1 := by
      cases s.entry with
      | none => exact Nat.zero_le _
      | some q => exact Nat.le_refl _
    have hlog := hbounded.log
    rw [hbounded.writers] at hsum
    simp only [num_writers, channel_capacity, log_capacity] at hsum hlog
    rw [State.pending, List.length_append, List.length_append]
    omega

/-- Two entries, of which the first one has got to the writer. -/
def two_entries : List Action := [.write_log ⟨"a", 0, "x"⟩, .write_log ⟨"a", 1, "y"⟩, .recv, .send, .take 0]

theorem log_conserved_of_two : ∃ s, machine.run start two_entries = some s ∧
    (s.written ++ s.lost ++ s.pending).Perm s.accepted :=
  ⟨_, rfl, (log_conserved two_entries _ rfl).1⟩

/-! ## Who comes first -/

/-- A part of the entries has its numbers in order. -/
theorem Ledger.sorted {s : State} {front : List Queued} (h : Ledger s front) {l : List Queued}
    (hl : l.Sublist s.accepted) : (l.map Queued.nr).Pairwise (· < ·) := by
  have hsub := hl.map Queued.nr
  rw [h.numbered] at hsub
  exact List.pairwise_lt_range.sublist hsub

theorem Ledger.front_sublist {s : State} {front : List Queued} (h : Ledger s front) : front.Sublist s.accepted := by
  rw [h.accepted]
  exact List.sublist_append_left front _

/-- What is still in front of the writers came later than what has passed. -/
theorem Ledger.lt_of_front {s : State} {front : List Queued} (h : Ledger s front) {q x : Queued} (hq : q ∈ front)
    (hx : x ∈ s.entry.toList ++ s.log) : q.nr < x.nr := by
  have hsorted := h.sorted (List.Sublist.refl s.accepted)
  rw [h.accepted, List.map_append, List.pairwise_append] at hsorted
  exact hsorted.2.2 _ (List.mem_map_of_mem hq) _ (List.mem_map_of_mem hx)

/-- **Overtaking is bounded.** When an insert is made for an entry, at most 255
entries that were logged before it are still on their way: those that the fifteen
other writers have. -/
theorem log_overtaken (as : List Action) (s : State) (h : machine.run start as = some s) (i : ℕ) (w : Writer) (q : Queued)
    (hw : s.writers[i]? = some w) (hq : w.writing = some q) :
    (s.pending.filter fun x => x.nr < q.nr).length ≤ 255 := by
  obtain ⟨⟨front, hledger⟩, hbounded, -⟩ := inv_run h
  have hentries : w.entries = q :: w.rx := by
    rw [Writer.entries, hq]
    rfl
  have hmem : q ∈ front := by
    apply (hledger.writers w (List.mem_of_getElem? hw)).subset
    rw [hentries]
    exact List.mem_cons_self
  have hbehind : (s.entry.toList ++ s.log).filter (fun x => x.nr < q.nr) = [] := by
    apply List.filter_eq_nil_iff.2
    intro x hx
    have hlt := hledger.lt_of_front hmem hx
    simp only [decide_eq_true_eq]
    omega
  -- the writer itself has only later ones
  have hown : (w.entries.filter fun x => x.nr < q.nr).length = 0 := by
    have hsorted := hledger.sorted ((hledger.writers w (List.mem_of_getElem? hw)).trans hledger.front_sublist)
    rw [hentries, List.map_cons, List.pairwise_cons] at hsorted
    rw [hentries, List.length_eq_zero_iff]
    apply List.filter_eq_nil_iff.2
    intro x hx
    simp only [decide_eq_true_eq]
    rcases List.mem_cons.1 hx with rfl | hx
    · exact lt_irrefl _
    · have hlt := hsorted.1 _ (List.mem_map_of_mem hx)
      omega
  have hsum : (s.passed.filter fun x => x.nr < q.nr).length
      ≤ (s.writers.length - 1) * (channel_capacity + 1) := by
    rw [State.passed, List.filter_flatMap, List.length_flatMap]
    apply sum_map_le_of_zero _ hw hown
    intro x hx
    exact (List.length_filter_le _ _).trans (entries_length_le (hbounded.rx x hx))
  rw [hbounded.writers] at hsum
  rw [State.pending, List.filter_append, hbehind, List.append_nil]
  exact hsum

theorem log_overtaken_of_two : ∃ s, machine.run start two_entries = some s ∧
    (s.pending.filter fun x => x.nr < 0).length ≤ 255 :=
  ⟨_, rfl, log_overtaken two_entries _ rfl 0 _ ⟨0, ⟨"a", 0, "x"⟩⟩ rfl rfl⟩

/-! ## Nothing stays behind -/

/-- The steps of the tasks. -/
def Action.own : Action → Bool
  | .write_log _ => false
  | .release => false
  | _ => true

/-- The steps that a writer still has to make. -/
def Writer.work (w : Writer) : ℕ := 2 * w.rx.length + w.writing.toList.length + if w.ended then 0 else 1

/-- The steps that the tasks still have to make. -/
def State.work (s : State) : ℕ :=
  4 * s.log.length + 3 * s.entry.toList.length + (s.writers.map Writer.work).sum + if s.worker_ended then 0 else 1

theorem work_set {s : State} {i : ℕ} {w : Writer} (hw : s.writers[i]? = some w) (v : Writer) :
    ((s.writers.set i v).map Writer.work).sum + w.work = (s.writers.map Writer.work).sum + v.work :=
  sum_map_set Writer.work hw v

theorem work_step {s t : State} {a : Action} (ha : a.own = true) (hs : machine.step s a = some t) : t.work < s.work := by
  have hstep : step s a = some t := hs
  cases step_effect hstep with
  | accepted => cases ha
  | refused => cases ha
  | released => cases ha
  | received q log hidle hlog =>
    simp only [State.work, hidle, hlog, List.length_cons, Option.toList_some, Option.toList_none, List.length_nil]
    omega
  | closed hidle hempty hgone =>
    -- the worker was running
    have hup : s.worker_ended = false := by
      simp only [step, recv] at hstep
      split at hstep
      · cases hstep
      · rename_i hno
        simp only [not_or, Bool.not_eq_true] at hno
        exact hno.1
    simp only [State.work, hup, if_true, Bool.false_eq_true, if_false]
    omega
  | sent q i w hheld hfirst hw hup hroom =>
    have hwork := work_set hw { w with rx := w.rx ++ [q] }
    simp only [State.work, hheld, Option.toList_some, Option.toList_none, List.length_cons, List.length_nil]
    simp only [Writer.work, List.length_append, List.length_cons, List.length_nil] at hwork ⊢
    omega
  | dropped q i w hheld hfirst hw hgone =>
    simp only [State.work, hheld, Option.toList_some, Option.toList_none, List.length_cons, List.length_nil]
    omega
  | taken i q rx hw hup =>
    have hwork := work_set hw ⟨rx, some q, false⟩
    simp only [State.work, Writer.work, Option.toList_some, Option.toList_none, List.length_cons, List.length_nil] at hwork ⊢
    omega
  | abandoned i q rx hw hgone =>
    have hwork := work_set hw ⟨[], none, true⟩
    simp only [State.work, Writer.work, Option.toList_none, List.length_cons, List.length_nil, if_true, Bool.false_eq_true,
      if_false] at hwork ⊢
    omega
  | finished i hw hgone =>
    have hwork := work_set hw ⟨[], none, true⟩
    simp only [State.work, Writer.work, idle, Option.toList_none, List.length_nil, if_true, Bool.false_eq_true,
      if_false] at hwork ⊢
    omega
  | inserted i w q subid stored hw hq =>
    have hwork := work_set hw { w with writing := none }
    simp only [State.work, Writer.work, hq, Option.toList_some, Option.toList_none, List.length_cons, List.length_nil] at hwork ⊢
    omega

theorem own_keeps_accepted {s t : State} {a : Action} (ha : a.own = true) (hs : machine.step s a = some t) :
    t.accepted = s.accepted := by
  have hstep : step s a = some t := hs
  cases step_effect hstep with
  | accepted => cases ha
  | refused => rfl
  | released => rfl
  | received => rfl
  | closed => rfl
  | sent => rfl
  | dropped => rfl
  | taken => rfl
  | abandoned => rfl
  | finished => rfl
  | inserted => rfl

theorem own_run {bs : List Action} (hown : ∀ b ∈ bs, b.own = true) {s t : State} (h : machine.run s bs = some t) :
    bs.length + t.work ≤ s.work ∧ t.accepted = s.accepted := by
  induction bs generalizing s with
  | nil =>
    obtain rfl := Option.some.inj h
    exact ⟨by rw [List.length_nil, Nat.zero_add], rfl⟩
  | cons b bs ih =>
    obtain ⟨u, hs, hr⟩ := machine.run_cons_eq_some.1 h
    have hb := hown b List.mem_cons_self
    have hless := work_step hb hs
    obtain ⟨hle, haccepted⟩ := ih (fun c hc => hown c (List.mem_cons_of_mem b hc)) hr
    refine ⟨?_, haccepted.trans (own_keeps_accepted hb hs)⟩
    rw [List.length_cons]
    omega

theorem work_le {s : State} (h : s.writers.length = num_writers) : s.work ≤ 4 * s.pending.length + 17 := by
  have hwriters : ∀ l : List Writer, (l.map Writer.work).sum ≤ 2 * (l.flatMap Writer.entries).length + l.length := by
    intro l
    induction l with
    | nil => exact Nat.zero_le _
    | cons w l ih =>
      have hw : w.work ≤ 2 * w.entries.length + 1 := by
        rw [Writer.work, Writer.entries, List.length_append]
        split <;> omega
      rw [List.map_cons, List.sum_cons, List.flatMap_cons, List.length_append, List.length_cons]
      omega
  have hsum := hwriters s.writers
  rw [h, num_writers] at hsum
  rw [State.work, State.pending, State.passed, List.length_append, List.length_append]
  split <;> omega

/-- A task that can make no step has nothing to make one with. -/
theorem stuck_writer {s : State} (hstuck : ∀ b : Action, b.own = true → machine.step s b = none) {i : ℕ} {w : Writer}
    (hw : s.writers[i]? = some w) (hended : w.ended = true → w.entries = []) :
    w.entries = [] ∧ (s.worker_ended = true → w.ended = true) := by
  have hnone : w.writing = none := by
    by_contra hsome
    obtain ⟨q, hq⟩ := Option.ne_none_iff_exists'.1 hsome
    have hstep := hstuck (.applog_write i 0 false) rfl
    simp only [machine, step, applog_write, hw, Option.bind_some, hq, Option.map_some] at hstep
    cases hstep
  cases hup : w.ended with
  | true => exact ⟨hended hup, fun _ => rfl⟩
  | false =>
    have hstep := hstuck (.take i) rfl
    simp only [machine, step, take, hw, Option.bind_some, hup, hnone, Option.isSome_none, Bool.false_eq_true, or_self,
      if_false] at hstep
    split at hstep
    · split at hstep <;> cases hstep
    · rename_i hrx
      refine ⟨by rw [Writer.entries, hnone, hrx]; rfl, fun hgone => ?_⟩
      rw [if_pos hgone] at hstep
      cases hstep

/-- **The log is written out.** Without new entries the tasks come to a halt after
at most four steps for each entry that is on its way, and seventeen; when they can
make no step, every entry has been written or, if the runtime is gone, lost, and
then all the tasks have ended. -/
theorem log_drains (as bs : List Action) (s t : State) (h : machine.run start as = some s) (hown : ∀ b ∈ bs, b.own = true)
    (hrun : machine.run s bs = some t) :
    bs.length ≤ 4 * s.pending.length + 17 ∧
      ((∀ b : Action, b.own = true → machine.step t b = none) →
        (t.written ++ t.lost).Perm s.accepted ∧
          (t.alive = false → t.worker_ended = true ∧ ∀ w ∈ t.writers, w.ended = true)) := by
  have hinv := inv_run h
  obtain ⟨hle, haccepted⟩ := own_run hown hrun
  have hwork := work_le hinv.bounded.writers
  refine ⟨by omega, fun hstuck => ?_⟩
  obtain ⟨⟨front, hledger⟩, hbounded, -⟩ := machine.run_invariant inv_step hinv hrun
  have hwriters : ∀ w ∈ t.writers, w.entries = [] ∧ (t.worker_ended = true → w.ended = true) := by
    intro w hw
    obtain ⟨i, hlt, rfl⟩ := List.mem_iff_getElem.1 hw
    exact stuck_writer hstuck (List.getElem?_eq_getElem hlt) (hbounded.ended _ hw)
  -- the first writer is ready, so the worker holds no entry
  have hentry : t.entry = none := by
    by_contra hsome
    obtain ⟨q, hq⟩ := Option.ne_none_iff_exists'.1 hsome
    have hpos : 0 < t.writers.length := by
      rw [hbounded.writers]
      exact Nat.zero_lt_succ 15
    have hready : (t.writers[0]).ready = true := by
      have hnil := (hwriters _ (List.getElem_mem hpos)).1
      rw [Writer.entries, List.append_eq_nil_iff] at hnil
      rw [Writer.ready, hnil.2]
      exact Bool.or_true _
    have hstep := hstuck .send rfl
    have hfirst : t.writers.findIdx? Writer.ready = some 0 := by
      apply List.findIdx?_eq_some_iff_getElem.2
      exact ⟨hpos, hready, fun j hj => absurd hj (Nat.not_lt_zero j)⟩
    simp only [machine, step, send, hq, hfirst, List.getElem?_eq_getElem hpos, Option.map_some] at hstep
    split at hstep <;> cases hstep
  have hrecv := hstuck .recv rfl
  simp only [machine, step, recv, hentry, Option.isSome_none, Bool.false_eq_true, or_false] at hrecv
  have hpassed : t.passed = [] := List.flatMap_eq_nil_iff.2 fun w hw => (hwriters w hw).1
  have hlog : t.log = [] := by
    by_contra hsome
    obtain ⟨q, log, hq⟩ := List.exists_cons_of_ne_nil hsome
    have hup : t.worker_ended ≠ true := fun hgone => hsome (hbounded.worker_ended hgone)
    rw [if_neg hup, hq] at hrecv
    cases hrecv
  constructor
  · have hperm := hledger.passed
    rw [hpassed, List.append_nil] at hperm
    rw [← haccepted, hledger.accepted, hentry, hlog]
    exact hperm.trans (List.Perm.of_eq (List.append_nil front).symm)
  · intro hgone
    have hended : t.worker_ended = true := by
      by_contra hup
      rw [if_neg hup, hlog] at hrecv
      simp only [hgone, Bool.false_eq_true, if_false] at hrecv
      cases hrecv
    exact ⟨hended, fun w hw => (hwriters w hw).2 hended⟩

def write_out : List Action := [.applog_write 0 7 true, .recv, .send, .take 0, .applog_write 0 8 true]

theorem log_drains_of_two : ∃ s t, machine.run start two_entries = some s ∧ machine.run s write_out = some t ∧
    write_out.length ≤ 4 * s.pending.length + 17 :=
  ⟨_, _, rfl, rfl, (log_drains two_entries write_out _ _ rfl (by decide) rfl).1⟩

/-! ## One writer

As long as the first channel has room whenever the worker sends, the others are not used. -/

/-- A send goes to the first writer. -/
def to_first (s : State) : Action → Bool
  | .send => (s.writers.head?).any Writer.ready
  | _ => true

structure Ordered (s : State) (w : Writer) (rest : List Writer) : Prop where
  writers : s.writers = w :: rest
  unused : ∀ v ∈ rest, v.entries = []
  accepted : s.accepted = s.written ++ s.lost ++ (w.entries ++ (s.entry.toList ++ s.log))

/-- Only the first writer has an entry. -/
theorem Ordered.first {s : State} {w : Writer} {rest : List Writer} (h : Ordered s w rest) {i : ℕ} {v : Writer}
    (hv : s.writers[i]? = some v) (hne : v.entries ≠ []) : i = 0 ∧ v = w := by
  rw [h.writers] at hv
  cases i with
  | zero => exact ⟨rfl, (Option.some.inj hv).symm⟩
  | succ i => exact absurd (h.unused v (List.mem_of_getElem? hv)) hne

theorem Ordered.set_first {s : State} {w : Writer} {rest : List Writer} (h : Ordered s w rest) (v : Writer) :
    s.writers.set 0 v = v :: rest := by
  rw [h.writers]
  rfl

/-- The send goes there. -/
theorem Ordered.sent_to {s : State} {w v : Writer} {rest : List Writer} (h : Ordered s w rest) (hto : to_first s .send = true) {i : ℕ}
    (hfirst : s.writers.findIdx? Writer.ready = some i) (hv : s.writers[i]? = some v) : i = 0 ∧ v = w := by
  have hready : w.ready = true := by
    rw [to_first, h.writers, List.head?_cons, Option.any_some] at hto
    exact hto
  rw [h.writers, List.findIdx?_cons, hready] at hfirst
  obtain rfl := Option.some.inj hfirst
  rw [h.writers, List.getElem?_cons_zero] at hv
  exact ⟨rfl, (Option.some.inj hv).symm⟩

theorem ordered_step {s t : State} {a : Action} {w : Writer} {rest : List Writer} (hinv : Inv s) (hto : to_first s a = true)
    (he : Effect s a t) (h : Ordered s w rest) : ∃ w' rest', Ordered t w' rest' := by
  cases he with
  | accepted entry =>
    refine ⟨w, rest, h.writers, h.unused, ?_⟩
    simp only [h.accepted, List.append_assoc]
  | refused => exact ⟨w, rest, h⟩
  | released => exact ⟨w, rest, h.writers, h.unused, h.accepted⟩
  | received q log hidle hlog =>
    refine ⟨w, rest, h.writers, h.unused, ?_⟩
    rw [h.accepted, hidle, hlog]
    rfl
  | closed => exact ⟨w, rest, h.writers, h.unused, h.accepted⟩
  | sent q i v hheld hfirst hv hup hroom =>
    obtain ⟨rfl, rfl⟩ := h.sent_to hto hfirst hv
    refine ⟨_, rest, h.set_first _, h.unused, ?_⟩
    rw [h.accepted, hheld]
    simp only [Writer.entries, Option.toList_some, Option.toList_none, List.append_assoc, List.nil_append]
  | dropped q i v hheld hfirst hv hgone =>
    obtain ⟨rfl, rfl⟩ := h.sent_to hto hfirst hv
    have hnil := hinv.bounded.ended _ (List.mem_of_getElem? hv) hgone
    refine ⟨_, rest, h.writers, h.unused, ?_⟩
    rw [h.accepted, hheld, hnil]
    simp only [Option.toList_some, Option.toList_none, List.append_assoc, List.nil_append]
  | taken i q rx hv hup =>
    obtain ⟨rfl, rfl⟩ := h.first hv (by simp [Writer.entries])
    exact ⟨_, rest, h.set_first _, h.unused, h.accepted⟩
  | abandoned i q rx hv hgone =>
    obtain ⟨rfl, rfl⟩ := h.first hv (by simp [Writer.entries])
    refine ⟨_, rest, h.set_first _, h.unused, ?_⟩
    rw [h.accepted]
    simp only [Writer.entries, Option.toList_none, List.append_assoc, List.nil_append]
  | finished i hv hgone =>
    have hsame : ∀ v : Writer, v.entries = [] → ∃ w' rest', s.writers.set i v = w' :: rest' ∧
        (∀ x ∈ rest', x.entries = []) ∧ w'.entries = w.entries := by
      intro v hnil
      rw [h.writers] at hv ⊢
      cases i with
      | zero =>
        obtain rfl := Option.some.inj hv
        exact ⟨v, rest, rfl, h.unused, hnil⟩
      | succ i => exact ⟨w, rest.set i v, rfl, forall_set h.unused hnil, rfl⟩
    obtain ⟨w', rest', hwriters, hunused, hentries⟩ := hsame ⟨[], none, true⟩ rfl
    refine ⟨w', rest', hwriters, hunused, ?_⟩
    rw [hentries]
    exact h.accepted
  | inserted i v q subid stored hv hq =>
    obtain ⟨rfl, rfl⟩ := h.first hv (by simp [Writer.entries, hq])
    -- the writer has the runtime, so nothing has been lost
    have hlost : s.lost = [] := by
      by_contra hne
      have hgone := (not_alive_iff.1 (hinv.upheld.gone (Or.inr (Or.inr hne)))).2 _ (List.mem_of_getElem? hv)
      rw [hq] at hgone
      cases hgone
    refine ⟨_, rest, h.set_first _, h.unused, ?_⟩
    rw [h.accepted, hlost]
    simp only [Writer.entries, hq, Option.toList_some, Option.toList_none, List.append_assoc, List.nil_append,
      List.append_nil]

/-- **In order unless a channel overflows.** In a run in which the first channel
always has room when the worker sends, the inserts are made in the order in which
the entries were logged. -/
theorem log_in_order (as : List Action) (s : State) (h : machine.run start as = some s)
    (hto : machine.Meets (fun s a => to_first s a = true) start as) : s.written <+: s.accepted := by
  have hstart : Inv start ∧ ∃ w rest, Ordered start w rest := by
    refine ⟨inv_start, idle, List.replicate 15 idle, rfl, ?_, rfl⟩
    intro v hv
    rw [List.eq_of_mem_replicate hv]
    rfl
  have hrun : Inv s ∧ ∃ w rest, Ordered s w rest := by
    apply machine.run_invariant_of_meets _ hstart hto h
    rintro s a t ⟨hinv, w, rest, hordered⟩ ha hs
    exact ⟨inv_step s a t hinv hs, ordered_step hinv ha (step_effect hs) hordered⟩
  obtain ⟨-, w, rest, hordered⟩ := hrun
  rw [hordered.accepted, List.append_assoc]
  exact List.prefix_append _ _

theorem log_in_order_of_two : ∃ s, machine.run start (two_entries ++ write_out) = some s ∧ s.written <+: s.accepted :=
  ⟨_, rfl, log_in_order (two_entries ++ write_out) _ rfl (machine.meets_of_check (c := to_first) (by decide +kernel))⟩

end AppLog

end RustyWorkers

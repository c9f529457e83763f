/-
Programs that read from buffers which others may write.

A `Reading` is a program that asks for whole buffers, one after another: what it
asks for next, and whether it asks at all, may depend on what it has read. A
buffer that is longer than the program allows is not read. `run` reads buffers
that stand still. A `Reader` is a program in the middle of its reads: it copies
cell by cell from a memory that may have changed between any two of them, and
`unread` are the cells that it has still to copy.

When every cell, as it is copied, is what it was, a reader ends as `run` does on the
buffers as they were (`Reader.Ok`, `Reader.step_ok`); so it does as long as no unread
cell changes (`Reader.Intact.faithful`). Nothing in this file is about one particular
program.
-/
import Mathlib

set_option autoImplicit false

namespace RustyWorkers.Lib

/-- A program that reads buffers. It is told whether there is an `i`-th buffer,
and gets the content of a buffer of at most `max` cells. -/
inductive Reading (β α : Type*) where
  | done (a : α)
  | read (i max : ℕ) (next : Option (Option (List β)) → Reading β α)

namespace Reading

variable {β α γ : Type*}

/-- The content of a buffer that is not too long. -/
def fits (max : ℕ) (b : List β) : Option (List β) := if b.length ≤ max then some b else none

/-- The result on buffers that stand still. -/
def run (buffers : List (List β)) : Reading β α → α
  | .done a => a
  | .read i max next => run buffers (next (buffers[i]?.map (fits max)))

def map (f : α → γ) : Reading β α → Reading β γ
  | .done a => .done (f a)
  | .read i max next => .read i max fun b => map f (next b)

theorem run_map (f : α → γ) (buffers : List (List β)) (prog : Reading β α) :
    (prog.map f).run buffers = f (prog.run buffers) := by
  induction prog with
  | done a => rfl
  | read i max next ih => exact ih _

/-- The cells of the next buffer that are left when `skip` of them are copied. -/
def cells (buffers : List (List β)) (i max skip : ℕ) : List (ℕ × ℕ) :=
  match buffers[i]? with
  | some b => if b.length ≤ max then ((List.range b.length).drop skip).map fun j => (i, j) else []
  | none => []

/-- The cells that the program has still to copy, after `skip` of the next
buffer. -/
def unread (buffers : List (List β)) : Reading β α → ℕ → List (ℕ × ℕ)
  | .done _, _ => []
  | .read i max next, skip =>
    cells buffers i max skip ++ unread buffers (next (buffers[i]?.map (fits max))) 0

variable {buffers : List (List β)} {i max skip : ℕ}

theorem mem_cells {p : ℕ × ℕ} :
    p ∈ cells buffers i max skip
      ↔ ∃ b, buffers[i]? = some b ∧ b.length ≤ max ∧ p.1 = i ∧ skip ≤ p.2 ∧ p.2 < b.length := by
  unfold cells
  obtain ⟨a, j⟩ := p
  split
  · rename_i b hb
    split
    · rename_i hle
      constructor
      · intro hp
        obtain ⟨j', hj', heq⟩ := List.mem_map.1 hp
        obtain ⟨rfl, rfl⟩ := Prod.mk.inj heq
        obtain ⟨n, hn, hget⟩ := List.mem_iff_getElem.1 hj'
        simp only [List.getElem_drop, List.getElem_range, List.length_drop, List.length_range] at hn hget
        exact ⟨b, hb, hle, rfl, by omega, by omega⟩
      · rintro ⟨b', hb', -, rfl, hskip, hlt⟩
        obtain rfl := Option.some.inj (hb.symm.trans hb')
        refine List.mem_map.2 ⟨j, List.mem_iff_getElem.2 ⟨j - skip, ?_, ?_⟩, rfl⟩
        · rw [List.length_drop, List.length_range]
          dsimp only at hlt hskip
          omega
        · rw [List.getElem_drop, List.getElem_range]
          exact Nat.add_sub_cancel' hskip
    · rename_i hlong
      refine ⟨(fun hp => nomatch hp), ?_⟩
      rintro ⟨b', hb', hle, -⟩
      obtain rfl := Option.some.inj (hb.symm.trans hb')
      exact absurd hle hlong
  · rename_i hnone
    refine ⟨(fun hp => nomatch hp), ?_⟩
    rintro ⟨b', hb', -⟩
    rw [hnone] at hb'
    cases hb'

/-- What is to be copied is there. -/
theorem mem_unread {prog : Reading β α} {p : ℕ × ℕ} (hp : p ∈ prog.unread buffers skip) :
    ∃ b, buffers[p.1]? = some b ∧ p.2 < b.length := by
  induction prog generalizing skip with
  | done a => cases hp
  | read i max next ih =>
      rcases List.mem_append.1 hp with hp | hp
      · obtain ⟨b, hb, -, rfl, -, hlt⟩ := mem_cells.1 hp
        exact ⟨b, hb, hlt⟩
      · exact ih _ hp

end Reading

/-- A program in the middle of its reads, with the cells of the next buffer that
it has copied. -/
structure Reader (β α : Type*) where
  prog : Reading β α
  copied : List β

namespace Reader

variable {β α : Type*}

/-- One cell is copied, or the next buffer is there, or is not to be read.
`lengths` are those of the buffers, and `cell` is what the memory has now. -/
def step (lengths : List ℕ) (cell : ℕ → ℕ → β) (r : Reader β α) : Option (Reader β α) :=
  match r.prog with
  | .done _ => none
  | .read i max next =>
    match lengths[i]? with
    | none => some ⟨next none, []⟩
    | some n =>
      if n ≤ max then
        if r.copied.length < n then some { r with copied := r.copied ++ [cell i r.copied.length] }
        else some ⟨next (some (some r.copied)), []⟩
      else some ⟨next (some none), []⟩

/-- The cell that the next step copies, if it copies one. -/
def next_cell (lengths : List ℕ) (r : Reader β α) : Option (ℕ × ℕ) :=
  match r.prog with
  | .done _ => none
  | .read i max _ =>
    (lengths[i]?.filter fun n => decide (n ≤ max ∧ r.copied.length < n)).map fun _ => (i, r.copied.length)

/-- The cells that are still to be copied. -/
def unread (buffers : List (List β)) (r : Reader β α) : List (ℕ × ℕ) := r.prog.unread buffers r.copied.length

/-- What is copied of the next buffer is the beginning of it. -/
def Copied (buffers : List (List β)) (r : Reader β α) : Prop :=
  match r.prog with
  | .done _ => True
  | .read i _ _ => ∀ b, buffers[i]? = some b → r.copied <+: b

/-- The reader is on its way to `result`, as it was when the buffers were these. -/
structure Ok (buffers : List (List β)) (result : α) (r : Reader β α) : Prop where
  result : r.prog.run buffers = result
  copied : r.Copied buffers

/-- The memory has the cell that is copied next as it was. -/
def Faithful (buffers : List (List β)) (cell : ℕ → ℕ → β) (r : Reader β α) : Prop :=
  ∀ p ∈ r.next_cell (buffers.map List.length), buffers[p.1]?.bind (·[p.2]?) = some (cell p.1 p.2)

/-- The memory has the unread cells as they were. -/
def Intact (buffers : List (List β)) (cell : ℕ → ℕ → β) (r : Reader β α) : Prop :=
  ∀ p ∈ r.unread buffers, buffers[p.1]?.bind (·[p.2]?) = some (cell p.1 p.2)

variable {buffers : List (List β)} {cell : ℕ → ℕ → β} {result : α} {r r' : Reader β α}

theorem ok_start (prog : Reading β α) : Ok buffers (prog.run buffers) ⟨prog, []⟩ := by
  refine ⟨rfl, ?_⟩
  unfold Copied
  split
  · trivial
  · exact fun b _ => List.nil_prefix

/-- The next buffer is done with, one way or the other. -/
theorem Ok.next {i max : ℕ} {next : Option (Option (List β)) → Reading β α} {copied : List β}
    (h : Ok buffers result ⟨.read i max next, copied⟩) {b : Option (Option (List β))}
    (hb : buffers[i]?.map (Reading.fits max) = b) :
    Ok buffers result ⟨next b, []⟩
    ∧ ∀ p ∈ unread buffers ⟨next b, []⟩, p ∈ unread buffers ⟨.read i max next, copied⟩ := by
  subst hb
  obtain ⟨hresult, -⟩ := h
  have hstart : Ok buffers _ ⟨next (buffers[i]?.map (Reading.fits max)), []⟩ := ok_start _
  refine ⟨?_, fun p hp => List.mem_append_right _ hp⟩
  rw [← hresult]
  exact hstart

/-- The cell that is copied next. -/
theorem next_cell_iff {i max : ℕ} {next : Option (Option (List β)) → Reading β α} {copied : List β} {p : ℕ × ℕ} :
    p ∈ next_cell (buffers.map List.length) ⟨.read i max next, copied⟩
      ↔ ∃ b, buffers[i]? = some b ∧ b.length ≤ max ∧ copied.length < b.length ∧ (i, copied.length) = p := by
  simp only [next_cell, Option.mem_def, Option.map_eq_some_iff, Option.filter_eq_some_iff, List.getElem?_map,
    decide_eq_true_eq]
  constructor
  · rintro ⟨n, ⟨⟨b, hb, rfl⟩, hle, hlt⟩, hp⟩
    exact ⟨b, hb, hle, hlt, hp⟩
  · rintro ⟨b, hb, hle, hlt, hp⟩
    exact ⟨b.length, ⟨⟨b, hb, rfl⟩, hle, hlt⟩, hp⟩

/-- It is one of the unread ones. -/
theorem Intact.faithful (h : Intact buffers cell r) : Faithful buffers cell r := by
  intro p hp
  apply h
  obtain ⟨prog, copied⟩ := r
  cases prog with
  | done a => cases hp
  | read i max next =>
      obtain ⟨b, hb, hle, hlt, rfl⟩ := next_cell_iff.1 hp
      exact List.mem_append_left _ (Reading.mem_cells.2 ⟨b, hb, hle, rfl, le_rfl, hlt⟩)

/-- **The step lemma.** A step that copies no cell, or one that is what it was, stays
on its way, and has no new cells to copy. -/
theorem step_ok (h : Ok buffers result r) (hfaithful : Faithful buffers cell r)
    (hs : step (buffers.map List.length) cell r = some r') :
    Ok buffers result r' ∧ ∀ p ∈ r'.unread buffers, p ∈ r.unread buffers := by
  obtain ⟨prog, copied⟩ := r
  cases prog with
  | done a => cases hs
  | read i max next =>
      simp only [step, List.getElem?_map] at hs
      cases hb : buffers[i]? with
      | none =>
          rw [hb] at hs
          obtain rfl := Option.some.inj hs
          exact h.next (by rw [hb]; rfl)
      | some b =>
          rw [hb] at hs
          have hprefix : copied <+: b := h.copied b hb
          simp only [Option.map_some] at hs
          split at hs
          · rename_i hle
            split at hs
            · -- the cell that is copied continues the beginning of the buffer
              rename_i hlt
              obtain rfl := Option.some.inj hs
              have hcell := hfaithful _ (next_cell_iff.2 ⟨b, hb, hle, hlt, rfl⟩)
              rw [hb, Option.bind_some] at hcell
              refine ⟨⟨h.result, fun b' hb' => ?_⟩, fun p hp => ?_⟩
              · obtain rfl := Option.some.inj (hb.symm.trans hb')
                obtain ⟨rest, rfl⟩ := hprefix
                rw [List.getElem?_append_right le_rfl, Nat.sub_self] at hcell
                obtain ⟨rest', rfl⟩ := List.head?_eq_some_iff.1 ((List.head?_eq_getElem? ..).trans hcell)
                exact ⟨rest', by rw [List.append_assoc]; rfl⟩
              · rcases List.mem_append.1 hp with hp | hp
                · obtain ⟨b', hb', hle', hi, hskip, hlt'⟩ := Reading.mem_cells.1 hp
                  rw [List.length_append, List.length_singleton] at hskip
                  exact List.mem_append_left _
                    (Reading.mem_cells.2 ⟨b', hb', hle', hi, Nat.le_of_succ_le hskip, hlt'⟩)
                · exact List.mem_append_right _ hp
            · -- the buffer is copied
              rename_i hge
              obtain rfl := Option.some.inj hs
              obtain rfl : copied = b := hprefix.eq_of_length_le (by omega)
              exact h.next (by rw [hb, Option.map_some, Reading.fits, if_pos hle])
          · rename_i hlong
            obtain rfl := Option.some.inj hs
            exact h.next (by rw [hb, Option.map_some, Reading.fits, if_neg hlong])

end Reader

end RustyWorkers.Lib

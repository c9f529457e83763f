/-
Machines whose actions resolve every choice, and the two induction rules that
the concurrent parts of this development rest on.

A `Machine` has one partial step function: the action says which party moves
and which way every race, lock hand-over and answer from outside goes, so a run
is a list of actions and "every interleaving" is "every list". A step that is
not enabled is `none`.

Two invariant rules are proved once. `run_invariant_of_meets` carries an invariant along
a run whose steps all meet a condition; with the condition `True` it is the
usual invariant rule `run_invariant`. `always_iff_meets_of` is the exact form: when
the invariant gives the property, a step meeting the condition keeps the
invariant, and a step breaking the condition breaks the property at once, then
a run has the property in all its states *iff* all its steps meet the
condition. Machines that share nothing are put side by side by `family`, and
`family_run` gives back the run of each. Nothing in this file is about one
particular program.
-/
import Mathlib

set_option autoImplicit false

namespace RustyWorkers.Lib

/-- A transition system with a partial step function. -/
structure Machine (S A : Type*) where
  step : S → A → Option S

namespace Machine

variable {S A : Type*} (m : Machine S A)

/-- The state that a list of actions leads to, `none` if one is not enabled. -/
def run : S → List A → Option S
  | s, [] => some s
  | s, a :: as => (m.step s a).bind fun s' => run s' as

/-- `P` holds in every state that the run passes through. -/
def Always (P : S → Prop) : S → List A → Prop
  | s, [] => P s
  | s, a :: as => P s ∧ ∀ s', m.step s a = some s' → Always P s' as

/-- Every step of the run meets `C` in the state it is taken in. -/
def Meets (C : S → A → Prop) : S → List A → Prop
  | _, [] => True
  | s, a :: as => ∀ s', m.step s a = some s' → C s a ∧ Meets C s' as

/-- An action that `ok` allows in `s` leads from `s` to `t`. -/
def Next (ok : S → A → Prop) (s t : S) : Prop := ∃ a, ok s a ∧ m.step s a = some t

/-- Allowed actions lead from `s` to `t`, in any number of steps. -/
def Reach (ok : S → A → Prop) : S → S → Prop := Relation.ReflTransGen (m.Next ok)

/-! ## Runs -/

@[simp] theorem run_nil (s : S) : m.run s [] = some s := rfl

@[simp] theorem run_cons (s : S) (a : A) (as : List A) :
    m.run s (a :: as) = (m.step s a).bind fun s' => m.run s' as := rfl

theorem run_append (s : S) (as bs : List A) :
    m.run s (as ++ bs) = (m.run s as).bind fun t => m.run t bs := by
  induction as generalizing s with
  | nil => rfl
  | cons a as ih =>
      simp only [List.cons_append, run_cons, Option.bind_assoc]
      congr 1
      funext s'
      exact ih s'

/-- The first step of a run, and the rest of it. -/
theorem run_cons_eq_some {s t : S} {a : A} {as : List A} :
    m.run s (a :: as) = some t ↔ ∃ s', m.step s a = some s' ∧ m.run s' as = some t := by
  rw [run_cons, Option.bind_eq_some_iff]

theorem run_append_eq_some {s t : S} {as bs : List A} :
    m.run s (as ++ bs) = some t ↔ ∃ u, m.run s as = some u ∧ m.run u bs = some t := by
  rw [run_append, Option.bind_eq_some_iff]

/-! ## The invariant rules -/

/-- An invariant that every step meeting `C` keeps holds after every run whose
steps all meet `C`. -/
theorem run_invariant_of_meets {I : S → Prop} {C : S → A → Prop}
    (hkeep : ∀ s a s', I s → C s a → m.step s a = some s' → I s')
    {as : List A} {s t : S} (h0 : I s) (hm : m.Meets C s as) (h : m.run s as = some t) :
    I t := by
  induction as generalizing s with
  | nil =>
      simp only [run_nil, Option.some.injEq] at h
      exact h ▸ h0
  | cons a as ih =>
      obtain ⟨s', hs, hr⟩ := m.run_cons_eq_some.1 h
      obtain ⟨hc, hm'⟩ := hm s' hs
      exact ih (hkeep s a s' h0 hc hs) hm' hr

theorem meets_true (s : S) (as : List A) : m.Meets (fun _ _ => True) s as := by
  induction as generalizing s with
  | nil => trivial
  | cons a as ih => exact fun s' _ => ⟨trivial, ih s'⟩

/-- A condition that is on the actions alone can be read off the list. -/
theorem meets_of_forall {C : A → Prop} {as : List A} (h : ∀ a ∈ as, C a) (s : S) :
    m.Meets (fun _ a => C a) s as := by
  induction as generalizing s with
  | nil => trivial
  | cons a as ih =>
      exact fun s' _ => ⟨h a List.mem_cons_self, ih (fun b hb => h b (List.mem_cons_of_mem _ hb)) s'⟩

/-- Whether every step of the run meets a condition that computes. -/
def check (c : S → A → Bool) : S → List A → Bool
  | _, [] => true
  | s, a :: as =>
    match m.step s a with
    | some s' => c s a && check c s' as
    | none => true

theorem meets_of_check {c : S → A → Bool} {as : List A} {s : S} (h : m.check c s as = true) :
    m.Meets (fun s a => c s a = true) s as := by
  induction as generalizing s with
  | nil => trivial
  | cons a as ih =>
      intro s' hs
      rw [check, hs, Bool.and_eq_true] at h
      exact ⟨h.1, ih h.2⟩

/-- An invariant that every step keeps holds after every run. -/
theorem run_invariant {I : S → Prop} (hkeep : ∀ s a s', I s → m.step s a = some s' → I s')
    {as : List A} {s t : S} (h0 : I s) (h : m.run s as = some t) : I t :=
  m.run_invariant_of_meets (fun s a s' hi _ hs => hkeep s a s' hi hs) h0 (m.meets_true s as) h

/-- A run with a part that one action begins and another one ends: what holds
before, in between and after. -/
theorem run_phases {I J K : S → Prop} {C D : A → Prop} {b e : A}
    (hbefore : ∀ s a s', I s → C a → m.step s a = some s' → I s')
    (hbegin : ∀ s s', I s → m.step s b = some s' → J s')
    (hduring : ∀ s a s', J s → D a → m.step s a = some s' → J s')
    (hend : ∀ s s', J s → m.step s e = some s' → K s')
    (hafter : ∀ s a s', K s → C a → m.step s a = some s' → K s') {as bs cs : List A}
    (has : ∀ a ∈ as, C a) (hbs : ∀ a ∈ bs, D a) (hcs : ∀ a ∈ cs, C a) {s t : S} (h0 : I s)
    (h : m.run s (as ++ b :: (bs ++ e :: cs)) = some t) : K t := by
  obtain ⟨u, hu, h⟩ := m.run_append_eq_some.1 h
  obtain ⟨v, hv, h⟩ := m.run_cons_eq_some.1 h
  obtain ⟨w, hw, h⟩ := m.run_append_eq_some.1 h
  obtain ⟨x, hx, h⟩ := m.run_cons_eq_some.1 h
  have hI : I u := m.run_invariant_of_meets hbefore h0 (m.meets_of_forall has s) hu
  have hJ : J w := m.run_invariant_of_meets hduring (hbegin u v hI hv) (m.meets_of_forall hbs v) hw
  exact m.run_invariant_of_meets hafter (hend w x hJ hx) (m.meets_of_forall hcs x) h

theorem reach_step {ok : S → A → Prop} {s t u : S} {a : A} (hok : ok s a) (hs : m.step s a = some t)
    (h : m.Reach ok t u) : m.Reach ok s u := Relation.ReflTransGen.head ⟨a, hok, hs⟩ h

/-- A path keeps an invariant that every allowed step keeps. -/
theorem reach_invariant {I : S → Prop} {ok : S → A → Prop}
    (hkeep : ∀ s a s', I s → ok s a → m.step s a = some s' → I s') {s t : S} (h0 : I s)
    (h : m.Reach ok s t) : I t := by
  induction h with
  | refl => exact h0
  | tail _ hstep ih =>
      obtain ⟨a, hok, hs⟩ := hstep
      exact hkeep _ a _ ih hok hs

/-- A run whose steps all meet `C` has `P` in all its states. -/
theorem always_of_meets {I P : S → Prop} {C : S → A → Prop} (hP : ∀ s, I s → P s)
    (hkeep : ∀ s a s', I s → C s a → m.step s a = some s' → I s')
    {as : List A} {s : S} (h0 : I s) (hm : m.Meets C s as) : m.Always P s as := by
  induction as generalizing s with
  | nil => exact hP s h0
  | cons a as ih =>
      refine ⟨hP s h0, fun s' hs => ?_⟩
      obtain ⟨hc, hm'⟩ := hm s' hs
      exact ih (hkeep s a s' h0 hc hs) hm'

/-- In a run whose steps all meet `C` they all meet what `C` and an invariant
that it keeps give. -/
theorem meets_of_meets {I : S → Prop} {C D : S → A → Prop}
    (hkeep : ∀ s a s', I s → C s a → m.step s a = some s' → I s')
    (hgives : ∀ s a s', I s → C s a → m.step s a = some s' → D s a)
    {as : List A} {s : S} (h0 : I s) (hm : m.Meets C s as) : m.Meets D s as := by
  induction as generalizing s with
  | nil => trivial
  | cons a as ih =>
      intro s' hs
      obtain ⟨hc, hm'⟩ := hm s' hs
      exact ⟨hgives s a s' h0 hc hs, ih (hkeep s a s' h0 hc hs) hm'⟩

/-- The step after a part of the run meets the condition too. -/
theorem meets_at {C : S → A → Prop} {s t t' : S} {as : List A} {a : A} (h : m.Meets C s (as ++ [a]))
    (hrun : m.run s as = some t) (hs : m.step t a = some t') : C t a := by
  induction as generalizing s with
  | nil =>
      obtain rfl := Option.some.inj hrun
      exact (h t' hs).1
  | cons b as ih =>
      obtain ⟨s', hs', hrest⟩ := m.run_cons_eq_some.1 hrun
      exact ih (h s' hs').2 hrest

theorem Always.head {P : S → Prop} {s : S} {as : List A} (h : m.Always P s as) : P s := by
  cases as with
  | nil => exact h
  | cons a as => exact h.1

theorem always_run {P : S → Prop} {s t : S} {as : List A} (h : m.Always P s as) (hrun : m.run s as = some t) : P t := by
  induction as generalizing s with
  | nil => exact Option.some.inj hrun ▸ h
  | cons a as ih =>
      obtain ⟨s', hs, hrest⟩ := m.run_cons_eq_some.1 hrun
      exact ih (h.2 s' hs) hrest

/-- **The exact rule.** In a run whose steps all meet `H`: when a step that breaks
`C` breaks `P` at once, the run has `P` in all its states iff all its steps meet
`C`. -/
theorem always_iff_meets_of {I P : S → Prop} {H C : S → A → Prop} (hP : ∀ s, I s → P s)
    (hkeep : ∀ s a s', I s → H s a → C s a → m.step s a = some s' → I s')
    (hbreak : ∀ s a s', I s → H s a → ¬ C s a → m.step s a = some s' → ¬ P s')
    {as : List A} {s : S} (h0 : I s) (hH : m.Meets H s as) : m.Always P s as ↔ m.Meets C s as := by
  induction as generalizing s with
  | nil => exact ⟨fun _ => trivial, fun _ => hP s h0⟩
  | cons a as ih =>
      constructor
      · intro hall s' hs
        obtain ⟨ha, hH'⟩ := hH s' hs
        have hrest := hall.2 s' hs
        have hc : C s a := by
          by_contra hc
          exact hbreak s a s' h0 ha hc hs hrest.head
        exact ⟨hc, (ih (hkeep s a s' h0 ha hc hs) hH').1 hrest⟩
      · intro hm
        refine ⟨hP s h0, fun s' hs => ?_⟩
        obtain ⟨ha, hH'⟩ := hH s' hs
        obtain ⟨hc, hm'⟩ := hm s' hs
        exact (ih (hkeep s a s' h0 ha hc hs) hH').2 hm'

theorem always_iff_meets {I P : S → Prop} {C : S → A → Prop} (hP : ∀ s, I s → P s)
    (hkeep : ∀ s a s', I s → C s a → m.step s a = some s' → I s')
    (hbreak : ∀ s a s', I s → ¬ C s a → m.step s a = some s' → ¬ P s')
    {as : List A} {s : S} (h0 : I s) : m.Always P s as ↔ m.Meets C s as :=
  m.always_iff_meets_of hP (fun s a s' hi _ => hkeep s a s' hi) (fun s a s' hi _ => hbreak s a s' hi) h0
    (m.meets_true s as)

/-! ## Families -/

section Families

variable {ι : Type*} [DecidableEq ι]

/-- Machines of one kind side by side; an action is one member's. -/
def family (ι : Type*) [DecidableEq ι] (m : Machine S A) : Machine (ι → S) (ι × A) where
  step f a := (m.step (f a.1) a.2).map fun s' => Function.update f a.1 s'

/-- A member of a family runs by itself, on the actions that are its own. -/
theorem family_run {f g : ι → S} {as : List (ι × A)} (h : (m.family ι).run f as = some g) (i : ι) :
    m.run (f i) ((as.filter fun a => a.1 = i).map Prod.snd) = some (g i) := by
  induction as generalizing f with
  | nil =>
      obtain rfl : f = g := Option.some.inj h
      rfl
  | cons a as ih =>
      obtain ⟨j, a⟩ := a
      obtain ⟨f', hstep, hrun⟩ := (m.family ι).run_cons_eq_some.1 h
      obtain ⟨s', hs, rfl⟩ := Option.map_eq_some_iff.1 hstep
      have hrest := ih hrun
      by_cases hj : j = i
      · subst hj
        rw [Function.update_self] at hrest
        rw [List.filter_cons_of_pos (by simp), List.map_cons, run_cons, hs]
        exact hrest
      · rw [Function.update_of_ne (Ne.symm hj)] at hrest
        rw [List.filter_cons_of_neg (by simpa using hj)]
        exact hrest

end Families

end Machine

end RustyWorkers.Lib

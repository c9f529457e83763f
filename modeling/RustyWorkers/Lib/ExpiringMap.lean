/-
Maps whose entries may carry an expiry.

An entry with expiry `x` is there before `x` and is no entry from `x` on; an
entry without one is there for good. `purge now` removes what is no entry at
`now`. Two maps are `EqFrom now` when they show the same entries at every time
from `now` on, and the operations below respect that relation: whoever reads
with a clock that does not go back cannot tell an expired entry from an absent
one. Times are any linear order.
-/
import Mathlib

set_option autoImplicit false

namespace RustyWorkers.Lib

/-- A map from keys to a value and an optional expiry. -/
def ExpiringMap (K V T : Type*) := K → Option (V × Option T)

namespace ExpiringMap

variable {K V T : Type*} [LinearOrder T]

/-- The entry is still there at `now`. -/
def fresh (now : T) (e : V × Option T) : Bool := e.2.all fun x => decide (now < x)

/-- The entries that are still there at `now`. -/
def purge (now : T) (m : ExpiringMap K V T) : ExpiringMap K V T := fun k => (m k).filter (fresh now)

/-- The value that a reader at `now` finds. -/
def get (m : ExpiringMap K V T) (now : T) (k : K) : Option V := (m.purge now k).map Prod.fst

/-- The keys that a reader at `now` finds. -/
def dom (m : ExpiringMap K V T) (now : T) : Set K := {k | (m.get now k).isSome = true}

/-- All the given pairs are found at `now`. -/
def holds_all (m : ExpiringMap K V T) (now : T) (kvs : List (K × V)) : Prop :=
  ∀ kv ∈ kvs, m.get now kv.1 = some kv.2

section Updates

variable [DecidableEq K]

/-- The map with entry `e` (`none` for no entry) at `k`. -/
def update (m : ExpiringMap K V T) (k : K) (e : Option (V × Option T)) : ExpiringMap K V T :=
  fun k' => if k' = k then e else m k'

def set (m : ExpiringMap K V T) (k : K) (v : V) (expiry : Option T) : ExpiringMap K V T :=
  m.update k (some (v, expiry))

def erase (m : ExpiringMap K V T) (k : K) : ExpiringMap K V T := m.update k none

/-- Set the pairs one after the other, so that a later pair of the same key wins. -/
def set_all (m : ExpiringMap K V T) (kvs : List (K × V)) (expiry : Option T) : ExpiringMap K V T :=
  kvs.foldl (fun m kv => m.set kv.1 kv.2 expiry) m

end Updates

/-- The two maps show the same entries at every time from `now` on. -/
def EqFrom (now : T) (m m' : ExpiringMap K V T) : Prop := ∀ t, now ≤ t → m.purge t = m'.purge t

/-! ## Purging -/

theorem fresh_of_le {s t : T} (h : s ≤ t) {e : V × Option T} (he : fresh t e = true) :
    fresh s e = true := by
  unfold fresh at he ⊢
  rw [Option.all_eq_true] at he ⊢
  exact fun x hx => decide_eq_true (h.trans_lt (of_decide_eq_true (he x hx)))

/-- Purging early does not change what is there later. -/
theorem purge_purge {s t : T} (h : s ≤ t) (m : ExpiringMap K V T) :
    (m.purge s).purge t = m.purge t := by
  funext k
  unfold purge
  cases m k with
  | none => rfl
  | some e =>
      cases ht : fresh t e with
      | true => simp [Option.filter_some, ht, fresh_of_le h ht]
      | false => cases hs : fresh s e <;> simp [Option.filter_some, ht, hs]

theorem eqFrom_of_purge_eq {now : T} {m m' : ExpiringMap K V T} (h : m.purge now = m'.purge now) :
    EqFrom now m m' := by
  intro t ht
  rw [← purge_purge ht m, h, purge_purge ht m']

theorem eqFrom_purge (now : T) (m : ExpiringMap K V T) : EqFrom now (m.purge now) m :=
  fun _ ht => purge_purge ht m

namespace EqFrom

variable {now : T} {m m' m'' : ExpiringMap K V T}

theorem refl (now : T) (m : ExpiringMap K V T) : EqFrom now m m := fun _ _ => rfl

theorem symm (h : EqFrom now m m') : EqFrom now m' m := fun t ht => (h t ht).symm

theorem trans (h : EqFrom now m m') (h' : EqFrom now m' m'') : EqFrom now m m'' :=
  fun t ht => (h t ht).trans (h' t ht)

/-- Once the same, the same for good. -/
theorem later (h : EqFrom now m m') {t : T} (ht : now ≤ t) : EqFrom t m m' :=
  fun u hu => h u (ht.trans hu)

theorem get (h : EqFrom now m m') {t : T} (ht : now ≤ t) (k : K) : m.get t k = m'.get t k := by
  unfold ExpiringMap.get
  rw [h t ht]

theorem dom (h : EqFrom now m m') {t : T} (ht : now ≤ t) : m.dom t = m'.dom t := by
  unfold ExpiringMap.dom
  simp only [h.get ht]

theorem holds_all (h : EqFrom now m m') {t : T} (ht : now ≤ t) (kvs : List (K × V)) :
    m.holds_all t kvs ↔ m'.holds_all t kvs := by
  unfold ExpiringMap.holds_all
  simp only [h.get ht]

variable [DecidableEq K]

/-- Updating one key the same way keeps the maps the same. -/
theorem update (h : EqFrom now m m') (k : K) (e : Option (V × Option T)) :
    EqFrom now (m.update k e) (m'.update k e) := by
  intro t ht
  funext k'
  have hk' : (m k').filter (fresh t) = (m' k').filter (fresh t) := congrFun (h t ht) k'
  by_cases hk : k' = k
  · simp only [purge, ExpiringMap.update, if_pos hk]
  · simp only [purge, ExpiringMap.update, if_neg hk, hk']

theorem set (h : EqFrom now m m') (k : K) (v : V) (expiry : Option T) :
    EqFrom now (m.set k v expiry) (m'.set k v expiry) := h.update k _

theorem erase (h : EqFrom now m m') (k : K) : EqFrom now (m.erase k) (m'.erase k) := h.update k _

theorem set_all (h : EqFrom now m m') (kvs : List (K × V)) (expiry : Option T) :
    EqFrom now (m.set_all kvs expiry) (m'.set_all kvs expiry) := by
  induction kvs generalizing m m' with
  | nil => exact h
  | cons kv kvs ih => exact ih (h.set kv.1 kv.2 expiry)

end EqFrom

/-! ## Entries of one kind -/

/-- Every entry is of the kind `P`. -/
def Entries (P : K → V → Prop) (m : ExpiringMap K V T) : Prop := ∀ k e, m k = some e → P k e.1

section Entries

variable [DecidableEq K] {P : K → V → Prop} {m : ExpiringMap K V T}

omit [LinearOrder T] in
theorem Entries.set (hm : m.Entries P) {k : K} {v : V} (hv : P k v) (expiry : Option T) :
    (m.set k v expiry).Entries P := by
  intro k' e he
  unfold ExpiringMap.set ExpiringMap.update at he
  split at he
  · rename_i hk
    cases he
    exact hk ▸ hv
  · exact hm k' e he

omit [LinearOrder T] in
theorem Entries.erase (hm : m.Entries P) (k : K) : (m.erase k).Entries P := by
  intro k' e he
  unfold ExpiringMap.erase ExpiringMap.update at he
  split at he
  · cases he
  · exact hm k' e he

omit [LinearOrder T] in
theorem Entries.set_all (hm : m.Entries P) {kvs : List (K × V)} (hkvs : ∀ kv ∈ kvs, P kv.1 kv.2)
    (expiry : Option T) : (m.set_all kvs expiry).Entries P := by
  induction kvs generalizing m with
  | nil => exact hm
  | cons kv kvs ih =>
      obtain ⟨hkv, hrest⟩ := List.forall_mem_cons.1 hkvs
      exact ih (hm.set hkv expiry) hrest

end Entries

/-! ## Reading through an encoding -/

variable {K' V' : Type*}

/-- The map that is seen by someone who encodes the keys with `f` and decodes
the values with `g`. -/
def through (f : K' → K) (g : V → V') (m : ExpiringMap K V T) : ExpiringMap K' V' T :=
  fun k => (m (f k)).map fun e => (g e.1, e.2)

section Through

variable {f : K' → K} {g : V → V'} (m : ExpiringMap K V T)

theorem purge_through (now : T) : (m.through f g).purge now = (m.purge now).through f g := by
  funext k
  change ((m (f k)).map fun e => (g e.1, e.2)).filter (fresh now)
    = ((m (f k)).filter (fresh now)).map fun e => (g e.1, e.2)
  rw [Option.filter_map]
  rfl

theorem get_through (now : T) (k : K') : (m.through f g).get now k = (m.get now (f k)).map g := by
  unfold get
  rw [purge_through]
  unfold through
  cases m.purge now (f k) <;> rfl

theorem mem_dom_through (now : T) (k : K') : k ∈ (m.through f g).dom now ↔ f k ∈ m.dom now := by
  unfold dom
  rw [Set.mem_ofPred_eq, Set.mem_ofPred_eq, get_through, Option.isSome_map]

/-- Values are compared as well before as after they are decoded, if `g` tells
them apart from the entries. -/
theorem holds_all_through (now : T) {kvs : List (K' × V)}
    (hg : ∀ kv ∈ kvs, ∀ e, m (f kv.1) = some e → g e.1 = g kv.2 → e.1 = kv.2) :
    (m.through f g).holds_all now (kvs.map fun kv => (kv.1, g kv.2))
      ↔ m.holds_all now (kvs.map fun kv => (f kv.1, kv.2)) := by
  unfold holds_all
  rw [List.forall_mem_map, List.forall_mem_map]
  refine forall₂_congr fun kv hkv => ?_
  rw [get_through]
  constructor
  · intro h
    obtain ⟨v, hv, hgv⟩ := Option.map_eq_some_iff.1 h
    obtain ⟨e, he, rfl⟩ := Option.map_eq_some_iff.1 hv
    have hentry : m (f kv.1) = some e := (Option.filter_eq_some_iff.1 he).1
    dsimp only
    rw [hv, hg kv hkv e hentry hgv]
  · intro h
    dsimp only at h
    rw [h]
    rfl

variable [DecidableEq K] [DecidableEq K']

omit [LinearOrder T] in
theorem update_through (hf : Function.Injective f) (k : K') (e : Option (V × Option T)) :
    (m.update (f k) e).through f g = (m.through f g).update k (e.map fun e => (g e.1, e.2)) := by
  funext k'
  unfold through update
  by_cases hk : k' = k
  · rw [if_pos (congrArg f hk), if_pos hk]
  · rw [if_neg fun h => hk (hf h), if_neg hk]

omit [LinearOrder T] in
theorem set_through (hf : Function.Injective f) (k : K') (v : V) (expiry : Option T) :
    (m.set (f k) v expiry).through f g = (m.through f g).set k (g v) expiry :=
  update_through m hf k (some (v, expiry))

omit [LinearOrder T] in
theorem erase_through (hf : Function.Injective f) (k : K') :
    (m.erase (f k)).through f g = (m.through f g).erase k := update_through m hf k none

omit [LinearOrder T] in
theorem set_all_through (hf : Function.Injective f) (kvs : List (K' × V)) (expiry : Option T) :
    (m.set_all (kvs.map fun kv => (f kv.1, kv.2)) expiry).through f g
      = (m.through f g).set_all (kvs.map fun kv => (kv.1, g kv.2)) expiry := by
  induction kvs generalizing m with
  | nil => rfl
  | cons kv kvs ih =>
      have hrest := ih (m.set (f kv.1) kv.2 expiry)
      rw [set_through m hf] at hrest
      exact hrest

end Through

end ExpiringMap

end RustyWorkers.Lib

/-
The caches of a proxy converge to the database: `route_cache_gc_task` and
`apps_gc_task` (`rusty-workers-proxy/src/sched.rs`).

A pass takes down what is in the cache, reads the database for each of these
entries, and removes those that differ. While it goes on, other tasks insert,
evict and replace entries. What carries the argument is where a stale entry can
be: in a period in which the tables stay as they are, lookups bring none, so
from the beginning of a pass on every stale entry is one that the pass has still
before it. The pass over the routes compares what is in the cache by then. The
pass over the apps compares what it has taken down, field by field; that this is
enough is because a bundle never changes.
-/
import RustyWorkers.RouteCache
import RustyWorkers.SchedCaches

set_option autoImplicit false

namespace RustyWorkers

open Lib

namespace Routing

open Sched (AppId AppConfig AppState)

/-- What `do_lookup_app_background` builds for an app from the tables as they
are. -/
def lookup_app (conf : Config) (db : Database) (id : AppId) : Option AppState :=
  (db.app_metadata_get id).bind fun config =>
    (db.app_bundle_get config.bundle_id).map (AppState.build conf.sched config)

def is_change : Action → Bool
  | .change _ => true
  | _ => false

/-! ## What holds of every run -/

/-- Apps in the cache were built from rows and bundles that the database had,
and it has the bundles still. -/
structure Sound (conf : Config) (s : State) : Prop where
  traced : Sched.Traced conf.sched s.sched
  reads : ∀ p ∈ s.sched.bundle_reads, s.db.app_bundle_get p.1 = some p.2

theorem sound_start (conf : Config) (db : Database) : Sound conf (start conf db) :=
  ⟨Sched.traced_start conf.sched, fun _ hp => nomatch hp⟩

variable {conf : Config} {s s' : State}

theorem agrees_ok {α : Type} [DecidableEq α] {x y : α} (h : agrees (.ok x) y = true) : x = y := by
  simpa [agrees] using h

theorem reads_sched (h : Sound conf s) {a : Sched.Action} {sched : Sched.State} (hallowed : s.allowed a = true)
    (hstep : Sched.step conf.sched s.sched a = some sched) :
    ∀ p ∈ sched.bundle_reads, s.db.app_bundle_get p.1 = some p.2 := by
  -- only the task that looks apps up reads bundles
  by_cases htask : ∃ b, a = .step_task b
  · obtain ⟨b, rfl⟩ := htask
    cases Sched.task_effect hstep with
    | quiet _ quiet =>
      rw [quiet.bundle_reads]
      exact h.reads
    | bundle place =>
      intro p hp
      rcases List.mem_cons.1 hp with rfl | hold
      · simp only [State.allowed, place] at hallowed
        exact (agrees_ok hallowed).symm
      · exact h.reads p hold
    | recv | hit | miss | metadata | no_metadata | no_bundle | insert | reply | gc_begin | gc_check | gc_remove | gc_end =>
      exact h.reads
  · push Not at htask
    rw [(Sched.step_quiet hstep htask).bundle_reads]
    exact h.reads

theorem sound_step {a : Action} (h : Sound conf s) (hs : s.step conf a = some s') : Sound conf s' := by
  cases step_effect hs with
  | sched allowed step => exact ⟨(Sched.step_ok h.traced step).traced, reads_sched h allowed step⟩
  | @change c => exact ⟨h.traced, fun p hp => Database.app_bundle_get_change (h.reads p hp) c⟩
  | request => exact ⟨h.traced, h.reads⟩
  | incoming _ effect =>
    cases effect with
    | handed place step =>
      refine ⟨(Sched.step_ok h.traced step).traced, fun p hp => h.reads p ?_⟩
      rw [← (Sched.step_quiet step (by simp)).bundle_reads]
      exact hp
    | found | ask | full | missing | body_error | cancel => exact ⟨h.traced, h.reads⟩
  | task effect => cases effect <;> exact ⟨h.traced, h.reads⟩

/-! ## Three kinds of steps -/

/-- Both caches, and the four tasks that work on them, are as they were. -/
structure Calm (s s' : State) : Prop where
  db : s'.db = s.db
  route_cache : s'.route_cache.entries.Perm s.route_cache.entries
  lookup : s'.lookup = s.lookup
  gc : s'.gc = s.gc
  sched : Sched.Quiet s.sched s'.sched

theorem calm_goto (h : Calm s s') (i : ℕ) (f : Incoming) (pc : IncomingPc) : Calm s (s'.goto i f pc) :=
  ⟨h.db, h.route_cache, h.lookup, h.gc, h.sched⟩

theorem calm_touch (s : State) (domain : String) : Calm s (s.touch domain) :=
  ⟨rfl, List.filter_append_perm _ _, rfl, rfl, .refl _⟩

theorem incoming_calm {i : ℕ} {f : Incoming} {a : IncomingAction} (h : IncomingEffect conf s i f a s') :
    Calm s s' := by
  cases h with
  | found | full | missing => exact calm_goto (calm_touch s _) _ _ _
  | ask => exact ⟨rfl, List.filter_append_perm _ _, rfl, rfl, .refl _⟩
  | handed place step => exact ⟨rfl, .rfl, rfl, rfl, Sched.step_quiet step (by simp)⟩
  | body_error | cancel => exact ⟨rfl, .rfl, rfl, rfl, .refl _⟩

/-- A step that is no change of the tables is a step of a task, or calm. -/
theorem step_cases {a : Action} (hs : s.step conf a = some s') (hchange : is_change a = false) :
    Calm s s'
    ∨ (∃ b, a = .step_task b ∧ TaskEffect s b s')
    ∨ ∃ b sched, a = .sched (.step_task b) ∧ s.allowed (.step_task b) = true
      ∧ Sched.TaskEffect conf.sched s.sched b sched ∧ s' = { s with sched := sched } := by
  cases step_effect hs with
  | change => cases hchange
  | @sched a sched allowed step =>
    by_cases htask : ∃ b, a = .step_task b
    · obtain ⟨b, rfl⟩ := htask
      exact Or.inr (Or.inr ⟨b, sched, rfl, allowed, Sched.task_effect step, rfl⟩)
    · push Not at htask
      exact Or.inl ⟨rfl, .rfl, rfl, rfl, Sched.step_quiet step htask⟩
  | request => exact Or.inl ⟨rfl, .rfl, rfl, rfl, .refl _⟩
  | incoming _ effect => exact Or.inl (incoming_calm effect)
  | task effect => exact Or.inr (Or.inl ⟨_, rfl, effect⟩)

/-! ## Lookups of the period -/

/-- What the lookup tasks have in their hands is what the tables hold. -/
structure Lookups (conf : Config) (s : State) : Prop where
  route : ∀ domain map back, s.lookup = .inserting domain map back →
    map = s.db.route_mapping_list_for_domain domain
  metadata : ∀ id back config, s.sched.lookup = .bundle id back config →
    s.db.app_metadata_get id = some config
  app : ∀ id back a, s.sched.lookup = .inserting id back a → lookup_app conf s.db id = some a

theorem lookups_idle (hroute : s.lookup = .idle) (happ : s.sched.lookup = .idle) : Lookups conf s where
  route := fun _ _ _ heq => by rw [hroute] at heq; cases heq
  metadata := fun _ _ _ heq => by rw [happ] at heq; cases heq
  app := fun _ _ _ heq => by rw [happ] at heq; cases heq

theorem lookups_step (h : Lookups conf s) {a : Action} (hchange : is_change a = false)
    (hs : s.step conf a = some s') : Lookups conf s' := by
  -- what a read has put into the hands of a task is what the tables hold, as they stay as they are
  rcases step_cases hs hchange with hcalm | ⟨b, -, heffect⟩ | ⟨b, sched, -, hallowed, heffect, rfl⟩
  · constructor
    · intro domain map back heq
      rw [hcalm.lookup] at heq
      rw [hcalm.db]
      exact h.route domain map back heq
    · intro id back config heq
      rw [hcalm.sched.lookup] at heq
      rw [hcalm.db]
      exact h.metadata id back config heq
    · intro id back a heq
      rw [hcalm.sched.lookup] at heq
      rw [hcalm.db]
      exact h.app id back a heq
  · refine ⟨?_, ?_, ?_⟩
    · intro domain map back heq
      cases heffect with
      | listed place =>
        obtain ⟨rfl, rfl, -⟩ := LookupPc.inserting.inj heq
        rfl
      | recv | hit | miss | not_listed | insert | reply => cases heq
      | gc_begin | gc_listed | gc_not_listed | gc_compare | gc_end => exact h.route domain map back heq
    · cases heffect <;> exact h.metadata
    · cases heffect <;> exact h.app
  · refine ⟨h.route, ?_, ?_⟩
    · intro id back config heq
      cases heffect with
      | quiet _ quiet => exact h.metadata id back config (quiet.lookup ▸ heq)
      | @metadata id' back' config' place =>
        obtain ⟨rfl, -, rfl⟩ := Sched.LookupPc.bundle.inj heq
        simp only [State.allowed, place] at hallowed
        have hread := (agrees_ok hallowed).symm
        have hid := Database.app_metadata_get_id hread
        rw [hread, ← hid]
      | recv | hit | miss | no_metadata | bundle | no_bundle | insert | reply => cases heq
      | gc_begin | gc_check | gc_remove | gc_end => exact h.metadata id back config heq
    · intro id back a heq
      cases heffect with
      | quiet _ quiet => exact h.app id back a (quiet.lookup ▸ heq)
      | @bundle id' back' config bundle place =>
        obtain ⟨rfl, -, rfl⟩ := Sched.LookupPc.inserting.inj heq
        simp only [State.allowed, place] at hallowed
        have hread := (agrees_ok hallowed).symm
        simp only [lookup_app, h.metadata _ _ _ place, Option.bind_some, hread, Option.map_some]
      | recv | hit | miss | metadata | no_metadata | no_bundle | insert | reply => cases heq
      | gc_begin | gc_check | gc_remove | gc_end => exact h.app id back a heq

/-! ## The pass over the routes -/

/-- The domains that the pass has still before it. -/
def GcPc.domains : GcPc → List String
  | .idle => []
  | .scanning domains => domains
  | .comparing domain _ domains => domain :: domains

/-- No entry of `route_cache` is stale. -/
def RoutesFresh (s : State) : Prop :=
  ∀ e ∈ s.route_cache.entries, e.2 = s.db.route_mapping_list_for_domain e.1

/-- Every stale entry is one that the pass has still before it. -/
structure RoutesChecked (s : State) : Prop where
  entries : ∀ e ∈ s.route_cache.entries,
    e.2 = s.db.route_mapping_list_for_domain e.1 ∨ e.1 ∈ s.gc.domains
  read : ∀ domain map rest, s.gc = .comparing domain map rest → map = s.db.route_mapping_list_for_domain domain

/-- What a comparison leaves in the cache. -/
theorem mem_compare {cache : LruCache String RouteMap} {domain : String} {map : RouteMap}
    {e : String × RouteMap} (h : e ∈ (State.compare cache domain map).entries) :
    e ∈ cache.entries ∧ (e.1 = domain → e.2 = map) := by
  -- a key is in the cache once, so the entry that stays is the one that was compared
  unfold State.compare at h
  split at h
  · rename_i entry hentry
    split at h
    · exact ⟨LruCache.mem_of_remove h, fun heq => absurd heq (LruCache.ne_of_mem_remove h)⟩
    · rename_i hsame
      refine ⟨h, fun heq => ?_⟩
      have hfind : cache.find domain = some e.2 := LruCache.find_eq_some_iff.2 (heq ▸ h)
      rw [Option.some.inj (hfind.symm.trans hentry)]
      exact not_not.1 hsame
  · rename_i hnone
    refine ⟨h, fun heq => ?_⟩
    have hfind : cache.find domain = some e.2 := LruCache.find_eq_some_iff.2 (heq ▸ h)
    rw [hnone] at hfind
    cases hfind

theorem routes_fresh_step (hl : Lookups conf s) (h : RoutesFresh s) {a : Action} (hchange : is_change a = false)
    (hs : s.step conf a = some s') : RoutesFresh s' := by
  rcases step_cases hs hchange with hcalm | ⟨b, -, heffect⟩ | ⟨b, sched, -, -, -, rfl⟩
  · intro e he
    rw [hcalm.db]
    exact h e (hcalm.route_cache.mem_iff.1 he)
  · intro e he
    cases heffect with
    | hit | miss => exact h e (LruCache.mem_of_touch he)
    | insert place =>
      rcases LruCache.mem_of_insert he with hold | rfl
      · exact h e hold
      · exact hl.route _ _ _ place
    | gc_compare place => exact h e (mem_compare he).1
    | recv | listed | not_listed | reply | gc_begin | gc_listed | gc_not_listed | gc_end => exact h e he
  · exact h

/-- A pass begins with every entry before it. -/
theorem routes_checked_begin {domains : List String}
    (hs : s.step conf (.step_task (.gc_begin domains)) = some s') : RoutesChecked s' := by
  have heffect : TaskEffect s (.gc_begin domains) s' := task_effect hs
  cases heffect with
  | gc_begin idle perm =>
    refine ⟨fun e he => Or.inr (perm.mem_iff.2 (List.mem_map_of_mem he)), fun domain map rest heq => ?_⟩
    cases heq

theorem routes_checked_step (hl : Lookups conf s) (h : RoutesChecked s) {a : Action}
    (hchange : is_change a = false) (hok : a ≠ .step_task (.gc_list false)) (hs : s.step conf a = some s') :
    RoutesChecked s' := by
  rcases step_cases hs hchange with hcalm | ⟨b, rfl, heffect⟩ | ⟨b, sched, -, -, -, rfl⟩
  · refine ⟨fun e he => ?_, fun domain map rest heq => ?_⟩
    · rw [hcalm.db, hcalm.gc]
      exact h.entries e (hcalm.route_cache.mem_iff.1 he)
    · rw [hcalm.gc] at heq
      rw [hcalm.db]
      exact h.read domain map rest heq
  · cases heffect with
    | hit | miss => exact ⟨fun e he => h.entries e (LruCache.mem_of_touch he), h.read⟩
    | insert place =>
      refine ⟨fun e he => ?_, h.read⟩
      rcases LruCache.mem_of_insert he with hold | rfl
      · exact h.entries e hold
      · exact Or.inl (hl.route _ _ _ place)
    | gc_begin => exact routes_checked_begin hs
    | @gc_listed domain rest place =>
      refine ⟨fun e he => ?_, fun domain' map rest' heq => ?_⟩
      · have hold := h.entries e he
        rw [place] at hold
        exact hold
      · obtain ⟨rfl, rfl, -⟩ := GcPc.comparing.inj heq
        rfl
    | gc_not_listed => exact absurd rfl hok
    | @gc_compare domain map rest place =>
      refine ⟨fun e he => ?_, fun domain' map' rest' heq => by cases heq⟩
      obtain ⟨hold, hsame⟩ := mem_compare he
      rcases h.entries e hold with hfresh | hpending
      · exact Or.inl hfresh
      · rw [place] at hpending
        rcases List.mem_cons.1 hpending with heq | hrest
        · refine Or.inl ?_
          rw [hsame heq, h.read _ _ _ place, heq]
        · exact Or.inr hrest
    | gc_end place =>
      refine ⟨fun e he => ?_, fun domain map rest heq => by cases heq⟩
      have hold := h.entries e he
      rw [place] at hold
      exact hold
    | recv | listed | not_listed | reply => exact ⟨h.entries, h.read⟩
  · exact ⟨h.entries, h.read⟩

/-- A pass ends with no entry before it. -/
theorem routes_checked_end (h : RoutesChecked s) (hs : s.step conf (.step_task .gc_end) = some s') :
    RoutesFresh s' := by
  have heffect : TaskEffect s .gc_end s' := task_effect hs
  cases heffect with
  | gc_end place =>
    intro e he
    rcases h.entries e he with hfresh | hpending
    · exact hfresh
    · rw [place] at hpending
      cases hpending

/-! ## The pass over the apps -/

/-- The entry is the app that a lookup would build. -/
def AppFresh (conf : Config) (s : State) (e : AppId × ℕ) : Prop :=
  ∃ a, s.sched.app e.2 = some a ∧ lookup_app conf s.db e.1 = some a

def AppsFresh (conf : Config) (s : State) : Prop := ∀ e ∈ s.sched.apps.entries, AppFresh conf s e

/-- The pass has taken the entry down as it is. -/
def Listed (s : Sched.State) (apps : List (AppId × String × WorkerConfiguration)) (e : AppId × ℕ) : Prop :=
  ∃ a, s.app e.2 = some a ∧ (e.1, a.bundle_id, a.config) ∈ apps

/-- The pass has the entry still before it. -/
def Pending (s : Sched.State) (e : AppId × ℕ) : Sched.GcPc → Prop
  | .idle => False
  | .scanning apps => Listed s apps e
  | .removing id apps => e.1 = id ∨ Listed s apps e

def AppsChecked (conf : Config) (s : State) : Prop :=
  ∀ e ∈ s.sched.apps.entries, AppFresh conf s e ∨ Pending s.sched e s.sched.gc

theorem AppFresh.of_app {e : AppId × ℕ} (h : AppFresh conf s e) (hdb : s'.db = s.db)
    (happ : ∀ a, s.sched.app e.2 = some a → s'.sched.app e.2 = some a) : AppFresh conf s' e := by
  obtain ⟨a, ha, hlookup⟩ := h
  exact ⟨a, happ a ha, by rw [hdb]; exact hlookup⟩

theorem Pending.of_app {t t' : Sched.State} {e : AppId × ℕ} {gc : Sched.GcPc} (h : Pending t e gc)
    (happ : ∀ a, t.app e.2 = some a → t'.app e.2 = some a) : Pending t' e gc := by
  cases gc with
  | idle => exact h
  | scanning apps =>
    obtain ⟨a, ha, hlisted⟩ := h
    exact ⟨a, happ a ha, hlisted⟩
  | removing id apps =>
    rcases h with heq | ⟨a, ha, hlisted⟩
    · exact Or.inl heq
    · exact Or.inr ⟨a, happ a ha, hlisted⟩

theorem app_append {t : Sched.State} (x : AppState) {app : ℕ} {a : AppState} (h : t.app app = some a) :
    Sched.State.app { t with app_states := t.app_states ++ [x] } app = some a := by
  obtain ⟨b, hb, rfl⟩ := Option.map_eq_some_iff.1 h
  refine Option.map_eq_some_iff.2 ⟨b, ?_, rfl⟩
  rw [List.getElem?_append_left (List.getElem?_eq_some_iff.1 hb).1]
  exact hb

/-- The entry that a lookup inserts. -/
theorem app_inserted (hl : Lookups conf s) {id : AppId} {back : ℕ} {a : AppState}
    (place : s.sched.lookup = .inserting id back a) {t : State} (hdb : t.db = s.db)
    (happs : t.sched.app_states = s.sched.app_states ++ [a]) : AppFresh conf t (id, s.sched.app_states.length) := by
  have hlookup := hl.app _ _ _ place
  have hready : { a with ready_instances := [] } = a := by
    obtain ⟨config, -, hbuild⟩ := Option.bind_eq_some_iff.1 hlookup
    obtain ⟨bundle, -, rfl⟩ := Option.map_eq_some_iff.1 hbuild
    rfl
  refine ⟨a, ?_, by rw [hdb]; exact hlookup⟩
  simp only [Sched.State.app, happs, List.getElem?_concat_length, Option.map_some, hready]

/-- An app that the comparison finds unchanged is the one that a lookup would
build: its bundle is the one that its row names, as bundles do not change. -/
theorem unchanged_fresh (h : Sound conf s) {e : AppId × ℕ} (he : e ∈ s.sched.apps.entries) {a : AppState}
    (ha : s.sched.app e.2 = some a) {row : AppConfig} (hrow : s.db.app_metadata_get e.1 = some row)
    (hsame : Sched.app_changed a.bundle_id a.config row = false) : lookup_app conf s.db e.1 = some a := by
  obtain ⟨b, hb, rfl⟩ := Option.map_eq_some_iff.1 ha
  obtain ⟨config, -, bundle, hread, hbuilt⟩ := h.traced.built b (List.mem_of_getElem? hb)
  have hbundle := h.reads _ hread
  obtain ⟨x, hx, hid⟩ := h.traced.apps e he
  have hbid : b.id = e.1 := by
    simp only [Sched.State.args, hb, Option.map_some, Option.some.injEq] at hx
    rw [← hid, ← hx]
    rfl
  rw [hbuilt] at hbid hsame ⊢
  obtain ⟨hbundle_id, henv, hkv⟩ : row.bundle_id = config.bundle_id ∧ row.env = config.env
      ∧ Sched.decode_kv_namespaces row.kv_namespaces = Sched.decode_kv_namespaces config.kv_namespaces := by
    rw [Sched.app_changed, Bool.or_eq_false_iff, Bool.or_eq_false_iff] at hsame
    exact ⟨not_not.1 (of_decide_eq_false hsame.1.1), not_not.1 (of_decide_eq_false hsame.1.2),
      not_not.1 (of_decide_eq_false hsame.2)⟩
  have hrowid := Database.app_metadata_get_id hrow
  have hconfig : config.id = e.1 := hbid
  simp only [lookup_app, hrow, Option.bind_some, hbundle_id, hbundle, Option.map_some, AppState.build,
    Sched.target_config, henv, hkv, hrowid, hconfig]

/-- What a step of a task on the cache of apps does to the proxy. -/
theorem sched_task_effect {b : Sched.TaskAction} (hs : s.step conf (.sched (.step_task b)) = some s') :
    ∃ sched, s.allowed (.step_task b) = true ∧ Sched.TaskEffect conf.sched s.sched b sched
      ∧ s' = { s with sched := sched } := by
  cases step_effect hs with
  | sched allowed step => exact ⟨_, allowed, Sched.task_effect step, rfl⟩

/-- A pass begins with every entry before it. -/
theorem apps_checked_begin (h : Sound conf s) {order : List (AppId × ℕ)}
    (hs : s.step conf (.sched (.step_task (.gc_begin order))) = some s') : AppsChecked conf s' := by
  obtain ⟨sched, -, heffect, rfl⟩ := sched_task_effect hs
  cases heffect with
  | quiet terminate => simp at terminate
  | gc_begin idle perm =>
    intro e he
    have hold := LruCache.mem_of_reorder perm he
    obtain ⟨x, hx, -⟩ := h.traced.apps e hold
    obtain ⟨b, hb, -⟩ := Option.map_eq_some_iff.1 hx
    refine Or.inr ⟨{ b with ready_instances := [] }, Option.map_eq_some_iff.2 ⟨b, hb, rfl⟩, ?_⟩
    exact List.mem_filterMap.2 ⟨e, hold, by rw [hb]; rfl⟩

theorem apps_fresh_step (hl : Lookups conf s) (h : AppsFresh conf s) {a : Action}
    (hchange : is_change a = false) (hs : s.step conf a = some s') : AppsFresh conf s' := by
  rcases step_cases hs hchange with hcalm | ⟨b, -, heffect⟩ | ⟨b, sched, -, -, heffect, rfl⟩
  · intro e he
    exact (h e (hcalm.sched.apps.mem_iff.1 he)).of_app hcalm.db fun a ha => by rw [hcalm.sched.app]; exact ha
  · cases heffect <;> exact h
  · intro e he
    cases heffect with
    | quiet _ quiet =>
      exact (h e (quiet.apps.mem_iff.1 he)).of_app rfl fun a ha => by rw [quiet.app]; exact ha
    | hit | miss => exact h e (LruCache.mem_of_touch he)
    | insert place =>
      rcases LruCache.mem_of_insert he with hold | rfl
      · exact (h e hold).of_app rfl fun a ha => app_append _ ha
      · exact app_inserted hl place rfl rfl
    | gc_begin idle perm => exact h e (LruCache.mem_of_reorder perm he)
    | gc_remove => exact h e (LruCache.mem_of_remove he)
    | recv | metadata | no_metadata | bundle | no_bundle | reply | gc_check | gc_end => exact h e he

/-- The comparison of one entry, without an error of the database. -/
theorem apps_checked_check (hsound : Sound conf s) (h : AppsChecked conf s) {id : AppId} {bundle_id : String}
    {config : WorkerConfiguration} {rest : List (AppId × String × WorkerConfiguration)}
    {answer : Except GenericError (Option AppConfig)} (place : s.sched.gc = .scanning ((id, bundle_id, config) :: rest))
    (hallowed : s.allowed (.step_task (.gc_check answer)) = true) (hok : ∀ e, answer ≠ .error e) :
    ∀ e ∈ s.sched.apps.entries,
      AppFresh conf s e ∨ Pending s.sched e (Sched.after_check id bundle_id config rest answer) := by
  intro e he
  simp only [State.allowed, place] at hallowed
  rcases h e he with hfresh | hpending
  · exact Or.inl hfresh
  · rw [place] at hpending
    obtain ⟨a, ha, hlisted⟩ := hpending
    cases answer with
    | error x => exact absurd rfl (hok x)
    | ok found =>
      have hread := (agrees_ok hallowed).symm
      rcases List.mem_cons.1 hlisted with heq | hrest
      · obtain ⟨rfl, rfl, rfl⟩ : e.1 = id ∧ a.bundle_id = bundle_id ∧ a.config = config := by simpa using heq
        -- the head of the list is what the row is compared with
        cases found with
        | none => exact Or.inr (Or.inl rfl)
        | some row =>
          by_cases hchanged : Sched.app_changed a.bundle_id a.config row = true
          · refine Or.inr ?_
            rw [Sched.after_check, if_pos hchanged]
            exact Or.inl rfl
          · exact Or.inl ⟨a, ha, unchanged_fresh hsound he ha hread (by simpa using hchanged)⟩
      · refine Or.inr ?_
        cases found with
        | none => exact Or.inr ⟨a, ha, hrest⟩
        | some row =>
          rw [Sched.after_check]
          split
          · exact Or.inr ⟨a, ha, hrest⟩
          · exact ⟨a, ha, hrest⟩

theorem apps_checked_step (hsound : Sound conf s) (hl : Lookups conf s) (h : AppsChecked conf s) {a : Action}
    (hchange : is_change a = false) (hok : ∀ e, a ≠ .sched (.step_task (.gc_check (.error e))))
    (hs : s.step conf a = some s') : AppsChecked conf s' := by
  rcases step_cases hs hchange with hcalm | ⟨b, -, heffect⟩ | ⟨b, sched, rfl, hallowed, heffect, rfl⟩
  · intro e he
    have happ : ∀ a, s.sched.app e.2 = some a → s'.sched.app e.2 = some a := fun a ha => by
      rw [hcalm.sched.app]
      exact ha
    rcases h e (hcalm.sched.apps.mem_iff.1 he) with hfresh | hpending
    · exact Or.inl (hfresh.of_app hcalm.db happ)
    · rw [hcalm.sched.gc]
      exact Or.inr (hpending.of_app happ)
  · cases heffect <;> exact h
  · intro e he
    cases heffect with
    | quiet _ quiet =>
      have happ : ∀ a, s.sched.app e.2 = some a → sched.app e.2 = some a := fun a ha => by
        rw [quiet.app]
        exact ha
      rcases h e (quiet.apps.mem_iff.1 he) with hfresh | hpending
      · exact Or.inl (hfresh.of_app rfl happ)
      · exact Or.inr (quiet.gc ▸ hpending.of_app happ)
    | hit | miss => exact h e (LruCache.mem_of_touch he)
    | insert place =>
      rcases LruCache.mem_of_insert he with hold | rfl
      · rcases h e hold with hfresh | hpending
        · exact Or.inl (hfresh.of_app rfl fun a ha => app_append _ ha)
        · exact Or.inr (hpending.of_app fun a ha => app_append _ ha)
      · exact Or.inl (app_inserted hl place rfl rfl)
    | gc_begin idle perm => exact apps_checked_begin hsound hs e he
    | gc_check place =>
      exact apps_checked_check hsound h place hallowed (fun x hx => hok x (by rw [hx])) e he
    | gc_remove place =>
      rcases h e (LruCache.mem_of_remove he) with hfresh | hpending
      · exact Or.inl hfresh
      · rw [place] at hpending
        rcases hpending with heq | hrest
        · exact absurd heq (LruCache.ne_of_mem_remove he)
        · exact Or.inr hrest
    | gc_end place =>
      rcases h e he with hfresh | hpending
      · exact Or.inl hfresh
      · rw [place] at hpending
        obtain ⟨a, -, hlisted⟩ := hpending
        cases hlisted
    | recv | metadata | no_metadata | bundle | no_bundle | reply => exact h e he

/-- A pass ends with no entry before it. -/
theorem apps_checked_end (h : AppsChecked conf s) (hs : s.step conf (.sched (.step_task .gc_end)) = some s') :
    AppsFresh conf s' := by
  obtain ⟨sched, -, heffect, rfl⟩ := sched_task_effect hs
  cases heffect with
  | quiet terminate => simp at terminate
  | gc_end place =>
    intro e he
    rcases h e he with hfresh | hpending
    · exact hfresh
    · rw [place] at hpending
      obtain ⟨a, -, hlisted⟩ := hpending
      cases hlisted

/-! ## The period -/

/-- What holds in a period without changes, from a moment on at which no lookup
is running. -/
structure Period (conf : Config) (s : State) : Prop where
  sound : Sound conf s
  lookups : Lookups conf s

theorem period_step (h : Period conf s) {a : Action} (hchange : is_change a = false)
    (hs : s.step conf a = some s') : Period conf s' :=
  ⟨sound_step h.sound hs, lookups_step h.lookups hchange hs⟩

/-- A complete pass of `route_cache_gc_task`, without an error of the database. -/
def RoutePass (bs : List Action) : Prop :=
  ∃ before domains during after,
    bs = before ++ .step_task (.gc_begin domains) :: (during ++ .step_task .gc_end :: after)
      ∧ ∀ a ∈ during, a ≠ .step_task (.gc_list false)

/-- A complete pass of `apps_gc_task`, without an error of the database. -/
def AppPass (bs : List Action) : Prop :=
  ∃ before order during after,
    bs = before ++ .sched (.step_task (.gc_begin order)) :: (during ++ .sched (.step_task .gc_end) :: after)
      ∧ ∀ a ∈ during, ∀ e, a ≠ .sched (.step_task (.gc_check (.error e)))

theorem routes_fresh_of_pass (h : Period conf s) {bs : List Action} (hstable : ∀ a ∈ bs, is_change a = false)
    (hpass : RoutePass bs) {t : State} (hrun : (machine conf).run s bs = some t) : RoutesFresh t := by
  obtain ⟨before, domains, during, after, rfl, hok⟩ := hpass
  simp only [List.forall_mem_append, List.forall_mem_cons] at hstable
  obtain ⟨hbefore, -, hduring, -, hafter⟩ := hstable
  refine ((machine conf).run_phases (I := Period conf) (J := fun s => Period conf s ∧ RoutesChecked s)
    (K := fun s => Period conf s ∧ RoutesFresh s) (C := fun a => is_change a = false)
    (D := fun a => is_change a = false ∧ a ≠ .step_task (.gc_list false)) ?_ ?_ ?_ ?_ ?_ hbefore
    (fun a ha => ⟨hduring a ha, hok a ha⟩) hafter h hrun).2
  · exact fun s a s' hi hc hs => period_step hi hc hs
  · intro s s' hi hs
    have hstep : s.step conf (.step_task (.gc_begin domains)) = some s' := hs
    exact ⟨period_step hi rfl hstep, routes_checked_begin hstep⟩
  · rintro s a s' ⟨hi, hchecked⟩ ⟨hc, hne⟩ hs
    exact ⟨period_step hi hc hs, routes_checked_step hi.lookups hchecked hc hne hs⟩
  · rintro s s' ⟨hi, hchecked⟩ hs
    have hstep : s.step conf (.step_task .gc_end) = some s' := hs
    exact ⟨period_step hi rfl hstep, routes_checked_end hchecked hstep⟩
  · rintro s a s' ⟨hi, hfresh⟩ hc hs
    exact ⟨period_step hi hc hs, routes_fresh_step hi.lookups hfresh hc hs⟩

theorem apps_fresh_of_pass (h : Period conf s) {bs : List Action} (hstable : ∀ a ∈ bs, is_change a = false)
    (hpass : AppPass bs) {t : State} (hrun : (machine conf).run s bs = some t) : AppsFresh conf t := by
  obtain ⟨before, order, during, after, rfl, hok⟩ := hpass
  simp only [List.forall_mem_append, List.forall_mem_cons] at hstable
  obtain ⟨hbefore, -, hduring, -, hafter⟩ := hstable
  refine ((machine conf).run_phases (I := Period conf) (J := fun s => Period conf s ∧ AppsChecked conf s)
    (K := fun s => Period conf s ∧ AppsFresh conf s) (C := fun a => is_change a = false)
    (D := fun a => is_change a = false ∧ ∀ e, a ≠ .sched (.step_task (.gc_check (.error e)))) ?_ ?_ ?_ ?_ ?_
    hbefore (fun a ha => ⟨hduring a ha, hok a ha⟩) hafter h hrun).2
  · exact fun s a s' hi hc hs => period_step hi hc hs
  · intro s s' hi hs
    have hstep : s.step conf (.sched (.step_task (.gc_begin order))) = some s' := hs
    exact ⟨period_step hi rfl hstep, apps_checked_begin hi.sound hstep⟩
  · rintro s a s' ⟨hi, hchecked⟩ ⟨hc, hne⟩ hs
    exact ⟨period_step hi hc hs, apps_checked_step hi.sound hi.lookups hchecked hc hne hs⟩
  · rintro s s' ⟨hi, hchecked⟩ hs
    have hstep : s.step conf (.sched (.step_task .gc_end)) = some s' := hs
    exact ⟨period_step hi rfl hstep, apps_checked_end hchecked hstep⟩
  · rintro s a s' ⟨hi, hfresh⟩ hc hs
    exact ⟨period_step hi hc hs, apps_fresh_step hi.lookups hfresh hc hs⟩

/-- Both caches have what the tables have: a domain its routes, and an app what a
lookup would build for it now, up to the ready queue. -/
structure Converged (conf : Config) (s : State) : Prop where
  routes : ∀ e ∈ s.route_cache.entries, e.2 = s.db.route_mapping_list_for_domain e.1
  apps : ∀ e ∈ s.sched.apps.entries, ∃ a, s.sched.app_states[e.2]? = some a
    ∧ lookup_app conf s.db e.1 = some { a with ready_instances := [] }

/-- **The caches converge.** Take any run of a proxy and its database, with any
changes of routes, apps and bundles, to a state in which no lookup is running,
and any run from there without a change, in which requests, lookups and
evictions go on as they like. If in it a pass over the routes and a pass over the
apps begin and end, without an error of the database in them, then both caches
have what the tables have. -/
theorem caches_converge {db : Database} {as bs : List Action} {s t : State}
    (hhistory : (machine conf).run (start conf db) as = some s) (hroute : s.lookup = .idle)
    (happ : s.sched.lookup = .idle) (hrun : (machine conf).run s bs = some t)
    (hstable : ∀ a ∈ bs, is_change a = false) (hroutes : RoutePass bs) (happs : AppPass bs) : Converged conf t := by
  have hsound : Sound conf s :=
    (machine conf).run_invariant (I := Sound conf) (fun s a s' hi hs => sound_step hi hs) (sound_start conf db)
      hhistory
  have hperiod : Period conf s := ⟨hsound, lookups_idle hroute happ⟩
  refine ⟨routes_fresh_of_pass hperiod hstable hroutes hrun, fun e he => ?_⟩
  obtain ⟨a, ha, hlookup⟩ := apps_fresh_of_pass hperiod hstable happs hrun e he
  obtain ⟨b, hb, rfl⟩ := Option.map_eq_some_iff.1 ha
  exact ⟨b, hb, hlookup⟩

/-! ## A change of both tables -/

def small_conf : Config := ⟨⟨⟨50, 120000, 1⟩, ⟨⟨16, 100, 10, 50⟩, [], []⟩⟩, 1⟩

/-- The operator publishes an app and routes a domain to it. -/
def publish : List Action :=
  [.change (.app_bundle_put "v1" [1]), .change (.app_metadata_put ⟨"app", "v1", [], []⟩),
    .change (.route_mapping_insert "a.com" "/" "app")]

/-- Request `i` for `/x` has the routes of its host looked up, and its body read. -/
def route_request (i : ℕ) (host : String) : List Action :=
  [.request (some host) "/x", .step_incoming i .lookup, .step_task .recv_lookup, .step_task .check,
    .step_task (.list true), .step_task .insert, .step_task .reply, .step_incoming i .lookup,
    .step_incoming i (.read_body true)]

/-- Request `r` of the scheduler has its app looked up. -/
def look_app_up (r : ℕ) (config : AppConfig) (bundle : Bytes) : List Action :=
  [.sched (.step_request r .lookup), .sched (.step_task .recv_lookup), .sched (.step_task .check),
    .sched (.step_task (.app_metadata_get (.ok (some config)))),
    .sched (.step_task (.app_bundle_get (.ok (some bundle)))), .sched (.step_task .insert),
    .sched (.step_task .reply), .sched (.step_request r .lookup)]

/-- A request fills both caches, and then the app gets another bundle. -/
def republish : List Action :=
  publish ++ route_request 0 "a.com:443" ++ look_app_up 0 ⟨"app", "v1", [], []⟩ [1]
    ++ [.change (.app_bundle_put "v2" [2]), .change (.app_metadata_put ⟨"app", "v2", [], []⟩),
      .change (.route_mapping_insert "a.com" "/y" "app")]

/-- In the pass over the routes a request fills the cache of routes again. -/
def in_route_pass : List Action := [.step_task (.gc_list true), .step_task .gc_compare] ++ route_request 1 "a.com"

/-- In the pass over the apps it fills the cache of apps. -/
def in_app_pass : List Action :=
  [.sched (.step_task (.gc_check (.ok (some ⟨"app", "v2", [], []⟩)))), .sched (.step_task .gc_remove)]
    ++ look_app_up 1 ⟨"app", "v2", [], []⟩ [2]

def route_pass : List Action := .step_task (.gc_begin ["a.com"]) :: (in_route_pass ++ [.step_task .gc_end])

def app_pass : List Action :=
  .sched (.step_task (.gc_begin [("app", 0)])) :: (in_app_pass ++ [.sched (.step_task .gc_end)])

theorem caches_converge_republish :
    ∃ s t, (machine small_conf).run (start small_conf .empty) republish = some s
      ∧ (machine small_conf).run s (route_pass ++ app_pass) = some t ∧ Converged small_conf t
      ∧ t.route_cache.entries = [("a.com", [("/", "app"), ("/y", "app")])] ∧ t.sched.apps.entries = [("app", 1)] := by
  have hrun : ((machine small_conf).run (start small_conf .empty) republish).map (fun s =>
      (s.lookup, s.sched.lookup, ((machine small_conf).run s (route_pass ++ app_pass)).map fun t =>
        (t.route_cache.entries, t.sched.apps.entries)))
      = some (.idle, .idle, some ([("a.com", [("/", "app"), ("/y", "app")])], [("app", 1)])) := rfl
  obtain ⟨s, hs, heq⟩ := Option.map_eq_some_iff.1 hrun
  simp only [Prod.mk.injEq] at heq
  obtain ⟨hroute, happ, hperiod⟩ := heq
  obtain ⟨t, ht, hentries⟩ := Option.map_eq_some_iff.1 hperiod
  obtain ⟨hroutes, happs⟩ := Prod.mk.inj hentries
  refine ⟨s, t, hs, ht, caches_converge hs hroute happ ht (by decide) ?_ ?_, hroutes, happs⟩
  · exact ⟨[], ["a.com"], in_route_pass, app_pass, by simp [route_pass], by simp [in_route_pass, route_request]⟩
  · exact ⟨route_pass, [("app", 0)], in_app_pass, [], by simp [app_pass], by simp [in_app_pass, look_app_up]⟩

end Routing

end RustyWorkers

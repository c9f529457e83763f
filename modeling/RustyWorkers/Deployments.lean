/-
Deployments: `do_add_app` of the command line tool (`rusty-workers-cli/src/main.rs`)
against the proxy that serves the apps (`rusty-workers-proxy/src/sched.rs`).

A deployment draws an id for its bundle, inserts the bundle, and then writes the
row of the app, which names the bundle; these are two statements without a
transaction. A proxy reads the row, and then the bundle, by two statements of its
own. Any number of deployments, of one app or of several, go on at once, apps are
deleted and routes changed in between, and any statement may be refused, or be
carried out without its answer coming back.

The row goes last, and a bundle is neither changed nor deleted. So a row names a
bundle that is there, and whoever reads the row first gets the two of one
deployment. That ids are drawn at random is not needed: an id that is taken is
refused, and the deployment ends before it writes its row.
-/
import RustyWorkers.CacheGc

set_option autoImplicit false

namespace RustyWorkers

open Lib

namespace Deployments

open Routing (Database Change)
open Sched (AppId AppConfig SpawnArgs target_config)

/-- Where `do_add_app` is: before a statement, or at its end. -/
inductive Pc where
  | app_bundle_put
  | app_metadata_put
  | ended (ok : Bool)
deriving DecidableEq, Repr

/-- A call of `do_add_app`. `published` is history: its row has been written. -/
structure Deployment where
  config : AppConfig
  bundle : Bytes
  bundle_id : String
  pc : Pc
  published : Bool
deriving DecidableEq, Repr

/-- `config.bundle_id = bundle_id`. -/
def Deployment.row (d : Deployment) : AppConfig := { d.config with bundle_id := d.bundle_id }

structure State where
  routing : Routing.State
  deployments : List Deployment

/-- A statement of a deployment is `applied` or not, and is `answered` or not. -/
inductive Action where
  | routing (a : Routing.Action)
  | add_app (config : AppConfig) (bundle : Bytes) (bundle_id : String)
  | statement (i : ℕ) (applied answered : Bool)

/-- What is not left to the deployments. -/
def other : Routing.Action → Bool
  | .change (.app_metadata_put _) => false
  | .change (.app_bundle_put _ _) => false
  | _ => true

def start (conf : Routing.Config) : State := ⟨Routing.start conf .empty, []⟩

namespace State

def change (s : State) (c : Change) : State := { s with routing := { s.routing with db := s.routing.db.change c } }

/-- Deployment `i` is now `d`. -/
def put (s : State) (i : ℕ) (d : Deployment) : State := { s with deployments := s.deployments.set i d }

/-- The statement that deployment `i`, which is `d`, is at. -/
def statement (s : State) (i : ℕ) (d : Deployment) (applied answered : Bool) : Option State :=
  match d.pc with
  | .app_bundle_put =>
    -- `bundles` has the id as its primary key
    if applied ∧ s.routing.db.app_bundle_get d.bundle_id = none then
      some ((s.change (.app_bundle_put d.bundle_id d.bundle)).put i
        { d with pc := if answered then .app_metadata_put else .ended false })
    else some (s.put i { d with pc := .ended false })
  | .app_metadata_put =>
    if applied then some ((s.change (.app_metadata_put d.row)).put i { d with pc := .ended answered, published := true })
    else some (s.put i { d with pc := .ended false })
  | .ended _ => none

def step (conf : Routing.Config) (s : State) : Action → Option State
  | .routing a => if other a then (s.routing.step conf a).map fun routing => { s with routing := routing } else none
  | .add_app config bundle bundle_id =>
    some { s with deployments := s.deployments ++ [⟨config, bundle, bundle_id, .app_bundle_put, false⟩] }
  | .statement i applied answered => (s.deployments[i]?).bind fun d => s.statement i d applied answered

end State

def machine (conf : Routing.Config) : Machine State Action := ⟨State.step conf⟩

/-! ## What the tables hold -/

/-- The row is that of a deployment, whose bundle is there. -/
def Stored (s : State) (row : AppConfig) : Prop :=
  ∃ d ∈ s.deployments, d.published = true ∧ d.row = row ∧ s.routing.db.app_bundle_get d.bundle_id = some d.bundle

/-- What is kept: of the tables, of the deployments that have come half-way, and of
what the proxy has read. -/
structure Inv (conf : Routing.Config) (s : State) : Prop where
  rows : ∀ id row, s.routing.db.app_metadata_get id = some row → Stored s row
  deployments : ∀ d ∈ s.deployments, d.pc = .app_metadata_put → s.routing.db.app_bundle_get d.bundle_id = some d.bundle
  reads : ∀ row ∈ s.routing.sched.metadata_reads, Stored s row
  sound : Routing.Sound conf s.routing

theorem inv_start (conf : Routing.Config) : Inv conf (start conf) := by
  refine ⟨?_, ?_, ?_, Routing.sound_start conf .empty⟩
  · intro id row h
    cases h
  · intro d hd
    cases hd
  · intro row hrow
    cases hrow

/-- Bundles stay, and so do deployments. -/
structure Grows (s t : State) : Prop where
  bundles : ∀ id bundle, s.routing.db.app_bundle_get id = some bundle → t.routing.db.app_bundle_get id = some bundle
  deployments : ∀ d ∈ s.deployments, d.published = true → ∃ e ∈ t.deployments,
    e.published = true ∧ e.row = d.row ∧ e.bundle = d.bundle

theorem Stored.grows {s t : State} {row : AppConfig} (h : Stored s row) (hg : Grows s t) : Stored t row := by
  obtain ⟨d, hd, hpublished, hrow, hbundle⟩ := h
  obtain ⟨e, he, hpublished', hrow', hbundle'⟩ := hg.deployments d hd hpublished
  refine ⟨e, he, hpublished', hrow'.trans hrow, ?_⟩
  have hid : e.bundle_id = d.bundle_id := congrArg AppConfig.bundle_id hrow'
  rw [hid, hbundle']
  exact hg.bundles _ _ hbundle

/-- Deployment `i` goes on. -/
theorem grows_put {s : State} {i : ℕ} {d e : Deployment} (hd : s.deployments[i]? = some d) (hrow : e.row = d.row)
    (hbundle : e.bundle = d.bundle) (hpublished : d.published = true → e.published = true) : Grows s (s.put i e) := by
  refine ⟨fun _ _ h => h, fun x hx hpub => ?_⟩
  obtain ⟨j, hj⟩ := List.mem_iff_getElem?.1 hx
  by_cases hij : j = i
  · subst hij
    rw [hd] at hj
    obtain rfl := Option.some.inj hj
    exact ⟨e, List.mem_set (List.getElem?_eq_some_iff.1 hd).1 e, hpublished hpub, hrow, hbundle⟩
  · refine ⟨x, ?_, hpub, rfl, rfl⟩
    apply List.mem_of_getElem? (i := j)
    rw [State.put, List.getElem?_set_ne (Ne.symm hij), hj]

theorem grows_change (s : State) (c : Change) : Grows s (s.change c) :=
  ⟨fun _ _ h => Database.app_bundle_get_change h c, fun d hd hpublished => ⟨d, hd, hpublished, rfl, rfl⟩⟩

/-! ## The statements -/

theorem app_metadata_get_put (db : Database) (config : AppConfig) (id : AppId) :
    (db.change (.app_metadata_put config)).app_metadata_get id
      = if id = config.id then some config else db.app_metadata_get id := by
  have hupd : ∀ q (r : AppConfig), Routing.apps_key.hit q { config with id := r.id } = Routing.apps_key.hit q r :=
    fun _ _ => rfl
  have hfind := Table.find_upsert hupd db.apps config id
  refine (congrArg (Option.map fun c : AppConfig => { c with id := id }) hfind).trans ?_
  by_cases hid : id = config.id
  · subst hid
    have hhit : Routing.apps_key.hit config.id config = true := Routing.apps_key.hit_key config
    rw [if_pos rfl, if_pos hhit]
    -- the row is new, or takes everything over but the id
    cases db.apps.find config.id <;> rfl
  · have hmiss : Routing.apps_key.hit id config = false := decide_eq_false hid
    rw [if_neg hid, hmiss]
    rfl

/-- A deletion changes none of the rows that it leaves. -/
theorem app_metadata_get_delete {db : Database} {appid id : AppId} {row : AppConfig}
    (h : (db.change (.app_metadata_delete appid)).app_metadata_get id = some row) : db.app_metadata_get id = some row := by
  obtain ⟨r, hr, rfl⟩ := Option.map_eq_some_iff.1 h
  exact congrArg (Option.map _) (Table.find_of_delete hr).1

theorem app_bundle_get_put {db : Database} {id : String} (bundle : Bytes) (h : db.app_bundle_get id = none) :
    (db.change (.app_bundle_put id bundle)).app_bundle_get id = some bundle := by
  have hnone : db.bundles.find (Routing.bundles_key.key (id, bundle)) = none := Option.map_eq_none_iff.1 h
  exact congrArg (Option.map Prod.snd) (Table.find_insert_new hnone)

/-! ## What the proxy reads -/

/-- Only one step adds to what has been read of the rows. -/
theorem metadata_reads_step {conf : Sched.Config} {s t : Sched.State} {a : Sched.Action} (h : Sched.step conf s a = some t) :
    t.metadata_reads = s.metadata_reads ∨ ∃ id back config, s.lookup = .metadata id back ∧
      a = .step_task (.app_metadata_get (.ok (some config))) ∧
      t.metadata_reads = { config with id := id } :: s.metadata_reads := by
  cases Sched.step_effect h with
  | tick | discover | drop_client | metrics | request => exact Or.inl rfl
  | free => exact Or.inl rfl
  | step_request hq hs =>
    cases Sched.request_effect hs <;> exact Or.inl rfl
  | @step_task b _ hs =>
    cases b with
    | recv_terminate =>
      simp only [Sched.task_step] at hs
      split at hs
      · obtain rfl := Option.some.inj hs
        exact Or.inl rfl
      · cases hs
    | terminated =>
      simp only [Sched.task_step, Option.ite_none_right_eq_some, Option.some.injEq] at hs
      obtain ⟨-, rfl⟩ := hs
      exact Or.inl rfl
    | app_metadata_get answer =>
      cases Sched.task_effect hs with
      | quiet terminate => rcases terminate with h | h <;> cases h
      | metadata place => exact Or.inr ⟨_, _, _, place, rfl, rfl⟩
      | no_metadata => exact Or.inl rfl
    | recv_lookup | check | app_bundle_get | insert | reply | gc_begin | gc_check | gc_remove | gc_end =>
      cases Sched.task_effect hs <;> first
        | exact Or.inl rfl
        | (rename_i terminate _ _ _; rcases terminate with h | h <;> cases h)

/-! ## What is kept -/

theorem Inv.of_grows {conf : Routing.Config} {s t : State} (h : Inv conf s) (hg : Grows s t)
    (hrows : ∀ id row, t.routing.db.app_metadata_get id = some row → Stored t row ∨ s.routing.db.app_metadata_get id = some row)
    (hdeployments : ∀ d ∈ t.deployments, d.pc = .app_metadata_put →
      t.routing.db.app_bundle_get d.bundle_id = some d.bundle ∨ d ∈ s.deployments)
    (hreads : ∀ row ∈ t.routing.sched.metadata_reads, Stored s row ∨ row ∈ s.routing.sched.metadata_reads)
    (hsound : Routing.Sound conf t.routing) : Inv conf t := by
  refine ⟨?_, ?_, ?_, hsound⟩
  · intro id row hrow
    rcases hrows id row hrow with hnew | hold
    · exact hnew
    · exact (h.rows id row hold).grows hg
  · intro d hd hpc
    rcases hdeployments d hd hpc with hnew | hold
    · exact hnew
    · exact hg.bundles _ _ (h.deployments d hold hpc)
  · intro row hrow
    rcases hreads row hrow with hnew | hold
    · exact hnew.grows hg
    · exact (h.reads row hold).grows hg

theorem sound_change {conf : Routing.Config} {s : State} (h : Routing.Sound conf s.routing) (c : Change) :
    Routing.Sound conf (s.change c).routing :=
  ⟨h.traced, fun p hp => Database.app_bundle_get_change (h.reads p hp) c⟩

/-- A change of the tables that is not a deployment's. -/
theorem inv_change {conf : Routing.Config} {s : State} (h : Inv conf s) {c : Change} (hother : other (.change c) = true) :
    Inv conf (s.change c) := by
  apply h.of_grows (grows_change s c)
  · intro id row hrow
    right
    cases c with
    | app_metadata_put => cases hother
    | app_bundle_put => cases hother
    | app_metadata_delete appid => exact app_metadata_get_delete hrow
    | route_mapping_insert => exact hrow
    | route_mapping_delete => exact hrow
    | route_mapping_delete_domain => exact hrow
  · exact fun d hd _ => Or.inr hd
  · exact fun row hrow => Or.inr hrow
  · exact sound_change h.sound c

/-- The scheduler reads what the tables hold. -/
theorem inv_sched {conf : Routing.Config} {s : State} (h : Inv conf s) {a : Sched.Action} {sched : Sched.State}
    (hallowed : s.routing.allowed a = true) (hstep : Sched.step conf.sched s.routing.sched a = some sched)
    (hsound : Routing.Sound conf { s.routing with sched := sched }) :
    Inv conf { s with routing := { s.routing with sched := sched } } := by
  have hg : Grows s { s with routing := { s.routing with sched := sched } } :=
    ⟨fun _ _ hb => hb, fun d hd hpublished => ⟨d, hd, hpublished, rfl, rfl⟩⟩
  apply h.of_grows hg
  · exact fun id row hrow => Or.inr hrow
  · exact fun d hd _ => Or.inr hd
  · intro row hrow
    rcases metadata_reads_step hstep with hsame | ⟨id, back, config, hplace, rfl, hnew⟩
    · exact Or.inr (hsame ▸ hrow)
    · have hrow' : row ∈ { config with id := id } :: s.routing.sched.metadata_reads := hnew ▸ hrow
      rcases List.mem_cons.1 hrow' with rfl | hold
      · left
        simp only [Routing.State.allowed, hplace] at hallowed
        have hget := (Routing.agrees_ok hallowed).symm
        have hid := Database.app_metadata_get_id hget
        subst hid
        exact h.rows _ _ hget
      · exact Or.inr hold
  · exact hsound

theorem inv_routing {conf : Routing.Config} {s : State} (h : Inv conf s) {a : Routing.Action} {routing : Routing.State}
    (hother : other a = true) (hstep : s.routing.step conf a = some routing) : Inv conf { s with routing := routing } := by
  have hsound := Routing.sound_step h.sound hstep
  cases Routing.step_effect hstep with
  | sched allowed step => exact inv_sched h allowed step hsound
  | change => exact inv_change h hother
  | request => exact ⟨h.rows, h.deployments, h.reads, hsound⟩
  | incoming _ effect =>
    cases effect with
    | handed place step =>
      refine ⟨h.rows, h.deployments, ?_, hsound⟩
      obtain rfl := Option.some.inj step
      exact h.reads
    | found | ask | full | missing | body_error | cancel => exact ⟨h.rows, h.deployments, h.reads, hsound⟩
  | task effect => cases effect <;> exact ⟨h.rows, h.deployments, h.reads, hsound⟩

theorem Grows.trans {s t u : State} (h : Grows s t) (h' : Grows t u) : Grows s u := by
  refine ⟨fun id bundle hb => h'.bundles id bundle (h.bundles id bundle hb), fun d hd hpublished => ?_⟩
  obtain ⟨e, he, hpublished', hrow, hbundle⟩ := h.deployments d hd hpublished
  obtain ⟨f, hf, hpublished'', hrow', hbundle'⟩ := h'.deployments e he hpublished'
  exact ⟨f, hf, hpublished'', hrow'.trans hrow, hbundle'.trans hbundle⟩

section Statements

variable {conf : Routing.Config} {s : State} {i : ℕ} {d : Deployment}

/-- A deployment that fails. -/
theorem inv_failed (h : Inv conf s) (hd : s.deployments[i]? = some d) : Inv conf (s.put i { d with pc := .ended false }) := by
  have hg : Grows s (s.put i { d with pc := .ended false }) := grows_put hd rfl rfl id
  apply h.of_grows hg
  · exact fun id row hrow => Or.inr hrow
  · intro e he hpc
    rcases List.mem_or_eq_of_mem_set he with hold | rfl
    · exact Or.inr hold
    · cases hpc
  · exact fun row hrow => Or.inr hrow
  · exact h.sound

theorem inv_bundle (h : Inv conf s) (hd : s.deployments[i]? = some d)
    (hnew : s.routing.db.app_bundle_get d.bundle_id = none) (pc : Pc) :
    Inv conf ((s.change (.app_bundle_put d.bundle_id d.bundle)).put i { d with pc := pc }) := by
  have hput : Grows (s.change (.app_bundle_put d.bundle_id d.bundle))
      ((s.change (.app_bundle_put d.bundle_id d.bundle)).put i { d with pc := pc }) := grows_put hd rfl rfl id
  apply h.of_grows ((grows_change s _).trans hput)
  · exact fun id row hrow => Or.inr hrow
  · intro e he _
    rcases List.mem_or_eq_of_mem_set he with hold | rfl
    · exact Or.inr hold
    · exact Or.inl (app_bundle_get_put d.bundle hnew)
  · exact fun row hrow => Or.inr hrow
  · exact sound_change h.sound _

/-- The row is written when the bundle is there. -/
theorem inv_metadata (h : Inv conf s) (hd : s.deployments[i]? = some d) (hpc : d.pc = .app_metadata_put) (ok : Bool) :
    Inv conf ((s.change (.app_metadata_put d.row)).put i { d with pc := .ended ok, published := true }) := by
  have hput : Grows (s.change (.app_metadata_put d.row))
      ((s.change (.app_metadata_put d.row)).put i { d with pc := .ended ok, published := true }) :=
    grows_put hd rfl rfl fun _ => rfl
  apply h.of_grows ((grows_change s _).trans hput)
  · intro id row hrow
    have hget : (s.routing.db.change (.app_metadata_put d.row)).app_metadata_get id = some row := hrow
    rw [app_metadata_get_put] at hget
    split at hget
    · obtain rfl := Option.some.inj hget
      have hlt := (List.getElem?_eq_some_iff.1 hd).1
      refine Or.inl ⟨_, List.mem_set hlt _, rfl, rfl, ?_⟩
      exact Database.app_bundle_get_change (h.deployments d (List.mem_of_getElem? hd) hpc) _
    · exact Or.inr hget
  · intro e he hpc'
    rcases List.mem_or_eq_of_mem_set he with hold | rfl
    · exact Or.inr hold
    · cases hpc'
  · exact fun row hrow => Or.inr hrow
  · exact sound_change h.sound _

theorem inv_statement (h : Inv conf s) (hd : s.deployments[i]? = some d) {applied answered : Bool} {t : State}
    (hs : s.statement i d applied answered = some t) : Inv conf t := by
  unfold State.statement at hs
  split at hs
  · split at hs
    · rename_i hnew
      obtain rfl := Option.some.inj hs
      exact inv_bundle h hd hnew.2 _
    · obtain rfl := Option.some.inj hs
      exact inv_failed h hd
  · rename_i hpc
    split at hs
    · obtain rfl := Option.some.inj hs
      exact inv_metadata h hd hpc answered
    · obtain rfl := Option.some.inj hs
      exact inv_failed h hd
  · cases hs

end Statements

theorem inv_step {conf : Routing.Config} (s : State) (a : Action) (t : State) (h : Inv conf s)
    (hs : (machine conf).step s a = some t) : Inv conf t := by
  have hstep : s.step conf a = some t := hs
  cases a with
  | routing a =>
    obtain ⟨hother, hstep⟩ := Option.ite_none_right_eq_some.1 hstep
    obtain ⟨routing, hrouting, rfl⟩ := Option.map_eq_some_iff.1 hstep
    exact inv_routing h hother hrouting
  | add_app config bundle bundle_id =>
    obtain rfl := Option.some.inj hstep
    have hg : Grows s { s with deployments := s.deployments ++ [⟨config, bundle, bundle_id, .app_bundle_put, false⟩] } :=
      ⟨fun _ _ hb => hb, fun d hd hpublished => ⟨d, List.mem_append_left _ hd, hpublished, rfl, rfl⟩⟩
    apply h.of_grows hg
    · exact fun id row hrow => Or.inr hrow
    · intro d hd hpc
      rcases List.mem_append.1 hd with hold | hnew
      · exact Or.inr hold
      · rw [List.mem_singleton.1 hnew] at hpc
        cases hpc
    · exact fun row hrow => Or.inr hrow
    · exact h.sound
  | statement i applied answered =>
    obtain ⟨d, hd, hstatement⟩ := Option.bind_eq_some_iff.1 hstep
    exact inv_statement h hd hstatement

theorem inv_run {conf : Routing.Config} {as : List Action} {s : State} (h : (machine conf).run (start conf) as = some s) :
    Inv conf s :=
  (machine conf).run_invariant inv_step (inv_start conf) h

/-! ## Deployments are whole -/

/-- A row always names a bundle that is there. -/
theorem rows_have_bundles (conf : Routing.Config) (as : List Action) (s : State)
    (h : (machine conf).run (start conf) as = some s) (id : AppId) (row : AppConfig)
    (hrow : s.routing.db.app_metadata_get id = some row) :
    ∃ d ∈ s.deployments, d.published = true ∧ d.row = row ∧ s.routing.db.app_bundle_get row.bundle_id = some d.bundle := by
  obtain ⟨d, hd, hpublished, rfl, hbundle⟩ := (inv_run h).rows id row hrow
  exact ⟨d, hd, hpublished, rfl, hbundle⟩

/-- **No request sees half a deployment.** Whatever deployments, deletions and
failures go on at the same time, a request that has its app has it with the code,
the environment and the namespaces of one deployment of the app that it was routed
to, one whose row was written; and the worker that the request uses was spawned
with these. -/
theorem requests_use_one_deployment (conf : Routing.Config) (as : List Action) (s : State)
    (h : (machine conf).run (start conf) as = some s) (q : Sched.Request) (hq : q ∈ s.routing.sched.requests) (app : ℕ)
    (happ : q.pc.app = some app) :
    ∃ d ∈ s.deployments, d.published = true ∧ d.config.id = q.appid ∧
      s.routing.sched.args app = some ⟨d.config.id, target_config conf.sched d.config, d.bundle⟩ ∧
      ∀ inst ∈ q.pc.held, (inst.handle, ⟨d.config.id, target_config conf.sched d.config, d.bundle⟩)
        ∈ s.routing.sched.spawned := by
  have hinv := inv_run h
  obtain ⟨x, hargs, hid, hheld⟩ := hinv.sound.traced.requests q hq app happ
  obtain ⟨a, ha, rfl⟩ := Option.map_eq_some_iff.1 hargs
  obtain ⟨row, hrow, bundle, hbundle, hbuilt⟩ := hinv.sound.traced.built a (List.mem_of_getElem? ha)
  obtain ⟨d, hd, hpublished, rfl, hstored⟩ := hinv.reads row hrow
  -- the bundle that was read is the one of the deployment
  have hsame : bundle = d.bundle := Option.some.inj ((hinv.sound.reads _ hbundle).symm.trans hstored)
  have hspawn : a.spawn_args = ⟨d.config.id, target_config conf.sched d.config, d.bundle⟩ := by
    rw [hbuilt, hsame]
    rfl
  rw [hspawn] at hargs hid hheld
  exact ⟨d, hd, hpublished, hid, hargs, hheld⟩

/-- The app is deployed again between the two reads of a lookup. -/
def deploy_twice : List Action :=
  [.add_app ⟨"app", "", [], []⟩ [1] "v1", .statement 0 true true, .statement 0 true true,
    .routing (.change (.route_mapping_insert "a.com" "/" "app"))]
  ++ (Routing.route_request 0 "a.com").map .routing
  ++ [.routing (.sched (.step_request 0 .lookup)), .routing (.sched (.step_task .recv_lookup)),
    .routing (.sched (.step_task .check)), .routing (.sched (.step_task (.app_metadata_get (.ok (some ⟨"app", "v1", [], []⟩))))),
    .add_app ⟨"app", "", [], []⟩ [2] "v2", .statement 1 true true, .statement 1 true true,
    .routing (.sched (.step_task (.app_bundle_get (.ok (some [1]))))), .routing (.sched (.step_task .insert)),
    .routing (.sched (.step_task .reply)), .routing (.sched (.step_request 0 .lookup))]

theorem rows_have_bundles_twice : ∃ s, (machine Routing.small_conf).run (start Routing.small_conf) deploy_twice = some s ∧
    ∃ d ∈ s.deployments, d.published = true ∧ d.row = ⟨"app", "v2", [], []⟩ ∧
      s.routing.db.app_bundle_get "v2" = some d.bundle :=
  ⟨_, rfl, rows_have_bundles Routing.small_conf deploy_twice _ rfl "app" ⟨"app", "v2", [], []⟩ rfl⟩

theorem requests_use_one_deployment_twice : ∃ s q, (machine Routing.small_conf).run (start Routing.small_conf) deploy_twice = some s ∧
    q ∈ s.routing.sched.requests ∧ ∃ d ∈ s.deployments, d.published = true ∧ d.config.id = q.appid ∧ d.bundle = [1] := by
  have hrun : ((machine Routing.small_conf).run (start Routing.small_conf) deploy_twice).map (fun s =>
      (s.routing.sched.requests[0]?.map fun q => q.pc.app, (s.routing.sched.args 0).map SpawnArgs.bundle))
      = some (some (some 0), some [1]) := rfl
  obtain ⟨s, hs, heq⟩ := Option.map_eq_some_iff.1 hrun
  obtain ⟨hq, hbundle⟩ := Prod.mk.inj heq
  obtain ⟨q, hq, happ⟩ := Option.map_eq_some_iff.1 hq
  obtain ⟨d, hd, hpublished, hid, hargs, -⟩ := requests_use_one_deployment Routing.small_conf deploy_twice s hs q
    (List.mem_of_getElem? hq) 0 happ
  rw [hargs] at hbundle
  exact ⟨s, q, hs, List.mem_of_getElem? hq, d, hd, hpublished, hid, Option.some.inj hbundle⟩

end Deployments

end RustyWorkers

/-
The tables `routes`, `apps` and `bundles` (`sql/migration_000001/`), the
statements that `DataClient` (`rusty-workers/src/db.rs`) runs on them, and how a
request is routed: `lookup_submappings` (`rusty-workers-proxy/src/sched.rs`).

The columns of the primary keys are `utf8mb4_bin` and compare as strings do. A
`BTreeMap<String, String>` is the list of its entries in key order, so the order
in which the server returns the rows of a domain leaves no trace in it. A
statement that the server refuses changes nothing, and is no change here.
-/
import RustyWorkers.Lib.KeyedTable
import RustyWorkers.Sched

set_option autoImplicit false

namespace RustyWorkers

open Lib

namespace Routing

open Sched (AppId AppConfig btree_insert)

/-- A row of `routes`. -/
structure RouteRow where
  domain : String
  path : String
  appid : AppId
deriving DecidableEq, Repr

/-- The paths of a domain and their apps, in path order. -/
abbrev RouteMap := List (String × AppId)

def routes_key : Keying (String × String) RouteRow := .exact fun r => (r.domain, r.path)

def apps_key : Keying AppId AppConfig := .exact AppConfig.id

def bundles_key : Keying String (String × Bytes) := .exact Prod.fst

structure Database where
  routes : Table routes_key
  apps : Table apps_key
  bundles : Table bundles_key

/-- What an operator does to the tables. -/
inductive Change where
  | route_mapping_insert (domain path : String) (appid : AppId)
  | route_mapping_delete (domain path : String)
  | route_mapping_delete_domain (domain : String)
  | app_metadata_put (config : AppConfig)
  | app_metadata_delete (appid : AppId)
  | app_bundle_put (id : String) (value : Bytes)

/-- `Iterator::collect` into a `BTreeMap`. -/
def collect (items : List (String × AppId)) : RouteMap :=
  items.foldl (fun map x => btree_insert x.1 x.2 map) []

namespace Database

def empty : Database := ⟨.empty, .empty, .empty⟩

/-- `DataClient::route_mapping_list_for_domain`. -/
def route_mapping_list_for_domain (db : Database) (domain : String) : RouteMap :=
  collect ((db.routes.rows.filter fun r => r.domain = domain).map fun r => (r.path, r.appid))

/-- `DataClient::app_metadata_get`. -/
def app_metadata_get (db : Database) (appid : AppId) : Option AppConfig :=
  (db.apps.find appid).map fun config => { config with id := appid }

/-- `DataClient::app_bundle_get`. -/
def app_bundle_get (db : Database) (id : String) : Option Bytes := (db.bundles.find id).map Prod.snd

def change (db : Database) : Change → Database
  | .route_mapping_insert domain path appid => { db with routes := db.routes.replace ⟨domain, path, appid⟩ }
  | .route_mapping_delete domain path =>
    { db with routes := db.routes.delete fun r => r.domain = domain ∧ r.path = path }
  | .route_mapping_delete_domain domain => { db with routes := db.routes.delete fun r => r.domain = domain }
  | .app_metadata_put config =>
    { db with apps := db.apps.upsert (fun r => { config with id := r.id }) (fun _ _ => rfl) config }
  | .app_metadata_delete appid => { db with apps := db.apps.delete fun r => r.id = appid }
  | .app_bundle_put id value => { db with bundles := db.bundles.insert (id, value) }

/-- A bundle is there for good, and never changes. -/
theorem app_bundle_get_change {db : Database} {id : String} {bundle : Bytes}
    (h : db.app_bundle_get id = some bundle) (c : Change) : (db.change c).app_bundle_get id = some bundle := by
  cases c with
  | app_bundle_put id' value =>
    obtain ⟨row, hrow, hbundle⟩ := Option.map_eq_some_iff.1 h
    exact Option.map_eq_some_iff.2 ⟨row, Table.find_insert hrow _, hbundle⟩
  | route_mapping_insert | route_mapping_delete | route_mapping_delete_domain | app_metadata_put
  | app_metadata_delete => exact h

theorem app_metadata_get_id {db : Database} {appid : AppId} {config : AppConfig}
    (h : db.app_metadata_get appid = some config) : config.id = appid := by
  obtain ⟨row, -, rfl⟩ := Option.map_eq_some_iff.1 h
  rfl

end Database

/-! ## Maps in key order -/

/-- The entries are in the order of their keys. -/
def Sorted (m : RouteMap) : Prop := m.Pairwise fun a b => a.1 < b.1

theorem mem_btree_insert {k v : String} {m : RouteMap} (hk : k ∉ m.map Prod.fst) (e : String × AppId) :
    e ∈ btree_insert k v m ↔ e = (k, v) ∨ e ∈ m := by
  induction m with
  | nil => simp [btree_insert]
  | cons x m ih =>
    rw [List.map_cons, List.mem_cons, not_or] at hk
    rw [btree_insert, if_neg hk.1]
    split
    · rw [List.mem_cons]
    · rw [List.mem_cons, ih hk.2, List.mem_cons]
      exact or_left_comm

theorem sorted_btree_insert {k v : String} {m : RouteMap} (hs : Sorted m) (hk : k ∉ m.map Prod.fst) :
    Sorted (btree_insert k v m) := by
  induction m with
  | nil => exact List.pairwise_singleton _ _
  | cons x m ih =>
    obtain ⟨hx, hm⟩ := List.pairwise_cons.1 hs
    rw [List.map_cons, List.mem_cons, not_or] at hk
    rw [btree_insert, if_neg hk.1]
    -- the entry goes before the first one with a larger key, or further down
    split
    · rename_i hlt
      refine List.pairwise_cons.2 ⟨fun e he => ?_, hs⟩
      rcases List.mem_cons.1 he with rfl | hmem
      · exact hlt
      · exact lt_trans hlt (hx e hmem)
    · rename_i hlt
      refine List.pairwise_cons.2 ⟨fun e he => ?_, ih hm hk.2⟩
      rcases (mem_btree_insert hk.2 e).1 he with rfl | hmem
      · exact lt_of_le_of_ne (not_lt.1 hlt) (Ne.symm hk.1)
      · exact hx e hmem

/-- What comes of items with distinct keys. -/
theorem foldl_btree_insert {items : List (String × AppId)} (hitems : (items.map Prod.fst).Nodup) {m : RouteMap}
    (hs : Sorted m) (hfresh : ∀ x ∈ items, x.1 ∉ m.map Prod.fst) :
    Sorted (items.foldl (fun map x => btree_insert x.1 x.2 map) m)
      ∧ ∀ e, e ∈ items.foldl (fun map x => btree_insert x.1 x.2 map) m ↔ e ∈ items ∨ e ∈ m := by
  -- induction on the items, for any map that has none of their keys yet
  induction items generalizing m with
  | nil => exact ⟨hs, fun e => by simp⟩
  | cons x items ih =>
    rw [List.map_cons, List.nodup_cons] at hitems
    have hx := hfresh x List.mem_cons_self
    have hmem := mem_btree_insert (v := x.2) hx
    obtain ⟨hsorted, hall⟩ := ih hitems.2 (sorted_btree_insert (v := x.2) hs hx) (by
      intro y hy hin
      obtain ⟨e, he, hkey⟩ := List.mem_map.1 hin
      rcases (hmem e).1 he with rfl | hold
      · exact hitems.1 (List.mem_map.2 ⟨y, hy, hkey.symm⟩)
      · exact hfresh y (List.mem_cons_of_mem _ hy) (List.mem_map.2 ⟨e, hold, hkey⟩))
    refine ⟨hsorted, fun e => ?_⟩
    rw [List.foldl_cons, hall e, hmem e, List.mem_cons, or_left_comm, or_assoc]

/-- The map of a domain is its rows, in path order. -/
theorem route_mapping_spec (db : Database) (domain : String) :
    Sorted (db.route_mapping_list_for_domain domain)
      ∧ ∀ e, e ∈ db.route_mapping_list_for_domain domain
        ↔ ∃ r ∈ db.routes.rows, r.domain = domain ∧ e = (r.path, r.appid) := by
  have hnodup : (((db.routes.rows.filter fun r => r.domain = domain).map fun r => (r.path, r.appid)).map
      Prod.fst).Nodup := by
    rw [List.map_map, List.Nodup, List.pairwise_map]
    -- two rows of one domain differ in their paths, by the primary key
    refine (db.routes.primary_key.filter _).imp_of_mem fun {a b} ha hb hab heq => ?_
    have hda : a.domain = domain := by simpa using (List.mem_filter.1 ha).2
    have hdb : b.domain = domain := by simpa using (List.mem_filter.1 hb).2
    have hpath : a.path = b.path := heq
    simp [routes_key, Keying.exact, hda, hdb, hpath] at hab
  obtain ⟨hsorted, hmem⟩ := foldl_btree_insert hnodup (m := []) List.Pairwise.nil (by simp)
  refine ⟨hsorted, fun e => (hmem e).trans ?_⟩
  simp only [List.not_mem_nil, or_false, List.mem_map, List.mem_filter, decide_eq_true_eq, and_assoc]
  exact ⟨fun ⟨r, hr, hd, he⟩ => ⟨r, hr, hd, he.symm⟩, fun ⟨r, hr, hd, he⟩ => ⟨r, hr, hd, he.symm⟩⟩

/-! ## Route selection -/

/-- `str::starts_with`. -/
def starts_with (path k : String) : Bool := k.toList.isPrefixOf path.toList

/-- `lookup_submappings`: match in reverse order. -/
def lookup_submappings (path : String) (submappings : RouteMap) : Option AppId :=
  (submappings.reverse.find? fun e => starts_with path e.1).map Prod.snd

theorem starts_with_iff {path k : String} : starts_with path k = true ↔ k.toList <+: path.toList := by
  rw [starts_with, List.isPrefixOf_iff_prefix]

/-- Of two keys that a path begins with the smaller is the shorter. -/
theorem prefix_length_le {path a b : String} (ha : starts_with path a = true) (hb : starts_with path b = true)
    (hlt : a < b) : a.toList.length ≤ b.toList.length := by
  rw [starts_with_iff] at ha hb
  rcases List.prefix_or_prefix_of_prefix ha hb with hab | hba
  · exact hab.length_le
  · exact absurd (String.lt_iff_toList_lt.1 hlt) (List.not_lt.2 hba.le)

/-- The entry that is selected is the longest that the path begins with. -/
theorem lookup_submappings_longest {path : String} {m : RouteMap} (hs : Sorted m) {appid : AppId}
    (h : lookup_submappings path m = some appid) :
    ∃ k, (k, appid) ∈ m ∧ starts_with path k = true
      ∧ ∀ e ∈ m, starts_with path e.1 = true → e.1.toList.length ≤ k.toList.length := by
  obtain ⟨⟨k, a⟩, hfind, rfl⟩ := Option.map_eq_some_iff.1 h
  obtain ⟨hk, after, before, hsplit, hno⟩ := List.find?_eq_some_iff_append.1 hfind
  -- the search begins at the end of the map
  have hm : m = before.reverse ++ (k, a) :: after.reverse := by
    rw [← List.reverse_reverse m, hsplit]
    simp
  refine ⟨k, by simp [hm], hk, fun e he hstart => ?_⟩
  rw [hm, Sorted, List.pairwise_append] at hs
  rw [hm, List.mem_append, List.mem_cons] at he
  rcases he with hbefore | rfl | hafter
  · exact prefix_length_le hstart hk (hs.2.2 e hbefore (k, a) List.mem_cons_self)
  · exact le_rfl
  -- the search has passed over what comes after the entry
  · have hstop := hno e (List.mem_reverse.1 hafter)
    simp [hstart] at hstop

/-- The most specific path of the domain that the request path begins with maps
to the app. -/
def Database.Routes (db : Database) (domain path : String) (appid : AppId) : Prop :=
  ∃ row ∈ db.routes.rows, row.domain = domain ∧ row.appid = appid ∧ starts_with path row.path = true
    ∧ ∀ other ∈ db.routes.rows, other.domain = domain → starts_with path other.path = true →
      other.path.toList.length ≤ row.path.toList.length

/-- The proxy routes by the most specific path. -/
theorem lookup_most_specific {db : Database} {domain path : String} {appid : AppId}
    (h : db.Routes domain path appid) :
    lookup_submappings path (db.route_mapping_list_for_domain domain) = some appid := by
  obtain ⟨row, hrow, hdomain, happid, hstart, hlongest⟩ := h
  obtain ⟨hsorted, hmem⟩ := route_mapping_spec db domain
  have hin : (row.path, row.appid) ∈ db.route_mapping_list_for_domain domain :=
    (hmem _).2 ⟨row, hrow, hdomain, rfl⟩
  obtain ⟨x, hx⟩ : ∃ x, lookup_submappings path (db.route_mapping_list_for_domain domain) = some x := by
    rw [← Option.isSome_iff_exists, lookup_submappings, Option.isSome_map, List.find?_isSome]
    exact ⟨_, List.mem_reverse.2 hin, hstart⟩
  obtain ⟨k, hk, hkstart, hklongest⟩ := lookup_submappings_longest hsorted hx
  obtain ⟨other, hother, hodomain, heq⟩ := (hmem _).1 hk
  obtain ⟨rfl, rfl⟩ := Prod.mk.inj heq
  have hlength : other.path.toList.length = row.path.toList.length :=
    Nat.le_antisymm (hlongest other hother hodomain hkstart) (hklongest _ hin hstart)
  -- both are prefixes of the path, and of one length
  have hpath : other.path = row.path := by
    rw [starts_with_iff] at hkstart hstart
    exact String.toList_inj.1
      (List.IsPrefix.eq_of_length (List.prefix_of_prefix_length_le hkstart hstart hlength.le) hlength)
  have hsame : db.routes.find (domain, row.path) = some other :=
    Keying.find_eq_some db.routes.primary_key hother (by simp [routes_key, Keying.exact, hodomain, hpath])
  have hrow' : db.routes.find (domain, row.path) = some row :=
    Keying.find_eq_some db.routes.primary_key hrow (by simp [routes_key, Keying.exact, hdomain])
  rw [hx, ← happid, Option.some.inj (hsame.symm.trans hrow')]

end Routing

end RustyWorkers

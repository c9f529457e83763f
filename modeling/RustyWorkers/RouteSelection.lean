/-
Which route a path takes: `lookup_submappings` of the proxy
(`rusty-workers-proxy/src/sched.rs`) beside `DataClient::route_mapping_lookup`
(`rusty-workers/src/db.rs`), the lookup of the operator.

The proxy walks the paths of a domain in reverse order and takes the first one
that the request path begins with. No length is compared, and the path that is
found is the longest all the same: of two prefixes of one string the longer one
comes later.

The lookup of the operator leaves the choice to the server, which compares the
request path with `concat(path, '%')` by `like` and sorts by length. A stored
path with a `%`, a `_` or a `\` is a pattern there, and may catch requests that
do not begin with it, or miss those that do.
-/
import RustyWorkers.Lib.Like
import RustyWorkers.Lib.Utf8
import RustyWorkers.Routes

set_option autoImplicit false

namespace RustyWorkers

open Lib

namespace Routing

open Sched (AppId)
open Utf8 (bytes)

/-! ## Longest prefix -/

/-- The entries in the order of a `BTreeMap<String, _>`, which compares bytes. -/
def BytewiseSorted (m : RouteMap) : Prop := m.Pairwise fun a b => bytes a.1 < bytes b.1

instance (m : RouteMap) : Decidable (BytewiseSorted m) := inferInstanceAs (Decidable (List.Pairwise _ _))

/-- Strings are ordered as their bytes are. -/
theorem bytes_lt_iff {a b : String} : bytes a < bytes b ↔ a < b := by
  constructor
  · intro h
    rcases lt_trichotomy a b with hlt | rfl | hgt
    · exact hlt
    · exact absurd h (lt_irrefl _)
    · exact absurd (Utf8.bytes_lt hgt) (lt_asymm h)
  · exact Utf8.bytes_lt

theorem sorted_iff_bytewise {m : RouteMap} : Sorted m ↔ BytewiseSorted m := by
  rw [Sorted, BytewiseSorted]
  simp only [bytes_lt_iff]

/-- `str::starts_with` compares bytes. -/
theorem starts_with_iff_bytes {path k : String} : starts_with path k = true ↔ bytes k <+: bytes path := by
  rw [starts_with_iff, Utf8.bytes_prefix_iff]

/-- Of the prefixes of a path the one with more characters has more bytes. -/
theorem bytes_length_le {path a b : String} (ha : starts_with path a = true) (hb : starts_with path b = true)
    (h : a.toList.length ≤ b.toList.length) : (bytes a).length ≤ (bytes b).length := by
  rw [starts_with_iff] at ha hb
  exact (Utf8.bytes_prefix_iff.2 (List.prefix_of_prefix_length_le ha hb h)).length_le

/-- A path has one prefix of a length. -/
theorem eq_of_bytes_length {path a b : String} (ha : starts_with path a = true) (hb : starts_with path b = true)
    (h : (bytes a).length = (bytes b).length) : a = b := by
  rw [starts_with_iff_bytes] at ha hb
  have hab : bytes a = bytes b :=
    List.IsPrefix.eq_of_length (List.prefix_of_prefix_length_le ha hb h.le) h
  refine String.toList_inj.1 (List.IsPrefix.eq_of_length (Utf8.bytes_prefix_iff.1 (hab ▸ List.prefix_rfl)) ?_)
  exact Nat.le_antisymm (Utf8.bytes_prefix_iff.1 (hab ▸ List.prefix_rfl)).length_le
    (Utf8.bytes_prefix_iff.1 (hab ▸ List.prefix_rfl)).length_le

/-- An entry of the map that the path begins with, and none that is longer. -/
def LongestPrefix (m : RouteMap) (path k : String) (appid : AppId) : Prop :=
  (k, appid) ∈ m ∧ starts_with path k = true
    ∧ ∀ e ∈ m, starts_with path e.1 = true → (bytes e.1).length ≤ (bytes k).length

instance (m : RouteMap) (path k : String) (appid : AppId) : Decidable (LongestPrefix m path k appid) :=
  inferInstanceAs (Decidable (_ ∧ _))

/-- The search finds nothing only where there is nothing to find. -/
theorem lookup_eq_none {path : String} {m : RouteMap} :
    lookup_submappings path m = none ↔ ∀ e ∈ m, ¬ starts_with path e.1 = true := by
  rw [lookup_submappings, Option.map_eq_none_iff, List.find?_eq_none]
  simp only [List.mem_reverse]

/-- In a map with ordered keys, a key has one app. -/
theorem sorted_unique {m : RouteMap} (hs : Sorted m) {k : String} {a b : AppId} (ha : (k, a) ∈ m)
    (hb : (k, b) ∈ m) : a = b := by
  have hnodup : (m.map Prod.fst).Nodup := List.pairwise_map.2 (hs.imp ne_of_lt)
  exact (Prod.mk.inj (List.inj_on_of_nodup_map hnodup ha hb rfl)).2

theorem lookup_eq_some {path : String} {m : RouteMap} (hs : Sorted m) {appid : AppId} :
    lookup_submappings path m = some appid ↔ ∃ k, LongestPrefix m path k appid := by
  have hfound : ∀ x, lookup_submappings path m = some x → ∃ k, LongestPrefix m path k x := by
    intro x h
    obtain ⟨k, hk, hstart, hlongest⟩ := lookup_submappings_longest hs h
    exact ⟨k, hk, hstart, fun e he hbegin => bytes_length_le hbegin hstart (hlongest e he hbegin)⟩
  constructor
  · exact hfound appid
  · rintro ⟨k, hk, hstart, hlongest⟩
    cases hx : lookup_submappings path m with
    | none => exact absurd hstart (lookup_eq_none.1 hx _ hk)
    | some x =>
      obtain ⟨k', hk', hstart', hlongest'⟩ := hfound x hx
      -- both are prefixes of the path, and of one length
      obtain rfl := eq_of_bytes_length hstart hstart'
        (Nat.le_antisymm (hlongest' _ hk hstart) (hlongest _ hk' hstart'))
      rw [sorted_unique hs hk hk']

/-- **Route selection is longest-prefix match.** -/
theorem lookup_selects_longest (path : String) {m : RouteMap} (hs : BytewiseSorted m) :
    (∀ appid, lookup_submappings path m = some appid ↔ ∃ k, LongestPrefix m path k appid)
      ∧ (lookup_submappings path m = none ↔ ∀ e ∈ m, ¬ starts_with path e.1 = true) :=
  ⟨fun _ => lookup_eq_some (sorted_iff_bytewise.2 hs), lookup_eq_none⟩

theorem lookup_selects_longest_nested :
    lookup_submappings "/a/c" [("", "root"), ("/a", "app"), ("/a/b", "other")] = some "app" := by
  have hsorted : BytewiseSorted [("", "root"), ("/a", "app"), ("/a/b", "other")] := by decide
  exact ((lookup_selects_longest "/a/c" hsorted).1 "app").2 ⟨"/a", by decide⟩

/-! ## The lookup of the operator -/

/-- The special characters of `like`. -/
def sql_wildcards : Like.Wildcards Char := ⟨'%', '_', '\\'⟩

/-- `? like concat(path, '%')`. -/
def catches (path k : String) : Bool := sql_wildcards.like (k ++ "%").toList path.toList

/-- The order in which the server meets the rows that match, which decides
between rows of one length. -/
structure Server where
  order : List RouteRow → List RouteRow
  perm : ∀ rows, (order rows).Perm rows

/-- The server meets the rows as they are stored. -/
def Server.stored : Server := ⟨id, fun _ => .rfl⟩

/-- The server that has a certain row first, if it is there. -/
def Server.first (row : RouteRow) : Server where
  order rows := if row ∈ rows then row :: rows.erase row else rows
  perm rows := by
    split
    · exact (List.perm_cons_erase ‹_›).symm
    · exact .rfl

/-- `length(path)`, which counts bytes. -/
def RouteRow.length (r : RouteRow) : ℕ := (bytes r.path).length

/-- `DataClient::route_mapping_lookup`. -/
def Database.route_mapping_lookup (db : Database) (domain path : String) (server : Server) : Option AppId :=
  ((server.order (db.routes.rows.filter fun r => r.domain = domain && catches path r.path)).argmax
    RouteRow.length).map RouteRow.appid

/-- The lookup of the operator gives what the proxy computes. -/
def Database.LookupAgrees (db : Database) (domain path : String) : Prop :=
  ∀ server, db.route_mapping_lookup domain path server
    = lookup_submappings path (db.route_mapping_list_for_domain domain)

/-- The rows of a domain whose path passes a test. -/
def Database.RouteOf (db : Database) (domain : String) (p : String → Bool) (r : RouteRow) : Prop :=
  r ∈ db.routes.rows ∧ r.domain = domain ∧ p r.path = true

/-- The longest rows of a kind. -/
def Longest (P : RouteRow → Prop) (r : RouteRow) : Prop := P r ∧ ∀ other, P other → other.length ≤ r.length

/-- The special characters of the stored paths do no harm to a request. -/
structure PatternsHarmless (db : Database) (domain path : String) : Prop where
  /-- A longest row that catches the path as a pattern only is of the right app. -/
  impostor : ∀ r, Longest (db.RouteOf domain (catches path)) r → ¬ starts_with path r.path = true →
    ∃ q, Longest (db.RouteOf domain (starts_with path)) q ∧ q.appid = r.appid
  /-- If the longest row that the path begins with does not catch it, then others
  of its app do, and they are the longest. -/
  missed : ∀ q, Longest (db.RouteOf domain (starts_with path)) q → ¬ catches path q.path = true →
    (∃ r, db.RouteOf domain (catches path) r)
      ∧ ∀ r, Longest (db.RouteOf domain (catches path)) r → r.appid = q.appid

section Lookup

variable {db : Database} {domain path : String}

/-- What the server may answer with: any longest row that catches the path. -/
theorem route_mapping_lookup_some {server : Server} {appid : AppId}
    (h : db.route_mapping_lookup domain path server = some appid) :
    ∃ r, Longest (db.RouteOf domain (catches path)) r ∧ r.appid = appid := by
  obtain ⟨r, hr, rfl⟩ := Option.map_eq_some_iff.1 h
  obtain ⟨hmem, hmax, -⟩ := List.argmax_eq_some_iff.1 hr
  have hiff : ∀ x, x ∈ server.order (db.routes.rows.filter fun r => r.domain = domain && catches path r.path)
      ↔ db.RouteOf domain (catches path) x := by
    intro x
    rw [(server.perm _).mem_iff, List.mem_filter, Database.RouteOf]
    simp
  exact ⟨r, ⟨(hiff r).1 hmem, fun other hother => hmax other ((hiff other).2 hother)⟩, rfl⟩

/-- The server answers whenever a row catches the path. -/
theorem route_mapping_lookup_none (server : Server) :
    db.route_mapping_lookup domain path server = none ↔ ¬ ∃ r, db.RouteOf domain (catches path) r := by
  rw [Database.route_mapping_lookup, Option.map_eq_none_iff, List.argmax_eq_none, ← List.length_eq_zero_iff,
    (server.perm _).length_eq, List.length_eq_zero_iff, List.filter_eq_nil_iff]
  simp [Database.RouteOf]

/-- Each longest row that catches the path is the answer of some server. -/
theorem route_mapping_lookup_first {r : RouteRow} (hr : Longest (db.RouteOf domain (catches path)) r) :
    db.route_mapping_lookup domain path (.first r) = some r.appid := by
  have hmem : r ∈ db.routes.rows.filter fun r => r.domain = domain && catches path r.path := by
    rw [List.mem_filter]
    exact ⟨hr.1.1, by simp [hr.1.2.1, hr.1.2.2]⟩
  refine Option.map_eq_some_iff.2 ⟨r, List.argmax_eq_some_iff.2 ⟨?_, ?_, ?_⟩, rfl⟩
  · exact ((Server.first r).perm _).mem_iff.2 hmem
  · intro x hx
    obtain ⟨hrow, hx⟩ := List.mem_filter.1 (((Server.first r).perm _).mem_iff.1 hx)
    rw [Bool.and_eq_true, decide_eq_true_eq] at hx
    exact hr.2 x ⟨hrow, hx.1, hx.2⟩
  · intro x _ _
    show List.idxOf r (if r ∈ _ then _ else _) ≤ _
    rw [if_pos hmem, List.idxOf_cons_self]
    exact Nat.zero_le _

/-- What the proxy answers with: the longest row that the path begins with. -/
theorem proxy_lookup_some {appid : AppId} :
    lookup_submappings path (db.route_mapping_list_for_domain domain) = some appid
      ↔ ∃ q, Longest (db.RouteOf domain (starts_with path)) q ∧ q.appid = appid := by
  obtain ⟨hsorted, hmem⟩ := route_mapping_spec db domain
  rw [lookup_eq_some hsorted]
  constructor
  · rintro ⟨k, hk, hstart, hlongest⟩
    obtain ⟨q, hq, hdomain, heq⟩ := (hmem _).1 hk
    obtain ⟨rfl, rfl⟩ := Prod.mk.inj heq
    refine ⟨q, ⟨⟨hq, hdomain, hstart⟩, fun other hother => ?_⟩, rfl⟩
    exact hlongest _ ((hmem _).2 ⟨other, hother.1, hother.2.1, rfl⟩) hother.2.2
  · rintro ⟨q, ⟨⟨hq, hdomain, hstart⟩, hlongest⟩, rfl⟩
    refine ⟨q.path, (hmem _).2 ⟨q, hq, hdomain, rfl⟩, hstart, fun e he hbegin => ?_⟩
    obtain ⟨other, hother, hodomain, rfl⟩ := (hmem e).1 he
    exact hlongest other ⟨hother, hodomain, hbegin⟩

/-- A domain and a path have one row. -/
theorem routeOf_unique {p : String → Bool} {r q : RouteRow} (hr : db.RouteOf domain p r)
    (hq : db.RouteOf domain p q) (h : r.path = q.path) : r = q := by
  have hfind : ∀ x : RouteRow, db.RouteOf domain p x → x.path = r.path → db.routes.find (domain, r.path) = some x :=
    fun x hx hpath => Keying.find_eq_some db.routes.primary_key hx.1 (by simp [routes_key, Keying.exact, hx.2.1, hpath])
  exact Option.some.inj ((hfind r hr rfl).symm.trans (hfind q hq h.symm))

/-- **The exact condition.** -/
theorem route_mapping_lookup_agrees_iff (db : Database) (domain path : String) :
    db.LookupAgrees domain path ↔ PatternsHarmless db domain path := by
  constructor
  · intro h
    constructor
    · intro r hr _
      exact proxy_lookup_some.1 ((h (.first r)).symm.trans (route_mapping_lookup_first hr))
    · intro q hq _
      have hproxy := proxy_lookup_some.2 ⟨q, hq, rfl⟩
      refine ⟨?_, fun r hr => ?_⟩
      · by_contra hnone
        have hno := (route_mapping_lookup_none (.first q)).2 hnone
        rw [h, hproxy] at hno
        cases hno
      · have hlookup := route_mapping_lookup_first hr
        rw [h, hproxy] at hlookup
        exact (Option.some.inj hlookup).symm
  · intro h server
    cases hx : db.route_mapping_lookup domain path server with
    | none =>
      have hnone := (route_mapping_lookup_none server).1 hx
      symm
      by_contra hsome
      obtain ⟨appid, hproxy⟩ := Option.ne_none_iff_exists'.1 hsome
      obtain ⟨q, hq, -⟩ := proxy_lookup_some.1 hproxy
      -- the row of the proxy would catch the path, or others would
      by_cases hcatch : catches path q.path = true
      · exact hnone ⟨q, hq.1.1, hq.1.2.1, hcatch⟩
      · exact hnone (h.missed q hq hcatch).1
    | some appid =>
      obtain ⟨r, hr, rfl⟩ := route_mapping_lookup_some hx
      symm
      by_cases hbegin : starts_with path r.path = true
      · obtain ⟨a, ha⟩ := Option.ne_none_iff_exists'.1 fun hnone =>
          lookup_eq_none.1 hnone _ ((route_mapping_spec db domain).2 _ |>.2 ⟨r, hr.1.1, hr.1.2.1, rfl⟩) hbegin
        obtain ⟨q, hq, rfl⟩ := proxy_lookup_some.1 ha
        rw [ha]
        by_cases hcatch : catches path q.path = true
        -- the longest row of either kind is of the other kind too
        · have hle := hr.2 q ⟨hq.1.1, hq.1.2.1, hcatch⟩
          have hge := hq.2 r ⟨hr.1.1, hr.1.2.1, hbegin⟩
          have hpath := eq_of_bytes_length hbegin hq.1.2.2 (Nat.le_antisymm hge hle)
          rw [routeOf_unique ⟨hr.1.1, hr.1.2.1, hbegin⟩ hq.1 hpath]
        · rw [(h.missed q hq hcatch).2 r hr]
      · exact proxy_lookup_some.2 (h.impostor r hr hbegin)

/-- Paths without special characters do no harm. -/
theorem patterns_harmless_of_plain
    (h : ∀ r ∈ db.routes.rows, r.domain = domain → ∀ c ∈ r.path.toList, sql_wildcards.Plain c) :
    PatternsHarmless db domain path := by
  have hcatches : ∀ r ∈ db.routes.rows, r.domain = domain →
      (catches path r.path = true ↔ starts_with path r.path = true) := by
    intro r hr hdomain
    rw [starts_with_iff, catches, String.toList_append]
    exact Like.Wildcards.like_plain (h r hr hdomain)
  constructor
  · intro r hr hno
    exact absurd ((hcatches r hr.1.1 hr.1.2.1).1 hr.1.2.2) hno
  · intro q hq hno
    exact absurd ((hcatches q hq.1.1 hq.1.2.1).2 hq.1.2.2) hno

end Lookup

/-- A domain with two routes. -/
def two_routes (first second : String) : Database :=
  (Database.empty.change (.route_mapping_insert "example.com" first "first")).change
    (.route_mapping_insert "example.com" second "second")

/-- An underscore catches a path that does not begin with it, and a backslash
misses the path that it is in. -/
theorem route_mapping_lookup_disagrees :
    ¬ (two_routes "/" "/a_c").LookupAgrees "example.com" "/abc"
      ∧ ¬ (two_routes "/" "/a\\c").LookupAgrees "example.com" "/a\\c" := by
  constructor
  · intro h
    exact absurd (h .stored) (by decide)
  · intro h
    exact absurd (h .stored) (by decide)

end Routing

end RustyWorkers

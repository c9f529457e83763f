/-
Paging through a namespace: `KvNamespace.scanRaw` (`librt/src/kv.js`) and the
loop that scripts build on it.

The cursor is right: the key that follows `k` is `k` and a zero byte, so the
next page starts above the last key of the page before. What the loop cannot
make up for is the order of a page. The `select` behind it has a `limit` and no
`order by`, and a page that is not the smallest part of what is left moves the
cursor past keys that nobody has seen.
-/
import RustyWorkers.Lib.Lex
import RustyWorkers.Lib.Paging
import RustyWorkers.HandleTask

set_option autoImplicit false

namespace RustyWorkers

open Lib Paging

variable {coll : Collation}

/-- `end === null ? [start] : [start, end]`. -/
def scan_args (start : Bytes) : Option Bytes → List Bytes
  | none => [start]
  | some stop => [start, stop]

/-- `KvNamespace.scanRaw`: the start moves to the key after `startExclusive`;
an error of the host or of the call rejects the promise. -/
def scanRaw (t : AppKv coll) (conf : WorkerConfiguration) (name : String) (env : TaskEnv)
    (start : Bytes) (startExclusive stop : Option Bytes) (limit : UInt32) :
    Except String (List Bytes) :=
  let start := match startExclusive with
    | none => start
    | some k => k ++ [0]
  match respond (handle_task t conf ⟨.KvScan name limit, scan_args start stop⟩ env).1 with
  | .io_error => .error "io error"
  | .ok ⟨.user_error text, _⟩ => .error text
  | .ok r => .ok r.buffers

/-- The loop: page after page, each above the last key of the one before, until
a page is empty. `env i` is what page `i` meets. -/
def scan_pages (t : AppKv coll) (conf : WorkerConfiguration) (name : String) (env : ℕ → TaskEnv)
    (start : Bytes) (stop : Option Bytes) (limit : UInt32) :
    ℕ → ℕ → Option Bytes → Option (Except String (List (List Bytes)))
  | 0, _, _ => none
  | fuel + 1, i, last =>
    match scanRaw t conf name (env i) start last stop limit with
    | .error e => some (.error e)
    | .ok page =>
      match page.getLast? with
      | none => some (.ok [])
      | some k => (scan_pages t conf name env start stop limit fuel (i + 1) (some k)).map
          (·.map (page :: ·))

/-- No writes, no expirations and no lack of memory while the loop runs. -/
structure Steady (t : AppKv coll) (env : ℕ → TaskEnv) : Prop where
  live : ∀ i, ∀ r ∈ t.rows, r.live (env i).now = r.live (env 0).now
  memory : ∀ i n, (env i).allocate_arraybuffer n = .ok ()

/-- The host takes the bounds. -/
def bounds_accepted (start : Bytes) (stop : Option Bytes) : Prop :=
  start.length ≤ MAX_KV_KEY_SIZE ∧ ∀ e ∈ stop, e.length ≤ MAX_KV_KEY_SIZE

/-! ## One page -/

/-- What the server makes of the matching keys. -/
def page_of (env : ℕ → TaskEnv) (limit : UInt32) (i : ℕ) (keys : List Bytes) : List Bytes :=
  ((env i).server.order keys).take limit.toNat

theorem pages_page_of (env : ℕ → TaskEnv) (limit : UInt32) :
    Pages limit.toNat (page_of env limit) :=
  fun i keys => ⟨(env i).server.order keys, (env i).server.perm keys, rfl⟩

theorem select_keys_steady {t : AppKv coll} {env : ℕ → TaskEnv} (h : Steady t env) (i : ℕ)
    (nsid : String) (start : Bytes) (stop : Option Bytes) :
    t.select_keys nsid start stop (env i).now = t.select_keys nsid start stop (env 0).now := by
  unfold AppKv.select_keys
  congr 1
  exact List.filter_congr fun r hr => by rw [h.live i r hr]

/-- A start at `k ++ [0]` selects what lies above `k`. -/
theorem select_keys_exclusive (t : AppKv coll) (nsid : String) {start k : Bytes} (hk : start ≤ k)
    (stop : Option Bytes) (now : UInt64) :
    t.select_keys nsid (k ++ [0]) stop now
      = beyond (t.select_keys nsid start stop now) (some k) := by
  simp only [AppKv.select_keys, beyond]
  rw [List.filter_map, List.filter_filter]
  congr 1
  refine List.filter_congr fun r _ => ?_
  have hnext : k ++ [0] ≤ r.appkey ↔ k < r.appkey := (lt_iff_append_bot_le k r.appkey).symm
  have hstart : k < r.appkey → start ≤ r.appkey := fun h => hk.trans h.le
  simp only [AppKv.in_range, Function.comp_apply, hnext]
  by_cases hlt : k < r.appkey
  · simp [hlt, hstart hlt]
  · simp [hlt]

theorem allocate_all {env : TaskEnv} (h : ∀ n, env.allocate_arraybuffer n = .ok ())
    (keys : List Bytes) : keys.mapM (allocate_with_data env) = .ok keys := by
  induction keys with
  | nil => rfl
  | cons k keys ih =>
      have hk : allocate_with_data env k = .ok k := by
        unfold allocate_with_data
        rw [h]
      rw [List.mapM_cons, hk, ih]
      rfl

section Page

variable {t : AppKv coll} {conf : WorkerConfiguration} {name nsid : String} {env : ℕ → TaskEnv}
  {limit : UInt32} (hns : conf.kv_namespaces.lookup name = some nsid) (hlimit : limit ≤ 100)
  (hsteady : Steady t env)

include hns hlimit hsteady

/-- A page of a scan whose bounds the host takes. -/
theorem handle_scan {start : Bytes} {stop : Option Bytes} (h : bounds_accepted start stop) (i : ℕ) :
    respond (handle_task t conf ⟨.KvScan name limit, scan_args start stop⟩ (env i)).1
      = .ok ⟨.user_ok_unit, page_of env limit i (t.select_keys nsid start stop (env 0).now)⟩ := by
  have hid : namespace_id conf name = .ok nsid := by
    unfold namespace_id
    rw [hns]
  have hstart : read_buffer (scan_args start stop) 0 MAX_KV_KEY_SIZE "missing start key"
      "start_key too large" = .ok start := by
    cases stop <;> simp [read_buffer, scan_args, h.1]
  have hstop : read_end_key (scan_args start stop) = .ok stop := by
    cases stop with
    | none => rfl
    | some e => simp [read_end_key, scan_args, h.2 e rfl]
  have hle : ¬ MAX_KV_SCAN_LIMIT < limit := UInt32.not_lt.2 hlimit
  simp only [handle_task, hstart, hstop, hid]
  change respond (run_kv t (env i) (if MAX_KV_SCAN_LIMIT < limit then _ else _)).1 = _
  rw [if_neg hle]
  change respond (perform t (.scan_keys nsid start stop limit.toNat (env i).server) (env i)).1 = _
  simp only [perform, worker_data_scan_keys]
  change respond ((page_of env limit i (t.select_keys nsid start stop (env i).now)).mapM
    (allocate_with_data (env i)) >>= fun keys => pure ⟨.user_ok_unit, keys⟩) = _
  rw [allocate_all (hsteady.memory i), select_keys_steady hsteady]
  rfl

theorem scanRaw_first {start : Bytes} {stop : Option Bytes} (h : bounds_accepted start stop) (i : ℕ) :
    scanRaw t conf name (env i) start none stop limit
      = .ok (page_of env limit i (t.select_keys nsid start stop (env 0).now)) := by
  simp only [scanRaw, handle_scan hns hlimit hsteady h i]

theorem scanRaw_next {start k : Bytes} {stop : Option Bytes} (h : bounds_accepted start stop)
    (hk : k ∈ t.select_keys nsid start stop (env 0).now) (i : ℕ) :
    scanRaw t conf name (env i) start (some k) stop limit
      = .ok (page_of env limit i (beyond (t.select_keys nsid start stop (env 0).now) (some k))) := by
  obtain ⟨hrange, hlive⟩ := (t.mem_select_keys nsid start stop (env 0).now k).1 hk
  have hle : start ≤ k := by
    simp only [AppKv.in_range, Bool.and_eq_true, decide_eq_true_eq] at hrange
    exact hrange.1
  -- a stored key is at most 1024 bytes long, so the cursor is taken
  have hlen : (k ++ [0]).length ≤ MAX_KV_KEY_SIZE := by
    obtain ⟨r, hr⟩ := Option.isSome_iff_exists.1 hlive
    obtain ⟨hmem, _, hkey⟩ := AppKv.row_at_mem (Option.filter_eq_some_iff.1 hr).1
    have hfits := t.columns r hmem
    simp only [Row.fits, Bool.and_eq_true, decide_eq_true_eq] at hfits
    rw [← hkey, List.length_append, List.length_singleton, MAX_KV_KEY_SIZE]
    omega
  rw [← select_keys_exclusive t nsid hle]
  exact scanRaw_first hns hlimit hsteady ⟨hlen, h.2⟩ i

end Page

/-- The host refuses a scan whose bounds are too long. -/
theorem scanRaw_refused (t : AppKv coll) (conf : WorkerConfiguration) (name : String) (env : TaskEnv)
    {start : Bytes} {stop : Option Bytes} (h : ¬ bounds_accepted start stop) (limit : UInt32) :
    ∃ text, scanRaw t conf name env start none stop limit = .error text := by
  by_cases hstart : start.length ≤ MAX_KV_KEY_SIZE
  · cases stop with
    | none => exact absurd ⟨hstart, by simp⟩ h
    | some e =>
        have hlong : ¬ e.length ≤ MAX_KV_KEY_SIZE := by
          intro he
          refine h ⟨hstart, fun e' he' => ?_⟩
          cases he'
          exact he
        have hread : read_buffer [start, e] 0 MAX_KV_KEY_SIZE "missing start key"
            "start_key too large" = .ok start := by simp [read_buffer, hstart]
        have hend : read_end_key [start, e] = .error (.reply (mk_user_error "end_key too large")) := by
          simp [read_end_key, hlong]
        refine ⟨"end_key too large", ?_⟩
        simp only [scanRaw, scan_args, handle_task, hread, hend]
        rfl
  · have hread : read_buffer (scan_args start stop) 0 MAX_KV_KEY_SIZE "missing start key"
        "start_key too large" = .error (.reply (mk_user_error "start_key too large")) := by
      cases stop <;> simp [read_buffer, scan_args, hstart]
    refine ⟨"start_key too large", ?_⟩
    simp only [scanRaw, handle_task, hread]
    rfl

/-! ## The loop -/

section Loop

variable {t : AppKv coll} {conf : WorkerConfiguration} {name nsid : String} {env : ℕ → TaskEnv}
  {limit : UInt32} (hns : conf.kv_namespaces.lookup name = some nsid) (hlimit : limit ≤ 100)
  (hsteady : Steady t env) {start : Bytes} {stop : Option Bytes} (h : bounds_accepted start stop)

include hns hlimit hsteady h

theorem scanRaw_beyond {last : Option Bytes}
    (hlast : ∀ k ∈ last, k ∈ t.select_keys nsid start stop (env 0).now) (i : ℕ) :
    scanRaw t conf name (env i) start last stop limit
      = .ok (page_of env limit i (beyond (t.select_keys nsid start stop (env 0).now) last)) := by
  cases last with
  | none => exact scanRaw_first hns hlimit hsteady h i
  | some k => exact scanRaw_next hns hlimit hsteady h (hlast k rfl) i

/-- The script's loop is the paging loop over the matching keys. -/
theorem scan_pages_eq_collect (fuel i : ℕ) {last : Option Bytes}
    (hlast : ∀ k ∈ last, k ∈ t.select_keys nsid start stop (env 0).now) :
    scan_pages t conf name env start stop limit fuel i last
      = (collect (page_of env limit) fuel i
          (beyond (t.select_keys nsid start stop (env 0).now) last)).map .ok := by
  induction fuel generalizing i last with
  | zero => rfl
  | succ fuel ih =>
      rw [scan_pages, collect, scanRaw_beyond hns hlimit hsteady h hlast i]
      dsimp only
      cases hpage : (page_of env limit i
          (beyond (t.select_keys nsid start stop (env 0).now) last)).getLast? with
      | none => rfl
      | some a =>
          have ha : a ∈ beyond (t.select_keys nsid start stop (env 0).now) last :=
            (pages_page_of env limit).mem (List.mem_of_getLast? hpage)
          have hkeys : a ∈ t.select_keys nsid start stop (env 0).now := by
            cases last with
            | none => exact ha
            | some k => exact (List.mem_filter.1 ha).1
          dsimp only
          rw [beyond_beyond ha, ih (i + 1) (by simpa using hkeys), Option.map_map, Option.map_map]
          rfl

end Loop

/-! ## When paging is complete -/

/-- The loop ends, and its pages together are the live keys of the range, each
once and in ascending order. -/
def Complete (t : AppKv coll) (conf : WorkerConfiguration) (name nsid : String)
    (env : ℕ → TaskEnv) (start : Bytes) (stop : Option Bytes) (limit : UInt32) : Prop :=
  ∃ fuel pages, scan_pages t conf name env start stop limit fuel 0 none = some (.ok pages)
    ∧ pages.flatten.Pairwise (· < ·)
    ∧ ∀ k, k ∈ pages.flatten
        ↔ AppKv.in_range start stop k = true ∧ (t.live_at nsid k (env 0).now).isSome = true

/-- Each page of the ascending way, the `i`-th one above the first `i * limit`
keys, comes as the smallest keys that are left, in ascending order. -/
def smallest_first (keys : List Bytes) (env : ℕ → TaskEnv) (limit : UInt32) : Prop :=
  ∀ i, ((env i).server.order (above keys ((asc keys).take (i * limit.toNat)))).take limit.toNat
    = ((asc keys).drop (i * limit.toNat)).take limit.toNat

theorem ordered_page_of (keys : List Bytes) (env : ℕ → TaskEnv) (limit : UInt32) :
    Ordered limit.toNat (page_of env limit) 0 keys ↔ smallest_first keys env limit := by
  unfold Ordered smallest_first page_of
  simp only [Nat.zero_add]

section Complete

variable {t : AppKv coll} {conf : WorkerConfiguration} {name nsid : String}
  {limit : UInt32} (hns : conf.kv_namespaces.lookup name = some nsid) (h1 : 1 ≤ limit)
  (h100 : limit ≤ 100)

include hns h1 h100

theorem complete_iff {env : ℕ → TaskEnv} (hsteady : Steady t env) (start : Bytes)
    (stop : Option Bytes) :
    Complete t conf name nsid env start stop limit
      ↔ bounds_accepted start stop
        ∧ smallest_first (t.select_keys nsid start stop (env 0).now) env limit := by
  have hpos : 1 ≤ limit.toNat := h1
  have hnodup := t.nodup_select_keys nsid start stop (env 0).now
  have hpages := pages_page_of env limit
  constructor
  · rintro ⟨fuel, pages, hrun, hsorted, hmem⟩
    have hbounds : bounds_accepted start stop := by
      by_contra hno
      obtain ⟨text, htext⟩ := scanRaw_refused t conf name (env 0) hno limit
      cases fuel with
      | zero => cases hrun
      | succ fuel =>
          rw [scan_pages, htext] at hrun
          cases hrun
    refine ⟨hbounds, ?_⟩
    rw [scan_pages_eq_collect hns h100 hsteady hbounds fuel 0 (by simp)] at hrun
    obtain ⟨ps, hcollect, hps⟩ := Option.map_eq_some_iff.1 hrun
    cases hps
    rw [← ordered_page_of, ← collect_eq_asc_iff hpages hpos hnodup hcollect]
    exact eq_asc hsorted (fun k => (hmem k).trans (t.mem_select_keys ..).symm) hnodup
  · rintro ⟨hbounds, hfirst⟩
    obtain ⟨ps, hcollect⟩ := collect_terminates hpages (i := 0)
      (Nat.lt_succ_self (t.select_keys nsid start stop (env 0).now).length)
    have hasc := (collect_eq_asc_iff hpages hpos hnodup hcollect).2 ((ordered_page_of ..).2 hfirst)
    refine ⟨(t.select_keys nsid start stop (env 0).now).length + 1, ps, ?_, ?_, fun k => ?_⟩
    · rw [scan_pages_eq_collect hns h100 hsteady hbounds _ 0 (by simp)]
      exact Option.map_eq_some_iff.2 ⟨ps, hcollect, rfl⟩
    · rw [hasc]
      exact asc_lt hnodup
    · rw [hasc, (asc_perm _).mem_iff]
      exact t.mem_select_keys nsid start stop (env 0).now k

omit h1 in
/-- Whatever the server answers, the loop ends. -/
theorem scan_terminates {env : ℕ → TaskEnv} (hsteady : Steady t env) (start : Bytes)
    (stop : Option Bytes) :
    ∃ fuel result, scan_pages t conf name env start stop limit fuel 0 none = some result := by
  by_cases hbounds : bounds_accepted start stop
  · obtain ⟨ps, hcollect⟩ := collect_terminates (pages_page_of env limit) (i := 0)
      (Nat.lt_succ_self (t.select_keys nsid start stop (env 0).now).length)
    refine ⟨(t.select_keys nsid start stop (env 0).now).length + 1, .ok ps, ?_⟩
    rw [scan_pages_eq_collect hns h100 hsteady hbounds _ 0 (by simp)]
    exact Option.map_eq_some_iff.2 ⟨ps, hcollect, rfl⟩
  · obtain ⟨text, htext⟩ := scanRaw_refused t conf name (env 0) hbounds limit
    refine ⟨1, .error text, ?_⟩
    rw [scan_pages, htext]

end Complete

/-! ### Servers that are free to choose -/

/-- The server returns the largest keys first. -/
def RowOrder.descending : RowOrder where
  order rows := (asc rows).reverse
  perm rows := (List.reverse_perm _).trans (asc_perm rows)

/-- The same environment with another server. -/
def with_server (env : ℕ → TaskEnv) (server : ℕ → RowOrder) (i : ℕ) : TaskEnv :=
  { env i with server := server i }

/-- One key or none comes in order from every server; two keys do not come in
order from one that returns the largest first. -/
theorem smallest_first_of_every_server (keys : List Bytes) (hkeys : keys.Nodup)
    (env : ℕ → TaskEnv) {limit : UInt32} (h1 : 1 ≤ limit) :
    (∀ server, smallest_first keys (with_server env server) limit) ↔ keys.length ≤ 1 := by
  have hpos : 1 ≤ limit.toNat := h1
  constructor
  · intro h
    have h0 := h (fun _ => .descending) 0
    have hall : above keys ((asc keys).take (0 * limit.toNat)) = keys := by simp [above]
    rw [hall, Nat.zero_mul, List.drop_zero] at h0
    change (asc keys).reverse.take limit.toNat = (asc keys).take limit.toNat at h0
    have hhead : (asc keys).reverse.head? = (asc keys).head? := by
      have h0' := congrArg List.head? h0
      rwa [List.head?_take, List.head?_take, if_neg (by omega), if_neg (by omega)] at h0'
    rw [List.head?_reverse] at hhead
    have hlt := asc_lt hkeys
    rw [← (asc_perm keys).length_eq]
    -- the first and the last of an ascending list differ if it has two entries
    cases hm : asc keys with
    | nil => simp
    | cons a rest =>
        rw [hm] at hhead hlt
        by_contra hlen
        have hne : rest ≠ [] := by
          rintro rfl
          simp at hlen
        rw [List.getLast?_cons_of_ne_nil hne, List.head?_cons] at hhead
        have hmem : a ∈ rest := List.mem_of_getLast? hhead
        exact lt_irrefl a ((List.pairwise_cons.1 hlt).1 a hmem)
  · intro hlen server i
    have hsub : (above keys ((asc keys).take (i * limit.toNat))).length ≤ 1 :=
      (List.length_filter_le _ _).trans hlen
    have hone : ∀ l l' : List Bytes, l'.length ≤ 1 → l.Perm l' → l = l' := by
      intro l l' hl' hperm
      cases l' with
      | nil => exact hperm.eq_nil
      | cons a rest =>
          have hnil : rest = [] := by simpa using hl'
          rw [hnil] at hperm ⊢
          exact List.perm_singleton.1 hperm
    have horder : (server i).order (above keys ((asc keys).take (i * limit.toNat)))
        = above keys ((asc keys).take (i * limit.toNat)) := hone _ _ hsub ((server i).perm _)
    have hasc : asc (above keys ((asc keys).take (i * limit.toNat)))
        = above keys ((asc keys).take (i * limit.toNat)) := hone _ _ hsub (asc_perm _)
    change ((server i).order _).take _ = _
    rw [horder, ← hasc, asc_above hkeys]

/-- **When paging is complete.** For a configured namespace and a page size
from 1 to 100, with no writes or expirations meanwhile, the loop always ends.
It returns all live keys of the range exactly once and in ascending order if
and only if the host takes the bounds and the server happens to return every
page as the smallest keys that are left, in ascending order; and it does so
whatever the server returns only where at most one key is live. -/
theorem scan_complete_iff {t : AppKv coll} {conf : WorkerConfiguration} {name nsid : String}
    {limit : UInt32} (hns : conf.kv_namespaces.lookup name = some nsid) (h1 : 1 ≤ limit)
    (h100 : limit ≤ 100) {env : ℕ → TaskEnv} (hsteady : Steady t env) (start : Bytes)
    (stop : Option Bytes) :
    (∃ fuel result, scan_pages t conf name env start stop limit fuel 0 none = some result)
    ∧ (Complete t conf name nsid env start stop limit
        ↔ bounds_accepted start stop
          ∧ smallest_first (t.select_keys nsid start stop (env 0).now) env limit)
    ∧ ((∀ server, Complete t conf name nsid (with_server env server) start stop limit)
        ↔ bounds_accepted start stop
          ∧ (t.select_keys nsid start stop (env 0).now).length ≤ 1) := by
  refine ⟨scan_terminates hns h100 hsteady start stop,
    complete_iff hns h1 h100 hsteady start stop, ?_⟩
  have hsame : ∀ server, Steady t (with_server env server) := fun _ => ⟨hsteady.live, hsteady.memory⟩
  have hiff : ∀ server, Complete t conf name nsid (with_server env server) start stop limit
      ↔ bounds_accepted start stop ∧ smallest_first (t.select_keys nsid start stop (env 0).now)
          (with_server env server) limit :=
    fun server => complete_iff hns h1 h100 (hsame server) start stop
  rw [← smallest_first_of_every_server _ (t.nodup_select_keys ..) env h1]
  constructor
  · intro h
    exact ⟨((hiff fun _ => .stored).1 (h _)).1, fun server => ((hiff server).1 (h server)).2⟩
  · rintro ⟨hbounds, hfirst⟩ server
    exact (hiff server).2 ⟨hbounds, hfirst server⟩

/-- A worker with the namespace `kv`. -/
def kv_conf : WorkerConfiguration := ⟨⟨32, 1000, 10, 50⟩, [], [("kv", "ns")]⟩

/-- The key `a` only. -/
def one_key : AppKv .binary := .singleton (kv_row "ns" [97] [] 0) (by decide)

theorem scan_complete_iff_one_key :
    Complete one_key kv_conf "kv" "ns" (with_server (fun _ => .quiet) fun _ => .reversed) [] none 1
    ∧ ∃ fuel result, scan_pages one_key kv_conf "kv" (fun _ => .quiet) [] none 1 fuel 0 none
        = some result := by
  have hsteady : Steady one_key fun _ => .quiet := ⟨fun _ _ _ => rfl, fun _ _ => rfl⟩
  have hname : kv_conf.kv_namespaces.lookup "kv" = some "ns" := rfl
  have h := scan_complete_iff hname (show 1 ≤ (1 : UInt32) by decide) (by decide) hsteady [] none
  exact ⟨h.2.2.2 ⟨⟨by decide, by simp⟩, by decide⟩ _, h.1⟩

/-- The keys `a` and `b`. -/
def two_keys : AppKv .binary where
  rows := [kv_row "ns" [97] [] 0, kv_row "ns" [98] [] 0]
  primary_key := by
    unfold Keying.Unique
    decide
  columns := by decide

/-- A server that returns the row stored last first. -/
def reversed_server (_ : ℕ) : TaskEnv := { TaskEnv.quiet with server := .reversed }

/-- With pages of one key the loop returns `b` only, and never sees `a`. -/
theorem paging_skips_a_key :
    scan_pages two_keys kv_conf "kv" reversed_server [] none 1 3 0 none = some (.ok [[[98]]])
    ∧ (two_keys.live_at "ns" [97] 0).isSome = true
    ∧ ¬ Complete two_keys kv_conf "kv" "ns" reversed_server [] none 1 := by
  refine ⟨rfl, rfl, fun h => ?_⟩
  have hsteady : Steady two_keys reversed_server := ⟨fun _ _ _ => rfl, fun _ _ => rfl⟩
  have hfirst := ((complete_iff rfl (by decide) (by decide) hsteady [] none).1 h).2 0
  revert hfirst
  decide

end RustyWorkers

/-
The `appkv` table (`sql/migration_000001/appkv.sql`) and the SQL statements
that `rusty-workers/src/db.rs` runs on it.

`nsid` is declared without a collation, so the comparison `nsid = ?` and the
primary key use whatever default the server has: the table is parametrised by a
`Collation`, an arbitrary equivalence of strings. `appkey` and `appvalue` are
binary columns and compare byte for byte. A table carries its primary key and
the column widths as fields, so a statement that would break either cannot
build one; a row that does not fit its columns is refused (strict SQL mode).

Each statement is one definition and has one lemma, in terms of `row_at`, the
row stored under a key. Nothing later looks at the list of rows again.
-/
import RustyWorkers.Lib.KeyedTable
import RustyWorkers.Types

set_option autoImplicit false

namespace RustyWorkers

open Lib

/-- How the server compares two `nsid` values. -/
structure Collation where
  eq : String → String → Bool
  refl : ∀ a, eq a a = true
  symm : ∀ {a b}, eq a b = true → eq b a = true
  trans : ∀ {a b c}, eq a b = true → eq b c = true → eq a c = true

/-- A binary collation, such as the `utf8mb4_bin` of the other tables: strings
compare equal only to themselves. -/
def Collation.binary : Collation where
  eq a b := a == b
  refl := by simp
  symm := by simp
  trans := by simp

/-- A case-insensitive collation, restricted to what it does on ASCII letters. -/
def Collation.ci : Collation where
  eq a b := a.toList.map Char.toLower == b.toList.map Char.toLower
  refl := by simp
  symm h := by simpa using (beq_iff_eq.1 h).symm
  trans h h' := by simpa using (beq_iff_eq.1 h).trans (beq_iff_eq.1 h')

/-- Collations that agree with one string on a common value agree on each other. -/
theorem Collation.eq_congr (coll : Collation) {a b : String} (h : coll.eq a b = true) (c : String) :
    coll.eq a c = coll.eq b c := by
  rw [Bool.eq_iff_iff]
  exact ⟨fun hac => coll.trans (coll.symm h) hac, fun hbc => coll.trans h hbc⟩

/-- A row of `appkv`. -/
structure Row where
  nsid : String
  appkey : Bytes
  appvalue : Bytes
  appmetadata : Bytes
  appexpiration : UInt64
deriving DecidableEq, Repr

/-- `(appexpiration = 0 or appexpiration > now)`. -/
def Row.live (now : UInt64) (r : Row) : Bool := r.appexpiration == 0 || decide (now < r.appexpiration)

/-- The row fits `VARCHAR(64)`, `VARBINARY(1024)`, `LONGBLOB` and `BLOB`. -/
def Row.fits (r : Row) : Bool :=
  decide (r.nsid.length ≤ 64) && decide (r.appkey.length ≤ 1024)
    && decide (r.appvalue.length < 2 ^ 32) && decide (r.appmetadata.length < 2 ^ 16)

/-- `nsid = ? and appkey = ?`, with `nsid` compared by the collation. -/
def appkv_key (coll : Collation) : Keying (String × Bytes) Row where
  hit q r := coll.eq q.1 r.nsid && (q.2 == r.appkey)
  key r := (r.nsid, r.appkey)
  hit_key r := by simp [coll.refl]
  hit_eq := by
    intro q q' r h h'
    simp only [Bool.and_eq_true, beq_iff_eq] at h h'
    funext r'
    rw [coll.eq_congr (coll.trans h.1 (coll.symm h'.1)), h.2, h'.2]

/-- The content of the table, with its primary key and its column types. -/
structure AppKv (coll : Collation) where
  rows : List Row
  primary_key : (appkv_key coll).Unique rows
  columns : ∀ r ∈ rows, r.fits = true

/-- Why a statement is refused: `Data too long for column`. -/
inductive SqlError where
  | dataTooLong
deriving DecidableEq, Repr

namespace AppKv

variable {coll : Collation}

/-- The empty table. -/
def empty : AppKv coll := ⟨[], List.Pairwise.nil, by simp⟩

/-- The table with one row. -/
def singleton (r : Row) (h : r.fits = true) : AppKv coll where
  rows := [r]
  primary_key := List.pairwise_singleton _ _
  columns r' hr' := by
    rw [List.mem_singleton.1 hr']
    exact h

/-- The row stored under a primary key. -/
def row_at (t : AppKv coll) (nsid : String) (appkey : Bytes) : Option Row :=
  (appkv_key coll).find (nsid, appkey) t.rows

theorem row_at_iff (t : AppKv coll) {nsid : String} {appkey : Bytes} {r : Row} :
    t.row_at nsid appkey = some r ↔ r ∈ t.rows ∧ coll.eq nsid r.nsid = true ∧ r.appkey = appkey := by
  rw [row_at, Keying.find_iff t.primary_key]
  simp only [appkv_key, Bool.and_eq_true, beq_iff_eq, @eq_comm _ appkey]

theorem row_at_mem {t : AppKv coll} {nsid : String} {appkey : Bytes} {r : Row}
    (h : t.row_at nsid appkey = some r) :
    r ∈ t.rows ∧ coll.eq nsid r.nsid = true ∧ r.appkey = appkey := t.row_at_iff.1 h

/-! ## The statements -/

/-- `select appvalue from appkv where nsid = ? and appkey = ? and <live>`. -/
def select_value (t : AppKv coll) (nsid : String) (appkey : Bytes) (now : UInt64) : Option Bytes :=
  (t.rows.find? fun r => (appkv_key coll).hit (nsid, appkey) r && r.live now).map (·.appvalue)

/-- `select 1 from appkv where nsid = ? and appkey = ? and appvalue = ? and
<live> for update`; the lock is the business of the transaction. -/
def select_for_update (t : AppKv coll) (nsid : String) (appkey appvalue : Bytes) (now : UInt64) :
    Option ℕ :=
  (t.rows.find? fun r =>
    (appkv_key coll).hit (nsid, appkey) r && (r.appvalue == appvalue && r.live now)).map fun _ => 1

/-- `appkey between start and end`, or `appkey >= start` without an end. -/
def in_range (start : Bytes) (stop : Option Bytes) (k : Bytes) : Bool :=
  decide (start ≤ k) && stop.all fun e => decide (k ≤ e)

/-- The rows of `select appkey from appkv where nsid = ? and <range> and <live>`,
before the `limit`. -/
def select_keys (t : AppKv coll) (nsid : String) (start : Bytes) (stop : Option Bytes)
    (now : UInt64) : List Bytes :=
  (t.rows.filter fun r => coll.eq nsid r.nsid && (in_range start stop r.appkey && r.live now)).map
    (·.appkey)

/-- The `on duplicate key update appvalue = .., appexpiration = ..` of an insert. -/
def on_duplicate_key (new r : Row) : Row :=
  { r with appvalue := new.appvalue, appexpiration := new.appexpiration }

theorem hit_on_duplicate_key (new : Row) (q : String × Bytes) (r : Row) :
    (appkv_key coll).hit q (on_duplicate_key new r) = (appkv_key coll).hit q r := rfl

theorem fits_on_duplicate_key {new r : Row} (hn : new.fits = true) (hr : r.fits = true) :
    (on_duplicate_key new r).fits = true := by
  simp only [Row.fits, on_duplicate_key, Bool.and_eq_true] at hn hr ⊢
  exact ⟨⟨⟨hr.1.1.1, hr.1.1.2⟩, hn.1.2⟩, hr.2⟩

/-- `insert into appkv (..) values (..) on duplicate key update ..`. -/
def insert_on_duplicate (t : AppKv coll) (new : Row) : Except SqlError (AppKv coll) :=
  if h : new.fits = true then
    .ok {
      rows := (appkv_key coll).upsert (on_duplicate_key new) new t.rows
      primary_key := Keying.unique_upsert (hit_on_duplicate_key new) new t.primary_key
      columns := by
        intro r hr
        rcases Keying.mem_upsert hr with rfl | hr | ⟨r₀, hr₀, _, rfl⟩
        · exact h
        · exact t.columns r hr
        · exact fits_on_duplicate_key h (t.columns r₀ hr₀) }
  else .error .dataTooLong

/-- `delete from appkv where nsid = ? and appkey = ?`. -/
def delete (t : AppKv coll) (nsid : String) (appkey : Bytes) : AppKv coll where
  rows := (appkv_key coll).erase (nsid, appkey) t.rows
  primary_key := Keying.unique_erase _ t.primary_key
  columns r hr := t.columns r (List.mem_filter.1 hr).1

/-- `replace into appkv (..) select .. where not exists (select 1 from appkv
where nsid = :nsid and appkey = :appkey and <live>)`: when no live row has the
key, the old row, which can only be an expired one, is replaced. -/
def replace_where_not_exists (t : AppKv coll) (new : Row) (now : UInt64) :
    Except SqlError (AppKv coll) :=
  if t.rows.any fun r => (appkv_key coll).hit (new.nsid, new.appkey) r && r.live now then .ok t
  else (t.delete new.nsid new.appkey).insert_on_duplicate new

/-! ## What each statement does, by key -/

/-- The live row stored under a key. -/
def live_at (t : AppKv coll) (nsid : String) (appkey : Bytes) (now : UInt64) : Option Row :=
  (t.row_at nsid appkey).filter (Row.live now)

theorem select_value_eq (t : AppKv coll) (nsid : String) (appkey : Bytes) (now : UInt64) :
    t.select_value nsid appkey now = (t.live_at nsid appkey now).map (·.appvalue) := by
  rw [select_value, Keying.find?_and t.primary_key, live_at, row_at]

theorem select_for_update_eq (t : AppKv coll) (nsid : String) (appkey appvalue : Bytes)
    (now : UInt64) :
    (t.select_for_update nsid appkey appvalue now).isSome
      = (t.live_at nsid appkey now).any fun r => r.appvalue == appvalue := by
  rw [select_for_update, Option.isSome_map, Keying.find?_and t.primary_key, live_at, row_at]
  cases (appkv_key coll).find (nsid, appkey) t.rows with
  | none => rfl
  | some r =>
      cases hv : r.appvalue == appvalue <;> cases hl : r.live now <;> simp [Option.filter_some, hv, hl]

theorem mem_select_keys (t : AppKv coll) (nsid : String) (start : Bytes) (stop : Option Bytes)
    (now : UInt64) (k : Bytes) :
    k ∈ t.select_keys nsid start stop now
      ↔ in_range start stop k = true ∧ (t.live_at nsid k now).isSome = true := by
  have hlive : (t.live_at nsid k now).isSome = true
      ↔ ∃ r ∈ t.rows, (coll.eq nsid r.nsid = true ∧ r.appkey = k) ∧ r.live now = true := by
    simp only [live_at, Option.isSome_iff_exists, Option.filter_eq_some_iff, t.row_at_iff, and_assoc]
  rw [hlive]
  simp only [select_keys, List.mem_map, List.mem_filter, Bool.and_eq_true]
  constructor
  · rintro ⟨r, ⟨hr, hns, hrange, hl⟩, rfl⟩
    exact ⟨hrange, r, hr, ⟨hns, rfl⟩, hl⟩
  · rintro ⟨hrange, r, hr, ⟨hns, rfl⟩, hl⟩
    exact ⟨r, ⟨hr, hns, hrange, hl⟩, rfl⟩

/-- A select returns a key once: the rows it matches share the namespace, so
the primary key tells them apart by their `appkey`. -/
theorem nodup_select_keys (t : AppKv coll) (nsid : String) (start : Bytes) (stop : Option Bytes)
    (now : UInt64) : (t.select_keys nsid start stop now).Nodup := by
  unfold select_keys
  rw [List.Nodup, List.pairwise_map]
  refine ((t.primary_key.filter _).imp_of_mem fun {a b} ha hb hab heq => ?_)
  simp only [List.mem_filter, Bool.and_eq_true] at ha hb
  have hns : coll.eq a.nsid b.nsid = true := coll.trans (coll.symm ha.2.1) hb.2.1
  simp [appkv_key, hns, heq] at hab

theorem row_at_insert {t t' : AppKv coll} {new : Row} (h : t.insert_on_duplicate new = .ok t')
    (nsid : String) (appkey : Bytes) :
    t'.row_at nsid appkey
      = if (appkv_key coll).hit (nsid, appkey) new then
          some ((t.row_at nsid appkey).elim new (on_duplicate_key new))
        else t.row_at nsid appkey := by
  unfold insert_on_duplicate at h
  split at h
  · cases h
    exact Keying.find_upsert (hit_on_duplicate_key new) new (nsid, appkey) t.rows
  · cases h

theorem insert_ok_iff (t : AppKv coll) (new : Row) :
    (∃ t', t.insert_on_duplicate new = .ok t') ↔ new.fits = true := by
  unfold insert_on_duplicate
  split <;> simp_all

theorem insert_of_not_fits (t : AppKv coll) {new : Row} (h : new.fits = false) :
    t.insert_on_duplicate new = .error .dataTooLong := by
  simp [insert_on_duplicate, h]

theorem row_at_delete (t : AppKv coll) (ns nsid : String) (k appkey : Bytes) :
    (t.delete ns k).row_at nsid appkey
      = (t.row_at nsid appkey).filter fun r => !(appkv_key coll).hit (ns, k) r :=
  Keying.find_erase (ns, k) (nsid, appkey) t.rows

/-- The `not exists` subquery asks for a live row under the key. -/
theorem replace_eq (t : AppKv coll) (new : Row) (now : UInt64) :
    t.replace_where_not_exists new now
      = if (t.live_at new.nsid new.appkey now).isSome then .ok t
        else (t.delete new.nsid new.appkey).insert_on_duplicate new := by
  have hany : (t.rows.any fun r => (appkv_key coll).hit (new.nsid, new.appkey) r && r.live now)
      = (t.live_at new.nsid new.appkey now).isSome := by
    rw [live_at, row_at, ← Keying.find?_and t.primary_key, Bool.eq_iff_iff, List.find?_isSome,
      List.any_eq_true]
  rw [replace_where_not_exists, hany]

end AppKv

end RustyWorkers

/-
The cursor of a scan: what `KvNamespace.scanRaw` (`librt/src/kv.js`) makes of
`startExclusive`, for each kind of `ArrayBuffer | ArrayBufferView`.

The start that is sent has one byte more than the cursor, and the cursor is put
in front: `new Uint8Array(start).set(new Uint8Array(startExclusive))`. For an
`ArrayBuffer` that is the immediate next key, as the comment there says. A typed
array is not read by its bytes but by its elements, and the host, which reads the
bytes of a view (`JsArrayBufferViewRef::new`), gets a different key.
-/
import RustyWorkers.Lib.TypedArray
import RustyWorkers.KvScan

set_option autoImplicit false

namespace RustyWorkers

open Lib Js

variable {coll : Collation}

namespace ScanCursor

/-- The start that `scanRaw` sends. -/
def scan_start (start : BufferSource) (startExclusive : Option BufferSource) : Except Thrown BufferSource :=
  match startExclusive with
  | none => .ok start
  | some k => do
    let next := new_ArrayBuffer (k.byteLength + 1)
    let source ← new_Uint8Array k
    let next ← set next source
    .ok (.ArrayBuffer next)

/-- `scanRaw` on buffers of any kind: it throws before it has a promise, or it
sends the bytes. -/
def scanRaw (t : AppKv coll) (conf : WorkerConfiguration) (name : String) (env : TaskEnv)
    (start : BufferSource) (startExclusive stop : Option BufferSource) (limit : UInt32) :
    Except Thrown (Except String (List Bytes)) := do
  let start ← scan_start start startExclusive
  .ok (RustyWorkers.scanRaw t conf name env start.bytes none (stop.map (·.bytes)) limit)

/-! ## The next key -/

/-- A scan from `sent` takes in what lies above `k`, up to its end. -/
def StartsAfter (sent k : Bytes) : Prop :=
  ∀ (stop : Option Bytes) (key : Bytes), AppKv.in_range sent stop key = true ↔ k < key ∧ ∀ e ∈ stop, key ≤ e

theorem in_range_iff (start : Bytes) (stop : Option Bytes) (key : Bytes) :
    AppKv.in_range start stop key = true ↔ start ≤ key ∧ ∀ e ∈ stop, key ≤ e := by
  rw [AppKv.in_range, Bool.and_eq_true, decide_eq_true_eq, Option.all_eq_true]
  exact and_congr_right fun _ => forall₂_congr fun e _ => decide_eq_true_iff

/-- There is one next key. -/
theorem startsAfter_iff (sent k : Bytes) : StartsAfter sent k ↔ sent = k ++ [0] := by
  have hnext : ∀ key : Bytes, k < key ↔ k ++ [0] ≤ key := lt_iff_append_bot_le k
  constructor
  · intro h
    -- without an end, the two starts have the same keys above them
    have hkey : ∀ key, sent ≤ key ↔ k ++ [0] ≤ key := by
      intro key
      have hrange := h none key
      rw [in_range_iff, hnext] at hrange
      simpa using hrange
    exact le_antisymm ((hkey _).2 le_rfl) ((hkey _).1 le_rfl)
  · rintro rfl stop key
    rw [in_range_iff, hnext]

/-- What the statement behind the scan selects. -/
theorem StartsAfter.mem_select_keys {sent k : Bytes} (h : StartsAfter sent k) (t : AppKv coll) (nsid : String)
    (stop : Option Bytes) (now : UInt64) (key : Bytes) :
    key ∈ t.select_keys nsid sent stop now
      ↔ (k < key ∧ ∀ e ∈ stop, key ≤ e) ∧ (t.live_at nsid key now).isSome = true := by
  rw [AppKv.mem_select_keys, h stop key]

/-! ## The start, kind by kind -/

/-- The kinds of cursors, and cursors, of which the next key is sent. -/
def Exact : BufferSource → Prop
  | .ArrayBuffer _ => True
  | .TypedArray type view _ =>
    if type.bigint then False
    else if type.size = 1 then True
    else if type.integer then ∀ b ∈ view.bytes.tail, b = 0
    else ∀ b ∈ view.bytes, b = 0
  | .DataView view => ∀ b ∈ view.bytes, b = 0

theorem scan_start_of {start x : BufferSource} {source : Bytes} (h : new_Uint8Array x = .ok source)
    (hlen : source.length ≤ x.bytes.length) :
    scan_start start (some x)
      = .ok (.ArrayBuffer (source ++ List.replicate (x.bytes.length + 1 - source.length) 0)) := by
  have hset : Js.set (new_ArrayBuffer (x.bytes.length + 1)) source
      = .ok (source ++ List.replicate (x.bytes.length + 1 - source.length) 0) := set_new (by omega)
  rw [scan_start, ← x.length_bytes, h]
  simp only [bind, Except.bind, hset]

theorem bytes_scan_start {start x : BufferSource} {source : Bytes} (h : new_Uint8Array x = .ok source)
    (hlen : source.length ≤ x.bytes.length) :
    (∃ sent, scan_start start (some x) = .ok sent ∧ sent.bytes = x.bytes ++ [0])
      ↔ source ++ List.replicate (x.bytes.length + 1 - source.length) 0 = x.bytes ++ [0] := by
  rw [scan_start_of h hlen]
  constructor
  · rintro ⟨sent, hsent, hbytes⟩
    cases hsent
    exact hbytes
  · exact fun heq => ⟨_, rfl, heq⟩

theorem headD_zero_iff (k : Bytes) : (∀ b ∈ k, b = 0) ↔ (∀ b ∈ k.tail, b = 0) ∧ k.headD 0 = 0 := by
  cases k with
  | nil => simp
  | cons b k => rw [List.forall_mem_cons, List.tail_cons, List.headD_cons, and_comm]

/-- Elements of one byte are the bytes; wider ones hardly ever. -/
theorem padded_typed_iff {type : ElementType} (view : View) (haligned : type.size ∣ view.byte_length)
    (hbig : type.bigint = false) :
    padded type.low type.size (view.byte_length / type.size) view.bytes = view.bytes ++ [0]
      ↔ if type.size = 1 then True else if type.integer then ∀ b ∈ view.bytes.tail, b = 0
        else ∀ b ∈ view.bytes, b = 0 := by
  by_cases hone : type.size = 1
  · have hint : type.integer = true := by cases type <;> first | rfl | cases hone
    rw [if_pos hone, iff_true, hone, Nat.div_one, ← view.length_bytes]
    exact padded_one fun b => type.low_integer hint [b]
  · have htwo : 2 ≤ type.size := by
      have hpos := type.size_pos
      omega
    have hlen : view.bytes.length = type.size * (view.byte_length / type.size) := by
      rw [view.length_bytes, Nat.mul_div_cancel' haligned]
    rw [if_neg hone, padded_iff htwo (type.low_zero hbig) hlen]
    cases hint : type.integer with
    | true =>
        have hhead : type.low (view.bytes.take type.size) = view.bytes.headD 0 := by
          rw [type.low_integer hint]
          cases view.bytes with
          | nil => rw [List.take_nil]
          | cons b k => rw [List.take_cons type.size_pos]; rfl
        rw [if_pos rfl]
        exact and_iff_left hhead
    | false =>
        -- a float whose bytes behind the first are zero is too small to leave one
        rw [if_neg Bool.false_ne_true, headD_zero_iff view.bytes]
        refine and_congr_right fun htail => ?_
        have hnone : type.low (view.bytes.take type.size) = 0 := by
          refine type.low_float hint hbig fun b hb => htail b ?_
          exact (List.take_sublist _ _).tail.subset hb
        rw [hnone, eq_comm]

theorem sent_iff (start x : BufferSource) :
    (∃ sent, scan_start start (some x) = .ok sent ∧ sent.bytes = x.bytes ++ [0]) ↔ Exact x := by
  cases x with
  | ArrayBuffer buffer =>
      have hsource : new_Uint8Array (.ArrayBuffer buffer) = .ok buffer := rfl
      rw [bytes_scan_start hsource le_rfl]
      simp [BufferSource.bytes, Exact]
  | DataView view =>
      have hsource : new_Uint8Array (.DataView view) = .ok [] := rfl
      rw [bytes_scan_start hsource (Nat.zero_le _), List.nil_append, List.length_nil, Nat.sub_zero, List.replicate_succ',
        List.append_left_inj, eq_comm, List.eq_replicate_iff]
      exact and_iff_right rfl
  | TypedArray type view aligned =>
      cases hbig : type.bigint with
      | true =>
          -- the constructor throws
          refine iff_of_false ?_ ?_
          · rintro ⟨sent, hsent, -⟩
            rw [scan_start, new_Uint8Array, hbig] at hsent
            cases hsent
          · rw [Exact, hbig, if_pos rfl]
            exact id
      | false =>
          have hsource := new_Uint8Array_typed aligned hbig
          have hle : (row type.low type.size (view.byte_length / type.size) view.bytes).length ≤ view.bytes.length := by
            rw [length_row, view.length_bytes]
            exact Nat.div_le_self _ _
          rw [bytes_scan_start hsource hle, length_row, Exact, hbig, if_neg Bool.false_ne_true]
          exact padded_typed_iff view aligned.2 hbig

/-! ## The exclusive scan -/

/-- **When a scan starts after its cursor.** For every cursor, of any kind and at
any offset: `scanRaw` sends the bytes of the cursor and a zero byte, and the scan
from there takes in exactly the keys above the cursor, up to its end, if and only
if the cursor is `Exact`. -/
theorem exclusive_scan_iff (start x : BufferSource) :
    (∃ sent, scan_start start (some x) = .ok sent ∧ sent.bytes = x.bytes ++ [0]
      ∧ ∀ (stop : Option BufferSource) (key : Bytes),
        AppKv.in_range sent.bytes (stop.map (·.bytes)) key = true ↔ x.bytes < key ∧ ∀ e ∈ stop, key ≤ e.bytes)
    ↔ Exact x := by
  rw [← sent_iff start x]
  constructor
  · rintro ⟨sent, hsent, hbytes, -⟩
    exact ⟨sent, hsent, hbytes⟩
  · rintro ⟨sent, hsent, hbytes⟩
    refine ⟨sent, hsent, hbytes, fun stop key => ?_⟩
    have hafter := (startsAfter_iff sent.bytes x.bytes).2 hbytes (stop.map (·.bytes)) key
    rw [hafter]
    refine and_congr_right fun _ => ?_
    cases stop <;> simp

/-- With an exact cursor the call is the one that paging makes. -/
theorem scanRaw_exact {start x : BufferSource} (h : Exact x) (t : AppKv coll) (conf : WorkerConfiguration)
    (name : String) (env : TaskEnv) (stop : Option BufferSource) (limit : UInt32) :
    scanRaw t conf name env start (some x) stop limit
      = .ok (RustyWorkers.scanRaw t conf name env start.bytes (some x.bytes) (stop.map (·.bytes)) limit) := by
  obtain ⟨sent, hsent, hbytes⟩ := (sent_iff start x).2 h
  rw [scanRaw, hsent]
  simp only [bind, Except.bind, hbytes, RustyWorkers.scanRaw]

/-- Two bytes, as one element. -/
def wide_cursor : BufferSource := .TypedArray .Uint16 ⟨[1, 1], 0, 2, by decide⟩ (by decide)

/-- A `Uint16Array` over `[1, 1]` sends `[1, 0, 0]`: the scan takes in its own
cursor. -/
theorem wide_cursor_repeats :
    scan_start wide_cursor (some wide_cursor) = .ok (.ArrayBuffer [1, 0, 0])
      ∧ [1, 0, 0] ≠ wide_cursor.bytes ++ [0]
      ∧ AppKv.in_range [1, 0, 0] none wide_cursor.bytes = true := by
  refine ⟨?_, by decide, by decide⟩
  rfl

end ScanCursor

end RustyWorkers

/-
How much memory it takes to unpack a bundle: the loop of `Instance::new`
(`rusty-workers-runtime/src/executor.rs`).

Reading the archive is the part of the `tar` crate, so an archive is a parameter
(`Tar`): what its iterator gives for a bundle, of which all that is assumed is that
the stored data of an entry begin in the bundle, after those of the entries before.
An ordinary entry is one stored chunk. A GNU sparse entry has holes between its
chunks, which its size counts and which take no room in the archive.

The loop compares the size of each entry with the length of the bundle. Stored data
add up to no more than that whatever sizes are compared, and holes do not.
-/
import RustyWorkers.Types
import RustyWorkers.Lib.KeyedTable

set_option autoImplicit false

namespace RustyWorkers

open Lib

namespace Unpacking

/-! ## Archives -/

/-- A part of the data of an entry: bytes of the archive, or zeros that are not
there. -/
inductive Chunk where
  | stored (n : ℕ)
  | hole (n : ℕ)
deriving DecidableEq, Repr

def Chunk.stored_bytes : Chunk → ℕ
  | stored n => n
  | hole _ => 0

def Chunk.hole_bytes : Chunk → ℕ
  | stored _ => 0
  | hole n => n

/-- An entry: its path, where it is UTF-8, and its data from `file_pos` on. -/
structure Entry where
  path : Option String
  file_pos : ℕ
  chunks : List Chunk
deriving DecidableEq, Repr

namespace Entry

def stored (e : Entry) : ℕ := (e.chunks.map Chunk.stored_bytes).sum

def holes (e : Entry) : ℕ := (e.chunks.map Chunk.hole_bytes).sum

/-- `Entry::size`: the holes count. -/
def size (e : Entry) : ℕ := e.stored + e.holes

/-- Chunks that are read from `pos` on. -/
def read_chunks (bundle : Bytes) : ℕ → List Chunk → Option Bytes
  | _, [] => some []
  | pos, .stored n :: chunks =>
    -- the end of the bundle may come first
    if pos + n ≤ bundle.length then (read_chunks bundle (pos + n) chunks).map fun rest => (bundle.drop pos).take n ++ rest
    else none
  | pos, .hole n :: chunks => (read_chunks bundle pos chunks).map fun rest => List.replicate n 0 ++ rest

/-- `read_exact`, of a buffer of the size of the entry. -/
def read_exact (bundle : Bytes) (e : Entry) : Option Bytes := read_chunks bundle e.file_pos e.chunks

/-- The stored data are there. -/
def Complete (bundle : Bytes) (e : Entry) : Prop := e.file_pos + e.stored ≤ bundle.length

instance (bundle : Bytes) (e : Entry) : Decidable (e.Complete bundle) := Nat.decLe _ _

end Entry

/-- What the iterator gives, from `pos` on: entries, until one is bad. -/
def LaidOut (len : ℕ) : ℕ → List (Option Entry) → Prop
  | _, [] => True
  | _, none :: _ => True
  | pos, some e :: items => pos ≤ e.file_pos ∧ e.file_pos ≤ len ∧ LaidOut len (e.file_pos + e.stored) items

/-- `tar::Archive::entries`. -/
structure Tar where
  entries : Bytes → Option (List (Option Entry))
  laid_out : ∀ bundle items, entries bundle = some items → LaidOut bundle.length 0 items

/-! ## The loop -/

/-- `BTreeMap<String, Arc<[u8]>>`. -/
abbrev Files := Table (Keying.exact Prod.fst : Keying String (String × Bytes))

/-- What is allocated for the contents of files: those of `files`, and the buffers
of the entry that is being unpacked. -/
structure Heap where
  files : Files
  buffers : List Bytes

def Files.bytes (files : Files) : ℕ := (files.rows.map fun f => f.2.length).sum

def Heap.bytes (heap : Heap) : ℕ := heap.files.bytes + (heap.buffers.map List.length).sum

/-- A run of the loop: the heap each time that it changes, the sizes of the buffers
`data`, and how it ends. -/
structure Run where
  moments : List Heap
  data : List ℕ
  result : Except GenericError Files

/-- The body of the loop. -/
def unpack_entry (bundle : Bytes) (files : Files) (e : Entry) : Run :=
  match e.path with
  | none => ⟨[], [], .error (.Other "bad path in bundle")⟩
  | some path =>
    if e.size > bundle.length then ⟨[], [], .error (.Other "entry size > bundle size")⟩
    else
      let data : Bytes := List.replicate e.size 0
      match e.read_exact bundle with
      -- the buffer has been allocated by then
      | none => ⟨[⟨files, [data]⟩], [e.size], .error (.Other "cannot read bundle")⟩
      | some content =>
        -- `Arc::from` copies and then frees `data`, and `insert` frees what the path had
        ⟨[⟨files, [data]⟩, ⟨files, [content]⟩, ⟨files, [content, content]⟩, ⟨files, [content]⟩,
            ⟨files.replace (path, content), []⟩],
          [e.size], .ok (files.replace (path, content))⟩

/-- The loop, from `files` on. -/
def unpack_items (bundle : Bytes) (files : Files) : List (Option Entry) → Run
  | [] => ⟨[], [], .ok files⟩
  | none :: _ => ⟨[], [], .error (.Other "bad entry in bundle")⟩
  | some e :: items =>
    let run := unpack_entry bundle files e
    match run.result with
    | .error error => ⟨run.moments, run.data, .error error⟩
    | .ok files =>
      let rest := unpack_items bundle files items
      ⟨run.moments ++ rest.moments, run.data ++ rest.data, rest.result⟩

def unpack (tar : Tar) (bundle : Bytes) : Run :=
  match tar.entries bundle with
  | none => ⟨[], [], .error (.Other "bad bundle")⟩
  | some items => unpack_items bundle Table.empty items

/-! ## The contract, and when it holds -/

/-- The memory that a bundle of length `len` may take: no more than that for all
buffers together, if the loop completes, and twice that at any moment. -/
structure Bounded (len : ℕ) (run : Run) : Prop where
  total : ∀ files, run.result = .ok files → run.data.sum ≤ len
  moment : ∀ heap ∈ run.moments, heap.bytes ≤ 2 * len

/-- The entries that no later one replaces. -/
def live : List Entry → List Entry
  | [] => []
  | e :: es => if e.path ∈ es.map Entry.path then live es else e :: live es

def stored (es : List Entry) : ℕ := (es.map Entry.stored).sum

def holes (es : List Entry) : ℕ := (es.map Entry.holes).sum

/-- The entry becomes a file. -/
structure Unpackable (bundle : Bytes) (e : Entry) : Prop where
  path : ∃ path, e.path = some path
  size : e.size ≤ bundle.length
  complete : e.Complete bundle

/-- Two buffers are needed for an entry that becomes a file, and one for an entry
that turns out not to be complete. -/
def copies (bundle : Bytes) (e : Entry) : ℕ := if e.Complete bundle then 2 else 1

/-- The holes of an entry and of the files before it have room beside the stored
data. -/
def Room (bundle : Bytes) (before : List Entry) (e : Entry) : Prop :=
  holes (live before) + copies bundle e * e.holes
    ≤ 2 * bundle.length - (stored (live before) + copies bundle e * e.stored)

/-- There is room for the holes: at each entry that a buffer is allocated for, and
in the bundle for those of all entries if all become files. -/
structure HolesFit (bundle : Bytes) (items : List (Option Entry)) : Prop where
  room : ∀ before e after, items = before.map some ++ some e :: after → (∀ b ∈ before, Unpackable bundle b) →
    (∃ path, e.path = some path) → e.size ≤ bundle.length → Room bundle before e
  total : ∀ es, items = es.map some → (∀ e ∈ es, Unpackable bundle e) → holes es ≤ bundle.length - stored es

/-! ## Entries -/

section Entries

variable {bundle : Bytes}

theorem read_chunks_complete {pos : ℕ} {chunks : List Chunk}
    (h : pos + (chunks.map Chunk.stored_bytes).sum ≤ bundle.length) :
    ∃ content, Entry.read_chunks bundle pos chunks = some content
      ∧ content.length = (chunks.map Chunk.stored_bytes).sum + (chunks.map Chunk.hole_bytes).sum := by
  induction chunks generalizing pos with
  | nil => exact ⟨[], rfl, rfl⟩
  | cons chunk chunks ih =>
    rw [List.map_cons, List.sum_cons] at h
    cases chunk with
    | stored n =>
      simp only [Chunk.stored_bytes] at h
      have hrest : pos + n + (chunks.map Chunk.stored_bytes).sum ≤ bundle.length := by omega
      obtain ⟨rest, hread, hlength⟩ := ih hrest
      refine ⟨(bundle.drop pos).take n ++ rest, ?_, ?_⟩
      · rw [Entry.read_chunks, if_pos (by omega), hread]
        rfl
      · rw [List.length_append, List.length_take, List.length_drop, hlength]
        simp only [List.map_cons, List.sum_cons, Chunk.stored_bytes, Chunk.hole_bytes]
        omega
    | hole n =>
      simp only [Chunk.stored_bytes] at h
      have hrest : pos + (chunks.map Chunk.stored_bytes).sum ≤ bundle.length := by omega
      obtain ⟨rest, hread, hlength⟩ := ih hrest
      refine ⟨List.replicate n 0 ++ rest, ?_, ?_⟩
      · rw [Entry.read_chunks, hread]
        rfl
      · rw [List.length_append, List.length_replicate, hlength]
        simp only [List.map_cons, List.sum_cons, Chunk.stored_bytes, Chunk.hole_bytes]
        omega

theorem read_chunks_incomplete {pos : ℕ} {chunks : List Chunk} (hpos : pos ≤ bundle.length)
    (h : ¬ pos + (chunks.map Chunk.stored_bytes).sum ≤ bundle.length) :
    Entry.read_chunks bundle pos chunks = none := by
  induction chunks generalizing pos with
  | nil => exact absurd hpos h
  | cons chunk chunks ih =>
    rw [List.map_cons, List.sum_cons] at h
    cases chunk with
    | stored n =>
      simp only [Chunk.stored_bytes] at h
      rw [Entry.read_chunks]
      by_cases hn : pos + n ≤ bundle.length
      · rw [if_pos hn, ih hn (by omega)]
        rfl
      · rw [if_neg hn]
    | hole n =>
      simp only [Chunk.stored_bytes] at h
      rw [Entry.read_chunks, ih hpos (by omega)]
      rfl

/-- What the body of the loop does with an entry. -/
theorem unpack_entry_cases (files : Files) {e : Entry} (hpos : e.file_pos ≤ bundle.length) :
    (Unpackable bundle e ∧ ∃ path content, e.path = some path ∧ content.length = e.size
      ∧ unpack_entry bundle files e
        = ⟨[⟨files, [List.replicate e.size 0]⟩, ⟨files, [content]⟩, ⟨files, [content, content]⟩, ⟨files, [content]⟩,
            ⟨files.replace (path, content), []⟩], [e.size], .ok (files.replace (path, content))⟩)
    ∨ (¬ e.Complete bundle ∧ (∃ path, e.path = some path) ∧ e.size ≤ bundle.length
      ∧ ∃ error, unpack_entry bundle files e = ⟨[⟨files, [List.replicate e.size 0]⟩], [e.size], .error error⟩)
    ∨ (¬ ((∃ path, e.path = some path) ∧ e.size ≤ bundle.length)
      ∧ ∃ error, unpack_entry bundle files e = ⟨[], [], .error error⟩) := by
  cases hpath : e.path with
  | none =>
    refine Or.inr (Or.inr ⟨?_, .Other "bad path in bundle", ?_⟩)
    · rintro ⟨⟨path, h⟩, -⟩
      cases h
    · simp only [unpack_entry, hpath]
  | some path =>
    by_cases hsize : e.size > bundle.length
    · refine Or.inr (Or.inr ⟨fun h => absurd hsize (not_lt.2 h.2), .Other "entry size > bundle size", ?_⟩)
      simp only [unpack_entry, hpath, if_pos hsize]
    · by_cases hcomplete : e.Complete bundle
      · obtain ⟨content, hread, hlength⟩ := read_chunks_complete hcomplete
        refine Or.inl ⟨⟨⟨path, hpath⟩, not_lt.1 hsize, hcomplete⟩, path, content, rfl, hlength, ?_⟩
        simp only [unpack_entry, hpath, if_neg hsize, Entry.read_exact, hread]
      · have hread := read_chunks_incomplete hpos hcomplete
        refine Or.inr (Or.inl ⟨hcomplete, ⟨path, rfl⟩, not_lt.1 hsize, .Other "cannot read bundle", ?_⟩)
        simp only [unpack_entry, hpath, if_neg hsize, Entry.read_exact, hread]

end Entries

/-! ## The entries that are live -/

theorem live_concat (before : List Entry) (e : Entry) :
    live (before ++ [e]) = (live before).filter (fun b => b.path ≠ e.path) ++ [e] := by
  induction before with
  | nil => rfl
  | cons b before ih =>
    have hmem : b.path ∈ (before ++ [e]).map Entry.path ↔ b.path ∈ before.map Entry.path ∨ b.path = e.path := by
      rw [List.map_append, List.mem_append, List.map_singleton, List.mem_singleton]
    rw [List.cons_append, live, live, ih]
    -- an earlier file stays unless the new one, or one before that, has its path
    by_cases hlater : b.path ∈ before.map Entry.path
    · rw [if_pos (hmem.2 (Or.inl hlater)), if_pos hlater]
    · rw [if_neg hlater]
      by_cases hpath : b.path = e.path
      · rw [if_pos (hmem.2 (Or.inr hpath)), List.filter_cons_of_neg (by simp [hpath])]
      · rw [if_neg (fun h => (hmem.1 h).elim hlater hpath), List.filter_cons_of_pos (by simp [hpath])]
        rfl

theorem live_sublist (es : List Entry) : (live es).Sublist es := by
  induction es with
  | nil => exact List.Sublist.refl _
  | cons e es ih =>
    rw [live]
    by_cases hlater : e.path ∈ es.map Entry.path
    · rw [if_pos hlater]
      exact ih.cons e
    · rw [if_neg hlater]
      exact ih.cons_cons e

theorem stored_live_le (es : List Entry) : stored (live es) ≤ stored es :=
  ((live_sublist es).map _).sum_le_sum fun _ _ => Nat.zero_le _

theorem stored_append (es es' : List Entry) : stored (es ++ es') = stored es + stored es' := by
  rw [stored, List.map_append, List.sum_append]
  rfl

theorem sum_sizes (es : List Entry) : (es.map Entry.size).sum = stored es + holes es :=
  List.sum_map_add

/-- The files are what has been unpacked. -/
def Stores (files : Files) (before : List Entry) : Prop :=
  files.rows.map (fun f => (some f.1, f.2.length)) = (live before).map fun e => (e.path, e.size)

theorem stores_empty : Stores Table.empty [] := rfl

theorem Stores.bytes {files : Files} {before : List Entry} (h : Stores files before) :
    files.bytes = stored (live before) + holes (live before) := by
  have hlengths := congrArg (List.map Prod.snd) h
  rw [List.map_map, List.map_map] at hlengths
  rw [Files.bytes, ← sum_sizes]
  exact congrArg List.sum hlengths

/-- A file replaces the one of its path. -/
theorem Stores.replace {files : Files} {before : List Entry} (h : Stores files before) {e : Entry} {path : String}
    {content : Bytes} (hpath : e.path = some path) (hlength : content.length = e.size) :
    Stores (files.replace (path, content)) (before ++ [e]) := by
  unfold Stores
  rw [live_concat, List.map_append, List.map_singleton]
  show (Keying.erase _ _ files.rows ++ [(path, content)]).map _ = _
  rw [List.map_append, List.map_singleton, hpath, hlength]
  congr 1
  have hleft : (Keying.erase (Keying.exact Prod.fst) path files.rows).map (fun f => (some f.1, f.2.length))
      = (files.rows.map fun f => (some f.1, f.2.length)).filter fun p => decide (p.1 ≠ some path) := by
    rw [List.filter_map, Keying.erase]
    congr 1
    refine List.filter_congr fun f _ => ?_
    simp [Keying.exact, eq_comm]
  have hright : ((live before).filter fun b => b.path ≠ some path).map (fun b => (b.path, b.size))
      = ((live before).map fun b => (b.path, b.size)).filter fun p => decide (p.1 ≠ some path) := by
    rw [List.filter_map]
    rfl
  rw [hright, ← h]
  exact hleft

theorem bytes_replace_le (files : Files) (path : String) (content : Bytes) :
    Files.bytes (files.replace (path, content)) ≤ files.bytes + content.length := by
  show ((Keying.erase _ _ files.rows ++ [(path, content)]).map fun f => f.2.length).sum ≤ _
  rw [List.map_append, List.sum_append, List.map_singleton, List.sum_singleton]
  refine Nat.add_le_add_right ?_ _
  exact (List.filter_sublist.map _).sum_le_sum fun _ _ => Nat.zero_le _

/-! ## The loop, step by step -/

section Loop

variable {bundle : Bytes} {files : Files} {before : List Entry}

/-- One entry: there is room, or there is a moment with too much. -/
theorem unpack_entry_moments (hstores : Stores files before) {e : Entry} (hbefore : stored before ≤ e.file_pos)
    (hpos : e.file_pos ≤ bundle.length) :
    (∀ heap ∈ (unpack_entry bundle files e).moments, heap.bytes ≤ 2 * bundle.length)
      ↔ ((∃ path, e.path = some path) → e.size ≤ bundle.length → Room bundle before e) := by
  have hbytes := hstores.bytes
  have hlive := stored_live_le before
  have hsize : e.size = e.stored + e.holes := rfl
  rcases unpack_entry_cases files hpos with
    ⟨hunpackable, path, content, hpath, hlength, heq⟩ | ⟨hcomplete, hpath, hle, error, heq⟩ | ⟨hno, error, heq⟩
  · have hcomplete : e.file_pos + e.stored ≤ bundle.length := hunpackable.complete
    have hreplace := bytes_replace_le files path content
    rw [heq]
    simp only [List.forall_mem_cons, List.not_mem_nil, false_implies, implies_true, and_true, Heap.bytes, List.map_cons,
      List.map_nil, List.sum_cons, List.sum_nil, List.length_replicate, hlength]
    rw [hlength] at hreplace
    -- most is allocated while there are two buffers
    constructor
    · rintro ⟨-, -, hboth, -, -⟩ - -
      rw [Room, copies, if_pos hunpackable.complete]
      omega
    · intro h
      have hroom := h ⟨path, hpath⟩ hunpackable.size
      rw [Room, copies, if_pos hunpackable.complete] at hroom
      refine ⟨?_, ?_, ?_, ?_, ?_⟩ <;> omega
  · rw [heq]
    simp only [List.forall_mem_cons, List.not_mem_nil, false_implies, implies_true, and_true, Heap.bytes, List.map_cons,
      List.map_nil, List.sum_cons, List.sum_nil, List.length_replicate]
    -- the one buffer is dropped with the error
    constructor
    · intro hone _ _
      rw [Room, copies, if_neg hcomplete]
      omega
    · intro h
      have hroom := h hpath hle
      rw [Room, copies, if_neg hcomplete] at hroom
      omega
  · rw [heq]
    refine ⟨fun _ hpath hle => absurd ⟨hpath, hle⟩ hno, fun _ heap hheap => ?_⟩
    cases hheap

/-- The entries that the loop comes to all have room, after those that are files
already. -/
def RoomFrom (bundle : Bytes) (before : List Entry) (items : List (Option Entry)) : Prop :=
  ∀ mid e after, items = mid.map some ++ some e :: after → (∀ b ∈ mid, Unpackable bundle b) →
    (∃ path, e.path = some path) → e.size ≤ bundle.length → Room bundle (before ++ mid) e

theorem roomFrom_cons {e : Entry} {items : List (Option Entry)} :
    RoomFrom bundle before (some e :: items)
      ↔ ((∃ path, e.path = some path) → e.size ≤ bundle.length → Room bundle before e)
        ∧ (Unpackable bundle e → RoomFrom bundle (before ++ [e]) items) := by
  constructor
  · intro h
    refine ⟨fun hpath hle => ?_, fun hunpackable mid e' after hitems hmid hpath hle => ?_⟩
    · have hroom := h [] e items rfl (fun b hb => absurd hb List.not_mem_nil) hpath hle
      rwa [List.append_nil] at hroom
    · have hroom := h (e :: mid) e' after (by rw [hitems]; rfl) (List.forall_mem_cons.2 ⟨hunpackable, hmid⟩) hpath hle
      rwa [List.append_cons] at hroom
  · rintro ⟨hfirst, hrest⟩ mid e' after hitems hmid hpath hle
    cases mid with
    | nil =>
      injection hitems with he
      obtain rfl := Option.some.inj he
      rw [List.append_nil]
      exact hfirst hpath hle
    | cons b mid =>
      rw [List.map_cons, List.cons_append] at hitems
      injection hitems with he htail
      obtain rfl := Option.some.inj he
      obtain ⟨hunpackable, hmid⟩ := List.forall_mem_cons.1 hmid
      rw [List.append_cons]
      exact hrest hunpackable mid e' after htail hmid hpath hle

/-- The moments of the loop, by induction on what is left of the archive: `pos` is
where the stored data so far end. -/
theorem unpack_items_moments {pos : ℕ} {items : List (Option Entry)} (hlaid : LaidOut bundle.length pos items)
    (hstores : Stores files before) (hbefore : stored before ≤ pos) :
    (∀ heap ∈ (unpack_items bundle files items).moments, heap.bytes ≤ 2 * bundle.length)
      ↔ RoomFrom bundle before items := by
  induction items generalizing pos files before with
  | nil =>
    refine ⟨fun _ mid e after hitems => ?_, fun _ heap hheap => ?_⟩
    · cases mid <;> cases hitems
    · cases hheap
  | cons item items ih =>
    cases item with
    | none =>
      refine ⟨fun _ mid e after hitems => ?_, fun _ heap hheap => ?_⟩
      · cases mid <;> cases hitems
      · cases hheap
    | some e =>
      obtain ⟨hpos, hlen, hlaid⟩ := hlaid
      have hstep := unpack_entry_moments hstores (hbefore.trans hpos) hlen
      rw [roomFrom_cons, ← hstep, unpack_items]
      rcases unpack_entry_cases files hlen with
        ⟨hunpackable, path, content, hpath, hlength, heq⟩ | ⟨hcomplete, -, -, error, heq⟩ | ⟨hno, error, heq⟩
      · -- the next entries come after the stored data of this one, too
        have hrest := ih hlaid (hstores.replace hpath hlength) (by
          rw [stored_append]
          exact Nat.add_le_add (hbefore.trans hpos) le_rfl)
        simp only [heq, List.forall_mem_append, hrest]
        exact and_congr_right fun _ => ⟨fun h _ => h, fun h => h hunpackable⟩
      · simp only [heq]
        exact ⟨fun h => ⟨h, fun hunpackable => absurd hunpackable.complete hcomplete⟩, fun h => h.1⟩
      · simp only [heq]
        exact ⟨fun h => ⟨h, fun hunpackable => absurd ⟨hunpackable.path, hunpackable.size⟩ hno⟩, fun h => h.1⟩

/-- All entries become files. -/
def AllUnpackable (bundle : Bytes) (items : List (Option Entry)) (es : List Entry) : Prop :=
  items = es.map some ∧ ∀ e ∈ es, Unpackable bundle e

/-- The loop completes iff all entries become files, and then it has allocated a
buffer for each. -/
theorem unpack_items_completes (files : Files) {pos : ℕ} {items : List (Option Entry)} (hlaid : LaidOut bundle.length pos items) :
    (∃ es files', AllUnpackable bundle items es ∧ (unpack_items bundle files items).result = .ok files'
        ∧ (unpack_items bundle files items).data = es.map Entry.size)
      ∨ (∀ es, ¬ AllUnpackable bundle items es) ∧ ∃ error, (unpack_items bundle files items).result = .error error := by
  induction items generalizing pos files with
  | nil =>
    refine Or.inl ⟨[], files, ⟨rfl, fun e he => ?_⟩, rfl, rfl⟩
    cases he
  | cons item items ih =>
    cases item with
    | none =>
      refine Or.inr ⟨?_, _, rfl⟩
      rintro (_ | ⟨e, es⟩) ⟨hitems, -⟩ <;> cases hitems
    | some e =>
      obtain ⟨hpos, hlen, hlaid⟩ := hlaid
      have hfirst : ∀ es, AllUnpackable bundle (some e :: items) es →
          Unpackable bundle e ∧ ∃ rest, AllUnpackable bundle items rest := by
        rintro (_ | ⟨e', es⟩) ⟨hitems, hall⟩
        · cases hitems
        · injection hitems with he htail
          obtain rfl := Option.some.inj he
          obtain ⟨hunpackable, hall⟩ := List.forall_mem_cons.1 hall
          exact ⟨hunpackable, es, htail, hall⟩
      rw [unpack_items]
      rcases unpack_entry_cases files hlen with
        ⟨hunpackable, path, content, hpath, hlength, heq⟩ | ⟨hcomplete, -, -, error, heq⟩ | ⟨hno, error, heq⟩
      · simp only [heq]
        rcases ih (files.replace (path, content)) hlaid with
          ⟨es, files', ⟨hitems, hall⟩, hresult, hdata⟩ | ⟨hnone, error, hresult⟩
        · refine Or.inl ⟨e :: es, files', ⟨by rw [hitems]; rfl, List.forall_mem_cons.2 ⟨hunpackable, hall⟩⟩, hresult, ?_⟩
          rw [hdata]
          rfl
        · refine Or.inr ⟨fun es hes => ?_, error, hresult⟩
          obtain ⟨-, rest, hrest⟩ := hfirst es hes
          exact hnone rest hrest
      · simp only [heq]
        exact Or.inr ⟨fun es hes => hcomplete (hfirst es hes).1.complete, error, rfl⟩
      · simp only [heq]
        refine Or.inr ⟨fun es hes => ?_, error, rfl⟩
        obtain ⟨hunpackable, -⟩ := hfirst es hes
        exact hno ⟨hunpackable.path, hunpackable.size⟩

/-- What entries have stored is all in the bundle, one after the other. -/
theorem stored_le {pos : ℕ} {es : List Entry} (hlaid : LaidOut bundle.length pos (es.map some))
    (hpos : pos ≤ bundle.length) (hall : ∀ e ∈ es, Unpackable bundle e) : pos + stored es ≤ bundle.length := by
  induction es generalizing pos with
  | nil => exact hpos
  | cons e es ih =>
    obtain ⟨hle, -, hlaid⟩ := hlaid
    obtain ⟨hunpackable, hall⟩ := List.forall_mem_cons.1 hall
    have hrest := ih hlaid hunpackable.complete hall
    have hcons : stored (e :: es) = e.stored + stored es := rfl
    omega

end Loop

/-! ## The whole loop -/

/-- **When unpacking is bounded.** For every archive and every bundle: the buffers
add up to at most the length of the bundle, if the loop completes, and at no moment
is more than twice that allocated, iff the holes of sparse entries have room beside
the stored data. -/
theorem bounded_iff (tar : Tar) (bundle : Bytes) :
    Bounded bundle.length (unpack tar bundle) ↔ ∀ items, tar.entries bundle = some items → HolesFit bundle items := by
  cases hentries : tar.entries bundle with
  | none =>
    have heq : unpack tar bundle = ⟨[], [], .error (.Other "bad bundle")⟩ := by simp only [unpack, hentries]
    rw [heq]
    refine ⟨fun _ items h => (by cases h), fun _ => ⟨fun files h => (by cases h), fun heap h => (by cases h)⟩⟩
  | some items =>
    have heq : unpack tar bundle = unpack_items bundle Table.empty items := by simp only [unpack, hentries]
    have hlaid := tar.laid_out bundle items hentries
    have hmoments := unpack_items_moments hlaid stores_empty le_rfl
    rw [heq]
    constructor
    · -- the sizes on record are those of all entries, if the loop completes
      rintro ⟨htotal, hmoment⟩ items' hitems'
      obtain rfl := Option.some.inj hitems'
      refine ⟨fun before e after => hmoments.1 hmoment before e after, fun es hitems hall => ?_⟩
      subst hitems
      rcases unpack_items_completes Table.empty hlaid with
        ⟨es', files, ⟨hitems, -⟩, hresult, hdata⟩ | ⟨hnone, -⟩
      · have hsum := htotal files hresult
        rw [hdata, ← List.map_injective_iff.2 (Option.some_injective _) hitems, sum_sizes] at hsum
        omega
      · exact absurd ⟨rfl, hall⟩ (hnone es)
    · intro h
      obtain ⟨hroom, htotal⟩ := h items rfl
      refine ⟨fun files hok => ?_, hmoments.2 fun mid e after => hroom mid e after⟩
      rcases unpack_items_completes Table.empty hlaid with
        ⟨es, files', ⟨hitems, hall⟩, -, hdata⟩ | ⟨-, error, herror⟩
      · have hholes := htotal es hitems hall
        subst hitems
        have hstored := stored_le hlaid (Nat.zero_le _) hall
        rw [hdata, sum_sizes]
        omega
      · rw [herror] at hok
        cases hok

/-- Archives of ordinary entries have no holes. -/
theorem HolesFit.of_ordinary {bundle : Bytes} {items : List (Option Entry)} (h : ∀ e, some e ∈ items → e.holes = 0) :
    HolesFit bundle items := by
  have hzero : ∀ es : List Entry, (∀ e ∈ es, some e ∈ items) → holes es = 0 := by
    intro es hes
    rw [holes, List.sum_eq_zero_iff]
    intro n hn
    obtain ⟨e, he, rfl⟩ := List.mem_map.1 hn
    exact h e (hes e he)
  refine ⟨fun before e after hitems _ _ _ => ?_, fun es hitems _ => ?_⟩
  · subst hitems
    have hbefore : holes (live before) = 0 := by
      refine hzero _ fun b hb => List.mem_append_left _ ?_
      exact List.mem_map_of_mem ((live_sublist before).subset hb)
    have he : e.holes = 0 := h e (List.mem_append_right _ List.mem_cons_self)
    rw [Room, hbefore, he]
    exact Nat.zero_le _
  · subst hitems
    rw [hzero es fun e he => List.mem_map_of_mem he]
    exact Nat.zero_le _

/-! ## A bundle of holes -/

/-- A field of a header: text, and zeros up to its width. -/
def field (width : ℕ) (text : String) : Bytes :=
  text.toList.map (fun c => UInt8.ofNat c.toNat) ++ List.replicate (width - text.toList.length) 0

theorem length_field {width : ℕ} {text : String} (h : text.toList.length ≤ width) : (field width text).length = width := by
  rw [field, List.length_append, List.length_map, List.length_replicate]
  omega

/-- The GNU header of a sparse file of 2560 bytes, of which none are stored. -/
def sparse_header (name checksum : String) : Bytes :=
  [field 100 name, field 8 "0000644", field 8 "0000000", field 8 "0000000", field 12 "00000000000",
    field 12 "00000000000", field 7 checksum, field 1 " ", field 1 "S", field 100 "", field 8 "ustar  ", field 121 "",
    field 12 "00000005000", field 12 "00000000000", field 73 "", field 12 "00000005000", field 17 ""].flatten

def sparse_bundle : Bytes :=
  sparse_header "index.js" "012475" ++ sparse_header "a" "011173" ++ sparse_header "b" "011174" ++ List.replicate 1024 0

theorem length_sparse_bundle : sparse_bundle.length = 2560 := by
  have hheader : ∀ name checksum : String, name.toList.length ≤ 100 → checksum.toList.length ≤ 7 →
      (sparse_header name checksum).length = 512 := by
    intro name checksum hname hchecksum
    rw [sparse_header, List.length_flatten]
    simp only [List.map_cons, List.map_nil, List.sum_cons, List.sum_nil]
    rw [length_field hname, length_field hchecksum, length_field (by decide), length_field (by decide),
      length_field (by decide), length_field (by decide), length_field (by decide), length_field (by decide),
      length_field (by decide), length_field (by decide), length_field (by decide), length_field (by decide),
      length_field (by decide)]
    rfl
  rw [sparse_bundle, List.length_append, List.length_append, List.length_append, List.length_replicate,
    hheader _ _ (by decide) (by decide), hheader _ _ (by decide) (by decide), hheader _ _ (by decide) (by decide)]

def sparse_entry (path : String) (file_pos : ℕ) : Entry := ⟨some path, file_pos, [.hole 2560, .stored 0]⟩

def sparse_entries : List Entry := [sparse_entry "index.js" 512, sparse_entry "a" 1024, sparse_entry "b" 1536]

def sparse_tar : Tar where
  entries bundle := if bundle = sparse_bundle then some (sparse_entries.map some) else none
  laid_out bundle items h := by
    by_cases hbundle : bundle = sparse_bundle
    · rw [if_pos hbundle] at h
      obtain rfl := Option.some.inj h
      rw [hbundle, length_sparse_bundle]
      simp [LaidOut, sparse_entries, sparse_entry, Entry.stored, Chunk.stored_bytes]
    · rw [if_neg hbundle] at h
      cases h

/-- Three headers with nothing stored: three times the length of the bundle is
allocated, and four times at one moment. -/
theorem sparse_bundle_unbounded :
    (∃ files, (unpack sparse_tar sparse_bundle).result = .ok files) ∧ (unpack sparse_tar sparse_bundle).data.sum = 7680
      ∧ (∃ heap ∈ (unpack sparse_tar sparse_bundle).moments, 2 * sparse_bundle.length < heap.bytes)
      ∧ ¬ Bounded sparse_bundle.length (unpack sparse_tar sparse_bundle) := by
  have hentries : sparse_tar.entries sparse_bundle = some (sparse_entries.map some) := by
    simp only [sparse_tar, if_true]
  have heq : unpack sparse_tar sparse_bundle = unpack_items sparse_bundle Table.empty (sparse_entries.map some) := by
    simp only [unpack, hentries]
  have hlaid := sparse_tar.laid_out _ _ hentries
  have hall : ∀ e ∈ sparse_entries, Unpackable sparse_bundle e := by
    intro e he
    have hsizes : ∀ e ∈ sparse_entries, e.path.isSome = true ∧ e.size ≤ 2560 ∧ e.file_pos + e.stored ≤ 2560 := by
      decide +kernel
    obtain ⟨hpath, hsize, hcomplete⟩ := hsizes e he
    rw [← length_sparse_bundle] at hsize hcomplete
    exact ⟨Option.isSome_iff_exists.1 hpath, hsize, hcomplete⟩
  -- at the third entry two files are there that have nothing stored
  have hroom : ¬ RoomFrom sparse_bundle [] (sparse_entries.map some) := by
    intro h
    have hlast := h [sparse_entry "index.js" 512, sparse_entry "a" 1024] (sparse_entry "b" 1536) [] rfl
      (fun b hb => hall b (List.mem_append_left [sparse_entry "b" 1536] hb)) ⟨"b", rfl⟩ (hall _ (by decide)).size
    rw [Room, copies, if_pos (hall _ (by decide)).complete, length_sparse_bundle] at hlast
    revert hlast
    decide +kernel
  have hmoment : ∃ heap ∈ (unpack sparse_tar sparse_bundle).moments, 2 * sparse_bundle.length < heap.bytes := by
    by_contra! hall
    rw [heq] at hall
    exact hroom ((unpack_items_moments hlaid stores_empty le_rfl).1 hall)
  rcases unpack_items_completes Table.empty hlaid with
    ⟨es, files, ⟨hitems, -⟩, hresult, hdata⟩ | ⟨hnone, -⟩
  · rw [← List.map_injective_iff.2 (Option.some_injective _) hitems] at hdata
    have hsum : (unpack sparse_tar sparse_bundle).data.sum = 7680 := by
      rw [heq, hdata]
      decide +kernel
    refine ⟨⟨files, heq ▸ hresult⟩, hsum, hmoment, fun hbounded => ?_⟩
    have hle := hbounded.total files (heq ▸ hresult)
    rw [hsum, length_sparse_bundle] at hle
    omega
  · exact absurd ⟨rfl, hall⟩ (hnone _)

end Unpacking

end RustyWorkers

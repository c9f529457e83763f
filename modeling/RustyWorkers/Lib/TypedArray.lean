/-
JavaScript's buffers, and what `new Uint8Array(x)` makes of each kind of them.

From an `ArrayBuffer` it takes the bytes. A typed array it takes element by
element: each is read as a number and the number is put into a byte, so elements
of more than one byte lose what does not fit. A `DataView` has neither elements
nor a length, and gives nothing. Numbers and BigInts do not mix.

The facts at the end are about the elements in one row, padded with zeros to the
length of the bytes: where elements are wider than a byte, the row is again the
bytes only if there is nothing in them but the first byte
(`padded_elements_iff`). Nothing in this file is about one particular program.
-/
import Mathlib

set_option autoImplicit false

namespace RustyWorkers.Lib.Js

/-! ## Numbers -/

/-- A number; a finite one is exact, and there is one zero. -/
inductive Number where
  | finite (q : ℚ)
  | infinite
  | NaN

/-- Toward zero. -/
def truncate (q : ℚ) : ℤ := if 0 ≤ q then ⌊q⌋ else ⌈q⌉

/-- `ToUint8`: what is left of the point, modulo 256. -/
def ToUint8 : Number → UInt8
  | .finite q => UInt8.ofNat (truncate q % 256).toNat
  | .infinite | .NaN => 0

/-- The value of bytes, least significant first. -/
def le_value : List UInt8 → ℕ
  | [] => 0
  | b :: bs => b.toNat + 256 * le_value bs

/-- Two's complement of `size` bytes. -/
def signed (size v : ℕ) : ℤ := if 2 * v < 256 ^ size then v else v - 256 ^ size

/-- The binary interchange formats: a sign, `e` bits of a biased exponent and `m`
bits of a significand. -/
def float (e m v : ℕ) : Number :=
  let sign : ℚ := if v / 2 ^ (e + m) % 2 = 0 then 1 else -1
  let exponent := v / 2 ^ m % 2 ^ e
  let significand := v % 2 ^ m
  let bias := 2 ^ (e - 1) - 1
  if exponent = 2 ^ e - 1 then
    if significand = 0 then .infinite else .NaN
  else if exponent = 0 then
    .finite (sign * (significand / 2 ^ (bias - 1 + m)))
  else .finite (sign * ((2 ^ m + significand) * 2 ^ exponent / 2 ^ (bias + m)))

/-! ## Buffers -/

inductive ElementType where
  | Int8
  | Uint8
  | Uint8Clamped
  | Int16
  | Uint16
  | Int32
  | Uint32
  | BigInt64
  | BigUint64
  | Float32
  | Float64
deriving DecidableEq

namespace ElementType

/-- The size of an element in bytes. -/
def size : ElementType → ℕ
  | .Int8 | .Uint8 | .Uint8Clamped => 1
  | .Int16 | .Uint16 => 2
  | .Int32 | .Uint32 | .Float32 => 4
  | .BigInt64 | .BigUint64 | .Float64 => 8

/-- Whether the elements are BigInts. -/
def bigint : ElementType → Bool
  | .BigInt64 | .BigUint64 => true
  | _ => false

/-- `RawBytesToNumeric`, on the byte order of the machine. -/
def numeric : ElementType → List UInt8 → Number
  | .Uint8, c | .Uint8Clamped, c | .Uint16, c | .Uint32, c | .BigUint64, c => .finite (le_value c)
  | .Int8, c => .finite (signed 1 (le_value c))
  | .Int16, c => .finite (signed 2 (le_value c))
  | .Int32, c => .finite (signed 4 (le_value c))
  | .BigInt64, c => .finite (signed 8 (le_value c))
  | .Float32, c => float 8 23 (le_value c)
  | .Float64, c => float 11 52 (le_value c)

end ElementType

/-- A range of an `ArrayBuffer`. -/
structure View where
  buffer : List UInt8
  byte_offset : ℕ
  byte_length : ℕ
  in_range : byte_offset + byte_length ≤ buffer.length

/-- The bytes of a view. -/
def View.bytes (view : View) : List UInt8 := (view.buffer.drop view.byte_offset).take view.byte_length

@[simp] theorem View.length_bytes (view : View) : view.bytes.length = view.byte_length := by
  have h := view.in_range
  rw [View.bytes, List.length_take, List.length_drop]
  omega

/-- `ArrayBuffer | ArrayBufferView`. A typed array is aligned to its elements. -/
inductive BufferSource where
  | ArrayBuffer (buffer : List UInt8)
  | TypedArray (type : ElementType) (view : View)
      (aligned : type.size ∣ view.byte_offset ∧ type.size ∣ view.byte_length)
  | DataView (view : View)

namespace BufferSource

/-- The bytes that it stands for. -/
def bytes : BufferSource → List UInt8
  | .ArrayBuffer buffer => buffer
  | .TypedArray _ view _ | .DataView view => view.bytes

def byteLength : BufferSource → ℕ
  | .ArrayBuffer buffer => buffer.length
  | .TypedArray _ view _ | .DataView view => view.byte_length

theorem length_bytes (x : BufferSource) : x.bytes.length = x.byteLength := by
  cases x with
  | ArrayBuffer buffer => rfl
  | TypedArray type view aligned => exact view.length_bytes
  | DataView view => exact view.length_bytes

end BufferSource

/-- What the constructor and `set` throw. -/
inductive Thrown where
  | TypeError
  | RangeError
deriving DecidableEq

/-- The bytes of the element at `i`. -/
def element (type : ElementType) (view : View) (i : ℕ) : List UInt8 :=
  (view.buffer.drop (view.byte_offset + type.size * i)).take type.size

/-- `new Uint8Array(x)`. Arrays of BigInts are refused, the empty ones too. -/
def new_Uint8Array : BufferSource → Except Thrown (List UInt8)
  | .ArrayBuffer buffer => .ok buffer
  | .TypedArray type view _ =>
    if type.bigint then .error .TypeError
    else .ok ((List.range (view.byte_length / type.size)).map fun i => ToUint8 (type.numeric (element type view i)))
  | .DataView _ => .ok []

/-- `new ArrayBuffer(n)`. -/
def new_ArrayBuffer (n : ℕ) : List UInt8 := List.replicate n 0

/-- `target.set(source)`, both arrays of bytes. -/
def set (target source : List UInt8) : Except Thrown (List UInt8) :=
  if source.length ≤ target.length then .ok (source ++ target.drop source.length) else .error .RangeError

/-! ## One element -/

theorem le_value_zero {c : List UInt8} (h : ∀ b ∈ c, b = 0) : le_value c = 0 := by
  induction c with
  | nil => rfl
  | cons b c ih =>
      rw [le_value, h b List.mem_cons_self, ih fun a ha => h a (List.mem_cons_of_mem _ ha)]
      rfl

/-- The low byte. -/
theorem le_value_mod (c : List UInt8) : le_value c % 256 = (c.headD 0).toNat := by
  cases c with
  | nil => rfl
  | cons b c =>
      have hb : b.toNat < 256 := b.toNat_lt
      rw [le_value, List.headD_cons]
      omega

theorem truncate_intCast (n : ℤ) : truncate n = n := by
  unfold truncate
  split
  · exact Int.floor_intCast n
  · exact Int.ceil_intCast n

theorem ToUint8_intCast (n : ℤ) : ToUint8 (.finite n) = UInt8.ofNat (n % 256).toNat := by
  rw [ToUint8, truncate_intCast]

/-- Both integers with the bits `v` have the low byte of `v`. -/
theorem signed_mod {size : ℕ} (hsize : 1 ≤ size) (v : ℕ) : signed size v % 256 = (v % 256 : ℕ) := by
  have hdvd : (256 : ℤ) ∣ 256 ^ size := dvd_pow_self 256 (by omega)
  unfold signed
  split
  · norm_cast
  · rw [Int.sub_emod, Int.emod_eq_zero_of_dvd hdvd, Int.sub_zero, Int.emod_emod]
    norm_cast

theorem ToUint8_natCast (v : ℕ) : ToUint8 (.finite v) = UInt8.ofNat (v % 256) := by
  have h := ToUint8_intCast v
  rw [Int.cast_natCast] at h
  rw [h]
  norm_cast

theorem ToUint8_signed {size : ℕ} (hsize : 1 ≤ size) (v : ℕ) :
    ToUint8 (.finite (signed size v)) = UInt8.ofNat (v % 256) := by
  rw [ToUint8_intCast, signed_mod hsize, Int.toNat_natCast]

/-- A magnitude below one leaves nothing. -/
theorem truncate_small {q : ℚ} (hlow : -1 < q) (hhigh : q < 1) : truncate q = 0 := by
  unfold truncate
  split
  · exact Int.floor_eq_zero_iff.2 ⟨‹_›, hhigh⟩
  · exact Int.ceil_eq_zero_iff.2 ⟨hlow, (not_le.1 ‹_›).le⟩

/-- Floats whose bits are a small number are close to zero. -/
theorem ToUint8_float {e m v : ℕ} (he : 2 ≤ e) (hv : v < 2 ^ m) : ToUint8 (float e m v) = 0 := by
  -- the exponent is zero, so the number is a subnormal one
  have hexp : v / 2 ^ m % 2 ^ e = 0 := by rw [Nat.div_eq_of_lt hv, Nat.zero_mod]
  have hne : (0 : ℕ) ≠ 2 ^ e - 1 := by
    have h := Nat.pow_le_pow_right (show 0 < 2 by omega) he
    omega
  have hlt : (v : ℚ) / 2 ^ (2 ^ (e - 1) - 1 - 1 + m) < 1 := by
    rw [div_lt_one (by positivity)]
    calc (v : ℚ) < 2 ^ m := by exact_mod_cast hv
      _ ≤ 2 ^ (2 ^ (e - 1) - 1 - 1 + m) := pow_le_pow_right₀ (by norm_num) (by omega)
  have hpos : (0 : ℚ) ≤ v / 2 ^ (2 ^ (e - 1) - 1 - 1 + m) := by positivity
  simp only [float, hexp, hne, if_false, if_true, Nat.mod_eq_of_lt hv]
  rw [ToUint8, truncate_small]
  · rfl
  · split <;> linarith
  · split <;> linarith

/-! ## A row of elements -/

section Row

variable {k : List UInt8} {w n : ℕ} {conv : List UInt8 → UInt8}

/-- The elements of `k`, `w` bytes each, each put into one byte. -/
def row (conv : List UInt8 → UInt8) (w n : ℕ) (k : List UInt8) : List UInt8 :=
  (List.range n).map fun i => conv ((k.drop (w * i)).take w)

/-- The row in a buffer that has one byte more than `k`. -/
def padded (conv : List UInt8 → UInt8) (w n : ℕ) (k : List UInt8) : List UInt8 :=
  row conv w n k ++ List.replicate (k.length + 1 - n) 0

theorem length_row : (row conv w n k).length = n := by rw [row, List.length_map, List.length_range]

theorem length_padded (hn : n ≤ k.length) : (padded conv w n k).length = k.length + 1 := by
  rw [padded, List.length_append, length_row, List.length_replicate]
  omega

theorem padded_getElem? {i : ℕ} (hi : i ≤ k.length) :
    (padded conv w n k)[i]? = some (if i < n then conv ((k.drop (w * i)).take w) else 0) := by
  rw [padded]
  by_cases hin : i < n
  · rw [List.getElem?_append_left (by rw [length_row]; exact hin), if_pos hin, row, List.getElem?_map,
      List.getElem?_range hin, Option.map_some]
  · rw [List.getElem?_append_right (by rw [length_row]; omega), if_neg hin, length_row,
      List.getElem?_replicate_of_lt (by omega)]

theorem zero_of_drop {m m' : ℕ} (hle : m ≤ m') (h : ∀ b ∈ k.drop m, b = 0) : ∀ b ∈ (k.drop m').take w, b = 0 :=
  fun b hb => h b (List.drop_subset_drop_left k hle (List.mem_of_mem_take hb))

/-- What each byte is, when the row is the bytes again. -/
theorem byte_of_padded (h : padded conv w n k = k ++ [0]) {m : ℕ} (hm : m < k.length) :
    k[m] = if m < n then conv ((k.drop (w * m)).take w) else 0 := by
  have hget := congrArg (·[m]?) h
  simp only [padded_getElem? hm.le, List.getElem?_append_left hm, List.getElem?_eq_getElem hm] at hget
  exact (Option.some.inj hget).symm

variable (hw : 2 ≤ w) (hzero : ∀ c, (∀ b ∈ c, b = 0) → conv c = 0)

include hw hzero

/-- If all is zero behind byte `m`, then so is the element at `m`, and with it
byte `m`: down to the second byte. -/
theorem drop_zero_of_padded (h : padded conv w n k = k ++ [0]) (m : ℕ) (hm : ∀ b ∈ k.drop (m + 1), b = 0) :
    ∀ b ∈ k.drop 1, b = 0 := by
  -- one byte in each step; the bytes of the element at `m + 1` begin behind it
  induction m with
  | zero => exact hm
  | succ m ih =>
      refine ih fun b hb => ?_
      rcases Nat.lt_or_ge (m + 1) k.length with hlt | hge
      · rw [List.drop_eq_getElem_cons hlt] at hb
        rcases List.mem_cons.1 hb with rfl | hb
        · rw [byte_of_padded h hlt]
          split
          · have hle : m + 1 + 1 ≤ w * (m + 1) := by nlinarith
            exact hzero _ (zero_of_drop hle hm)
          · rfl
        · exact hm b hb
      · rw [List.drop_eq_nil_of_le hge] at hb
        cases hb

theorem padded_of_zero (hlen : k.length = w * n) (htail : ∀ b ∈ k.drop 1, b = 0)
    (hhead : conv (k.take w) = k.headD 0) {i : ℕ} (hi : i ≤ k.length) :
    (if i < n then conv ((k.drop (w * i)).take w) else 0) = (k ++ [0]).getD i 0 := by
  cases i with
  | zero =>
      cases k with
      | nil =>
          rw [List.drop_nil]
          split
          · exact hhead
          · rfl
      | cons a t =>
          have hpos : 0 < n := by
            by_contra hno
            rw [Nat.eq_zero_of_not_pos hno] at hlen
            cases hlen
          rw [if_pos hpos]
          exact hhead
  | succ i =>
      have hleft : (if i + 1 < n then conv ((k.drop (w * (i + 1))).take w) else 0) = 0 := by
        split
        · have hle : 1 ≤ w * (i + 1) := Nat.mul_pos (by omega) (Nat.succ_pos i)
          exact hzero _ (zero_of_drop hle htail)
        · rfl
      rw [hleft]
      rcases Nat.lt_or_ge (i + 1) k.length with hlt | hge
      · rw [List.getD_append _ _ _ _ hlt, List.getD_eq_getElem _ _ hlt]
        refine (htail _ ?_).symm
        exact List.mem_drop_iff_getElem.2 ⟨i, by omega, by simp only [Nat.add_comm]⟩
      · rw [List.getD_append_right _ _ _ _ hge, show i + 1 - k.length = 0 by omega]
        rfl

/-- **Wide elements.** Elements of two or more bytes, with zeros behind them, are
the bytes they are made of and a zero only if these bytes are zero from the
second one on. -/
theorem padded_iff (hlen : k.length = w * n) :
    padded conv w n k = k ++ [0] ↔ (∀ b ∈ k.tail, b = 0) ∧ conv (k.take w) = k.headD 0 := by
  have hn : n ≤ k.length := by
    rw [hlen]
    exact Nat.le_mul_of_pos_left n (by omega)
  rw [← List.drop_one]
  constructor
  · intro h
    -- behind the last byte all is zero
    refine ⟨drop_zero_of_padded hw hzero h k.length fun b hb => ?_, ?_⟩
    · rw [List.drop_eq_nil_of_le (by omega)] at hb
      cases hb
    · cases k with
      | nil =>
          rw [List.take_nil]
          exact hzero [] fun b hb => nomatch hb
      | cons a t =>
          have hpos : 0 < n := by
            by_contra hno
            rw [Nat.eq_zero_of_not_pos hno] at hlen
            cases hlen
          have hbyte := byte_of_padded h (Nat.succ_pos t.length)
          rw [if_pos hpos] at hbyte
          exact hbyte.symm
  · rintro ⟨htail, hhead⟩
    refine List.ext_getElem? fun i => ?_
    rcases Nat.lt_or_ge k.length i with hlt | hle
    · rw [List.getElem?_eq_none (by rw [length_padded hn]; omega),
        List.getElem?_eq_none (by rw [List.length_append]; exact hlt)]
    · rw [padded_getElem? hle, padded_of_zero hw hzero hlen htail hhead hle]
      have hlt : i < (k ++ [0]).length := by
        rw [List.length_append, List.length_singleton]
        omega
      rw [List.getElem?_eq_getElem hlt, List.getD_eq_getElem _ _ hlt]

omit hw hzero in
/-- Elements of one byte that stay as they are. -/
theorem padded_one (hone : ∀ b, conv [b] = b) : padded conv 1 k.length k = k ++ [0] := by
  have hrow : row conv 1 k.length k = k := by
    refine List.ext_getElem length_row fun i _ hi => ?_
    simp only [row, List.getElem_map, List.getElem_range, one_mul, List.drop_eq_getElem_cons hi, List.take_succ_cons,
      List.take_zero, hone]
  rw [padded, hrow, Nat.add_sub_cancel_left]
  rfl

end Row

/-! ## The kinds of arrays -/

namespace ElementType

/-- Whether the elements are integers of the language's Number type. -/
def integer : ElementType → Bool
  | .Int8 | .Uint8 | .Uint8Clamped | .Int16 | .Uint16 | .Int32 | .Uint32 => true
  | _ => false

/-- An element, put into a byte. -/
def low (type : ElementType) (c : List UInt8) : UInt8 := ToUint8 (type.numeric c)

/-- An integer leaves its low byte. -/
theorem low_integer {type : ElementType} (h : type.integer = true) (c : List UInt8) : type.low c = c.headD 0 := by
  have hbyte : UInt8.ofNat (le_value c % 256) = c.headD 0 := by
    rw [le_value_mod, UInt8.ofNat_toNat]
  unfold low
  cases type with
  | Uint8 | Uint8Clamped | Uint16 | Uint32 => exact (ToUint8_natCast _).trans hbyte
  | Int8 | Int16 | Int32 => exact (ToUint8_signed (by omega) _).trans hbyte
  | BigInt64 | BigUint64 | Float32 | Float64 => cases h

/-- A float whose bytes behind the first are zero leaves nothing. -/
theorem low_float {type : ElementType} (hint : type.integer = false) (hbig : type.bigint = false) {c : List UInt8}
    (h : ∀ b ∈ c.tail, b = 0) : type.low c = 0 := by
  have hsmall : le_value c < 256 := by
    cases c with
    | nil => exact Nat.succ_pos 255
    | cons b c =>
        have hb : b.toNat < 256 := b.toNat_lt
        have hrest : le_value c = 0 := le_value_zero h
        rw [le_value, hrest]
        exact hb
  unfold low
  cases type with
  | Float32 => exact ToUint8_float (by omega) (hsmall.trans (by norm_num))
  | Float64 => exact ToUint8_float (by omega) (hsmall.trans (by norm_num))
  | _ => simp [integer, bigint] at hint hbig

theorem low_zero {type : ElementType} (hbig : type.bigint = false) (c : List UInt8) (h : ∀ b ∈ c, b = 0) :
    type.low c = 0 := by
  cases hint : type.integer with
  | true =>
      rw [low_integer hint]
      cases c with
      | nil => rfl
      | cons b c => exact h b List.mem_cons_self
  | false => exact low_float hint hbig fun b hb => h b (List.mem_of_mem_tail hb)

theorem size_pos (type : ElementType) : 0 < type.size := by cases type <;> exact Nat.succ_pos _

end ElementType

/-! ## The constructor and `set` -/

/-- An element lies within the view. -/
theorem element_eq {type : ElementType} {view : View} {i : ℕ} (hi : i < view.byte_length / type.size) :
    element type view i = (view.bytes.drop (type.size * i)).take type.size := by
  have hin : type.size * i + type.size ≤ view.byte_length := by
    have h := Nat.mul_le_of_le_div _ _ _ (Nat.succ_le_of_lt hi)
    rw [Nat.succ_mul, Nat.mul_comm] at h
    exact h
  rw [element, View.bytes, List.drop_take, List.drop_drop, List.take_take, Nat.min_eq_left (by omega)]

theorem new_Uint8Array_typed {type : ElementType} {view : View}
    (aligned : type.size ∣ view.byte_offset ∧ type.size ∣ view.byte_length) (hbig : type.bigint = false) :
    new_Uint8Array (.TypedArray type view aligned)
      = .ok (row type.low type.size (view.byte_length / type.size) view.bytes) := by
  rw [new_Uint8Array, hbig]
  refine congrArg Except.ok (List.map_congr_left fun i hi => ?_)
  rw [element_eq (List.mem_range.1 hi)]
  rfl

/-- A shorter array is put in front of the zeros of a new buffer. -/
theorem set_new {source : List UInt8} {n : ℕ} (h : source.length ≤ n) :
    set (new_ArrayBuffer n) source = .ok (source ++ List.replicate (n - source.length) 0) := by
  rw [set, new_ArrayBuffer, if_pos (by rw [List.length_replicate]; exact h), List.drop_replicate]

end RustyWorkers.Lib.Js

/-
The text of a number that is a natural number: which double a run of decimal
digits stands for, and the shortest digits that stand for this double again.

`nearest` rounds a natural number to 53 significant bits, to even in a tie, and
`shortest` looks for the decimal with the most zeros at the end that `nearest` takes
back to the same double. Below `2 ^ 53` both change nothing. What the rest rests on
is that a text of digits alone is read as a number with the same text
(`number_text_of_digits`). Nothing in this file is about one particular program.
-/
import Mathlib

set_option autoImplicit false

namespace RustyWorkers.Lib.NumberText

/-! ## The double nearest to a natural number -/

/-- The multiple of `2 ^ e` nearest to `n`, the even one in a tie. -/
def round_to (n e : ℕ) : ℕ :=
  if 2 ^ e < 2 * (n % 2 ^ e) ∨ (2 * (n % 2 ^ e) = 2 ^ e ∧ n / 2 ^ e % 2 = 1) then (n / 2 ^ e + 1) * 2 ^ e
  else n / 2 ^ e * 2 ^ e

def nearest (n : ℕ) : ℕ := if n < 2 ^ 53 then n else round_to n (n.log2 - 52)

theorem round_to_of_dvd {n e : ℕ} (h : 2 ^ e ∣ n) : round_to n e = n := by
  have hr : n % 2 ^ e = 0 := Nat.mod_eq_zero_of_dvd h
  have he : 0 < 2 ^ e := Nat.two_pow_pos e
  rw [round_to, hr, if_neg (by omega), Nat.div_mul_cancel h]

theorem round_to_eq (n e : ℕ) :
    round_to n e = n / 2 ^ e * 2 ^ e ∨ round_to n e = (n / 2 ^ e + 1) * 2 ^ e := by
  rw [round_to]
  split
  · exact Or.inr rfl
  · exact Or.inl rfl

theorem nearest_of_lt {n : ℕ} (h : n < 2 ^ 53) : nearest n = n := if_pos h

/-- What fits 53 bits and a power of two is a double. -/
theorem nearest_mul_pow {a : ℕ} (ha : a ≤ 2 ^ 53) (k : ℕ) : nearest (a * 2 ^ k) = a * 2 ^ k := by
  rw [nearest]
  split
  · rfl
  rename_i hbig
  have hn : a * 2 ^ k ≠ 0 := by omega
  apply round_to_of_dvd
  by_cases hlt : a < 2 ^ 53
  · have hlog : (a * 2 ^ k).log2 < 53 + k := by
      rw [Nat.log2_lt hn, pow_add]
      exact Nat.mul_lt_mul_of_pos_right hlt (Nat.two_pow_pos k)
    exact Dvd.dvd.mul_left (Nat.pow_dvd_pow 2 (by omega)) a
  · have ha' : a = 2 ^ 53 := by omega
    rw [ha', ← pow_add, Nat.log2_two_pow]
    exact Nat.pow_dvd_pow 2 (by omega)

/-- A double is what 53 bits and a power of two give. -/
theorem nearest_eq_mul_pow (n : ℕ) : ∃ a k, a ≤ 2 ^ 53 ∧ nearest n = a * 2 ^ k := by
  rw [nearest]
  split
  · rename_i hlt
    exact ⟨n, 0, by omega, by rw [pow_zero, mul_one]⟩
  rename_i hbig
  have hn : n ≠ 0 := by omega
  have hlog : 53 ≤ n.log2 := (Nat.le_log2 hn).2 (by omega)
  have hq : n / 2 ^ (n.log2 - 52) < 2 ^ 53 := by
    rw [Nat.div_lt_iff_lt_mul (Nat.two_pow_pos _), ← pow_add]
    have heq : 53 + (n.log2 - 52) = n.log2 + 1 := by omega
    rw [heq]
    exact Nat.lt_log2_self
  rcases round_to_eq n (n.log2 - 52) with h | h
  · exact ⟨_, _, by omega, h⟩
  · exact ⟨_, _, by omega, h⟩

theorem nearest_nearest (n : ℕ) : nearest (nearest n) = nearest n := by
  obtain ⟨a, k, ha, h⟩ := nearest_eq_mul_pow n
  rw [h]
  exact nearest_mul_pow ha k

theorem le_nearest {n : ℕ} (h : 2 ^ 53 ≤ n) : 2 ^ 53 ≤ nearest n := by
  have hn : n ≠ 0 := by omega
  have hlog : 53 ≤ n.log2 := (Nat.le_log2 hn).2 h
  have hq : 2 ^ 52 ≤ n / 2 ^ (n.log2 - 52) := by
    rw [Nat.le_div_iff_mul_le (Nat.two_pow_pos _), ← pow_add]
    have heq : 52 + (n.log2 - 52) = n.log2 := by omega
    rw [heq]
    exact Nat.log2_self_le hn
  have he : 2 ^ 1 ≤ 2 ^ (n.log2 - 52) := Nat.pow_le_pow_right (by omega) (by omega)
  rw [nearest, if_neg (by omega)]
  have hmul : 2 ^ 52 * 2 ^ 1 ≤ n / 2 ^ (n.log2 - 52) * 2 ^ (n.log2 - 52) := Nat.mul_le_mul hq he
  have hup : n / 2 ^ (n.log2 - 52) * 2 ^ (n.log2 - 52) ≤ (n / 2 ^ (n.log2 - 52) + 1) * 2 ^ (n.log2 - 52) :=
    Nat.mul_le_mul_right _ (by omega)
  rcases round_to_eq n (n.log2 - 52) with h' | h' <;> rw [h'] <;> omega

/-- Below `2 ^ 53` a number is the only one that is rounded to it. -/
theorem eq_of_nearest_eq {n x : ℕ} (hx : x < 2 ^ 53) (h : nearest n = x) : n = x := by
  by_cases hn : n < 2 ^ 53
  · rw [nearest_of_lt hn] at h
    exact h
  · have hbig := le_nearest (n := n) (by omega)
    omega

/-! ## The shortest decimal -/

/-- The decimal with `z` zeros at the end that is nearest to `x`, if it stands for `x`. -/
def decimal_at (x z : ℕ) : Option ℕ :=
  let lo := x / 10 ^ z * 10 ^ z
  let hi := lo + 10 ^ z
  if nearest lo = x ∧ (nearest hi = x → x - lo ≤ hi - x) then some lo
  else if nearest hi = x then some hi
  else none

/-- The decimal with the most zeros at the end that stands for `x`. -/
def shortest (x : ℕ) : ℕ :=
  ((List.range (Nat.toDigits 10 x).length).reverse.findSome? (decimal_at x)).getD x

theorem nearest_decimal_at {x z v : ℕ} (h : decimal_at x z = some v) : nearest v = x := by
  simp only [decimal_at] at h
  split at h
  · rename_i hlo
    rw [← Option.some.inj h]
    exact hlo.1
  · split at h
    · rename_i hhi
      rw [← Option.some.inj h]
      exact hhi
    · exact absurd h (by simp)

/-- The shortest decimal of a double stands for this double. -/
theorem nearest_shortest {x : ℕ} (hx : nearest x = x) : nearest (shortest x) = x := by
  rw [shortest]
  cases h : (List.range (Nat.toDigits 10 x).length).reverse.findSome? (decimal_at x) with
  | none =>
      rw [Option.getD_none]
      exact hx
  | some v =>
      obtain ⟨z, -, hz⟩ := List.exists_of_findSome?_eq_some h
      rw [Option.getD_some]
      exact nearest_decimal_at hz

theorem shortest_of_lt {x : ℕ} (hx : x < 2 ^ 53) : shortest x = x :=
  eq_of_nearest_eq hx (nearest_shortest (nearest_of_lt hx))

/-! ## The text -/

/-- `d.ddde+N`. -/
def exponent_text (v : ℕ) : List Char :=
  let digits := Nat.toDigits 10 v
  let significant := (digits.reverse.dropWhile (· = '0')).reverse
  let mantissa :=
    match significant with
    | d :: d' :: rest => d :: '.' :: d' :: rest
    | short => short
  mantissa ++ ['e', '+'] ++ Nat.toDigits 10 (digits.length - 1)

/-- The text of the double nearest to `n`. -/
def number_text (n : ℕ) : List Char :=
  if 2 ^ 1024 ≤ nearest n then "Infinity".toList
  else if shortest (nearest n) < 10 ^ 21 then Nat.toDigits 10 (shortest (nearest n))
  else exponent_text (shortest (nearest n))

theorem number_text_of_lt {n : ℕ} (h : n < 2 ^ 53) : number_text n = Nat.toDigits 10 n := by
  have hinf : ¬ 2 ^ 1024 ≤ n := by
    have hlt : (2 : ℕ) ^ 53 < 2 ^ 1024 := by decide +kernel
    omega
  have hexp : n < 10 ^ 21 := by
    have hlt : (2 : ℕ) ^ 53 < 10 ^ 21 := by decide
    omega
  rw [number_text, nearest_of_lt h, if_neg hinf, shortest_of_lt h, if_pos hexp]

/-- What the text depends on. -/
theorem number_text_congr {m n : ℕ} (h : nearest m = nearest n) : number_text m = number_text n := by
  rw [number_text, number_text, h]

/-- A text of digits alone stands for the double that it is the text of. -/
theorem nearest_of_digits {n : ℕ} (h : ∀ c ∈ number_text n, c.isDigit) :
    nearest (Nat.ofDigitChars 10 (number_text n) 0) = nearest n := by
  by_cases hinf : 2 ^ 1024 ≤ nearest n
  · rw [number_text, if_pos hinf] at h
    exact absurd (h 'I' (by decide)) (by decide)
  by_cases hexp : shortest (nearest n) < 10 ^ 21
  · have htext : number_text n = Nat.toDigits 10 (shortest (nearest n)) := by
      rw [number_text, if_neg hinf, if_pos hexp]
    rw [htext, Nat.ofDigitChars_ten_toDigits]
    exact nearest_shortest (nearest_nearest n)
  · rw [number_text, if_neg hinf, if_neg hexp] at h
    refine absurd (h 'e' ?_) (by decide)
    rw [exponent_text]
    simp

/-- A text of digits alone is read as a number with the same text. -/
theorem number_text_of_digits {n : ℕ} (h : ∀ c ∈ number_text n, c.isDigit) :
    number_text (Nat.ofDigitChars 10 (number_text n) 0) = number_text n :=
  number_text_congr (nearest_of_digits h)

/-- Digits, the letters of `Infinity` and the signs of an exponent. -/
def is_number_char (c : Char) : Bool := c.isAlphanum || c = '+' || c = '.'

theorem is_number_char_toNat {c : Char} (h : is_number_char c) :
    c.toNat ∈ [43, 46] ∨ (48 ≤ c.toNat ∧ c.toNat ≤ 57) ∨ (65 ≤ c.toNat ∧ c.toNat ≤ 90) ∨
      (97 ≤ c.toNat ∧ c.toNat ≤ 122) := by
  simp only [is_number_char, Char.isAlphanum, Char.isAlpha, Char.isDigit, Char.isUpper, Char.isLower, Bool.or_eq_true,
    Bool.and_eq_true, decide_eq_true_eq, GE.ge, UInt32.le_iff_toNat_le] at h
  rcases h with (h | h) | h
  · right
    rcases h with (h | h) | h
    · exact Or.inr (Or.inl h)
    · exact Or.inr (Or.inr h)
    · exact Or.inl h
  · rw [h]
    simp
  · rw [h]
    simp

theorem toDigits_chars {n : ℕ} : ∀ c ∈ Nat.toDigits 10 n, is_number_char c := by
  intro c hc
  have hd : c.isDigit := Nat.isDigit_of_mem_toDigits (by omega) (by omega) hc
  simp [is_number_char, Char.isAlphanum, hd]

theorem exponent_text_chars {v : ℕ} : ∀ c ∈ exponent_text v, is_number_char c := by
  have hsignificant : ∀ c ∈ ((Nat.toDigits 10 v).reverse.dropWhile (· = '0')).reverse, is_number_char c := by
    intro c hc
    have hmem := (List.dropWhile_sublist _).subset (List.mem_reverse.1 hc)
    exact toDigits_chars c (List.mem_reverse.1 hmem)
  intro c hc
  simp only [exponent_text, List.append_assoc] at hc
  rcases List.mem_append.1 hc with hc | hc
  · split at hc
    · rename_i d d' rest heq
      rw [heq] at hsignificant
      by_cases hdot : c = '.'
      · rw [hdot]
        decide
      · refine hsignificant c ?_
        simp only [List.mem_cons] at hc ⊢
        tauto
    · exact hsignificant c hc
  rcases List.mem_append.1 hc with hc | hc
  · exact List.all_eq_true.1 (by decide : (['e', '+'].all is_number_char) = true) c hc
  · exact toDigits_chars c hc

theorem number_text_chars {n : ℕ} : ∀ c ∈ number_text n, is_number_char c := by
  rw [number_text]
  split
  · exact List.all_eq_true.1 (by decide)
  split
  · exact toDigits_chars
  · exact exponent_text_chars

example : number_text 9007199254740993 = "9007199254740992".toList := by decide +kernel

example : number_text (123456789 * 10 ^ 15) = "1.23456789e+23".toList := by decide +kernel

end RustyWorkers.Lib.NumberText

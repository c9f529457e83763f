/-
UTF-8 keeps the order of strings.

A byte string compares like a list of bytes, a string like a list of characters.
The two orders agree on UTF-8: a character with a larger code point has a larger
first byte, or the same one and a larger byte after it, so the first byte in
which two encodings differ belongs to the first character in which the strings
differ. A map that is sorted by bytes is sorted by strings, and the other way
round.
-/
import Mathlib

set_option autoImplicit false

namespace RustyWorkers.Lib

namespace Utf8

/-- The bytes of a string. -/
def bytes (s : String) : List UInt8 := s.toList.flatMap String.utf8EncodeChar

theorem lt_ofNat {a b : ℕ} (h : a < b) (hb : b < 256) : UInt8.ofNat a < UInt8.ofNat b := by
  rw [UInt8.lt_iff_toNat_lt, UInt8.toNat_ofNat', UInt8.toNat_ofNat', Nat.mod_eq_of_lt hb,
    Nat.mod_eq_of_lt (by omega)]
  exact h

/-- The first byte decides, or the rest does. -/
theorem cons_lt_cons {a b : ℕ} (hb : b < 256) {r r' : List UInt8} (h : a < b ∨ a = b ∧ r < r') :
    UInt8.ofNat a :: r < UInt8.ofNat b :: r' := by
  rw [List.cons_lt_cons_iff]
  rcases h with hlt | ⟨rfl, hr⟩
  · exact Or.inl (lt_ofNat hlt hb)
  · exact Or.inr ⟨rfl, hr⟩

/-- The encodings of two characters differ in a byte that both have, in the order
of the characters. -/
theorem encode_lt {c d : Char} (h : c < d) (r r' : List UInt8) :
    String.utf8EncodeChar c ++ r < String.utf8EncodeChar d ++ r' := by
  have hlt : c.val.toNat < d.val.toNat := h
  have hmax : d.val.toNat < 0x110000 := by
    have hvalid := d.valid
    simp only [UInt32.isValidChar, Nat.isValidChar] at hvalid
    omega
  generalize hx : c.val.toNat = x at hlt
  generalize hy : d.val.toNat = y at hlt hmax
  simp only [String.utf8EncodeChar, hx, hy]
  -- the longer encoding has the larger first byte; of one length, the first
  -- group of six bits in which the characters differ decides
  split_ifs <;> simp only [List.cons_append, List.nil_append]
  · exact cons_lt_cons (by omega) (Or.inl hlt)
  · exact cons_lt_cons (by omega) (Or.inl (by omega))
  · exact cons_lt_cons (by omega) (Or.inl (by omega))
  · exact cons_lt_cons (by omega) (Or.inl (by omega))
  · omega
  · refine cons_lt_cons (by omega) ?_
    by_cases h1 : x / 64 < y / 64
    · exact Or.inl (by omega)
    · exact Or.inr ⟨by omega, cons_lt_cons (by omega) (Or.inl (by omega))⟩
  · exact cons_lt_cons (by omega) (Or.inl (by omega))
  · exact cons_lt_cons (by omega) (Or.inl (by omega))
  · omega
  · omega
  · refine cons_lt_cons (by omega) ?_
    by_cases h2 : x / 4096 < y / 4096
    · exact Or.inl (by omega)
    · refine Or.inr ⟨by omega, cons_lt_cons (by omega) ?_⟩
      by_cases h1 : x / 64 < y / 64
      · exact Or.inl (by omega)
      · exact Or.inr ⟨by omega, cons_lt_cons (by omega) (Or.inl (by omega))⟩
  · exact cons_lt_cons (by omega) (Or.inl (by omega))
  · omega
  · omega
  · omega
  · refine cons_lt_cons (by omega) ?_
    by_cases h3 : x / 262144 < y / 262144
    · exact Or.inl (by omega)
    · refine Or.inr ⟨by omega, cons_lt_cons (by omega) ?_⟩
      by_cases h2 : x / 4096 < y / 4096
      · exact Or.inl (by omega)
      · refine Or.inr ⟨by omega, cons_lt_cons (by omega) ?_⟩
        by_cases h1 : x / 64 < y / 64
        · exact Or.inl (by omega)
        · exact Or.inr ⟨by omega, cons_lt_cons (by omega) (Or.inl (by omega))⟩

/-- The encoding is strictly monotone. -/
theorem flatMap_lt {l m : List Char} (h : l < m) :
    l.flatMap String.utf8EncodeChar < m.flatMap String.utf8EncodeChar := by
  induction l generalizing m with
  | nil =>
    cases m with
    | nil => exact absurd h (lt_irrefl _)
    | cons d m =>
      rw [List.flatMap_nil, List.flatMap_cons]
      obtain ⟨b, bs, hb⟩ := List.exists_cons_of_ne_nil (l := String.utf8EncodeChar d) (by
        intro hnil
        have hlength := String.length_utf8EncodeChar d
        have hpos := d.utf8Size_pos
        rw [hnil, List.length_nil] at hlength
        omega)
      rw [hb, List.cons_append]
      exact List.nil_lt_cons _ _
  | cons c l ih =>
    cases m with
    | nil => exact absurd h (List.not_lt_nil _)
    | cons d m =>
      rw [List.flatMap_cons, List.flatMap_cons]
      rcases List.cons_lt_cons_iff.1 h with hlt | ⟨rfl, hrest⟩
      · exact encode_lt hlt _ _
      · exact List.append_left_lt (ih hrest)

/-- **Strings compare as their bytes do.** -/
theorem bytes_lt {s t : String} (h : s < t) : bytes s < bytes t := flatMap_lt (String.lt_iff_toList_lt.1 h)

theorem prefix_of_flatMap {l m : List Char}
    (h : l.flatMap String.utf8EncodeChar <+: m.flatMap String.utf8EncodeChar) : l <+: m := by
  induction l generalizing m with
  | nil => exact List.nil_prefix
  | cons c l ih =>
    obtain ⟨rest, hrest⟩ := h
    rw [List.flatMap_cons, List.append_assoc] at hrest
    cases m with
    | nil =>
      have hlength := congrArg List.length hrest
      have hpos := c.utf8Size_pos
      rw [List.length_append, String.length_utf8EncodeChar, List.flatMap_nil, List.length_nil] at hlength
      omega
    | cons d m =>
      rw [List.flatMap_cons] at hrest
      -- of two different characters neither encoding begins the other
      rcases lt_trichotomy c d with hlt | rfl | hgt
      · exact absurd (hrest ▸ encode_lt hlt _ _) (List.lt_irrefl _)
      · exact List.cons_prefix_cons.2 ⟨rfl, ih ⟨rest, List.append_cancel_left hrest⟩⟩
      · exact absurd (hrest ▸ encode_lt hgt _ _) (List.lt_irrefl _)

/-- A string begins another one exactly if its bytes do. -/
theorem bytes_prefix_iff {s t : String} : bytes s <+: bytes t ↔ s.toList <+: t.toList := by
  constructor
  · exact prefix_of_flatMap
  · rintro ⟨rest, hrest⟩
    rw [bytes, bytes, ← hrest, List.flatMap_append]
    exact List.prefix_append _ _

end Utf8

end RustyWorkers.Lib

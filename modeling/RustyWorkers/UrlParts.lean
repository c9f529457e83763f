/-
What the parts of a URL may contain (`jURL`, `librt/src/url.js`).

`Clean` is about the units of each field alone: a segment has no slash and is no dot
segment, in no notation; a query has no `#`; nothing that ends an authority is in
the credentials or in the host. Each function that writes a field writes one that
is clean: the percent escapes, the credentials, the host, the port and the segments
have a lemma each, which the states of the parser then use.
-/
import RustyWorkers.Url

set_option autoImplicit false

namespace RustyWorkers

open Lib

namespace Url

open RespondWith (JsString js)

/-! ## Classes of units -/

theorem eq_unit_iff {u : UInt16} {c : Char} (hc : c.toNat < 65536) : u = unit c ↔ u.toNat = c.toNat := by
  rw [← UInt16.toNat_inj, unit, UInt16.toNat_ofNat_of_lt' hc]

theorem is_slash_iff {u : UInt16} : is_slash u ↔ u.toNat = 47 ∨ u.toNat = 92 := by
  simp only [is_slash, Bool.or_eq_true, decide_eq_true_eq]
  rw [eq_unit_iff (by decide), eq_unit_iff (by decide)]
  rfl

theorem is_terminator_iff {u : UInt16} :
    is_terminator u ↔ u.toNat = 47 ∨ u.toNat = 92 ∨ u.toNat = 63 ∨ u.toNat = 35 := by
  simp only [is_terminator, Bool.or_eq_true, is_slash_iff, decide_eq_true_eq]
  rw [eq_unit_iff (by decide), eq_unit_iff (by decide)]
  have h63 : '?'.toNat = 63 := rfl
  have h35 : '#'.toNat = 35 := rfl
  omega

theorem is_tab_or_newline_iff {u : UInt16} :
    is_tab_or_newline u ↔ u.toNat = 9 ∨ u.toNat = 10 ∨ u.toNat = 13 := by
  simp only [is_tab_or_newline, Bool.or_eq_true, decide_eq_true_eq]
  rw [eq_unit_iff (by decide), eq_unit_iff (by decide), eq_unit_iff (by decide)]
  have h9 : '\t'.toNat = 9 := rfl
  have h10 : '\n'.toNat = 10 := rfl
  have h13 : '\r'.toNat = 13 := rfl
  omega

theorem mem_iff_toNat {u : UInt16} {s : JsString} : u ∈ s ↔ u.toNat ∈ s.map UInt16.toNat := by
  rw [List.mem_map]
  constructor
  · intro h
    exact ⟨u, h, rfl⟩
  · rintro ⟨v, hv, h⟩
    rw [← UInt16.toNat_inj.1 h]
    exact hv

theorem is_plain_path_iff {u : UInt16} :
    is_plain path_except u ↔ 32 < u.toNat ∧ u.toNat < 127 ∧ u.toNat ≠ 34 ∧ u.toNat ≠ 35 ∧ u.toNat ≠ 60 ∧
      u.toNat ≠ 62 ∧ u.toNat ≠ 63 ∧ u.toNat ≠ 96 := by
  have h20 : (0x20 : UInt16).toNat = 32 := by decide
  have h7F : (0x7F : UInt16).toNat = 127 := by decide
  have hmem : u ∈ path_except ↔ u.toNat ∈ [34, 35, 60, 62, 63, 96] := mem_iff_toNat
  simp only [is_plain, Bool.and_eq_true, decide_eq_true_eq, UInt16.lt_iff_toNat_lt, h20, h7F, Bool.not_eq_true',
    ← Bool.not_eq_true, List.contains_iff_mem, hmem, List.mem_cons, List.not_mem_nil, or_false]
  omega

theorem is_plain_query_iff {u : UInt16} :
    is_plain query_except u ↔ 32 < u.toNat ∧ u.toNat < 127 ∧ u.toNat ≠ 34 ∧ u.toNat ≠ 35 ∧ u.toNat ≠ 60 ∧
      u.toNat ≠ 62 ∧ u.toNat ≠ 96 := by
  have h20 : (0x20 : UInt16).toNat = 32 := by decide
  have h7F : (0x7F : UInt16).toNat = 127 := by decide
  have hmem : u ∈ query_except ↔ u.toNat ∈ [34, 35, 60, 62, 96] := mem_iff_toNat
  simp only [is_plain, Bool.and_eq_true, decide_eq_true_eq, UInt16.lt_iff_toNat_lt, h20, h7F, Bool.not_eq_true',
    ← Bool.not_eq_true, List.contains_iff_mem, hmem, List.mem_cons, List.not_mem_nil, or_false]
  omega

/-! ## Percent escapes -/

/-- What an escape is made of: `%`, a digit or one of `A` to `F`. -/
def is_escape_unit (u : UInt16) : Bool := u = unit '%' || is_digit u || (decide (65 ≤ u.toNat) && decide (u.toNat ≤ 70))

theorem is_escape_unit_iff {u : UInt16} :
    is_escape_unit u ↔ u.toNat = 37 ∨ (48 ≤ u.toNat ∧ u.toNat ≤ 57) ∨ (65 ≤ u.toNat ∧ u.toNat ≤ 70) := by
  simp only [is_escape_unit, Bool.or_eq_true, Bool.and_eq_true, decide_eq_true_eq, is_digit_iff]
  rw [eq_unit_iff (by decide)]
  have h37 : '%'.toNat = 37 := rfl
  omega

theorem hex_digit_escape : ∀ n < 16, is_escape_unit (hex_digit n) := by decide

theorem percent_byte_escape (b : ℕ) : ∀ u ∈ percent_byte b, is_escape_unit u := by
  intro u hu
  simp only [percent_byte, List.mem_cons, List.not_mem_nil, or_false] at hu
  rcases hu with rfl | rfl | rfl
  · decide
  · exact hex_digit_escape _ (Nat.mod_lt _ (by omega))
  · exact hex_digit_escape _ (Nat.mod_lt _ (by omega))

/-- A code unit that `encodeURIComponent` changes becomes an escape. -/
theorem encode_uri_component_cases {u : UInt16} {e : JsString} (h : encode_uri_component u = some e) :
    (e = [u] ∧ (is_alpha u ∨ is_digit u ∨ u ∈ js "-_.!~*'()")) ∨ ∀ x ∈ e, is_escape_unit x := by
  simp only [encode_uri_component] at h
  split at h
  · rename_i hmark
    simp only [Bool.or_eq_true, decide_eq_true_eq] at hmark
    exact Or.inl ⟨(Option.some.inj h).symm, by tauto⟩
  right
  split at h
  · rw [← Option.some.inj h]
    exact percent_byte_escape _
  split at h
  · rw [← Option.some.inj h]
    intro x hx
    rcases List.mem_append.1 hx with hx | hx <;> exact percent_byte_escape _ x hx
  split at h
  · exact absurd h (by simp)
  · rw [← Option.some.inj h]
    intro x hx
    simp only [List.mem_append, or_assoc] at hx
    rcases hx with hx | hx | hx <;> exact percent_byte_escape _ x hx

theorem mark_iff {u : UInt16} : u ∈ js "-_.!~*'()" ↔ u.toNat ∈ [45, 95, 46, 33, 126, 42, 39, 40, 41] := mem_iff_toNat

/-- The escape of a unit is the unit, or it is made of units of escapes. -/
theorem percent_escape_cases {u : UInt16} {e : JsString} (h : percent_escape u = some e) :
    (e = [u] ∧ is_plain path_except u) ∨ ∀ x ∈ e, is_escape_unit x := by
  rw [percent_escape, percent_escape_with] at h
  split at h
  · rename_i hplain
    exact Or.inl ⟨(Option.some.inj h).symm, hplain⟩
  rename_i hplain
  rcases encode_uri_component_cases h with ⟨-, hmark⟩ | hx
  · rw [is_plain_path_iff] at hplain
    rw [is_alpha_iff, is_digit_iff, mark_iff] at hmark
    simp only [List.mem_cons, List.not_mem_nil, or_false] at hmark
    omega
  · exact Or.inr hx

theorem percent_escape_query_cases {u : UInt16} {e : JsString} (h : percent_escape_query u = some e) :
    (e = [u] ∧ is_plain query_except u) ∨ ∀ x ∈ e, is_escape_unit x := by
  rw [percent_escape_query, percent_escape_with] at h
  split at h
  · rename_i hplain
    exact Or.inl ⟨(Option.some.inj h).symm, hplain⟩
  rename_i hplain
  rcases encode_uri_component_cases h with ⟨-, hmark⟩ | hx
  · rw [is_plain_query_iff] at hplain
    rw [is_alpha_iff, is_digit_iff, mark_iff] at hmark
    simp only [List.mem_cons, List.not_mem_nil, or_false] at hmark
    omega
  · exact Or.inr hx

/-! ## The parts -/

/-- A unit of a segment. -/
def is_path_unit (u : UInt16) : Bool := is_plain path_except u && !is_slash u

/-- A unit of a user name or a password. -/
def is_credential_unit (u : UInt16) : Bool := is_path_unit u && u ≠ unit '@'

/-- A unit of a host. -/
def is_host_unit (u : UInt16) : Bool := !is_terminator u && !is_tab_or_newline u

/-- A unit of a scheme. -/
def is_scheme_unit (u : UInt16) : Bool := is_alphanumeric u && ascii_lower u = u

theorem is_path_unit_iff {u : UInt16} : is_path_unit u ↔ is_plain path_except u ∧ ¬ is_slash u := by
  simp [is_path_unit]

theorem is_credential_unit_iff {u : UInt16} : is_credential_unit u ↔ is_path_unit u ∧ u.toNat ≠ 64 := by
  have h64 : '@'.toNat = 64 := rfl
  simp only [is_credential_unit, Bool.and_eq_true, decide_eq_true_eq, ne_eq]
  rw [eq_unit_iff (by decide), h64]

theorem is_host_unit_iff {u : UInt16} : is_host_unit u ↔ ¬ is_terminator u ∧ ¬ is_tab_or_newline u := by
  simp [is_host_unit]

theorem is_path_unit_of_escape {u : UInt16} (h : is_escape_unit u) : is_path_unit u := by
  rw [is_escape_unit_iff] at h
  rw [is_path_unit_iff, is_plain_path_iff, is_slash_iff]
  omega

theorem is_plain_query_of_escape {u : UInt16} (h : is_escape_unit u) : is_plain query_except u := by
  rw [is_escape_unit_iff] at h
  rw [is_plain_query_iff]
  omega

theorem is_credential_unit_of_escape {u : UInt16} (h : is_escape_unit u) : is_credential_unit u := by
  refine is_credential_unit_iff.2 ⟨is_path_unit_of_escape h, ?_⟩
  rw [is_escape_unit_iff] at h
  omega

theorem ne_colon_of_escape {u : UInt16} (h : is_escape_unit u) : u ≠ unit ':' := by
  rw [is_escape_unit_iff] at h
  rw [ne_eq, eq_unit_iff (by decide)]
  have h58 : ':'.toNat = 58 := rfl
  omega

theorem is_ascii_of_path_unit {u : UInt16} (h : is_path_unit u) : is_ascii u := by
  rw [is_path_unit_iff, is_plain_path_iff] at h
  rw [is_ascii_iff]
  omega

theorem not_terminator_of_path_unit {u : UInt16} (h : is_path_unit u) : ¬ is_terminator u := by
  rw [is_path_unit_iff, is_plain_path_iff, is_slash_iff] at h
  rw [is_terminator_iff]
  omega

/-- What a segment means: the dots that an escape stands for. -/
def dots (s : JsString) : JsString := (relative_path_dot_mapping (s.map ascii_lower)).getD s

/-- A segment between two slashes. -/
structure Segment (s : JsString) : Prop where
  units : ∀ u ∈ s, is_path_unit u
  no_dot : dots s ≠ js "."
  no_dots : dots s ≠ js ".."

/-- A text that nothing in the URL can be mistaken for. -/
structure Clean (u : URL) : Prop where
  scheme : ∀ c ∈ u.scheme, is_scheme_unit c
  scheme_data : ∀ c ∈ u.scheme_data, is_plain path_except c
  username : ∀ c ∈ u.username, is_credential_unit c ∧ c ≠ unit ':'
  password : ∀ password, u.password = some password → ∀ c ∈ password, is_credential_unit c
  host : ∀ c ∈ u.host, is_host_unit c
  port : u.port = [] ∨ ∃ n, u.port = port_text n
  path : ∀ s ∈ u.path, Segment s
  query : u.query = [] ∨ ∃ q, u.query = unit '?' :: q ∧ ∀ c ∈ q, is_plain query_except c
  fragment : u.fragment = [] ∨ ∃ f, u.fragment = unit '#' :: f ∧ ∀ c ∈ f, ¬ is_tab_or_newline c

theorem clean_clear : Clean clear := by
  constructor <;> simp [clear]

theorem clean_invalid : Clean invalid := by
  constructor <;> simp [invalid, clear]

/-- A list is cut where the first unit stands that is not of its first part. -/
theorem span_append {α : Type*} {p : α → Bool} {l t : List α} (hbefore : ∀ x ∈ l, p x)
    (hafter : ∀ x, t.head? = some x → ¬ p x) :
    (l ++ t).takeWhile p = l ∧ (l ++ t).dropWhile p = t := by
  rw [List.takeWhile_append_of_pos hbefore, List.dropWhile_append_of_pos hbefore]
  cases t with
  | nil => simp
  | cons x rest =>
      have hx := hafter x rfl
      rw [List.takeWhile_cons_of_neg hx, List.dropWhile_cons_of_neg hx, List.append_nil]
      exact ⟨rfl, rfl⟩

theorem not_terminator_port (n : ℕ) : ∀ c ∈ port_text n, ¬ is_terminator c := by
  intro c hc
  unfold port_text at hc
  obtain ⟨d, hd, rfl⟩ := List.mem_map.1 hc
  have hchar := NumberText.is_number_char_toNat (NumberText.number_text_chars d hd)
  simp only [List.mem_cons, List.not_mem_nil, or_false] at hchar
  have hnat : (unit d).toNat = d.toNat := (eq_unit_iff (by omega)).1 rfl
  rw [is_terminator_iff, hnat]
  omega

/-- Nothing before the path ends it: the credentials, the host and the port. -/
theorem Clean.authority {u : URL} (hu : Clean u) : ∀ c ∈ u.userinfo ++ u.get_host, ¬ is_terminator c := by
  have hcolon : ¬ is_terminator (unit ':') := by decide
  have hcred : ∀ c, is_credential_unit c → ¬ is_terminator c := fun c hc =>
    not_terminator_of_path_unit (is_credential_unit_iff.1 hc).1
  have hhost : ∀ c ∈ u.host, ¬ is_terminator c := fun c hc => (is_host_unit_iff.1 (hu.host c hc)).1
  intro c hc
  rcases List.mem_append.1 hc with hc | hc
  · rw [URL.userinfo] at hc
    split at hc
    · rcases List.mem_append.1 hc with hc | hc
      · rcases List.mem_append.1 hc with hc | hc
        · exact hcred c (hu.username c hc).1
        · split at hc
          · rename_i password hpass
            rcases List.mem_append.1 hc with hc | hc
            · rw [List.mem_singleton.1 hc]
              exact hcolon
            · exact hcred c (hu.password password hpass c hc)
          · exact absurd hc (by simp)
      · rw [List.mem_singleton.1 hc]
        decide
    · exact absurd hc (by simp)
  · rw [URL.get_host] at hc
    split at hc
    · exact absurd hc (by simp)
    split at hc
    · rename_i hport
      rcases List.mem_append.1 hc with hc | hc
      · rcases List.mem_append.1 hc with hc | hc
        · exact hhost c hc
        · rw [List.mem_singleton.1 hc]
          exact hcolon
      · obtain ⟨n, hn⟩ := hu.port.resolve_left hport
        rw [hn] at hc
        exact not_terminator_port n c hc
    · exact hhost c hc

/-! ## The text -/

theorem href_eq {u : URL} (hvalid : u.is_invalid = false) (text : JsString) :
    (JUrl.mk text u).href = u.scheme ++ unit ':' ::
      ((if u.is_relative then js "//" ++ u.userinfo ++ u.get_host else []) ++ (u.pathname ++ (u.query ++ u.fragment))) := by
  have hjs : js ":" = [unit ':'] := rfl
  rw [JUrl.href, hvalid, if_neg (by simp), URL.protocol, hjs]
  simp only [List.append_assoc, List.cons_append, List.nil_append]

/-- The path with its first slash. -/
theorem pathname_eq {u : URL} (hvalid : u.is_invalid = false) (hrel : u.is_relative = true) :
    u.pathname = unit '/' :: [unit '/'].intercalate u.path := by
  have hslash : js "/" = [unit '/'] := rfl
  rw [URL.pathname, hvalid, if_neg (by simp), if_pos hrel, hslash]
  rfl

theorem mem_intercalate {α : Type*} {sep : List α} {x : α} {parts : List (List α)}
    (h : x ∈ sep.intercalate parts) : x ∈ sep ∨ ∃ part ∈ parts, x ∈ part := by
  induction parts with
  | nil => simp at h
  | cons part rest ih =>
      by_cases hrest : rest = []
      · rw [hrest, List.intercalate_singleton] at h
        exact Or.inr ⟨part, List.mem_cons_self, h⟩
      rw [List.intercalate_cons_of_ne_nil hrest, List.append_assoc, List.mem_append, List.mem_append] at h
      rcases h with h | h | h
      · exact Or.inr ⟨part, List.mem_cons_self, h⟩
      · exact Or.inl h
      · rcases ih h with h | ⟨q, hq, hx⟩
        · exact Or.inl h
        · exact Or.inr ⟨q, List.mem_cons_of_mem _ hq, hx⟩

/-! ## The functions that write a part -/

theorem set_host_nil (J : LowerCase) (u : URL) : set_host J u [] = invalid := by
  have hnil : J.to_lower_case [] = [] := J.ascii [] (by simp)
  simp [set_host, hnil, invalid, clear]

theorem set_host_of_ne (J : LowerCase) (u : URL) {h : JsString} (hne : h ≠ []) :
    set_host J u h = { u with host := J.to_lower_case h } := by
  rw [set_host, if_neg hne]

/-- What is a separator in the lower case was one before. -/
theorem mem_of_mem_lower (J : LowerCase) {s : JsString} {u : UInt16} (hu : is_separator u)
    (h : u ∈ J.to_lower_case s) : u ∈ s := by
  have hf : u ∈ (J.to_lower_case s).filter is_separator := List.mem_filter.2 ⟨h, hu⟩
  rw [J.separators] at hf
  exact (List.mem_filter.1 hf).1

theorem host_units_lower (J : LowerCase) {s : JsString} (h : ∀ u ∈ s, is_host_unit u) :
    ∀ u ∈ J.to_lower_case s, is_host_unit u := by
  intro u hu
  by_contra hbad
  have hsep : is_separator u := by
    rw [is_host_unit_iff, is_terminator_iff, is_tab_or_newline_iff] at hbad
    rw [is_separator_iff, is_alpha_iff]
    omega
  exact hbad (h u (mem_of_mem_lower J hsep hu))

theorem host_units_append {b : JsString} (hb : ∀ c ∈ b, is_host_unit c) {u : UInt16} (hterm : ¬ is_terminator u)
    (htab : ¬ is_tab_or_newline u) : ∀ c ∈ b ++ [u], is_host_unit c := by
  intro c hc
  rcases List.mem_append.1 hc with hc | hc
  · exact hb c hc
  · rw [List.mem_singleton.1 hc]
    exact is_host_unit_iff.2 ⟨hterm, htab⟩

theorem clean_set_host (J : LowerCase) {u : URL} (hu : Clean u) {h : JsString} (hh : ∀ c ∈ h, is_host_unit c) :
    Clean (set_host J u h) := by
  by_cases hne : h = []
  · rw [hne, set_host_nil]
    exact clean_invalid
  · rw [set_host_of_ne J u hne]
    exact { hu with host := host_units_lower J hh }

theorem clean_with_port {u : URL} (hu : Clean u) (buffer : JsString) : Clean (u.with_port buffer) := by
  rw [URL.with_port]
  split
  · exact hu
  · exact { hu with port := Or.inr ⟨parse_int buffer, rfl⟩ }

theorem Segment.empty : Segment [] := ⟨by simp, by decide, by decide⟩

/-- The notations of dots have three, four and six units. -/
theorem relative_path_dot_mapping_of_length {s : JsString} (h3 : s.length ≠ 3) (h4 : s.length ≠ 4)
    (h6 : s.length ≠ 6) : relative_path_dot_mapping s = none := by
  have hne : ∀ t : JsString, s.length ≠ t.length → s ≠ t := fun t ht h => ht (congrArg List.length h)
  rw [relative_path_dot_mapping, if_neg (hne (js "%2e") h3), if_neg (hne (js ".%2e") h4),
    if_neg (hne (js "%2e.") h4), if_neg (hne (js "%2e%2e") h6)]

/-- A segment of a letter and a colon is none of dots. -/
theorem Segment.drive {letter : UInt16} (h : is_alpha letter) : Segment [letter, unit ':'] := by
  have hunit : is_path_unit letter := by
    rw [is_alpha_iff] at h
    rw [is_path_unit_iff, is_plain_path_iff, is_slash_iff]
    omega
  have hdots : dots [letter, unit ':'] = [letter, unit ':'] := by
    rw [dots, relative_path_dot_mapping_of_length (by simp) (by simp) (by simp), Option.getD_none]
  refine ⟨?_, ?_, ?_⟩
  · intro u hu
    simp only [List.mem_cons, List.not_mem_nil, or_false] at hu
    rcases hu with rfl | rfl
    · exact hunit
    · decide
  · rw [hdots]
    intro h
    exact absurd (congrArg List.length h) (by simp [js])
  · have hjs : js ".." = [unit '.', unit '.'] := rfl
    rw [hdots, hjs]
    intro h
    simp only [List.cons.injEq, and_true] at h
    exact absurd h.2 (by decide)

/-- `toLowerCase` of a segment. -/
theorem lower_of_path_units (J : LowerCase) {s : JsString} (h : ∀ u ∈ s, is_path_unit u) :
    J.to_lower_case s = s.map ascii_lower := J.ascii s fun u hu => is_ascii_of_path_unit (h u hu)

/-- What stands for no dots stands for itself. -/
theorem dots_self {s : JsString} (h1 : dots s ≠ js ".") (h2 : dots s ≠ js "..") : dots s = s := by
  rw [dots, relative_path_dot_mapping] at h1 h2 ⊢
  split_ifs at h1 h2 ⊢ <;> first | rfl | exact absurd rfl h1 | exact absurd rfl h2

theorem dot_mapping_lower (J : LowerCase) {s : JsString} (h : ∀ u ∈ s, is_path_unit u) :
    (relative_path_dot_mapping (J.to_lower_case s)).getD s = dots s := by
  rw [lower_of_path_units J h, dots]

/-- Pushing keeps the path a list of segments, and the other fields as they are. -/
theorem push_segment_eq (J : LowerCase) {u : URL} {buffer : JsString} (more : Bool)
    (hu : ∀ s ∈ u.path, Segment s) (hb : ∀ c ∈ buffer, is_path_unit c) :
    ∃ path, u.push_segment J buffer more = { u with path := path } ∧ (∀ s ∈ path, Segment s) ∧
      (more = false → path ≠ []) := by
  have hdrop : ∀ s ∈ u.path.dropLast, Segment s := fun s hs => hu s (List.mem_of_mem_dropLast hs)
  have hpush : ∀ path : List JsString, (∀ s ∈ path, Segment s) → ∀ s, Segment s → ∀ t ∈ path ++ [s], Segment t := by
    intro path hpath s hs t ht
    rcases List.mem_append.1 ht with ht | ht
    · exact hpath t ht
    · rw [List.mem_singleton.1 ht]
      exact hs
  simp only [URL.push_segment, dot_mapping_lower J hb]
  by_cases h2 : dots buffer = js ".."
  · refine ⟨_, if_pos h2, ?_, ?_⟩
    · split
      · exact hdrop
      · exact hpush _ hdrop _ Segment.empty
    · intro hmore
      rw [hmore, if_neg (by simp)]
      simp
  rw [if_neg h2]
  by_cases h1 : dots buffer = js "."
  · refine ⟨_, if_pos h1, ?_, ?_⟩
    · split
      · exact hu
      · exact hpush _ hu _ Segment.empty
    · intro hmore
      rw [hmore, if_neg (by simp)]
      simp
  rw [if_neg h1]
  have hsegment : Segment buffer := ⟨hb, h1, h2⟩
  rw [dots_self h1 h2]
  split
  · rename_i letter v
    split
    · rename_i hdrive
      refine ⟨_, rfl, ?_, fun _ => by simp⟩
      intro s hs
      rw [List.mem_singleton.1 hs]
      exact Segment.drive hdrive.2.2.1
    · exact ⟨_, rfl, hpush _ hu _ hsegment, fun _ => by simp⟩
  · exact ⟨_, rfl, hpush _ hu _ hsegment, fun _ => by simp⟩

theorem path_units_append {b e : JsString} {u : UInt16} (hb : ∀ c ∈ b, is_path_unit c) (hu : ¬ is_slash u)
    (he : percent_escape u = some e) : ∀ c ∈ b ++ e, is_path_unit c := by
  intro c hc
  rcases List.mem_append.1 hc with hc | hc
  · exact hb c hc
  · rcases percent_escape_cases he with ⟨rfl, hplain⟩ | hesc
    · rw [List.mem_singleton.1 hc]
      exact is_path_unit_iff.2 ⟨hplain, hu⟩
    · exact is_path_unit_of_escape (hesc c hc)

/-- A unit of what stands before an `@`. -/
def is_userinfo_unit (u : UInt16) : Bool := !is_terminator u && u ≠ unit '@'

theorem is_userinfo_unit_iff {u : UInt16} : is_userinfo_unit u ↔ ¬ is_terminator u ∧ u.toNat ≠ 64 := by
  have h64 : '@'.toNat = 64 := rfl
  simp only [is_userinfo_unit, Bool.and_eq_true, Bool.not_eq_true', decide_eq_true_eq, ne_eq, Bool.not_eq_true]
  rw [eq_unit_iff (by decide), h64]

theorem credential_of_escape {u : UInt16} {e : JsString} (hu : is_userinfo_unit u) (h : percent_escape u = some e) :
    ∀ x ∈ e, is_credential_unit x ∧ (u ≠ unit ':' → x ≠ unit ':') := by
  intro x hx
  rcases percent_escape_cases h with ⟨rfl, hplain⟩ | hesc
  · rw [List.mem_singleton.1 hx]
    rw [is_userinfo_unit_iff, is_terminator_iff] at hu
    refine ⟨is_credential_unit_iff.2 ⟨is_path_unit_iff.2 ⟨hplain, ?_⟩, hu.2⟩, id⟩
    rw [is_slash_iff]
    omega
  · exact ⟨is_credential_unit_of_escape (hesc x hx), fun _ => ne_colon_of_escape (hesc x hx)⟩

/-- Nothing but the credentials is written, also if it throws. -/
theorem set_credentials_eq (buffer : JsString) (u : URL) (hb : ∀ c ∈ buffer, is_userinfo_unit c)
    (hname : ∀ c ∈ u.username, is_credential_unit c ∧ c ≠ unit ':')
    (hpass : ∀ password, u.password = some password → ∀ c ∈ password, is_credential_unit c) :
    ∃ name pass, (set_credentials buffer u).2 = { u with username := name, password := pass } ∧
      (∀ c ∈ name, is_credential_unit c ∧ c ≠ unit ':') ∧
      ∀ password, pass = some password → ∀ c ∈ password, is_credential_unit c := by
  induction buffer generalizing u with
  | nil => exact ⟨u.username, u.password, rfl, hname, hpass⟩
  | cons cp rest ih =>
      have hrest : ∀ c ∈ rest, is_userinfo_unit c := fun c hc => hb c (List.mem_cons_of_mem _ hc)
      rw [set_credentials]
      split
      · exact ih u hrest hname hpass
      split
      · obtain ⟨name, pass, heq, hn, hp⟩ := ih { u with password := some [] } hrest hname (by simp)
        exact ⟨name, pass, heq, hn, hp⟩
      rename_i hcolon
      split
      · exact ⟨u.username, u.password, rfl, hname, hpass⟩
      rename_i e he
      have hunits := credential_of_escape (hb cp List.mem_cons_self) he
      split
      · rename_i password hsome
        obtain ⟨name, pass, heq, hn, hp⟩ := ih { u with password := some (password ++ e) } hrest hname (by
          intro password' h' c hc
          rw [← Option.some.inj h'] at hc
          rcases List.mem_append.1 hc with hc | hc
          · exact hpass password hsome c hc
          · exact (hunits c hc).1)
        exact ⟨name, pass, heq, hn, hp⟩
      · rename_i hnone
        obtain ⟨name, pass, heq, hn, hp⟩ := ih { u with username := u.username ++ e } hrest (by
          intro c hc
          rcases List.mem_append.1 hc with hc | hc
          · exact hname c hc
          · exact ⟨(hunits c hc).1, (hunits c hc).2 fun h => hcolon ⟨h, hnone⟩⟩) hpass
        exact ⟨name, pass, heq, hn, hp⟩

/-! ### Schemes -/

theorem lower_of_alphanumeric (J : LowerCase) {u : UInt16} (h : is_alphanumeric u) :
    J.to_lower_case [u] = [ascii_lower u] := by
  refine J.ascii [u] fun v hv => ?_
  rw [List.mem_singleton.1 hv, is_ascii_iff]
  simp only [is_alphanumeric, Bool.or_eq_true, decide_eq_true_eq, is_alpha_iff, is_digit_iff] at h
  rw [eq_unit_iff (by decide), eq_unit_iff (by decide), eq_unit_iff (by decide)] at h
  have h43 : '+'.toNat = 43 := rfl
  have h45 : '-'.toNat = 45 := rfl
  have h46 : '.'.toNat = 46 := rfl
  omega

theorem is_alphanumeric_of_alpha {u : UInt16} (h : is_alpha u) : is_alphanumeric u := by
  simp [is_alphanumeric, h]

theorem is_alpha_ascii_lower {u : UInt16} (h : is_alpha u) : is_alpha (ascii_lower u) := by
  rw [is_alpha_iff] at h ⊢
  rw [toNat_ascii_lower]
  split <;> omega

theorem ascii_lower_of_not_alpha {u : UInt16} (h : ¬ is_alpha u) : ascii_lower u = u := by
  rw [is_alpha_iff] at h
  apply UInt16.toNat_inj.1
  rw [toNat_ascii_lower, if_neg (by omega)]

theorem is_scheme_unit_lower {u : UInt16} (h : is_alphanumeric u) : is_scheme_unit (ascii_lower u) := by
  rw [is_scheme_unit, Bool.and_eq_true, decide_eq_true_eq]
  refine ⟨?_, ascii_lower_ascii_lower u⟩
  by_cases ha : is_alpha u
  · exact is_alphanumeric_of_alpha (is_alpha_ascii_lower ha)
  · rw [ascii_lower_of_not_alpha ha]
    exact h

/-- The scheme that is read so far. -/
structure SchemeBuffer (buffer : JsString) : Prop where
  units : ∀ c ∈ buffer, is_scheme_unit c
  nonempty : buffer ≠ []
  letter : ∀ c, buffer.head? = some c → is_alpha c

theorem SchemeBuffer.start (J : LowerCase) {u : UInt16} (h : is_alpha u) : SchemeBuffer (J.to_lower_case [u]) := by
  rw [lower_of_alphanumeric J (is_alphanumeric_of_alpha h)]
  refine ⟨?_, by simp, ?_⟩
  · intro c hc
    rw [List.mem_singleton.1 hc]
    exact is_scheme_unit_lower (is_alphanumeric_of_alpha h)
  · intro c hc
    rw [← Option.some.inj hc]
    exact is_alpha_ascii_lower h

theorem SchemeBuffer.append (J : LowerCase) {buffer : JsString} (hb : SchemeBuffer buffer) {u : UInt16}
    (h : is_alphanumeric u) : SchemeBuffer (buffer ++ J.to_lower_case [u]) := by
  rw [lower_of_alphanumeric J h]
  refine ⟨?_, by simp, ?_⟩
  · intro c hc
    rcases List.mem_append.1 hc with hc | hc
    · exact hb.units c hc
    · rw [List.mem_singleton.1 hc]
      exact is_scheme_unit_lower h
  · intro c hc
    rw [List.head?_append_of_ne_nil _ hb.nonempty] at hc
    exact hb.letter c hc

end Url

end RustyWorkers

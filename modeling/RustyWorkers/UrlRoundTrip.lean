/-
What `href` gives is read as the same URL (`jURL`, `librt/src/url.js`).

The parser is followed through the text, part by part: `run_chunk` takes it over the
units that a state collects, and each separator has the step that it makes. What
the constructor makes satisfies all that this needs (`Canonical`), up to three things
that depend on the input: the URLs of `file`, the text of a port that is no number of
less than 22 digits, and the spaces that the constructor trims.
-/
import RustyWorkers.UrlParse

set_option autoImplicit false

namespace RustyWorkers

open Lib

namespace Url

open RespondWith (JsString js)

/-! ## Over a part -/

/-- Where the parser stands. -/
theorem at_cons {k : Call} {n : ℕ} {u : UInt16} {r : JsString} (h : k.input.drop n = u :: r) :
    k.input[n]? = some u ∧ n ≤ k.input.length ∧ k.input.drop (n + 1) = r := by
  have hlt : n < k.input.length := by
    by_contra hge
    rw [List.drop_eq_nil_of_le (by omega)] at h
    exact absurd h (by simp)
  have hdrop := List.drop_eq_getElem_cons hlt
  rw [h, List.cons.injEq] at hdrop
  exact ⟨by rw [List.getElem?_eq_getElem hlt, hdrop.1], by omega, hdrop.2.symm⟩

theorem at_append {k : Call} {n : ℕ} {l r : JsString} (h : k.input.drop n = l ++ r) :
    k.input.drop (n + l.length) = r := by
  rw [← List.drop_drop, h, List.drop_left]

theorem at_nil {k : Call} {n : ℕ} (h : k.input.drop n = []) : k.input[n]? = none := by
  rw [List.getElem?_eq_none_iff]
  exact List.drop_eq_nil_iff.1 h

/-- The units that a state collects one by one; `P b` is the parser that has
collected `b`. -/
theorem run_chunk {J : LowerCase} {k : Call} {P : JsString → Parser} {n : ℕ} {l r : JsString}
    (hcursor : ∀ b, (P b).cursor = n + b.length) (hdrop : k.input.drop n = l ++ r)
    (hvalid : ∀ b, (P b).url.is_invalid = false)
    (hstep : ∀ b u, (∃ after, l = b ++ u :: after) → k.input[(P b).cursor]? = some u →
      ∃ q, step J k (P b) = .advance q ∧ q.moved = P (b ++ [u])) :
    run J k (P []) = run J k (P l) := by
  have hrun : ∀ after b, l = b ++ after → run J k (P b) = run J k (P l) := by
    intro after
    induction after with
    | nil =>
        intro b hb
        rw [hb, List.append_nil]
    | cons u after ih =>
        intro b hb
        have hat : k.input.drop (n + b.length) = u :: (after ++ r) := by
          refine at_append ?_
          rw [hdrop, hb, List.append_assoc]
          rfl
        obtain ⟨hget, hle, -⟩ := at_cons hat
        rw [← hcursor b] at hget hle
        obtain ⟨q, hq, hmoved⟩ := hstep b u ⟨after, hb⟩ hget
        rw [run_advance (goes_on_iff.2 ⟨hle, hvalid b⟩) hq, hmoved]
        refine ih (b ++ [u]) ?_
        rw [hb, List.append_assoc]
        rfl
  exact hrun l [] rfl

theorem mem_of_split {l b after : JsString} {u : UInt16} (h : l = b ++ u :: after) : u ∈ l := by
  rw [h]
  simp

section Parts

variable (J : LowerCase) {k : Call} {n : ℕ}

theorem filter_some {p : UInt16 → Bool} {u : UInt16} (h : p u = true) : (some u).filter p = some u := by
  rw [Option.filter_some, if_pos h]

theorem filter_none {p : UInt16 → Bool} {u : UInt16} (h : p u = false) : (some u).filter p = none := by
  rw [Option.filter_some, if_neg (by simp [h])]

theorem percent_escape_plain {u : UInt16} (h : is_plain path_except u) : percent_escape u = some [u] := by
  rw [percent_escape, percent_escape_with, if_pos h]

theorem percent_escape_query_plain {u : UInt16} (h : is_plain query_except u) : percent_escape_query u = some [u] := by
  rw [percent_escape_query, percent_escape_with, if_pos h]

/-- The last iteration is the one at the end of the input. -/
theorem run_last {p q : Parser} (hnil : k.input.drop p.cursor = []) (hle : p.cursor ≤ k.input.length)
    (hvalid : p.url.is_invalid = false) (hstep : step J k p = .advance q) : run J k p = ⟨q.url, none⟩ := by
  have hdec := step_decreases J k p
  rw [hstep, decreases_advance] at hdec
  have hlen : k.input.length ≤ p.cursor := List.drop_eq_nil_iff.1 hnil
  rw [run_advance (goes_on_iff.2 ⟨hle, hvalid⟩) hstep, run_end, moved_url]
  rw [goes_on_iff, moved_cursor, hdec.2]
  omega

/-! ### From the query on -/

theorem run_fragment {u : URL} {f : JsString} (sa sb : Bool) (hdrop : k.input.drop n = f) (hle : n ≤ k.input.length)
    (hvalid : u.is_invalid = false) (hunits : ∀ c ∈ f, ¬ is_tab_or_newline c) :
    run J k ⟨u, .fragment, n, [], sa, sb⟩ = ⟨{ u with fragment := u.fragment ++ f }, none⟩ := by
  have hchunk := run_chunk (J := J) (k := k) (n := n) (l := f) (r := [])
    (P := fun b => ⟨{ u with fragment := u.fragment ++ b }, .fragment, n + b.length, [], sa, sb⟩) (fun _ => rfl)
    (by rw [hdrop, List.append_nil]) (fun _ => hvalid) (by
      rintro b c ⟨after, hl⟩ hget
      have htab := hunits c (mem_of_split hl)
      simp only at hget
      simp only [step, hget, fragment]
      rw [filter_some (by simpa using htab)]
      exact ⟨_, rfl, by simp [Parser.moved, Nat.add_assoc]⟩)
  simp only [List.append_nil, List.length_nil, Nat.add_zero] at hchunk
  have hend : k.input.drop (n + f.length) = [] := at_append (r := []) (by rw [hdrop, List.append_nil])
  have hlen : f.length = k.input.length - n := by rw [← hdrop, List.length_drop]
  have hlast : step J k ⟨{ u with fragment := u.fragment ++ f }, .fragment, n + f.length, [], sa, sb⟩
      = .advance ⟨{ u with fragment := u.fragment ++ f }, .fragment, n + f.length, [], sa, sb⟩ := by
    simp only [step, at_nil hend, fragment]
    rfl
  rw [hchunk]
  exact run_last J hend (by dsimp only; omega) hvalid hlast

/-- What follows the path: a query, a fragment, both or neither. -/
structure Tail (q f : JsString) : Prop where
  query : q = [] ∨ ∃ q', q = unit '?' :: q' ∧ ∀ c ∈ q', is_plain query_except c
  fragment : f = [] ∨ ∃ f', f = unit '#' :: f' ∧ ∀ c ∈ f', ¬ is_tab_or_newline c

theorem run_query {u : URL} {q f : JsString} (sa sb : Bool) (hdrop : k.input.drop n = q ++ f)
    (hle : n ≤ k.input.length) (hvalid : u.is_invalid = false) (hover : k.state_override = none)
    (hfragment : u.fragment = []) (hunits : ∀ c ∈ q, is_plain query_except c)
    (hf : f = [] ∨ ∃ f', f = unit '#' :: f' ∧ ∀ c ∈ f', ¬ is_tab_or_newline c) :
    run J k ⟨u, .query, n, [], sa, sb⟩ = ⟨{ u with query := u.query ++ q, fragment := f }, none⟩ := by
  have hchunk := run_chunk (J := J) (k := k) (n := n) (l := q) (r := f)
    (P := fun b => ⟨{ u with query := u.query ++ b }, .query, n + b.length, [], sa, sb⟩) (fun _ => rfl) hdrop
    (fun _ => hvalid) (by
      rintro b c ⟨after, hl⟩ hget
      have hplain := hunits c (mem_of_split hl)
      have hnum := is_plain_query_iff.1 hplain
      have hhash : some c ≠ some (unit '#') := by
        rw [ne_eq, Option.some.injEq, eq_unit_iff (by decide)]
        have h35 : '#'.toNat = 35 := rfl
        omega
      have htab : ¬ is_tab_or_newline c := by
        rw [is_tab_or_newline_iff]
        omega
      simp only at hget
      simp only [step, hget, query]
      rw [if_neg fun h => hhash h.2, filter_some (by simpa using htab)]
      dsimp only
      rw [percent_escape_query_plain hplain]
      exact ⟨_, rfl, by simp [Parser.moved, Nat.add_assoc]⟩)
  simp only [List.append_nil, List.length_nil, Nat.add_zero] at hchunk
  rw [hchunk]
  have hat : k.input.drop (n + q.length) = f := at_append hdrop
  have hlen : q.length + f.length = k.input.length - n := by rw [← List.length_append, ← hdrop, List.length_drop]
  rcases hf with rfl | ⟨f', rfl, hf'⟩
  · have hlast : step J k ⟨{ u with query := u.query ++ q }, .query, n + q.length, [], sa, sb⟩
        = .advance ⟨{ u with query := u.query ++ q }, .query, n + q.length, [], sa, sb⟩ := by
      simp only [step, at_nil hat, query]
      rw [if_neg (by simp)]
      rfl
    have hurl : ({ u with query := u.query ++ q, fragment := [] } : URL) = { u with query := u.query ++ q } := by
      rw [← hfragment]
    rw [run_last J hat (by dsimp only; omega) hvalid hlast, hurl]
  · obtain ⟨hget, hle', hnext⟩ := at_cons hat
    have hstep : step J k ⟨{ u with query := u.query ++ q }, .query, n + q.length, [], sa, sb⟩
        = .advance ⟨{ u with query := u.query ++ q, fragment := js "#" }, .fragment, n + q.length, [], sa, sb⟩ := by
      simp only [step, hget, query]
      rw [if_pos ⟨hover, trivial⟩]
    have hnext_le : n + q.length + 1 ≤ k.input.length := by
      rw [List.length_cons] at hlen
      omega
    rw [run_advance (goes_on_iff.2 ⟨hle', hvalid⟩) hstep]
    exact run_fragment J (u := { u with query := u.query ++ q, fragment := js "#" }) sa sb hnext hnext_le hvalid hf'

/-- The states that a query or a fragment may follow do the same there. -/
structure BeforeTail (p : Parser) (u : URL) : Prop where
  query : k.input[p.cursor]? = some (unit '?') →
    step J k p = .advance { p with url := { u with query := js "?" }, buffer := [], state := .query }
  fragment : k.input[p.cursor]? = some (unit '#') →
    step J k p = .advance { p with url := { u with fragment := js "#" }, buffer := [], state := .fragment }
  last : k.input[p.cursor]? = none → ∃ q, step J k p = .advance q ∧ q.url = u

/-- The query and the fragment behind `u`. -/
theorem run_tail {p : Parser} {u : URL} {q f : JsString} (h : BeforeTail J (k := k) p u) (ht : Tail q f)
    (hover : k.state_override = none) (hdrop : k.input.drop p.cursor = q ++ f) (hle : p.cursor ≤ k.input.length)
    (hp : p.url.is_invalid = false) (hvalid : u.is_invalid = false) (hq : u.query = []) (hf : u.fragment = []) :
    run J k p = ⟨{ u with query := q, fragment := f }, none⟩ := by
  have hgo : goes_on k p := goes_on_iff.2 ⟨hle, hp⟩
  have hlen : q.length + f.length = k.input.length - p.cursor := by
    rw [← List.length_append, ← hdrop, List.length_drop]
  rcases ht.query with rfl | ⟨q', rfl, hq'⟩
  · rcases ht.fragment with rfl | ⟨f', rfl, hf'⟩
    · obtain ⟨r, hstep, hr⟩ := h.last (at_nil hdrop)
      have hurl : ({ u with query := [], fragment := [] } : URL) = u :=
        (congrArg₂ (fun q f => ({ u with query := q, fragment := f } : URL)) hq hf).symm
      rw [run_last J hdrop hle hp hstep, hr, hurl]
    · obtain ⟨hget, -, hnext⟩ := at_cons hdrop
      have hnext_le : p.cursor + 1 ≤ k.input.length := by
        rw [List.length_cons] at hlen
        omega
      have hurl : ({ u with query := [], fragment := unit '#' :: f' } : URL)
          = { u with fragment := js "#" ++ f' } := by rw [← hq]; rfl
      rw [run_advance hgo (h.fragment hget), hurl]
      exact run_fragment J (u := { u with fragment := js "#" }) p.seen_at p.seen_bracket hnext hnext_le hvalid hf'
  · obtain ⟨hget, -, hnext⟩ := at_cons hdrop
    have hnext_le : p.cursor + 1 ≤ k.input.length := by
      rw [List.length_cons] at hlen
      omega
    rw [run_advance hgo (h.query hget)]
    exact run_query J (u := { u with query := js "?" }) p.seen_at p.seen_bracket hnext hnext_le hvalid hover hf hq'
      ht.fragment

/-! ### The path -/

/-- A segment is pushed as it is. -/
theorem push_segment_self {u : URL} {seg : JsString} (hseg : Segment seg) (more : Bool)
    (hdrive : ¬ (u.scheme = js "file" ∧ u.path = [] ∧ ∃ letter, is_alpha letter ∧ seg = [letter, unit '|'])) :
    u.push_segment J seg more = { u with path := u.path ++ [seg] } := by
  have hself := dots_self hseg.no_dot hseg.no_dots
  have h1 := hseg.no_dot
  have h2 := hseg.no_dots
  rw [hself] at h1 h2
  simp only [URL.push_segment, dot_mapping_lower J hseg.units, hself]
  rw [if_neg h2, if_neg h1]
  split
  · rename_i letter v
    rw [if_neg]
    rintro ⟨hfile, hpath, halpha, rfl⟩
    exact hdrive ⟨hfile, hpath, letter, halpha, rfl⟩
  · rfl

/-- A slash comes to a segment that is not the drive of a `file` URL. -/
def NoDrive (u : URL) (segs : List JsString) : Prop :=
  ¬ (u.scheme = js "file" ∧ u.path = [] ∧ ∃ letter, is_alpha letter ∧ segs.head? = some [letter, unit '|'])

theorem run_segment {u : URL} {seg rest : JsString} (sa sb : Bool) (hseg : Segment seg)
    (hdrop : k.input.drop n = seg ++ rest) (hvalid : u.is_invalid = false) :
    run J k ⟨u, .relative_path, n, [], sa, sb⟩ = run J k ⟨u, .relative_path, n + seg.length, seg, sa, sb⟩ := by
  refine run_chunk (P := fun b => ⟨u, .relative_path, n + b.length, b, sa, sb⟩) (fun _ => rfl) hdrop (fun _ => hvalid) ?_
  rintro b c ⟨after, hl⟩ hget
  obtain ⟨hplain, hslash⟩ := is_path_unit_iff.1 (hseg.units c (mem_of_split hl))
  have hterm := not_terminator_of_path_unit (hseg.units c (mem_of_split hl))
  have htab : ¬ is_tab_or_newline c := by
    have hnum := is_plain_path_iff.1 hplain
    rw [is_tab_or_newline_iff]
    omega
  simp only at hget
  simp only [step, hget, relative_path]
  rw [filter_some (by simp [hslash, hterm])]
  simp only [htab, percent_escape_plain hplain]
  exact ⟨_, rfl, by simp [Parser.moved, Nat.add_assoc]⟩

theorem segment_before_tail {u : URL} {seg : JsString} (sa sb : Bool) (hover : k.state_override = none)
    (hseg : Segment seg) (hdrive : NoDrive u [seg]) (m : ℕ) :
    BeforeTail J (k := k) ⟨u, .relative_path, m, seg, sa, sb⟩ { u with path := u.path ++ [seg] } := by
  have hpush : ∀ more, u.push_segment J seg more = { u with path := u.path ++ [seg] } := fun more =>
    push_segment_self J hseg more fun ⟨hfile, hpath, letter, halpha, heq⟩ =>
      hdrive ⟨hfile, hpath, letter, halpha, by rw [heq]; rfl⟩
  have hq : is_terminator (unit '?') := by decide
  have hf : is_terminator (unit '#') := by decide
  refine ⟨fun hget => ?_, fun hget => ?_, fun hget => ?_⟩
  · simp only [step, hget, relative_path, hover]
    rw [filter_none (by simp [hq])]
    simp only [hpush, if_true]
  · have hne : (some (unit '#') : Option UInt16) ≠ some (unit '?') := by decide
    simp only [step, hget, relative_path, hover]
    rw [filter_none (by simp [hf])]
    simp only [hpush, if_neg hne, if_true]
  · simp only [step, hget, relative_path, Option.filter_none]
    simp only [hpush]
    exact ⟨_, rfl, rfl⟩

theorem run_slash {u : URL} {seg : JsString} (sa sb : Bool) (hseg : Segment seg) (hdrive : NoDrive u [seg]) {m : ℕ}
    (hget : k.input[m]? = some (unit '/')) (hle : m ≤ k.input.length) (hvalid : u.is_invalid = false) :
    run J k ⟨u, .relative_path, m, seg, sa, sb⟩
      = run J k ⟨{ u with path := u.path ++ [seg] }, .relative_path, m + 1, [], sa, sb⟩ := by
  have hpush : ∀ more, u.push_segment J seg more = { u with path := u.path ++ [seg] } := fun more =>
    push_segment_self J hseg more fun ⟨hfile, hpath, letter, halpha, heq⟩ =>
      hdrive ⟨hfile, hpath, letter, halpha, by rw [heq]; rfl⟩
  have hslash : is_slash (unit '/') := by decide
  have hq : (some (unit '/') : Option UInt16) ≠ some (unit '?') := by decide
  have hf : (some (unit '/') : Option UInt16) ≠ some (unit '#') := by decide
  have hstep : step J k ⟨u, .relative_path, m, seg, sa, sb⟩
      = .advance ⟨{ u with path := u.path ++ [seg] }, .relative_path, m, [], sa, sb⟩ := by
    simp only [step, hget, relative_path]
    rw [filter_none (by simp [hslash])]
    simp only [hpush, if_neg hq, if_neg hf]
  rw [run_advance (goes_on_iff.2 ⟨hle, hvalid⟩) hstep]
  rfl

/-- The segments, up to the last one, which is still in the buffer. -/
theorem run_segments (segs : List JsString) {u : URL} {rest : JsString} (sa sb : Bool) (hne : segs ≠ [])
    (hsegs : ∀ s ∈ segs, Segment s) (hdrive : NoDrive u segs)
    (hdrop : k.input.drop n = [unit '/'].intercalate segs ++ rest) (hvalid : u.is_invalid = false) :
    run J k ⟨u, .relative_path, n, [], sa, sb⟩
      = run J k ⟨{ u with path := u.path ++ segs.dropLast }, .relative_path,
          n + ([unit '/'].intercalate segs).length, segs.getLast hne, sa, sb⟩ := by
  induction segs generalizing u n with
  | nil => exact absurd rfl hne
  | cons seg segs ih =>
      have hseg := hsegs seg List.mem_cons_self
      have hfirst : NoDrive u [seg] := fun ⟨hfile, hpath, letter, halpha, heq⟩ =>
        hdrive ⟨hfile, hpath, letter, halpha, heq⟩
      by_cases hnil : segs = []
      · subst hnil
        rw [List.intercalate_singleton] at hdrop ⊢
        rw [run_segment J sa sb hseg hdrop hvalid]
        simp
      · rw [List.intercalate_cons_of_ne_nil hnil, List.append_assoc, List.append_assoc] at hdrop
        obtain ⟨hget, hle', hnext⟩ := at_cons (at_append hdrop)
        rw [run_segment J sa sb hseg hdrop hvalid, run_slash J sa sb hseg hfirst hget hle' hvalid]
        have hdrive' : NoDrive { u with path := u.path ++ [seg] } segs := fun h => absurd h.2.1 (by simp)
        have hrest := ih (u := { u with path := u.path ++ [seg] }) hnil (fun s hs => hsegs s (List.mem_cons_of_mem _ hs))
          hdrive' hnext hvalid
        have hcursor : n + seg.length + 1 + ([unit '/'].intercalate segs).length
            = n + ([unit '/'].intercalate (seg :: segs)).length := by
          rw [List.intercalate_cons_of_ne_nil hnil, List.length_append, List.length_append, List.length_singleton]
          omega
        rw [hrest, hcursor, List.getLast_cons hnil, List.dropLast_cons_of_ne_nil hnil]
        simp only [List.append_assoc, List.singleton_append]

/-- The last segment is no drive when the segments before it have been pushed. -/
theorem no_drive_last {u : URL} {segs : List JsString} (hne : segs ≠ []) (h : NoDrive u segs) :
    NoDrive { u with path := u.path ++ segs.dropLast } [segs.getLast hne] := by
  rintro ⟨hfile, hpath, letter, halpha, heq⟩
  obtain ⟨hnil, hlast⟩ := List.append_eq_nil_iff.1 hpath
  have hsegs : segs = [segs.getLast hne] := by
    conv_lhs => rw [← List.dropLast_append_getLast hne, hlast, List.nil_append]
  exact h ⟨hfile, hnil, letter, halpha, by rw [hsegs]; exact heq⟩

/-- The segments, and what comes behind them. -/
theorem run_path (segs : List JsString) {u : URL} {q f : JsString} (sa sb : Bool) (hne : segs ≠ [])
    (hover : k.state_override = none) (hsegs : ∀ s ∈ segs, Segment s) (hdrive : NoDrive u segs) (ht : Tail q f)
    (hdrop : k.input.drop n = [unit '/'].intercalate segs ++ (q ++ f)) (hle : n ≤ k.input.length)
    (hvalid : u.is_invalid = false) (hq : u.query = []) (hf : u.fragment = []) :
    run J k ⟨u, .relative_path, n, [], sa, sb⟩
      = ⟨{ u with path := u.path ++ segs, query := q, fragment := f }, none⟩ := by
  have hlen := congrArg List.length hdrop
  rw [List.length_drop, List.length_append] at hlen
  have hlast := segment_before_tail J (k := k) sa sb hover (hsegs _ (List.getLast_mem hne)) (no_drive_last hne hdrive)
    (n + ([unit '/'].intercalate segs).length)
  have hpath : u.path ++ segs.dropLast ++ [segs.getLast hne] = u.path ++ segs := by
    rw [List.append_assoc, List.dropLast_append_getLast]
  rw [run_segments J segs sa sb hne hsegs hdrive hdrop hvalid,
    run_tail J hlast ht hover (at_append hdrop) (by dsimp only; omega) hvalid hvalid hq hf, ← hpath]

/-! ### The scheme -/

theorem is_alphanumeric_of_scheme_unit {c : UInt16} (h : is_scheme_unit c) : is_alphanumeric c ∧ ascii_lower c = c := by
  rw [is_scheme_unit, Bool.and_eq_true, decide_eq_true_eq] at h
  exact h

theorem run_scheme {s rest : JsString} (hs : SchemeBuffer s) (hinput : k.input = s ++ unit ':' :: rest) :
    run J k { url := clear, state := .scheme_start } = run J k ⟨clear, .scheme, s.length, s, false, false⟩ := by
  obtain ⟨a, t, rfl⟩ : ∃ a t, s = a :: t := by
    cases s with
    | nil => exact absurd rfl hs.nonempty
    | cons a t => exact ⟨a, t, rfl⟩
  obtain ⟨hget, hle, hnext⟩ := at_cons (k := k) (n := 0) (u := a) (r := t ++ unit ':' :: rest)
    (by rw [List.drop_zero, hinput]; rfl)
  obtain ⟨halnum, hlow⟩ := is_alphanumeric_of_scheme_unit (hs.units a List.mem_cons_self)
  have hstep : step J k { url := clear, state := .scheme_start }
      = .advance ⟨clear, .scheme, 0, [a], false, false⟩ := by
    simp only [step, hget, scheme_start]
    rw [filter_some (hs.letter a rfl)]
    simp only [lower_of_alphanumeric J halnum, hlow, List.nil_append]
  have hchunk := run_chunk (J := J) (k := k) (n := 1) (l := t) (r := unit ':' :: rest)
    (P := fun b => ⟨clear, .scheme, 1 + b.length, a :: b, false, false⟩) (fun _ => rfl) hnext (fun _ => rfl) (by
      rintro b c ⟨after, hl⟩ hget
      obtain ⟨halnum, hlow⟩ :=
        is_alphanumeric_of_scheme_unit (hs.units c (List.mem_cons_of_mem _ (mem_of_split hl)))
      simp only at hget
      simp only [step, hget, scheme]
      rw [filter_some halnum]
      simp only [lower_of_alphanumeric J halnum, hlow]
      exact ⟨_, rfl, by simp [Parser.moved, Nat.add_assoc]⟩)
  rw [run_advance (goes_on_iff.2 ⟨hle, rfl⟩) hstep]
  refine hchunk.trans ?_
  rw [List.length_cons, Nat.add_comm]

/-- Behind the colon of the scheme, without a base. -/
theorem run_colon {s rest : JsString} (hover : k.state_override = none) (hbase : k.base = none)
    (hinput : k.input = s ++ unit ':' :: rest) :
    run J k ⟨clear, .scheme, s.length, s, false, false⟩
      = run J k ⟨if is_relative_scheme s then bare s else { clear with scheme := s },
          if s = js "file" then .relative else if is_relative_scheme s then .authority_first_slash else .scheme_data,
          s.length + 1, [], false, false⟩ := by
  obtain ⟨hget, hle, -⟩ := at_cons (k := k) (n := s.length) (u := unit ':') (r := rest) (by rw [hinput, List.drop_left])
  have hcolon : is_alphanumeric (unit ':') = false := by decide
  have hstep : step J k ⟨clear, .scheme, s.length, s, false, false⟩
      = .advance ⟨if is_relative_scheme s then bare s else { clear with scheme := s },
          if s = js "file" then .relative else if is_relative_scheme s then .authority_first_slash else .scheme_data,
          s.length, [], false, false⟩ := by
    simp only [step, hget, scheme, hover, hbase]
    rw [filter_none hcolon]
    simp only [Option.isSome_none, Option.any_none, if_true]
    by_cases hrel : is_relative_scheme s
    · simp [hrel, bare]
    · simp [hrel, clear]
  rw [run_advance (goes_on_iff.2 ⟨hle, rfl⟩) hstep]
  rfl

/-! ### The authority -/

/-- `//`, and then no other slash. -/
theorem run_slashes {u : URL} {x : UInt16} {rest : JsString} (hvalid : u.is_invalid = false) (hx : ¬ is_slash x)
    (hdrop : k.input.drop n = unit '/' :: unit '/' :: x :: rest) :
    run J k ⟨u, .authority_first_slash, n, [], false, false⟩ = run J k ⟨u, .authority, n + 2, [], false, false⟩ := by
  obtain ⟨hget, hle, hdrop'⟩ := at_cons hdrop
  obtain ⟨hget', hle', hdrop''⟩ := at_cons hdrop'
  obtain ⟨hget'', hle'', -⟩ := at_cons hdrop''
  have hfirst : step J k ⟨u, .authority_first_slash, n, [], false, false⟩
      = .advance ⟨u, .authority_second_slash, n, [], false, false⟩ := by
    simp only [step, hget, authority_first_slash, if_true]
  have hsecond : step J k ⟨u, .authority_second_slash, n + 1, [], false, false⟩
      = .advance ⟨u, .authority_ignore_slashes, n + 1, [], false, false⟩ := by
    simp only [step, hget', authority_second_slash, if_true]
  have hthird : step J k ⟨u, .authority_ignore_slashes, n + 1 + 1, [], false, false⟩
      = .again ⟨u, .authority, n + 1 + 1, [], false, false⟩ := by
    simp only [step, hget'', authority_ignore_slashes, Option.any_some]
    rw [if_neg hx]
  rw [run_advance (goes_on_iff.2 ⟨hle, hvalid⟩) hfirst]
  refine (run_advance (goes_on_iff.2 ⟨hle', hvalid⟩) hsecond).trans ?_
  exact run_again (goes_on_iff.2 ⟨hle'', hvalid⟩) hthird

theorem run_authority_chunk {u : URL} {l rest : JsString} (sa sb : Bool) (hvalid : u.is_invalid = false)
    (hl : ∀ c ∈ l, is_userinfo_unit c) (hdrop : k.input.drop n = l ++ rest) :
    run J k ⟨u, .authority, n, [], sa, sb⟩ = run J k ⟨u, .authority, n + l.length, l, sa, sb⟩ := by
  refine run_chunk (P := fun b => ⟨u, .authority, n + b.length, b, sa, sb⟩) (fun _ => rfl) hdrop (fun _ => hvalid) ?_
  rintro b c ⟨after, heq⟩ hget
  have hc := hl c (mem_of_split heq)
  have hat : (some c : Option UInt16) ≠ some (unit '@') := by
    rw [ne_eq, Option.some.injEq, eq_unit_iff (by decide)]
    exact (is_userinfo_unit_iff.1 hc).2
  have hterm := (is_userinfo_unit_iff.1 hc).1
  simp only at hget
  simp only [step, hget, authority]
  rw [if_neg hat, filter_some (by simpa using hterm)]
  exact ⟨_, rfl, by simp [Parser.moved, Nat.add_assoc]⟩

theorem credential_unit_facts {c : UInt16} (h : is_credential_unit c) :
    ¬ is_tab_or_newline c ∧ percent_escape c = some [c] ∧ is_userinfo_unit c := by
  obtain ⟨hpath, hat⟩ := is_credential_unit_iff.1 h
  obtain ⟨hplain, -⟩ := is_path_unit_iff.1 hpath
  refine ⟨?_, percent_escape_plain hplain, is_userinfo_unit_iff.2 ⟨not_terminator_of_path_unit hpath, hat⟩⟩
  have hnum := is_plain_path_iff.1 hplain
  rw [is_tab_or_newline_iff]
  omega

theorem set_credentials_password {pass : JsString} (hpass : ∀ c ∈ pass, is_credential_unit c) (u : URL) (p : JsString)
    (hu : u.password = some p) : set_credentials pass u = (true, { u with password := some (p ++ pass) }) := by
  induction pass generalizing u p with
  | nil => simp [set_credentials, ← hu]
  | cons c rest ih =>
      obtain ⟨htab, hesc, -⟩ := credential_unit_facts (hpass c List.mem_cons_self)
      have hcolon : ¬ (c = unit ':' ∧ u.password = none) := by simp [hu]
      rw [set_credentials, if_neg htab, if_neg hcolon, hesc]
      simp only [hu]
      rw [ih (fun x hx => hpass x (List.mem_cons_of_mem _ hx)) _ (p ++ [c]) rfl]
      simp

theorem set_credentials_username {name after : JsString} (hname : ∀ c ∈ name, is_credential_unit c ∧ c ≠ unit ':')
    (u : URL) (hu : u.password = none) :
    set_credentials (name ++ after) u = set_credentials after { u with username := u.username ++ name } := by
  induction name generalizing u with
  | nil => simp
  | cons c rest ih =>
      obtain ⟨hc, hcolon⟩ := hname c List.mem_cons_self
      obtain ⟨htab, hesc, -⟩ := credential_unit_facts hc
      rw [List.cons_append, set_credentials, if_neg htab, if_neg fun h => hcolon h.1, hesc]
      have hrest := ih (fun x hx => hname x (List.mem_cons_of_mem _ hx)) { u with username := u.username ++ [c] } hu
      simp only [hu] at hrest ⊢
      rw [hrest]
      simp

/-- What is in front of the `@`. -/
def credentials_text (name : JsString) (pass : Option JsString) : JsString :=
  name ++ (match pass with | some password => js ":" ++ password | none => [])

theorem set_credentials_text {s name : JsString} {pass : Option JsString}
    (hname : ∀ c ∈ name, is_credential_unit c ∧ c ≠ unit ':')
    (hpass : ∀ password, pass = some password → ∀ c ∈ password, is_credential_unit c) :
    set_credentials (credentials_text name pass) (bare s) = (true, with_credentials s name pass) := by
  unfold credentials_text
  rw [set_credentials_username hname _ rfl]
  cases pass with
  | none => rfl
  | some password =>
      have hjs : js ":" = [unit ':'] := rfl
      have htab : ¬ is_tab_or_newline (unit ':') := by decide
      simp only [hjs, List.singleton_append]
      rw [set_credentials, if_neg htab, if_pos ⟨rfl, rfl⟩, set_credentials_password (hpass password rfl) _ [] rfl]
      rfl

theorem credentials_text_units {name : JsString} {pass : Option JsString}
    (hname : ∀ c ∈ name, is_credential_unit c ∧ c ≠ unit ':')
    (hpass : ∀ password, pass = some password → ∀ c ∈ password, is_credential_unit c) :
    ∀ c ∈ credentials_text name pass, is_userinfo_unit c := by
  have hcolon : is_userinfo_unit (unit ':') := by decide
  intro c hc
  rcases List.mem_append.1 hc with hc | hc
  · exact (credential_unit_facts (hname c hc).1).2.2
  · cases pass with
    | none => exact absurd hc (by simp)
    | some password =>
        rcases List.mem_append.1 hc with hc | hc
        · rw [List.mem_singleton.1 hc]
          exact hcolon
        · exact (credential_unit_facts (hpass password rfl c hc)).2.2

/-- The credentials, if there are any. -/
theorem run_userinfo {u : URL} {s rest : JsString} (hclean : Clean u)
    (hdrop : k.input.drop n = u.userinfo ++ rest) :
    ∃ sa, run J k ⟨bare s, .authority, n, [], false, false⟩
      = run J k ⟨with_credentials s u.username u.password, .authority, n + u.userinfo.length, [], sa, false⟩ := by
  by_cases hempty : u.username = [] ∧ u.password = none
  · have hnone : u.userinfo = [] := by rw [URL.userinfo, if_neg (by simp [hempty])]
    rw [hnone, hempty.1, hempty.2]
    exact ⟨false, rfl⟩
  have htext : u.userinfo = credentials_text u.username u.password ++ js "@" := by
    rw [URL.userinfo, if_pos (by tauto)]
    rfl
  have hjs : js "@" = [unit '@'] := rfl
  rw [htext, hjs, List.append_assoc, List.singleton_append] at hdrop
  obtain ⟨hget, hle, -⟩ := at_cons (at_append hdrop)
  have hstep : step J k ⟨bare s, .authority, n + (credentials_text u.username u.password).length,
      credentials_text u.username u.password, false, false⟩ = .advance ⟨with_credentials s u.username u.password,
        .authority, n + (credentials_text u.username u.password).length, [], true, false⟩ := by
    simp only [step, hget, authority, if_true]
    rw [if_neg (by simp), set_credentials_text hclean.username hclean.password]
  refine ⟨true, ?_⟩
  rw [run_authority_chunk J false false rfl (credentials_text_units hclean.username hclean.password) hdrop,
    run_advance (goes_on_iff.2 ⟨hle, rfl⟩) hstep, htext, hjs, List.length_append]
  rfl

/-- The parser reads over the host and the port, and goes back. -/
theorem run_rewind {u : URL} {l rest : JsString} (sa : Bool) (hvalid : u.is_invalid = false)
    (hl : ∀ c ∈ l, is_userinfo_unit c) (hdrop : k.input.drop n = l ++ unit '/' :: rest) :
    run J k ⟨u, .authority, n, [], sa, false⟩ = run J k ⟨u, .host, n, [], sa, false⟩ := by
  obtain ⟨hget, hle, -⟩ := at_cons (at_append hdrop)
  have hat : (some (unit '/') : Option UInt16) ≠ some (unit '@') := by decide
  have hslash : is_terminator (unit '/') := by decide
  have hstep : step J k ⟨u, .authority, n + l.length, l, sa, false⟩ = .again ⟨u, .host, n, [], sa, false⟩ := by
    simp only [step, hget, authority]
    rw [if_neg hat, filter_none (by simp [hslash])]
    simp only [Nat.add_sub_cancel]
  rw [run_authority_chunk J sa false hvalid hl hdrop, run_again (goes_on_iff.2 ⟨hle, hvalid⟩) hstep]

/-! ### The host and the port -/

theorem run_host_chunk {u : URL} {h rest : JsString} {seen : Bool} (sa : Bool) (hvalid : u.is_invalid = false)
    (hunits : ∀ c ∈ h, is_host_unit c) (hscan : scan false h = some seen) (hdrop : k.input.drop n = h ++ rest) :
    run J k ⟨u, .host, n, [], sa, false⟩ = run J k ⟨u, .host, n + h.length, h, sa, seen⟩ := by
  have hchunk := run_chunk (J := J) (k := k) (n := n) (l := h) (r := rest)
    (P := fun b => ⟨u, .host, n + b.length, b, sa, (scan false b).getD false⟩) (fun _ => rfl) hdrop (fun _ => hvalid) (by
      rintro b c ⟨after, heq⟩ hget
      obtain ⟨hterm, htab⟩ := is_host_unit_iff.1 (hunits c (mem_of_split heq))
      -- the text that is read so far is not cut at a colon
      rw [heq, scan_append] at hscan
      obtain ⟨seen', hseen, hafter⟩ := Option.bind_eq_some_iff.1 hscan
      have hstop : ¬ (c = unit ':' ∧ !seen') := by
        intro hc
        rw [scan, if_pos hc] at hafter
        exact absurd hafter (by simp)
      have hnext : scan false (b ++ [c]) = some (bracket seen' c) := by
        rw [scan_append, hseen, Option.bind_some, scan, if_neg hstop]
        rfl
      simp only at hget
      simp only [step, hget, host, hseen, hnext, Option.getD_some, Option.some.injEq]
      rw [if_neg hstop, filter_some (by simpa using hterm)]
      simp only [htab]
      exact ⟨_, rfl, by simp [Parser.moved, Nat.add_assoc, bracket]⟩)
  rw [hscan] at hchunk
  exact hchunk

/-- The host, up to the path. -/
theorem run_host {u : URL} {h rest : JsString} {seen : Bool} (sa : Bool) (hvalid : u.is_invalid = false)
    (hover : k.state_override = none) (hunits : ∀ c ∈ h, is_host_unit c) (hscan : scan false h = some seen)
    (hne : h ≠ []) (hdrop : k.input.drop n = h ++ unit '/' :: rest) :
    run J k ⟨u, .host, n, [], sa, false⟩
      = run J k ⟨{ u with host := J.to_lower_case h }, .relative_path_start, n + h.length, [], sa, seen⟩ := by
  obtain ⟨hget, hle, -⟩ := at_cons (at_append hdrop)
  have hcolon : (some (unit '/') : Option UInt16) ≠ some (unit ':') := by decide
  have hslash : is_terminator (unit '/') := by decide
  have hstep : step J k ⟨u, .host, n + h.length, h, sa, seen⟩
      = .again ⟨{ u with host := J.to_lower_case h }, .relative_path_start, n + h.length, [], sa, seen⟩ := by
    simp only [step, hget, host, hover]
    rw [if_neg fun h => hcolon h.1, filter_none (by simp [hslash])]
    simp only [Option.isSome_none, set_host_of_ne J u hne]
    rfl
  rw [run_host_chunk J sa hvalid hunits hscan hdrop, run_again (goes_on_iff.2 ⟨hle, hvalid⟩) hstep]

/-- The number of a port has the text of the port. -/
theorem parse_int_port_text {m : ℕ} (h : ∀ c ∈ port_text m, is_digit c) :
    NumberText.nearest (parse_int (port_text m)) = NumberText.nearest m := by
  unfold port_text at h ⊢
  have hback : ∀ c ∈ NumberText.number_text m, (unit c).toNat = c.toNat := fun c hc => by
    have hchar := NumberText.is_number_char_toNat (NumberText.number_text_chars c hc)
    simp only [List.mem_cons, List.not_mem_nil, or_false] at hchar
    exact (eq_unit_iff (by omega)).1 rfl
  have hmap : ((NumberText.number_text m).map unit).map (fun u => Char.ofNat u.toNat) = NumberText.number_text m := by
    rw [List.map_map]
    calc
      _ = (NumberText.number_text m).map id :=
        List.map_congr_left fun c hc => by
          rw [Function.comp_apply, hback c hc, Char.ofNat_toNat]
          rfl
      _ = NumberText.number_text m := List.map_id _
  have hdigits : ∀ c ∈ NumberText.number_text m, c.isDigit := fun c hc => by
    have hd := is_digit_iff.1 (h (unit c) (List.mem_map_of_mem hc))
    rw [hback c hc] at hd
    exact Char.isDigit_iff_toNat.2 hd
  rw [parse_int, hmap]
  exact NumberText.nearest_of_digits hdigits

theorem port_text_congr {m m' : ℕ} (h : NumberText.nearest m = NumberText.nearest m') : port_text m = port_text m' := by
  unfold port_text
  rw [NumberText.number_text_congr h]

/-- The host and the port, up to the path. -/
theorem run_port {u : URL} {h rest : JsString} {m : ℕ} (sa : Bool) (hvalid : u.is_invalid = false)
    (hover : k.state_override = none) (hunits : ∀ c ∈ h, is_host_unit c) (hscan : scan false h = some false)
    (hne : h ≠ []) (hlower : J.to_lower_case h = h) (hdigits : ∀ c ∈ port_text m, is_digit c)
    (hport : port_text m ≠ []) (hdefault : relative u.scheme ≠ some (NumberText.nearest m))
    (hdrop : k.input.drop n = h ++ unit ':' :: (port_text m ++ unit '/' :: rest)) :
    run J k ⟨u, .host, n, [], sa, false⟩ = run J k ⟨{ u with host := h, port := port_text m }, .relative_path_start,
      n + (h ++ unit ':' :: port_text m).length, [], sa, false⟩ := by
  obtain ⟨hget, hle, hdrop'⟩ := at_cons (at_append hdrop)
  obtain ⟨hget', hle', -⟩ := at_cons (at_append hdrop')
  have hcolon : step J k ⟨u, .host, n + h.length, h, sa, false⟩
      = .advance ⟨{ u with host := h }, .port, n + h.length, [], sa, false⟩ := by
    simp only [step, hget, host, hover]
    rw [if_pos ⟨trivial, rfl⟩, if_neg (by simp), set_host_of_ne J u hne, hlower]
  have hchunk := run_chunk (J := J) (k := k) (n := n + h.length + 1) (l := port_text m) (r := unit '/' :: rest)
    (P := fun b => ⟨{ u with host := h }, .port, n + h.length + 1 + b.length, b, sa, false⟩) (fun _ => rfl) hdrop'
    (fun _ => hvalid) (by
      rintro b c ⟨after, heq⟩ hget
      simp only at hget
      simp only [step, hget, port]
      rw [filter_some (hdigits c (mem_of_split heq))]
      exact ⟨_, rfl, by simp [Parser.moved, Nat.add_assoc]⟩)
  have hdigit : is_digit (unit '/') = false := by decide
  have hslash : is_terminator (unit '/') = true := by decide
  have hwith : ({ u with host := h } : URL).with_port (port_text m) = { u with host := h, port := port_text m } := by
    have hnear := parse_int_port_text hdigits
    rw [URL.with_port, if_neg, port_text_congr hnear]
    rw [hnear]
    exact fun h => h.elim hport hdefault
  have hend : step J k ⟨{ u with host := h }, .port, n + h.length + 1 + (port_text m).length, port_text m, sa, false⟩
      = .again ⟨{ u with host := h, port := port_text m }, .relative_path_start,
        n + h.length + 1 + (port_text m).length, [], sa, false⟩ := by
    simp only [step, hget', port, hover]
    rw [filter_none hdigit]
    simp only [Option.all_some, hslash, true_or, if_true, Option.isSome_none, hwith]
    rfl
  have hlen : n + (h ++ unit ':' :: port_text m).length = n + h.length + 1 + (port_text m).length := by
    rw [List.length_append, List.length_cons]
    omega
  rw [run_host_chunk J sa hvalid hunits hscan hdrop, run_advance (goes_on_iff.2 ⟨hle, hvalid⟩) hcolon, hlen]
  exact hchunk.trans (run_again (goes_on_iff.2 ⟨hle', hvalid⟩) hend)

/-- What stands between the authority and the first segment. -/
theorem run_path_start {u : URL} {rest : JsString} (sa sb : Bool) (hvalid : u.is_invalid = false)
    (hdrop : k.input.drop n = unit '/' :: rest) :
    run J k ⟨u, .relative_path_start, n, [], sa, sb⟩ = run J k ⟨u, .relative_path, n + 1, [], sa, sb⟩ := by
  obtain ⟨hget, hle, -⟩ := at_cons hdrop
  have hslash : is_slash (unit '/') = true := by decide
  have hstep : step J k ⟨u, .relative_path_start, n, [], sa, sb⟩ = .advance ⟨u, .relative_path, n, [], sa, sb⟩ := by
    simp only [step, hget, relative_path_start, Option.any_some, hslash, if_true]
  rw [run_advance (goes_on_iff.2 ⟨hle, hvalid⟩) hstep]
  rfl

/-! ### The host of a file -/

theorem run_file_host {h rest : JsString} (hunits : ∀ c ∈ h, is_host_unit c) (hlower : J.to_lower_case h = h)
    (hdrive : is_drive h = false) (hdrop : k.input.drop n = unit '/' :: unit '/' :: (h ++ unit '/' :: rest)) :
    run J k ⟨bare (js "file"), .relative, n, [], false, false⟩
      = run J k ⟨{ bare (js "file") with host := h }, .relative_path_start, n + 2 + h.length, [], false, false⟩ := by
  obtain ⟨hget, hle, hdrop'⟩ := at_cons hdrop
  obtain ⟨hget', hle', hdrop''⟩ := at_cons hdrop'
  obtain ⟨hget'', hle'', -⟩ := at_cons (at_append hdrop'')
  have hslash : is_slash (unit '/') = true := by decide
  have hterm : is_terminator (unit '/') = true := by decide
  have hfirst : step J k ⟨bare (js "file"), .relative, n, [], false, false⟩
      = .advance ⟨bare (js "file"), .relative_slash, n, [], false, false⟩ := by
    simp only [step, hget, relative_state, bare_scheme, if_true, hslash]
    rfl
  have hsecond : step J k ⟨bare (js "file"), .relative_slash, n + 1, [], false, false⟩
      = .advance ⟨bare (js "file"), .file_host, n + 1, [], false, false⟩ := by
    simp only [step, hget', relative_slash, bare_scheme, if_true, Option.any_some, hslash]
  have hchunk := run_chunk (J := J) (k := k) (n := n + 2) (l := h) (r := unit '/' :: rest)
    (P := fun b => ⟨bare (js "file"), .file_host, n + 2 + b.length, b, false, false⟩) (fun _ => rfl) hdrop''
    (fun _ => rfl) (by
      rintro b c ⟨after, heq⟩ hget
      obtain ⟨hterm, htab⟩ := is_host_unit_iff.1 (hunits c (mem_of_split heq))
      simp only at hget
      simp only [step, hget, file_host]
      rw [filter_some (by simpa using hterm)]
      simp only [htab]
      exact ⟨_, rfl, by simp [Parser.moved, Nat.add_assoc]⟩)
  have hend : step J k ⟨bare (js "file"), .file_host, n + 2 + h.length, h, false, false⟩
      = .again ⟨{ bare (js "file") with host := h }, .relative_path_start, n + 2 + h.length, [], false, false⟩ := by
    simp only [step, hget'', file_host]
    rw [filter_none (by simp [hterm])]
    simp only [hdrive]
    by_cases hne : h = []
    · simp [hne, bare, clear]
    · simp only [if_neg hne, set_host_of_ne J _ hne, hlower]
      rfl
  rw [run_advance (goes_on_iff.2 ⟨hle, rfl⟩) hfirst]
  refine (run_advance (goes_on_iff.2 ⟨hle', rfl⟩) hsecond).trans ?_
  exact hchunk.trans (run_again (goes_on_iff.2 ⟨hle'', rfl⟩) hend)

/-! ### URLs that are not relative -/

theorem run_scheme_data {s d q f : JsString} (hover : k.state_override = none)
    (hd : ∀ c ∈ d, is_plain path_except c) (ht : Tail q f) (hdrop : k.input.drop n = d ++ (q ++ f))
    (hle : n ≤ k.input.length) :
    run J k ⟨{ clear with scheme := s }, .scheme_data, n, [], false, false⟩
      = ⟨{ clear with scheme := s, scheme_data := d, query := q, fragment := f }, none⟩ := by
  have hq : (some (unit '#') : Option UInt16) ≠ some (unit '?') := by decide
  have hchunk := run_chunk (J := J) (k := k) (n := n) (l := d) (r := q ++ f)
    (P := fun b => ⟨{ clear with scheme := s, scheme_data := b }, .scheme_data, n + b.length, [], false, false⟩)
    (fun _ => rfl) hdrop (fun _ => rfl) (by
      rintro b c ⟨after, heq⟩ hget
      have hplain := hd c (mem_of_split heq)
      have hnum := is_plain_path_iff.1 hplain
      have h63 : '?'.toNat = 63 := rfl
      have h35 : '#'.toNat = 35 := rfl
      have hquestion : (some c : Option UInt16) ≠ some (unit '?') := by
        rw [ne_eq, Option.some.injEq, eq_unit_iff (by decide)]
        omega
      have hhash : (some c : Option UInt16) ≠ some (unit '#') := by
        rw [ne_eq, Option.some.injEq, eq_unit_iff (by decide)]
        omega
      have htab : ¬ is_tab_or_newline c := by
        rw [is_tab_or_newline_iff]
        omega
      simp only at hget
      simp only [step, hget, scheme_data]
      rw [if_neg hquestion, if_neg hhash, filter_some (by simpa using htab)]
      simp only [percent_escape_plain hplain]
      exact ⟨_, rfl, by simp [Parser.moved, Nat.add_assoc]⟩)
  have hlen : n + d.length ≤ k.input.length := by
    have hcount := congrArg List.length hdrop
    rw [List.length_drop, List.length_append] at hcount
    omega
  have hbefore : BeforeTail J (k := k) ⟨{ clear with scheme := s, scheme_data := d }, .scheme_data, n + d.length, [],
      false, false⟩ { clear with scheme := s, scheme_data := d } := by
    refine ⟨fun hget => ?_, fun hget => ?_, fun hget => ?_⟩
    · simp only at hget
      simp only [step, hget, scheme_data, if_true]
    · simp only at hget
      simp only [step, hget, scheme_data, if_true, if_neg hq]
    · simp only at hget
      simp only [step, hget, scheme_data, Option.filter_none]
      exact ⟨_, rfl, rfl⟩
  exact hchunk.trans (run_tail J hbefore ht hover (at_append hdrop) hlen rfl rfl rfl rfl)

end Parts

/-! ## The whole text -/

/-- What `href` of a URL that the constructor made may still depend on. -/
structure Rereadable (u : URL) : Prop where
  /-- A port of 22 digits and more is written with an exponent. -/
  digits : ∀ c ∈ u.port, is_digit c
  /-- `file` has a host of its own, and a path. -/
  file : u.scheme = js "file" → u.username = [] ∧ u.password = none ∧ u.port = [] ∧ is_drive u.host = false ∧
    u.path ≠ [] ∧ NoDrive { u with path := [] } u.path

theorem Clean.tail {u : URL} (h : Clean u) : Tail u.query u.fragment := ⟨h.query, h.fragment⟩

theorem parse_href_absolute (J : LowerCase) {u : URL} (h : Canonical J u) (hvalid : u.is_invalid = false)
    (hrel : u.is_relative = false) (text : JsString) :
    parse J { input := (JUrl.mk text u).href } clear = ⟨u, none⟩ := by
  obtain ⟨hscheme, heq⟩ := h.absolute hvalid hrel
  have hfile : u.scheme ≠ js "file" := fun hs => by
    rw [hs] at hscheme
    exact absurd hscheme (by decide)
  have hinput := href_eq hvalid text
  rw [hrel, URL.pathname, hvalid, hrel] at hinput
  simp only [Bool.false_eq_true, if_false, List.nil_append] at hinput
  have hdrop : (JUrl.mk text u).href.drop (u.scheme.length + 1) = u.scheme_data ++ (u.query ++ u.fragment) := by
    rw [hinput, ← List.drop_drop, List.drop_left]
    rfl
  have hle : u.scheme.length + 1 ≤ (JUrl.mk text u).href.length := by
    rw [hinput, List.length_append, List.length_cons]
    omega
  have hrun := run_scheme_data J (k := { input := (JUrl.mk text u).href }) (s := u.scheme) rfl h.clean.scheme_data
    h.clean.tail hdrop hle
  rw [parse, Option.getD_none, run_scheme J (h.scheme hvalid) hinput, run_colon J rfl rfl hinput, hscheme, if_neg hfile]
  exact hrun.trans (congrArg (Outcome.mk · none) heq.symm)

theorem host_userinfo_units {u : URL} (hclean : Clean u) (hauth : AuthorityOk u) :
    ∀ c ∈ u.host, is_userinfo_unit c := by
  intro c hc
  refine is_userinfo_unit_iff.2 ⟨(is_host_unit_iff.1 (hclean.host c hc)).1, fun h64 => hauth.no_at ?_⟩
  have hat : c = unit '@' := (eq_unit_iff (by decide)).2 h64
  rw [← hat]
  exact hc

/-- From the authority on, up to the path: the host, and the port if there is one. -/
theorem run_get_host (J : LowerCase) {k : Call} {n : ℕ} {u v : URL} {rest : JsString} (sa : Bool)
    (h : Canonical J u) (hvalid : u.is_invalid = false) (hrel : u.is_relative = true) (hfile : u.scheme ≠ js "file")
    (hr : Rereadable u) (hover : k.state_override = none) (hv : v.is_invalid = false) (hs : v.scheme = u.scheme)
    (hp : v.port = []) (hdrop : k.input.drop n = u.get_host ++ unit '/' :: rest) :
    ∃ seen, run J k ⟨v, .authority, n, [], sa, false⟩
      = run J k ⟨{ v with host := u.host, port := u.port }, .relative_path_start, n + u.get_host.length, [], sa, seen⟩ := by
  have hauth := (h.network hrel hfile).2
  obtain ⟨seen, hscan, hclosed⟩ := hauth.scan
  have hunits := host_userinfo_units h.clean hauth
  by_cases hport : u.port = []
  · have hhost : u.get_host = u.host := by rw [URL.get_host, hvalid, if_neg (by simp), if_neg (by simp [hport])]
    have hurl : ({ v with host := u.host, port := u.port } : URL) = { v with host := u.host } := by rw [hport, ← hp]
    rw [hhost] at hdrop ⊢
    rw [hurl]
    have hread := run_host J sa hv hover h.clean.host hscan hauth.host_ne hdrop
    rw [h.lower] at hread
    exact ⟨seen, (run_rewind J sa hv hunits hdrop).trans hread⟩
  · obtain ⟨m, hm, hdefault⟩ := hauth.port.resolve_left hport
    have hcolon : js ":" = [unit ':'] := rfl
    have hhost : u.get_host = u.host ++ unit ':' :: u.port := by
      rw [URL.get_host, hvalid, if_neg (by simp), if_pos hport, hcolon, List.append_assoc]
      rfl
    have hall : ∀ c ∈ u.get_host, is_userinfo_unit c := by
      intro c hc
      rw [hhost] at hc
      rcases List.mem_append.1 hc with hc | hc
      · exact hunits c hc
      rcases List.mem_cons.1 hc with rfl | hc
      · decide
      · have hd := is_digit_iff.1 (hr.digits c hc)
        rw [is_userinfo_unit_iff, is_terminator_iff]
        omega
    have hsplit : u.get_host ++ unit '/' :: rest = u.host ++ unit ':' :: (port_text m ++ unit '/' :: rest) := by
      rw [hhost, hm, List.append_assoc, List.cons_append]
    refine ⟨false, (run_rewind J sa hv hall hdrop).trans ?_⟩
    rw [hsplit] at hdrop
    rw [hclosed hport] at hscan
    have hdigits := hr.digits
    rw [hm] at hdigits hport
    rw [hhost, hm]
    exact run_port J sa hv hover h.clean.host hscan hauth.host_ne h.lower hdigits hport (by rw [hs]; exact hdefault) hdrop

/-- The first unit of an authority is no slash, and there is one. -/
theorem authority_head {u : URL} (hclean : Clean u) (hvalid : u.is_invalid = false) (hauth : AuthorityOk u) :
    ∃ x front, u.userinfo ++ u.get_host = x :: front ∧ ¬ is_slash x := by
  cases hsplit : u.userinfo ++ u.get_host with
  | nil =>
      have hnil := (List.append_eq_nil_iff.1 hsplit).2
      rw [URL.get_host, hvalid, if_neg (by simp)] at hnil
      split at hnil
      · exact absurd (List.append_eq_nil_iff.1 (List.append_eq_nil_iff.1 hnil).1).1 hauth.host_ne
      · exact absurd hnil hauth.host_ne
  | cons x front =>
      have hterm : ¬ is_terminator x := hclean.authority x (by rw [hsplit]; exact List.mem_cons_self)
      rw [is_terminator_iff] at hterm
      refine ⟨x, front, rfl, ?_⟩
      rw [is_slash_iff]
      omega

/-- The text of a URL with a host, as it is read. -/
theorem run_network (J : LowerCase) {k : Call} {u : URL} (h : Canonical J u) (hvalid : u.is_invalid = false)
    (hrel : u.is_relative = true) (hfile : u.scheme ≠ js "file") (hr : Rereadable u) (hover : k.state_override = none)
    (hbase : k.base = none) (hinput : k.input = u.scheme ++ unit ':' :: unit '/' :: unit '/' :: (u.userinfo ++
      (u.get_host ++ unit '/' :: ([unit '/'].intercalate u.path ++ (u.query ++ u.fragment))))) :
    run J k { url := clear, state := .scheme_start } = ⟨u, none⟩ := by
  obtain ⟨hscheme, hdata⟩ := h.relative hrel
  obtain ⟨hpath, hauth⟩ := h.network hrel hfile
  obtain ⟨x, front, hx, hslash⟩ := authority_head h.clean hvalid hauth
  have hdrop : k.input.drop (u.scheme.length + 1) = unit '/' :: unit '/' :: (u.userinfo ++
      (u.get_host ++ unit '/' :: ([unit '/'].intercalate u.path ++ (u.query ++ u.fragment)))) := by
    rw [hinput, ← List.drop_drop, List.drop_left]
    rfl
  have hdrop' : k.input.drop (u.scheme.length + 1) = unit '/' :: unit '/' :: x ::
      (front ++ unit '/' :: ([unit '/'].intercalate u.path ++ (u.query ++ u.fragment))) := by
    rw [hdrop, ← List.append_assoc, hx]
    rfl
  have huser : k.input.drop (u.scheme.length + 1 + 2) = u.userinfo ++
      (u.get_host ++ unit '/' :: ([unit '/'].intercalate u.path ++ (u.query ++ u.fragment))) := by
    rw [← List.drop_drop, hdrop]
    rfl
  have hhost := at_append huser
  obtain ⟨sa, hcred⟩ := run_userinfo J (s := u.scheme) h.clean huser
  obtain ⟨seen, hget⟩ := run_get_host J (v := with_credentials u.scheme u.username u.password) sa h hvalid hrel hfile hr
    hover rfl rfl rfl hhost
  have hstart := at_append hhost
  obtain ⟨hnext, -, hsegs⟩ := at_cons hstart
  have hle := (List.getElem?_eq_some_iff.1 hnext).1
  have hend := run_path J (u := { with_credentials u.scheme u.username u.password with host := u.host, port := u.port })
    u.path sa seen hpath hover h.clean.path (fun hdrive => hfile hdrive.1) h.clean.tail hsegs hle rfl rfl rfl
  rw [run_scheme J (h.scheme hvalid) hinput, run_colon J hover hbase hinput, if_pos hscheme, if_neg hfile, if_pos hscheme,
    run_slashes J rfl hslash hdrop', hcred, hget, run_path_start J sa seen rfl hstart, hend]
  have hurl : u = { with_credentials u.scheme u.username u.password with
      host := u.host, port := u.port, path := u.path, query := u.query, fragment := u.fragment } := by
    cases u
    simp only at hvalid hrel hdata
    rw [hvalid, hrel, hdata]
    rfl
  exact congrArg (Outcome.mk · none) hurl.symm

/-- The text of a URL of a file, as it is read. -/
theorem run_file (J : LowerCase) {k : Call} {u : URL} (h : Canonical J u) (hvalid : u.is_invalid = false)
    (hrel : u.is_relative = true) (hfile : u.scheme = js "file") (hr : Rereadable u) (hover : k.state_override = none)
    (hbase : k.base = none) (hinput : k.input = u.scheme ++ unit ':' :: unit '/' :: unit '/' ::
      (u.host ++ unit '/' :: ([unit '/'].intercalate u.path ++ (u.query ++ u.fragment)))) :
    run J k { url := clear, state := .scheme_start } = ⟨u, none⟩ := by
  obtain ⟨hscheme, hdata⟩ := h.relative hrel
  obtain ⟨hname, hpass, hport, hdrive, hpath, hfirst⟩ := hr.file hfile
  have hdrop : k.input.drop (u.scheme.length + 1) = unit '/' :: unit '/' ::
      (u.host ++ unit '/' :: ([unit '/'].intercalate u.path ++ (u.query ++ u.fragment))) := by
    rw [hinput, ← List.drop_drop, List.drop_left]
    rfl
  have hhost : k.input.drop (u.scheme.length + 1 + 2) =
      u.host ++ unit '/' :: ([unit '/'].intercalate u.path ++ (u.query ++ u.fragment)) := by
    rw [← List.drop_drop, hdrop]
    rfl
  have hstart := at_append hhost
  obtain ⟨hnext, -, hsegs⟩ := at_cons hstart
  have hle := (List.getElem?_eq_some_iff.1 hnext).1
  have hnodrive : NoDrive { bare (js "file") with host := u.host } u.path := by
    rintro ⟨-, -, hletter⟩
    exact hfirst ⟨hfile, rfl, hletter⟩
  have hend := run_path J (u := { bare (js "file") with host := u.host }) u.path false false hpath hover h.clean.path
    hnodrive h.clean.tail hsegs hle rfl rfl rfl
  have hbare : bare u.scheme = bare (js "file") := congrArg bare hfile
  rw [run_scheme J (h.scheme hvalid) hinput, run_colon J hover hbase hinput, if_pos hscheme, if_pos hfile, hbare,
    run_file_host J h.clean.host h.lower hdrive hdrop, run_path_start J false false rfl hstart, hend]
  have hurl : u = { bare (js "file") with
      host := u.host, path := u.path, query := u.query, fragment := u.fragment } := by
    cases u
    simp only at hvalid hrel hdata hfile hname hpass hport
    rw [hvalid, hrel, hdata, hfile, hname, hpass, hport]
    rfl
  exact congrArg (Outcome.mk · none) hurl.symm

/-- The text of a URL is read as this URL. -/
theorem parse_href (J : LowerCase) {u : URL} (h : Canonical J u) (hvalid : u.is_invalid = false) (hr : Rereadable u)
    (text : JsString) : parse J { input := (JUrl.mk text u).href } clear = ⟨u, none⟩ := by
  have hslashes : js "//" = [unit '/', unit '/'] := rfl
  have hinput := href_eq hvalid text
  cases hrel : u.is_relative
  · exact parse_href_absolute J h hvalid hrel text
  rw [if_pos hrel, pathname_eq hvalid hrel, hslashes] at hinput
  simp only [List.append_assoc, List.cons_append, List.nil_append] at hinput
  by_cases hfile : u.scheme = js "file"
  · obtain ⟨hname, hpass, hport, -⟩ := hr.file hfile
    have huser : u.userinfo = [] := by rw [URL.userinfo, if_neg (by simp [hname, hpass])]
    have hhost : u.get_host = u.host := by rw [URL.get_host, hvalid, if_neg (by simp), if_neg (by simp [hport])]
    rw [huser, hhost] at hinput
    exact run_file J h hvalid hrel hfile hr rfl rfl hinput
  · exact run_network J h hvalid hrel hfile hr rfl rfl hinput

theorem dropWhile_of_head {α : Type*} {p : α → Bool} {l : List α} (h : ∀ x, l.head? = some x → ¬ p x) :
    l.dropWhile p = l := by
  cases l with
  | nil => rfl
  | cons x rest => exact List.dropWhile_cons_of_neg (h x rfl)

theorem trim_eq {s : JsString} (hhead : ∀ c, s.head? = some c → ¬ is_space c)
    (hlast : ∀ c, s.getLast? = some c → ¬ is_space c) : trim s = s := by
  rw [trim, dropWhile_of_head hhead, dropWhile_of_head, List.reverse_reverse]
  intro c hc
  rw [List.head?_reverse] at hc
  exact hlast c hc

/-- No unit above the space is one. -/
theorem not_space_of_lt {c : UInt16} (h : 32 < c.toNat) : ¬ is_space c := by
  simp only [is_space, Bool.or_eq_true, decide_eq_true_eq, is_tab_or_newline_iff]
  rw [eq_unit_iff (by decide), ← UInt16.toNat_inj]
  have h32 : ' '.toNat = 32 := rfl
  have h12 : (0x0C : UInt16).toNat = 12 := by decide
  omega

theorem not_space_of_plain {c : UInt16} (h : is_plain path_except c ∨ is_plain query_except c) : ¬ is_space c := by
  rw [is_plain_path_iff, is_plain_query_iff] at h
  apply not_space_of_lt
  omega

theorem getLast_append {α : Type*} {P : α → Prop} {a b : List α} (hb : ∀ c, b.getLast? = some c → P c)
    (ha : b = [] → ∀ c, a.getLast? = some c → P c) : ∀ c, (a ++ b).getLast? = some c → P c := by
  intro c hc
  by_cases hnil : b = []
  · rw [hnil, List.append_nil] at hc
    exact ha hnil c hc
  · rw [List.getLast?_append_of_ne_nil _ hnil] at hc
    exact hb c hc

theorem Clean.query_spaces {u : URL} (h : Clean u) : ∀ c ∈ u.query, ¬ is_space c := by
  intro c hc
  rcases h.query with hq | ⟨q, hq, hplain⟩
  · rw [hq] at hc
    exact absurd hc (by simp)
  rw [hq] at hc
  rcases List.mem_cons.1 hc with rfl | hc
  · decide
  · exact not_space_of_plain (Or.inr (hplain c hc))

theorem Clean.pathname_spaces {u : URL} (h : Clean u) : ∀ c ∈ u.pathname, ¬ is_space c := by
  have hslash : ¬ is_space (unit '/') := by decide
  intro c hc
  rw [URL.pathname] at hc
  split at hc
  · exact absurd hc (by simp)
  split at hc
  · rcases List.mem_append.1 hc with hc | hc
    · rw [List.mem_singleton.1 hc]
      exact hslash
    · rcases mem_intercalate hc with hc | ⟨s, hs, hc⟩
      · rw [List.mem_singleton.1 hc]
        exact hslash
      · exact not_space_of_plain (Or.inl (is_path_unit_iff.1 ((h.path s hs).units c hc)).1)
  · exact not_space_of_plain (Or.inl (h.scheme_data c hc))

/-- What the constructor trims is not there. -/
theorem trim_href {J : LowerCase} {u : URL} (h : Canonical J u) (hvalid : u.is_invalid = false) (text : JsString)
    (htrim : ∀ c, u.fragment.getLast? = some c → ¬ is_space c) : trim (JUrl.mk text u).href = (JUrl.mk text u).href := by
  have hscheme := h.scheme hvalid
  have hlast : ∀ c, (u.pathname ++ (u.query ++ u.fragment)).getLast? = some c → ¬ is_space c :=
    getLast_append (getLast_append htrim fun _ c hc => h.clean.query_spaces c (List.mem_of_getLast? hc))
      fun _ c hc => h.clean.pathname_spaces c (List.mem_of_getLast? hc)
  rw [href_eq hvalid]
  refine trim_eq (fun c hc => ?_) ?_
  · rw [List.head?_append_of_ne_nil _ hscheme.nonempty] at hc
    have halpha := is_alpha_iff.1 (hscheme.letter c hc)
    simp only [is_space, Bool.or_eq_true, decide_eq_true_eq, is_tab_or_newline_iff]
    rw [eq_unit_iff (by decide), ← UInt16.toNat_inj]
    have h32 : ' '.toNat = 32 := rfl
    have h12 : (0x0C : UInt16).toNat = 12 := by decide
    omega
  · have hcolon : ¬ is_space (unit ':') := by decide
    refine getLast_append ?_ (by simp)
    rw [← List.singleton_append]
    refine getLast_append (getLast_append hlast fun hnil c hc => ?_) fun _ c hc => ?_
    · -- a URL with an authority has a path
      split at hc
      · rename_i hrel
        rw [pathname_eq hvalid hrel] at hnil
        exact absurd (List.append_eq_nil_iff.1 hnil).1 (by simp)
      · exact absurd hc (by simp)
    · rw [List.getLast?_singleton, Option.some.injEq] at hc
      rw [← hc]
      exact hcolon

/-- **`href` is read as the same URL.** Whatever text and whatever chain of bases a URL
was made from: if it is valid, its port is written in digits, and it is no URL of a
file with the parts of another, the constructor makes the same URL of its `href`, and
so the same `href` again. -/
theorem Constructed.new_url_href {J : LowerCase} {o : JUrl} (h : Constructed J o) (hvalid : o.url.is_invalid = false)
    (hr : Rereadable o.url) : new_url J o.href none = .ok ⟨o.href, o.url⟩ := by
  obtain ⟨hcanonical, htrim⟩ := h.canonical
  have hhref : (JUrl.mk o.text o.url).href = o.href := rfl
  have htext := trim_href hcanonical hvalid o.text htrim
  have hparse := parse_href J hcanonical hvalid hr o.text
  rw [hhref] at htext hparse
  rw [new_url, htext, hparse]

/-- A URL that is made canonical on the way. -/
theorem new_url_href_of_example :
    ∃ o, new_url ascii_case (js "HTTP://U:p@Ex.com:8080/a/../b c?q r#f g") none = .ok o ∧
      o.href = js "http://U:p@ex.com:8080/b%20c?q%20r#f g" ∧ new_url ascii_case o.href none = .ok ⟨o.href, o.url⟩ := by
  let u : URL :=
    { scheme := js "http"
      username := js "U"
      password := some (js "p")
      host := js "ex.com"
      port := js "8080"
      path := [js "b%20c"]
      query := js "?q%20r"
      fragment := js "#f g"
      is_relative := true }
  have hnew : new_url ascii_case (js "HTTP://U:p@Ex.com:8080/a/../b c?q r#f g") none
      = .ok ⟨js "HTTP://U:p@Ex.com:8080/a/../b c?q r#f g", u⟩ := by decide +kernel
  refine ⟨_, hnew, by decide +kernel, Constructed.new_url_href (.new hnew) rfl ⟨?_, fun h => absurd h (by decide)⟩⟩
  exact List.all_eq_true.1 (by decide)

end Url

end RustyWorkers

/-
What a URL of the web is read as (`jURL`, `librt/src/url.js`): the host and the path
of `https://`, a host, a path and a query.

The host becomes lower case. The segments of the path are written one by one: a
backslash is a slash, the dots of a segment go up, with or without an escape, and what
a URL does not take is escaped. So the path stays what it is exactly when there is
nothing of this in it (`Kept`); what there is in the query does not matter.
-/
import RustyWorkers.UrlResolve
import RustyWorkers.UrlRoundTrip

set_option autoImplicit false

namespace RustyWorkers

open Lib

namespace Url

open RespondWith (JsString js)

/-! ## Paths that stay -/

/-- The segments that go up or stay at their place, in lower case. -/
def dot_segments : List JsString := [js ".", js "..", js "%2e", js ".%2e", js "%2e.", js "%2e%2e"]

/-- A path that is written as it is read. -/
structure Kept (path : JsString) : Prop where
  no_quote : unit '"' ∉ path
  no_backslash : unit '\\' ∉ path
  no_dots : ∀ seg ∈ path.splitOn (unit '/'), seg.map ascii_lower ∉ dot_segments

/-- The units of a path that `http::Uri` takes. -/
def is_target_unit (u : UInt16) : Bool :=
  u = unit '/' || u = unit '"' || u = unit '\\' || is_path_unit u

/-- A dot is the lower case of nothing else. -/
theorem ascii_lower_eq_dot {u : UInt16} : ascii_lower u = unit '.' ↔ u = unit '.' := by
  rw [eq_unit_iff (by decide), eq_unit_iff (by decide), toNat_ascii_lower]
  have hdot : '.'.toNat = 46 := rfl
  split <;> omega

theorem lower_eq_dot {s : JsString} : s.map ascii_lower = js "." ↔ s = js "." := by
  have hdot : js "." = [unit '.'] := rfl
  rw [hdot, List.map_eq_singleton_iff]
  constructor
  · rintro ⟨u, rfl, hu⟩
    rw [ascii_lower_eq_dot.1 hu]
  · rintro rfl
    exact ⟨_, rfl, ascii_lower_eq_dot.2 rfl⟩

theorem lower_eq_dots {s : JsString} : s.map ascii_lower = js ".." ↔ s = js ".." := by
  have hdots : js ".." = [unit '.', unit '.'] := rfl
  rw [hdots]
  constructor
  · intro h
    obtain ⟨u, t, rfl, hu, ht⟩ := List.map_eq_cons_iff.1 h
    obtain ⟨v, rfl, hv⟩ := List.map_eq_singleton_iff.1 ht
    rw [ascii_lower_eq_dot.1 hu, ascii_lower_eq_dot.1 hv]
  · rintro rfl
    decide

/-- A segment of dots is one of six. -/
theorem dots_iff (s : JsString) : (dots s = js "." ∨ dots s = js "..") ↔ s.map ascii_lower ∈ dot_segments := by
  have hmem : s.map ascii_lower ∈ dot_segments ↔ s = js "." ∨ s = js ".." ∨ s.map ascii_lower = js "%2e"
      ∨ s.map ascii_lower = js ".%2e" ∨ s.map ascii_lower = js "%2e." ∨ s.map ascii_lower = js "%2e%2e" := by
    simp only [dot_segments, List.mem_cons, List.not_mem_nil, or_false, lower_eq_dot, lower_eq_dots]
  rw [hmem]
  unfold dots relative_path_dot_mapping
  split
  · rename_i h
    simp [h]
  split
  · rename_i h
    simp [h]
  split
  · rename_i h
    simp [h]
  split
  · rename_i h
    simp [h]
  · rename_i h1 h2 h3 h4
    simp [h1, h2, h3, h4]

theorem segment_iff {s : JsString} (hunits : ∀ u ∈ s, is_path_unit u) :
    Segment s ↔ s.map ascii_lower ∉ dot_segments := by
  rw [← dots_iff, not_or]
  exact ⟨fun h => ⟨h.no_dot, h.no_dots⟩, fun h => ⟨hunits, h.1, h.2⟩⟩

/-- What a part of a list has, the list has, and it is not the separator. -/
theorem mem_of_mem_splitOn {α : Type*} [DecidableEq α] {a x : α} {l s : List α} (hs : s ∈ l.splitOn a)
    (hx : x ∈ s) : x ∈ l ∧ x ≠ a := by
  induction l generalizing s with
  | nil =>
      rw [List.splitOn_nil, List.mem_singleton] at hs
      rw [hs] at hx
      cases hx
  | cons y l ih =>
      rw [List.splitOn_cons_eq_if_modifyHead] at hs
      split at hs
      · rcases List.mem_cons.1 hs with rfl | hs
        · cases hx
        · exact ⟨List.mem_cons_of_mem _ (ih hs hx).1, (ih hs hx).2⟩
      · rename_i hy
        have hy : y ≠ a := by simpa using hy
        cases hl : l.splitOn a with
        | nil => exact absurd hl (List.splitOn_ne_nil a l)
        | cons t ts =>
            rw [hl, List.modifyHead_cons] at hs
            rw [hl] at ih
            rcases List.mem_cons.1 hs with rfl | hs
            · rcases List.mem_cons.1 hx with rfl | hx
              · exact ⟨List.mem_cons_self, hy⟩
              · exact ⟨List.mem_cons_of_mem _ (ih List.mem_cons_self hx).1, (ih List.mem_cons_self hx).2⟩
            · have hrest := ih (List.mem_cons_of_mem _ hs) hx
              exact ⟨List.mem_cons_of_mem _ hrest.1, hrest.2⟩

/-- The segments of a path, behind its first slash. -/
theorem splitOn_slash (rest : JsString) :
    (unit '/' :: rest).splitOn (unit '/') = [] :: rest.splitOn (unit '/') := by
  have h := List.splitOn_append_cons_self (a := unit '/') [] rest
  rw [List.nil_append, List.splitOn_nil] at h
  exact h

/-- A path is kept when all that is between its slashes are segments. -/
theorem kept_iff {rest : JsString} (hunits : ∀ u ∈ rest, is_target_unit u) :
    Kept (unit '/' :: rest) ↔ ∀ s ∈ rest.splitOn (unit '/'), Segment s := by
  have htarget : ∀ u ∈ rest, u = unit '/' ∨ u = unit '"' ∨ u = unit '\\' ∨ is_path_unit u = true := by
    intro u hu
    simpa [is_target_unit, or_assoc] using hunits u hu
  constructor
  · intro h s hs
    have hpath : ∀ u ∈ s, is_path_unit u := by
      intro u hu
      obtain ⟨hin, hslash⟩ := mem_of_mem_splitOn hs hu
      rcases htarget u hin with rfl | rfl | rfl | hpath
      · exact absurd rfl hslash
      · exact absurd (List.mem_cons_of_mem _ hin) h.no_quote
      · exact absurd (List.mem_cons_of_mem _ hin) h.no_backslash
      · exact hpath
    apply (segment_iff hpath).2
    apply h.no_dots
    rw [splitOn_slash]
    exact List.mem_cons_of_mem _ hs
  · intro h
    -- between the slashes are units of segments only
    have hmem : ∀ u ∈ unit '/' :: rest, u = unit '/' ∨ is_path_unit u = true := by
      intro u hu
      rcases List.mem_cons.1 hu with rfl | hu
      · exact Or.inl rfl
      · have hsplit : [unit '/'].intercalate (rest.splitOn (unit '/')) = rest := List.intercalate_splitOn (unit '/')
        rw [← hsplit] at hu
        rcases mem_intercalate hu with hu | ⟨s, hs, hu⟩
        · exact Or.inl (List.mem_singleton.1 hu)
        · exact Or.inr ((h s hs).units u hu)
    refine ⟨fun hquote => ?_, fun hbackslash => ?_, fun s hs => ?_⟩
    · rcases hmem _ hquote with heq | hpath
      · exact absurd heq (by decide)
      · exact absurd hpath (by decide)
    · rcases hmem _ hbackslash with heq | hpath
      · exact absurd heq (by decide)
      · exact absurd hpath (by decide)
    · rw [splitOn_slash] at hs
      rcases List.mem_cons.1 hs with rfl | hs
      · decide
      · exact (segment_iff (h s hs).units).1 (h s hs)

/-! ## What is never thrown -/

/-- ASCII has escapes. -/
theorem encode_ascii {u : UInt16} (h : is_ascii u) : ∃ e, encode_uri_component u = some e := by
  have hnum := is_ascii_iff.1 h
  unfold encode_uri_component
  split
  · exact ⟨_, rfl⟩
  · rw [if_pos hnum]
    exact ⟨_, rfl⟩

theorem percent_escape_with_ascii (except : JsString) {u : UInt16} (h : is_ascii u) :
    ∃ e, percent_escape_with except u = some e := by
  unfold percent_escape_with
  split
  · exact ⟨_, rfl⟩
  · exact encode_ascii h

/-! ## Behind the host -/

section Behind

variable (J : LowerCase) {k : Call} {n : ℕ}

/-- The parser is at the path or behind it, and has an URL with the authority of `b`. -/
structure PastHost (b : URL) (p : Parser) : Prop where
  place : p.state = .relative_path ∨ p.state = .query ∨ p.state = .fragment
  stays : Stays b p.url
  relative : p.url.is_relative = true

/-- A URL that has the authority of `b`. -/
structure Served (b : URL) (o : Outcome) : Prop where
  returned : o.thrown = none
  stays : Stays b o.url
  relative : o.url.is_relative = true

theorem past_host_step (hover : k.state_override = none) (hascii : ∀ u ∈ k.input, is_ascii u) {b : URL} {p : Parser}
    (h : PastHost b p) : (step J k p).Keeps (PastHost b) (Served b) := by
  have hunit : ∀ {u : UInt16} {q : UInt16 → Bool}, (k.input[p.cursor]?).filter q = some u → is_ascii u := by
    intro u q hget
    exact hascii u (List.mem_of_getElem? (Option.filter_eq_some_iff.1 hget).1)
  -- what comes next is escaped, or the next part begins; both write behind the host only
  rcases h.place with hs | hs | hs
  · simp only [step, hs, relative_path, hover]
    split
    · obtain ⟨path, hpush⟩ := push_segment_writes J p.url p.buffer (k.input[p.cursor]?.any is_slash)
      rw [hpush]
      split
      · exact ⟨Or.inr (Or.inl rfl), h.stays.with_path path (js "?") p.url.fragment, h.relative⟩
      split
      · exact ⟨Or.inr (Or.inr rfl), h.stays.with_path path p.url.query (js "#"), h.relative⟩
      · exact ⟨Or.inl rfl, h.stays.with_path path p.url.query p.url.fragment, h.relative⟩
    · rename_i u hget
      split
      · exact ⟨Or.inl hs, h.stays, h.relative⟩
      · obtain ⟨e, he⟩ := percent_escape_with_ascii path_except (hunit hget)
        rw [percent_escape, he]
        exact ⟨Or.inl rfl, h.stays, h.relative⟩
  · simp only [step, hs, query, hover]
    split
    · exact ⟨Or.inr (Or.inr rfl), h.stays.with_path p.url.path p.url.query (js "#"), h.relative⟩
    split
    · exact ⟨Or.inr (Or.inl hs), h.stays, h.relative⟩
    · rename_i u hget
      obtain ⟨e, he⟩ := percent_escape_with_ascii query_except (hunit hget)
      rw [percent_escape_query, he]
      exact ⟨Or.inr (Or.inl rfl), h.stays.with_path p.url.path _ p.url.fragment, h.relative⟩
  · simp only [step, hs, fragment]
    split
    · exact ⟨Or.inr (Or.inr hs), h.stays, h.relative⟩
    · exact ⟨Or.inr (Or.inr rfl), h.stays.with_path p.url.path p.url.query _, h.relative⟩

/-- From the path on `parse` returns, with the authority that it has by then. -/
theorem run_past_host (hover : k.state_override = none) (hascii : ∀ u ∈ k.input, is_ascii u) {b : URL} {p : Parser}
    (h : PastHost b p) : Served b (run J k p) :=
  run_rule (I := PastHost b) (fun _ hp _ => ⟨rfl, hp.stays, hp.relative⟩)
    (fun _ hp _ => past_host_step J hover hascii hp) h

/-- The query and the fragment leave the path. -/
theorem run_query_path {p : Parser} (h : p.state = .query ∨ p.state = .fragment) :
    (run J k p).url.path = p.url.path := by
  have hrule := run_rule (J := J) (k := k) (Q := fun o => o.url.path = p.url.path)
    (I := fun q => (q.state = .query ∨ q.state = .fragment) ∧ q.url.path = p.url.path) (fun _ hq _ => hq.2) ?_ ⟨h, rfl⟩
  · exact hrule
  · rintro q ⟨hs | hs, hpath⟩ -
    · simp only [step, hs, query]
      split
      · exact ⟨Or.inr rfl, hpath⟩
      split
      · exact ⟨Or.inl hs, hpath⟩
      split
      · exact hpath
      · exact ⟨Or.inl rfl, hpath⟩
    · simp only [step, hs, fragment]
      split
      · exact ⟨Or.inr hs, hpath⟩
      · exact ⟨Or.inr rfl, hpath⟩

end Behind

/-! ## The scheme stays -/

theorem set_credentials_scheme (buffer : JsString) (u : URL) : (set_credentials buffer u).2.scheme = u.scheme := by
  induction buffer generalizing u with
  | nil => rfl
  | cons c rest ih =>
      rw [set_credentials]
      split
      · exact ih u
      split
      · exact ih _
      split
      · rfl
      · split
        · exact ih _
        · exact ih _

/-- Behind the colon the scheme stays, or the URL is invalid. -/
def KeepsScheme (s : JsString) (u : URL) : Prop := u.scheme = s ∨ u.is_invalid = true

theorem KeepsScheme.set_host (J : LowerCase) {s : JsString} {u : URL} (h : KeepsScheme s u) (host : JsString) :
    KeepsScheme s (set_host J u host) := by
  by_cases hnil : host = []
  · rw [hnil, set_host_nil]
    exact Or.inr rfl
  · rw [set_host_of_ne J u hnil]
    exact h

theorem KeepsScheme.with_port {s : JsString} {u : URL} (h : KeepsScheme s u) (buffer : JsString) :
    KeepsScheme s (u.with_port buffer) := by
  unfold URL.with_port
  split
  · exact h
  · exact h

theorem KeepsScheme.push_segment (J : LowerCase) {s : JsString} {u : URL} (h : KeepsScheme s u) (buffer : JsString)
    (more : Bool) : KeepsScheme s (u.push_segment J buffer more) := by
  obtain ⟨path, hpath⟩ := push_segment_writes J u buffer more
  rw [hpath]
  exact h

theorem KeepsScheme.credentials {s : JsString} {u u' : URL} {ok : Bool} (h : KeepsScheme s u) {buffer : JsString}
    (hu : set_credentials buffer u = (ok, u')) (hvalid : u.is_invalid = false) : KeepsScheme s u' := by
  have hscheme := set_credentials_scheme buffer u
  rw [hu] at hscheme
  rcases h with h | h
  · exact Or.inl (hscheme.trans h)
  · rw [hvalid] at h
    cases h

/-- No step goes back to a state of a higher rank. -/
theorem keeps_rank (J : LowerCase) (k : Call) (p : Parser) :
    (step J k p).Keeps (fun q => rank q.state ≤ rank p.state) (fun _ => True) := by
  have hdec := step_decreases J k p
  cases hs : step J k p with
  | advance q =>
    rw [hs] at hdec
    exact hdec.1
  | again q =>
    rw [hs] at hdec
    exact le_of_lt hdec
  | stop | throw => trivial

theorem keeps_scheme_step (J : LowerCase) {k : Call} {s : JsString} {p : Parser} (hgo : goes_on k p)
    (hrank : rank p.state ≤ 8) (h : KeepsScheme s p.url) :
    (step J k p).Keeps (fun q => KeepsScheme s q.url) (fun o => KeepsScheme s o.url) := by
  have hvalid := (goes_on_iff.1 hgo).2
  cases hs : p.state with
  -- the states that write the scheme are before the authority
  | scheme_start | scheme | no_scheme | relative_or_authority | relative | relative_slash =>
    rw [hs] at hrank
    exact absurd hrank (by decide)
  | authority_first_slash =>
    simp only [step, hs, authority_first_slash]
    split <;> exact h
  | authority_second_slash =>
    simp only [step, hs, authority_second_slash]
    split <;> exact h
  | authority_ignore_slashes =>
    simp only [step, hs, authority_ignore_slashes]
    split
    · exact h
    · exact h
  | authority =>
    simp only [step, hs, authority]
    split
    · split
      · rename_i hset
        exact h.credentials hset hvalid
      · rename_i hset
        exact h.credentials hset hvalid
    · split
      · exact h
      · exact h
  | file_host =>
    simp only [step, hs, file_host]
    split
    · split
      · exact h
      · exact h
    · split
      · exact h
      split
      · exact h
      · exact h.set_host J _
  | host | hostname =>
    simp only [step, hs, host]
    split
    · split
      · exact h.set_host J _
      · exact h.set_host J _
    · split
      · split
        · exact h.set_host J _
        · exact h.set_host J _
      · split
        · exact h
        · exact h
  | port =>
    simp only [step, hs, port]
    split
    · exact h
    · split
      · split
        · exact h.with_port _
        · exact h.with_port _
      · split
        · exact h
        -- a port that is no number makes the URL invalid
        · exact Or.inr rfl
  | relative_path_start =>
    simp only [step, hs, relative_path_start]
    split <;> exact h
  | relative_path =>
    simp only [step, hs, relative_path]
    split
    · have hpush := h.push_segment J p.buffer (k.input[p.cursor]?.any is_slash)
      split
      · exact hpush
      split
      · exact hpush
      · exact hpush
    · split
      · exact h
      split
      · exact h
      · exact h
  | scheme_data =>
    simp only [step, hs, scheme_data]
    split
    · exact h
    split
    · exact h
    split
    · exact h
    split
    · exact h
    · exact h
  | query =>
    simp only [step, hs, query]
    split
    · exact h
    split
    · exact h
    split
    · exact h
    · exact h
  | fragment =>
    simp only [step, hs, fragment]
    split
    · exact h
    · exact h

theorem run_keeps_scheme (J : LowerCase) {k : Call} {s : JsString} {p : Parser} (hrank : rank p.state ≤ 8)
    (h : KeepsScheme s p.url) : KeepsScheme s (run J k p).url :=
  run_rule (I := fun q => rank q.state ≤ 8 ∧ KeepsScheme s q.url) (Q := fun o => KeepsScheme s o.url)
    (fun _ hq _ => hq.2) (fun q hq hgo => by
      have hboth := (keeps_rank J k q).and (keeps_scheme_step J hgo hq.1 hq.2)
      cases hs : step J k q with
      | advance q' | again q' =>
        rw [hs] at hboth
        exact ⟨hboth.1.trans hq.1, hboth.2⟩
      | stop | throw =>
        rw [hs] at hboth
        exact hboth.2) ⟨hrank, h⟩

/-! ## From the scheme to the path -/

/-- A unit of a name or of an address that no part of an authority begins or ends with. -/
def is_name_unit (u : UInt16) : Bool :=
  is_ascii u && decide (32 < u.toNat) && !is_terminator u && decide (u.toNat ∉ [58, 64, 91, 93])

theorem is_name_unit_iff {u : UInt16} : is_name_unit u ↔
    (u.toNat < 128 ∧ 32 < u.toNat ∧ u.toNat ≠ 58 ∧ u.toNat ≠ 64 ∧ u.toNat ≠ 91 ∧ u.toNat ≠ 93) ∧ ¬ is_terminator u := by
  simp only [is_name_unit, Bool.and_eq_true, is_ascii_iff, decide_eq_true_eq, Bool.not_eq_true', ← Bool.not_eq_true,
    List.mem_cons, List.not_mem_nil, or_false]
  tauto

/-- No colon and no bracket are in a name. -/
theorem scan_name {h : JsString} (hname : ∀ c ∈ h, is_name_unit c) : scan false h = some false := by
  induction h with
  | nil => rfl
  | cons c h ih =>
      have hc := (is_name_unit_iff.1 (hname c List.mem_cons_self)).1
      have hcolon : c ≠ unit ':' := by
        rw [ne_eq, eq_unit_iff (by decide)]
        have h58 : ':'.toNat = 58 := rfl
        omega
      have hopen : c ≠ unit '[' := by
        rw [ne_eq, eq_unit_iff (by decide)]
        have h91 : '['.toNat = 91 := rfl
        omega
      have hclose : c ≠ unit ']' := by
        rw [ne_eq, eq_unit_iff (by decide)]
        have h93 : ']'.toNat = 93 := rfl
        omega
      rw [scan, if_neg fun h => hcolon h.1, bracket, if_neg hopen, if_neg hclose]
      exact ih fun x hx => hname x (List.mem_cons_of_mem _ hx)

/-- The text of a URL of the web. -/
def https_text (h path query : JsString) : JsString := js "https" ++ unit ':' :: unit '/' :: unit '/' :: (h ++ (path ++ query))

/-- All of it is ASCII, and no space is in it. -/
theorem ascii_https {h rest query : JsString} (hname : ∀ c ∈ h, is_name_unit c)
    (hunits : ∀ u ∈ rest, is_target_unit u) (hquery : ∀ u ∈ query, is_ascii u) :
    ∀ u ∈ https_text h (unit '/' :: rest) query, is_ascii u := by
  have hscheme : ∀ u ∈ js "https", is_ascii u := List.all_eq_true.1 (by decide)
  have htarget : ∀ u, is_target_unit u → is_ascii u := by
    intro u hu
    simp only [is_target_unit, Bool.or_eq_true, decide_eq_true_eq] at hu
    rcases hu with ((rfl | rfl) | rfl) | hpath
    · decide
    · decide
    · decide
    · exact is_ascii_of_path_unit hpath
  intro u hu
  simp only [https_text, List.mem_append, List.mem_cons] at hu
  rcases hu with hu | rfl | rfl | rfl | hu | (rfl | hu) | hu
  · exact hscheme u hu
  · decide
  · decide
  · decide
  · exact is_ascii_iff.2 (is_name_unit_iff.1 (hname u hu)).1.1
  · decide
  · exact htarget u (hunits u hu)
  · exact hquery u hu

theorem trim_https {h rest query : JsString} (hname : ∀ c ∈ h, is_name_unit c)
    (hunits : ∀ u ∈ rest, is_target_unit u) (hquery : ∀ u ∈ query, is_ascii u ∧ ¬ is_space u) :
    trim (https_text h (unit '/' :: rest) query) = https_text h (unit '/' :: rest) query := by
  have hall : (js "https").all (fun u => !is_space u) = true := by decide
  have hscheme : ∀ u ∈ js "https", ¬ is_space u := by
    intro u hu hspace
    have hno := List.all_eq_true.1 hall u hu
    rw [hspace] at hno
    cases hno
  have htarget : ∀ u, is_target_unit u → ¬ is_space u := by
    intro u hu
    simp only [is_target_unit, Bool.or_eq_true, decide_eq_true_eq] at hu
    rcases hu with ((rfl | rfl) | rfl) | hpath
    · decide
    · decide
    · decide
    · exact not_space_of_plain (Or.inl (is_path_unit_iff.1 hpath).1)
  have hspace : ∀ u ∈ https_text h (unit '/' :: rest) query, ¬ is_space u := by
    intro u hu
    simp only [https_text, List.mem_append, List.mem_cons] at hu
    rcases hu with hu | rfl | rfl | rfl | hu | (rfl | hu) | hu
    · exact hscheme u hu
    · decide
    · decide
    · decide
    · exact not_space_of_lt (is_name_unit_iff.1 (hname u hu)).1.2.1
    · decide
    · exact htarget u (hunits u hu)
    · exact (hquery u hu).2
  exact trim_eq (fun c hc => hspace c (List.mem_of_mem_head? hc)) fun c hc => hspace c (List.mem_of_getLast? hc)

section Https

variable (J : LowerCase) {k : Call}

theorem run_https_scheme {rest : JsString} (hover : k.state_override = none) (hbase : k.base = none)
    (hinput : k.input = js "https" ++ unit ':' :: rest) :
    run J k { url := clear, state := .scheme_start }
      = run J k ⟨bare (js "https"), .authority_first_slash, 6, [], false, false⟩ := by
  have hscheme : SchemeBuffer (js "https") := by
    have hjs : js "https" = unit 'h' :: js "ttps" := rfl
    refine ⟨List.all_eq_true.1 (by decide), by decide, fun c hc => ?_⟩
    rw [hjs, List.head?_cons, Option.some.injEq] at hc
    rw [← hc]
    decide
  have hrelative : is_relative_scheme (js "https") = true := by decide
  have hfile : js "https" ≠ js "file" := by decide
  rw [run_scheme J hscheme hinput, run_colon J hover hbase hinput, if_pos hrelative, if_neg hfile, if_pos hrelative]
  rfl

/-- The host becomes lower case, and the path is next. -/
theorem run_https {h rest : JsString} (hover : k.state_override = none) (hbase : k.base = none)
    (hname : ∀ c ∈ h, is_name_unit c) (hne : h ≠ [])
    (hinput : k.input = js "https" ++ unit ':' :: unit '/' :: unit '/' :: (h ++ unit '/' :: rest)) :
    ∃ n, k.input.drop n = rest ∧ n ≤ k.input.length ∧ run J k { url := clear, state := .scheme_start }
      = run J k ⟨{ bare (js "https") with host := J.to_lower_case h }, .relative_path, n, [], false, false⟩ := by
  obtain ⟨x, t, rfl⟩ := List.exists_cons_of_ne_nil hne
  have hslash : ¬ is_slash x := by
    have hterm := (is_name_unit_iff.1 (hname x List.mem_cons_self)).2
    rw [is_terminator_iff] at hterm
    rw [is_slash_iff]
    omega
  have hlength : (js "https").length = 5 := rfl
  have hscheme : k.input.drop 5 = unit ':' :: unit '/' :: unit '/' :: (x :: t ++ unit '/' :: rest) := by
    rw [hinput, ← hlength, List.drop_left]
  have hdrop : k.input.drop 6 = unit '/' :: unit '/' :: (x :: t ++ unit '/' :: rest) := (at_cons hscheme).2.2
  have hhost : k.input.drop 8 = x :: t ++ unit '/' :: rest := (at_cons (at_cons hdrop).2.2).2.2
  have huser : ∀ c ∈ x :: t, is_userinfo_unit c := by
    intro c hc
    have hunit := is_name_unit_iff.1 (hname c hc)
    exact is_userinfo_unit_iff.2 ⟨hunit.2, by omega⟩
  have hunits : ∀ c ∈ x :: t, is_host_unit c := by
    intro c hc
    have hunit := is_name_unit_iff.1 (hname c hc)
    refine is_host_unit_iff.2 ⟨hunit.2, ?_⟩
    rw [is_tab_or_newline_iff]
    omega
  have hstart := at_append hhost
  refine ⟨8 + (x :: t).length + 1, (at_cons hstart).2.2, (List.getElem?_eq_some_iff.1 (at_cons hstart).1).1, ?_⟩
  rw [run_https_scheme J hover hbase hinput, run_slashes J rfl hslash hdrop, run_rewind J false rfl huser hhost,
    run_host J false rfl hover hunits (scan_name hname) hne hhost, run_path_start J false false rfl hstart]

/-- Segments that are segments are what the path becomes, whatever the query is. -/
theorem run_whole_path {u : URL} {segs : List JsString} {query : JsString} {n : ℕ} (hover : k.state_override = none)
    (hne : segs ≠ []) (hsegs : ∀ s ∈ segs, Segment s) (hfile : u.scheme ≠ js "file")
    (hdrop : k.input.drop n = [unit '/'].intercalate segs ++ query) (hle : n ≤ k.input.length)
    (hvalid : u.is_invalid = false) (hfirst : query = [] ∨ ∃ q, query = unit '?' :: q) :
    (run J k ⟨u, .relative_path, n, [], false, false⟩).url.path = u.path ++ segs := by
  have hdrive : NoDrive u segs := fun h => hfile h.1
  have hlast := segment_before_tail J (k := k) false false hover (hsegs _ (List.getLast_mem hne))
    (no_drive_last hne hdrive) (n + ([unit '/'].intercalate segs).length)
  have hpath : u.path ++ segs.dropLast ++ [segs.getLast hne] = u.path ++ segs := by
    rw [List.append_assoc, List.dropLast_append_getLast]
  have hlen := congrArg List.length hdrop
  rw [List.length_drop, List.length_append] at hlen
  have hrest := at_append hdrop
  have hgo : goes_on k ⟨{ u with path := u.path ++ segs.dropLast }, .relative_path,
      n + ([unit '/'].intercalate segs).length, segs.getLast hne, false, false⟩ :=
    goes_on_iff.2 ⟨by dsimp only; omega, hvalid⟩
  rw [run_segments J segs false false hne hsegs hdrive hdrop hvalid, ← hpath]
  -- the last segment is in the buffer until the end, or until the query begins
  rcases hfirst with rfl | ⟨q, rfl⟩
  · obtain ⟨p, hstep, hurl⟩ := hlast.last (at_nil hrest)
    rw [run_last J hrest (goes_on_iff.1 hgo).1 hvalid hstep, hurl]
  · rw [run_advance hgo (hlast.query (at_cons hrest).1), run_query_path J (Or.inl rfl)]
    rfl

/-- What comes of the text of a URL with a host. -/
theorem parse_https {h rest query : JsString} (hname : ∀ c ∈ h, is_name_unit c) (hne : h ≠ [])
    (hunits : ∀ u ∈ rest, is_target_unit u) (hquery : ∀ u ∈ query, is_ascii u)
    (hfirst : query = [] ∨ ∃ q, query = unit '?' :: q) :
    ∃ u, parse J { input := https_text h (unit '/' :: rest) query } clear = ⟨u, none⟩ ∧ u.is_invalid = false
      ∧ u.is_relative = true ∧ u.host = J.to_lower_case h
      ∧ ((∀ s ∈ rest.splitOn (unit '/'), Segment s) → u.path = rest.splitOn (unit '/')) := by
  have hinput : https_text h (unit '/' :: rest) query
      = js "https" ++ unit ':' :: unit '/' :: unit '/' :: (h ++ unit '/' :: (rest ++ query)) := rfl
  obtain ⟨n, hdrop, hle, hrun⟩ :=
    run_https J (k := { input := https_text h (unit '/' :: rest) query }) rfl rfl hname hne hinput
  have hserved := run_past_host J (k := { input := https_text h (unit '/' :: rest) query }) rfl
    (ascii_https hname hunits hquery) (b := { bare (js "https") with host := J.to_lower_case h })
    (p := ⟨{ bare (js "https") with host := J.to_lower_case h }, .relative_path, n, [], false, false⟩)
    ⟨Or.inl rfl, ⟨rfl, rfl, rfl, rfl, rfl, rfl⟩, rfl⟩
  have hsome : rest.splitOn (unit '/') ≠ [] := List.splitOn_ne_nil _ _
  have hfile : js "https" ≠ js "file" := by decide
  have hsplit : (https_text h (unit '/' :: rest) query).drop n = [unit '/'].intercalate (rest.splitOn (unit '/')) ++ query := by
    rw [List.intercalate_splitOn]
    exact hdrop
  have hpath := fun hsegs => run_whole_path J (k := { input := https_text h (unit '/' :: rest) query })
    (u := { bare (js "https") with host := J.to_lower_case h }) rfl hsome hsegs hfile hsplit hle rfl hfirst
  rw [← hrun] at hserved hpath
  have hreturned := hserved.returned
  cases hout : run J { input := https_text h (unit '/' :: rest) query } { url := clear, state := .scheme_start } with
  | mk u thrown =>
    rw [hout] at hreturned hserved hpath
    have hparse : parse J { input := https_text h (unit '/' :: rest) query } clear = ⟨u, none⟩ := by
      rw [← hreturned]
      exact hout
    exact ⟨u, hparse, hserved.stays.is_invalid, hserved.relative, hserved.stays.host, hpath⟩

/-- A URL with a path has a host. -/
theorem host_of_https {path query : JsString} {o : JUrl} (hnew : new_url J (https_text [] path query) none = .ok o)
    (htrim : trim (https_text [] path query) = https_text [] path query) (hpath : o.url.pathname ≠ []) :
    o.url.hostname ≠ [] := by
  have hparse := new_url_eq hnew
  rw [htrim] at hparse
  have hrun := run_https_scheme J (k := { input := https_text [] path query }) rfl rfl rfl
  have hkeeps := run_keeps_scheme J (k := { input := https_text [] path query }) (s := js "https")
    (p := ⟨bare (js "https"), .authority_first_slash, 6, [], false, false⟩) le_rfl (Or.inl rfl)
  rw [← hrun] at hkeeps
  have hurl : KeepsScheme (js "https") o.url := by
    have heq : (run J { input := https_text [] path query } { url := clear, state := .scheme_start }).url = o.url :=
      congrArg Outcome.url hparse
    rw [← heq]
    exact hkeeps
  obtain ⟨hcanonical, -⟩ := (Constructed.new hnew).canonical
  -- an invalid URL has no path, and a valid one of the scheme `https` has a host
  rcases hurl with hscheme | hinvalid
  · have hrelative : is_relative_scheme o.url.scheme = true := by
      rw [hscheme]
      decide
    have hfile : o.url.scheme ≠ js "file" := by
      rw [hscheme]
      decide
    exact (hcanonical.network (hcanonical.is_relative hrelative) hfile).2.host_ne
  · rw [URL.pathname, if_pos hinvalid] at hpath
    exact absurd rfl hpath

/-- **What a URL of the web is read as.** The host and the path that `new URL` finds in `https://`, a
name or an IPv4 address, a path and a query are these, iff there is a host, in lower case, and nothing
of the path is rewritten. -/
theorem new_url_https_iff {h rest query : JsString} (hname : ∀ c ∈ h, is_name_unit c)
    (hunits : ∀ u ∈ rest, is_target_unit u) (hquery : ∀ u ∈ query, is_ascii u ∧ ¬ is_space u)
    (hfirst : query = [] ∨ ∃ q, query = unit '?' :: q) :
    (∃ o, new_url J (https_text h (unit '/' :: rest) query) none = .ok o ∧ o.url.hostname = h
        ∧ o.url.pathname = unit '/' :: rest)
      ↔ h ≠ [] ∧ J.to_lower_case h = h ∧ Kept (unit '/' :: rest) := by
  have htrim := trim_https hname hunits hquery
  constructor
  · rintro ⟨o, hnew, hhost, hpath⟩
    have hne : h ≠ [] := by
      rintro rfl
      exact host_of_https J hnew htrim (by rw [hpath]; simp) hhost
    obtain ⟨u, hparse, hvalid, hrel, hlower, -⟩ := parse_https J hname hne hunits (fun c hc => (hquery c hc).1) hfirst
    have hurl := new_url_eq hnew
    rw [htrim, hparse] at hurl
    obtain rfl : u = o.url := congrArg Outcome.url hurl
    refine ⟨hne, hlower.symm.trans hhost, (kept_iff hunits).2 ?_⟩
    -- what the parser writes are segments, and the path is made of them
    have hclean : Clean o.url := (Constructed.new hnew).canonical.1.clean
    rw [pathname_eq hvalid hrel] at hpath
    have hrest : [unit '/'].intercalate o.url.path = rest := (List.cons.inj hpath).2
    by_cases hnil : o.url.path = []
    · rw [hnil, List.intercalate_nil] at hrest
      rw [← hrest, List.splitOn_nil]
      intro s hs
      rw [List.mem_singleton.1 hs]
      exact Segment.empty
    · have hslash : ∀ s ∈ o.url.path, unit '/' ∉ s := by
        intro s hs hmem
        exact (is_path_unit_iff.1 ((hclean.path s hs).units _ hmem)).2 (by decide)
      rw [← hrest, List.splitOn_intercalate _ hslash hnil]
      exact hclean.path
  · rintro ⟨hne, hlower, hkept⟩
    obtain ⟨u, hparse, hvalid, hrel, hhost, hsegs⟩ := parse_https J hname hne hunits (fun c hc => (hquery c hc).1) hfirst
    refine ⟨⟨https_text h (unit '/' :: rest) query, u⟩, ?_, hhost.trans hlower, ?_⟩
    · rw [new_url, htrim, hparse]
    · change u.pathname = _
      rw [pathname_eq hvalid hrel, hsegs ((kept_iff hunits).1 hkept), List.intercalate_splitOn]

end Https

end Url

end RustyWorkers

/-
What the constructor of a `URL` makes (`jURL`, `librt/src/url.js`): the parser from
its first state, with or without a base.

There are two invariants, a layer each. `CleanInv` says that what is written so far is
clean and what is in the buffer is fit for the state; it needs a base that is clean
and no more. `Built` says which fields are written at all in a state and where the
host comes from: what stands before the first `/` and behind the last `@`. With a base
that is `Canonical`, so is what the parser makes of it.
-/
import RustyWorkers.UrlParts

set_option autoImplicit false

namespace RustyWorkers

open Lib

namespace Url

open RespondWith (JsString js)

/-! ## Nothing unclean is written -/

/-- What a state expects in the buffer. -/
def CleanBuffer (buffer : JsString) : State → Prop
  | .scheme => SchemeBuffer buffer
  | .authority => ∀ c ∈ buffer, is_userinfo_unit c
  | .host => ∀ c ∈ buffer, is_host_unit c
  | .hostname => ∀ c ∈ buffer, is_host_unit c
  | .file_host => ∀ c ∈ buffer, is_host_unit c
  | .relative_path => ∀ c ∈ buffer, is_path_unit c
  | .port => True
  | _ => buffer = []

attribute [local simp] CleanBuffer

structure CleanInv (p : Parser) : Prop where
  url : Clean p.url
  buffer : CleanBuffer p.buffer p.state
  query : p.state = .query → p.url.query ≠ []
  fragment : p.state = .fragment → p.url.fragment ≠ []

/-- Outside of the query and the fragment the URL and the buffer are all there is. -/
theorem CleanInv.of {p : Parser} (hu : Clean p.url) (hb : CleanBuffer p.buffer p.state) (hq : p.state ≠ .query)
    (hf : p.state ≠ .fragment) : CleanInv p := ⟨hu, hb, fun h => absurd h hq, fun h => absurd h hf⟩

theorem Clean.start_query {u : URL} (hu : Clean u) : Clean { u with query := js "?" } :=
  { hu with query := Or.inr ⟨[], rfl, by simp⟩ }

theorem Clean.start_fragment {u : URL} (hu : Clean u) : Clean { u with fragment := js "#" } :=
  { hu with fragment := Or.inr ⟨[], rfl, by simp⟩ }

theorem Clean.with_authority {u b : URL} (hu : Clean u) (hb : Clean b) : Clean (u.with_authority b) :=
  { hu with username := hb.username, password := hb.password, host := hb.host, port := hb.port }

theorem Clean.with_document {u b : URL} (hu : Clean u) (hb : Clean b) : Clean (u.with_document b) :=
  { hu.with_authority hb with path := hb.path, query := hb.query }

section Steps

variable (J : LowerCase) {k : Call} {p : Parser} (c : Option UInt16)

theorem clean_scheme (hover : k.state_override = none) (h : CleanInv p) (hs : p.state = .scheme) :
    (scheme J k.state_override k.base p c).Keeps CleanInv fun o => Clean o.url := by
  have hb : SchemeBuffer p.buffer := by simpa [hs] using h.buffer
  rw [scheme, hover]
  split
  · rename_i u hu
    refine CleanInv.of h.url ?_ (by simp [hs]) (by simp [hs])
    simpa [Parser.moved, hs] using hb.append J (Option.filter_eq_some_iff.1 hu).2
  split
  · rw [if_neg (by simp), keeps_advance]
    have hurl : Clean { p.url with scheme := p.buffer } := { h.url with scheme := hb.units }
    dsimp only [Parser.moved]
    refine CleanInv.of ?_ ?_ ?_ ?_
    · split
      · exact { hurl with }
      · exact hurl
    all_goals
      repeat' split
      all_goals simp
  · rw [if_pos rfl, keeps_again]
    exact CleanInv.of h.url rfl (by simp) (by simp)

theorem clean_scheme_data (h : CleanInv p) (hs : p.state = .scheme_data) :
    (scheme_data p c).Keeps CleanInv fun o => Clean o.url := by
  have hb : p.buffer = [] := by simpa [hs] using h.buffer
  rw [scheme_data]
  split
  · exact ⟨h.url.start_query, hb, by simp [js], by simp ⟩
  split
  · exact ⟨h.url.start_fragment, hb, by simp , by simp [js]⟩
  split
  · exact CleanInv.of h.url h.buffer (by simp [hs]) (by simp [hs])
  split
  · exact h.url
  · rename_i v hv _ e he
    refine CleanInv.of { h.url with scheme_data := ?_ } h.buffer (by simp [hs]) (by simp [hs])
    intro x hx
    rcases List.mem_append.1 hx with hx | hx
    · exact h.url.scheme_data x hx
    · rcases percent_escape_cases he with ⟨rfl, hplain⟩ | hesc
      · rw [List.mem_singleton.1 hx]
        exact hplain
      · exact (is_path_unit_iff.1 (is_path_unit_of_escape (hesc x hx))).1

theorem clean_relative (input : JsString) (hbase : ∀ b, k.base = some b → Clean b) (h : CleanInv p)
    (hs : p.state = .relative) : (relative_state input k.base p c).Keeps CleanInv fun o => Clean o.url := by
  have hb : p.buffer = [] := by simpa [hs] using h.buffer
  have hrel : Clean { p.url with is_relative := true } := { h.url with }
  rw [relative_state]
  dsimp only
  split
  · exact hrel
  rename_i url hurl
  have hclean : Clean url := by
    split at hurl
    · rw [← Option.some.inj hurl]
      exact hrel
    · obtain ⟨b, hsome, rfl⟩ := Option.map_eq_some_iff.1 hurl
      exact { hrel with scheme := (hbase b hsome).scheme }
  split
  · split
    · exact hclean
    · rename_i b hsome
      exact hclean.with_document (hbase b hsome)
  split
  · exact CleanInv.of hclean hb (by simp) (by simp)
  split
  · split
    · exact hclean
    · rename_i b hsome
      exact ⟨(hclean.with_document (hbase b hsome)).start_query, hb,
        by simp [js], by simp ⟩
  split
  · split
    · exact hclean
    · rename_i b hsome
      exact ⟨(hclean.with_document (hbase b hsome)).start_fragment, hb,
        by simp , by simp [js]⟩
  split
  · split
    · exact hclean
    · rename_i b hsome
      rw [keeps_again]
      refine CleanInv.of ?_ (by simp [hb]) (by simp) (by simp)
      exact { hclean.with_authority (hbase b hsome) with
        path := fun s hmem => (hbase b hsome).path s (List.mem_of_mem_dropLast hmem) }
  · exact CleanInv.of hclean (by simp [hb]) (by simp) (by simp)

theorem clean_relative_slash (hbase : ∀ b, k.base = some b → Clean b) (h : CleanInv p)
    (hs : p.state = .relative_slash) : (relative_slash k.base p c).Keeps CleanInv fun o => Clean o.url := by
  have hb : p.buffer = [] := by simpa [hs] using h.buffer
  have hunits : ∀ x ∈ p.buffer, is_host_unit x := by simp [hb]
  have hpath : ∀ x ∈ p.buffer, is_path_unit x := by simp [hb]
  unfold relative_slash
  split
  · split
    · exact CleanInv.of h.url hunits (by simp) (by simp)
    · exact CleanInv.of h.url hb (by simp) (by simp)
  split
  · exact CleanInv.of h.url hpath (by simp) (by simp)
  split
  · exact h.url
  · rename_i b hsome
    exact CleanInv.of (h.url.with_authority (hbase b hsome)) hpath (by simp) (by simp)

theorem clean_authority (h : CleanInv p) (hs : p.state = .authority) :
    (authority p c).Keeps CleanInv fun o => Clean o.url := by
  have hb : ∀ x ∈ p.buffer, is_userinfo_unit x := by simpa [hs] using h.buffer
  rw [authority]
  split
  · have hb' : ∀ x ∈ (if p.seen_at then p.buffer ++ js "%40" else p.buffer), is_userinfo_unit x := by
      have h40 : ∀ x ∈ js "%40", is_userinfo_unit x := List.all_eq_true.1 (by decide)
      intro x hx
      split at hx
      · exact (List.mem_append.1 hx).elim (hb x) (h40 x)
      · exact hb x hx
    obtain ⟨name, pass, heq, hname, hpass⟩ := set_credentials_eq _ p.url hb' h.url.username h.url.password
    have hclean : Clean (set_credentials (if p.seen_at then p.buffer ++ js "%40" else p.buffer) p.url).2 := by
      rw [heq]
      exact { h.url with username := hname, password := hpass }
    dsimp only
    split
    · rename_i url hcred
      rw [hcred] at hclean
      refine CleanInv.of hclean ?_ (by simp [hs]) (by simp [hs])
      simp [hs]
    · rename_i url hcred
      rw [hcred] at hclean
      exact hclean
  · rename_i hat
    split
    · rename_i u hu
      obtain ⟨hc, hterm⟩ := Option.filter_eq_some_iff.1 hu
      refine CleanInv.of h.url ?_ (by simp [hs]) (by simp [hs])
      simp only [moved_state, hs, CleanBuffer, moved_buffer]
      intro x hx
      rcases List.mem_append.1 hx with hx | hx
      · exact hb x hx
      · rw [List.mem_singleton.1 hx]
        simp only [is_userinfo_unit, hterm, Bool.true_and, decide_eq_true_eq, ne_eq]
        exact fun h => hat (by rw [hc, h])
    · exact CleanInv.of h.url (by simp) (by simp) (by simp)

/-- A letter and a colon or a bar can be a segment. -/
theorem path_units_of_drive {buffer : JsString} (h : is_drive buffer) : ∀ x ∈ buffer, is_path_unit x := by
  match buffer, h with
  | [u, v], h =>
    simp only [is_drive, Bool.and_eq_true, Bool.or_eq_true, decide_eq_true_eq] at h
    obtain ⟨hu, hv⟩ := h
    have hpath : is_path_unit u := by
      rw [is_alpha_iff] at hu
      rw [is_path_unit_iff, is_plain_path_iff, is_slash_iff]
      omega
    intro x hx
    simp only [List.mem_cons, List.not_mem_nil, or_false] at hx
    rcases hx with rfl | rfl
    · exact hpath
    · rcases hv with rfl | rfl <;> decide

theorem clean_file_host (h : CleanInv p) (hs : p.state = .file_host) :
    (file_host J p c).Keeps CleanInv fun o => Clean o.url := by
  have hb : ∀ x ∈ p.buffer, is_host_unit x := by simpa [hs] using h.buffer
  rw [file_host]
  split
  · rename_i u hu
    have hterm : ¬ is_terminator u := by simpa using (Option.filter_eq_some_iff.1 hu).2
    rw [keeps_advance]
    split
    · exact CleanInv.of h.url h.buffer (by simp [hs]) (by simp [hs])
    · rename_i htab
      refine CleanInv.of h.url ?_ (by simp [hs]) (by simp [hs])
      simpa only [moved_state, hs, CleanBuffer, moved_buffer] using host_units_append hb hterm htab
  split
  · rename_i hdrive
    exact CleanInv.of h.url (path_units_of_drive hdrive) (by simp) (by simp)
  split
  · rename_i hnil
    exact CleanInv.of h.url hnil (by simp) (by simp)
  · exact CleanInv.of (clean_set_host J h.url hb) rfl (by simp) (by simp)

theorem clean_host (hover : k.state_override = none) (h : CleanInv p) (hs : p.state = .host ∨ p.state = .hostname) :
    (host J k.state_override p c).Keeps CleanInv fun o => Clean o.url := by
  have hb : ∀ x ∈ p.buffer, is_host_unit x := by
    rcases hs with hs | hs <;> simpa [hs] using h.buffer
  have hhost : ∀ q : Parser, q.state = p.state → (∀ x ∈ q.buffer, is_host_unit x) → CleanBuffer q.buffer q.state := by
    intro q hq hx
    rw [hq]
    rcases hs with hs | hs <;> rw [hs] <;> exact hx
  have hstates : p.state ≠ .query ∧ p.state ≠ .fragment := by rcases hs with hs | hs <;> simp [hs]
  rw [host, hover]
  split
  · rw [if_neg (by simp)]
    exact CleanInv.of (clean_set_host J h.url hb) trivial (by simp) (by simp)
  split
  · rw [if_neg (by simp)]
    exact CleanInv.of (clean_set_host J h.url hb) rfl (by simp) (by simp)
  · rename_i u hu
    have hterm : ¬ is_terminator u := by simpa using (Option.filter_eq_some_iff.1 hu).2
    split
    · exact CleanInv.of h.url h.buffer hstates.1 hstates.2
    · rename_i htab
      exact CleanInv.of h.url (hhost _ rfl (host_units_append hb hterm htab)) hstates.1 hstates.2

theorem clean_port (hover : k.state_override = none) (h : CleanInv p) (hs : p.state = .port) :
    (port k.state_override p c).Keeps CleanInv fun o => Clean o.url := by
  rw [port, hover]
  split
  · exact CleanInv.of h.url (by simp [hs]) (by simp [hs]) (by simp [hs])
  split
  · rw [if_neg (by simp)]
    exact CleanInv.of (clean_with_port h.url p.buffer) rfl (by simp) (by simp)
  split
  · exact CleanInv.of h.url h.buffer (by simp [hs]) (by simp [hs])
  · exact CleanInv.of clean_invalid (by simp [hs]) (by simp [hs]) (by simp [hs])

theorem clean_relative_path (hover : k.state_override = none) (h : CleanInv p) (hs : p.state = .relative_path) :
    (relative_path J k.state_override p c).Keeps CleanInv fun o => Clean o.url := by
  have hb : ∀ x ∈ p.buffer, is_path_unit x := by simpa [hs] using h.buffer
  unfold relative_path
  rw [hover]
  split
  · obtain ⟨path, heq, hpath, -⟩ := push_segment_eq J (u := p.url) (c.any is_slash) h.url.path hb
    have hclean : Clean (p.url.push_segment J p.buffer (c.any is_slash)) := by
      rw [heq]
      exact { h.url with path := hpath }
    dsimp only
    split
    · exact ⟨hclean.start_query, rfl, by simp [js], by simp⟩
    split
    · exact ⟨hclean.start_fragment, rfl, by simp, by simp [js]⟩
    · exact CleanInv.of hclean (by simp [hs]) (by simp [hs]) (by simp [hs])
  · rename_i u hu
    have hslash : ¬ is_slash u := by
      have hfilter := (Option.filter_eq_some_iff.1 hu).2
      simp only [Bool.not_eq_true', Bool.or_eq_false_iff] at hfilter
      simp [hfilter.1]
    split
    · exact CleanInv.of h.url h.buffer (by simp [hs]) (by simp [hs])
    split
    · exact h.url
    · rename_i e he
      refine CleanInv.of h.url ?_ (by simp [hs]) (by simp [hs])
      simpa only [moved_state, hs, CleanBuffer, moved_buffer] using path_units_append hb hslash he

theorem clean_query (hover : k.state_override = none) (h : CleanInv p) (hs : p.state = .query) :
    (query k.state_override p c).Keeps CleanInv fun o => Clean o.url := by
  have hb : p.buffer = [] := by simpa [hs] using h.buffer
  rw [query, hover]
  split
  · exact ⟨h.url.start_fragment, hb, by simp, by simp [js]⟩
  split
  · exact ⟨h.url, h.buffer, h.query, h.fragment⟩
  split
  · exact h.url
  · rename_i v hv _ e he
    obtain ⟨q, hq, hplain⟩ := h.url.query.resolve_left (h.query hs)
    refine ⟨{ h.url with query := Or.inr ⟨q ++ e, by simp [hq], ?_⟩ }, h.buffer, by simp [hq], by simp [hs]⟩
    intro x hx
    rcases List.mem_append.1 hx with hx | hx
    · exact hplain x hx
    · rcases percent_escape_query_cases he with ⟨rfl, hv⟩ | hesc
      · rw [List.mem_singleton.1 hx]
        exact hv
      · exact is_plain_query_of_escape (hesc x hx)

theorem clean_fragment (h : CleanInv p) (hs : p.state = .fragment) :
    (fragment p c).Keeps CleanInv fun o => Clean o.url := by
  rw [fragment]
  split
  · exact ⟨h.url, h.buffer, h.query, h.fragment⟩
  · rename_i v hv
    have htab := (Option.filter_eq_some_iff.1 hv).2
    obtain ⟨f, hf, hunits⟩ := h.url.fragment.resolve_left (h.fragment hs)
    refine ⟨{ h.url with fragment := Or.inr ⟨f ++ [v], by simp [hf], ?_⟩ }, h.buffer, by simp [hs], by simp [hf]⟩
    intro x hx
    rcases List.mem_append.1 hx with hx | hx
    · exact hunits x hx
    · rw [List.mem_singleton.1 hx]
      simpa using htab

theorem clean_step (hover : k.state_override = none) (hbase : ∀ b, k.base = some b → Clean b) (h : CleanInv p) :
    (step J k p).Keeps CleanInv fun o => Clean o.url := by
  have hnil : p.state ∈ [State.no_scheme, .relative_or_authority, .authority_first_slash, .authority_second_slash,
      .authority_ignore_slashes, .relative_path_start, .scheme_start] → p.buffer = [] := by
    intro hmem
    have hb := h.buffer
    simp only [List.mem_cons, List.not_mem_nil, or_false] at hmem
    rcases hmem with hs | hs | hs | hs | hs | hs | hs <;> simpa [hs] using hb
  cases hs : p.state <;> simp only [step, hs]
  case scheme_start =>
    rw [scheme_start, hover]
    split
    · rename_i u hu
      refine CleanInv.of h.url ?_ (by simp) (by simp)
      simpa [hnil (by simp [hs])] using SchemeBuffer.start J (Option.filter_eq_some_iff.1 hu).2
    · exact CleanInv.of h.url rfl (by simp) (by simp)
  case scheme => exact clean_scheme J _ hover h hs
  case scheme_data => exact clean_scheme_data _ h hs
  case no_scheme =>
    rw [no_scheme]
    split
    · exact CleanInv.of h.url (hnil (by simp [hs])) (by simp) (by simp)
    · exact CleanInv.of clean_invalid h.buffer (by simp [hs]) (by simp [hs])
  case relative_or_authority =>
    rw [relative_or_authority]
    split <;> exact CleanInv.of h.url (hnil (by simp [hs])) (by simp) (by simp)
  case relative => exact clean_relative _ _ hbase h hs
  case relative_slash => exact clean_relative_slash _ hbase h hs
  case authority_first_slash =>
    rw [authority_first_slash]
    split <;> exact CleanInv.of h.url (hnil (by simp [hs])) (by simp) (by simp)
  case authority_second_slash =>
    rw [authority_second_slash]
    split <;> exact CleanInv.of h.url (hnil (by simp [hs])) (by simp) (by simp)
  case authority_ignore_slashes =>
    have hb := hnil (by simp [hs])
    rw [authority_ignore_slashes]
    split
    · exact CleanInv.of h.url h.buffer (by simp [hs]) (by simp [hs])
    · exact CleanInv.of h.url (by simp [hb]) (by simp) (by simp)
  case authority => exact clean_authority _ h hs
  case file_host => exact clean_file_host J _ h hs
  case host => exact clean_host J _ hover h (Or.inl hs)
  case hostname => exact clean_host J _ hover h (Or.inr hs)
  case port => exact clean_port _ hover h hs
  case relative_path_start =>
    have hb := hnil (by simp [hs])
    rw [relative_path_start]
    split <;> exact CleanInv.of h.url (by simp [hb]) (by simp) (by simp)
  case relative_path => exact clean_relative_path J _ hover h hs
  case query => exact clean_query _ hover h hs
  case fragment => exact clean_fragment _ h hs

end Steps

/-- Whatever the input, and also if it throws, what is written is clean. -/
theorem parse_clean (J : LowerCase) (input : JsString) {b : Option URL} (hbase : ∀ u, b = some u → Clean u) :
    Clean (parse J { input := input, base := b } clear).url := by
  refine run_rule (I := CleanInv) (Q := fun o => Clean o.url) ?_ ?_ ?_
  · exact fun p h _ => h.url
  · exact fun p h _ => clean_step J rfl hbase h
  · exact CleanInv.of clean_clear rfl (by simp) (by simp)

/-! ## What a URL is made of

The parts that a host of the form `name:port` has; `seen` is whether a bracket is open. -/

def bracket (seen : Bool) (u : UInt16) : Bool := if u = unit '[' then true else if u = unit ']' then false else seen

/-- Whether a bracket is open at the end, `none` if a colon ends the host before. -/
def scan : Bool → JsString → Option Bool
  | seen, [] => some seen
  | seen, u :: rest => if u = unit ':' ∧ !seen then none else scan (bracket seen u) rest

theorem scan_append (seen : Bool) (b c : JsString) :
    scan seen (b ++ c) = (scan seen b).bind fun seen' => scan seen' c := by
  induction b generalizing seen with
  | nil => rfl
  | cons v rest ih =>
      rw [List.cons_append, scan, scan]
      split
      · rfl
      · exact ih (bracket seen v)

/-- Only separators matter. -/
theorem scan_filter (seen : Bool) (s : JsString) : scan seen (s.filter is_separator) = scan seen s := by
  induction s generalizing seen with
  | nil => rfl
  | cons u rest ih =>
      by_cases hu : is_separator u
      · rw [List.filter_cons_of_pos hu, scan, scan]
        split
        · rfl
        · exact ih (bracket seen u)
      · have hcolon : u ≠ unit ':' := fun h => hu (by rw [h]; decide)
        have hopen : u ≠ unit '[' := fun h => hu (by rw [h]; decide)
        have hclose : u ≠ unit ']' := fun h => hu (by rw [h]; decide)
        have hbracket : bracket seen u = seen := by rw [bracket, if_neg hopen, if_neg hclose]
        rw [List.filter_cons_of_neg hu, scan, if_neg fun h => hcolon h.1, hbracket]
        exact ih seen

theorem scan_lower (J : LowerCase) (seen : Bool) (s : JsString) : scan seen (J.to_lower_case s) = scan seen s := by
  rw [← scan_filter, J.separators, scan_filter]

/-- The host is one, and is not cut shorter where the port begins. -/
structure AuthorityOk (u : URL) : Prop where
  host_ne : u.host ≠ []
  no_at : unit '@' ∉ u.host
  scan : ∃ seen, scan false u.host = some seen ∧ (u.port ≠ [] → seen = false)
  port : u.port = [] ∨ ∃ n, u.port = port_text n ∧ relative u.scheme ≠ some (NumberText.nearest n)

/-- A scheme that has a host. -/
structure Network (s : JsString) : Prop where
  buffer : SchemeBuffer s
  relative : is_relative_scheme s
  not_file : s ≠ js "file"

/-- What the constructor makes, if its base is one of these. -/
structure Canonical (J : LowerCase) (u : URL) : Prop where
  clean : Clean u
  lower : J.to_lower_case u.host = u.host
  invalid_eq : u.is_invalid = true → u = invalid
  scheme : u.is_invalid = false → SchemeBuffer u.scheme
  absolute : u.is_invalid = false → u.is_relative = false → is_relative_scheme u.scheme = false ∧
    u = { clear with scheme := u.scheme, scheme_data := u.scheme_data, query := u.query, fragment := u.fragment }
  relative : u.is_relative = true → is_relative_scheme u.scheme ∧ u.scheme_data = []
  network : u.is_relative = true → u.scheme ≠ js "file" → u.path ≠ [] ∧ AuthorityOk u

theorem Canonical.valid {J : LowerCase} {u : URL} (h : Canonical J u) (hrel : u.is_relative = true) :
    u.is_invalid = false := by
  by_contra hinvalid
  rw [h.invalid_eq (by simpa using hinvalid)] at hrel
  exact absurd hrel (by simp [invalid, clear])

/-- A URL whose scheme is one of relative URLs is relative. -/
theorem Canonical.is_relative {J : LowerCase} {u : URL} (h : Canonical J u) (hs : is_relative_scheme u.scheme) :
    u.is_relative = true := by
  have hvalid : u.is_invalid = false := by
    by_contra hinvalid
    rw [h.invalid_eq (by simpa using hinvalid)] at hs
    exact absurd hs (by decide)
  by_contra hrel
  rw [(h.absolute hvalid (by simpa using hrel)).1] at hs
  exact absurd hs (by simp)

theorem canonical_invalid (J : LowerCase) : Canonical J invalid := by
  refine ⟨clean_invalid, J.ascii [] (by simp), fun _ => rfl, ?_, ?_, ?_, ?_⟩ <;> intro h <;>
    exact absurd h (by simp [invalid, clear])

/-! ### What is written in a state -/

/-- Nothing but a scheme. -/
def bare (s : JsString) : URL := { clear with scheme := s, is_relative := true }

@[simp] theorem bare_scheme (s : JsString) : (bare s).scheme = s := rfl

@[simp] theorem bare_is_relative (s : JsString) : (bare s).is_relative = true := rfl

@[simp] theorem bare_is_invalid (s : JsString) : (bare s).is_invalid = false := rfl

def with_credentials (s name : JsString) (pass : Option JsString) : URL :=
  { bare s with username := name, password := pass }

/-- All but the path, the query and the fragment. -/
structure Located (J : LowerCase) (u : URL) : Prop where
  is_relative : u.is_relative = true
  buffer : SchemeBuffer u.scheme
  relative : is_relative_scheme u.scheme
  scheme_data : u.scheme_data = []
  lower : J.to_lower_case u.host = u.host
  authority : u.scheme ≠ js "file" → AuthorityOk u

/-- A relative URL with a path, or one that is not relative. -/
def Pathed (J : LowerCase) (u : URL) : Prop :=
  (Located J u ∧ (u.scheme ≠ js "file" → u.path ≠ [])) ∨
    (SchemeBuffer u.scheme ∧ is_relative_scheme u.scheme = false ∧
      u = { clear with scheme := u.scheme, scheme_data := u.scheme_data, query := u.query, fragment := u.fragment })

/-- The units up to the end of the authority. -/
def ahead (k : Call) (p : Parser) : JsString := (k.input.drop p.cursor).takeWhile fun c => !is_terminator c

/-- A fragment ends in a space only where the input does. -/
def LastSpace (k : Call) (p : Parser) : Prop :=
  ∀ c, p.url.fragment.getLast? = some c → is_space c → ∃ y, (k.input.take p.cursor).getLast? = some y ∧ is_space y

def BuiltState (J : LowerCase) (k : Call) (p : Parser) : State → Prop
  | .scheme_start => p.url = clear
  | .scheme => p.url = clear
  | .no_scheme => p.url = clear
  | .scheme_data => ∃ s d, p.url = { clear with scheme := s, scheme_data := d } ∧ SchemeBuffer s ∧
      is_relative_scheme s = false
  | .relative_or_authority => ∃ b, k.base = some b ∧ p.url = bare b.scheme ∧ Network b.scheme
  | .relative => p.url = bare (js "file") ∨
      ∃ b, k.base = some b ∧ is_relative_scheme b.scheme ∧ (p.url = clear ∨ p.url = bare b.scheme)
  | .relative_slash => p.url = bare (js "file") ∨ ∃ b, k.base = some b ∧ Network b.scheme ∧ p.url = bare b.scheme
  | .authority_first_slash => ∃ s, p.url = bare s ∧ Network s
  | .authority_second_slash => ∃ s, p.url = bare s ∧ Network s
  | .authority_ignore_slashes => ∃ s, p.url = bare s ∧ Network s
  | .authority => (∃ s name pass, p.url = with_credentials s name pass ∧ Network s) ∧
      ∃ pre, k.input.take p.cursor = pre ++ p.buffer
  | .host => (∃ s name pass, p.url = with_credentials s name pass ∧ Network s) ∧ unit '@' ∉ ahead k p ∧
      unit '@' ∉ p.buffer ∧ scan false p.buffer = some p.seen_bracket
  | .hostname => False
  | .port => (∃ s name pass h, p.url = { with_credentials s name pass with host := h } ∧ Network s ∧
      h ≠ [] ∧ unit '@' ∉ h ∧ scan false h = some false ∧ J.to_lower_case h = h)
  | .file_host => p.url = bare (js "file")
  | .relative_path_start => Located J p.url ∧ p.url.query = [] ∧ p.url.fragment = []
  | .relative_path => Located J p.url ∧ p.url.query = [] ∧ p.url.fragment = []
  | .query => Pathed J p.url ∧ p.url.fragment = []
  | .fragment => Pathed J p.url ∧ LastSpace k p

structure Built (J : LowerCase) (k : Call) (p : Parser) : Prop where
  invalid_eq : p.url.is_invalid = true → p.url = invalid
  state : p.url.is_invalid = false → BuiltState J k p p.state
  ends : p.url.is_invalid = false → k.input.length < p.cursor →
    p.state ∈ [State.scheme_data, .query, .fragment] ∨ (p.state = .relative_path ∧ p.url.path ≠ [])

/-! ### One step -/

/-- No bracket is open before the host. -/
def Closed (p : Parser) : Prop := 5 ≤ rank p.state → p.seen_bracket = false

/-- From the host on the rank is too low. -/
theorem step_low (J : LowerCase) (k : Call) {p : Parser} (h : rank p.state < 5) :
    (step J k p).Keeps Closed fun _ => True := by
  have hdec := step_decreases J k p
  cases hstep : step J k p with
  | stop u => trivial
  | throw e u => trivial
  | advance q =>
      rw [hstep, decreases_advance] at hdec
      rw [keeps_advance]
      exact fun h5 => absurd h5 (by rw [moved_state]; omega)
  | again q =>
      rw [hstep, decreases_again] at hdec
      rw [keeps_again]
      exact fun h5 => absurd h5 (by omega)

theorem step_closed (J : LowerCase) (k : Call) {p : Parser} (h : Closed p) :
    (step J k p).Keeps Closed fun _ => True := by
  by_cases hlow : rank p.state < 5
  · exact step_low J k hlow
  have hclosed := h (by omega)
  cases hs : p.state
  case host => exact absurd (by simp [hs, rank] : rank p.state < 5) hlow
  case hostname => exact absurd (by simp [hs, rank] : rank p.state < 5) hlow
  all_goals
    simp only [step, hs, scheme_start, scheme, no_scheme, relative_or_authority, relative_state, relative_slash,
      authority_first_slash, authority_second_slash, authority_ignore_slashes, authority, scheme_data, file_host,
      port, relative_path_start, relative_path, query, fragment]
    repeat' split
  all_goals simp [Next.Keeps, Closed, hclosed]

theorem Built.of_invalid {J : LowerCase} {k : Call} {p : Parser} (h : p.url = invalid) : Built J k p := by
  have hi : p.url.is_invalid = true := by rw [h]; rfl
  refine ⟨fun _ => h, fun hv => ?_, fun hv => ?_⟩ <;> exact absurd (hi.symm.trans hv) (by simp)

/-- Before the end of the input. -/
theorem Built.of {J : LowerCase} {k : Call} {p : Parser} (hvalid : p.url.is_invalid = false)
    (hcursor : p.cursor ≤ k.input.length) (hs : BuiltState J k p p.state) : Built J k p := by
  refine ⟨fun hi => absurd (hvalid.symm.trans hi) (by simp), fun _ => hs, fun _ hlt => ?_⟩
  exact absurd hcursor (by omega)

/-- At a unit the cursor stays in the input. -/
theorem Built.advance {J : LowerCase} {k : Call} {p q : Parser} {u : UInt16} (hc : k.input[p.cursor]? = some u)
    (hcursor : q.cursor = p.cursor) (hvalid : q.url.is_invalid = false) (hs : BuiltState J k q.moved q.state) :
    Built J k q.moved := by
  have hlt : p.cursor < k.input.length := (List.getElem?_eq_some_iff.1 hc).1
  refine Built.of hvalid ?_ hs
  rw [moved_cursor, hcursor]
  omega

/-- These states also move on from the end. -/
theorem Built.at_end {J : LowerCase} {k : Call} {p : Parser} (hvalid : p.url.is_invalid = false)
    (hend : p.state ∈ [State.scheme_data, .query, .fragment] ∨ (p.state = .relative_path ∧ p.url.path ≠ []))
    (hs : BuiltState J k p p.state) : Built J k p :=
  ⟨fun hi => absurd (hvalid.symm.trans hi) (by simp), fun _ => hs, fun _ _ => hend⟩

theorem LastSpace.nil {k : Call} {p : Parser} (h : p.url.fragment = []) : LastSpace k p := by
  intro c hc
  rw [h] at hc
  exact absurd hc (by simp)

theorem LastSpace.hash {k : Call} {p : Parser} (h : p.url.fragment = js "#") : LastSpace k p := by
  have hjs : js "#" = [unit '#'] := rfl
  intro c hc hspace
  rw [h, hjs, List.getLast?_singleton, Option.some.injEq] at hc
  rw [← hc] at hspace
  exact absurd hspace (by decide)

/-- The fragment has no space at its end if the input has none. -/
def Trimmed (k : Call) (u : URL) : Prop :=
  (∀ y, k.input.getLast? = some y → ¬ is_space y) → ∀ c, u.fragment.getLast? = some c → ¬ is_space c

/-- The end of the loop: what does not throw makes a canonical URL. -/
def Finished (J : LowerCase) (k : Call) (o : Outcome) : Prop :=
  o.thrown = none → Clean o.url → Canonical J o.url ∧ Trimmed k o.url

theorem trimmed_nil {k : Call} {u : URL} (h : u.fragment = []) : Trimmed k u := by
  intro _ c hc
  rw [h] at hc
  exact absurd hc (by simp)

theorem Located.valid_of {J : LowerCase} {u : URL} (h : Located J u) (hclean : Clean u) (hvalid : u.is_invalid = false)
    (hpath : u.scheme ≠ js "file" → u.path ≠ []) : Canonical J u where
  clean := hclean
  lower := h.lower
  invalid_eq hi := absurd (hvalid.symm.trans hi) (by simp)
  scheme _ := h.buffer
  absolute _ hrel := absurd (h.is_relative.symm.trans hrel) (by simp)
  relative _ := ⟨h.relative, h.scheme_data⟩
  network _ hs := ⟨hpath hs, h.authority hs⟩

theorem Pathed.canonical {J : LowerCase} {u : URL} (h : Pathed J u) (hclean : Clean u) (hvalid : u.is_invalid = false) :
    Canonical J u := by
  rcases h with ⟨h, hpath⟩ | ⟨hs, hrel, heq⟩
  · exact h.valid_of hclean hvalid hpath
  · have hnot : u.is_relative = false := by rw [heq]; rfl
    have hhost : u.host = [] := by rw [heq]; rfl
    refine ⟨hclean, ?_, fun hi => absurd (hvalid.symm.trans hi) (by simp), fun _ => hs, fun _ _ => ⟨hrel, heq⟩, ?_, ?_⟩
    · rw [hhost]
      exact J.ascii [] (by simp)
    · exact fun h => absurd (hnot.symm.trans h) (by simp)
    · exact fun h => absurd (hnot.symm.trans h) (by simp)

theorem Built.finished {J : LowerCase} {k : Call} {p : Parser} (h : Built J k p) (hclean : Clean p.url)
    (hend : ¬ goes_on k p) : Canonical J p.url ∧ Trimmed k p.url := by
  by_cases hi : p.url.is_invalid = true
  · rw [h.invalid_eq hi]
    exact ⟨canonical_invalid J, trimmed_nil rfl⟩
  have hvalid : p.url.is_invalid = false := by simpa using hi
  have hcursor : k.input.length < p.cursor := by
    by_contra hle
    exact hend (goes_on_iff.2 ⟨by omega, hvalid⟩)
  have hstate := h.state hvalid
  rcases h.ends hvalid hcursor with hmem | ⟨hs, hpath⟩
  · simp only [List.mem_cons, List.not_mem_nil, or_false] at hmem
    rcases hmem with hs | hs | hs
    · rw [hs] at hstate
      obtain ⟨s, d, heq, hbuf, hrel⟩ := hstate
      refine ⟨Pathed.canonical (Or.inr ?_) hclean hvalid, trimmed_nil (by rw [heq]; rfl)⟩
      rw [heq]
      exact ⟨hbuf, hrel, rfl⟩
    · rw [hs] at hstate
      exact ⟨hstate.1.canonical hclean hvalid, trimmed_nil hstate.2⟩
    · rw [hs] at hstate
      refine ⟨hstate.1.canonical hclean hvalid, fun hinput c hc hspace => ?_⟩
      obtain ⟨y, hy, hyspace⟩ := hstate.2 c hc hspace
      rw [List.take_of_length_le hcursor.le] at hy
      exact hinput y hy hyspace
  · rw [hs] at hstate
    exact ⟨hstate.1.valid_of hclean hvalid fun _ => hpath, trimmed_nil hstate.2.2⟩

section BuiltSteps

variable (J : LowerCase) {k : Call} {p : Parser}

theorem built_scheme (hover : k.state_override = none) (hclean : CleanInv p) (hu : p.url = clear) (hs : p.state = .scheme) :
    (scheme J k.state_override k.base p k.input[p.cursor]?).Keeps (Built J k) (Finished J k) := by
  have hb : SchemeBuffer p.buffer := by simpa [hs] using hclean.buffer
  rw [scheme, hover]
  split
  · rename_i u hc
    exact Built.advance (Option.filter_eq_some_iff.1 hc).1 rfl (by rw [hu]; rfl) (by simp [BuiltState, hs, hu])
  split
  · rename_i hc
    rw [if_neg (by simp), keeps_advance, hu]
    dsimp only
    by_cases hrel : is_relative_scheme p.buffer
    · have hbare : ({ clear with scheme := p.buffer, is_relative := true } : URL) = bare p.buffer := rfl
      rw [if_pos hrel, hbare]
      by_cases hfile : (bare p.buffer).scheme = js "file"
      · have hname : p.buffer = js "file" := hfile
        rw [if_pos hfile]
        exact Built.advance hc rfl rfl (Or.inl (by rw [moved_url, hname]))
      rw [if_neg hfile]
      by_cases hsame : k.base.any fun b => b.scheme = (bare p.buffer).scheme
      · obtain ⟨b, hsome, hb'⟩ := (Option.any_eq_true ..).1 hsame
        have hscheme : b.scheme = p.buffer := of_decide_eq_true hb'
        rw [if_pos ⟨rfl, hsame⟩]
        exact Built.advance hc rfl rfl ⟨b, hsome, by rw [moved_url, hscheme], hscheme ▸ ⟨hb, hrel, hfile⟩⟩
      · rw [if_neg fun h => hsame h.2, if_pos (bare_is_relative p.buffer)]
        exact Built.advance hc rfl rfl ⟨p.buffer, rfl, hb, hrel, hfile⟩
    · have hfile : p.buffer ≠ js "file" := fun h => hrel (by rw [h]; decide)
      rw [if_neg hrel, if_neg hfile, if_neg (by simp [clear]), if_neg (by simp [clear])]
      exact Built.advance hc rfl rfl ⟨p.buffer, [], rfl, hb, by simpa using hrel⟩
  · rw [if_pos rfl, keeps_again]
    exact Built.of (by rw [hu]; rfl) (Nat.zero_le _) hu

theorem built_scheme_data (hs : p.state = .scheme_data) {s d : JsString}
    (hu : p.url = { clear with scheme := s, scheme_data := d }) (hb : SchemeBuffer s)
    (hrel : is_relative_scheme s = false) :
    (scheme_data p k.input[p.cursor]?).Keeps (Built J k) (Finished J k) := by
  have hvalid : p.url.is_invalid = false := by rw [hu]; rfl
  have hpathed : ∀ q f : JsString, Pathed J { p.url with query := q, fragment := f } := fun q f => by
    rw [hu]
    exact Or.inr ⟨hb, hrel, rfl⟩
  have hpathed' : ∀ q : JsString, Pathed J { p.url with query := q } := fun q => by
    rw [hu]
    exact Or.inr ⟨hb, hrel, rfl⟩
  have hpathed'' : ∀ f : JsString, Pathed J { p.url with fragment := f } := fun f => by
    rw [hu]
    exact Or.inr ⟨hb, hrel, rfl⟩
  rw [scheme_data]
  split
  · rename_i hc
    exact Built.advance hc rfl hvalid ⟨hpathed' _, by rw [moved_url, hu]; rfl⟩
  split
  · rename_i hc
    exact Built.advance hc rfl hvalid ⟨hpathed'' _, LastSpace.hash rfl⟩
  split
  · refine Built.at_end hvalid (Or.inl (by simp [hs])) ?_
    rw [moved_state, hs]
    exact ⟨s, d, hu, hb, hrel⟩
  split
  · exact fun h => absurd h (by simp)
  · rename_i e he
    refine Built.at_end hvalid (Or.inl (by simp [hs])) ?_
    simp only [moved_state, hs]
    exact ⟨s, d ++ e, by rw [moved_url, hu], hb, hrel⟩

/-- What a reference takes from a canonical base. -/
theorem Located.of_base {b u : URL} (hb : Canonical J b) (hrel : is_relative_scheme b.scheme)
    (hu : u.is_relative = true) (hs : u.scheme = b.scheme) (hd : u.scheme_data = []) (hh : u.host = b.host)
    (hp : u.port = b.port) : Located J u := by
  have hbrel := hb.is_relative hrel
  refine ⟨hu, ?_, ?_, hd, ?_, ?_⟩
  · rw [hs]
    exact hb.scheme (hb.valid hbrel)
  · rw [hs]
    exact hrel
  · rw [hh]
    exact hb.lower
  · intro hfile
    rw [hs] at hfile
    have hauth := (hb.network hbrel hfile).2
    refine ⟨?_, ?_, ?_, ?_⟩
    · rw [hh]
      exact hauth.host_ne
    · rw [hh]
      exact hauth.no_at
    · rw [hh, hp]
      exact hauth.scan
    · rw [hp, hs]
      exact hauth.port

theorem file_buffer : SchemeBuffer (js "file") := by
  have hjs : js "file" = unit 'f' :: js "ile" := rfl
  refine ⟨List.all_eq_true.1 (by decide), by decide, fun c hc => ?_⟩
  rw [hjs, List.head?_cons, Option.some.injEq] at hc
  rw [← hc]
  decide

/-- A URL of the scheme `file` needs no more than a host in lower case. -/
theorem Located.file {u : URL} (hu : u.is_relative = true) (hs : u.scheme = js "file") (hd : u.scheme_data = [])
    (hh : J.to_lower_case u.host = u.host) : Located J u := by
  refine ⟨hu, ?_, ?_, hd, hh, fun h => absurd hs h⟩
  · rw [hs]
    exact file_buffer
  · rw [hs]
    decide

/-- The scheme of a relative reference: `file`, or that of the base. -/
def ReferenceScheme (k : Call) (t : JsString) : Prop :=
  t = js "file" ∨ ∃ b, k.base = some b ∧ t = b.scheme ∧ is_relative_scheme b.scheme

theorem ReferenceScheme.located {t : JsString} (ht : ReferenceScheme k t)
    (hbase : ∀ b, k.base = some b → Canonical J b) {b u : URL} (hb : k.base = some b) (hu : u.is_relative = true)
    (hs : u.scheme = t) (hd : u.scheme_data = []) (hh : u.host = b.host) (hp : u.port = b.port) : Located J u := by
  rcases ht with rfl | ⟨b', hb', rfl, hrel⟩
  · exact Located.file J hu hs hd (by rw [hh]; exact (hbase b hb).lower)
  · have heq : b' = b := Option.some.inj (hb'.symm.trans hb)
    rw [heq] at hs hrel
    exact Located.of_base J (hbase b hb) hrel hu hs hd hh hp

theorem ReferenceScheme.path_ne {t : JsString} (ht : ReferenceScheme k t)
    (hbase : ∀ b, k.base = some b → Canonical J b) {b : URL} (hb : k.base = some b) (hfile : t ≠ js "file") :
    b.path ≠ [] := by
  obtain ⟨b', hb', rfl, hrel⟩ := ht.resolve_left hfile
  have heq : b' = b := Option.some.inj (hb'.symm.trans hb)
  rw [heq] at hfile hrel
  exact ((hbase b hb).network ((hbase b hb).is_relative hrel) hfile).1

/-- The first thing that the state does is to settle the scheme. -/
theorem reference_scheme (hu : BuiltState J k p .relative) :
    ∃ t, (if p.url.scheme = js "file" then some { p.url with is_relative := true }
      else k.base.map fun b => { p.url with is_relative := true, scheme := b.scheme }) = some (bare t) ∧
        ReferenceScheme k t := by
  rcases hu with hu | ⟨b, hb, hrel, hu | hu⟩
  · rw [hu, if_pos (bare_scheme _)]
    exact ⟨js "file", rfl, Or.inl rfl⟩
  · rw [hu, if_neg (by decide), hb]
    exact ⟨b.scheme, rfl, Or.inr ⟨b, hb, rfl, hrel⟩⟩
  · rw [hu]
    split
    · exact ⟨b.scheme, rfl, Or.inr ⟨b, hb, rfl, hrel⟩⟩
    · rw [hb]
      exact ⟨b.scheme, rfl, Or.inr ⟨b, hb, rfl, hrel⟩⟩

theorem built_relative (hbase : ∀ b, k.base = some b → Canonical J b) (hcursor : p.cursor ≤ k.input.length)
    (hu : BuiltState J k p .relative) :
    (relative_state k.input k.base p k.input[p.cursor]?).Keeps (Built J k) (Finished J k) := by
  obtain ⟨t, hurl, ht⟩ := reference_scheme J hu
  have hlocated : ∀ b, k.base = some b → ∀ path q f : _, Located J
      { (bare t).with_authority b with path := path, query := q, fragment := f } := fun b hb _ _ _ =>
    ht.located J hbase hb rfl rfl rfl rfl rfl
  have hpathed : ∀ b, k.base = some b → ∀ q f : _, Pathed J
      { (bare t).with_authority b with path := b.path, query := q, fragment := f } := fun b hb q f => by
    have hpath : t ≠ js "file" → b.path ≠ [] := ht.path_ne J hbase hb
    exact Or.inl ⟨hlocated b hb _ q f, hpath⟩
  rw [relative_state]
  dsimp only
  rw [hurl]
  dsimp only
  split
  · split
    · exact fun h => absurd h (by simp)
    · rename_i b hb
      exact fun _ hclean => ⟨(hpathed b hb b.query []).canonical hclean rfl, trimmed_nil rfl⟩
  rename_i u hc
  split
  · refine Built.advance hc rfl rfl ?_
    by_cases hfile : t = js "file"
    · exact Or.inl (congrArg bare hfile)
    · obtain ⟨b, hb, htb, hrel⟩ := ht.resolve_left hfile
      have hbrel := (hbase b hb).is_relative hrel
      exact Or.inr ⟨b, hb, ⟨(hbase b hb).scheme ((hbase b hb).valid hbrel), hrel, htb ▸ hfile⟩, congrArg bare htb⟩
  split
  · split
    · exact fun h => absurd h (by simp)
    · rename_i b hb
      exact Built.advance hc rfl rfl ⟨hpathed b hb (js "?") [], rfl⟩
  split
  · split
    · exact fun h => absurd h (by simp)
    · rename_i b hb
      exact Built.advance hc rfl rfl ⟨hpathed b hb b.query (js "#"), LastSpace.hash rfl⟩
  split
  · split
    · exact fun h => absurd h (by simp)
    · rename_i b hb
      exact Built.of rfl hcursor ⟨hlocated b hb b.path.dropLast [] [], rfl, rfl⟩
  · rename_i hdrive
    have hfile : t = js "file" := by
      by_contra hne
      exact hdrive (Or.inl hne)
    have hnil : J.to_lower_case [] = [] := J.ascii [] (by simp)
    exact Built.of rfl hcursor ⟨Located.file J rfl hfile rfl hnil, rfl, rfl⟩

theorem built_relative_slash (hbase : ∀ b, k.base = some b → Canonical J b) (hcursor : p.cursor ≤ k.input.length)
    (hu : BuiltState J k p .relative_slash) :
    (relative_slash k.base p k.input[p.cursor]?).Keeps (Built J k) (Finished J k) := by
  have hnil : J.to_lower_case [] = [] := J.ascii [] (by simp)
  unfold relative_slash
  rcases hu with hu | ⟨b, hb, hnet, hu⟩
  · have hvalid : p.url.is_invalid = false := by rw [hu]; rfl
    have hfile : p.url.scheme = js "file" := by rw [hu]; rfl
    simp only [if_pos hfile]
    split
    · rename_i hslash
      obtain ⟨v, hv⟩ := (Option.any_eq_true ..).1 hslash
      exact Built.advance hv.1 rfl hvalid hu
    · refine Built.of hvalid hcursor ⟨?_, by rw [hu]; rfl, by rw [hu]; rfl⟩
      rw [hu]
      exact Located.file J rfl rfl rfl hnil
  · have hvalid : p.url.is_invalid = false := by rw [hu]; rfl
    have hfile : p.url.scheme ≠ js "file" := by rw [hu]; exact hnet.not_file
    simp only [if_neg hfile, hb]
    split
    · rename_i hslash
      obtain ⟨v, hv⟩ := (Option.any_eq_true ..).1 hslash
      exact Built.advance hv.1 rfl hvalid ⟨b.scheme, hu, hnet⟩
    · refine Built.of hvalid hcursor ⟨?_, by rw [hu]; rfl, by rw [hu]; rfl⟩
      refine Located.of_base J (hbase b hb) hnet.relative ?_ ?_ ?_ rfl rfl <;> rw [hu] <;> rfl

theorem built_authority (hcursor : p.cursor ≤ k.input.length) (hclean : CleanInv p) (hs : p.state = .authority)
    (hclosed : p.seen_bracket = false) (hu : BuiltState J k p .authority) :
    (authority p k.input[p.cursor]?).Keeps (Built J k) (Finished J k) := by
  have hb : ∀ x ∈ p.buffer, is_userinfo_unit x := by simpa [hs] using hclean.buffer
  obtain ⟨⟨s, name, pass, hurl, hnet⟩, pre, hpre⟩ := hu
  have hvalid : p.url.is_invalid = false := by rw [hurl]; rfl
  rw [authority]
  split
  · rename_i hc
    have hb' : ∀ x ∈ (if p.seen_at then p.buffer ++ js "%40" else p.buffer), is_userinfo_unit x := by
      have h40 : ∀ x ∈ js "%40", is_userinfo_unit x := List.all_eq_true.1 (by decide)
      intro x hx
      split at hx
      · exact (List.mem_append.1 hx).elim (hb x) (h40 x)
      · exact hb x hx
    obtain ⟨name', pass', heq, -, -⟩ := set_credentials_eq _ p.url hb' hclean.url.username hclean.url.password
    dsimp only
    split
    · rename_i url hcred
      rw [hcred] at heq
      have hurl' : url = with_credentials s name' pass' := heq.trans (by rw [hurl]; rfl)
      refine Built.advance hc rfl (by rw [hurl']; rfl) ?_
      rw [hs]
      exact ⟨⟨s, name', pass', hurl', hnet⟩, k.input.take (p.cursor + 1), (List.append_nil _).symm⟩
    · exact fun h => absurd h (by simp)
  split
  · rename_i u hu
    obtain ⟨hc, -⟩ := Option.filter_eq_some_iff.1 hu
    refine Built.advance hc rfl hvalid ?_
    rw [hs]
    refine ⟨⟨s, name, pass, hurl, hnet⟩, pre, ?_⟩
    rw [moved_cursor, List.take_add_one, hc, hpre, List.append_assoc]
    rfl
  · rename_i hnone
    -- the cursor goes back to where the buffer begins
    have hlen : p.cursor = pre.length + p.buffer.length := by
      have := congrArg List.length hpre
      rw [List.length_take, List.length_append] at this
      omega
    have hdrop : k.input.drop (p.cursor - p.buffer.length) = p.buffer ++ k.input.drop p.cursor := by
      have hinput : k.input = pre ++ (p.buffer ++ k.input.drop p.cursor) := by
        rw [← List.append_assoc, ← hpre, List.take_append_drop]
      have hback : p.cursor - p.buffer.length = pre.length := by omega
      rw [hback]
      conv_lhs => rw [hinput]
      exact List.drop_left
    have hahead : ((k.input.drop (p.cursor - p.buffer.length)).takeWhile fun c => !is_terminator c) = p.buffer := by
      rw [hdrop]
      refine (span_append (fun x hx => ?_) fun x hx => ?_).1
      · simpa using (is_userinfo_unit_iff.1 (hb x hx)).1
      · rw [List.head?_drop] at hx
        have := Option.filter_eq_none_iff.1 hnone x hx
        simpa using this
    refine Built.of hvalid (by rw [hlen] at hcursor; exact le_trans (Nat.sub_le ..) (hlen ▸ hcursor)) ?_
    refine ⟨⟨s, name, pass, hurl, hnet⟩, ?_, by simp, by rw [hclosed]; rfl⟩
    rw [ahead, hahead]
    exact fun hmem => (is_userinfo_unit_iff.1 (hb _ hmem)).2 rfl

theorem no_at_lower {b : JsString} (h : unit '@' ∉ b) : unit '@' ∉ J.to_lower_case b :=
  fun hmem => h (mem_of_mem_lower J (by decide) hmem)

/-- The URL behind the host, and behind the port. -/
theorem located_authority {s name h q : JsString} {pass : Option JsString} (hnet : Network s) (hne : h ≠ [])
    (hat : unit '@' ∉ h) {seen : Bool} (hscan : scan false h = some seen) (hlower : J.to_lower_case h = h)
    (hport : q = [] ∨ ∃ n, q = port_text n ∧ relative s ≠ some (NumberText.nearest n))
    (hseen : q ≠ [] → seen = false) :
    Located J { with_credentials s name pass with host := h, port := q } := by
  refine ⟨rfl, hnet.buffer, hnet.relative, rfl, hlower, fun _ => ⟨hne, hat, ⟨seen, hscan, hseen⟩, hport⟩⟩

theorem built_host (hover : k.state_override = none) (hcursor : p.cursor ≤ k.input.length) (hs : p.state = .host)
    (hu : BuiltState J k p .host) :
    (host J k.state_override p k.input[p.cursor]?).Keeps (Built J k) (Finished J k) := by
  obtain ⟨⟨s, name, pass, hurl, hnet⟩, hahead, hat, hscan⟩ := hu
  have hvalid : p.url.is_invalid = false := by rw [hurl]; rfl
  have hlower : ∀ h, h ≠ [] → J.to_lower_case h ≠ [] := fun h hne hnil => hne (J.nonempty h hnil)
  rw [host, hover]
  split
  · rename_i hcolon
    rw [if_neg (by simp), keeps_advance]
    by_cases hnil : p.buffer = []
    · exact Built.of_invalid (by rw [moved_url, hnil, set_host_nil])
    have hclosed : p.seen_bracket = false := by simpa using hcolon.2
    rw [set_host_of_ne J p.url hnil, hurl]
    refine Built.advance hcolon.1 rfl rfl ⟨s, name, pass, J.to_lower_case p.buffer, rfl, hnet, hlower _ hnil,
      no_at_lower J hat, ?_, J.idempotent _⟩
    rw [scan_lower, hscan, hclosed]
  rename_i hcolon
  split
  · rw [if_neg (by simp), keeps_again]
    by_cases hnil : p.buffer = []
    · exact Built.of_invalid (by rw [hnil, set_host_nil])
    rw [set_host_of_ne J p.url hnil, hurl]
    refine Built.of rfl hcursor ⟨?_, rfl, rfl⟩
    exact located_authority J (q := []) hnet (hlower _ hnil) (no_at_lower J hat)
      ((scan_lower J false p.buffer).trans hscan) (J.idempotent _) (Or.inl rfl) (fun h => absurd rfl h)
  rename_i u hu
  obtain ⟨hc, hterm⟩ := Option.filter_eq_some_iff.1 hu
  -- the unit is the first of those ahead
  have hcons : ahead k p = u :: ahead k p.moved := by
    have hlt := (List.getElem?_eq_some_iff.1 hc).1
    have hget : k.input[p.cursor] = u := (List.getElem?_eq_some_iff.1 hc).2
    rw [ahead, List.drop_eq_getElem_cons hlt, hget]
    exact List.takeWhile_cons_of_pos (p := fun c => !is_terminator c) hterm
  rw [hcons] at hahead
  have hnext : unit '@' ∉ ahead k p.moved := fun hmem => hahead (List.mem_cons_of_mem _ hmem)
  split
  · refine Built.advance hc rfl hvalid ?_
    rw [hs]
    exact ⟨⟨s, name, pass, hurl, hnet⟩, hnext, hat, hscan⟩
  · refine Built.advance hc rfl hvalid ?_
    rw [hs]
    refine ⟨⟨s, name, pass, hurl, hnet⟩, hnext, ?_, ?_⟩
    · intro hmem
      rcases List.mem_append.1 hmem with hmem | hmem
      · exact hat hmem
      · exact hahead (by rw [List.mem_singleton.1 hmem]; exact List.mem_cons_self)
    · have hstop : ¬ (u = unit ':' ∧ !p.seen_bracket) := fun h => hcolon ⟨by rw [hc, h.1], h.2⟩
      rw [moved_buffer, scan_append, hscan, Option.bind_some, scan, if_neg hstop]
      rfl

theorem built_port (hover : k.state_override = none) (hcursor : p.cursor ≤ k.input.length) (hs : p.state = .port)
    (hu : BuiltState J k p .port) :
    (port k.state_override p k.input[p.cursor]?).Keeps (Built J k) (Finished J k) := by
  obtain ⟨s, name, pass, h, hurl, hnet, hne, hat, hscan, hlower⟩ := hu
  have hvalid : p.url.is_invalid = false := by rw [hurl]; rfl
  have hport : ∀ q : Parser, q.url = p.url → BuiltState J k q .port := fun q hq =>
    ⟨s, name, pass, h, hq.trans hurl, hnet, hne, hat, hscan, hlower⟩
  rw [port, hover]
  split
  · rename_i u hc
    refine Built.advance (Option.filter_eq_some_iff.1 hc).1 rfl hvalid ?_
    rw [hs]
    exact hport _ rfl
  split
  · rw [if_neg (by simp), keeps_again, URL.with_port]
    split
    · refine Built.of hvalid hcursor ⟨?_, by rw [hurl]; rfl, by rw [hurl]; rfl⟩
      rw [hurl]
      exact located_authority J (q := []) hnet hne hat hscan hlower (Or.inl rfl) fun _ => rfl
    · rename_i hdefault
      have hscheme : p.url.scheme = s := by rw [hurl]; rfl
      rw [hscheme] at hdefault
      refine Built.of hvalid hcursor ⟨?_, by rw [hurl]; rfl, by rw [hurl]; rfl⟩
      rw [hurl]
      exact located_authority J hnet hne hat hscan hlower (Or.inr ⟨_, rfl, fun heq => hdefault (Or.inr heq)⟩) fun _ => rfl
  split
  · rename_i htab
    obtain ⟨v, hv⟩ := (Option.any_eq_true ..).1 htab
    refine Built.advance hv.1 rfl hvalid ?_
    rw [hs]
    exact hport _ rfl
  · exact Built.of_invalid rfl

theorem built_file_host (hcursor : p.cursor ≤ k.input.length) (hs : p.state = .file_host)
    (hu : p.url = bare (js "file")) :
    (file_host J p k.input[p.cursor]?).Keeps (Built J k) (Finished J k) := by
  have hnil : J.to_lower_case [] = [] := J.ascii [] (by simp)
  have hvalid : p.url.is_invalid = false := by rw [hu]; rfl
  have hlocated : Located J p.url := by
    rw [hu]
    exact Located.file J rfl rfl rfl hnil
  have hstays : ∀ q : Parser, q.state = .file_host → q.url = p.url → BuiltState J k q q.state := by
    intro q hq hurl
    rw [hq]
    exact hurl.trans hu
  rw [file_host]
  split
  · rename_i u hc
    have hsome := (Option.filter_eq_some_iff.1 hc).1
    split
    · exact Built.advance hsome rfl hvalid (hstays p.moved hs rfl)
    · exact Built.advance hsome rfl hvalid (hstays { p with cursor := p.cursor + 1, buffer := p.buffer ++ [u] } hs rfl)
  split
  · exact Built.of hvalid hcursor ⟨hlocated, by rw [hu]; rfl, by rw [hu]; rfl⟩
  split
  · exact Built.of hvalid hcursor ⟨hlocated, by rw [hu]; rfl, by rw [hu]; rfl⟩
  · rename_i hne
    rw [keeps_again, set_host_of_ne J p.url hne, hu]
    exact Built.of rfl hcursor ⟨Located.file J rfl rfl rfl (J.idempotent _), rfl, rfl⟩

/-- What comes behind the path changes nothing before it. -/
theorem Located.with_query {u : URL} (h : Located J u) (path : List JsString) (q f : JsString) :
    Located J { u with path := path, query := q, fragment := f } :=
  ⟨h.is_relative, h.buffer, h.relative, h.scheme_data, h.lower, fun hfile =>
    ⟨(h.authority hfile).host_ne, (h.authority hfile).no_at, (h.authority hfile).scan, (h.authority hfile).port⟩⟩

theorem built_relative_path (hover : k.state_override = none) (hclean : CleanInv p) (hvalid : p.url.is_invalid = false)
    (hs : p.state = .relative_path) (hu : BuiltState J k p .relative_path) :
    (relative_path J k.state_override p k.input[p.cursor]?).Keeps (Built J k) (Finished J k) := by
  obtain ⟨hlocated, hq, hf⟩ := hu
  unfold relative_path
  rw [hover]
  split
  · rename_i hnone
    have hb : ∀ x ∈ p.buffer, is_path_unit x := by simpa [hs] using hclean.buffer
    obtain ⟨path, heq, -, hne⟩ := push_segment_eq J (k.input[p.cursor]?.any is_slash) hclean.url.path hb
    rw [heq]
    dsimp only
    split
    · rename_i hc
      have hpath : path ≠ [] := hne (by rw [hc]; decide)
      refine Built.advance hc rfl hvalid ⟨Or.inl ⟨?_, fun _ => hpath⟩, hf⟩
      exact hlocated.with_query J path (js "?") p.url.fragment
    split
    · rename_i hc
      have hpath : path ≠ [] := hne (by rw [hc]; decide)
      refine Built.advance hc rfl hvalid ⟨Or.inl ⟨?_, fun _ => hpath⟩, LastSpace.hash rfl⟩
      exact hlocated.with_query J path p.url.query (js "#")
    · have hstate : Located J { p.url with path := path } := hlocated.with_query J path p.url.query p.url.fragment
      cases hc : k.input[p.cursor]? with
      | none =>
          have hpath : path ≠ [] := hne (by rw [hc]; rfl)
          refine Built.at_end hvalid (Or.inr ⟨hs, hpath⟩) ?_
          rw [moved_state, hs]
          exact ⟨hstate, hq, hf⟩
      | some u =>
          refine Built.advance hc rfl hvalid ?_
          rw [hs]
          exact ⟨hstate, hq, hf⟩
  · rename_i u hc
    have hsome := (Option.filter_eq_some_iff.1 hc).1
    split
    · refine Built.advance hsome rfl hvalid ?_
      rw [hs]
      exact ⟨hlocated, hq, hf⟩
    split
    · exact fun h => absurd h (by simp)
    · refine Built.advance hsome rfl hvalid ?_
      rw [hs]
      exact ⟨hlocated, hq, hf⟩

theorem Pathed.with_query {u : URL} (h : Pathed J u) (q f : JsString) : Pathed J { u with query := q, fragment := f } := by
  rcases h with ⟨h, hpath⟩ | ⟨hs, hrel, heq⟩
  · exact Or.inl ⟨h.with_query J u.path q f, hpath⟩
  · refine Or.inr ⟨hs, hrel, ?_⟩
    rw [heq]

theorem built_query (hover : k.state_override = none) (hvalid : p.url.is_invalid = false) (hs : p.state = .query)
    (hu : BuiltState J k p .query) :
    (query k.state_override p k.input[p.cursor]?).Keeps (Built J k) (Finished J k) := by
  obtain ⟨hpathed, hf⟩ := hu
  rw [query, hover]
  split
  · rename_i hc
    exact Built.advance hc.2 rfl hvalid ⟨hpathed.with_query J p.url.query (js "#"), LastSpace.hash rfl⟩
  split
  · refine Built.at_end hvalid (Or.inl (by simp [hs])) ?_
    rw [moved_state, hs]
    exact ⟨hpathed, hf⟩
  split
  · exact fun h => absurd h (by simp)
  · rename_i e he
    refine Built.at_end hvalid (Or.inl (by simp [hs])) ?_
    simp only [moved_state, hs]
    exact ⟨hpathed.with_query J (p.url.query ++ e) p.url.fragment, hf⟩

theorem built_fragment (hvalid : p.url.is_invalid = false) (hs : p.state = .fragment)
    (hu : BuiltState J k p .fragment) : (fragment p k.input[p.cursor]?).Keeps (Built J k) (Finished J k) := by
  obtain ⟨hpathed, hlast⟩ := hu
  rw [fragment]
  split
  · rename_i hnone
    refine Built.at_end hvalid (Or.inl (by simp [hs])) ?_
    rw [moved_state, hs]
    refine ⟨hpathed, fun c hc hspace => ?_⟩
    rw [moved_cursor, List.take_add_one]
    cases hget : k.input[p.cursor]? with
    | none =>
        rw [Option.toList_none, List.append_nil]
        exact hlast c hc hspace
    | some v =>
        have htab : is_tab_or_newline v := by simpa using Option.filter_eq_none_iff.1 hnone v hget
        rw [Option.toList_some, List.getLast?_concat]
        exact ⟨v, rfl, by simp [is_space, htab]⟩
  · rename_i v hv
    refine Built.at_end hvalid (Or.inl (by simp [hs])) ?_
    simp only [moved_state, hs]
    refine ⟨hpathed.with_query J p.url.query (p.url.fragment ++ [v]), fun c hc hspace => ?_⟩
    have hcv : v = c := by simpa using hc
    rw [moved_cursor, List.take_add_one, (Option.filter_eq_some_iff.1 hv).1, Option.toList_some, List.getLast?_concat]
    exact ⟨v, rfl, by rw [hcv]; exact hspace⟩

theorem built_step (hover : k.state_override = none) (hbase : ∀ b, k.base = some b → Canonical J b)
    (hgo : goes_on k p) (hclean : CleanInv p) (hclosed : Closed p) (h : Built J k p) :
    (step J k p).Keeps (Built J k) (Finished J k) := by
  obtain ⟨hcursor, hvalid⟩ := goes_on_iff.1 hgo
  have hu := h.state hvalid
  cases hs : p.state <;> rw [hs] at hu <;> simp only [step, hs]
  case scheme_start =>
    have hurl : p.url = clear := hu
    rw [scheme_start, hover]
    split
    · rename_i u hc
      exact Built.advance (Option.filter_eq_some_iff.1 hc).1 rfl hvalid hurl
    · exact Built.of hvalid hcursor hurl
  case scheme => exact built_scheme J hover hclean hu hs
  case scheme_data =>
    obtain ⟨s, d, hurl, hb, hrel⟩ := hu
    exact built_scheme_data J hs hurl hb hrel
  case no_scheme =>
    have hurl : p.url = clear := hu
    rw [no_scheme]
    split
    · rename_i hrel
      obtain ⟨b, hb, hrel'⟩ := (Option.any_eq_true ..).1 hrel
      exact Built.of hvalid hcursor (Or.inr ⟨b, hb, hrel', Or.inl hurl⟩)
    · exact Built.of_invalid rfl
  case relative_or_authority =>
    obtain ⟨b, hb, hurl, hnet⟩ := hu
    rw [relative_or_authority]
    split
    · rename_i hc
      exact Built.advance hc.1 rfl hvalid ⟨b.scheme, hurl, hnet⟩
    · exact Built.of hvalid hcursor (Or.inr ⟨b, hb, hnet.relative, Or.inr hurl⟩)
  case relative => exact built_relative J hbase hcursor hu
  case relative_slash => exact built_relative_slash J hbase hcursor hu
  case authority_first_slash =>
    rw [authority_first_slash]
    split
    · rename_i hc
      exact Built.advance hc rfl hvalid hu
    · exact Built.of hvalid hcursor hu
  case authority_second_slash =>
    rw [authority_second_slash]
    split
    · rename_i hc
      exact Built.advance hc rfl hvalid hu
    · exact Built.of hvalid hcursor hu
  case authority_ignore_slashes =>
    obtain ⟨s, hurl, hnet⟩ := hu
    have hb : p.buffer = [] := by simpa [hs] using hclean.buffer
    rw [authority_ignore_slashes]
    split
    · rename_i hslash
      obtain ⟨v, hv⟩ := (Option.any_eq_true ..).1 hslash
      refine Built.advance hv.1 rfl hvalid ?_
      rw [hs]
      exact ⟨s, hurl, hnet⟩
    · refine Built.of hvalid hcursor ⟨⟨s, [], none, hurl, hnet⟩, k.input.take p.cursor, ?_⟩
      simp only [hb, List.append_nil]
  case authority => exact built_authority J hcursor hclean hs (hclosed (by simp [hs, rank])) hu
  case file_host => exact built_file_host J hcursor hs hu
  case host => exact built_host J hover hcursor hs hu
  case hostname => exact absurd hu (by simp [BuiltState])
  case port => exact built_port J hover hcursor hs hu
  case relative_path_start =>
    rw [relative_path_start]
    split
    · rename_i hslash
      obtain ⟨v, hv⟩ := (Option.any_eq_true ..).1 hslash
      exact Built.advance hv.1 rfl hvalid hu
    · exact Built.of hvalid hcursor hu
  case relative_path => exact built_relative_path J hover hclean hvalid hs hu
  case query => exact built_query J hover hvalid hs hu
  case fragment => exact built_fragment J hvalid hs hu

end BuiltSteps

/-- What is kept on both accounts. -/
theorem Next.Keeps.and {I I' : Parser → Prop} {Q Q' : Outcome → Prop} {n : Next} (h : n.Keeps I Q)
    (h' : n.Keeps I' Q') : n.Keeps (fun p => I p ∧ I' p) fun o => Q o ∧ Q' o := by
  cases n with
  | advance p => exact ⟨h, h'⟩
  | again p => exact ⟨h, h'⟩
  | stop u => exact ⟨h, h'⟩
  | throw e u => exact ⟨h, h'⟩

/-- With a base that is canonical or with none, a URL that the parser makes is canonical. -/
theorem parse_canonical (J : LowerCase) (input : JsString) {base : Option URL}
    (hbase : ∀ b, base = some b → Canonical J b)
    (h : (parse J { input := input, base := base } clear).thrown = none) :
    Canonical J (parse J { input := input, base := base } clear).url ∧
      Trimmed { input := input, base := base } (parse J { input := input, base := base } clear).url := by
  have hrun : Clean (parse J { input := input, base := base } clear).url ∧ True ∧
      Finished J { input := input, base := base } (parse J { input := input, base := base } clear) := by
    refine run_rule (I := fun p => CleanInv p ∧ Closed p ∧ Built J { input := input, base := base } p)
      (Q := fun o => Clean o.url ∧ True ∧ Finished J { input := input, base := base } o) ?_ ?_ ?_
    · exact fun p h hend => ⟨h.1.url, trivial, fun _ _ => h.2.2.finished h.1.url hend⟩
    · intro p h hgo
      refine (clean_step J rfl (fun b hb => (hbase b hb).clean) h.1).and (Next.Keeps.and (step_closed J _ h.2.1) ?_)
      exact built_step J rfl hbase hgo h.1 h.2.1 h.2.2
    · exact ⟨CleanInv.of clean_clear rfl (by simp) (by simp), fun _ => rfl, Built.of rfl (Nat.zero_le _) rfl⟩
  exact hrun.2.2 h hrun.1

/-! ## Objects that constructors make -/

/-- The objects that a script makes without assignments. -/
inductive Constructed (J : LowerCase) : JUrl → Prop where
  | new {text : JsString} {o : JUrl} (h : new_url J text none = .ok o) : Constructed J o
  | resolve {text : JsString} {base o : JUrl} (hbase : Constructed J base) (h : new_url J text (some base.url) = .ok o) :
      Constructed J o

theorem new_url_eq {J : LowerCase} {text : JsString} {base : Option URL} {o : JUrl}
    (h : new_url J text base = .ok o) : parse J { input := trim text, base := base } clear = ⟨o.url, none⟩ := by
  rw [new_url] at h
  split at h
  · rename_i u heq
    rw [← Except.ok.inj h]
    exact heq
  · exact absurd h (by simp)

/-- A trimmed text does not end in a space. -/
theorem getLast_trim (s : JsString) : ∀ y, (trim s).getLast? = some y → ¬ is_space y := by
  intro y hy
  rw [trim, List.getLast?_reverse] at hy
  have hhead := List.head?_dropWhile_not is_space (s.dropWhile is_space).reverse
  rw [hy] at hhead
  simpa using hhead

theorem new_url_canonical {J : LowerCase} {text : JsString} {base : Option URL} {o : JUrl}
    (hbase : ∀ b, base = some b → Canonical J b) (h : new_url J text base = .ok o) :
    Canonical J o.url ∧ ∀ c, o.url.fragment.getLast? = some c → ¬ is_space c := by
  have hparse := new_url_eq h
  have hcanonical := parse_canonical J (trim text) hbase (by rw [hparse])
  rw [hparse] at hcanonical
  exact ⟨hcanonical.1, hcanonical.2 (getLast_trim text)⟩

/-- **What constructors make is canonical**, in any chain of bases: the scheme, the
segments and the port are in their only notation, the host is what stands between the
last `@` and the first `:` outside of brackets, and a fragment ends in no space. -/
theorem Constructed.canonical {J : LowerCase} {o : JUrl} (h : Constructed J o) :
    Canonical J o.url ∧ ∀ c, o.url.fragment.getLast? = some c → ¬ is_space c := by
  induction h with
  | new h => exact new_url_canonical (by simp) h
  | resolve _ h ih =>
      refine new_url_canonical (fun b hb => ?_) h
      rw [← Option.some.inj hb]
      exact ih.1

end Url

end RustyWorkers

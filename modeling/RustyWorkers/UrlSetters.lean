/-
What the setters of a `URL` do (`jURL`, `librt/src/url.js`).

A setter runs `parse` from a state of its own choice on the fields that there are,
and the parser would go on into the states behind it. It does not: a setter writes
its own part and no other, whatever it is given and also when it throws, or the host
it is given is none and the URL becomes invalid (`set_writes`). What it writes is
clean, so every object that constructors and setters make is, in any order of calls
(`Reachable.clean`), and the parts of its `href` are where a reader looks for them
(`Reachable.href_parts`).
-/
import RustyWorkers.UrlParse

set_option autoImplicit false

namespace RustyWorkers

open Lib

namespace Url

open RespondWith (JsString js)

/-! ## One setter after the other -/

/-- `protocol` writes a scheme, or nothing at all. -/
theorem parse_protocol (J : LowerCase) (input : JsString) (u : URL) :
    let out := parse J { input := input, state_override := some .scheme_start } u
    out.thrown = none ∧ (out.url = u ∨ ∃ s, SchemeBuffer s ∧ out.url = { u with scheme := s }) := by
  refine run_rule
    (I := fun p => p.url = u ∧
      ((p.state = .scheme_start ∧ p.buffer = []) ∨ (p.state = .scheme ∧ SchemeBuffer p.buffer)))
    (Q := fun o => o.thrown = none ∧ (o.url = u ∨ ∃ s, SchemeBuffer s ∧ o.url = { u with scheme := s })) ?_ ?_ ?_
  · rintro p ⟨hu, -⟩ -
    exact ⟨rfl, Or.inl hu⟩
  · rintro p ⟨hu, ⟨hs, hb⟩ | ⟨hs, hb⟩⟩ -
    · simp only [step, hs, scheme_start]
      split
      · rename_i c hc
        rw [keeps_advance]
        refine ⟨hu, Or.inr ⟨rfl, ?_⟩⟩
        simp only [Parser.moved, hb, List.nil_append]
        exact SchemeBuffer.start J (Option.filter_eq_some_iff.1 hc).2
      · rw [if_neg (by simp), keeps_stop]
        exact ⟨rfl, Or.inl hu⟩
    · simp only [step, hs, scheme]
      split
      · rename_i c hc
        rw [keeps_advance]
        exact ⟨hu, Or.inr ⟨rfl, hb.append J (Option.filter_eq_some_iff.1 hc).2⟩⟩
      · split
        · rw [if_pos (by simp), keeps_stop]
          exact ⟨rfl, Or.inr ⟨p.buffer, hb, by rw [hu]⟩⟩
        · rw [if_neg (by simp), keeps_stop]
          exact ⟨rfl, Or.inl hu⟩
  · exact ⟨rfl, Or.inl ⟨rfl, rfl⟩⟩

/-- A port that was there, or one that `parse` made. -/
def PortFrom (u : URL) (port : JsString) : Prop := port = u.port ∨ ∃ n, port = port_text n

theorem with_port_eq (u : URL) (buffer : JsString) :
    ∃ port, u.with_port buffer = { u with port := port } ∧ PortFrom u port := by
  rw [URL.with_port]
  split
  · exact ⟨u.port, rfl, Or.inl rfl⟩
  · exact ⟨_, rfl, Or.inr ⟨parse_int buffer, rfl⟩⟩

/-- A host that was there, or one that `parse` made. -/
def HostFrom (u : URL) (host : JsString) : Prop := host = u.host ∨ ∀ c ∈ host, is_host_unit c

theorem set_host_eq (J : LowerCase) (u : URL) {h : JsString} (hh : ∀ c ∈ h, is_host_unit c) :
    set_host J u h = invalid ∨ ∃ host, set_host J u h = { u with host := host } ∧ HostFrom u host := by
  by_cases hne : h = []
  · rw [hne, set_host_nil]
    exact Or.inl rfl
  · rw [set_host_of_ne J u hne]
    exact Or.inr ⟨_, rfl, Or.inr (host_units_lower J hh)⟩

/-- `port` writes a port, and keeps the old one if the new one is that of the scheme. -/
theorem parse_port (J : LowerCase) (input : JsString) (u : URL) :
    let out := parse J { input := input, state_override := some .port } u
    out.thrown = none ∧ ∃ port, out.url = { u with port := port } ∧ PortFrom u port := by
  refine run_rule (I := fun p => p.url = u ∧ p.state = .port)
    (Q := fun out => out.thrown = none ∧ ∃ port, out.url = { u with port := port } ∧ PortFrom u port) ?_ ?_
    ⟨rfl, rfl⟩
  · rintro p ⟨hu, -⟩ -
    exact ⟨rfl, u.port, hu, Or.inl rfl⟩
  · rintro p ⟨hu, hs⟩ -
    simp only [step, hs, port]
    split
    · exact ⟨hu, rfl⟩
    · rw [if_pos (Or.inr (by simp)), if_pos (by simp), keeps_stop, hu]
      exact ⟨rfl, with_port_eq u p.buffer⟩

/-- What `host` and `hostname` come to. -/
def HostWritten (o : State) (u : URL) (out : Outcome) : Prop :=
  out.thrown = none ∧ (out.url = invalid ∨
    ∃ h port, out.url = { u with host := h, port := port } ∧ HostFrom u h ∧ PortFrom u port ∧
      (o = .hostname → port = u.port))

theorem HostWritten.of_set_host (J : LowerCase) (o : State) (u : URL) {b : JsString}
    (hb : ∀ c ∈ b, is_host_unit c) : HostWritten o u ⟨set_host J u b, none⟩ := by
  rcases set_host_eq J u hb with h | ⟨h, heq, hfrom⟩
  · exact ⟨rfl, Or.inl h⟩
  · exact ⟨rfl, Or.inr ⟨h, u.port, heq, hfrom, Or.inl rfl, fun _ => rfl⟩⟩

/-- The parser on its way through the states of the host and of the port. -/
inductive HostInv (o : State) (u : URL) (p : Parser) : Prop where
  | host (state : p.state = .host ∨ p.state = .hostname) (url : p.url = u) (buffer : ∀ c ∈ p.buffer, is_host_unit c)
  | port (state : p.state = .port) (override : o = .host) (written : HostWritten .hostname u ⟨p.url, none⟩)

theorem host_keeps (J : LowerCase) {o : State} (ho : o = .host ∨ o = .hostname) {u : URL} {p : Parser}
    {c : Option UInt16} (hs : p.state = .host ∨ p.state = .hostname) (hu : p.url = u)
    (hb : ∀ c ∈ p.buffer, is_host_unit c) :
    (host J (some o) p c).Keeps (HostInv o u) (HostWritten o u) := by
  rw [host]
  split
  · split
    · rw [keeps_stop, hu]
      exact HostWritten.of_set_host J o u hb
    · rename_i hname
      rw [keeps_advance]
      refine HostInv.port rfl (ho.resolve_right fun h => hname (by rw [h])) ?_
      simp only [Parser.moved, hu]
      exact HostWritten.of_set_host J .hostname u hb
  · split
    · rw [if_pos (by simp), keeps_stop, hu]
      exact HostWritten.of_set_host J o u hb
    · rename_i v hv
      have hterm := (Option.filter_eq_some_iff.1 hv).2
      split
      · exact HostInv.host hs hu hb
      · rename_i htab
        rw [keeps_advance]
        exact HostInv.host hs hu (host_units_append hb (by simpa using hterm) htab)

/-- `host` and `hostname` write a host, `host` also a port, or there is no host and
the URL becomes invalid. -/
theorem parse_host (J : LowerCase) (input : JsString) {o : State} (ho : o = .host ∨ o = .hostname) (u : URL) :
    HostWritten o u (parse J { input := input, state_override := some o } u) := by
  refine run_rule (I := HostInv o u) (Q := HostWritten o u) ?_ ?_
    (HostInv.host (by simpa using ho) rfl (by simp))
  · rintro p (⟨-, hu, -⟩ | ⟨-, ho, hthrown, hw⟩) -
    · rw [hu]
      exact ⟨rfl, Or.inr ⟨u.host, u.port, rfl, Or.inl rfl, Or.inl rfl, fun _ => rfl⟩⟩
    · refine ⟨hthrown, hw.imp_right ?_⟩
      rintro ⟨h, port, heq, hh, hp, -⟩
      exact ⟨h, port, heq, hh, hp, fun h => absurd (ho.symm.trans h) (by simp)⟩
  · rintro p (⟨hs, hu, hb⟩ | ⟨hs, ho, -, hw⟩) hgo
    · have hstep : step J { input := input, state_override := some o } p = host J (some o) p input[p.cursor]? := by
        rcases hs with hs | hs <;> simp only [step, hs]
      rw [hstep]
      exact host_keeps J ho hs hu hb
    · -- an invalid URL does not come so far
      have hvalid := (goes_on_iff.1 hgo).2
      obtain hw | ⟨h, port', heq, hh, -, hport⟩ : p.url = invalid ∨ ∃ h port,
          p.url = { u with host := h, port := port } ∧ HostFrom u h ∧ PortFrom u port ∧
            (State.hostname = .hostname → port = u.port) := hw
      · rw [hw] at hvalid
        exact absurd hvalid (by simp [invalid])
      simp only [step, hs, port]
      split
      · exact HostInv.port rfl ho ⟨rfl, Or.inr ⟨h, port', heq, hh, Or.inl (hport rfl), hport⟩⟩
      · rw [if_pos (Or.inr (by simp)), if_pos (by simp), keeps_stop, heq]
        obtain ⟨port'', heq'', hfrom⟩ := with_port_eq { u with host := h, port := port' } p.buffer
        refine ⟨rfl, Or.inr ⟨h, port'', heq'', hh, ?_, fun h => absurd (ho.symm.trans h) (by simp)⟩⟩
        exact hfrom.imp_left fun h => h.trans (hport rfl)

/-- `pathname` writes segments; those before the unit that it throws at stay. -/
theorem parse_pathname (J : LowerCase) (input : JsString) (u : URL) :
    ∃ path, (parse J { input := input, state_override := some .relative_path_start } { u with path := [] }).url
      = { u with path := path } ∧ ∀ s ∈ path, Segment s := by
  refine run_rule
    (I := fun p => (p.state = .relative_path_start ∨ p.state = .relative_path) ∧ (∀ c ∈ p.buffer, is_path_unit c) ∧
      ∃ path, p.url = { u with path := path } ∧ ∀ s ∈ path, Segment s)
    (Q := fun out => ∃ path, out.url = { u with path := path } ∧ ∀ s ∈ path, Segment s) ?_ ?_
    ⟨Or.inl rfl, by simp, [], rfl, by simp⟩
  · rintro p ⟨-, -, hpath⟩ -
    exact hpath
  · rintro p ⟨hs | hs, hb, path, hu, hpath⟩ -
    · simp only [step, hs, relative_path_start]
      split
      · exact ⟨Or.inr rfl, hb, path, hu, hpath⟩
      · exact ⟨Or.inr rfl, hb, path, hu, hpath⟩
    · simp only [step, hs, relative_path]
      split
      · rename_i hnone
        have hslash : ∀ v, input[p.cursor]? = some v → is_slash v := by
          intro v hv
          have hfilter := Option.filter_eq_none_iff.1 hnone v hv
          simpa using hfilter
        have hq : input[p.cursor]? ≠ some (unit '?') := fun h => absurd (hslash _ h) (by decide)
        have hf : input[p.cursor]? ≠ some (unit '#') := fun h => absurd (hslash _ h) (by decide)
        have hsegments : ∀ s ∈ p.url.path, Segment s := by
          rw [hu]
          exact hpath
        obtain ⟨path', heq, hpath', -⟩ :=
          push_segment_eq J (u := p.url) (input[p.cursor]?.any is_slash) hsegments hb
        rw [if_neg hq, if_neg hf, keeps_advance]
        refine ⟨Or.inr rfl, by simp [Parser.moved], path', ?_, hpath'⟩
        exact heq.trans (by rw [hu])
      · rename_i v hv
        have hslash : ¬ is_slash v := by
          have hfilter := (Option.filter_eq_some_iff.1 hv).2
          simp only [Option.isNone_some, Bool.false_and, Bool.or_false, Bool.not_eq_true'] at hfilter
          simp [hfilter]
        split
        · exact ⟨Or.inr hs, hb, path, hu, hpath⟩
        split
        · exact ⟨path, hu, hpath⟩
        · rename_i e he
          exact ⟨Or.inr rfl, path_units_append hb hslash he, path, hu, hpath⟩

/-- `search` writes a query. -/
theorem parse_search (J : LowerCase) (input : JsString) (u : URL) :
    ∃ q, (parse J { input := input, state_override := some .query } { u with query := js "?" }).url
      = { u with query := unit '?' :: q } ∧ ∀ c ∈ q, is_plain query_except c := by
  refine run_rule
    (I := fun p => p.state = .query ∧ ∃ q, p.url = { u with query := unit '?' :: q } ∧ ∀ c ∈ q, is_plain query_except c)
    (Q := fun out => ∃ q, out.url = { u with query := unit '?' :: q } ∧ ∀ c ∈ q, is_plain query_except c) ?_ ?_
    ⟨rfl, [], rfl, by simp⟩
  · rintro p ⟨-, hq⟩ -
    exact hq
  · rintro p ⟨hs, q, hu, hq⟩ -
    simp only [step, hs, query]
    rw [if_neg (by simp)]
    split
    · exact ⟨hs, q, hu, hq⟩
    split
    · exact ⟨q, hu, hq⟩
    · rename_i e he
      refine ⟨rfl, q ++ e, by simp only [Parser.moved, hu, List.cons_append], fun c hc => ?_⟩
      rcases List.mem_append.1 hc with hc | hc
      · exact hq c hc
      · rcases percent_escape_query_cases he with ⟨rfl, hplain⟩ | hesc
        · rw [List.mem_singleton.1 hc]
          exact hplain
        · exact is_plain_query_of_escape (hesc c hc)

/-- `hash` writes a fragment. -/
theorem parse_hash (J : LowerCase) (input : JsString) (u : URL) :
    let out := parse J { input := input, state_override := some .fragment } { u with fragment := js "#" }
    out.thrown = none ∧ ∃ f, out.url = { u with fragment := unit '#' :: f } ∧ ∀ c ∈ f, ¬ is_tab_or_newline c := by
  refine run_rule
    (I := fun p => p.state = .fragment ∧
      ∃ f, p.url = { u with fragment := unit '#' :: f } ∧ ∀ c ∈ f, ¬ is_tab_or_newline c)
    (Q := fun out => out.thrown = none ∧
      ∃ f, out.url = { u with fragment := unit '#' :: f } ∧ ∀ c ∈ f, ¬ is_tab_or_newline c) ?_ ?_
    ⟨rfl, [], rfl, by simp⟩
  · rintro p ⟨-, hf⟩ -
    exact ⟨rfl, hf⟩
  · rintro p ⟨hs, f, hu, hf⟩ -
    simp only [step, hs, fragment]
    split
    · exact ⟨hs, f, hu, hf⟩
    · rename_i v hv
      have htab := (Option.filter_eq_some_iff.1 hv).2
      refine ⟨rfl, f ++ [v], by simp only [Parser.moved, hu, List.cons_append], fun c hc => ?_⟩
      rcases List.mem_append.1 hc with hc | hc
      · exact hf c hc
      · rw [List.mem_singleton.1 hc]
        simpa using htab

/-! ## Its own part and no other -/

/-- What an assignment may come to. -/
def Writes (property : Property) (u v : URL) : Prop :=
  match property with
  | .href => True
  | .protocol => ∃ s, v = { u with scheme := s }
  | .host => v = invalid ∨ ∃ h port, v = { u with host := h, port := port }
  | .hostname => v = invalid ∨ ∃ h, v = { u with host := h }
  | .port => ∃ port, v = { u with port := port }
  | .pathname => ∃ path, v = { u with path := path }
  | .search => ∃ q, v = { u with query := q }
  | .hash => ∃ f, v = { u with fragment := f }

/-- The setters that may throw. -/
def Property.throws : Property → Bool
  | .href => true
  | .pathname => true
  | .search => true
  | _ => false

/-- **A setter writes its own part.** Whatever the URL is and whatever is assigned, the
other parts are as before, also if the setter throws. Only a host that is none takes
the rest with it, and only percent escapes throw. -/
theorem set_writes (J : LowerCase) (u : URL) (property : Property) (value : JsString) :
    Writes property u (u.set J property value).url ∧ (property.throws = false → (u.set J property value).thrown = none) := by
  cases property <;> simp only [Writes, Property.throws, URL.set, Bool.true_eq_false, false_implies, and_true,
    true_implies]
  case protocol =>
    split
    · exact ⟨⟨u.scheme, rfl⟩, rfl⟩
    obtain ⟨hthrown, hurl | ⟨s, -, hurl⟩⟩ := parse_protocol J (value ++ js ":") u
    · exact ⟨⟨u.scheme, hurl⟩, hthrown⟩
    · exact ⟨⟨s, hurl⟩, hthrown⟩
  case host =>
    split
    · exact ⟨Or.inr ⟨u.host, u.port, rfl⟩, rfl⟩
    obtain ⟨hthrown, hurl | ⟨h, port, hurl, -⟩⟩ := parse_host J value (Or.inl rfl) u
    · exact ⟨Or.inl hurl, hthrown⟩
    · exact ⟨Or.inr ⟨h, port, hurl⟩, hthrown⟩
  case hostname =>
    split
    · exact ⟨Or.inr ⟨u.host, rfl⟩, rfl⟩
    obtain ⟨hthrown, hurl | ⟨h, port, hurl, -, -, hport⟩⟩ := parse_host J value (Or.inr rfl) u
    · exact ⟨Or.inl hurl, hthrown⟩
    · exact ⟨Or.inr ⟨h, by rw [hurl, hport rfl]⟩, hthrown⟩
  case port =>
    split
    · exact ⟨⟨u.port, rfl⟩, rfl⟩
    obtain ⟨hthrown, port, hurl, -⟩ := parse_port J value u
    exact ⟨⟨port, hurl⟩, hthrown⟩
  case pathname =>
    split
    · exact ⟨u.path, rfl⟩
    obtain ⟨path, hurl, -⟩ := parse_pathname J value u
    exact ⟨path, hurl⟩
  case search =>
    split
    · exact ⟨u.query, rfl⟩
    obtain ⟨q, hurl, -⟩ := parse_search J (if value.head? = some (unit '?') then value.tail else value) u
    exact ⟨_, hurl⟩
  case hash =>
    split
    · exact ⟨⟨u.fragment, rfl⟩, rfl⟩
    split
    · exact ⟨⟨[], rfl⟩, rfl⟩
    obtain ⟨hthrown, f, hurl, -⟩ := parse_hash J (if value.head? = some (unit '#') then value.tail else value) u
    exact ⟨⟨_, hurl⟩, hthrown⟩

/-! ## What is written is clean -/

theorem Clean.with_host {u : URL} (hu : Clean u) {h port : JsString} (hh : HostFrom u h) (hp : PortFrom u port) :
    Clean { u with host := h, port := port } := by
  have hhost : ∀ c ∈ h, is_host_unit c := by
    rcases hh with rfl | hh
    · exact hu.host
    · exact hh
  have hport : port = [] ∨ ∃ n, port = port_text n := by
    rcases hp with rfl | hp
    · exact hu.port
    · exact Or.inr hp
  exact { hu with host := hhost, port := hport }

theorem clean_set (J : LowerCase) {u : URL} (hu : Clean u) (property : Property) (value : JsString) :
    Clean (u.set J property value).url := by
  cases property <;> simp only [URL.set]
  case href => exact parse_clean J value (by simp)
  case protocol =>
    split
    · exact hu
    obtain ⟨-, hurl | ⟨s, hs, hurl⟩⟩ := parse_protocol J (value ++ js ":") u
    · rw [hurl]
      exact hu
    · rw [hurl]
      exact { hu with scheme := hs.units }
  case host =>
    split
    · exact hu
    obtain ⟨-, hurl | ⟨h, port, hurl, hh, hp, -⟩⟩ := parse_host J value (Or.inl rfl) u
    · rw [hurl]
      exact clean_invalid
    · rw [hurl]
      exact hu.with_host hh hp
  case hostname =>
    split
    · exact hu
    obtain ⟨-, hurl | ⟨h, port, hurl, hh, hp, -⟩⟩ := parse_host J value (Or.inr rfl) u
    · rw [hurl]
      exact clean_invalid
    · rw [hurl]
      exact hu.with_host hh hp
  case port =>
    split
    · exact hu
    obtain ⟨-, port, hurl, hp⟩ := parse_port J value u
    rw [hurl]
    exact hu.with_host (Or.inl rfl) hp
  case pathname =>
    split
    · exact hu
    obtain ⟨path, hurl, hpath⟩ := parse_pathname J value u
    rw [hurl]
    exact { hu with path := hpath }
  case search =>
    split
    · exact hu
    obtain ⟨q, hurl, hq⟩ := parse_search J (if value.head? = some (unit '?') then value.tail else value) u
    rw [hurl]
    exact { hu with query := Or.inr ⟨q, rfl, hq⟩ }
  case hash =>
    split
    · exact hu
    split
    · exact { hu with fragment := Or.inl rfl }
    obtain ⟨-, f, hurl, hf⟩ := parse_hash J (if value.head? = some (unit '#') then value.tail else value) u
    rw [hurl]
    exact { hu with fragment := Or.inr ⟨f, rfl, hf⟩ }

/-- The objects that a script can make: by the constructor, with an object as the base
or without one, and by assignments, whether they throw or not. -/
inductive Reachable (J : LowerCase) : JUrl → Prop where
  | new {text : JsString} {o : JUrl} (h : new_url J text none = .ok o) : Reachable J o
  | resolve {text : JsString} {base o : JUrl} (hbase : Reachable J base) (h : new_url J text (some base.url) = .ok o) :
      Reachable J o
  | set {o : JUrl} (h : Reachable J o) (property : Property) (value : JsString) : Reachable J (o.set J property value).1

theorem Reachable.clean {J : LowerCase} {o : JUrl} (h : Reachable J o) : Clean o.url := by
  induction h with
  | @new text o h =>
      have hclean := parse_clean J (trim text) (b := none) (by simp)
      rw [new_url_eq h] at hclean
      exact hclean
  | @resolve text base o _ h ih =>
      have hclean := parse_clean J (trim text) (b := some base.url) (by
        intro b hb
        rw [← Option.some.inj hb]
        exact ih)
      rw [new_url_eq h] at hclean
      exact hclean
  | set _ property value ih => exact clean_set J ih property value

/-! ## The parts of `href` -/

/-- What a reader of a URL cuts it into. -/
structure HrefParts where
  scheme : JsString
  hierarchy : JsString
  query : JsString
  fragment : JsString

/-- At the first `:`, at the first `?` or `#` behind it, and at the first `#`. -/
def split_href (s : JsString) : HrefParts :=
  let rest := (s.dropWhile (· ≠ unit ':')).tail
  let tail := rest.dropWhile fun c => c ≠ unit '?' && c ≠ unit '#'
  { scheme := s.takeWhile (· ≠ unit ':')
    hierarchy := rest.takeWhile fun c => c ≠ unit '?' && c ≠ unit '#'
    query := tail.takeWhile (· ≠ unit '#')
    fragment := tail.dropWhile (· ≠ unit '#') }

/-- The authority behind `//`, and the path. -/
def split_hierarchy (s : JsString) : JsString × JsString :=
  ((s.drop 2).takeWhile (· ≠ unit '/'), (s.drop 2).dropWhile (· ≠ unit '/'))

theorem ne_of_not_terminator {u : UInt16} (h : ¬ is_terminator u) :
    u ≠ unit '/' ∧ u ≠ unit '?' ∧ u ≠ unit '#' := by
  rw [is_terminator_iff] at h
  have h47 : '/'.toNat = 47 := rfl
  have h63 : '?'.toNat = 63 := rfl
  have h35 : '#'.toNat = 35 := rfl
  rw [ne_eq, ne_eq, ne_eq, eq_unit_iff (by decide), eq_unit_iff (by decide), eq_unit_iff (by decide)]
  omega

/-- The path has neither of the units that end it. -/
theorem Clean.pathname {u : URL} (hu : Clean u) : ∀ c ∈ u.pathname, c ≠ unit '?' ∧ c ≠ unit '#' := by
  intro c hc
  rw [URL.pathname] at hc
  split at hc
  · exact absurd hc (by simp)
  split at hc
  · rcases List.mem_append.1 hc with hc | hc
    · rw [List.mem_singleton.1 hc]
      decide
    · rcases mem_intercalate hc with hc | ⟨s, hs, hc⟩
      · rw [List.mem_singleton.1 hc]
        decide
      · exact (ne_of_not_terminator (not_terminator_of_path_unit ((hu.path s hs).units c hc))).2
  · have hplain := is_plain_path_iff.1 (hu.scheme_data c hc)
    have h63 : '?'.toNat = 63 := rfl
    have h35 : '#'.toNat = 35 := rfl
    rw [ne_eq, ne_eq, eq_unit_iff (by decide), eq_unit_iff (by decide)]
    omega

/-- What stands between the scheme and the query. -/
def URL.hierarchy (u : URL) : JsString :=
  (if u.is_relative then js "//" ++ u.userinfo ++ u.get_host else []) ++ u.pathname

theorem Clean.hierarchy {u : URL} (hu : Clean u) : ∀ c ∈ u.hierarchy, c ≠ unit '?' ∧ c ≠ unit '#' := by
  intro c hc
  rcases List.mem_append.1 hc with hc | hc
  · split at hc
    · rw [List.append_assoc] at hc
      rcases List.mem_append.1 hc with hc | hc
      · have hjs : js "//" = [unit '/', unit '/'] := rfl
        rw [hjs, List.mem_cons, List.mem_singleton, or_self] at hc
        rw [hc]
        decide
      · exact (ne_of_not_terminator (hu.authority c hc)).2
    · exact absurd hc (by simp)
  · exact hu.pathname c hc

theorem Clean.query_units {u : URL} (hu : Clean u) : ∀ c ∈ u.query, c ≠ unit '#' := by
  intro c hc
  rcases hu.query with h | ⟨q, h, hplain⟩
  · rw [h] at hc
    exact absurd hc (by simp)
  rw [h] at hc
  rcases List.mem_cons.1 hc with rfl | hc
  · decide
  · have hc := is_plain_query_iff.1 (hplain c hc)
    have h35 : '#'.toNat = 35 := rfl
    rw [ne_eq, eq_unit_iff (by decide)]
    omega

theorem ne_colon_of_scheme_unit {u : UInt16} (h : is_scheme_unit u) : u ≠ unit ':' := by
  rintro rfl
  exact absurd h (by decide)

/-- **The parts of `href` are where a reader looks for them.** Of every object that a
script can make, whatever was assigned to it and in whatever order, if it is not
invalid: the scheme, the query and the fragment are cut off at the first `:`, `?` and
`#`, the authority ends at the first `/` behind it, and the path is at each `/` cut
into the segments. -/
theorem Reachable.href_parts {J : LowerCase} {o : JUrl} (h : Reachable J o) (hvalid : o.url.is_invalid = false) :
    split_href o.href = ⟨o.url.scheme, o.url.hierarchy, o.url.query, o.url.fragment⟩ ∧
      (o.url.is_relative → split_hierarchy o.url.hierarchy = (o.url.userinfo ++ o.url.get_host, o.url.pathname) ∧
        (o.url.path ≠ [] → (o.url.pathname.drop 1).splitOn (unit '/') = o.url.path)) := by
  have hu := h.clean
  constructor
  · have htext : o.href = o.url.scheme ++ unit ':' :: (o.url.hierarchy ++ (o.url.query ++ o.url.fragment)) := by
      refine (href_eq hvalid o.text).trans ?_
      simp only [URL.hierarchy, List.append_assoc]
    obtain ⟨htake, hdrop⟩ := span_append (p := (· ≠ unit ':'))
      (t := unit ':' :: (o.url.hierarchy ++ (o.url.query ++ o.url.fragment)))
      (fun c hc => decide_eq_true (ne_colon_of_scheme_unit (hu.scheme c hc))) (by simp)
    obtain ⟨htake', hdrop'⟩ := span_append (p := fun c => c ≠ unit '?' && c ≠ unit '#')
      (t := o.url.query ++ o.url.fragment) (fun c hc => by simpa using hu.hierarchy c hc) (by
        intro c hc
        rcases hu.query with hq | ⟨q, hq, -⟩
        · rcases hu.fragment with hf | ⟨f, hf, -⟩
          · simp [hq, hf] at hc
          · simp only [hq, hf, List.nil_append, List.head?_cons, Option.some.injEq] at hc
            simp [← hc]
        · simp only [hq, List.cons_append, List.head?_cons, Option.some.injEq] at hc
          simp [← hc])
    obtain ⟨htake'', hdrop''⟩ := span_append (p := (· ≠ unit '#')) (t := o.url.fragment)
      (fun c hc => decide_eq_true (hu.query_units c hc)) (by
        intro c hc
        rcases hu.fragment with hf | ⟨f, hf, -⟩
        · simp [hf] at hc
        · simp only [hf, List.head?_cons, Option.some.injEq] at hc
          simp [← hc])
    rw [split_href, htext]
    simp only [htake, hdrop, List.tail_cons, htake', hdrop', htake'', hdrop'']
  · intro hrel
    have hpath := pathname_eq hvalid hrel
    refine ⟨?_, fun hne => ?_⟩
    · have hdrop : o.url.hierarchy.drop 2 = o.url.userinfo ++ o.url.get_host ++ o.url.pathname := by
        have hjs : js "//" = [unit '/', unit '/'] := rfl
        rw [URL.hierarchy, if_pos hrel, hjs]
        rfl
      obtain ⟨htake, hrest⟩ := span_append (p := (· ≠ unit '/')) (t := o.url.pathname)
        (fun c hc => decide_eq_true (ne_of_not_terminator (hu.authority c hc)).1) (by
          intro c hc
          rw [hpath, List.head?_cons, Option.some.injEq] at hc
          simp [← hc])
      rw [split_hierarchy, hdrop, htake, hrest]
    · rw [hpath, List.drop_succ_cons, List.drop_zero]
      refine List.splitOn_intercalate (unit '/') (fun s hs hmem => ?_) hne
      exact (ne_of_not_terminator (not_terminator_of_path_unit ((hu.path s hs).units _ hmem))).1 rfl

/-- An object with every part assigned, and one of them refused. -/
theorem href_parts_of_example :
    ∃ o, Reachable ascii_case o ∧ o.url.is_invalid = false ∧ o.url.is_relative = true ∧ o.url.path ≠ [] ∧
      split_href o.href = ⟨o.url.scheme, o.url.hierarchy, o.url.query, o.url.fragment⟩ ∧
      split_hierarchy o.url.hierarchy = (o.url.userinfo ++ o.url.get_host, o.url.pathname) ∧
      (o.url.pathname.drop 1).splitOn (unit '/') = o.url.path := by
  have hnew : new_url ascii_case (js "http://a/") none
      = .ok ⟨js "http://a/", { scheme := js "http", host := js "a", path := [[]], is_relative := true }⟩ := by
    decide +kernel
  have hset := (((Reachable.new hnew).set .pathname (js "x?/../#")).set .search (js "?a#b/")).set .host (js "b:8")
  have hparts := hset.href_parts (by decide +kernel)
  refine ⟨_, hset, by decide +kernel, by decide +kernel, by decide +kernel, hparts.1, ?_, ?_⟩
  · exact (hparts.2 (by decide +kernel)).1
  · exact (hparts.2 (by decide +kernel)).2 (by decide +kernel)

end Url

end RustyWorkers

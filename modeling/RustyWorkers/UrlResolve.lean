/-
A reference without a scheme and without `//` stays where its base is (`jURL`,
`librt/src/url.js`).

The parser reads over what might be a scheme, goes back to the beginning when it is
none, and takes the scheme, the host, the port and the credentials of the base. From
then on it is in the path, the query or the fragment, and writes nothing else.
-/
import RustyWorkers.UrlParse

set_option autoImplicit false

namespace RustyWorkers

open Lib

namespace Url

open RespondWith (JsString js)

/-! ## References -/

/-- A letter, letters, digits, `+`, `-` and `.`, and a colon. -/
def has_scheme : JsString → Bool
  | [] => false
  | u :: rest => is_alpha u && (rest.dropWhile is_alphanumeric).head? = some (unit ':')

/-- Two slashes of either kind. -/
def has_authority : JsString → Bool
  | u :: v :: _ => is_slash u && is_slash v
  | _ => false

/-- What an origin is made of, and the credentials. -/
structure Stays (b u : URL) : Prop where
  is_invalid : u.is_invalid = false
  scheme : u.scheme = b.scheme
  host : u.host = b.host
  port : u.port = b.port
  username : u.username = b.username
  password : u.password = b.password

theorem Stays.with_path {b u : URL} (h : Stays b u) (path : List JsString) (q f : JsString) :
    Stays b { u with path := path, query := q, fragment := f } :=
  ⟨h.is_invalid, h.scheme, h.host, h.port, h.username, h.password⟩

theorem stays_with_authority {b u : URL} (hi : u.is_invalid = false) (hs : u.scheme = b.scheme) :
    Stays b (u.with_authority b) := ⟨hi, hs, rfl, rfl, rfl, rfl⟩

/-- Pushing writes the path alone. -/
theorem push_segment_writes (J : LowerCase) (u : URL) (buffer : JsString) (more : Bool) :
    ∃ path, u.push_segment J buffer more = { u with path := path } := by
  simp only [URL.push_segment]
  split
  · exact ⟨_, rfl⟩
  split
  · exact ⟨_, rfl⟩
  split
  · split
    · exact ⟨_, rfl⟩
    · exact ⟨_, rfl⟩
  · exact ⟨_, rfl⟩

/-! ## The way of the parser -/

/-- A reference, and its base. -/
structure Reference (k : Call) (b : URL) : Prop where
  base : k.base = some b
  state_override : k.state_override = none
  relative : is_relative_scheme b.scheme
  not_file : b.scheme ≠ js "file"
  no_scheme : has_scheme k.input = false
  no_authority : has_authority k.input = false

/-- Before the scheme of the base is known, and after. -/
inductive OnTheWay (k : Call) (b : URL) (p : Parser) : Prop where
  | start (state : p.state = .scheme_start) (cursor : p.cursor = 0) (url : p.url = clear)
  | scheme (state : p.state = .scheme) (url : p.url = clear) (letter : ∃ u, k.input.head? = some u ∧ is_alpha u)
      (bound : p.cursor ≤ k.input.length) (read : k.input.tail.dropWhile is_alphanumeric
        = (k.input.drop p.cursor).dropWhile is_alphanumeric)
  | back (state : p.state = .no_scheme ∨ p.state = .relative) (cursor : p.cursor = 0) (url : p.url = clear)
  | slash (state : p.state = .relative_slash) (cursor : p.cursor = 1) (bound : 1 ≤ k.input.length)
      (url : p.url.is_invalid = false)
      (scheme : p.url.scheme = b.scheme) (first : ∃ u, k.input.head? = some u ∧ is_slash u)
  | behind (state : p.state = .relative_path ∨ p.state = .query ∨ p.state = .fragment) (stays : Stays b p.url)

/-- What does not throw stays. -/
def Stayed (b : URL) (o : Outcome) : Prop := o.thrown = none → Stays b o.url

section Steps

variable (J : LowerCase) {k : Call} {b : URL} {p : Parser}

theorem head_eq_get (s : JsString) : s.head? = s[0]? := by
  cases s <;> rfl

theorem resolve_start (hk : Reference k b) (hs : p.state = .scheme_start) (hc : p.cursor = 0) (hu : p.url = clear) :
    (step J k p).Keeps (OnTheWay k b) (Stayed b) := by
  simp only [step, hs, scheme_start, hk.state_override]
  split
  · rename_i u hget
    obtain ⟨hget, halpha⟩ := Option.filter_eq_some_iff.1 hget
    have hlt := (List.getElem?_eq_some_iff.1 hget).1
    rw [hc] at hget
    refine OnTheWay.scheme rfl hu ⟨u, by rw [head_eq_get]; exact hget, halpha⟩ hlt ?_
    simp [hc]
  · exact OnTheWay.back (Or.inl rfl) hc hu

theorem resolve_scheme (hk : Reference k b) (hs : p.state = .scheme) (hu : p.url = clear)
    (hletter : ∃ u, k.input.head? = some u ∧ is_alpha u)
    (hread : k.input.tail.dropWhile is_alphanumeric = (k.input.drop p.cursor).dropWhile is_alphanumeric) :
    (step J k p).Keeps (OnTheWay k b) (Stayed b) := by
  simp only [step, hs, scheme, hk.state_override]
  split
  · rename_i u hget
    obtain ⟨hget, halnum⟩ := Option.filter_eq_some_iff.1 hget
    have hlt := (List.getElem?_eq_some_iff.1 hget).1
    have hu' : k.input[p.cursor] = u := (List.getElem?_eq_some_iff.1 hget).2
    refine OnTheWay.scheme rfl hu hletter hlt ?_
    rw [hread, List.drop_eq_getElem_cons hlt, hu', List.dropWhile_cons_of_pos halnum]
    rfl
  split
  · -- with a colon here there would be a scheme
    rename_i hcolon
    have hscheme : has_scheme k.input = true := by
      obtain ⟨u, hhead, halpha⟩ := hletter
      obtain ⟨rest, hinput⟩ := List.head?_eq_some_iff.1 hhead
      have hlt := (List.getElem?_eq_some_iff.1 hcolon).1
      have hget : k.input[p.cursor] = unit ':' := (List.getElem?_eq_some_iff.1 hcolon).2
      have hnot : ¬ is_alphanumeric (unit ':') := by decide
      rw [List.drop_eq_getElem_cons hlt, hget, List.dropWhile_cons_of_neg hnot, hinput, List.tail_cons] at hread
      rw [hinput, has_scheme, hread, List.head?_cons]
      simp [halpha]
    rw [hk.no_scheme] at hscheme
    exact absurd hscheme (by simp)
  · exact OnTheWay.back (Or.inl rfl) rfl hu

theorem resolve_relative (hk : Reference k b) (hs : p.state = .relative) (hc : p.cursor = 0) (hu : p.url = clear) :
    (step J k p).Keeps (OnTheWay k b) (Stayed b) := by
  have hfile : ({ p.url with is_relative := true } : URL).scheme ≠ js "file" := by rw [hu]; decide
  have hvalid : ({ p.url with is_relative := true, scheme := b.scheme } : URL).is_invalid = false := by
    rw [hu]
    rfl
  have hauth : Stays b (({ p.url with is_relative := true, scheme := b.scheme } : URL).with_authority b) :=
    stays_with_authority hvalid rfl
  have hstays := hauth.with_path
  simp only [step, hs, relative_state, hk.base, Option.map_some]
  rw [if_neg hfile]
  dsimp only
  split
  · exact fun _ => hstays b.path b.query p.url.fragment
  rename_i u hget
  split
  · rename_i hslash
    have hlt := (List.getElem?_eq_some_iff.1 hget).1
    refine OnTheWay.slash rfl (by simp [hc]) (by omega) (by simp [hu, clear]) rfl ⟨u, ?_, hslash⟩
    rw [head_eq_get, ← hget, hc]
  split
  · exact OnTheWay.behind (Or.inr (Or.inl rfl)) (hstays b.path (js "?") p.url.fragment)
  split
  · exact OnTheWay.behind (Or.inr (Or.inr rfl)) (hstays b.path b.query (js "#"))
  split
  · exact OnTheWay.behind (Or.inl rfl) (hstays b.path.dropLast p.url.query p.url.fragment)
  · rename_i hdrive
    exact absurd (Or.inl hk.not_file) hdrive

theorem resolve_slash (hk : Reference k b) (hs : p.state = .relative_slash) (hc : p.cursor = 1)
    (hvalid : p.url.is_invalid = false) (hscheme : p.url.scheme = b.scheme)
    (hfirst : ∃ u, k.input.head? = some u ∧ is_slash u) : (step J k p).Keeps (OnTheWay k b) (Stayed b) := by
  have hfile : p.url.scheme ≠ js "file" := by
    rw [hscheme]
    exact hk.not_file
  simp only [step, hs, relative_slash, hk.base, if_neg hfile]
  split
  · -- a second slash would begin an authority
    rename_i hslash
    obtain ⟨u, hhead, hu⟩ := hfirst
    obtain ⟨v, hget, hv⟩ := (Option.any_eq_true ..).1 hslash
    obtain ⟨rest, hinput⟩ := List.head?_eq_some_iff.1 hhead
    rw [hc, hinput, List.getElem?_cons_succ, ← head_eq_get] at hget
    obtain ⟨rest', hrest⟩ := List.head?_eq_some_iff.1 hget
    have hauth := hk.no_authority
    rw [hinput, hrest, has_authority, hu, hv] at hauth
    exact absurd hauth (by simp)
  · exact OnTheWay.behind (Or.inl rfl) (stays_with_authority hvalid hscheme)

theorem resolve_behind (hk : Reference k b)
    (hs : p.state = .relative_path ∨ p.state = .query ∨ p.state = .fragment) (hstays : Stays b p.url) :
    (step J k p).Keeps (OnTheWay k b) (Stayed b) := by
  rcases hs with hs | hs | hs
  · simp only [step, hs, relative_path, hk.state_override]
    split
    · obtain ⟨path, hpush⟩ := push_segment_writes J p.url p.buffer (k.input[p.cursor]?.any is_slash)
      rw [hpush]
      split
      · exact OnTheWay.behind (Or.inr (Or.inl rfl)) (hstays.with_path path (js "?") p.url.fragment)
      split
      · exact OnTheWay.behind (Or.inr (Or.inr rfl)) (hstays.with_path path p.url.query (js "#"))
      · exact OnTheWay.behind (Or.inl rfl) (hstays.with_path path p.url.query p.url.fragment)
    · split
      · exact OnTheWay.behind (Or.inl hs) hstays
      split
      · exact fun h => absurd h (by simp)
      · exact OnTheWay.behind (Or.inl rfl) hstays
  · simp only [step, hs, query, hk.state_override]
    split
    · exact OnTheWay.behind (Or.inr (Or.inr rfl)) (hstays.with_path p.url.path p.url.query (js "#"))
    split
    · exact OnTheWay.behind (Or.inr (Or.inl hs)) hstays
    split
    · exact fun h => absurd h (by simp)
    · exact OnTheWay.behind (Or.inr (Or.inl rfl)) (hstays.with_path p.url.path _ p.url.fragment)
  · simp only [step, hs, fragment]
    split
    · exact OnTheWay.behind (Or.inr (Or.inr hs)) hstays
    · exact OnTheWay.behind (Or.inr (Or.inr rfl)) (hstays.with_path p.url.path p.url.query _)

theorem resolve_step (hk : Reference k b) (hgo : goes_on k p) (h : OnTheWay k b p) :
    (step J k p).Keeps (OnTheWay k b) (Stayed b) := by
  obtain ⟨hcursor, hvalid⟩ := goes_on_iff.1 hgo
  rcases h with ⟨hs, hc, hu⟩ | ⟨hs, hu, hletter, -, hread⟩ | ⟨hs | hs, hc, hu⟩ | ⟨hs, hc, -, hi, hscheme, hfirst⟩ |
    ⟨hs, hstays⟩
  · exact resolve_start J hk hs hc hu
  · exact resolve_scheme J hk hs hu hletter hread
  · have hbase : k.base.any (fun b => is_relative_scheme b.scheme) = true := by rw [hk.base]; exact hk.relative
    simp only [step, hs, no_scheme]
    rw [if_pos hbase]
    exact OnTheWay.back (Or.inr rfl) hc hu
  · exact resolve_relative J hk hs hc hu
  · exact resolve_slash J hk hs hc hi hscheme hfirst
  · exact resolve_behind J hk hs hstays

end Steps

theorem OnTheWay.finished {k : Call} {b : URL} {p : Parser} (h : OnTheWay k b p) (hend : ¬ goes_on k p) :
    Stays b p.url := by
  have hclear : p.url = clear → p.cursor ≤ k.input.length → goes_on k p := fun hu hle =>
    goes_on_iff.2 ⟨hle, by rw [hu]; rfl⟩
  rcases h with ⟨-, hc, hu⟩ | ⟨-, hu, -, hle, -⟩ | ⟨-, hc, hu⟩ | ⟨-, hc, hle, hi, -⟩ | ⟨-, hstays⟩
  · exact absurd (hclear hu (by omega)) hend
  · exact absurd (hclear hu hle) hend
  · exact absurd (hclear hu (by omega)) hend
  · exact absurd (goes_on_iff.2 ⟨by omega, hi⟩) hend
  · exact hstays

/-- **A reference stays at its base.** If a text has, between its spaces, no scheme and
no two slashes at the beginning, then against a base of the web it is a valid URL with
the scheme, the host, the port and the credentials of the base, and so of its origin. -/
theorem new_url_stays (J : LowerCase) {text : JsString} {b : URL} {o : JUrl} (hrel : is_relative_scheme b.scheme)
    (hfile : b.scheme ≠ js "file") (hbase : b.is_invalid = false) (hscheme : has_scheme (trim text) = false)
    (hauthority : has_authority (trim text) = false) (h : new_url J text (some b) = .ok o) :
    Stays b o.url ∧ o.url.origin = b.origin := by
  have hk : Reference { input := trim text, base := some b } b := ⟨rfl, rfl, hrel, hfile, hscheme, hauthority⟩
  have hrun : Stayed b (parse J { input := trim text, base := some b } clear) := by
    refine run_rule (I := OnTheWay { input := trim text, base := some b } b) (Q := Stayed b) ?_ ?_ ?_
    · exact fun p hp hend _ => hp.finished hend
    · exact fun p hp hgo => resolve_step J hk hgo hp
    · exact OnTheWay.start rfl rfl rfl
  rw [new_url_eq h] at hrun
  have hstays : Stays b o.url := hrun rfl
  refine ⟨hstays, ?_⟩
  simp only [URL.origin, URL.get_host, hstays.is_invalid, hbase, hstays.scheme, hstays.host, hstays.port]

theorem new_url_stays_of_example :
    ∃ b o, new_url ascii_case (js "https://u@a.b:81/x/y?q") none = .ok b ∧
      new_url ascii_case (js " ../..//evil.c/:x ") (some b.url) = .ok o ∧ Stays b.url o.url ∧
      o.url.origin = b.url.origin := by
  let b : URL :=
    { scheme := js "https"
      username := js "u"
      host := js "a.b"
      port := js "81"
      path := [js "x", js "y"]
      query := js "?q"
      is_relative := true }
  have hb : new_url ascii_case (js "https://u@a.b:81/x/y?q") none = .ok ⟨js "https://u@a.b:81/x/y?q", b⟩ := by
    decide +kernel
  have ho : new_url ascii_case (js " ../..//evil.c/:x ") (some b)
      = .ok ⟨js " ../..//evil.c/:x ", { b with path := [[], js "evil.c", js ":x"], query := [] }⟩ := by decide +kernel
  exact ⟨_, _, hb, ho, new_url_stays ascii_case (by decide +kernel) (by decide +kernel) rfl (by decide +kernel)
    (by decide +kernel) ho⟩

end Url

end RustyWorkers

/-
The URL that a worker sees: the part of `handle_request`
(`rusty-workers-proxy/src/sched.rs`) that takes the host from the `Host` header
and puts the URL of the `RequestObject` together, and what `new URL`
(`librt/src/url.js`) reads in it.

The host is what stands before the first colon, which is the name or the address
unless the header has an IPv6 address in brackets. The URL is `https://`, this
host, and the text of the whole `Uri`: the path and the query if the request
target is in origin form, but a scheme and an authority before them if it is in
absolute form. What `hyper` makes of a request target is a parameter (`UriType`).

The route is looked up with the host and the path as they are. The worker's URL has
the host in lower case, and a path whose dots are gone up and whose backslashes are
slashes (`UrlPath`).
-/
import RustyWorkers.RouteCache
import RustyWorkers.UrlPath

set_option autoImplicit false

namespace RustyWorkers

open Lib

namespace RequestUrl

open Routing (rewrite_host)
open RespondWith (JsString js)
open Url (unit code_units LowerCase new_url)

/-! ## Requests -/

/-- A character of a registered name. -/
def reg_name_char (c : Char) : Bool := c.isAlphanum || c ∈ "-._~!$&'()*+,;=%".toList

def ipv4_char (c : Char) : Bool := c.isDigit || c = '.'

def ipv6_char (c : Char) : Bool := c.isDigit || c ∈ "abcdefABCDEF:.".toList

/-- The host of a `Host` header; an IPv6 address has colons. -/
inductive Host where
  | name (text : String) (valid : text.toList.all reg_name_char = true)
  | ipv4 (text : String) (valid : text.toList.all ipv4_char = true)
  | ipv6 (text : String) (valid : text.toList.all ipv6_char = true) (colon : ':' ∈ text.toList)

def Host.text : Host → String
  | .name text _ => text
  | .ipv4 text _ => text
  | .ipv6 text _ _ => "[" ++ text ++ "]"

def Host.IsIpv6 : Host → Prop
  | .ipv6 _ _ _ => True
  | _ => False

/-- A `Host` header: `host` or `host:port`. -/
structure HostHeader where
  host : Host
  port : Option String

def HostHeader.text (header : HostHeader) : String :=
  match header.port with
  | some port => header.host.text ++ ":" ++ port
  | none => header.host.text

/-- The bytes that `http::Uri` takes in a path; the last three are not of a URL. -/
def path_char (c : Char) : Bool :=
  decide (c.toNat = 0x21 ∨ 0x24 ≤ c.toNat ∧ c.toNat ≤ 0x3B ∨ c.toNat = 0x3D ∨ 0x40 ≤ c.toNat ∧ c.toNat ≤ 0x5F
    ∨ 0x61 ≤ c.toNat ∧ c.toNat ≤ 0x7A ∨ c.toNat = 0x7C ∨ c.toNat = 0x7E)
  || c = '"' || c = '\x7b' || c = '\x7d'

/-- The bytes that it takes in a query. -/
def query_char (c : Char) : Bool :=
  decide (c.toNat = 0x21 ∨ 0x24 ≤ c.toNat ∧ c.toNat ≤ 0x3B ∨ c.toNat = 0x3D ∨ 0x3F ≤ c.toNat ∧ c.toNat ≤ 0x7E)

/-- The path of a `Uri`. -/
structure ValidPath (path : String) : Prop where
  slash : path.toList.head? = some '/'
  chars : path.toList.all path_char = true

def ValidQuery (query : Option String) : Prop := ∀ q ∈ query, q.toList.all query_char = true

instance (query : Option String) : Decidable (ValidQuery query) := inferInstanceAs (Decidable (∀ q ∈ query, _))

structure ValidScheme (scheme : String) : Prop where
  nonempty : scheme.toList ≠ []
  no_colon : ':' ∉ scheme.toList

/-- A request target: a path with its query, or a whole URI, whose path is `/` if
it is left out. -/
inductive RequestTarget where
  | origin (path : String) (query : Option String) (valid : ValidPath path) (valid_query : ValidQuery query)
  | absolute (scheme authority path : String) (query : Option String) (valid : ValidPath path)
      (valid_query : ValidQuery query) (valid_scheme : ValidScheme scheme)

namespace RequestTarget

def path : RequestTarget → String
  | origin path _ _ _ => path
  | absolute _ _ path _ _ _ _ => path

def query : RequestTarget → Option String
  | origin _ query _ _ => query
  | absolute _ _ _ query _ _ _ => query

/-- The query with its question mark. -/
def query_text (t : RequestTarget) : String :=
  match t.query with
  | some query => "?" ++ query
  | none => ""

/-- What stands before the path. -/
def front : RequestTarget → String
  | origin _ _ _ _ => ""
  | absolute scheme authority _ _ _ _ _ => scheme ++ "://" ++ authority

def IsOrigin : RequestTarget → Prop
  | origin _ _ _ _ => True
  | absolute _ _ _ _ _ _ _ => False

end RequestTarget

/-- What `handle_request` uses of `http::Uri`: its path, and its text, which is
the request target again. -/
structure UriType where
  Uri : Type
  parse : RequestTarget → Uri
  path : Uri → String
  to_string : Uri → String
  path_parse : ∀ t, path (parse t) = t.path
  to_string_parse : ∀ t, to_string (parse t) = t.front ++ t.path ++ t.query_text

/-- What `handle_request` looks the route up with, and the URL that it passes on. -/
structure Forwarded where
  host : String
  path : String
  url : String

/-- The host, the path and the URL of `handle_request`. -/
def handle_request (U : UriType) (header : Option String) (uri : U.Uri) : Forwarded :=
  let host := rewrite_host header
  ⟨host, U.path uri, "https://" ++ rewrite_host (some host) ++ U.to_string uri⟩

/-! ## What the worker should see -/

/-- The host and the path that a worker finds with `new URL(url)`. -/
def seen (J : LowerCase) (url : String) : Except Url.JsError (JsString × JsString) := do
  let o ← new_url J (code_units url) none
  return (o.url.hostname, o.url.pathname)

/-- The URL is the host without its port, the path and the query of the request;
the worker finds in it the host and the path that the route was looked up with. -/
structure SeesRoute (J : LowerCase) (U : UriType) (header : HostHeader) (target : RequestTarget) : Prop where
  url : (handle_request U (some header.text) (U.parse target)).url
    = "https://" ++ header.host.text ++ target.path ++ target.query_text
  routed : seen J (handle_request U (some header.text) (U.parse target)).url
    = .ok (code_units (handle_request U (some header.text) (U.parse target)).host,
      code_units (handle_request U (some header.text) (U.parse target)).path)

/-! ## The host -/

/-- What stands before the first colon. -/
theorem rewrite_host_toList (text : String) : (rewrite_host (some text)).toList = text.toList.takeWhile (· ≠ ':') :=
  String.toList_ofList

/-- A second trim changes nothing. -/
theorem rewrite_host_twice (header : Option String) : rewrite_host (some (rewrite_host header)) = rewrite_host header := by
  refine String.toList_injective ?_
  rw [rewrite_host_toList]
  unfold rewrite_host
  rw [String.toList_ofList, List.takeWhile_idem]

/-- The characters of a name and of an IPv4 address. -/
theorem host_chars {host : Host} (h : ¬ host.IsIpv6) {c : Char} (hc : c ∈ host.text.toList) :
    reg_name_char c = true := by
  cases host with
  | name text valid => exact List.all_eq_true.1 valid c hc
  | ipv4 text valid =>
    have hvalid := List.all_eq_true.1 valid c hc
    rw [ipv4_char, Bool.or_eq_true, decide_eq_true_eq] at hvalid
    rcases hvalid with hdigit | rfl
    · rw [reg_name_char, Char.isAlphanum, hdigit, Bool.or_true, Bool.true_or]
    · decide
  | ipv6 => exact absurd trivial h

theorem header_toList (header : HostHeader) :
    header.text.toList = header.host.text.toList ∨ ∃ port, header.text.toList = header.host.text.toList ++ ':' :: port := by
  unfold HostHeader.text
  split
  · rename_i port _
    refine Or.inr ⟨port.toList, ?_⟩
    rw [String.toList_append, String.toList_append, List.append_assoc]
    rfl
  · exact Or.inl rfl

/-- The first colon is where the trim cuts. -/
theorem takeWhile_colon {before : List Char} (h : ':' ∉ before) (after : List Char) :
    (before ++ ':' :: after).takeWhile (· ≠ ':') = before := by
  have hbefore : ∀ c ∈ before, decide (c ≠ ':') = true := fun c hc => decide_eq_true fun heq => h (heq ▸ hc)
  rw [List.takeWhile_append_of_pos hbefore, List.takeWhile_cons_of_neg (by decide), List.append_nil]

/-- A host without colons is what the trim leaves. -/
theorem rewrite_host_name {header : HostHeader} (h : ¬ header.host.IsIpv6) :
    rewrite_host (some header.text) = header.host.text := by
  refine String.toList_injective ?_
  have hcolon : ':' ∉ header.host.text.toList := by
    intro hmem
    exact absurd (host_chars h hmem) (by decide)
  rw [rewrite_host_toList]
  rcases header_toList header with htext | ⟨port, htext⟩
  · rw [htext, List.takeWhile_eq_self_iff]
    exact fun c hc => decide_eq_true fun heq => hcolon (heq ▸ hc)
  · rw [htext, takeWhile_colon hcolon]

theorem colon_of_ipv6 {host : Host} (h : host.IsIpv6) : ':' ∈ host.text.toList := by
  cases host with
  | name | ipv4 => exact absurd h fun hno => hno
  | ipv6 text valid colon =>
    simp only [Host.text, String.toList_append]
    exact List.mem_append_left _ (List.mem_append_right _ colon)

/-- An IPv6 address is cut off at its first colon. -/
theorem rewrite_host_ipv6 {header : HostHeader} (h : header.host.IsIpv6) :
    ∃ rest, header.host.text.toList = (rewrite_host (some header.text)).toList ++ ':' :: rest := by
  obtain ⟨before, rest, hsplit, hbefore⟩ := List.eq_append_cons_of_mem (colon_of_ipv6 h)
  refine ⟨rest, ?_⟩
  rw [rewrite_host_toList]
  rcases header_toList header with htext | ⟨port, htext⟩
  · rw [htext, hsplit, takeWhile_colon hbefore]
  · rw [htext, hsplit, List.append_assoc, List.cons_append, takeWhile_colon hbefore]

/-! ## The URL -/

section Urls

variable {U : UriType} {header : HostHeader} {target : RequestTarget}

/-- The URL has the whole request target after the trimmed host. -/
theorem forwarded_url (U : UriType) (header : HostHeader) (target : RequestTarget) :
    (handle_request U (some header.text) (U.parse target)).url.toList
      = "https://".toList ++ ((rewrite_host (some header.text)).toList ++ target.front.toList)
        ++ (target.path.toList ++ target.query_text.toList) := by
  simp only [handle_request, rewrite_host_twice, U.to_string_parse, String.toList_append, List.append_assoc]

/-- The URL is right when what stands before the path is. -/
theorem url_iff (U : UriType) :
    (handle_request U (some header.text) (U.parse target)).url
        = "https://" ++ header.host.text ++ target.path ++ target.query_text
      ↔ (rewrite_host (some header.text)).toList ++ target.front.toList = header.host.text.toList := by
  rw [← String.toList_inj, forwarded_url]
  simp only [String.toList_append, List.append_assoc, List.append_cancel_left_eq]
  rw [← List.append_assoc, List.append_cancel_right_eq]

/-- Nothing but a name or an IPv4 address, with a target in origin form, goes
together. -/
theorem front_iff :
    (rewrite_host (some header.text)).toList ++ target.front.toList = header.host.text.toList
      ↔ target.IsOrigin ∧ ¬ header.host.IsIpv6 := by
  constructor
  · intro heq
    by_cases hv6 : header.host.IsIpv6
    · exfalso
      obtain ⟨rest, hrest⟩ := rewrite_host_ipv6 hv6
      rw [hrest, List.append_cancel_left_eq] at heq
      -- no scheme begins with the colon
      cases target with
      | origin => cases heq
      | absolute scheme authority path query valid valid_query valid_scheme =>
        simp only [RequestTarget.front, String.toList_append, List.append_assoc] at heq
        cases hscheme : scheme.toList with
        | nil => exact valid_scheme.nonempty hscheme
        | cons c cs =>
          rw [hscheme, List.cons_append] at heq
          obtain ⟨rfl, -⟩ := List.cons.inj heq
          exact valid_scheme.no_colon (hscheme ▸ List.mem_cons_self)
    · rw [rewrite_host_name hv6] at heq
      refine ⟨?_, hv6⟩
      cases target with
      | origin => trivial
      | absolute scheme authority path query valid valid_query valid_scheme =>
        -- the scheme makes the URL longer
        have hlen := congrArg List.length heq
        simp only [RequestTarget.front, String.toList_append, List.length_append] at hlen
        have hslashes : "://".toList.length = 3 := rfl
        omega
  · rintro ⟨horigin, hv6⟩
    rw [rewrite_host_name hv6]
    cases target with
    | origin => exact List.append_nil _
    | absolute => exact absurd horigin fun hno => hno

theorem RequestTarget.valid_path (target : RequestTarget) : ValidPath target.path := by
  cases target with
  | origin path query valid valid_query => exact valid
  | absolute scheme authority path query valid valid_query valid_scheme => exact valid

theorem RequestTarget.valid_query (target : RequestTarget) : ValidQuery target.query := by
  cases target with
  | origin path query valid valid_query => exact valid_query
  | absolute scheme authority path query valid valid_query valid_scheme => exact valid_query

/-! ## Units -/

theorem toNat_unit {c : Char} (h : c.toNat < 128) : (unit c).toNat = c.toNat := by
  rw [unit, UInt16.toNat_ofNat_of_lt' (by have h16 : UInt16.size = 65536 := rfl; omega)]

theorem reg_name_unit {c : Char} (h : reg_name_char c = true) : c.toNat < 128 ∧ Url.is_name_unit (unit c) := by
  have hmarks : "-._~!$&'()*+,;=%".toList.all (fun c => decide (c.toNat < 128)) = true := by decide
  have hlt : c.toNat < 128 := by
    rw [reg_name_char, Bool.or_eq_true] at h
    rcases h with h | h
    · have hnumber : NumberText.is_number_char c = true := by rw [NumberText.is_number_char, h, Bool.true_or, Bool.true_or]
      have hnum := NumberText.is_number_char_toNat hnumber
      simp only [List.mem_cons, List.not_mem_nil, or_false] at hnum
      omega
    · exact of_decide_eq_true (List.all_eq_true.1 hmarks c (of_decide_eq_true h))
  -- one of 128 characters
  have hall : ∀ n < 128, reg_name_char (Char.ofNat n) = true → Url.is_name_unit (unit (Char.ofNat n)) := by
    decide +kernel
  refine ⟨hlt, ?_⟩
  have hc := hall c.toNat hlt
  rw [Char.ofNat_toNat] at hc
  exact hc h

theorem path_unit {c : Char} (h : path_char c = true) : c.toNat < 128 ∧ Url.is_target_unit (unit c) := by
  have hall : ∀ n < 128, path_char (Char.ofNat n) = true → Url.is_target_unit (unit (Char.ofNat n)) := by
    decide +kernel
  have hlt : c.toNat < 128 := by
    simp only [path_char, Bool.or_eq_true, decide_eq_true_eq] at h
    rcases h with ((h | rfl) | rfl) | rfl
    · omega
    · decide
    · decide
    · decide
  refine ⟨hlt, ?_⟩
  have hc := hall c.toNat hlt
  rw [Char.ofNat_toNat] at hc
  exact hc h

theorem query_unit {c : Char} (h : query_char c = true) : c.toNat < 128 ∧ 32 < c.toNat := by
  rw [query_char, decide_eq_true_eq] at h
  omega

/-- The units of a string of ASCII. -/
theorem mem_code_units {s : String} {P : Char → Prop} (hP : ∀ c, P c → c.toNat < 128) (hs : ∀ c ∈ s.toList, P c)
    {u : UInt16} (hu : u ∈ code_units s) : ∃ c, P c ∧ u = unit c := by
  rw [Url.code_units_ascii fun c hc => hP c (hs c hc)] at hu
  obtain ⟨c, hc, rfl⟩ := List.mem_map.1 hu
  exact ⟨c, hs c hc, rfl⟩

theorem path_units (target : RequestTarget) :
    ∃ rest, code_units target.path = unit '/' :: rest ∧ ∀ u ∈ rest, Url.is_target_unit u := by
  have hvalid := target.valid_path
  have hchars := List.all_eq_true.1 hvalid.chars
  obtain ⟨rest, hrest⟩ := List.head?_eq_some_iff.1 hvalid.slash
  rw [Url.code_units_ascii fun c hc => (path_unit (hchars c hc)).1, hrest]
  refine ⟨rest.map unit, rfl, fun u hu => ?_⟩
  obtain ⟨c, hc, rfl⟩ := List.mem_map.1 hu
  exact (path_unit (hchars c (hrest ▸ List.mem_cons_of_mem _ hc))).2

theorem query_units (target : RequestTarget) :
    (∀ u ∈ code_units target.query_text, Url.is_ascii u ∧ ¬ Url.is_space u)
      ∧ (code_units target.query_text = [] ∨ ∃ q, code_units target.query_text = unit '?' :: q) := by
  have hmark : code_units "?" = [unit '?'] := by decide
  unfold RequestTarget.query_text
  cases hquery : target.query with
  | none => exact ⟨fun u hu => (List.not_mem_nil hu).elim, Or.inl rfl⟩
  | some query =>
    have hchars := List.all_eq_true.1 (target.valid_query query hquery)
    refine ⟨fun u hu => ?_, Or.inr ⟨code_units query, ?_⟩⟩
    · rw [Url.code_units_append, hmark] at hu
      rcases List.mem_cons.1 hu with rfl | hu
      · decide
      · obtain ⟨c, hc, rfl⟩ := mem_code_units (fun c hc => (query_unit hc).1) hchars hu
        have hnum := toNat_unit (query_unit hc).1
        refine ⟨Url.is_ascii_iff.2 (hnum ▸ (query_unit hc).1), Url.not_space_of_lt ?_⟩
        rw [hnum]
        exact (query_unit hc).2
    · rw [Url.code_units_append, hmark]
      rfl

/-- A host is its lower case when no letter of it is upper case. -/
theorem lower_host_iff (J : LowerCase) {host : Host} (h : ¬ host.IsIpv6) :
    J.to_lower_case (code_units host.text) = code_units host.text ↔ ∀ c ∈ host.text.toList, ¬ c.isUpper = true := by
  have hascii : ∀ c ∈ host.text.toList, c.toNat < 128 := fun c hc => (reg_name_unit (host_chars h hc)).1
  have hlower : ∀ n < 128, Url.ascii_lower (unit (Char.ofNat n)) = unit (Char.ofNat n) ↔ ¬ (Char.ofNat n).isUpper = true := by
    decide +kernel
  have hunits : ∀ u ∈ code_units host.text, Url.is_ascii u := by
    intro u hu
    obtain ⟨c, hc, rfl⟩ := mem_code_units (fun c hc => hc) hascii hu
    rw [Url.is_ascii_iff, toNat_unit hc]
    exact hc
  rw [J.ascii _ hunits, Url.code_units_ascii hascii, List.map_map, List.map_inj_left]
  refine forall₂_congr fun c hc => ?_
  have hc := hlower c.toNat (hascii c hc)
  rw [Char.ofNat_toNat] at hc
  exact hc

/-! ## The theorem -/

theorem seen_ok_iff {J : LowerCase} {url : String} {host path : JsString} :
    seen J url = .ok (host, path)
      ↔ ∃ o, new_url J (code_units url) none = .ok o ∧ o.url.hostname = host ∧ o.url.pathname = path := by
  unfold seen
  cases hnew : new_url J (code_units url) none with
  | error e => exact iff_of_false (fun h => nomatch h) fun ⟨_, h, _⟩ => nomatch h
  | ok o =>
    constructor
    · intro h
      cases h
      exact ⟨o, rfl, rfl, rfl⟩
    · rintro ⟨_, heq, rfl, rfl⟩
      cases heq
      rfl

/-- **The worker sees the URL that it was routed by.** For every `Host` header and every request
target: the URL that is passed on is `https://`, the host of the header without its port, the path
and the query of the target, and the worker finds in it the host and the path that the route was
looked up with, iff the target is in origin form, the host is a name or an IPv4 address, not empty
and without upper-case letters, and the path is one that `new URL` does not rewrite. -/
theorem sees_route_iff (J : LowerCase) (U : UriType) (header : HostHeader) (target : RequestTarget) :
    SeesRoute J U header target ↔ target.IsOrigin ∧ ¬ header.host.IsIpv6 ∧ header.host.text ≠ ""
      ∧ (∀ c ∈ header.host.text.toList, ¬ c.isUpper = true) ∧ Url.Kept (code_units target.path) := by
  have hparse : ¬ header.host.IsIpv6 → (seen J ("https://" ++ header.host.text ++ target.path ++ target.query_text)
        = .ok (code_units header.host.text, code_units target.path)
      ↔ header.host.text ≠ "" ∧ (∀ c ∈ header.host.text.toList, ¬ c.isUpper = true)
        ∧ Url.Kept (code_units target.path)) := by
    intro hv6
    obtain ⟨rest, hpath, hrest⟩ := path_units target
    obtain ⟨hquery, hfirst⟩ := query_units target
    have hname : ∀ u ∈ code_units header.host.text, Url.is_name_unit u := by
      intro u hu
      obtain ⟨c, hc, rfl⟩ := mem_code_units (fun c hc => (reg_name_unit hc).1) (fun c hc => host_chars hv6 hc) hu
      exact (reg_name_unit hc).2
    have hnil : code_units header.host.text ≠ [] ↔ header.host.text ≠ "" := by
      rw [Url.code_units_ascii fun c hc => (reg_name_unit (host_chars hv6 hc)).1, ne_eq, List.map_eq_nil_iff,
        String.toList_eq_nil_iff]
    have htext : code_units ("https://" ++ header.host.text ++ target.path ++ target.query_text)
        = Url.https_text (code_units header.host.text) (unit '/' :: rest) (code_units target.query_text) := by
      have hscheme : code_units "https://" = js "https" ++ [unit ':', unit '/', unit '/'] := by decide
      rw [Url.code_units_append, Url.code_units_append, Url.code_units_append, hscheme, hpath, Url.https_text]
      simp only [List.append_assoc, List.cons_append, List.nil_append]
    rw [seen_ok_iff, htext, hpath, Url.new_url_https_iff J hname hrest hquery hfirst, hnil, lower_host_iff J hv6]
  constructor
  · intro h
    obtain ⟨horigin, hv6⟩ := front_iff.1 ((url_iff U).1 h.url)
    refine ⟨horigin, hv6, (hparse hv6).1 ?_⟩
    have hrouted := h.routed
    rw [h.url] at hrouted
    simpa only [handle_request, rewrite_host_name hv6, U.path_parse] using hrouted
  · rintro ⟨horigin, hv6, hrest⟩
    have hurl := (url_iff U).2 (front_iff.2 ⟨horigin, hv6⟩)
    refine ⟨hurl, ?_⟩
    rw [hurl]
    simpa only [handle_request, rewrite_host_name hv6, U.path_parse] using (hparse hv6).2 hrest

/-! ## Requests that see another URL -/

/-- A `Uri` that is its request target. -/
def http_uri : UriType where
  Uri := RequestTarget
  parse t := t
  path := RequestTarget.path
  to_string t := t.front ++ t.path ++ t.query_text
  path_parse _ := rfl
  to_string_parse _ := rfl

/-- `Host: a.com:443`. -/
def named_host : HostHeader := ⟨.name "a.com" (by decide), some "443"⟩

/-- `Host: A.com`. -/
def upper_host : HostHeader := ⟨.name "A.com" (by decide), none⟩

/-- `Host: [::1]:443`. -/
def bracketed_host : HostHeader := ⟨.ipv6 "::1" (by decide) (by decide), some "443"⟩

/-- `GET /x?y`. -/
def origin_target : RequestTarget := .origin "/x" (some "y") ⟨by decide, by decide⟩ (by decide)

/-- `GET /admin/../x`. -/
def dotted_target : RequestTarget := .origin "/admin/../x" none ⟨by decide, by decide⟩ (by decide)

/-- `GET http://b.com/x?y`. -/
def absolute_target : RequestTarget :=
  .absolute "http" "b.com" "/x" (some "y") ⟨by decide, by decide⟩ (by decide) ⟨by decide, by decide⟩

/-- An absolute target ends up in the host and in the path that the worker sees, and of an IPv6
address the worker sees the bracket. An upper-case host and a path with dots are routed as they are. -/
theorem other_host_seen :
    (handle_request http_uri (some named_host.text) (http_uri.parse absolute_target)).url
        = "https://a.comhttp://b.com/x?y"
      ∧ seen Url.ascii_case "https://a.comhttp://b.com/x?y" = .ok (js "a.comhttp", js "//b.com/x")
      ∧ ¬ SeesRoute Url.ascii_case http_uri named_host absolute_target
      ∧ (handle_request http_uri (some bracketed_host.text) (http_uri.parse origin_target)).url = "https://[/x?y"
      ∧ ¬ SeesRoute Url.ascii_case http_uri bracketed_host origin_target
      ∧ seen Url.ascii_case (handle_request http_uri (some upper_host.text) (http_uri.parse origin_target)).url
        = .ok (js "a.com", js "/x")
      ∧ ¬ SeesRoute Url.ascii_case http_uri upper_host origin_target
      ∧ seen Url.ascii_case (handle_request http_uri (some named_host.text) (http_uri.parse dotted_target)).url
        = .ok (js "a.com", js "/x")
      ∧ ¬ SeesRoute Url.ascii_case http_uri named_host dotted_target := by
  have hother : seen Url.ascii_case "https://a.comhttp://b.com/x?y" = .ok (js "a.comhttp", js "//b.com/x") := by
    decide +kernel
  have hupper : seen Url.ascii_case (handle_request http_uri (some upper_host.text) (http_uri.parse origin_target)).url
      = .ok (js "a.com", js "/x") := by
    decide +kernel
  have hdotted : seen Url.ascii_case (handle_request http_uri (some named_host.text) (http_uri.parse dotted_target)).url
      = .ok (js "a.com", js "/x") := by
    decide +kernel
  refine ⟨by decide, hother, fun h => ?_, by decide, fun h => ?_, hupper, fun h => ?_, hdotted, fun h => ?_⟩
  · exact absurd h.url (by decide)
  · exact absurd h.url (by decide)
  · exact absurd (hupper.symm.trans h.routed) (by decide)
  · exact absurd (hdotted.symm.trans h.routed) (by decide)

end Urls

end RequestUrl

end RustyWorkers

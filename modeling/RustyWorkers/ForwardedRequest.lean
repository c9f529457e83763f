/-
A request on its way through a worker that forwards it: `handle_request`
(`rusty-workers-proxy/src/sched.rs`), `_dispatchEvent` (`librt/src/std.js`), the
`Request` and the `fetch` of `deps/worker-fetch`, `handle_task`
(`rusty-workers-runtime/src/io.rs`) and `run_fetch`
(`rusty-workers-fetchd/src/server.rs`). The worker is
`playground/scripts/reverse-proxy.js`: it answers with `fetch(event.request)`.

The headers are grouped by the proxy, taken apart by `_dispatchEvent`, copied by
two `Request`s, joined to one value for each name by `Headers.entries`, collected
in an object that inherits from `Object.prototype`, and taken apart again by the
service, which drops the host. The URL is parsed (`Url.new_url`) and printed by each
`Request`. A body makes it through unless the method is `GET` or `HEAD`.

What is not part of the repository is a parameter: `URLSearchParams` as in
`ResponseHeaders`, and what two more libraries make of a URL (`Urls`).
-/
import RustyWorkers.ResponseHeaders
import RustyWorkers.RouteCache
import RustyWorkers.Url

set_option autoImplicit false

namespace RustyWorkers

open Lib

namespace ForwardedRequest

open Multimap
open RespondWith (JsString js)
open ResponseHeaders (Pairs JsError URLSearchParams Object Fixed)
open Url (code_units)

/-- What is done with a URL outside of the repository: `toLowerCase`, which `new URL`
calls, `formatUrl` of the npm package `url`, and `reqwest::Url::parse`. -/
structure Urls where
  lower : Url.LowerCase
  format_url : Url.JUrl → String
  parse : String → Except String String

/-- An exception of `new URL`; the only scheme that asks for a base is `file`, and
the first thing that it reads there is the host. -/
def url_error : Url.JsError → JsError
  | .uri_error => .Error "URI malformed"
  | .type_error => .TypeError "Cannot read property '_host' of undefined"

/-- `new URL(url)`. -/
def Urls.new_url (urls : Urls) (url : String) : Except JsError Url.JUrl :=
  (Url.new_url urls.lower (code_units url) none).mapError url_error

/-- `formatUrl(new URL(url))`. -/
def Urls.format (urls : Urls) (url : String) : Except JsError String := do
  let parsedURL ← urls.new_url url
  return urls.format_url parsedURL

/-- `new URL(url).protocol`. -/
def Urls.protocol (urls : Urls) (url : String) : Except JsError JsString := do
  let parsedURL ← urls.new_url url
  return parsedURL.url.protocol

/-- A request as `hyper` has read it: the method and the names are tokens, the
names in lower case, and the values can be read as strings. -/
structure Incoming where
  method : String
  headers : Pairs
  body : Bytes
  method_token : method.toList ≠ [] ∧ method.toList.all ResponseHeaders.token_char = true
  names : ∀ p ∈ headers, p.1.toList ≠ [] ∧ ∀ c ∈ p.1.toList, ResponseHeaders.token_char c = true ∧ c.toLower = c
  values : ∀ p ∈ headers, ResponseHeaders.to_str p.2 = .ok p.2

/-! ## The proxy -/

/-- `req.headers_mut().insert("host", host)`, which replaces all values. -/
def insert_host (headers : Pairs) : Pairs :=
  ("host", Routing.rewrite_host (headers.lookup "host")) :: headers.filter fun p => p.1 ≠ "host"

/-- The `RequestObject` of `handle_request`, which collects the headers as
`run_fetch` does; `url` is the URL that it has put together. -/
def handle_request (url : String) (i : Incoming) : Except String RequestObject := do
  let headers ← ResponseHeaders.run_fetch (insert_host i.headers)
  return ⟨headers, i.method, url, i.body⟩

/-! ## `Request` -/

variable (usp : URLSearchParams) (urls : Urls)

/-- The part of a `Request` that `fetch` reads; `body` is a `Buffer`, or `null`. -/
structure Request where
  method : String
  url : String
  headers : usp.T
  body : Option Bytes

/-- `String.toUpperCase`, on the characters of a token. -/
def toUpperCase (s : String) : String := String.ofList (s.toList.map Char.toUpper)

/-- The constructor, for the members of `init` or of another `Request`. A body
that is a buffer has no content type, and is handed on by `clone`. -/
def Request.new (url method : String) (headers : usp.T) (body : Option Bytes) : Except JsError (Request usp) := do
  let url ← urls.format url
  let method := toUpperCase (if method = "" then "GET" else method)
  if body.isSome ∧ (method = "GET" ∨ method = "HEAD") then
    .error (.TypeError "Request with GET/HEAD method cannot have body")
  else
    let headers ← ResponseHeaders.Headers.copy usp headers
    return ⟨method, url, headers, body⟩

/-- `_dispatchEvent`, up to the `FetchEvent`. -/
def dispatchEvent (rawReq : RequestObject) : Except JsError (Request usp) := do
  let headers ← ResponseHeaders.Headers.new usp (spread rawReq.headers)
  let body := if rawReq.body = [] then none else some rawReq.body
  Request.new usp urls rawReq.url rawReq.method headers body

/-! ## `fetch` -/

/-- `JSON.stringify` escapes of a character. -/
def json_escape (c : Char) : List Char :=
  if c = '"' then ['\\', '"'] else if c = '\\' then ['\\', '\\'] else if c = '\t' then ['\\', 't']
  else if c = '\n' then ['\\', 'n'] else if c = '\r' then ['\\', 'r'] else if c = '\x08' then ['\\', 'b']
  else if c = '\x0c' then ['\\', 'f']
  else if c.toNat < 32 then ['\\', 'u', '0', '0', Nat.digitChar (c.toNat / 16), Nat.digitChar (c.toNat % 16)]
  else [c]

def json_text (s : String) : List Char := '"' :: s.toList.flatMap json_escape ++ ['"']

/-- `JSON.stringify` of the call. -/
def json_fetch (method url : String) (headers : Object (List (Option String))) : List Char :=
  "\x7b\"Async\":\x7b\"Fetch\":\x7b\"method\":".toList ++ json_text method ++ ",\"url\":".toList ++ json_text url
    ++ ",\"headers\":\x7b".toList ++ ResponseHeaders.json_list (headers.map ResponseHeaders.json_entry)
    ++ "\x7d\x7d\x7d\x7d".toList

/-- `call_service_callback`, for a `Fetch`. -/
def send_fetch (method url : String) (headers : Object (List (Option String))) : Except JsError RequestObject :=
  if 65536 < ResponseHeaders.utf8_length (json_fetch method url headers) then
    .error (.Error "call string too large")
  else
    match headers.mapM fun e => (e.2.mapM id).map fun vs => (e.1, vs) with
    | some headers => .ok ⟨headers, method, url, []⟩
    | none => .error (.Error "conversion error")

/-- `collectRequestHeaders`. -/
def collectRequestHeaders (headers : usp.T) : Except JsError (Object (List (Option String))) := do
  let entries ← ResponseHeaders.Headers.entries usp headers
  entries.foldlM ResponseHeaders.push_value []

/-- `protocol.replace(/:$/, '')`; the units of a scheme are characters. -/
def strip_colon (protocol : JsString) : String :=
  let text := protocol.map fun u => Char.ofNat u.toNat
  String.ofList (if text.getLast? = some ':' then text.dropLast else text)

/-- `fetch`, called with a `Request`: the call and its buffer; `none` for a `data:`
URL, which is answered without a call. -/
def fetch (input : Request usp) : Except JsError (Option (RequestObject × Bytes)) := do
  let request ← Request.new usp urls input.url input.method input.headers input.body
  let protocol ← urls.protocol request.url
  if protocol ∉ [js "data:", js "http:", js "https:"] then
    .error (.TypeError ("node-fetch cannot load [object Request]. URL scheme \"" ++ strip_colon protocol
      ++ "\" is not supported."))
  else if protocol = js "data:" then .ok none
  else
    let headers ← collectRequestHeaders usp request.headers
    let req ← send_fetch request.method request.url headers
    return some (req, request.body.getD [])

/-! ## The service -/

/-- A request that the service executes. -/
structure Target where
  method : String
  url : String
  headers : Pairs
  body : Bytes

/-- `Method::from_bytes`. -/
def parse_method (method : String) : Except String String :=
  if method.toList ≠ [] ∧ method.toList.all ResponseHeaders.token_char = true then .ok method
  else .error "invalid HTTP method"

/-- `HeaderName::from_bytes`. -/
def header_name (name : String) : Except String String :=
  if name.toList ≠ [] ∧ name.toList.all ResponseHeaders.token_char = true then
    .ok (ResponseHeaders.toLowerCase name)
  else .error "invalid HTTP header name"

/-- `HeaderValue::from_str`, which takes what `to_str` takes. -/
def header_value (value : String) : Except String String :=
  match ResponseHeaders.to_str value with
  | .ok value => .ok value
  | .error _ => .error "failed to parse header value"

/-- `run_fetch`, up to the execution of the request. -/
def target_req (req : RequestObject) : Except String Target := do
  let url ← urls.parse req.url
  let method ← parse_method req.method
  let headers ← (spread req.headers).mapM fun p => do return (← header_name p.1, ← header_value p.2)
  return ⟨method, url, headers.filter fun p => p.1 ≠ "host", req.body⟩

/-! ## The whole way -/

/-- Who has stopped a request: the proxy, `_dispatchEvent`, the `fetch` of the
script, `handle_task`, the service; or nobody has asked for it. -/
inductive Stopped where
  | proxy (text : String)
  | dispatch (e : JsError)
  | script (e : JsError)
  | host (stop : Stop)
  | service (text : String)
  | no_call

/-- From the request that the proxy reads to the one that the service executes. -/
def forward (url : String) (i : Incoming) : Except Stopped Target := do
  let rawReq ← (handle_request url i).mapError .proxy
  let request ← (dispatchEvent usp urls rawReq).mapError .dispatch
  match ← (fetch usp urls request).mapError .script with
  | none => throw .no_call
  | some (req, requestBody) =>
    let body ← (read_buffer [requestBody] 0 MAX_FETCH_REQUEST_BODY_SIZE "missing body"
      "fetch request body too large").mapError .host
    (target_req urls { req with body := body }).mapError .service

/-- The names of the headers, once each. -/
def Incoming.header_names (i : Incoming) : List String := ((insert_host i.headers).map Prod.fst).dedup

/-- The request that is executed is the one that came in: its URL as the three
libraries read it, the method in upper case, the body, and every header but the
host with its values joined. -/
structure Carries (url : String) (i : Incoming) (target : Target) : Prop where
  url : ∃ seen sent, urls.format url = .ok seen ∧ urls.format seen = .ok sent ∧ urls.parse sent = .ok target.url
  method : target.method = toUpperCase i.method
  body : target.body = i.body
  headers : ∀ name, values target.headers name
    = if name ∈ i.headers.map Prod.fst ∧ name ≠ "host" then [ResponseHeaders.joined i.headers name] else []

/-- What a request must be to get through; `seen` is its URL as the script sees
it, and `sent` the one that its `fetch` sends. -/
structure Fit (url seen sent : String) (i : Incoming) : Prop where
  dispatched : urls.format url = .ok seen
  fetched : urls.format seen = .ok sent
  remote : urls.protocol sent = .ok (js "http:") ∨ urls.protocol sent = .ok (js "https:")
  parsed : ∃ parsed, urls.parse sent = .ok parsed
  bodiless : i.body = [] ∨ toUpperCase i.method ≠ "GET" ∧ toUpperCase i.method ≠ "HEAD"
  body_size : i.body.length ≤ MAX_FETCH_REQUEST_BODY_SIZE
  inherited : "constructor" ∉ i.headers.map Prod.fst
  size : ResponseHeaders.utf8_length (json_fetch (toUpperCase i.method) sent
    (i.header_names.map fun k => (k, [some (ResponseHeaders.joined (insert_host i.headers) k)]))) ≤ 65536

/-! ## Names, values and methods -/

theorem token_toUpper {c : Char} (h : ResponseHeaders.token_char c = true) :
    ResponseHeaders.token_char c.toUpper = true := by
  unfold ResponseHeaders.token_char at h ⊢
  by_cases hlower : c.isLower = true
  · have halpha : c.toUpper.isAlpha = true := by
      rw [Char.isAlpha_toUpper_eq_isAlpha, Char.isAlpha, hlower, Bool.or_true]
    rw [Char.isAlphanum, halpha, Bool.true_or, Bool.true_or]
  · rwa [Char.toUpper_eq_of_not_isLower hlower]

theorem toUpperCase_twice (s : String) : toUpperCase (toUpperCase s) = toUpperCase s := by
  rw [toUpperCase, toUpperCase, String.toList_ofList, List.map_map]
  refine congrArg String.ofList (List.map_congr_left fun c _ => ?_)
  exact Char.toUpper_toUpper_eq_toUpper c

theorem toUpperCase_ne (s : String) (h : s.toList ≠ []) : toUpperCase s ≠ "" := by
  intro hempty
  have hlist := congrArg String.toList hempty
  rw [toUpperCase, String.toList_ofList] at hlist
  exact h (List.map_eq_nil_iff.1 hlist)

theorem parse_method_upper (i : Incoming) : parse_method (toUpperCase i.method) = .ok (toUpperCase i.method) := by
  obtain ⟨hne, hall⟩ := i.method_token
  rw [parse_method, if_pos]
  rw [toUpperCase, String.toList_ofList]
  refine ⟨fun hnil => hne (List.map_eq_nil_iff.1 hnil), List.all_eq_true.2 fun c hc => ?_⟩
  obtain ⟨c', hc', rfl⟩ := List.mem_map.1 hc
  exact token_toUpper (List.all_eq_true.1 hall c' hc')

/-- A character that `to_str` takes. -/
def readable (c : Char) : Prop := c = '\t' ∨ ' ' ≤ c ∧ c ≤ '~'

theorem to_str_ok_iff (v : String) : ResponseHeaders.to_str v = .ok v ↔ ∀ c ∈ v.toList, readable c := by
  unfold ResponseHeaders.to_str readable
  constructor
  · intro h
    split at h
    · rename_i hall
      intro c hc
      simpa using List.all_eq_true.1 hall c hc
    · cases h
  · intro h
    rw [if_pos]
    rw [List.all_eq_true]
    intro c hc
    simpa using h c hc

theorem readable_toLower {c : Char} (h : readable c) : readable c.toLower := by
  by_cases hupper : c.isUpper = true
  · have hlower : c.toLower.isLower = true := by
      rw [Char.isLower_toLower_eq_isAlpha, Char.isAlpha, hupper, Bool.true_or]
    rw [Char.isLower, Bool.and_eq_true, decide_eq_true_eq, decide_eq_true_eq] at hlower
    refine Or.inr ⟨?_, ?_⟩
    · exact le_trans (by decide : ' ' ≤ 'a') hlower.1
    · exact le_trans hlower.2 (by decide : 'z' ≤ '~')
  · rwa [Char.toLower_eq_of_not_isUpper hupper]

theorem readable_intercalate {vs : List String} (h : ∀ v ∈ vs, ∀ c ∈ v.toList, readable c) :
    ∀ c ∈ (String.intercalate ", " vs).toList, readable c := by
  have hcomma : ∀ c ∈ (", " : String).toList, readable c := by
    intro c hc
    obtain rfl | rfl : c = ',' ∨ c = ' ' := by simpa using hc
    · exact Or.inr ⟨by decide, by decide⟩
    · exact Or.inr ⟨by decide, by decide⟩
  induction vs with
  | nil => simp
  | cons v vs ih =>
      obtain ⟨hv, hvs⟩ := List.forall_mem_cons.1 h
      cases vs with
      | nil =>
          rw [String.intercalate_singleton]
          exact hv
      | cons w vs =>
          intro c hc
          rw [String.intercalate_cons_cons, String.toList_append, String.toList_append, List.mem_append,
            List.mem_append] at hc
          rcases hc with (hc | hc) | hc
          · exact hv c hc
          · exact hcomma c hc
          · exact ih hvs c hc

/-- The one value of a name can be read if all of them can. -/
theorem readable_joined {ps : Pairs} (h : ∀ p ∈ ps, ∀ c ∈ p.2.toList, readable c) (name : String) :
    ∀ c ∈ (ResponseHeaders.joined ps name).toList, readable c := by
  have hvalues : ∀ v ∈ values ps name, ∀ c ∈ v.toList, readable c := by
    intro v hv
    exact h (name, v) (mem_iff_values.2 hv)
  have hjoined := readable_intercalate hvalues
  unfold ResponseHeaders.joined
  dsimp only
  split
  · rw [ResponseHeaders.toLowerCase, String.toList_ofList]
    intro c hc
    obtain ⟨c', hc', rfl⟩ := List.mem_map.1 hc
    exact readable_toLower (hjoined c' hc')
  · exact hjoined

/-! ## The headers in the proxy -/

theorem mem_insert_host {headers : Pairs} {p : String × String} (hp : p ∈ insert_host headers) :
    p = ("host", Routing.rewrite_host (headers.lookup "host")) ∨ p ∈ headers :=
  (List.mem_cons.1 hp).imp_right fun h => (List.mem_filter.1 h).1

/-- What is left of a readable host can be read. -/
theorem readable_host (i : Incoming) :
    ∀ c ∈ (Routing.rewrite_host (i.headers.lookup "host")).toList, readable c := by
  intro c hc
  rw [Routing.rewrite_host, String.toList_ofList] at hc
  have hchar := (List.takeWhile_sublist _).subset hc
  cases hhost : i.headers.lookup "host" with
  | none =>
      rw [hhost] at hchar
      cases hchar
  | some v =>
      rw [hhost] at hchar
      obtain ⟨l₁, l₂, hl, -⟩ := List.lookup_eq_some_iff.1 hhost
      have hmem : ("host", v) ∈ i.headers := by
        rw [hl]
        exact List.mem_append_right _ List.mem_cons_self
      exact (to_str_ok_iff v).1 (i.values _ hmem) c hchar

theorem readable_insert_host (i : Incoming) : ∀ p ∈ insert_host i.headers, ∀ c ∈ p.2.toList, readable c := by
  intro p hp
  rcases mem_insert_host hp with rfl | hp
  · exact readable_host i
  · exact (to_str_ok_iff p.2).1 (i.values p hp)

/-- `Headers` takes every pair of the proxy, and leaves it as it is. -/
theorem fixed_insert_host (i : Incoming) : ∀ p ∈ insert_host i.headers, Fixed p := by
  intro p hp
  have hname : p.1.toList ≠ [] ∧ ∀ c ∈ p.1.toList, ResponseHeaders.token_char c = true ∧ c.toLower = c := by
    have hhost : ("host" : String).toList ≠ []
        ∧ ∀ c ∈ ("host" : String).toList, ResponseHeaders.token_char c = true ∧ c.toLower = c := by
      simp [ResponseHeaders.token_char]
    rcases mem_insert_host hp with rfl | hp
    · exact hhost
    · exact i.names p hp
  have hvalue := readable_insert_host i p hp
  constructor
  · rw [ResponseHeaders.validateHeaderName, if_pos]
    exact ⟨hname.1, List.all_eq_true.2 fun c hc => (hname.2 c hc).1⟩
  · rw [ResponseHeaders.validateHeaderValue, if_pos]
    rw [List.all_eq_true]
    intro c hc
    rcases hvalue c hc with rfl | hc
    · rfl
    · simp [hc]
  · rw [ResponseHeaders.toLowerCase, List.map_congr_left fun c hc => (hname.2 c hc).2, List.map_id',
      String.ofList_toList]

/-- Readable headers are grouped. -/
theorem run_fetch_group {ps : Pairs} (h : ∀ p ∈ ps, ResponseHeaders.to_str p.2 = .ok p.2) :
    ResponseHeaders.run_fetch ps = .ok (group ps) := by
  have hfold : ∀ (qs : Pairs) (m : List (String × List String)), (∀ p ∈ qs, ResponseHeaders.to_str p.2 = .ok p.2) →
      qs.foldlM (fun headers p => do return push p.1 (← ResponseHeaders.to_str p.2) headers) m
        = (.ok (qs.foldl (fun m p => push p.1 p.2 m) m) : Except String _) := by
    intro qs
    induction qs with
    | nil => exact fun m _ => rfl
    | cons p qs ih =>
        intro m hqs
        obtain ⟨hp, hqs⟩ := List.forall_mem_cons.1 hqs
        rw [List.foldlM_cons, hp, List.foldl_cons]
        exact ih _ hqs
  exact hfold ps [] h

theorem handle_request_ok (url : String) (i : Incoming) :
    handle_request url i = .ok ⟨group (insert_host i.headers), i.method, url, i.body⟩ := by
  rw [handle_request, run_fetch_group]
  · rfl
  · exact fun p hp => (to_str_ok_iff p.2).2 (readable_insert_host i p hp)

/-- The proxy replaces the host, and nothing else. -/
theorem values_insert_host {headers : Pairs} {name : String} (h : name ≠ "host") :
    values (insert_host headers) name = values headers name := by
  rw [insert_host, values_cons, if_neg (Ne.symm h), List.nil_append, values, values, List.filter_filter]
  refine congrArg _ (List.filter_congr fun p _ => ?_)
  by_cases hp : p.1 = name
  · simp [hp, h]
  · simp [hp]

theorem mem_names_insert_host {headers : Pairs} {name : String} (h : name ≠ "host") :
    name ∈ (insert_host headers).map Prod.fst ↔ name ∈ headers.map Prod.fst := by
  rw [← not_iff_not, ← values_eq_nil, ← values_eq_nil, values_insert_host h]

theorem joined_insert_host {headers : Pairs} {name : String} (h : name ≠ "host") :
    ResponseHeaders.joined (insert_host headers) name = ResponseHeaders.joined headers name := by
  rw [ResponseHeaders.joined, ResponseHeaders.joined, values_insert_host h]

/-! ## The headers in the script -/

section Script

variable {usp : URLSearchParams} {urls : Urls}

theorem bind_ok_iff {ε α β : Type} {x : Except ε α} {f : α → Except ε β} {b : β} :
    (x >>= f) = .ok b ↔ ∃ a, x = .ok a ∧ f a = .ok b := by
  refine ⟨ok_of_bind, ?_⟩
  rintro ⟨a, rfl, h⟩
  exact h

theorem ite_error_iff {ε α : Type} {p : Prop} [Decidable p] {e : ε} {x : Except ε α} {a : α} :
    (if p then .error e else x) = .ok a ↔ ¬ p ∧ x = .ok a := by
  by_cases hp : p
  · rw [if_pos hp]
    exact iff_of_false (fun h => nomatch h) fun h => h.1 hp
  · rw [if_neg hp]
    exact (and_iff_right hp).symm

/-- A `Request` with headers that can be copied. -/
theorem request_new_ok_iff {url method : String} {headers headers' : usp.T} {body : Option Bytes}
    (hcopy : ResponseHeaders.Headers.copy usp headers = .ok headers') (hmethod : method ≠ "") {r : Request usp} :
    Request.new usp urls url method headers body = .ok r
      ↔ ∃ u, urls.format url = .ok u
        ∧ ¬ (body.isSome = true ∧ (toUpperCase method = "GET" ∨ toUpperCase method = "HEAD"))
        ∧ r = ⟨toUpperCase method, u, headers', body⟩ := by
  rw [Request.new, if_neg hmethod, hcopy, bind_ok_iff]
  refine exists_congr fun u => and_congr_right fun _ => ?_
  rw [ite_error_iff]
  exact and_congr_right fun _ => ⟨fun h => (Except.ok.inj h).symm, fun h => congrArg Except.ok h.symm⟩

/-- What `_dispatchEvent` makes of the request of the proxy. -/
theorem dispatch_ok_iff (url : String) (i : Incoming) (hproto : "__proto__" ∉ (insert_host i.headers).map Prod.fst) :
    ∃ qs, Same qs (insert_host i.headers)
      ∧ ∀ r, dispatchEvent usp urls ⟨group (insert_host i.headers), i.method, url, i.body⟩ = .ok r
        ↔ ∃ seen, urls.format url = .ok seen
          ∧ (i.body = [] ∨ toUpperCase i.method ≠ "GET" ∧ toUpperCase i.method ≠ "HEAD")
          ∧ r = ⟨toUpperCase i.method, seen, usp.new qs, if i.body = [] then none else some i.body⟩ := by
  obtain ⟨-, hgroup⟩ := same_group (insert_host i.headers)
  have hfixed : ∀ p ∈ spread (group (insert_host i.headers)), Fixed p := fun p hp =>
    fixed_insert_host i p ((hgroup.mem p).1 hp)
  have hproto' : "__proto__" ∉ (spread (group (insert_host i.headers))).map Prod.fst := fun h =>
    hproto ((hgroup.keys _).1 h)
  obtain ⟨qs, hcopy, hqs⟩ := ResponseHeaders.headers_copy usp hproto' hfixed
  have hmethod : i.method ≠ "" := by
    intro h
    exact i.method_token.1 (by rw [h]; rfl)
  refine ⟨qs, fun k => (hqs k).trans (hgroup k), fun r => ?_⟩
  rw [dispatchEvent, ResponseHeaders.headers_new usp hfixed, ResponseHeaders.bind_ok, request_new_ok_iff hcopy hmethod]
  refine exists_congr fun seen => and_congr_right fun _ => and_congr_left fun _ => ?_
  by_cases hbody : i.body = []
  · simp [hbody]
  · simp [hbody]

/-- The call of a `fetch` whose headers have one value each. -/
theorem send_fetch_ok_iff {method url : String} {ks : List String} {f : String → String} {req : RequestObject} :
    send_fetch method url (ks.map fun k => (k, [some (f k)])) = .ok req
      ↔ ResponseHeaders.utf8_length (json_fetch method url (ks.map fun k => (k, [some (f k)]))) ≤ 65536
        ∧ req = ⟨ks.map fun k => (k, [f k]), method, url, []⟩ := by
  rw [send_fetch, ite_error_iff, ResponseHeaders.mapM_id_some, not_lt]
  exact and_congr_right fun _ => ⟨fun h => (Except.ok.inj h).symm, fun h => congrArg Except.ok h.symm⟩

/-- The headers that `collectRequestHeaders` has collected are not inherited. -/
theorem collect_free {headers : usp.T} {object : Object (List (Option String))}
    (h : collectRequestHeaders usp headers = .ok object) :
    ∀ k ∈ ResponseHeaders.object_prototype, k ∉ object.map Prod.fst := by
  obtain ⟨entries, -, hfold⟩ := ok_of_bind h
  exact ResponseHeaders.push_values_ok hfold fun k _ => List.not_mem_nil

theorem remote_supported {protocol : JsString} (h : protocol = js "http:" ∨ protocol = js "https:") :
    ¬ protocol ∉ [js "data:", js "http:", js "https:"] ∧ protocol ≠ js "data:" := by
  rcases h with rfl | rfl
  · exact ⟨not_not.2 (by simp), by decide⟩
  · exact ⟨not_not.2 (by simp), by decide⟩

/-- A copy of `Headers`, and its entries: one value for each name. -/
theorem copied_entries {ps qs : Pairs} (hsame : Same qs ps) (hfixed : ∀ p ∈ ps, Fixed p)
    (hproto : "__proto__" ∉ ps.map Prod.fst) :
    ∃ (qs' : Pairs) (ks : List String), ResponseHeaders.Headers.copy usp (usp.new qs) = .ok (usp.new qs') ∧ ks.Nodup
      ∧ (∀ k, k ∈ ks ↔ k ∈ ps.map Prod.fst)
      ∧ ResponseHeaders.Headers.entries usp (usp.new qs')
        = .ok (ks.map fun k => (k, some (ResponseHeaders.joined ps k))) := by
  have hproto' : ∀ {qs' : Pairs}, Same qs' ps → "__proto__" ∉ qs'.map Prod.fst := fun h hin =>
    hproto ((h.keys _).1 hin)
  have hfixed' : ∀ {qs' : Pairs}, Same qs' ps → ∀ p ∈ qs', Fixed p := fun h p hp => hfixed p ((h.mem p).1 hp)
  obtain ⟨qs', hcopy, hqs'⟩ := ResponseHeaders.headers_copy usp (hproto' hsame) (hfixed' hsame)
  have hsame' : Same qs' ps := fun k => (hqs' k).trans (hsame k)
  obtain ⟨ks, hnodup, hmem, hentries⟩ := ResponseHeaders.headers_entries usp (hproto' hsame') (hfixed' hsame')
  simp only [ResponseHeaders.joined_congr hsame'] at hentries
  exact ⟨qs', ks, hcopy, hnodup, fun k => (hmem k).trans (hsame'.keys k), hentries⟩

/-- What `fetch` makes of a `Request` none of whose headers is inherited. -/
theorem fetch_ok_iff {r : Request usp} {ps qs : Pairs} (hheaders : r.headers = usp.new qs) (hsame : Same qs ps)
    (hfixed : ∀ p ∈ ps, Fixed p) (hfree : ∀ k ∈ ResponseHeaders.object_prototype, k ∉ ps.map Prod.fst)
    (hmethod : toUpperCase r.method = r.method ∧ r.method ≠ "")
    (hbody : ¬ (r.body.isSome = true ∧ (r.method = "GET" ∨ r.method = "HEAD"))) :
    ∃ ks : List String, ks.Nodup ∧ (∀ k, k ∈ ks ↔ k ∈ ps.map Prod.fst)
      ∧ ∀ x, fetch usp urls r = .ok (some x)
        ↔ ∃ sent, urls.format r.url = .ok sent
          ∧ (urls.protocol sent = .ok (js "http:") ∨ urls.protocol sent = .ok (js "https:"))
          ∧ ResponseHeaders.utf8_length (json_fetch r.method sent
              (ks.map fun k => (k, [some (ResponseHeaders.joined ps k)]))) ≤ 65536
          ∧ x = (⟨ks.map fun k => (k, [ResponseHeaders.joined ps k]), r.method, sent, []⟩, r.body.getD []) := by
  obtain ⟨qs', ks, hcopy, hnodup, hks, hentries⟩ := copied_entries hsame hfixed
    (hfree "__proto__" (by decide))
  have hcollect : collectRequestHeaders usp (usp.new qs')
      = .ok (ks.map fun k => (k, [some (ResponseHeaders.joined ps k)])) := by
    rw [collectRequestHeaders, hentries, ResponseHeaders.bind_ok]
    exact ResponseHeaders.push_values_eq (fun k => some (ResponseHeaders.joined ps k)) hnodup fun k hk =>
      ⟨fun hin => hfree k hin ((hks k).1 hk), List.not_mem_nil⟩
  refine ⟨ks, hnodup, hks, fun x => ?_⟩
  rw [fetch, hheaders, bind_ok_iff]
  constructor
  · rintro ⟨request, hrequest, hrest⟩
    obtain ⟨sent, hsent, -, rfl⟩ := (request_new_ok_iff hcopy hmethod.2).1 hrequest
    obtain ⟨protocol, hprotocol, hrest⟩ := ok_of_bind hrest
    obtain ⟨hsupported, hrest⟩ := ite_error_iff.1 hrest
    refine ⟨sent, hsent, ?_⟩
    split at hrest
    · cases hrest
    · rename_i hdata
      rw [hcollect, ResponseHeaders.bind_ok, hmethod.1] at hrest
      obtain ⟨req, hreq, hx⟩ := ok_of_bind hrest
      obtain ⟨hsize, rfl⟩ := send_fetch_ok_iff.1 hreq
      cases hx
      refine ⟨?_, hsize, rfl⟩
      rw [not_not, List.mem_cons, List.mem_cons, List.mem_singleton] at hsupported
      rcases hsupported.resolve_left hdata with rfl | rfl
      · exact Or.inl hprotocol
      · exact Or.inr hprotocol
  · rintro ⟨sent, hsent, hprotocol, hsize, rfl⟩
    refine ⟨⟨r.method, sent, usp.new qs', r.body⟩, ?_, ?_⟩
    · refine (request_new_ok_iff hcopy hmethod.2).2 ⟨sent, hsent, ?_, ?_⟩
      · rw [hmethod.1]
        exact hbody
      · rw [hmethod.1]
    · obtain ⟨protocol, hremote, hprotocol⟩ : ∃ protocol, (protocol = js "http:" ∨ protocol = js "https:")
          ∧ urls.protocol sent = .ok protocol := by
        rcases hprotocol with hprotocol | hprotocol
        · exact ⟨_, Or.inl rfl, hprotocol⟩
        · exact ⟨_, Or.inr rfl, hprotocol⟩
      obtain ⟨hsupported, hdata⟩ := remote_supported hremote
      refine bind_ok_iff.2 ⟨protocol, hprotocol, ite_error_iff.2 ⟨hsupported, ?_⟩⟩
      rw [if_neg hdata, hcollect]
      exact bind_ok_iff.2 ⟨_, rfl, bind_ok_iff.2 ⟨_, send_fetch_ok_iff.2 ⟨hsize, rfl⟩, rfl⟩⟩

/-- The call does not get longer by another order of the headers. -/
theorem utf8_length_json_fetch (method url : String) {headers headers' : Object (List (Option String))}
    (h : headers.Perm headers') :
    ResponseHeaders.utf8_length (json_fetch method url headers)
      = ResponseHeaders.utf8_length (json_fetch method url headers') := by
  obtain ⟨front, back, hcall⟩ : ∃ front back : List Char, ∀ hs : Object (List (Option String)),
      json_fetch method url hs
        = front ++ ResponseHeaders.json_list (hs.map ResponseHeaders.json_entry) ++ back := ⟨_, _, fun _ => rfl⟩
  have hlist : ResponseHeaders.utf8_length (ResponseHeaders.json_list (headers.map ResponseHeaders.json_entry))
      = ResponseHeaders.utf8_length (ResponseHeaders.json_list (headers'.map ResponseHeaders.json_entry)) := by
    rw [ResponseHeaders.utf8_length_json_list, ResponseHeaders.utf8_length_json_list,
      ((h.map ResponseHeaders.json_entry).map ResponseHeaders.utf8_length).sum_eq,
      (h.map ResponseHeaders.json_entry).length_eq]
  rw [hcall, hcall, ResponseHeaders.utf8_length_append, ResponseHeaders.utf8_length_append,
    ResponseHeaders.utf8_length_append, ResponseHeaders.utf8_length_append, hlist]

/-! ## The service -/

/-- Readable headers of one value each are the headers of the request. -/
theorem target_ok_iff {r : RequestObject} {ks : List String} {f : String → String}
    (hheaders : r.headers = ks.map fun k => (k, [f k])) (hnames : ∀ k ∈ ks, header_name k = .ok k)
    (hvalues : ∀ k ∈ ks, header_value (f k) = .ok (f k)) (hmethod : parse_method r.method = .ok r.method)
    {target : Target} :
    target_req urls r = .ok target
      ↔ ∃ parsed, urls.parse r.url = .ok parsed
        ∧ target = ⟨r.method, parsed, (ks.map fun k => (k, f k)).filter fun p => p.1 ≠ "host", r.body⟩ := by
  have hspread : spread r.headers = ks.map fun k => (k, f k) := by
    rw [hheaders, spread, List.flatMap_map]
    exact List.map_eq_flatMap.symm
  have hmap : (ks.map fun k => (k, f k)).mapM
      (fun p => do return (← header_name p.1, ← header_value p.2) : String × String → Except String (String × String))
      = .ok (ks.map fun k => (k, f k)) := by
    rw [ResponseHeaders.mapM_ok (g := id)]
    · rw [List.map_id]
    · intro p hp
      obtain ⟨k, hk, rfl⟩ := List.mem_map.1 hp
      rw [hnames k hk, hvalues k hk]
      rfl
  rw [target_req, bind_ok_iff, hspread, hmethod, hmap]
  refine exists_congr fun parsed => and_congr_right fun _ => ?_
  exact ⟨fun h => (Except.ok.inj h).symm, fun h => congrArg Except.ok h.symm⟩

theorem header_name_ok {p : String × String} (h : Fixed p) : header_name p.1 = .ok p.1 := by
  have hname := h.name
  rw [ResponseHeaders.validateHeaderName] at hname
  rw [header_name, h.lower]
  split at hname
  · rename_i htoken
    exact if_pos htoken
  · cases hname

theorem header_value_ok {v : String} (h : ∀ c ∈ v.toList, readable c) : header_value v = .ok v := by
  rw [header_value, (to_str_ok_iff v).2 h]

/-! ## The whole way -/

variable {url : String} {i : Incoming} {target : Target}

theorem mapError_ok_iff {ε ε' α : Type} {x : Except ε α} {f : ε → ε'} {a : α} :
    x.mapError f = .ok a ↔ x = .ok a := by
  cases x with
  | error e => exact iff_of_false (fun h => nomatch h) fun h => nomatch h
  | ok b => exact ⟨fun h => congrArg Except.ok (Except.ok.inj h), fun h => congrArg Except.ok (Except.ok.inj h)⟩

/-- A request gets through if it gets through every stage. -/
theorem forward_ok_iff :
    forward usp urls url i = .ok target
      ↔ ∃ request req requestBody,
        dispatchEvent usp urls ⟨group (insert_host i.headers), i.method, url, i.body⟩ = .ok request
        ∧ fetch usp urls request = .ok (some (req, requestBody))
        ∧ requestBody.length ≤ MAX_FETCH_REQUEST_BODY_SIZE
        ∧ target_req urls { req with body := requestBody } = .ok target := by
  have hbuffer : ∀ {b body : Bytes}, read_buffer [b] 0 MAX_FETCH_REQUEST_BODY_SIZE "missing body"
      "fetch request body too large" = .ok body ↔ b.length ≤ MAX_FETCH_REQUEST_BODY_SIZE ∧ b = body := by
    intro b body
    have hb : ([b] : List Bytes)[0]? = some b := rfl
    rw [read_buffer, hb]
    by_cases hlen : b.length ≤ MAX_FETCH_REQUEST_BODY_SIZE
    · simp [hlen]
    · simp [hlen]
  rw [forward, handle_request_ok, bind_ok_iff]
  constructor
  · rintro ⟨rawReq, hraw, h⟩
    cases hraw
    obtain ⟨request, hrequest, h⟩ := ok_of_bind h
    obtain ⟨call, hcall, h⟩ := ok_of_bind h
    rw [mapError_ok_iff] at hrequest hcall
    match call with
    | none => cases h
    | some (req, requestBody) =>
      obtain ⟨body, hbody, h⟩ := ok_of_bind h
      obtain ⟨hlen, rfl⟩ := hbuffer.1 (mapError_ok_iff.1 hbody)
      exact ⟨request, req, requestBody, hrequest, hcall, hlen, mapError_ok_iff.1 h⟩
  · rintro ⟨request, req, requestBody, hrequest, hcall, hlen, htarget⟩
    refine ⟨_, rfl, ?_⟩
    refine bind_ok_iff.2 ⟨request, mapError_ok_iff.2 hrequest, ?_⟩
    refine bind_ok_iff.2 ⟨_, mapError_ok_iff.2 hcall, ?_⟩
    exact bind_ok_iff.2 ⟨requestBody, mapError_ok_iff.2 (hbuffer.2 ⟨hlen, rfl⟩), mapError_ok_iff.2 htarget⟩

/-- Every name that is pushed is a key afterwards. -/
theorem keys_push_values {pairs : List (String × Option String)} {headers headers' : Object (List (Option String))}
    (h : pairs.foldlM ResponseHeaders.push_value headers = .ok headers') :
    (∀ k ∈ headers.map Prod.fst, k ∈ headers'.map Prod.fst) ∧ ∀ p ∈ pairs, p.1 ∈ headers'.map Prod.fst := by
  induction pairs generalizing headers with
  | nil =>
      cases h
      exact ⟨fun _ hk => hk, fun _ hp => nomatch hp⟩
  | cons pair pairs ih =>
      rw [List.foldlM_cons] at h
      obtain ⟨mid, hpush, h⟩ := ok_of_bind h
      obtain ⟨-, hmid⟩ := ite_error_iff.1 hpush
      cases hmid
      obtain ⟨hold, hpairs⟩ := ih h
      refine ⟨fun k hk => hold k ((keys_push _ _ _ k).2 (Or.inr hk)), fun p hp => ?_⟩
      rcases List.mem_cons.1 hp with rfl | hp
      · exact hold p.1 ((keys_push _ _ _ p.1).2 (Or.inl rfl))
      · exact hpairs p hp

/-- A `fetch` that is sent has no header with an inherited name. -/
theorem fetch_free {r : Request usp} {ps qs : Pairs} (hheaders : r.headers = usp.new qs) (hsame : Same qs ps)
    (hfixed : ∀ p ∈ ps, Fixed p) (hproto : "__proto__" ∉ ps.map Prod.fst) (hmethod : r.method ≠ "")
    {x : RequestObject × Bytes} (h : fetch usp urls r = .ok (some x)) :
    ∀ k ∈ ResponseHeaders.object_prototype, k ∉ ps.map Prod.fst := by
  obtain ⟨qs', ks, hcopy, -, hks, hentries⟩ := copied_entries hsame hfixed hproto
  rw [fetch, hheaders] at h
  obtain ⟨request, hrequest, h⟩ := ok_of_bind h
  obtain ⟨sent, -, -, rfl⟩ := (request_new_ok_iff hcopy hmethod).1 hrequest
  obtain ⟨protocol, -, h⟩ := ok_of_bind h
  obtain ⟨-, h⟩ := ite_error_iff.1 h
  split at h
  · cases h
  · obtain ⟨object, hobject, -⟩ := ok_of_bind h
    have hfree := collect_free hobject
    rw [collectRequestHeaders, hentries, ResponseHeaders.bind_ok] at hobject
    obtain ⟨-, hkeys⟩ := keys_push_values hobject
    intro k hk hin
    exact hfree k hk (hkeys _ (List.mem_map_of_mem ((hks k).2 hin)))

/-- Names in lower case are inherited if they are one of two. -/
theorem free_iff (i : Incoming) (hproto : "__proto__" ∉ i.headers.map Prod.fst) :
    (∀ k ∈ ResponseHeaders.object_prototype, k ∉ (insert_host i.headers).map Prod.fst)
      ↔ "constructor" ∉ i.headers.map Prod.fst := by
  constructor
  · intro h hin
    exact h "constructor" (by decide) ((mem_names_insert_host (by decide)).2 hin)
  · intro h k hk hin
    have hhost : k ≠ "host" := by
      rintro rfl
      exact absurd hk (by decide)
    have hin' := (mem_names_insert_host hhost).1 hin
    obtain ⟨p, hp, rfl⟩ := List.mem_map.1 hin'
    rcases ResponseHeaders.inherited_lower p.1 hk fun c hc => ((i.names p hp).2 c hc).2 with heq | heq
    · exact h (heq ▸ hin')
    · exact hproto (heq ▸ hin')

/-- The values of the headers that the service sends. -/
theorem values_target (i : Incoming) {ks : List String} (hks : ks.Nodup)
    (hmem : ∀ k, k ∈ ks ↔ k ∈ (insert_host i.headers).map Prod.fst) (name : String) :
    values ((ks.map fun k => (k, ResponseHeaders.joined (insert_host i.headers) k)).filter fun p => p.1 ≠ "host") name
      = if name ∈ i.headers.map Prod.fst ∧ name ≠ "host" then [ResponseHeaders.joined i.headers name] else [] := by
  by_cases hhost : name = "host"
  · rw [if_neg fun h => h.2 hhost, values_eq_nil, hhost]
    intro hin
    obtain ⟨p, hp, hname⟩ := List.mem_map.1 hin
    exact absurd hname (of_decide_eq_true (List.mem_filter.1 hp).2)
  · have hfilter : values ((ks.map fun k => (k, ResponseHeaders.joined (insert_host i.headers) k)).filter
          fun p => p.1 ≠ "host") name
        = values (ks.map fun k => (k, ResponseHeaders.joined (insert_host i.headers) k)) name := by
      rw [values, values, List.filter_filter]
      refine congrArg _ (List.filter_congr fun p _ => ?_)
      by_cases hp : p.1 = name
      · simp [hp, hhost]
      · simp [hp]
    rw [hfilter]
    by_cases hin : name ∈ i.headers.map Prod.fst
    · rw [if_pos ⟨hin, hhost⟩, ← joined_insert_host hhost]
      have hnames : ((ks.map fun k => (k, ResponseHeaders.joined (insert_host i.headers) k)).map Prod.fst).Nodup := by
        rw [List.map_map]
        exact (List.map_id ks).symm ▸ hks
      exact ResponseHeaders.values_single hnames
        (List.mem_map_of_mem ((hmem name).2 ((mem_names_insert_host hhost).2 hin)))
    · rw [if_neg fun h => hin h.1, values_eq_nil, List.map_map]
      intro h
      obtain ⟨k, hk, rfl⟩ := List.mem_map.1 h
      exact hin ((mem_names_insert_host hhost).1 ((hmem k).1 hk))

theorem upper_method (i : Incoming) :
    toUpperCase (toUpperCase i.method) = toUpperCase i.method ∧ toUpperCase i.method ≠ "" :=
  ⟨toUpperCase_twice i.method, toUpperCase_ne i.method i.method_token.1⟩

/-- The body of the first `Request` is not refused by the second. -/
theorem body_not_refused (hbody : i.body = [] ∨ toUpperCase i.method ≠ "GET" ∧ toUpperCase i.method ≠ "HEAD") :
    ¬ ((if i.body = [] then none else some i.body).isSome = true
        ∧ (toUpperCase i.method = "GET" ∨ toUpperCase i.method = "HEAD")) := by
  rintro ⟨hsome, hget⟩
  rcases hbody with hnil | ⟨hne, hne'⟩
  · rw [if_pos hnil] at hsome
    cases hsome
  · exact hget.elim hne hne'

theorem body_getD (body : Bytes) : (if body = [] then none else some body).getD [] = body := by
  by_cases hnil : body = []
  · rw [if_pos hnil, hnil]
    rfl
  · rw [if_neg hnil]
    rfl

/-- The names once each, in whatever order they are sent. -/
theorem perm_header_names (i : Incoming) {ks : List String} (hks : ks.Nodup)
    (hmem : ∀ k, k ∈ ks ↔ k ∈ (insert_host i.headers).map Prod.fst) : ks.Perm i.header_names :=
  (List.perm_ext_iff_of_nodup hks (List.nodup_dedup _)).2 fun k => (hmem k).trans List.mem_dedup.symm

/-- The headers that are sent can be read by the service. -/
theorem sent_headers_ok (i : Incoming) {ks : List String}
    (hmem : ∀ k, k ∈ ks ↔ k ∈ (insert_host i.headers).map Prod.fst) :
    (∀ k ∈ ks, header_name k = .ok k)
      ∧ ∀ k ∈ ks, header_value (ResponseHeaders.joined (insert_host i.headers) k)
        = .ok (ResponseHeaders.joined (insert_host i.headers) k) := by
  refine ⟨fun k hk => ?_, fun k _ => header_value_ok (readable_joined (readable_insert_host i) k)⟩
  obtain ⟨p, hp, rfl⟩ := List.mem_map.1 ((hmem k).1 hk)
  exact header_name_ok (fixed_insert_host i p hp)

/-- What gets through is fit, and is carried. -/
theorem carried (hproto : "__proto__" ∉ i.headers.map Prod.fst) (h : forward usp urls url i = .ok target) :
    (∃ seen sent, Fit urls url seen sent i) ∧ Carries urls url i target := by
  have hproto' : "__proto__" ∉ (insert_host i.headers).map Prod.fst := fun hin =>
    hproto ((mem_names_insert_host (by decide)).1 hin)
  obtain ⟨request, req, requestBody, hdispatch, hfetch, hlen, htarget⟩ := forward_ok_iff.1 h
  -- stage by stage, from the proxy to the service
  obtain ⟨qs, hqs, hdispatched⟩ := dispatch_ok_iff url i hproto'
  obtain ⟨seen, hseen, hbody, rfl⟩ := (hdispatched request).1 hdispatch
  have hfree := fetch_free rfl hqs (fixed_insert_host i) hproto' (upper_method i).2 hfetch
  obtain ⟨ks, hks, hmem, hfetched⟩ := fetch_ok_iff
    (r := ⟨toUpperCase i.method, seen, usp.new qs, if i.body = [] then none else some i.body⟩) rfl hqs
    (fixed_insert_host i) hfree (upper_method i) (body_not_refused hbody)
  obtain ⟨sent, hsent, hremote, hsize, hcall⟩ := (hfetched _).1 hfetch
  cases hcall
  obtain ⟨hnames, hvalues⟩ := sent_headers_ok i hmem
  obtain ⟨parsed, hparsed, rfl⟩ := (target_ok_iff
    (r := ⟨ks.map fun k => (k, [ResponseHeaders.joined (insert_host i.headers) k]), toUpperCase i.method, sent,
      (if i.body = [] then none else some i.body).getD []⟩)
    (f := ResponseHeaders.joined (insert_host i.headers)) rfl hnames hvalues (parse_method_upper i)).1 htarget
  rw [body_getD] at hlen
  have hperm := (perm_header_names i hks hmem).map fun k => (k, [some (ResponseHeaders.joined (insert_host i.headers) k)])
  rw [utf8_length_json_fetch _ _ hperm] at hsize
  refine ⟨⟨seen, sent, hseen, hsent, hremote, ⟨parsed, hparsed⟩, hbody, hlen, (free_iff i hproto).1 hfree, hsize⟩, ?_⟩
  exact ⟨⟨seen, sent, hseen, hsent, hparsed⟩, rfl, body_getD i.body, values_target i hks hmem⟩

/-- What is fit gets through. -/
theorem Fit.forwarded (hproto : "__proto__" ∉ i.headers.map Prod.fst) {seen sent : String}
    (h : Fit urls url seen sent i) : ∃ target, forward usp urls url i = .ok target := by
  have hfree := (free_iff i hproto).2 h.inherited
  obtain ⟨qs, hqs, hdispatched⟩ := dispatch_ok_iff url i (hfree "__proto__" (by decide))
  obtain ⟨ks, hks, hmem, hfetched⟩ := fetch_ok_iff
    (r := ⟨toUpperCase i.method, seen, usp.new qs, if i.body = [] then none else some i.body⟩) rfl hqs
    (fixed_insert_host i) hfree (upper_method i) (body_not_refused h.bodiless)
  obtain ⟨hnames, hvalues⟩ := sent_headers_ok i hmem
  obtain ⟨parsed, hparsed⟩ := h.parsed
  have hperm := (perm_header_names i hks hmem).map fun k => (k, [some (ResponseHeaders.joined (insert_host i.headers) k)])
  have hsize := h.size
  rw [← utf8_length_json_fetch _ _ hperm] at hsize
  refine ⟨_, forward_ok_iff.2 ⟨_, _, _, (hdispatched _).2 ⟨seen, h.dispatched, h.bodiless, rfl⟩,
    (hfetched _).2 ⟨sent, h.fetched, h.remote, hsize, rfl⟩, ?_,
    (target_ok_iff
      (r := ⟨ks.map fun k => (k, [ResponseHeaders.joined (insert_host i.headers) k]), toUpperCase i.method, sent,
        (if i.body = [] then none else some i.body).getD []⟩)
      (f := ResponseHeaders.joined (insert_host i.headers)) rfl hnames hvalues (parse_method_upper i)).2
      ⟨parsed, hparsed, rfl⟩⟩⟩
  rw [body_getD]
  exact h.body_size

end Script

/-- **What a forwarding worker forwards.** For every request without a header of
the name `__proto__`: it gets through if and only if its URL is taken, by
all who read it, for one of `http` or `https`, it has no body or is not a `GET`
or a `HEAD`, the body is not too large, no header has the name of an inherited
property, and the call string is not too long. What gets through is the request
that came in. -/
theorem forwarded_iff (usp : URLSearchParams) (urls : Urls) (url : String) (i : Incoming)
    (hproto : "__proto__" ∉ i.headers.map Prod.fst) :
    ((∃ target, forward usp urls url i = .ok target) ↔ ∃ seen sent, Fit urls url seen sent i)
      ∧ ∀ target, forward usp urls url i = .ok target → Carries urls url i target := by
  refine ⟨⟨?_, ?_⟩, fun target h => (carried hproto h).2⟩
  · rintro ⟨target, h⟩
    exact (carried hproto h).1
  · rintro ⟨seen, sent, h⟩
    exact h.forwarded hproto

/-- Libraries that leave the URL of a worker as it is. -/
def https_urls : Urls where
  lower := Url.ascii_case
  format_url parsedURL := String.ofList (parsedURL.href.map fun u => Char.ofNat u.toNat)
  parse url := .ok url

/-- A request with two values for one header. -/
def post : Incoming where
  method := "post"
  headers := [("host", "a.com:443"), ("accept", "text/html"), ("accept", "*/*")]
  body := [1, 2]
  method_token := by decide
  names := by simp [ResponseHeaders.token_char]
  values := by decide

theorem forwarded_post :
    ∃ target, forward .pairs https_urls "https://a.com/" post = .ok target ∧ target.method = "POST"
      ∧ target.body = [1, 2] ∧ values target.headers "accept" = ["text/html, */*"]
      ∧ values target.headers "host" = [] := by
  have hproto : "__proto__" ∉ post.headers.map Prod.fst := by decide
  have hfit : Fit https_urls "https://a.com/" "https://a.com/" "https://a.com/" post :=
    { dispatched := by decide +kernel
      fetched := by decide +kernel
      remote := Or.inr (by decide +kernel)
      parsed := ⟨_, rfl⟩
      bodiless := Or.inr (by decide)
      body_size := by decide
      inherited := by decide
      size := by decide +kernel }
  obtain ⟨hiff, hcarries⟩ := forwarded_iff .pairs https_urls "https://a.com/" post hproto
  obtain ⟨target, htarget⟩ := hiff.2 ⟨_, _, hfit⟩
  have hc := hcarries target htarget
  refine ⟨target, htarget, hc.method, hc.body, ?_, ?_⟩
  · rw [hc.headers]
    decide
  · rw [hc.headers]
    decide

end ForwardedRequest

end RustyWorkers

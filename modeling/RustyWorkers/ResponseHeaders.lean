/-
The headers of a response on their way through a worker: `run_fetch`
(`rusty-workers-fetchd/src/server.rs`), the `Headers` of
`deps/worker-fetch/src/headers.js`, and `FetchEvent` (`librt/src/std.js`).

A response has a list of values for each header. `run_fetch` groups the values
by name, `fromRawHeaders` takes the groups apart, the `Response` copies its
`Headers`, and `_respondWith` groups again. The last step goes over
`Headers.entries`, which has one value for each name, and collects in an object
that is not empty: it inherits from `Object.prototype`.

`URLSearchParams` is not part of the repository. It is a parameter, with what is
documented of it: which names it has, and which values each of them. The order in
which an object lists its properties, and a `BTreeMap` its entries, is not
observed, so both are lists of entries that are read by key.
-/
import RustyWorkers.Lib.Multimap
import RustyWorkers.HandleTask

set_option autoImplicit false

namespace RustyWorkers

open Lib

namespace ResponseHeaders

open Multimap

abbrev Pairs := List (String × String)

/-- An exception in the script. -/
inductive JsError where
  | TypeError (text : String)
  | Error (text : String)
deriving DecidableEq, Repr

/-- `URLSearchParams`. Names that are not fit for a property are left open. -/
structure URLSearchParams where
  T : Type
  new : Pairs → T
  sort : T → T
  keys : T → List String
  getAll : T → String → List String
  mem_keys : ∀ {ps : Pairs}, "__proto__" ∉ ps.map Prod.fst →
    ∀ name, name ∈ keys (sort (new ps)) ↔ name ∈ ps.map Prod.fst
  getAll_sort : ∀ {ps : Pairs}, "__proto__" ∉ ps.map Prod.fst →
    ∀ name, getAll (sort (new ps)) name = values ps name

/-- The pairs as they are. -/
def URLSearchParams.pairs : URLSearchParams where
  T := Pairs
  new := id
  sort ps := ps.mergeSort fun p q => p.1 ≤ q.1
  keys ps := ps.map Prod.fst
  getAll := values
  mem_keys := by
    intro ps _ name
    exact ((List.mergeSort_perm ps _).map Prod.fst).mem_iff
  getAll_sort := by
    intro ps _ name
    refine same_mergeSort ?_ ?_ ?_ ps name
    · intro a b c hab hbc
      exact decide_eq_true ((of_decide_eq_true hab).trans (of_decide_eq_true hbc))
    · intro a b
      simpa using le_total a.1 b.1
    · intro a b hkey
      exact decide_eq_true hkey.le

/-! ## The service -/

/-- `HeaderValue::to_str`. -/
def to_str (v : String) : Except String String :=
  if v.toList.all fun c => c == '\t' || (decide (' ' ≤ c) && decide (c ≤ '~')) then .ok v
  else .error "failed to convert header to a str"

/-- The loop over `res.headers()`, with `entry(..).or_insert(vec![]).push(..)`. -/
def run_fetch (res_headers : Pairs) : Except String (List (String × List String)) :=
  res_headers.foldlM (fun headers p => do return push p.1 (← to_str p.2) headers) []

/-! ## Objects -/

/-- The own properties of an object. -/
abbrev Object (α : Type) := List (String × α)

/-- What every object inherits; `__proto__` is its prototype. -/
def object_prototype : List String :=
  ["constructor", "__defineGetter__", "__defineSetter__", "hasOwnProperty", "__lookupGetter__",
    "__lookupSetter__", "isPrototypeOf", "propertyIsEnumerable", "toString", "valueOf", "__proto__",
    "toLocaleString"]

/-- `object[k] = v`; an assignment to `__proto__` makes no property. -/
def Object.set {α : Type} (object : Object α) (k : String) (v : α) : Object α :=
  if k = "__proto__" then object
  else if k ∈ object.map Prod.fst then object.map fun e => if e.1 = k then (k, v) else e
  else object ++ [(k, v)]

/-! ## `Headers` -/

/-- `[\^\x60\-\w!#$%&'*+.|~]`. -/
def token_char (c : Char) : Bool := c.isAlphanum || decide (c ∈ "^`-_!#$%&'*+.|~".toList)

def validateHeaderName (name : String) : Except JsError Unit :=
  if name.toList ≠ [] ∧ name.toList.all token_char = true then .ok ()
  else .error (.TypeError s!"Header name must be a valid HTTP token [{name}]")

def validateHeaderValue (name value : String) : Except JsError Unit :=
  if value.toList.all fun c => c == '\t' || (decide (' ' ≤ c) && decide (c ≤ '~'))
      || (decide (0x80 ≤ c.toNat) && decide (c.toNat ≤ 0xff)) then .ok ()
  else .error (.TypeError s!"Invalid character in header content [{name}]")

/-- `toLowerCase`, on the characters of a token. -/
def toLowerCase (s : String) : String := String.ofList (s.toList.map Char.toLower)

variable (usp : URLSearchParams)

/-- The constructor, for name-value pairs. -/
def Headers.new (init : Pairs) : Except JsError usp.T := do
  let result ← init.mapM fun p => do
    validateHeaderName p.1
    validateHeaderValue p.1 p.2
    return (toLowerCase p.1, p.2)
  return usp.new result

/-- `Headers.keys`, which sorts the pairs; a `Set` keeps the first of equals. -/
def Headers.keys (headers : usp.T) : List String × usp.T :=
  ((usp.keys (usp.sort headers)).reverse.dedup.reverse, usp.sort headers)

def Headers.getAll (headers : usp.T) (name : String) : Except JsError (List String) := do
  validateHeaderName name
  return usp.getAll headers (toLowerCase name)

/-- `Headers.get`; `none` is `null`. -/
def Headers.get (headers : usp.T) (name : String) : Except JsError (Option String) := do
  let values ← Headers.getAll usp headers name
  if values = [] then return none
  let value := String.intercalate ", " values
  return some (if toLowerCase name = "content-encoding" then toLowerCase value else value)

def Headers.entries (headers : usp.T) : Except JsError (List (String × Option String)) :=
  let (keys, headers) := Headers.keys usp headers
  keys.mapM fun name => do return (name, ← Headers.get usp headers name)

/-- `Headers.raw`. -/
def Headers.raw (headers : usp.T) : Except JsError (Object (List String)) :=
  let (keys, headers) := Headers.keys usp headers
  keys.foldlM (fun result key => do return result.set key (← Headers.getAll usp headers key)) []

/-- The constructor, for other `Headers`. -/
def Headers.copy (init : usp.T) : Except JsError usp.T := do
  Headers.new usp (spread (← Headers.raw usp init))

def valid (p : String × String) : Bool :=
  (validateHeaderName p.1).isOk && (validateHeaderValue p.1 p.2).isOk

/-- `fromRawHeaders`. -/
def fromRawHeaders (headers : Object (List String)) : Except JsError usp.T :=
  Headers.new usp ((spread headers).filter valid)

/-- The headers of the `Response` that `fetch` resolves to; its body is an
`ArrayBuffer`, which has no content type of its own. -/
def fetch (headers : Object (List String)) : Except JsError usp.T := do
  Headers.copy usp (← fromRawHeaders usp headers)

/-! ## `FetchEvent` -/

/-- `if(!headers[k]) headers[k] = []; headers[k].push(v)`. -/
def push_value (headers : Object (List (Option String))) (pair : String × Option String) :
    Except JsError (Object (List (Option String))) :=
  if pair.1 ∉ headers.map Prod.fst ∧ pair.1 ∈ object_prototype then
    .error (.TypeError "headers[k].push is not a function")
  else .ok (push pair.1 pair.2 headers)

/-- Of the characters of a header, those that are escaped. -/
def json_char (c : Char) : List Char :=
  if c = '"' then ['\\', '"'] else if c = '\\' then ['\\', '\\'] else if c = '\t' then ['\\', 't'] else [c]

def json_string (s : String) : List Char := '"' :: s.toList.flatMap json_char ++ ['"']

def json_value : Option String → List Char
  | some s => json_string s
  | none => "null".toList

def json_list (items : List (List Char)) : List Char := (items.intersperse [',']).flatten

def json_entry (e : String × List (Option String)) : List Char :=
  json_string e.1 ++ ":[".toList ++ json_list (e.2.map json_value) ++ "]".toList

/-- `JSON.stringify` of the call. -/
def json_call (status : ℕ) (headers : Object (List (Option String))) : List Char :=
  "\x7b\"Sync\":\x7b\"SendFetchResponse\":\x7b\"status\":".toList ++ (toString status).toList
    ++ ",\"headers\":\x7b".toList ++ json_list (headers.map json_entry) ++ "\x7d\x7d\x7d\x7d".toList

/-- `String::utf8_length`. -/
def utf8_length (s : List Char) : ℕ := (s.map Char.utf8Size).sum

/-- What the proxy gets, and the exception that `respondWith` has caught. -/
structure Sent where
  status : ℕ
  headers : List (String × List String)
  exception : Option JsError
deriving DecidableEq, Repr

/-- `call_service_callback`, for `SendFetchResponse`. -/
def send_fetch_response (status : ℕ) (headers : Object (List (Option String))) : Except JsError Sent :=
  if utf8_length (json_call status headers) > 65536 then .error (.Error "call string too large")
  else
    match headers.mapM fun e => (e.2.mapM id).map fun vs => (e.1, vs) with
    | some headers => .ok ⟨status, headers, none⟩
    | none => .error (.Error "conversion error")

/-- `FetchEvent._respondWith`, for the status and the headers of a `Response`. -/
def respondWith_inner (status : ℕ) (res : usp.T) : Except JsError Sent := do
  let entries ← Headers.entries usp res
  let headers ← entries.foldlM push_value []
  send_fetch_response status headers

/-- The `catch` of `respondWith`, which answers with a text. -/
def Sent.of : Except JsError Sent → Sent
  | .ok sent => sent
  | .error e => ⟨500, [("content-type", ["text/plain;charset=UTF-8"])], some e⟩

/-- `FetchEvent.respondWith`. -/
def respondWith (status : ℕ) (res : Except JsError usp.T) : Sent :=
  Sent.of (res >>= respondWith_inner usp status)

/-- A worker that answers with what it fetches. -/
def reverse_proxy (status : ℕ) (res_headers : Pairs) : Sent :=
  match run_fetch res_headers with
  | .ok headers => respondWith usp (if status = 0 then 200 else status) (fetch usp headers)
  | .error e => respondWith usp status (.error (.Error e))

/-! ## What a response may have -/

/-- The name is a token in lower case, the value is printable. -/
def well_formed (p : String × String) : Bool :=
  decide (p.1.toList ≠ []) && p.1.toList.all (fun c => token_char c && c.toLower == c)
    && p.2.toList.all fun c => decide (' ' ≤ c) && decide (c ≤ '~')

/-- A response of an upstream server. -/
structure Upstream where
  status : ℕ
  headers : Pairs
  well_formed : headers.all well_formed = true

theorem Upstream.names (u : Upstream) {p : String × String} (hp : p ∈ u.headers) :
    p.1.toList ≠ [] ∧ ∀ c ∈ p.1.toList, token_char c = true ∧ c.toLower = c := by
  have h := List.all_eq_true.1 u.well_formed p hp
  simp only [ResponseHeaders.well_formed, Bool.and_eq_true, decide_eq_true_eq, List.all_eq_true, beq_iff_eq] at h
  exact h.1

theorem Upstream.printable (u : Upstream) {p : String × String} (hp : p ∈ u.headers) :
    ∀ c ∈ p.2.toList, ' ' ≤ c ∧ c ≤ '~' := by
  have h := List.all_eq_true.1 u.well_formed p hp
  simp only [ResponseHeaders.well_formed, Bool.and_eq_true, decide_eq_true_eq, List.all_eq_true, beq_iff_eq] at h
  exact h.2

/-- The answer has the names of the response, each with the same values. -/
def HeadersSurvive (u : Upstream) : Prop :=
  (reverse_proxy usp u.status u.headers).exception = none
    ∧ ∀ name, (reverse_proxy usp u.status u.headers).headers.lookup name
      = if name ∈ u.headers.map Prod.fst then some (values u.headers name) else none

/-- `options.status || 200`. -/
def Upstream.response_status (u : Upstream) : ℕ := if u.status = 0 then 200 else u.status

/-- The headers that `_respondWith` hands on as they are. -/
structure HeadersFit (u : Upstream) : Prop where
  once : (u.headers.map Prod.fst).Nodup
  inherited : "constructor" ∉ u.headers.map Prod.fst ∧ "__proto__" ∉ u.headers.map Prod.fst
  encoding : ∀ p ∈ u.headers, p.1 = "content-encoding" → toLowerCase p.2 = p.2
  size : utf8_length (json_call u.response_status (u.headers.map fun p => (p.1, [some p.2]))) ≤ 65536

/-- A pair that `Headers` takes and leaves as it is. -/
structure Fixed (p : String × String) : Prop where
  name : validateHeaderName p.1 = .ok ()
  value : validateHeaderValue p.1 p.2 = .ok ()
  lower : toLowerCase p.1 = p.1

theorem Upstream.fixed (u : Upstream) {p : String × String} (hp : p ∈ u.headers) : Fixed p := by
  obtain ⟨hne, hname⟩ := u.names hp
  have hvalue := u.printable hp
  constructor
  · rw [validateHeaderName, if_pos ⟨hne, List.all_eq_true.2 fun c hc => (hname c hc).1⟩]
  · rw [validateHeaderValue, if_pos]
    rw [List.all_eq_true]
    intro c hc
    simp [hvalue c hc]
  · rw [toLowerCase, List.map_congr_left fun c hc => (hname c hc).2, List.map_id', String.ofList_toList]

/-- The names of `Object.prototype` that are in lower case. -/
theorem inherited_lower : ∀ name ∈ object_prototype, (∀ c ∈ name.toList, c.toLower = c) →
    name = "constructor" ∨ name = "__proto__" := by
  intro name hname hlower
  -- all others have a capital letter
  have hcapital : ∀ c, c.toLower ≠ c → c ∉ name.toList := fun c hne hc => hne (hlower c hc)
  simp only [object_prototype, List.mem_cons, List.not_mem_nil, or_false] at hname
  rcases hname with rfl | rfl | rfl | rfl | rfl | rfl | rfl | rfl | rfl | rfl | rfl | rfl
  · exact Or.inl rfl
  · exact absurd (by decide) (hcapital 'G' (by decide))
  · exact absurd (by decide) (hcapital 'S' (by decide))
  · exact absurd (by decide) (hcapital 'O' (by decide))
  · exact absurd (by decide) (hcapital 'G' (by decide))
  · exact absurd (by decide) (hcapital 'S' (by decide))
  · exact absurd (by decide) (hcapital 'P' (by decide))
  · exact absurd (by decide) (hcapital 'I' (by decide))
  · exact absurd (by decide) (hcapital 'S' (by decide))
  · exact absurd (by decide) (hcapital 'O' (by decide))
  · exact Or.inr rfl
  · exact absurd (by decide) (hcapital 'L' (by decide))

/-! ## The service and `Headers` -/

theorem run_fetch_eq (u : Upstream) : run_fetch u.headers = .ok (group u.headers) := by
  have hstr : ∀ p ∈ u.headers, to_str p.2 = .ok p.2 := by
    intro p hp
    rw [to_str, if_pos]
    rw [List.all_eq_true]
    intro c hc
    simp [u.printable hp c hc]
  have hfold : ∀ (ps : Pairs) (m : List (String × List String)), (∀ p ∈ ps, to_str p.2 = .ok p.2) →
      ps.foldlM (fun headers p => do return push p.1 (← to_str p.2) headers) m
        = (.ok (ps.foldl (fun m p => push p.1 p.2 m) m) : Except String _) := by
    intro ps
    induction ps with
    | nil => exact fun m _ => rfl
    | cons p ps ih =>
      intro m h
      rw [List.foldlM_cons, h p List.mem_cons_self, List.foldl_cons]
      exact ih _ fun q hq => h q (List.mem_cons_of_mem _ hq)
  exact hfold u.headers [] hstr

theorem bind_ok {ε α β : Type} (a : α) (f : α → Except ε β) : (Except.ok a >>= f) = f a := rfl

theorem mapM_ok {ε α β : Type} {f : α → Except ε β} {g : α → β} {l : List α} (h : ∀ a ∈ l, f a = .ok (g a)) :
    l.mapM f = .ok (l.map g) := by
  induction l with
  | nil => rfl
  | cons a l ih =>
    rw [List.mapM_cons, h a List.mem_cons_self, ih fun b hb => h b (List.mem_cons_of_mem _ hb)]
    rfl

theorem headers_new {ps : Pairs} (h : ∀ p ∈ ps, Fixed p) : Headers.new usp ps = .ok (usp.new ps) := by
  rw [Headers.new, mapM_ok (g := id)]
  · rw [List.map_id]
    rfl
  · intro p hp
    rw [(h p hp).name, (h p hp).value, (h p hp).lower]
    rfl

theorem from_raw_headers {m : List (String × List String)} (h : ∀ p ∈ spread m, Fixed p) :
    fromRawHeaders usp m = .ok (usp.new (spread m)) := by
  rw [fromRawHeaders, List.filter_eq_self.2, headers_new usp h]
  intro p hp
  rw [valid, (h p hp).name, (h p hp).value]
  rfl

/-- The keys of `Headers` are the names, once each. -/
theorem headers_keys {ps : Pairs} (hps : "__proto__" ∉ ps.map Prod.fst) :
    ∃ ks, Headers.keys usp (usp.new ps) = (ks, usp.sort (usp.new ps)) ∧ ks.Nodup
      ∧ ∀ k, k ∈ ks ↔ k ∈ ps.map Prod.fst := by
  refine ⟨_, rfl, List.nodup_reverse.2 (List.nodup_dedup _), fun k => ?_⟩
  rw [List.mem_reverse, List.mem_dedup, List.mem_reverse, usp.mem_keys hps]

theorem get_all {ps : Pairs} (hps : "__proto__" ∉ ps.map Prod.fst) (hfixed : ∀ p ∈ ps, Fixed p) {name : String}
    (hname : name ∈ ps.map Prod.fst) :
    Headers.getAll usp (usp.sort (usp.new ps)) name = .ok (values ps name) := by
  obtain ⟨p, hp, rfl⟩ := List.mem_map.1 hname
  rw [Headers.getAll, (hfixed p hp).name, (hfixed p hp).lower, ← usp.getAll_sort hps]
  rfl

theorem set_new {α : Type} {object : Object α} {k : String} {v : α} (hk : k ≠ "__proto__")
    (hnew : k ∉ object.map Prod.fst) : object.set k v = object ++ [(k, v)] := by
  rw [Object.set, if_neg hk, if_neg hnew]

/-- `raw` gives the groups of the pairs. -/
theorem headers_raw {ps : Pairs} (hps : "__proto__" ∉ ps.map Prod.fst) (hfixed : ∀ p ∈ ps, Fixed p) :
    ∃ ks : List String, ks.Nodup ∧ (∀ k, k ∈ ks ↔ k ∈ ps.map Prod.fst)
      ∧ Headers.raw usp (usp.new ps) = .ok (ks.map fun k => (k, values ps k)) := by
  obtain ⟨ks, hkeys, hnodup, hmem⟩ := headers_keys usp hps
  refine ⟨ks, hnodup, hmem, ?_⟩
  rw [Headers.raw, hkeys]
  -- induction on the keys that are left, for an object with none of them
  have hfold : ∀ (l : List String) (object : Object (List String)), l.Nodup →
      (∀ k ∈ l, k ∈ ps.map Prod.fst ∧ k ∉ object.map Prod.fst) →
      l.foldlM (fun result key => do
          return result.set key (← Headers.getAll usp (usp.sort (usp.new ps)) key)) object
        = (.ok (object ++ l.map fun k => (k, values ps k)) : Except JsError _) := by
    intro l
    induction l with
    | nil =>
      intro object _ _
      rw [List.map_nil, List.append_nil]
      rfl
    | cons k l ih =>
      intro object hl hall
      obtain ⟨hk, hl⟩ := List.nodup_cons.1 hl
      obtain ⟨hin, hnew⟩ := hall k List.mem_cons_self
      have hproto : k ≠ "__proto__" := by
        rintro rfl
        exact hps hin
      rw [List.foldlM_cons, get_all usp hps hfixed hin]
      refine (ih (object.set k (values ps k)) hl fun k' hk' => ?_).trans ?_
      · obtain ⟨hin', hnew'⟩ := hall k' (List.mem_cons_of_mem _ hk')
        refine ⟨hin', ?_⟩
        rw [set_new hproto hnew, List.map_append, List.mem_append, not_or]
        refine ⟨hnew', ?_⟩
        rw [List.map_cons, List.map_nil, List.mem_singleton]
        rintro rfl
        exact hk hk'
      · rw [set_new hproto hnew, List.append_assoc]
        rfl
  exact hfold ks [] hnodup fun k hk => ⟨(hmem k).1 hk, List.not_mem_nil⟩

/-- A copy of `Headers` has the same values. -/
theorem headers_copy {ps : Pairs} (hps : "__proto__" ∉ ps.map Prod.fst) (hfixed : ∀ p ∈ ps, Fixed p) :
    ∃ qs, Headers.copy usp (usp.new ps) = .ok (usp.new qs) ∧ Same qs ps := by
  obtain ⟨ks, hnodup, hmem, hraw⟩ := headers_raw usp hps hfixed
  have hsame := same_groups hnodup hmem
  refine ⟨spread (ks.map fun k => (k, values ps k)), ?_, hsame⟩
  rw [Headers.copy, hraw]
  exact headers_new usp fun p hp => hfixed p ((hsame.mem p).1 hp)

/-- The one value that `entries` has for a name. -/
def joined (ps : Pairs) (name : String) : String :=
  let value := String.intercalate ", " (values ps name)
  if name = "content-encoding" then toLowerCase value else value

theorem headers_entries {ps : Pairs} (hps : "__proto__" ∉ ps.map Prod.fst) (hfixed : ∀ p ∈ ps, Fixed p) :
    ∃ ks : List String, ks.Nodup ∧ (∀ k, k ∈ ks ↔ k ∈ ps.map Prod.fst)
      ∧ Headers.entries usp (usp.new ps) = .ok (ks.map fun k => (k, some (joined ps k))) := by
  obtain ⟨ks, hkeys, hnodup, hmem⟩ := headers_keys usp hps
  refine ⟨ks, hnodup, hmem, ?_⟩
  rw [Headers.entries, hkeys]
  refine mapM_ok fun name hname => ?_
  have hin := (hmem name).1 hname
  have hvalues : values ps name ≠ [] := fun hnil => values_eq_nil.1 hnil hin
  obtain ⟨p, hp, rfl⟩ := List.mem_map.1 hin
  rw [Headers.get, get_all usp hps hfixed hin, (hfixed p hp).lower]
  show (if values ps p.1 = [] then _ else _) >>= _ = _
  rw [if_neg hvalues]
  rfl

/-! ## `_respondWith` -/

/-- A name that every object inherits is never made a header. -/
theorem push_value_ok {headers headers' : Object (List (Option String))} {pair : String × Option String}
    (h : push_value headers pair = .ok headers') (hfree : ∀ k ∈ object_prototype, k ∉ headers.map Prod.fst) :
    ∀ k ∈ object_prototype, k ∉ headers'.map Prod.fst := by
  unfold push_value at h
  split at h
  · cases h
  · rename_i hno
    cases h
    intro k hk hin
    rcases (keys_push _ _ _ k).1 hin with rfl | hold
    · exact hno ⟨hfree _ hk, hk⟩
    · exact hfree k hk hold

theorem push_values_ok {pairs : List (String × Option String)} {headers headers' : Object (List (Option String))}
    (h : pairs.foldlM push_value headers = .ok headers')
    (hfree : ∀ k ∈ object_prototype, k ∉ headers.map Prod.fst) :
    ∀ k ∈ object_prototype, k ∉ headers'.map Prod.fst := by
  induction pairs generalizing headers with
  | nil =>
    cases h
    exact hfree
  | cons pair pairs ih =>
    rw [List.foldlM_cons] at h
    cases hpush : push_value headers pair with
    | error e =>
      rw [hpush] at h
      cases h
    | ok mid =>
      rw [hpush] at h
      exact ih h (push_value_ok hpush hfree)

/-- Names that are not inherited get one value each. -/
theorem push_values_eq (f : String → Option String) {ks : List String} {headers : Object (List (Option String))}
    (hks : ks.Nodup) (hnew : ∀ k ∈ ks, k ∉ object_prototype ∧ k ∉ headers.map Prod.fst) :
    (ks.map fun k => (k, f k)).foldlM push_value headers = .ok (headers ++ ks.map fun k => (k, [f k])) := by
  induction ks generalizing headers with
  | nil =>
    rw [List.map_nil, List.map_nil, List.append_nil]
    rfl
  | cons k ks ih =>
    obtain ⟨hk, hks⟩ := List.nodup_cons.1 hks
    obtain ⟨hfree, hfirst⟩ := hnew k List.mem_cons_self
    have hpush : push_value headers (k, f k) = .ok (headers ++ [(k, [f k])]) := by
      rw [push_value, if_neg fun h => hfree h.2, push_new hfirst]
    rw [List.map_cons, List.foldlM_cons, hpush]
    refine (ih hks fun k' hk' => ?_).trans ?_
    · obtain ⟨hfree', hfirst'⟩ := hnew k' (List.mem_cons_of_mem _ hk')
      refine ⟨hfree', ?_⟩
      rw [List.map_append, List.mem_append, not_or]
      refine ⟨hfirst', ?_⟩
      rw [List.map_cons, List.map_nil, List.mem_singleton]
      rintro rfl
      exact hk hk'
    · rw [List.append_assoc]
      rfl

theorem mapM_id_some {α : Type} (f : String → α) (ks : List String) :
    ((ks.map fun k => (k, [some (f k)])).mapM fun e => (e.2.mapM id).map fun vs => (e.1, vs))
      = some (ks.map fun k => (k, [f k])) := by
  induction ks with
  | nil => rfl
  | cons k ks ih =>
    rw [List.map_cons, List.mapM_cons, ih]
    rfl

/-! ## The size of the call -/

theorem utf8_length_append (s t : List Char) : utf8_length (s ++ t) = utf8_length s + utf8_length t := by
  rw [utf8_length, List.map_append, List.sum_append]
  rfl

/-- A list takes the room of its items and the commas between them. -/
theorem utf8_length_json_list (items : List (List Char)) :
    utf8_length (json_list items) = (items.map utf8_length).sum + (items.length - 1) := by
  induction items with
  | nil => rfl
  | cons a items ih =>
    cases items with
    | nil =>
      have hone : json_list [a] = a := List.append_nil a
      rw [hone, List.map_cons, List.map_nil, List.sum_cons, List.sum_nil, List.length_singleton]
      rfl
    | cons b items =>
      have hcons : json_list (a :: b :: items) = a ++ ([','] ++ json_list (b :: items)) := by
        rw [json_list, json_list, List.intersperse_cons_cons]
        rfl
      have hcomma : utf8_length [','] = 1 := rfl
      rw [hcons, utf8_length_append, utf8_length_append, ih, hcomma]
      simp only [List.map_cons, List.sum_cons, List.length_cons]
      omega

/-- The call does not get longer by another order of the headers. -/
theorem utf8_length_json_call (status : ℕ) {headers headers' : Object (List (Option String))}
    (h : headers.Perm headers') :
    utf8_length (json_call status headers) = utf8_length (json_call status headers') := by
  obtain ⟨front, back, hcall⟩ : ∃ front back : List Char, ∀ hs : Object (List (Option String)),
      json_call status hs = front ++ json_list (hs.map json_entry) ++ back := ⟨_, _, fun _ => rfl⟩
  have hlist : utf8_length (json_list (headers.map json_entry)) = utf8_length (json_list (headers'.map json_entry)) := by
    rw [utf8_length_json_list, utf8_length_json_list, ((h.map json_entry).map utf8_length).sum_eq,
      (h.map json_entry).length_eq]
  rw [hcall, hcall, utf8_length_append, utf8_length_append, utf8_length_append, utf8_length_append, hlist]

/-! ## The whole way -/

theorem send_headers {status : ℕ} {headers : Object (List (Option String))} {sent : Sent}
    (h : send_fetch_response status headers = .ok sent) :
    utf8_length (json_call status headers) ≤ 65536
      ∧ (headers.mapM fun e => (e.2.mapM id).map fun vs => (e.1, vs)) = some sent.headers := by
  unfold send_fetch_response at h
  split at h
  · cases h
  · rename_i hsize
    split at h
    · rename_i sentHeaders hmap
      cases h
      exact ⟨not_lt.1 hsize, hmap⟩
    · cases h

theorem keys_of_mapM {headers : Object (List (Option String))} {sent : List (String × List String)}
    (h : (headers.mapM fun e => (e.2.mapM id).map fun vs => (e.1, vs)) = some sent) :
    sent.map Prod.fst = headers.map Prod.fst := by
  induction headers generalizing sent with
  | nil =>
    cases h
    rfl
  | cons e headers ih =>
    rw [List.mapM_cons] at h
    obtain ⟨e', he', h⟩ := Option.bind_eq_some_iff.1 h
    obtain ⟨rest, hrest, h⟩ := Option.bind_eq_some_iff.1 h
    obtain ⟨vs, -, rfl⟩ := Option.map_eq_some_iff.1 he'
    cases h
    rw [List.map_cons, List.map_cons, ih hrest]

/-- An answer has no header with a name that every object inherits. -/
theorem respondWith_free {status : ℕ} {res : Except JsError usp.T}
    (h : (respondWith usp status res).exception = none) :
    ∀ k ∈ object_prototype, k ∉ (respondWith usp status res).headers.map Prod.fst := by
  rw [respondWith] at h ⊢
  cases hsent : res >>= respondWith_inner usp status with
  | error e =>
    rw [hsent] at h
    cases h
  | ok sent =>
    obtain ⟨headers, -, hinner⟩ := ok_of_bind hsent
    obtain ⟨entries, -, hinner⟩ := ok_of_bind hinner
    obtain ⟨object, hobject, hsend⟩ := ok_of_bind hinner
    rw [Sent.of, keys_of_mapM (send_headers hsend).2]
    exact push_values_ok hobject fun k _ => List.not_mem_nil

theorem joined_congr {ps qs : Pairs} (h : Same qs ps) (name : String) : joined qs name = joined ps name := by
  rw [joined, joined, h name]

/-- What comes of a response none of whose names is inherited. -/
theorem reverse_proxy_eq (u : Upstream) (hfree : ∀ k ∈ object_prototype, k ∉ u.headers.map Prod.fst) :
    ∃ ks : List String, ks.Nodup ∧ (∀ k, k ∈ ks ↔ k ∈ u.headers.map Prod.fst)
      ∧ reverse_proxy usp u.status u.headers
        = Sent.of (send_fetch_response u.response_status (ks.map fun k => (k, [some (joined u.headers k)]))) := by
  have hproto : ∀ {ps : Pairs}, Same ps u.headers → "__proto__" ∉ ps.map Prod.fst :=
    fun hsame h => hfree "__proto__" (by decide) ((hsame.keys _).1 h)
  have hfixed : ∀ {ps : Pairs}, Same ps u.headers → ∀ p ∈ ps, Fixed p :=
    fun hsame p hp => u.fixed ((hsame.mem p).1 hp)
  -- the groups of the service, the `Headers` made of them, and the copy
  obtain ⟨-, hgroup⟩ := same_group u.headers
  obtain ⟨qs, hcopy, hqs⟩ := headers_copy usp (hproto hgroup) (hfixed hgroup)
  have hsame : Same qs u.headers := fun k => (hqs k).trans (hgroup k)
  obtain ⟨ks, hnodup, hmem, hentries⟩ := headers_entries usp (hproto hsame) (hfixed hsame)
  have hks : ∀ k, k ∈ ks ↔ k ∈ u.headers.map Prod.fst := fun k => (hmem k).trans (hsame.keys k)
  refine ⟨ks, hnodup, hks, ?_⟩
  have hfetch : fetch usp (group u.headers) = .ok (usp.new qs) := by
    rw [fetch, from_raw_headers usp (hfixed hgroup)]
    exact hcopy
  have hpush : (ks.map fun k => (k, some (joined qs k))).foldlM push_value []
      = .ok (ks.map fun k => (k, [some (joined qs k)])) :=
    push_values_eq (fun k => some (joined qs k)) hnodup fun k hk =>
      ⟨fun hin => hfree k hin ((hks k).1 hk), List.not_mem_nil⟩
  simp only [joined_congr hsame] at hentries hpush
  have hinner : respondWith_inner usp u.response_status (usp.new qs)
      = send_fetch_response u.response_status (ks.map fun k => (k, [some (joined u.headers k)])) := by
    rw [respondWith_inner, hentries, bind_ok, hpush, bind_ok]
  rw [reverse_proxy, run_fetch_eq]
  show respondWith usp u.response_status (fetch usp (group u.headers)) = _
  rw [hfetch, respondWith, bind_ok, hinner]

theorem values_single {ps : Pairs} (h : (ps.map Prod.fst).Nodup) {p : String × String} (hp : p ∈ ps) :
    values ps p.1 = [p.2] := by
  obtain ⟨v, hv⟩ := List.length_eq_one_iff.1 (nodup_keys_iff.1 h p.1 (List.mem_map_of_mem hp))
  have hmem := mem_iff_values.1 hp
  rw [hv, List.mem_singleton] at hmem
  rw [hv, hmem]

theorem joined_single {ps : Pairs} {p : String × String} (h : values ps p.1 = [p.2]) :
    joined ps p.1 = if p.1 = "content-encoding" then toLowerCase p.2 else p.2 := by
  rw [joined, h]
  rfl

/-- The headers that are sent, if they are as they came. -/
theorem sent_perm {u : Upstream} (honce : (u.headers.map Prod.fst).Nodup) {ks : List String} (hks : ks.Nodup)
    (hmem : ∀ k, k ∈ ks ↔ k ∈ u.headers.map Prod.fst) (hsame : ∀ p ∈ u.headers, joined u.headers p.1 = p.2) :
    (ks.map fun k => (k, [some (joined u.headers k)])).Perm (u.headers.map fun p => (p.1, [some p.2])) := by
  have hnames := ((List.perm_ext_iff_of_nodup hks honce).2 hmem).map fun k => (k, [some (joined u.headers k)])
  have hpairs : (u.headers.map Prod.fst).map (fun k => (k, [some (joined u.headers k)]))
      = u.headers.map fun p => (p.1, [some p.2]) := by
    rw [List.map_map]
    refine List.map_congr_left fun p hp => ?_
    rw [Function.comp_apply, hsame p hp]
  rwa [hpairs] at hnames

section Survive

variable {usp : URLSearchParams} {u : Upstream}

/-- No name of a response that gets through is inherited. -/
theorem HeadersSurvive.free (h : HeadersSurvive usp u) : ∀ k ∈ object_prototype, k ∉ u.headers.map Prod.fst := by
  obtain ⟨hnone, hlookup⟩ := h
  intro k hk hin
  have hno : k ∉ (reverse_proxy usp u.status u.headers).headers.map Prod.fst := by
    rw [reverse_proxy, run_fetch_eq] at hnone ⊢
    exact respondWith_free usp hnone k hk
  have hsome := hlookup k
  rw [lookup_eq_none hno, if_pos hin] at hsome
  cases hsome

/-- Its call is sent, and every name has the one value that `entries` makes. -/
theorem HeadersSurvive.sent (h : HeadersSurvive usp u) :
    ∃ ks : List String, ks.Nodup ∧ (∀ k, k ∈ ks ↔ k ∈ u.headers.map Prod.fst)
      ∧ utf8_length (json_call u.response_status (ks.map fun k => (k, [some (joined u.headers k)]))) ≤ 65536
      ∧ ∀ k ∈ u.headers.map Prod.fst, values u.headers k = [joined u.headers k] := by
  obtain ⟨ks, hks, hmem, heq⟩ := reverse_proxy_eq usp u h.free
  obtain ⟨hnone, hlookup⟩ := h
  rw [heq] at hnone hlookup
  cases hsend : send_fetch_response u.response_status (ks.map fun k => (k, [some (joined u.headers k)])) with
  | error e =>
    rw [hsend] at hnone
    cases hnone
  | ok sent =>
    obtain ⟨hsize, hheaders⟩ := send_headers hsend
    rw [mapM_id_some, Option.some.injEq] at hheaders
    rw [hsend] at hlookup
    refine ⟨ks, hks, hmem, hsize, fun k hk => ?_⟩
    have hk' := hlookup k
    rw [if_pos hk, Sent.of, ← hheaders, lookup_groups (fun k => [joined u.headers k]), if_pos ((hmem k).2 hk)] at hk'
    exact (Option.some.inj hk').symm

theorem HeadersSurvive.fit (h : HeadersSurvive usp u) : HeadersFit u := by
  obtain ⟨ks, hks, hmem, hsize, hvalues⟩ := h.sent
  have honce : (u.headers.map Prod.fst).Nodup := by
    rw [nodup_keys_iff]
    intro k hk
    rw [hvalues k hk]
    rfl
  have hsame : ∀ p ∈ u.headers, joined u.headers p.1 = p.2 := by
    intro p hp
    have hv := hvalues p.1 (List.mem_map_of_mem hp)
    rw [values_single honce hp] at hv
    exact (List.singleton_inj.1 hv).symm
  refine ⟨honce, ⟨h.free _ (by decide), h.free _ (by decide)⟩, fun p hp hname => ?_, ?_⟩
  · have hj := joined_single (values_single honce hp)
    rw [hsame p hp, if_pos hname] at hj
    exact hj.symm
  · rw [← utf8_length_json_call _ (sent_perm honce hks hmem hsame)]
    exact hsize

theorem HeadersFit.free (h : HeadersFit u) : ∀ k ∈ object_prototype, k ∉ u.headers.map Prod.fst := by
  intro k hk hin
  obtain ⟨p, hp, rfl⟩ := List.mem_map.1 hin
  rcases inherited_lower p.1 hk fun c hc => ((u.names hp).2 c hc).2 with heq | heq
  · exact h.inherited.1 (heq ▸ hin)
  · exact h.inherited.2 (heq ▸ hin)

theorem HeadersFit.survive (h : HeadersFit u) : HeadersSurvive usp u := by
  obtain ⟨ks, hks, hmem, heq⟩ := reverse_proxy_eq usp u h.free
  have hsame : ∀ p ∈ u.headers, joined u.headers p.1 = p.2 := by
    intro p hp
    rw [joined_single (values_single h.once hp)]
    by_cases hname : p.1 = "content-encoding"
    · rw [if_pos hname, h.encoding p hp hname]
    · rw [if_neg hname]
  have hsend : send_fetch_response u.response_status (ks.map fun k => (k, [some (joined u.headers k)]))
      = .ok ⟨u.response_status, ks.map fun k => (k, [joined u.headers k]), none⟩ := by
    rw [send_fetch_response, utf8_length_json_call _ (sent_perm h.once hks hmem hsame), if_neg (not_lt.2 h.size),
      mapM_id_some]
  rw [HeadersSurvive, heq, hsend]
  refine ⟨rfl, fun name => ?_⟩
  rw [Sent.of, lookup_groups (fun k => [joined u.headers k])]
  by_cases hname : name ∈ u.headers.map Prod.fst
  · obtain ⟨p, hp, rfl⟩ := List.mem_map.1 hname
    rw [if_pos ((hmem _).2 hname), if_pos hname, hsame p hp, values_single h.once hp]
  · rw [if_neg fun hin => hname ((hmem _).1 hin), if_neg hname]

end Survive

/-- **The exact condition.** -/
theorem headers_survive_iff (u : Upstream) : HeadersSurvive usp u ↔ HeadersFit u :=
  ⟨HeadersSurvive.fit, HeadersFit.survive⟩

/-- Two cookies become one, a header of the name `constructor` is a 500, and a
coding changes its case. -/
theorem headers_lost :
    ¬ HeadersSurvive .pairs ⟨200, [("set-cookie", "a=1"), ("set-cookie", "b=2")], by decide⟩
      ∧ ¬ HeadersSurvive .pairs ⟨200, [("constructor", "x")], by decide⟩
      ∧ ¬ HeadersSurvive .pairs ⟨200, [("content-encoding", "GZIP")], by decide⟩ := by
  refine ⟨fun h => ?_, fun h => ?_, fun h => ?_⟩
  · obtain ⟨-, -, -, -, hvalues⟩ := h.sent
    exact absurd (congrArg List.length (hvalues "set-cookie" (by decide))) (by decide)
  · exact h.free "constructor" (by decide) (by decide)
  · obtain ⟨-, -, -, -, hvalues⟩ := h.sent
    exact absurd (hvalues "content-encoding" (by decide)) (by decide)

end ResponseHeaders

end RustyWorkers

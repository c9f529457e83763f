/-
Whether an event is answered: `respondWith` and `_respondWith` of `FetchEvent`, and
`Console.log` (`librt/src/std.js`), over the calls of the host that they make
(`call_service_callback`, `rusty-workers-runtime/src/executor.rs`).

`_respondWith` may throw at its promise, at the headers and the body of the
response, and in the calls that send it. `respondWith` then logs two texts and
answers with a response of its own, but the log is two calls of the host as well,
and the second has to make a string of what was thrown, which may be any value at
all. Nothing catches what is thrown there.

What is thrown is what `respondWith` finds out about it (`Value`): whether it is
true, what its `stack` is each time that it is read, and what primitive it becomes.
The host refuses a call for want of memory whenever it likes (`Env`). A string is
one of UTF-16 code units; `JSON.stringify` escapes a surrogate without its other
half, which is no character for the host.
-/
import RustyWorkers.ResponseHeaders

set_option autoImplicit false

namespace RustyWorkers

open Lib

namespace RespondWith

open ResponseHeaders (Pairs Object JsError object_prototype push_value json_call utf8_length send_fetch_response)

/-! ## Strings -/

abbrev JsString := List UInt16

/-- A literal of the source. -/
def js (s : String) : JsString := s.toList.map fun c => UInt16.ofNat c.toNat

def is_lead (u : UInt16) : Bool := decide (0xD800 ≤ u.toNat) && decide (u.toNat ≤ 0xDBFF)

def is_trail (u : UInt16) : Bool := decide (0xDC00 ≤ u.toNat) && decide (u.toNat ≤ 0xDFFF)

inductive CodePoint where
  | char (c : Char)
  | lone (u : UInt16)
deriving DecidableEq

def CodePoint.is_lone : CodePoint → Bool
  | .char _ => false
  | .lone _ => true

/-- A code unit that is not half of a pair. -/
def code_point (u : UInt16) : CodePoint :=
  if is_lead u || is_trail u then .lone u else .char (Char.ofNat u.toNat)

def code_points : JsString → List CodePoint
  | [] => []
  | [u] => [code_point u]
  | u :: v :: rest =>
    if is_lead u && is_trail v then
      .char (Char.ofNat (0x10000 + (u.toNat - 0xD800) * 0x400 + (v.toNat - 0xDC00))) :: code_points rest
    else code_point u :: code_points (v :: rest)

/-- `\uXXXX`. -/
def unicode_escape (n : ℕ) : List Char :=
  ['\\', 'u', Nat.digitChar (n / 4096 % 16), Nat.digitChar (n / 256 % 16), Nat.digitChar (n / 16 % 16),
    Nat.digitChar (n % 16)]

/-- `QuoteJSONString`, for a code point. -/
def json_code_point : CodePoint → List Char
  | .char c =>
    if c = '"' then ['\\', '"']
    else if c = '\\' then ['\\', '\\']
    else if c.toNat = 8 then ['\\', 'b']
    else if c.toNat = 9 then ['\\', 't']
    else if c.toNat = 10 then ['\\', 'n']
    else if c.toNat = 12 then ['\\', 'f']
    else if c.toNat = 13 then ['\\', 'r']
    else if c.toNat < 32 then unicode_escape c.toNat
    else [c]
  | .lone u => unicode_escape u.toNat

/-- `JSON.stringify({ Sync: { Log: text } })`. -/
def log_call (text : JsString) : List Char :=
  "\x7b\"Sync\":\x7b\"Log\":\"".toList ++ (code_points text).flatMap json_code_point ++ "\"\x7d\x7d".toList

/-! ## Values -/

/-- A value of the script, as far as `respondWith` looks at it. An object has what
`stack` is when it is read once and once more, and what primitive it becomes;
`none` is an exception. -/
inductive Value where
  | undefined
  | null
  | boolean (b : Bool)
  | number (zero : Bool) (text : JsString)
  | string (s : JsString)
  | symbol
  | object (stack stack_again primitive : Option Value)

namespace Value

def truthy : Value → Bool
  | undefined => false
  | null => false
  | boolean b => b
  | number zero _ => !zero
  | string s => s ≠ []
  | symbol => true
  | object _ _ _ => true

/-- `ToString` of a primitive. -/
def to_string : Value → Option JsString
  | undefined => some (js "undefined")
  | null => some (js "null")
  | boolean true => some (js "true")
  | boolean false => some (js "false")
  | number _ text => some text
  | string s => some s
  -- there is no string for a symbol, and an object is no primitive
  | symbol => none
  | object _ _ _ => none

/-- `"" + v`. -/
def concat : Value → Option JsString
  | object _ _ primitive => primitive.bind to_string
  | v => v.to_string

/-- What `if(e && e.stack) console.log(e.stack); else console.log(e)` logs. -/
def logged : Value → Option Value
  | object stack stack_again primitive =>
    match stack with
    | some s => if s.truthy then stack_again else some (object stack stack_again primitive)
    | none => none
  -- a primitive has no `stack`
  | e => some e

/-- The text of the second log. -/
def logged_text (e : Value) : Option JsString := e.logged.bind concat

end Value

/-! ## Responses -/

/-- `Response.status`: a number, a value that is none in JSON, or one that
`JSON.stringify` throws at. -/
inductive Status where
  | code (n : ℕ)
  | other
  | unserialisable
deriving DecidableEq

/-- What becomes of `arrayBuffer()`. -/
inductive Body where
  | bytes (n : ℕ)
  | fails (e : Value)
  | never

/-- A `Response`, with what `headers.entries()` has. -/
structure Response where
  status : Status
  entries : Pairs
  body : Body
  names : (entries.map Prod.fst).Nodup
  valid : entries.all ResponseHeaders.valid = true

/-- How a promise settles: with a response, with something that is none, at which
the test throws `e`, or with a rejection. -/
inductive Settled where
  | response (r : Response)
  | other (e : Value)
  | rejected (e : Value)

/-! ## The host -/

inductive HostCall where
  | Log (text : JsString)
  | SendFetchResponse (status : Status) (headers : Object (List (Option String))) (body : ℕ)
  | Done
deriving DecidableEq

/-- `MAX_RESPONSE_BODY_SIZE`. -/
def MAX_RESPONSE_BODY_SIZE : ℕ := 8 * 1024 * 1024

/-- The host can read the call, and it is not too large. -/
def HostCall.fits : HostCall → Bool
  | Log text => utf8_length (log_call text) ≤ 65536 && (code_points text).all fun c => !c.is_lone
  | SendFetchResponse (.code n) headers body =>
    (send_fetch_response n headers).isOk && decide (n < 65536) && decide (body ≤ MAX_RESPONSE_BODY_SIZE)
  | SendFetchResponse _ _ _ => false
  | Done => true

/-- Which calls of the host find the memory that they need, and what is thrown by
what is not code of the script. -/
structure Env where
  memory : ℕ → Bool
  exception : Value

/-- The calls of the host so far, and whether it has accepted them. -/
abbrev Trace := List (HostCall × Bool)

/-- `_callServiceWrapper`; a call that is not accepted throws. -/
def call_service (env : Env) (trace : Trace) (call : HostCall) : Trace × Bool :=
  let accepted := env.memory trace.length && call.fits
  (trace ++ [(call, accepted)], accepted)

/-! ## `respondWith` -/

/-- How a call of `_respondWith` ends, if it does. -/
inductive Outcome where
  | returned
  | threw (e : Value)
  | pending

/-- The two calls at the end of `_respondWith`. -/
def send (env : Env) (trace : Trace) (status : Status) (headers : Object (List (Option String))) (body : ℕ) :
    Trace × Outcome :=
  let (trace, sent) := call_service env trace (.SendFetchResponse status headers body)
  if sent then
    -- an exception of this call comes after the response
    let (trace, done) := call_service env trace .Done
    (trace, if done then .returned else .threw env.exception)
  else (trace, .threw env.exception)

/-- `_respondWith`, from where its promise has settled. -/
def respondWith_inner (env : Env) (trace : Trace) : Settled → Trace × Outcome
  | .rejected e => (trace, .threw e)
  | .other e => (trace, .threw e)
  | .response r =>
    match (r.entries.map fun p => (p.1, some p.2)).foldlM push_value [] with
    | .error _ => (trace, .threw env.exception)
    | .ok headers =>
      match r.body with
      | .never => (trace, .pending)
      | .fails e => (trace, .threw e)
      | .bytes n =>
        -- an exception of `JSON.stringify` comes before the call
        if r.status = .unserialisable then (trace, .threw env.exception)
        else send env trace r.status headers n

/-- `new Response("caught exception when handling request", { status: 500 })`. -/
def fallback : Response where
  status := .code 500
  entries := [("content-type", "text/plain;charset=UTF-8")]
  body := .bytes "caught exception when handling request".toList.length
  names := List.nodup_singleton _
  valid := by decide

/-- The second log of the `catch`, and the answer. -/
def log_and_answer (env : Env) (trace : Trace) (e : Value) : Trace :=
  match e.logged_text with
  | some text =>
    let (trace, logged) := call_service env trace (.Log text)
    if logged then (respondWith_inner env trace (.response fallback)).1 else trace
  -- what the conversion throws is not caught
  | none => trace

/-- The `catch` of `respondWith`. -/
def recover (env : Env) (trace : Trace) (e : Value) : Trace :=
  let (trace, logged) := call_service env trace (.Log (js "caught exception in respondWith"))
  if logged then log_and_answer env trace e else trace

/-- `respondWith`: the calls of the host that it makes. -/
def respondWith (env : Env) (settled : Settled) : Trace :=
  match respondWith_inner env [] settled with
  | (trace, .threw e) => recover env trace e
  | (trace, _) => trace

/-! ## Answered events -/

def HostCall.is_reply : HostCall → Bool
  | Log _ => false
  | _ => true

/-- The calls other than logs that the host has accepted. -/
def replies (trace : Trace) : List HostCall := (trace.filter fun c => c.2 && c.1.is_reply).map Prod.fst

/-- The headers that `_respondWith` sends. -/
def Response.headers (r : Response) : Object (List (Option String)) := r.entries.map fun p => (p.1, [some p.2])

/-- One response is accepted, and then `Done`: what the promise settled with, or the
fallback. -/
def Answered (settled : Settled) (trace : Trace) : Prop :=
  ∃ r n, (settled = .response r ∨ r = fallback) ∧ r.body = .bytes n
    ∧ replies trace = [.SendFetchResponse r.status r.headers n, .Done]

/-- What `_respondWith` sends is within the limits of the host. -/
structure Sendable (r : Response) (body : ℕ) : Prop where
  call : ∃ n, r.status = .code n ∧ n < 65536 ∧ utf8_length (json_call n r.headers) ≤ 65536
  body : body ≤ MAX_RESPONSE_BODY_SIZE

/-- What is logged of `e` can be read, made a string, and taken by the host. -/
def Loggable (e : Value) : Prop :=
  ∃ text, e.logged_text = some text ∧ utf8_length (log_call text) ≤ 65536 ∧ ∀ c ∈ code_points text, c.is_lone = false

/-- The `catch` gets through after `i` calls of the host. -/
def Recovers (env : Env) (e : Value) (i : ℕ) : Prop := Loggable e ∧ ∀ j < 4, env.memory (i + j) = true

/-- The response gets through, or what keeps it from being sent is thrown before
that and gets through the `catch`. -/
def Answerable (env : Env) : Settled → Prop
  | .rejected e => Recovers env e 0
  | .other e => Recovers env e 0
  | .response r =>
    if ∃ p ∈ r.entries, p.1 ∈ object_prototype then Recovers env env.exception 0
    else
      match r.body with
      | .never => False
      | .fails e => Recovers env e 0
      | .bytes n =>
        if r.status = .unserialisable then Recovers env env.exception 0
        else
          (Sendable r n ∧ env.memory 0 = true) ∧ env.memory 1 = true
            ∨ ¬ (Sendable r n ∧ env.memory 0 = true) ∧ Recovers env env.exception 1

/-! ## Headers -/

/-- Names that are not inherited are collected. -/
theorem collect_ok {entries : Pairs} {headers : Object (List (Option String))} (hnodup : (entries.map Prod.fst).Nodup)
    (hnew : ∀ p ∈ entries, p.1 ∉ object_prototype ∧ p.1 ∉ headers.map Prod.fst) :
    (entries.map fun p => (p.1, some p.2)).foldlM push_value headers
      = .ok (headers ++ entries.map fun p => (p.1, [some p.2])) := by
  induction entries generalizing headers with
  | nil =>
    rw [List.map_nil, List.map_nil, List.append_nil]
    rfl
  | cons p entries ih =>
    rw [List.map_cons, List.nodup_cons] at hnodup
    obtain ⟨hfree, hfirst⟩ := hnew p List.mem_cons_self
    have hpush : push_value headers (p.1, some p.2) = .ok (headers ++ [(p.1, [some p.2])]) := by
      rw [push_value, if_neg fun h => hfree h.2, Multimap.push_new hfirst]
    rw [List.map_cons, List.foldlM_cons, hpush]
    refine (ih hnodup.2 fun q hq => ?_).trans ?_
    · obtain ⟨hfree', hfirst'⟩ := hnew q (List.mem_cons_of_mem _ hq)
      refine ⟨hfree', ?_⟩
      rw [List.map_append, List.mem_append, not_or, List.map_singleton, List.mem_singleton]
      exact ⟨hfirst', fun heq => hnodup.1 (heq ▸ List.mem_map_of_mem hq)⟩
    · rw [List.append_assoc]
      rfl

/-- A name that is inherited is an exception. -/
theorem collect_error {entries : Pairs} {headers : Object (List (Option String))}
    (hfree : ∀ k ∈ object_prototype, k ∉ headers.map Prod.fst) (h : ∃ p ∈ entries, p.1 ∈ object_prototype) :
    ∃ error, (entries.map fun p => (p.1, some p.2)).foldlM push_value headers = .error error := by
  induction entries generalizing headers with
  | nil =>
    obtain ⟨p, hp, -⟩ := h
    cases hp
  | cons p entries ih =>
    rw [List.map_cons, List.foldlM_cons]
    cases hpush : push_value headers (p.1, some p.2) with
    | error error => exact ⟨error, rfl⟩
    | ok headers' =>
      refine ih (ResponseHeaders.push_value_ok hpush hfree) ?_
      obtain ⟨q, hq, hin⟩ := h
      rcases List.mem_cons.1 hq with rfl | hq
      · rw [push_value, if_pos ⟨hfree q.1 hin, hin⟩] at hpush
        cases hpush
      · exact ⟨q, hq, hin⟩

theorem mapM_values (entries : Pairs) :
    ((entries.map fun p => (p.1, [some p.2])).mapM fun e => (e.2.mapM id).map fun vs => (e.1, vs))
      = some (entries.map fun p => (p.1, [p.2])) := by
  induction entries with
  | nil => rfl
  | cons p entries ih =>
    rw [List.map_cons, List.mapM_cons, ih]
    rfl

/-! ## Calls of the host -/

theorem send_fetch_response_isOk (n : ℕ) (r : Response) :
    (send_fetch_response n r.headers).isOk = true ↔ utf8_length (json_call n r.headers) ≤ 65536 := by
  rw [send_fetch_response]
  by_cases hsize : utf8_length (json_call n r.headers) > 65536
  · rw [if_pos hsize]
    exact ⟨fun h => (by cases h), fun h => absurd hsize (not_lt.2 h)⟩
  · rw [if_neg hsize, Response.headers, mapM_values]
    exact ⟨fun _ => not_lt.1 hsize, fun _ => rfl⟩

theorem fits_send_iff (r : Response) (body : ℕ) :
    (HostCall.SendFetchResponse r.status r.headers body).fits = true ↔ Sendable r body := by
  cases hstatus : r.status with
  | code n =>
    simp only [HostCall.fits, Bool.and_eq_true, decide_eq_true_eq, send_fetch_response_isOk]
    constructor
    · rintro ⟨⟨hsize, hcode⟩, hbody⟩
      exact ⟨⟨n, hstatus, hcode, hsize⟩, hbody⟩
    · rintro ⟨⟨m, hm, hcode, hsize⟩, hbody⟩
      obtain rfl : n = m := by
        rw [hstatus] at hm
        exact Status.code.inj hm
      exact ⟨⟨hsize, hcode⟩, hbody⟩
  | other | unserialisable =>
    refine ⟨fun h => (by cases h), ?_⟩
    rintro ⟨⟨n, hn, -⟩, -⟩
    rw [hstatus] at hn
    cases hn

theorem fits_log_iff (text : JsString) :
    (HostCall.Log text).fits = true
      ↔ utf8_length (log_call text) ≤ 65536 ∧ ∀ c ∈ code_points text, c.is_lone = false := by
  simp only [HostCall.fits, Bool.and_eq_true, decide_eq_true_eq, List.all_eq_true, Bool.not_eq_true']

/-- A call is accepted, or not. -/
theorem call_cases (env : Env) (trace : Trace) (call : HostCall) :
    (env.memory trace.length = true ∧ call.fits = true
        ∧ call_service env trace call = (trace ++ [(call, true)], true))
      ∨ (¬ (env.memory trace.length = true ∧ call.fits = true)
        ∧ call_service env trace call = (trace ++ [(call, false)], false)) := by
  by_cases h : env.memory trace.length = true ∧ call.fits = true
  · refine Or.inl ⟨h.1, h.2, ?_⟩
    rw [call_service, h.1, h.2]
    rfl
  · refine Or.inr ⟨h, ?_⟩
    rw [← Bool.and_eq_true, Bool.not_eq_true] at h
    rw [call_service, h]

@[simp] theorem replies_accepted (trace : Trace) {call : HostCall} (h : call.is_reply = true) :
    replies (trace ++ [(call, true)]) = replies trace ++ [call] := by
  rw [replies, List.filter_append, List.map_append, List.filter_cons_of_pos (by rw [h]; rfl)]
  rfl

@[simp] theorem replies_refused (trace : Trace) (call : HostCall) :
    replies (trace ++ [(call, false)]) = replies trace := by
  rw [replies, List.filter_append, List.map_append, List.filter_cons_of_neg (by simp)]
  exact List.append_nil _

@[simp] theorem replies_log (trace : Trace) (text : JsString) (ok : Bool) :
    replies (trace ++ [(.Log text, ok)]) = replies trace := by
  rw [replies, List.filter_append, List.map_append, List.filter_cons_of_neg (by simp [HostCall.is_reply])]
  exact List.append_nil _

@[simp] theorem length_concat (trace : Trace) (c : HostCall × Bool) : (trace ++ [c]).length = trace.length + 1 :=
  List.length_append

/-! ## The parts of `respondWith` -/

/-- The end of `_respondWith`: all is accepted, or the response without `Done`, or
not even the response. -/
theorem send_cases (env : Env) (trace : Trace) (r : Response) (body : ℕ) :
    (Sendable r body ∧ env.memory trace.length = true ∧ env.memory (trace.length + 1) = true
      ∧ ∃ t, send env trace r.status r.headers body = (t, .returned)
        ∧ replies t = replies trace ++ [.SendFetchResponse r.status r.headers body, .Done])
    ∨ (Sendable r body ∧ env.memory trace.length = true ∧ ¬ env.memory (trace.length + 1) = true
      ∧ ∃ t, send env trace r.status r.headers body = (t, .threw env.exception)
        ∧ replies t = replies trace ++ [.SendFetchResponse r.status r.headers body])
    ∨ (¬ (Sendable r body ∧ env.memory trace.length = true)
      ∧ ∃ t, send env trace r.status r.headers body = (t, .threw env.exception)
        ∧ t.length = trace.length + 1 ∧ replies t = replies trace) := by
  rcases call_cases env trace (.SendFetchResponse r.status r.headers body) with
    ⟨hmemory, hfits, hsent⟩ | ⟨hno, hsent⟩
  · have hsendable := (fits_send_iff r body).1 hfits
    -- nothing but memory can be missing for `Done`
    rcases call_cases env (trace ++ [(.SendFetchResponse r.status r.headers body, true)]) .Done with
      ⟨hmemory', -, hdone⟩ | ⟨hno, hdone⟩
    · rw [length_concat] at hmemory'
      have hsend : send env trace r.status r.headers body
          = (trace ++ [(.SendFetchResponse r.status r.headers body, true)] ++ [(.Done, true)], .returned) := by
        simp only [send, hsent, hdone, if_true]
      refine Or.inl ⟨hsendable, hmemory, hmemory', _, hsend, ?_⟩
      rw [replies_accepted _ rfl, replies_accepted _ rfl, List.append_assoc]
      rfl
    · rw [length_concat] at hno
      have hsend : send env trace r.status r.headers body
          = (trace ++ [(.SendFetchResponse r.status r.headers body, true)] ++ [(.Done, false)], .threw env.exception) := by
        simp only [send, hsent, hdone, if_true, Bool.false_eq_true, if_false]
      refine Or.inr (Or.inl ⟨hsendable, hmemory, fun h => hno ⟨h, rfl⟩, _, hsend, ?_⟩)
      rw [replies_refused, replies_accepted _ rfl]
  · rw [fits_send_iff, and_comm] at hno
    have hsend : send env trace r.status r.headers body
        = (trace ++ [(.SendFetchResponse r.status r.headers body, false)], .threw env.exception) := by
      simp only [send, hsent, Bool.false_eq_true, if_false]
    exact Or.inr (Or.inr ⟨hno, _, hsend, length_concat _ _, replies_refused _ _⟩)

theorem sendable_fallback : Sendable fallback 38 :=
  ⟨⟨500, rfl, by decide, by decide⟩, by decide⟩

/-- The fallback is a response of which nothing is refused but for want of memory. -/
theorem fallback_eq (env : Env) (trace : Trace) :
    respondWith_inner env trace (.response fallback) = send env trace fallback.status fallback.headers 38 := rfl

/-- The replies of a `catch` that gets through, and of one that does not: then
there is no `Done`. -/
def Recovered (trace t : Trace) : Prop :=
  replies t = replies trace ++ [.SendFetchResponse fallback.status fallback.headers 38, .Done]

def NotRecovered (trace t : Trace) : Prop :=
  replies t = replies trace
    ∨ replies t = replies trace ++ [.SendFetchResponse fallback.status fallback.headers 38]

theorem log_and_answer_cases (env : Env) (trace : Trace) (e : Value) :
    ((Loggable e ∧ ∀ j < 3, env.memory (trace.length + j) = true) ∧ Recovered trace (log_and_answer env trace e))
    ∨ (¬ (Loggable e ∧ ∀ j < 3, env.memory (trace.length + j) = true)
      ∧ NotRecovered trace (log_and_answer env trace e)) := by
  cases htext : e.logged_text with
  | none =>
    refine Or.inr ⟨fun h => ?_, Or.inl ?_⟩
    · obtain ⟨text, hsome, -⟩ := h.1
      rw [htext] at hsome
      cases hsome
    · simp only [log_and_answer, htext]
  | some text =>
    rcases call_cases env trace (.Log text) with ⟨hm0, hfits, hlog⟩ | ⟨hno, hlog⟩
    · have heq : log_and_answer env trace e
          = (send env (trace ++ [(.Log text, true)]) fallback.status fallback.headers 38).1 := by
        simp only [log_and_answer, htext, hlog, if_true, fallback_eq]
      rw [heq]
      unfold Recovered NotRecovered
      rw [← replies_log trace text true]
      -- the log is taken, and the fallback goes the way of any response
      rcases send_cases env (trace ++ [(.Log text, true)]) fallback 38 with
        ⟨-, hm1, hm2, t, hsend, hreplies⟩ | ⟨-, -, hm2, t, hsend, hreplies⟩ | ⟨hm1, t, hsend, -, hreplies⟩
      · rw [hsend]
        refine Or.inl ⟨⟨⟨text, htext, (fits_log_iff text).1 hfits⟩, fun j hj => ?_⟩, hreplies⟩
        rw [length_concat] at hm1 hm2
        rcases (by omega : j = 0 ∨ j = 1 ∨ j = 2) with rfl | rfl | rfl
        · exact hm0
        · exact hm1
        · exact hm2
      · rw [hsend]
        rw [length_concat] at hm2
        exact Or.inr ⟨fun h => hm2 (h.2 2 (by omega)), Or.inr hreplies⟩
      · rw [hsend]
        rw [length_concat] at hm1
        exact Or.inr ⟨fun h => hm1 ⟨sendable_fallback, h.2 1 (by omega)⟩, Or.inl hreplies⟩
    · have heq : log_and_answer env trace e = trace ++ [(.Log text, false)] := by
        simp only [log_and_answer, htext, hlog, Bool.false_eq_true, if_false]
      refine Or.inr ⟨fun h => hno ⟨h.2 0 (by omega), ?_⟩, Or.inl ?_⟩
      · obtain ⟨text', hsome, hfits⟩ := h.1
        obtain rfl := Option.some.inj (htext.symm.trans hsome)
        exact (fits_log_iff text).2 hfits
      · rw [heq, replies_log]

/-- The first log is of a fixed text. -/
theorem recover_cases (env : Env) (trace : Trace) (e : Value) :
    (Recovers env e trace.length ∧ Recovered trace (recover env trace e))
    ∨ (¬ Recovers env e trace.length ∧ NotRecovered trace (recover env trace e)) := by
  have hfits : (HostCall.Log (js "caught exception in respondWith")).fits = true := by decide
  rcases call_cases env trace (.Log (js "caught exception in respondWith")) with ⟨hm0, -, hlog⟩ | ⟨hno, hlog⟩
  · have heq : recover env trace e
        = log_and_answer env (trace ++ [(.Log (js "caught exception in respondWith"), true)]) e := by
      simp only [recover, hlog, if_true]
    -- the first of the four calls is this log
    have hrest : Recovers env e trace.length
        ↔ Loggable e ∧ ∀ j < 3, env.memory (trace.length + 1 + j) = true := by
      refine and_congr_right fun _ => ⟨fun h j hj => ?_, fun h j hj => ?_⟩
      · rw [Nat.add_assoc, Nat.add_comm 1]
        exact h (j + 1) (by omega)
      · cases j with
        | zero => exact hm0
        | succ j =>
          rw [← Nat.add_assoc, Nat.add_right_comm]
          exact h j (by omega)
    have hcases := log_and_answer_cases env (trace ++ [(.Log (js "caught exception in respondWith"), true)]) e
    rw [length_concat, ← hrest, ← heq] at hcases
    unfold Recovered NotRecovered at hcases ⊢
    rw [replies_log] at hcases
    exact hcases
  · have heq : recover env trace e = trace ++ [(.Log (js "caught exception in respondWith"), false)] := by
      simp only [recover, hlog, Bool.false_eq_true, if_false]
    refine Or.inr ⟨fun h => hno ⟨h.2 0 (by omega), hfits⟩, Or.inl ?_⟩
    rw [heq, replies_log]

/-- An event that has sent nothing is answered by its `catch`, or not at all. -/
theorem recover_answered {env : Env} {trace : Trace} {settled : Settled} {e : Value} (hnone : replies trace = []) :
    Answered settled (recover env trace e) ↔ Recovers env e trace.length := by
  rcases recover_cases env trace e with ⟨hrecovers, hreplies⟩ | ⟨hfails, hreplies⟩
  · unfold Recovered at hreplies
    rw [hnone] at hreplies
    exact ⟨fun _ => hrecovers, fun _ => ⟨fallback, 38, Or.inr rfl, rfl, hreplies⟩⟩
  · refine ⟨?_, fun h => absurd h hfails⟩
    rintro ⟨r, n, -, -, hanswer⟩
    unfold NotRecovered at hreplies
    rw [hnone, hanswer] at hreplies
    simp at hreplies

/-- An event that has sent a response without `Done` is not answered any more. -/
theorem sent_not_answered {env : Env} {trace : Trace} {settled : Settled} {e : Value} {r : Response} {body : ℕ}
    (hsent : replies trace = [.SendFetchResponse r.status r.headers body]) :
    ¬ Answered settled (recover env trace e) := by
  rintro ⟨r', n, -, -, hanswer⟩
  rcases recover_cases env trace e with ⟨-, hreplies⟩ | ⟨-, hreplies⟩
  · unfold Recovered at hreplies
    rw [hsent, hanswer] at hreplies
    simp at hreplies
  · unfold NotRecovered at hreplies
    rw [hsent, hanswer] at hreplies
    simp at hreplies

/-! ## The whole of `respondWith` -/

/-- A response with a body, and headers that can be collected. -/
theorem send_answered (env : Env) {r : Response} {body : ℕ} (hbody : r.body = .bytes body)
    (hsend : respondWith_inner env [] (.response r) = send env [] r.status r.headers body) :
    Answered (.response r) (respondWith env (.response r))
      ↔ (Sendable r body ∧ env.memory 0 = true) ∧ env.memory 1 = true
        ∨ ¬ (Sendable r body ∧ env.memory 0 = true) ∧ Recovers env env.exception 1 := by
  unfold respondWith
  rw [hsend]
  rcases send_cases env [] r body with
    ⟨hs, hm0, hm1, t, heq, hreplies⟩ | ⟨hs, hm0, hm1, t, heq, hreplies⟩ | ⟨hno, t, heq, hlen, hreplies⟩
  · rw [heq]
    exact ⟨fun _ => Or.inl ⟨⟨hs, hm0⟩, hm1⟩, fun _ => ⟨r, body, Or.inl rfl, hbody, hreplies⟩⟩
  · rw [heq]
    refine ⟨fun h => absurd h (sent_not_answered hreplies), fun h => ?_⟩
    rcases h with ⟨-, hm⟩ | ⟨hno, -⟩
    · exact absurd hm hm1
    · exact absurd ⟨hs, hm0⟩ hno
  · rw [heq]
    show Answered _ (recover env t env.exception) ↔ _
    rw [recover_answered hreplies, hlen]
    exact ⟨fun h => Or.inr ⟨hno, h⟩, fun h => h.elim (fun hyes => absurd hyes.1 hno) fun hrecovers => hrecovers.2⟩

/-- **Which events are answered.** For every promise and every way it settles: one
`SendFetchResponse` is accepted and then one `Done`, iff the response can be sent
and the host has the memory for both calls, or what is thrown before the response
is accepted can be logged and the host has the memory for the four calls of the
`catch`. -/
theorem answered_iff (env : Env) (settled : Settled) :
    Answered settled (respondWith env settled) ↔ Answerable env settled := by
  cases settled with
  | rejected e => exact recover_answered rfl
  | other e => exact recover_answered rfl
  | response r =>
    simp only [Answerable]
    by_cases hinherited : ∃ p ∈ r.entries, p.1 ∈ object_prototype
    · rw [if_pos hinherited]
      have hfree : ∀ k ∈ object_prototype, k ∉ ([] : Object (List (Option String))).map Prod.fst :=
        fun k _ => List.not_mem_nil
      obtain ⟨error, herror⟩ := collect_error hfree hinherited
      have hthrew : respondWith_inner env [] (.response r) = ([], .threw env.exception) := by
        simp only [respondWith_inner, herror]
      unfold respondWith
      rw [hthrew]
      exact recover_answered rfl
    · rw [if_neg hinherited]
      have hnew : ∀ p ∈ r.entries, p.1 ∉ object_prototype ∧ p.1 ∉ ([] : Object (List (Option String))).map Prod.fst :=
        fun p hp => ⟨fun hin => hinherited ⟨p, hp, hin⟩, List.not_mem_nil⟩
      have hok := collect_ok r.names hnew
      rw [List.nil_append] at hok
      -- with the headers collected it is up to the body
      cases hbody : r.body with
      | never =>
        simp only
        have hpending : respondWith_inner env [] (.response r) = ([], .pending) := by
          simp only [respondWith_inner, hok, hbody]
        unfold respondWith
        rw [hpending]
        refine ⟨?_, fun h => absurd h fun hno => hno⟩
        rintro ⟨r', n, -, -, hanswer⟩
        cases hanswer
      | fails e =>
        have hthrew : respondWith_inner env [] (.response r) = ([], .threw e) := by
          simp only [respondWith_inner, hok, hbody]
        unfold respondWith
        rw [hthrew]
        exact recover_answered rfl
      | bytes n =>
        by_cases hstatus : r.status = .unserialisable
        · have hthrew : respondWith_inner env [] (.response r) = ([], .threw env.exception) := by
            simp only [respondWith_inner, hok, hbody, if_pos hstatus]
          unfold respondWith
          rw [hthrew]
          simp only [if_pos hstatus]
          exact recover_answered rfl
        · have hsend : respondWith_inner env [] (.response r) = send env [] r.status r.headers n := by
            simp only [respondWith_inner, hok, hbody, if_neg hstatus]
            rfl
          simp only [if_neg hstatus]
          exact send_answered env hbody hsend

/-- A promise rejected with a symbol: the first log is the only call. -/
theorem symbol_not_answered :
    respondWith ⟨fun _ => true, .undefined⟩ (.rejected .symbol) = [(.Log (js "caught exception in respondWith"), true)]
      ∧ ¬ Answered (.rejected .symbol) (respondWith ⟨fun _ => true, .undefined⟩ (.rejected .symbol)) := by
  have htrace : respondWith ⟨fun _ => true, .undefined⟩ (.rejected .symbol)
      = [(.Log (js "caught exception in respondWith"), true)] := by decide
  refine ⟨htrace, ?_⟩
  rintro ⟨r, n, -, -, hanswer⟩
  rw [htrace] at hanswer
  cases hanswer

end RespondWith

end RustyWorkers

/-
The limits on bodies: the accumulation in `Scheduler::handle_request`
(`rusty-workers-proxy/src/sched.rs`) and the loop of `run_fetch`
(`rusty-workers-fetchd/src/server.rs`).

A body comes as a stream of chunks, any of which may be an error instead. The
proxy goes through the whole stream: a chunk that does not fit is skipped, later
ones are appended all the same, and only the last error is kept. `run_fetch`
appends first, compares afterwards, and leaves at the first error. Both are
compared with `limited`, which reads the stream byte by byte and so cannot see
where the chunks begin.

Lengths are natural numbers: two buffers that are in memory together have a total
length below `2 ^ 64`, so the sum in the comparison does not wrap.
-/
import RustyWorkers.Types

set_option autoImplicit false

namespace RustyWorkers

namespace BodyLimits

variable {E : Type}

/-- Why a body is not accepted: it is too large, or its stream failed. -/
inductive BodyError (E : Type) where
  | too_large
  | stream (e : E)
deriving DecidableEq, Repr

/-! ## The two loops -/

/-- The captured variables of the closure in `handle_request`. -/
structure Accumulated (E : Type) where
  full_body : Bytes
  body_error : Except (BodyError E) Unit

/-- The closure that `for_each` calls. -/
def Accumulated.next (max_request_body_size_bytes : ℕ) (s : Accumulated E) : Except E Bytes → Accumulated E
  | .ok x =>
    if s.full_body.length + x.length > max_request_body_size_bytes then { s with body_error := .error .too_large }
    else { s with full_body := s.full_body ++ x }
  | .error e => { s with body_error := .error (.stream e) }

/-- `req.into_body().for_each(..)`. -/
def accumulate (max_request_body_size_bytes : ℕ) (items : List (Except E Bytes)) : Accumulated E :=
  items.foldl (Accumulated.next max_request_body_size_bytes) ⟨[], .ok ()⟩

/-- The body of the `target_req` of `handle_request`, after `body_error?`. -/
def request_body (max_request_body_size_bytes : ℕ) (items : List (Except E Bytes)) : Except (BodyError E) Bytes := do
  let s := accumulate max_request_body_size_bytes items
  s.body_error
  return s.full_body

/-- `MAX_RESPONSE_BODY_SIZE` of fetchd. -/
def MAX_RESPONSE_BODY_SIZE : ℕ := 1048576 * 8

/-- `while let Some(chunk) = res.chunk().await?`, from a `body` on. -/
def response_body_from (body : Bytes) : List (Except E Bytes) → Except (BodyError E) Bytes
  | [] => .ok body
  | .error e :: _ => .error (.stream e)
  | .ok chunk :: items =>
    if (body ++ chunk).length > MAX_RESPONSE_BODY_SIZE then .error .too_large
    else response_body_from (body ++ chunk) items

/-- The body of the `target_res` of `run_fetch`. -/
def response_body (items : List (Except E Bytes)) : Except (BodyError E) Bytes := response_body_from [] items

/-! ## What both are for -/

/-- The stream byte by byte. -/
def wire (items : List (Except E Bytes)) : List (Except E UInt8) :=
  items.flatMap fun
    | .ok x => x.map .ok
    | .error e => [.error e]

/-- The bytes of a stream without errors, if they are at most `limit`. -/
def limited (limit : ℕ) (stream : List (Except E UInt8)) : Option Bytes :=
  match stream.mapM id with
  | .ok bytes => if bytes.length ≤ limit then some bytes else none
  | .error _ => none

@[simp] theorem wire_nil : wire ([] : List (Except E Bytes)) = [] := rfl

@[simp] theorem wire_ok (x : Bytes) (items : List (Except E Bytes)) :
    wire (.ok x :: items) = x.map .ok ++ wire items := rfl

@[simp] theorem wire_error (e : E) (items : List (Except E Bytes)) :
    wire (.error e :: items) = .error e :: wire items := rfl

/-- A stream of chunks alone carries their concatenation. -/
theorem wire_chunks (chunks : List Bytes) :
    wire (chunks.map (.ok : Bytes → Except E Bytes)) = chunks.flatten.map .ok := by
  induction chunks with
  | nil => rfl
  | cons x chunks ih => rw [List.map_cons, wire_ok, ih, List.flatten_cons, List.map_append]

theorem mapM_ok_append (x : Bytes) (stream : List (Except E UInt8)) :
    (x.map (.ok : UInt8 → Except E UInt8) ++ stream).mapM id = (stream.mapM id).map fun bytes => x ++ bytes := by
  induction x with
  | nil =>
      show stream.mapM id = _
      rcases stream.mapM id with e | bytes <;> rfl
  | cons b x ih =>
      rw [List.map_cons, List.cons_append, List.mapM_cons, ih]
      rcases stream.mapM id with e | bytes <;> rfl

theorem mapM_chunks (chunks : List Bytes) :
    (wire (chunks.map (.ok : Bytes → Except E Bytes))).mapM id = .ok chunks.flatten := by
  have h := mapM_ok_append (E := E) chunks.flatten []
  rw [List.append_nil] at h
  rw [wire_chunks, h]
  show Except.ok (chunks.flatten ++ []) = _
  rw [List.append_nil]

/-- `body` is the concatenation of the items, which are all chunks. -/
def Concat (items : List (Except E Bytes)) (body : Bytes) : Prop :=
  ∃ chunks : List Bytes, items = chunks.map .ok ∧ chunks.flatten = body

theorem concat_nil {body : Bytes} : Concat ([] : List (Except E Bytes)) body ↔ [] = body := by
  constructor
  · rintro ⟨chunks, hnil, rfl⟩
    rw [List.map_eq_nil_iff.1 hnil.symm, List.flatten_nil]
  · intro h
    exact ⟨[], rfl, h⟩

theorem not_concat_error {e : E} {items : List (Except E Bytes)} {body : Bytes} :
    ¬ Concat (.error e :: items) body := by
  rintro ⟨_ | ⟨y, chunks⟩, hchunks, -⟩ <;> cases hchunks

theorem concat_ok {x : Bytes} {items : List (Except E Bytes)} {body : Bytes} :
    Concat (.ok x :: items) body ↔ ∃ rest, Concat items rest ∧ x ++ rest = body := by
  constructor
  · rintro ⟨_ | ⟨y, chunks⟩, hchunks, rfl⟩
    · cases hchunks
    · injection hchunks with hy hrest
      injection hy with hy
      exact ⟨chunks.flatten, ⟨chunks, hrest, rfl⟩, by rw [hy, List.flatten_cons]⟩
  · rintro ⟨rest, ⟨chunks, rfl, rfl⟩, rfl⟩
    exact ⟨x :: chunks, rfl, List.flatten_cons⟩

/-- The stream is read to its end iff all its items are chunks. -/
theorem mapM_wire_eq_ok {items : List (Except E Bytes)} {body : Bytes} :
    (wire items).mapM id = .ok body ↔ Concat items body := by
  induction items generalizing body with
  | nil =>
      rw [concat_nil]
      simp only [wire_nil, List.mapM_nil, pure, Except.pure, Except.ok.injEq]
  | cons item items ih =>
      rcases item with e | x
      · rw [wire_error, List.mapM_cons]
        exact iff_of_false (fun h => by cases h) not_concat_error
      · rw [wire_ok, mapM_ok_append, concat_ok]
        simp only [← ih]
        rcases (wire items).mapM id with e | rest
        · exact iff_of_false (fun h => by cases h) fun ⟨rest, h, _⟩ => by cases h
        · constructor
          · intro h
            injection h with h
            exact ⟨rest, rfl, h⟩
          · rintro ⟨rest', h, rfl⟩
            injection h with h
            rw [h]
            rfl

theorem limited_eq_some {limit : ℕ} {items : List (Except E Bytes)} {body : Bytes} :
    limited limit (wire items) = some body
      ↔ Concat items body ∧ body.length ≤ limit := by
  rw [← mapM_wire_eq_ok, limited]
  rcases (wire items).mapM id with e | bytes
  · simp
  · by_cases hle : bytes.length ≤ limit
    · simp only [if_pos hle, Option.some.injEq, Except.ok.injEq]
      exact ⟨fun h => ⟨h, h ▸ hle⟩, fun h => h.1⟩
    · simp only [if_neg hle, Except.ok.injEq, reduceCtorEq, false_iff, not_and]
      rintro rfl
      exact hle

/-! ## The accumulation of the proxy -/

variable {limit : ℕ}

theorem accumulate_append (items : List (Except E Bytes)) (item : Except E Bytes) :
    accumulate limit (items ++ [item]) = (accumulate limit items).next limit item := by
  rw [accumulate, List.foldl_append, List.foldl_cons, List.foldl_nil]
  rfl

/-- An overflow is an error already when it is skipped, so what is buffered never
exceeds the limit. -/
theorem length_next {s : Accumulated E} (h : s.full_body.length ≤ limit) (item : Except E Bytes) :
    (s.next limit item).full_body.length ≤ limit := by
  rcases item with e | x
  · exact h
  · rw [Accumulated.next]
    by_cases hover : s.full_body.length + x.length > limit
    · rw [if_pos hover]
      exact h
    · rw [if_neg hover]
      show (s.full_body ++ x).length ≤ limit
      rw [List.length_append]
      omega

theorem length_accumulate (limit : ℕ) (items : List (Except E Bytes)) :
    (accumulate limit items).full_body.length ≤ limit := by
  induction items using List.reverseRecOn with
  | nil => exact Nat.zero_le limit
  | append_singleton items item ih =>
      rw [accumulate_append]
      exact length_next ih item

/-- No chunk clears an error. -/
theorem next_error {s : Accumulated E} (h : s.body_error ≠ .ok ()) (item : Except E Bytes) :
    (s.next limit item).body_error ≠ .ok () := by
  rcases item with e | x
  · exact fun hok => by cases hok
  · rw [Accumulated.next]
    by_cases hover : s.full_body.length + x.length > limit
    · rw [if_pos hover]
      exact fun hok => by cases hok
    · rw [if_neg hover]
      exact h

/-- **What the accumulation has after any part of the stream.** Without an error
it has all bytes so far, and they fit; with one, the bytes so far are not an
acceptable body. -/
theorem accumulate_limited (limit : ℕ) (items : List (Except E Bytes)) :
    ((accumulate limit items).body_error = .ok ()
        ∧ limited limit (wire items) = some (accumulate limit items).full_body)
    ∨ ((accumulate limit items).body_error ≠ .ok () ∧ limited limit (wire items) = none) := by
  induction items using List.reverseRecOn with
  | nil => exact Or.inl ⟨rfl, limited_eq_some.2 ⟨⟨[], rfl, rfl⟩, Nat.zero_le limit⟩⟩
  | append_singleton items item ih =>
      rw [accumulate_append]
      rcases ih with ⟨hok, hbody⟩ | ⟨herror, hnone⟩
      · obtain ⟨⟨chunks, rfl, hflat⟩, hle⟩ := limited_eq_some.1 hbody
        rcases item with e | x
        · -- the stream fails here
          refine Or.inr ⟨fun h => (by cases h), ?_⟩
          rw [Option.eq_none_iff_forall_ne_some]
          intro body hsome
          obtain ⟨⟨chunks', hchunks, -⟩, -⟩ := limited_eq_some.1 hsome
          have hmem : (.error e : Except E Bytes) ∈ chunks'.map .ok := by
            rw [← hchunks]
            exact List.mem_append_right _ (List.mem_singleton_self _)
          obtain ⟨y, -, hy⟩ := List.mem_map.1 hmem
          cases hy
        · have hflat' : (chunks ++ [x]).flatten = (accumulate limit (chunks.map .ok : List (Except E Bytes))).full_body ++ x := by
            rw [List.flatten_append, hflat, List.flatten_singleton]
          have hitems : chunks.map .ok ++ [(.ok x : Except E Bytes)] = (chunks ++ [x]).map .ok := by
            rw [List.map_append, List.map_singleton]
          rw [hitems, Accumulated.next]
          by_cases hover : (accumulate limit (chunks.map .ok : List (Except E Bytes))).full_body.length + x.length > limit
          · -- too long from here on, whatever comes
            rw [if_pos hover]
            refine Or.inr ⟨fun h => (by cases h), ?_⟩
            rw [limited, mapM_chunks]
            show (if _ then _ else _) = none
            rw [if_neg]
            rw [hflat', List.length_append]
            omega
          · rw [if_neg hover]
            refine Or.inl ⟨hok, limited_eq_some.2 ⟨⟨chunks ++ [x], rfl, hflat'⟩, ?_⟩⟩
            show (_ ++ x).length ≤ limit
            rw [List.length_append]
            omega
      · -- an error stays, and no longer stream is acceptable
        refine Or.inr ⟨next_error herror item, ?_⟩
        rw [Option.eq_none_iff_forall_ne_some] at hnone ⊢
        intro body hsome
        obtain ⟨⟨chunks, hchunks, hflat⟩, hle⟩ := limited_eq_some.1 hsome
        obtain ⟨before, last, rfl, hbefore, -⟩ := List.append_eq_map_iff.1 hchunks
        refine hnone before.flatten (limited_eq_some.2 ⟨⟨before, hbefore.symm, rfl⟩, ?_⟩)
        rw [← hflat, List.flatten_append, List.length_append] at hle
        omega

theorem request_body_limited (limit : ℕ) (items : List (Except E Bytes)) :
    (request_body limit items).toOption = limited limit (wire items) := by
  rw [request_body]
  rcases accumulate_limited limit items with ⟨hok, hbody⟩ | ⟨herror, hnone⟩
  · rw [hok, hbody]
    rfl
  · rw [hnone]
    rcases hbe : (accumulate limit items).body_error with e | u
    · rfl
    · exact absurd hbe herror

/-- A stream of chunks that does not fit fails for its size. -/
theorem request_body_chunks {chunks : List Bytes} (h : limit < chunks.flatten.length) :
    request_body limit (chunks.map (.ok : Bytes → Except E Bytes)) = .error .too_large := by
  have hnone : limited limit (wire (chunks.map (.ok : Bytes → Except E Bytes))) = none := by
    rw [limited, mapM_chunks]
    exact if_neg (by omega)
  -- without an error of the stream there is only one that can be recorded
  have honly : ∀ chunks : List Bytes, ∀ e,
      (accumulate limit (chunks.map (.ok : Bytes → Except E Bytes))).body_error = .error e → e = .too_large := by
    intro chunks
    induction chunks using List.reverseRecOn with
    | nil => exact fun e he => by cases he
    | append_singleton chunks x ih =>
        intro e he
        rw [List.map_append, List.map_singleton, accumulate_append, Accumulated.next] at he
        by_cases hover : (accumulate limit (chunks.map (.ok : Bytes → Except E Bytes))).full_body.length + x.length > limit
        · rw [if_pos hover] at he
          injection he with he
          exact he.symm
        · rw [if_neg hover] at he
          exact ih e he
  rcases accumulate_limited limit (chunks.map (.ok : Bytes → Except E Bytes)) with ⟨-, hbody⟩ | ⟨herror, -⟩
  · rw [hnone] at hbody
    cases hbody
  · rw [request_body]
    rcases hbe : (accumulate limit (chunks.map (.ok : Bytes → Except E Bytes))).body_error with e | u
    · rw [honly chunks e hbe]
      rfl
    · exact absurd hbe herror

/-! ## The loop of fetchd -/

/-- The outcome of the loop, read off the bytes alone. -/
def response_of_wire (body : Bytes) : List (Except E UInt8) → Except (BodyError E) Bytes
  | [] => .ok body
  | .error e :: _ => if body.length > MAX_RESPONSE_BODY_SIZE then .error .too_large else .error (.stream e)
  | .ok b :: stream =>
    if (body ++ [b]).length > MAX_RESPONSE_BODY_SIZE then .error .too_large else response_of_wire (body ++ [b]) stream

theorem response_of_wire_chunk {body : Bytes} (h : body.length ≤ MAX_RESPONSE_BODY_SIZE) (x : Bytes)
    (stream : List (Except E UInt8)) :
    response_of_wire body (x.map .ok ++ stream)
      = if (body ++ x).length > MAX_RESPONSE_BODY_SIZE then .error .too_large
        else response_of_wire (body ++ x) stream := by
  induction x generalizing body with
  | nil =>
      rw [List.append_nil, if_neg (by omega)]
      rfl
  | cons b x ih =>
      rw [List.map_cons, List.cons_append, response_of_wire]
      have hcons : body ++ b :: x = (body ++ [b]) ++ x := by rw [List.append_assoc, List.singleton_append]
      by_cases hover : (body ++ [b]).length > MAX_RESPONSE_BODY_SIZE
      · rw [if_pos hover, if_pos]
        rw [hcons, List.length_append]
        omega
      · rw [if_neg hover, ih (by omega), hcons]

theorem response_body_of_wire {body : Bytes} (h : body.length ≤ MAX_RESPONSE_BODY_SIZE)
    (items : List (Except E Bytes)) : response_body_from body items = response_of_wire body (wire items) := by
  induction items generalizing body with
  | nil => rfl
  | cons item items ih =>
      rcases item with e | x
      · rw [response_body_from, wire_error, response_of_wire, if_neg (by omega)]
      · rw [response_body_from, wire_ok, response_of_wire_chunk h]
        by_cases hover : (body ++ x).length > MAX_RESPONSE_BODY_SIZE
        · rw [if_pos hover, if_pos hover]
        · rw [if_neg hover, if_neg hover, ih (by omega)]

theorem response_body_from_eq_ok {body : Bytes} (h : body.length ≤ MAX_RESPONSE_BODY_SIZE)
    (items : List (Except E Bytes)) {result : Bytes} :
    response_body_from body items = .ok result
      ↔ (∃ rest, Concat items rest ∧ body ++ rest = result) ∧ result.length ≤ MAX_RESPONSE_BODY_SIZE := by
  induction items generalizing body with
  | nil =>
      simp only [response_body_from, concat_nil, exists_eq_left', List.append_nil, Except.ok.injEq]
      exact ⟨fun hok => ⟨hok, hok ▸ h⟩, fun hok => hok.1⟩
  | cons item items ih =>
      rcases item with e | x
      · exact iff_of_false (fun hok => by cases hok) fun ⟨⟨rest, hrest, _⟩, _⟩ => not_concat_error hrest
      · rw [response_body_from]
        have hcons : (∃ rest, Concat (.ok x :: items) rest ∧ body ++ rest = result)
            ↔ ∃ rest, Concat items rest ∧ (body ++ x) ++ rest = result := by
          simp only [concat_ok]
          constructor
          · rintro ⟨_, ⟨rest, hrest, rfl⟩, rfl⟩
            exact ⟨rest, hrest, List.append_assoc body x rest⟩
          · rintro ⟨rest, hrest, rfl⟩
            exact ⟨x ++ rest, ⟨rest, hrest, rfl⟩, (List.append_assoc body x rest).symm⟩
        rw [hcons]
        by_cases hover : (body ++ x).length > MAX_RESPONSE_BODY_SIZE
        · -- what comes after the overflow can only be longer
          rw [if_pos hover]
          refine iff_of_false (fun hok => by cases hok) ?_
          rintro ⟨⟨rest, -, rfl⟩, hle⟩
          rw [List.length_append] at hle
          omega
        · rw [if_neg hover, ih (by omega)]

/-! ## Both limits -/

/-- **Limits do not depend on chunking.** The proxy accepts exactly the streams
without an error whose chunks fit into its limit, with the concatenation of the
chunks, and has never buffered more; `run_fetch` does the same at its own limit.
So two streams with the same bytes, and errors at the same places, are accepted
alike, whatever the chunks. -/
theorem body_limits_exact (limit : ℕ) (items : List (Except E Bytes)) :
    (∀ body, request_body limit items = .ok body
        ↔ Concat items body ∧ body.length ≤ limit)
    ∧ (∀ before, before <+: items → (accumulate limit before).full_body.length ≤ limit)
    ∧ (∀ body, response_body items = .ok body
        ↔ Concat items body ∧ body.length ≤ MAX_RESPONSE_BODY_SIZE)
    ∧ (∀ items' : List (Except E Bytes), wire items' = wire items →
        (request_body limit items').toOption = (request_body limit items).toOption
        ∧ response_body items' = response_body items)
    ∧ ∀ chunks chunks' : List Bytes, chunks'.flatten = chunks.flatten →
        request_body limit (chunks'.map (.ok : Bytes → Except E Bytes))
          = request_body limit (chunks.map (.ok : Bytes → Except E Bytes)) := by
  have hrequest : ∀ (items : List (Except E Bytes)) (body : Bytes), request_body limit items = .ok body
      ↔ limited limit (wire items) = some body := by
    intro items body
    rw [← request_body_limited]
    rcases request_body limit items with e | b
    · exact ⟨fun h => (by cases h), fun h => (by cases h)⟩
    · exact ⟨fun h => congrArg Except.toOption h, fun h => congrArg Except.ok (Option.some.inj h)⟩
  refine ⟨fun body => (hrequest items body).trans limited_eq_some, fun before _ => length_accumulate limit before,
    fun body => ?_, ?_, ?_⟩
  · rw [response_body, response_body_from_eq_ok (Nat.zero_le _)]
    simp only [List.nil_append, exists_eq_right]
  · intro items' hwire
    refine ⟨?_, ?_⟩
    · rw [request_body_limited, request_body_limited, hwire]
    · rw [response_body, response_body, response_body_of_wire (Nat.zero_le _), response_body_of_wire (Nat.zero_le _),
        hwire]
  · intro chunks chunks' hflat
    by_cases hle : chunks.flatten.length ≤ limit
    · rw [(hrequest _ chunks.flatten).2 (limited_eq_some.2 ⟨⟨chunks, rfl, rfl⟩, hle⟩),
        (hrequest _ chunks.flatten).2 (limited_eq_some.2 ⟨⟨chunks', rfl, hflat⟩, hle⟩)]
    · rw [request_body_chunks (by rw [hflat]; omega), request_body_chunks (by omega)]

end BodyLimits

end RustyWorkers

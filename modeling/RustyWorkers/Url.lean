/-
The `URL` of the workers: the polyfill `jURL` (`librt/src/url.js`), which is what
`new URL` is in every script and in `Request`.

`parse` is a state machine over the code units of its input. An iteration looks at
the unit at the cursor, `undefined` behind the last one, and ends in one of four
ways: it falls out of the `switch` and the cursor moves on, it goes on with
`continue` and looks at the same place again, it breaks the loop, or it throws.
`continue` can also move the cursor back, to the beginning from a scheme that is
none and to the host from an authority. `parse` writes to the URL as it goes, and
what it has written when it throws stays written.

`toLowerCase` is a parameter (`LowerCase`), with what Unicode says about it. What
`parse` collects in `errors` is read by nothing and left out.
-/
import RustyWorkers.Lib.NumberText
import RustyWorkers.RespondWith

set_option autoImplicit false

namespace RustyWorkers

open Lib

namespace Url

open RespondWith (JsString js)

/-! ## Code units -/

/-- The code unit of a character of the source. -/
def unit (c : Char) : UInt16 := UInt16.ofNat c.toNat

/-- The code units of a string that the host hands over. -/
def code_units (s : String) : JsString :=
  s.toList.flatMap fun c =>
    if c.toNat < 0x10000 then [unit c]
    else [UInt16.ofNat (0xD800 + (c.toNat - 0x10000) / 0x400), UInt16.ofNat (0xDC00 + (c.toNat - 0x10000) % 0x400)]

/-- `ALPHA`. -/
def is_alpha (u : UInt16) : Bool :=
  (decide (unit 'a' ≤ u) && decide (u ≤ unit 'z')) || (decide (unit 'A' ≤ u) && decide (u ≤ unit 'Z'))

/-- `/[0-9]/`. -/
def is_digit (u : UInt16) : Bool := decide (unit '0' ≤ u) && decide (u ≤ unit '9')

/-- `ALPHANUMERIC`. -/
def is_alphanumeric (u : UInt16) : Bool :=
  is_alpha u || is_digit u || u = unit '+' || u = unit '-' || u = unit '.'

/-- The whitespace that the states skip. -/
def is_tab_or_newline (u : UInt16) : Bool := u = unit '\t' || u = unit '\n' || u = unit '\r'

/-- What the constructor trims. -/
def is_space (u : UInt16) : Bool := u = unit ' ' || is_tab_or_newline u || u = 0x0C

def is_slash (u : UInt16) : Bool := u = unit '/' || u = unit '\\'

/-- What ends an authority and a host, besides the end of the input. -/
def is_terminator (u : UInt16) : Bool := is_slash u || u = unit '?' || u = unit '#'

def ascii_lower (u : UInt16) : UInt16 := if unit 'A' ≤ u ∧ u ≤ unit 'Z' then u + 32 else u

def is_ascii (u : UInt16) : Bool := decide (u < 0x80)

/-- The ASCII units that are no letters: nothing becomes one of them, or is one and
becomes another. -/
def is_separator (u : UInt16) : Bool := is_ascii u && !is_alpha u

/-- `String.prototype.toLowerCase`. -/
structure LowerCase where
  to_lower_case : JsString → JsString
  ascii : ∀ s, (∀ u ∈ s, is_ascii u) → to_lower_case s = s.map ascii_lower
  idempotent : ∀ s, to_lower_case (to_lower_case s) = to_lower_case s
  nonempty : ∀ s, to_lower_case s = [] → s = []
  separators : ∀ s, (to_lower_case s).filter is_separator = s.filter is_separator

/-! ## Percent escapes -/

def hex_digit (n : ℕ) : UInt16 := unit (Nat.digitChar n).toUpper

/-- `%XX`. -/
def percent_byte (b : ℕ) : JsString := [unit '%', hex_digit (b / 16 % 16), hex_digit (b % 16)]

/-- `encodeURIComponent` of one code unit; half of a pair has no encoding, which is a
`URIError`. -/
def encode_uri_component (u : UInt16) : Option JsString :=
  let n := u.toNat
  if is_alpha u || is_digit u || u ∈ js "-_.!~*'()" then some [u]
  else if n < 0x80 then some (percent_byte n)
  else if n < 0x800 then some (percent_byte (0xC0 + n / 64) ++ percent_byte (0x80 + n % 64))
  else if RespondWith.is_lead u || RespondWith.is_trail u then none
  else some (percent_byte (0xE0 + n / 4096) ++ percent_byte (0x80 + n / 64 % 64) ++ percent_byte (0x80 + n % 64))

/-- `unicode > 0x20 && unicode < 0x7F && [..].indexOf(unicode) == -1`. -/
def is_plain (except : JsString) (u : UInt16) : Bool := decide (0x20 < u) && decide (u < 0x7F) && !(except.contains u)

def percent_escape_with (except : JsString) (u : UInt16) : Option JsString :=
  if is_plain except u then some [u] else encode_uri_component u

def path_except : JsString := js "\"#<>?`"

def query_except : JsString := js "\"#<>`"

def percent_escape (u : UInt16) : Option JsString := percent_escape_with path_except u

def percent_escape_query (u : UInt16) : Option JsString := percent_escape_with query_except u

/-! ## URLs -/

structure URL where
  scheme : JsString := []
  scheme_data : JsString := []
  username : JsString := []
  password : Option JsString := none
  host : JsString := []
  port : JsString := []
  path : List JsString := []
  query : JsString := []
  fragment : JsString := []
  is_invalid : Bool := false
  is_relative : Bool := false
deriving DecidableEq

/-- `clear`. -/
def clear : URL := {}

/-- `invalid`. -/
def invalid : URL := { clear with is_invalid := true }

/-- `relative`: the schemes of relative URLs, with their ports. -/
def relative (scheme : JsString) : Option ℕ :=
  if scheme = js "ftp" then some 21
  else if scheme = js "file" then some 0
  else if scheme = js "gopher" then some 70
  else if scheme = js "http" then some 80
  else if scheme = js "https" then some 443
  else if scheme = js "ws" then some 80
  else if scheme = js "wss" then some 443
  else none

def is_relative_scheme (scheme : JsString) : Bool := (relative scheme).isSome

def relative_path_dot_mapping (buffer : JsString) : Option JsString :=
  if buffer = js "%2e" then some (js ".")
  else if buffer = js ".%2e" then some (js "..")
  else if buffer = js "%2e." then some (js "..")
  else if buffer = js "%2e%2e" then some (js "..")
  else none

/-- `parseInt(buffer, 10)`, of digits. -/
def parse_int (buffer : JsString) : ℕ := Nat.ofDigitChars 10 (buffer.map fun u => Char.ofNat u.toNat) 0

/-- `temp + ''`, and `temp` is the double nearest to the digits. -/
@[irreducible] def port_text (temp : ℕ) : JsString := (NumberText.number_text temp).map unit

/-! ## The parser -/

inductive State where
  | scheme_start
  | scheme
  | scheme_data
  | no_scheme
  | relative_or_authority
  | relative
  | relative_slash
  | authority_first_slash
  | authority_second_slash
  | authority_ignore_slashes
  | authority
  | file_host
  | host
  | hostname
  | port
  | relative_path_start
  | relative_path
  | query
  | fragment
deriving DecidableEq

inductive JsError where
  /-- `encodeURIComponent` of half of a pair. -/
  | uri_error
  /-- A property of `undefined`, where a base is needed. -/
  | type_error
deriving DecidableEq

/-- The URL and the local variables of `parse`. -/
structure Parser where
  url : URL
  state : State
  cursor : ℕ := 0
  buffer : JsString := []
  seen_at : Bool := false
  seen_bracket : Bool := false
deriving DecidableEq

/-- How an iteration ends. -/
inductive Next where
  /-- Out of the `switch`: the cursor moves on. -/
  | advance (p : Parser)
  /-- `continue`. -/
  | again (p : Parser)
  /-- `break loop`. -/
  | stop (u : URL)
  | throw (e : JsError) (u : URL)

/-! ## The states -/

/-- What a relative reference takes from its base. -/
def URL.with_authority (u base : URL) : URL :=
  { u with host := base.host, port := base.port, username := base.username, password := base.password }

/-- `IDNAToASCII` and the assignment of the host. -/
def set_host (J : LowerCase) (u : URL) (h : JsString) : URL :=
  { (if h = [] then invalid else u) with host := J.to_lower_case h }

def scheme_start (J : LowerCase) (state_override : Option State) (p : Parser) (c : Option UInt16) : Next :=
  match c.filter is_alpha with
  | some u => .advance { p with buffer := p.buffer ++ J.to_lower_case [u], state := .scheme }
  | none =>
    if state_override = none then .again { p with buffer := [], state := .no_scheme }
    else .stop p.url

def scheme (J : LowerCase) (state_override : Option State) (base : Option URL) (p : Parser) (c : Option UInt16) : Next :=
  match c.filter is_alphanumeric with
  | some u => .advance { p with buffer := p.buffer ++ J.to_lower_case [u] }
  | none =>
    if c = some (unit ':') then
      let url := { p.url with scheme := p.buffer }
      if state_override.isSome then .stop url
      else
        let url := if is_relative_scheme url.scheme then { url with is_relative := true } else url
        let state :=
          if url.scheme = js "file" then State.relative
          else if url.is_relative ∧ base.any (fun b => b.scheme = url.scheme) then .relative_or_authority
          else if url.is_relative then .authority_first_slash
          else .scheme_data
        .advance { p with url := url, buffer := [], state := state }
    else if state_override = none then .again { p with buffer := [], cursor := 0, state := .no_scheme }
    else .stop p.url

def scheme_data (p : Parser) (c : Option UInt16) : Next :=
  if c = some (unit '?') then .advance { p with url := { p.url with query := js "?" }, state := .query }
  else if c = some (unit '#') then .advance { p with url := { p.url with fragment := js "#" }, state := .fragment }
  else
    match c.filter fun u => !is_tab_or_newline u with
    | none => .advance p
    | some u =>
      match percent_escape u with
      | none => .throw .uri_error p.url
      | some e => .advance { p with url := { p.url with scheme_data := p.url.scheme_data ++ e } }

def no_scheme (base : Option URL) (p : Parser) : Next :=
  if base.any fun b => is_relative_scheme b.scheme then .again { p with state := .relative }
  else .advance { p with url := invalid }

def relative_or_authority (input : JsString) (p : Parser) (c : Option UInt16) : Next :=
  if c = some (unit '/') ∧ input[p.cursor + 1]? = some (unit '/') then
    .advance { p with state := .authority_ignore_slashes }
  else .again { p with state := .relative }

/-- The test for a drive letter that `file:` may begin with. -/
def starts_with_drive (input : JsString) (p : Parser) (u : UInt16) : Bool :=
  let nextC := input[p.cursor + 1]?
  let nextNextC := input[p.cursor + 2]?
  is_alpha u && (nextC = some (unit ':') || nextC = some (unit '|')) && nextNextC.all is_terminator

/-- A reference with nothing before `?`, `#` or the end. -/
def URL.with_document (u base : URL) : URL := { u.with_authority base with path := base.path, query := base.query }

def relative_state (input : JsString) (base : Option URL) (p : Parser) (c : Option UInt16) : Next :=
  let url := { p.url with is_relative := true }
  match (if url.scheme = js "file" then some url else base.map fun b => { url with scheme := b.scheme }) with
  | none => .throw .type_error url
  | some url =>
    match c with
    | none =>
      match base with
      | none => .throw .type_error url
      | some b => .stop (url.with_document b)
    | some u =>
      if is_slash u then .advance { p with url := url, state := .relative_slash }
      else if u = unit '?' then
        match base with
        | none => .throw .type_error url
        | some b => .advance { p with url := { url.with_document b with query := js "?" }, state := .query }
      else if u = unit '#' then
        match base with
        | none => .throw .type_error url
        | some b => .advance { p with url := { url.with_document b with fragment := js "#" }, state := .fragment }
      else if url.scheme ≠ js "file" ∨ !starts_with_drive input p u then
        match base with
        | none => .throw .type_error url
        | some b =>
          .again { p with url := { url.with_authority b with path := b.path.dropLast }, state := .relative_path }
      else .again { p with url := url, state := .relative_path }

def relative_slash (base : Option URL) (p : Parser) (c : Option UInt16) : Next :=
  if c.any is_slash then
    if p.url.scheme = js "file" then .advance { p with state := .file_host }
    else .advance { p with state := .authority_ignore_slashes }
  else if p.url.scheme = js "file" then .again { p with state := .relative_path }
  else
    match base with
    | none => .throw .type_error p.url
    | some b => .again { p with url := p.url.with_authority b, state := .relative_path }

def authority_first_slash (p : Parser) (c : Option UInt16) : Next :=
  if c = some (unit '/') then .advance { p with state := .authority_second_slash }
  else .again { p with state := .authority_ignore_slashes }

def authority_second_slash (p : Parser) (c : Option UInt16) : Next :=
  if c = some (unit '/') then .advance { p with state := .authority_ignore_slashes }
  else .again { p with state := .authority_ignore_slashes }

def authority_ignore_slashes (p : Parser) (c : Option UInt16) : Next :=
  if c.any is_slash then .advance p
  else .again { p with state := .authority }

/-- The loop over the buffer: whether it ended, and what it wrote. -/
def set_credentials : JsString → URL → Bool × URL
  | [], u => (true, u)
  | cp :: rest, u =>
    if is_tab_or_newline cp then set_credentials rest u
    else if cp = unit ':' ∧ u.password = none then set_credentials rest { u with password := some [] }
    else
      match percent_escape cp with
      | none => (false, u)
      | some tempC =>
        match u.password with
        | some password => set_credentials rest { u with password := some (password ++ tempC) }
        | none => set_credentials rest { u with username := u.username ++ tempC }

def authority (p : Parser) (c : Option UInt16) : Next :=
  if c = some (unit '@') then
    let buffer := if p.seen_at then p.buffer ++ js "%40" else p.buffer
    match set_credentials buffer p.url with
    | (true, url) => .advance { p with url := url, seen_at := true, buffer := [] }
    | (false, url) => .throw .uri_error url
  else
    match c.filter fun u => !is_terminator u with
    | some u => .advance { p with buffer := p.buffer ++ [u] }
    -- back to the first unit behind the last `@`
    | none => .again { p with cursor := p.cursor - p.buffer.length, buffer := [], state := .host }

/-- A drive letter in the place of the host. -/
def is_drive (buffer : JsString) : Bool :=
  match buffer with
  | [u, v] => is_alpha u && (v = unit ':' || v = unit '|')
  | _ => false

def file_host (J : LowerCase) (p : Parser) (c : Option UInt16) : Next :=
  match c.filter fun u => !is_terminator u with
  | some u => .advance (if is_tab_or_newline u then p else { p with buffer := p.buffer ++ [u] })
  | none =>
    -- the letter stays in the buffer and becomes the first segment of the path
    if is_drive p.buffer then .again { p with state := .relative_path }
    else if p.buffer = [] then .again { p with state := .relative_path_start }
    else .again { p with url := set_host J p.url p.buffer, buffer := [], state := .relative_path_start }

def host (J : LowerCase) (state_override : Option State) (p : Parser) (c : Option UInt16) : Next :=
  if c = some (unit ':') ∧ !p.seen_bracket then
    let url := set_host J p.url p.buffer
    if state_override = some .hostname then .stop url
    else .advance { p with url := url, buffer := [], state := .port }
  else
    match c.filter fun u => !is_terminator u with
    | none =>
      let url := set_host J p.url p.buffer
      if state_override.isSome then .stop url
      else .again { p with url := url, buffer := [], state := .relative_path_start }
    | some u =>
      if is_tab_or_newline u then .advance p
      else
        .advance { p with
          seen_bracket := if u = unit '[' then true else if u = unit ']' then false else p.seen_bracket
          buffer := p.buffer ++ [u] }

/-- What the port becomes: it stays as it was if it is the one of the scheme. -/
def URL.with_port (u : URL) (buffer : JsString) : URL :=
  if buffer = [] ∨ relative u.scheme = some (NumberText.nearest (parse_int buffer)) then u
  else { u with port := port_text (parse_int buffer) }

def port (state_override : Option State) (p : Parser) (c : Option UInt16) : Next :=
  match c.filter is_digit with
  | some u => .advance { p with buffer := p.buffer ++ [u] }
  | none =>
    if c.all is_terminator ∨ state_override.isSome then
      let url := p.url.with_port p.buffer
      if state_override.isSome then .stop url
      else .again { p with url := url, buffer := [], state := .relative_path_start }
    else if c.any is_tab_or_newline then .advance p
    else .advance { p with url := invalid }

def relative_path_start (p : Parser) (c : Option UInt16) : Next :=
  if c.any is_slash then .advance { p with state := .relative_path }
  else .again { p with state := .relative_path }

/-- A segment at its end, `more` if a slash ends it. -/
def URL.push_segment (J : LowerCase) (u : URL) (buffer : JsString) (more : Bool) : URL :=
  let buffer := (relative_path_dot_mapping (J.to_lower_case buffer)).getD buffer
  if buffer = js ".." then
    { u with path := if more then u.path.dropLast else u.path.dropLast ++ [[]] }
  else if buffer = js "." then
    { u with path := if more then u.path else u.path ++ [[]] }
  else
    match buffer with
    | [letter, v] =>
      if u.scheme = js "file" ∧ u.path = [] ∧ is_alpha letter ∧ v = unit '|' then
        { u with path := [[letter, unit ':']] }
      else { u with path := u.path ++ [buffer] }
    | _ => { u with path := u.path ++ [buffer] }

def relative_path (J : LowerCase) (state_override : Option State) (p : Parser) (c : Option UInt16) : Next :=
  -- with an override `?` and `#` belong to the path
  match c.filter fun u => !(is_slash u || (state_override.isNone && is_terminator u)) with
  | none =>
    let url := p.url.push_segment J p.buffer (c.any is_slash)
    if c = some (unit '?') then .advance { p with url := { url with query := js "?" }, buffer := [], state := .query }
    else if c = some (unit '#') then
      .advance { p with url := { url with fragment := js "#" }, buffer := [], state := .fragment }
    else .advance { p with url := url, buffer := [] }
  | some u =>
    if is_tab_or_newline u then .advance p
    else
      match percent_escape u with
      | none => .throw .uri_error p.url
      | some e => .advance { p with buffer := p.buffer ++ e }

def query (state_override : Option State) (p : Parser) (c : Option UInt16) : Next :=
  if state_override = none ∧ c = some (unit '#') then
    .advance { p with url := { p.url with fragment := js "#" }, state := .fragment }
  else
    match c.filter fun u => !is_tab_or_newline u with
    | none => .advance p
    | some u =>
      match percent_escape_query u with
      | none => .throw .uri_error p.url
      | some e => .advance { p with url := { p.url with query := p.url.query ++ e } }

def fragment (p : Parser) (c : Option UInt16) : Next :=
  match c.filter fun u => !is_tab_or_newline u with
  | none => .advance p
  | some u => .advance { p with url := { p.url with fragment := p.url.fragment ++ [u] } }

/-! ## The loop -/

/-- The arguments of a call of `parse`. -/
structure Call where
  input : JsString
  state_override : Option State := none
  base : Option URL := none

def step (J : LowerCase) (k : Call) (p : Parser) : Next :=
  let c := k.input[p.cursor]?
  match p.state with
  | .scheme_start => scheme_start J k.state_override p c
  | .scheme => scheme J k.state_override k.base p c
  | .scheme_data => scheme_data p c
  | .no_scheme => no_scheme k.base p
  | .relative_or_authority => relative_or_authority k.input p c
  | .relative => relative_state k.input k.base p c
  | .relative_slash => relative_slash k.base p c
  | .authority_first_slash => authority_first_slash p c
  | .authority_second_slash => authority_second_slash p c
  | .authority_ignore_slashes => authority_ignore_slashes p c
  | .authority => authority p c
  | .file_host => file_host J p c
  | .host => host J k.state_override p c
  | .hostname => host J k.state_override p c
  | .port => port k.state_override p c
  | .relative_path_start => relative_path_start p c
  | .relative_path => relative_path J k.state_override p c
  | .query => query k.state_override p c
  | .fragment => fragment p c

/-- What is left of the URL when `parse` returns or throws. -/
structure Outcome where
  url : URL
  thrown : Option JsError := none
deriving DecidableEq

/-- The condition of the loop. -/
def goes_on (k : Call) (p : Parser) : Bool := decide (p.cursor ≤ k.input.length) && !p.url.is_invalid

theorem goes_on_iff {k : Call} {p : Parser} :
    goes_on k p ↔ p.cursor ≤ k.input.length ∧ p.url.is_invalid = false := by
  simp [goes_on]

/-- The loop, for as many iterations as there is fuel. -/
def loop (J : LowerCase) (k : Call) : ℕ → Parser → Option Outcome
  | 0, _ => none
  | fuel + 1, p =>
    if goes_on k p then
      match step J k p with
      | .advance q => loop J k fuel { q with cursor := q.cursor + 1 }
      | .again q => loop J k fuel q
      | .stop u => some ⟨u, none⟩
      | .throw e u => some ⟨u, some e⟩
    else some ⟨p.url, none⟩

/-! ## The loop ends

Nothing but the two jumps takes the cursor back, and a `continue` always goes to a
state of a lower rank. -/

def rank : State → ℕ
  | .scheme_start => 14
  | .scheme => 13
  | .no_scheme => 12
  | .relative_or_authority => 11
  | .relative => 10
  | .relative_slash => 9
  | .authority_first_slash => 8
  | .authority_second_slash => 7
  | .authority_ignore_slashes => 6
  | .authority => 5
  | .host => 4
  | .hostname => 4
  | .file_host => 3
  | .port => 3
  | .relative_path_start => 2
  | .relative_path => 1
  | .scheme_data => 1
  | .query => 0
  | .fragment => 0

def measure (k : Call) (p : Parser) : ℕ := rank p.state * (k.input.length + 2) + (k.input.length + 1 - p.cursor)

/-- What an iteration does to the rank and to the cursor. -/
def Next.Decreases (p : Parser) : Next → Prop
  | .advance q => rank q.state ≤ rank p.state ∧ q.cursor = p.cursor
  | .again q => rank q.state < rank p.state
  | .stop _ => True
  | .throw _ _ => True

@[simp] theorem decreases_advance (p q : Parser) :
    (Next.advance q).Decreases p ↔ rank q.state ≤ rank p.state ∧ q.cursor = p.cursor := Iff.rfl

@[simp] theorem decreases_again (p q : Parser) : (Next.again q).Decreases p ↔ rank q.state < rank p.state := Iff.rfl

@[simp] theorem decreases_stop (p : Parser) (u : URL) : (Next.stop u).Decreases p ↔ True := Iff.rfl

@[simp] theorem decreases_throw (p : Parser) (e : JsError) (u : URL) : (Next.throw e u).Decreases p ↔ True := Iff.rfl

theorem step_decreases (J : LowerCase) (k : Call) (p : Parser) : (step J k p).Decreases p := by
  cases hs : p.state <;>
    simp only [step, hs, scheme_start, scheme, scheme_data, no_scheme, relative_or_authority, relative_state,
      relative_slash, authority_first_slash, authority_second_slash, authority_ignore_slashes, authority, file_host,
      host, port, relative_path_start, relative_path, query, fragment] <;>
    repeat' split
  all_goals simp [rank, hs]

/-- The parser after an iteration that fell out of the `switch`. -/
def Parser.moved (p : Parser) : Parser := { p with cursor := p.cursor + 1 }

@[simp] theorem moved_url (p : Parser) : p.moved.url = p.url := rfl

@[simp] theorem moved_state (p : Parser) : p.moved.state = p.state := rfl

@[simp] theorem moved_cursor (p : Parser) : p.moved.cursor = p.cursor + 1 := rfl

@[simp] theorem moved_buffer (p : Parser) : p.moved.buffer = p.buffer := rfl

@[simp] theorem moved_seen_at (p : Parser) : p.moved.seen_at = p.seen_at := rfl

@[simp] theorem moved_seen_bracket (p : Parser) : p.moved.seen_bracket = p.seen_bracket := rfl

theorem measure_moved {J : LowerCase} {k : Call} {p q : Parser} (hgo : goes_on k p) (h : step J k p = .advance q) :
    measure k q.moved < measure k p := by
  have hdec := step_decreases J k p
  rw [h, decreases_advance] at hdec
  have hcursor := (goes_on_iff.1 hgo).1
  have hrank : rank q.state * (k.input.length + 2) ≤ rank p.state * (k.input.length + 2) :=
    Nat.mul_le_mul_right _ hdec.1
  simp only [measure, Parser.moved, hdec.2]
  omega

theorem measure_again {J : LowerCase} {k : Call} {p q : Parser} (h : step J k p = .again q) :
    measure k q < measure k p := by
  have hdec := step_decreases J k p
  rw [h, decreases_again] at hdec
  have hrank : (rank q.state + 1) * (k.input.length + 2) ≤ rank p.state * (k.input.length + 2) :=
    Nat.mul_le_mul_right _ hdec
  rw [Nat.succ_mul] at hrank
  simp only [measure]
  omega

/-! ### One iteration -/

section Iteration

variable {J : LowerCase} {k : Call} {p q : Parser} {fuel : ℕ}

theorem loop_succ (J : LowerCase) (k : Call) (fuel : ℕ) (p : Parser) : loop J k (fuel + 1) p =
    if goes_on k p then
      match step J k p with
      | .advance q => loop J k fuel q.moved
      | .again q => loop J k fuel q
      | .stop u => some ⟨u, none⟩
      | .throw e u => some ⟨u, some e⟩
    else some ⟨p.url, none⟩ := rfl

theorem loop_end (h : ¬ goes_on k p) : loop J k (fuel + 1) p = some ⟨p.url, none⟩ := by
  rw [loop_succ, if_neg h]

theorem loop_advance (hgo : goes_on k p) (h : step J k p = .advance q) :
    loop J k (fuel + 1) p = loop J k fuel q.moved := by
  rw [loop_succ, if_pos hgo, h]

theorem loop_again (hgo : goes_on k p) (h : step J k p = .again q) : loop J k (fuel + 1) p = loop J k fuel q := by
  rw [loop_succ, if_pos hgo, h]

theorem loop_stop {u : URL} (hgo : goes_on k p) (h : step J k p = .stop u) :
    loop J k (fuel + 1) p = some ⟨u, none⟩ := by
  rw [loop_succ, if_pos hgo, h]

theorem loop_throw {e : JsError} {u : URL} (hgo : goes_on k p) (h : step J k p = .throw e u) :
    loop J k (fuel + 1) p = some ⟨u, some e⟩ := by
  rw [loop_succ, if_pos hgo, h]

end Iteration

/-- The loop ends, and more fuel changes nothing. -/
theorem loop_ends (J : LowerCase) (k : Call) (p : Parser) :
    ∃ o, ∀ fuel, measure k p < fuel → loop J k fuel p = some o := by
  induction hm : measure k p using Nat.strong_induction_on generalizing p with
  | h m ih =>
      subst hm
      by_cases hgo : goes_on k p
      swap
      · refine ⟨⟨p.url, none⟩, fun fuel hfuel => ?_⟩
        obtain ⟨n, rfl⟩ : ∃ n, fuel = n + 1 := ⟨fuel - 1, by omega⟩
        exact loop_end hgo
      cases hstep : step J k p with
      | advance q =>
          have hlt := measure_moved hgo hstep
          obtain ⟨o, ho⟩ := ih _ hlt q.moved rfl
          refine ⟨o, fun fuel hfuel => ?_⟩
          obtain ⟨n, rfl⟩ : ∃ n, fuel = n + 1 := ⟨fuel - 1, by omega⟩
          rw [loop_advance hgo hstep]
          exact ho n (by omega)
      | again q =>
          have hlt := measure_again hstep
          obtain ⟨o, ho⟩ := ih _ hlt q rfl
          refine ⟨o, fun fuel hfuel => ?_⟩
          obtain ⟨n, rfl⟩ : ∃ n, fuel = n + 1 := ⟨fuel - 1, by omega⟩
          rw [loop_again hgo hstep]
          exact ho n (by omega)
      | stop u =>
          refine ⟨⟨u, none⟩, fun fuel hfuel => ?_⟩
          obtain ⟨n, rfl⟩ : ∃ n, fuel = n + 1 := ⟨fuel - 1, by omega⟩
          exact loop_stop hgo hstep
      | throw e u =>
          refine ⟨⟨u, some e⟩, fun fuel hfuel => ?_⟩
          obtain ⟨n, rfl⟩ : ∃ n, fuel = n + 1 := ⟨fuel - 1, by omega⟩
          exact loop_throw hgo hstep

/-- The loop from `p` to its end. -/
def run (J : LowerCase) (k : Call) (p : Parser) : Outcome := (loop J k (measure k p + 1) p).getD ⟨p.url, none⟩

theorem loop_eq_run {J : LowerCase} {k : Call} {p : Parser} {fuel : ℕ} (h : measure k p < fuel) :
    loop J k fuel p = some (run J k p) := by
  obtain ⟨o, ho⟩ := loop_ends J k p
  rw [run, ho fuel h, ho _ (Nat.lt_succ_self _), Option.getD_some]

theorem run_end {J : LowerCase} {k : Call} {p : Parser} (h : ¬ goes_on k p) : run J k p = ⟨p.url, none⟩ := by
  rw [run, loop_end h, Option.getD_some]

theorem run_advance {J : LowerCase} {k : Call} {p q : Parser} (hgo : goes_on k p) (h : step J k p = .advance q) :
    run J k p = run J k q.moved := by
  rw [run, loop_advance hgo h, loop_eq_run (measure_moved hgo h), Option.getD_some]

theorem run_again {J : LowerCase} {k : Call} {p q : Parser} (hgo : goes_on k p) (h : step J k p = .again q) :
    run J k p = run J k q := by
  rw [run, loop_again hgo h, loop_eq_run (measure_again h), Option.getD_some]

theorem run_stop {J : LowerCase} {k : Call} {p : Parser} {u : URL} (hgo : goes_on k p) (h : step J k p = .stop u) :
    run J k p = ⟨u, none⟩ := by
  rw [run, loop_stop hgo h, Option.getD_some]

theorem run_throw {J : LowerCase} {k : Call} {p : Parser} {e : JsError} {u : URL} (hgo : goes_on k p)
    (h : step J k p = .throw e u) : run J k p = ⟨u, some e⟩ := by
  rw [run, loop_throw hgo h, Option.getD_some]

/-- `I` holds where an iteration leads, and `Q` where it ends the loop. -/
def Next.Keeps (I : Parser → Prop) (Q : Outcome → Prop) : Next → Prop
  | .advance q => I q.moved
  | .again q => I q
  | .stop u => Q ⟨u, none⟩
  | .throw e u => Q ⟨u, some e⟩

theorem keeps_advance {I : Parser → Prop} {Q : Outcome → Prop} {p : Parser} :
    (Next.advance p).Keeps I Q ↔ I p.moved := Iff.rfl

theorem keeps_again {I : Parser → Prop} {Q : Outcome → Prop} {p : Parser} : (Next.again p).Keeps I Q ↔ I p := Iff.rfl

theorem keeps_stop {I : Parser → Prop} {Q : Outcome → Prop} {u : URL} : (Next.stop u).Keeps I Q ↔ Q ⟨u, none⟩ := Iff.rfl

/-- The invariant rule of the loop. -/
theorem run_rule {J : LowerCase} {k : Call} {I : Parser → Prop} {Q : Outcome → Prop}
    (hend : ∀ p, I p → ¬ goes_on k p → Q ⟨p.url, none⟩)
    (hstep : ∀ p, I p → goes_on k p → (step J k p).Keeps I Q) {p : Parser} (h : I p) : Q (run J k p) := by
  induction hm : measure k p using Nat.strong_induction_on generalizing p with
  | h m ih =>
      subst hm
      by_cases hgo : goes_on k p
      swap
      · rw [run_end hgo]
        exact hend p h hgo
      have hkeep := hstep p h hgo
      cases hs : step J k p with
      | advance q =>
          rw [hs] at hkeep
          rw [run_advance hgo hs]
          exact ih _ (measure_moved hgo hs) hkeep rfl
      | again q =>
          rw [hs] at hkeep
          rw [run_again hgo hs]
          exact ih _ (measure_again hs) hkeep rfl
      | stop u =>
          rw [hs] at hkeep
          rw [run_stop hgo hs]
          exact hkeep
      | throw e u =>
          rw [hs] at hkeep
          rw [run_throw hgo hs]
          exact hkeep

/-! ## The objects of the class -/

/-- A call of `parse` on an object with the fields `u`. -/
def parse (J : LowerCase) (k : Call) (u : URL) : Outcome :=
  run J k { url := u, state := k.state_override.getD .scheme_start }

theorem rank_le (s : State) : rank s ≤ 14 := by cases s <;> decide

/-- **`parse` ends**, whatever the input, the base and the state that it starts from:
it takes no more than fifteen iterations for each unit of the input and for both of
its ends. -/
theorem parse_ends (J : LowerCase) (k : Call) (u : URL) (extra : ℕ) :
    loop J k (15 * (k.input.length + 2) + extra) { url := u, state := k.state_override.getD .scheme_start }
      = some (parse J k u) := by
  apply loop_eq_run
  have hrank := Nat.mul_le_mul_right (k.input.length + 2) (rank_le (k.state_override.getD .scheme_start))
  simp only [measure]
  omega

/-- `_url`, and the fields that `parse` writes. -/
structure JUrl where
  text : JsString
  url : URL
deriving DecidableEq

/-- The spaces at both ends. -/
def trim (s : JsString) : JsString := ((s.dropWhile is_space).reverse.dropWhile is_space).reverse

/-- `new jURL(url, base)`, for a base that is an object of the class. -/
def new_url (J : LowerCase) (url : JsString) (base : Option URL) : Except JsError JUrl :=
  match parse J { input := trim url, base := base } clear with
  | ⟨u, none⟩ => .ok ⟨url, u⟩
  | ⟨_, some e⟩ => .error e

/-- `new jURL(url, base)`, for a base that is a string. -/
def new_url_of_text (J : LowerCase) (url base : JsString) : Except JsError JUrl := do
  let b ← new_url J base none
  new_url J url (some b.url)

def URL.protocol (u : URL) : JsString := u.scheme ++ js ":"

def URL.get_host (u : URL) : JsString :=
  if u.is_invalid then [] else if u.port ≠ [] then u.host ++ js ":" ++ u.port else u.host

def URL.hostname (u : URL) : JsString := u.host

def URL.pathname (u : URL) : JsString :=
  if u.is_invalid then []
  else if u.is_relative then js "/" ++ (js "/").intercalate u.path
  else u.scheme_data

def URL.search (u : URL) : JsString := if u.is_invalid ∨ u.query = [] ∨ u.query = js "?" then [] else u.query

def URL.hash (u : URL) : JsString := if u.is_invalid ∨ u.fragment = [] ∨ u.fragment = js "#" then [] else u.fragment

/-- What stands before the host in `href`. -/
def URL.userinfo (u : URL) : JsString :=
  if u.username ≠ [] ∨ u.password ≠ none then
    u.username ++ (match u.password with | some password => js ":" ++ password | none => []) ++ js "@"
  else []

def JUrl.href (o : JUrl) : JsString :=
  if o.url.is_invalid then o.text
  else
    o.url.protocol ++ (if o.url.is_relative then js "//" ++ o.url.userinfo ++ o.url.get_host else []) ++
      o.url.pathname ++ o.url.query ++ o.url.fragment

def URL.origin (u : URL) : JsString :=
  if u.is_invalid ∨ u.scheme = [] then []
  else if u.scheme = js "data" ∨ u.scheme = js "file" ∨ u.scheme = js "javascript" ∨ u.scheme = js "mailto" then
    js "null"
  else if u.get_host = [] then []
  else u.scheme ++ js "://" ++ u.get_host

/-- The properties that can be assigned. -/
inductive Property where
  | href
  | protocol
  | host
  | hostname
  | port
  | pathname
  | search
  | hash
deriving DecidableEq

/-- The URL after an assignment, and what the setter throws. -/
def URL.set (J : LowerCase) (u : URL) (property : Property) (value : JsString) : Outcome :=
  match property with
  | .href => parse J { input := value } clear
  | .protocol =>
    if u.is_invalid then ⟨u, none⟩
    else parse J { input := value ++ js ":", state_override := some .scheme_start } u
  | .host =>
    if u.is_invalid ∨ !u.is_relative then ⟨u, none⟩
    else parse J { input := value, state_override := some .host } u
  | .hostname =>
    if u.is_invalid ∨ !u.is_relative then ⟨u, none⟩
    else parse J { input := value, state_override := some .hostname } u
  | .port =>
    if u.is_invalid ∨ !u.is_relative then ⟨u, none⟩
    else parse J { input := value, state_override := some .port } u
  | .pathname =>
    if u.is_invalid ∨ !u.is_relative then ⟨u, none⟩
    else parse J { input := value, state_override := some .relative_path_start } { u with path := [] }
  | .search =>
    if u.is_invalid ∨ !u.is_relative then ⟨u, none⟩
    else
      let value := if value.head? = some (unit '?') then value.tail else value
      parse J { input := value, state_override := some .query } { u with query := js "?" }
  | .hash =>
    if u.is_invalid then ⟨u, none⟩
    else if value = [] then ⟨{ u with fragment := [] }, none⟩
    else
      let value := if value.head? = some (unit '#') then value.tail else value
      parse J { input := value, state_override := some .fragment } { u with fragment := js "#" }

/-- An assignment to a property of an object; what `parse` wrote before it threw stays. -/
def JUrl.set (J : LowerCase) (o : JUrl) (property : Property) (value : JsString) : JUrl × Option JsError :=
  let out := o.url.set J property value
  ({ o with url := out.url }, out.thrown)

/-! ## Units by their numbers -/

theorem is_alpha_iff {u : UInt16} :
    is_alpha u ↔ (97 ≤ u.toNat ∧ u.toNat ≤ 122) ∨ (65 ≤ u.toNat ∧ u.toNat ≤ 90) := by
  have ha : (unit 'a').toNat = 97 := by decide
  have hz : (unit 'z').toNat = 122 := by decide
  have hA : (unit 'A').toNat = 65 := by decide
  have hZ : (unit 'Z').toNat = 90 := by decide
  simp only [is_alpha, Bool.or_eq_true, Bool.and_eq_true, decide_eq_true_eq, UInt16.le_iff_toNat_le, ha, hz, hA, hZ]

theorem is_digit_iff {u : UInt16} : is_digit u ↔ 48 ≤ u.toNat ∧ u.toNat ≤ 57 := by
  have h0 : (unit '0').toNat = 48 := by decide
  have h9 : (unit '9').toNat = 57 := by decide
  simp only [is_digit, Bool.and_eq_true, decide_eq_true_eq, UInt16.le_iff_toNat_le, h0, h9]

theorem is_ascii_iff {u : UInt16} : is_ascii u ↔ u.toNat < 128 := by
  have h : (0x80 : UInt16).toNat = 128 := by decide
  rw [is_ascii, decide_eq_true_eq, UInt16.lt_iff_toNat_lt, h]

theorem is_separator_iff {u : UInt16} : is_separator u ↔ u.toNat < 128 ∧ ¬ is_alpha u := by
  rw [is_separator, Bool.and_eq_true, is_ascii_iff]
  simp

theorem toNat_ascii_lower (u : UInt16) :
    (ascii_lower u).toNat = if 65 ≤ u.toNat ∧ u.toNat ≤ 90 then u.toNat + 32 else u.toNat := by
  have hA : (unit 'A').toNat = 65 := by decide
  have hZ : (unit 'Z').toNat = 90 := by decide
  have h32 : (32 : UInt16).toNat = 32 := by decide
  rw [ascii_lower]
  simp only [UInt16.le_iff_toNat_le, hA, hZ]
  split
  · rw [UInt16.toNat_add, h32]
    omega
  · rfl

theorem ascii_lower_ascii_lower (u : UInt16) : ascii_lower (ascii_lower u) = ascii_lower u := by
  apply UInt16.toNat_inj.1
  rw [toNat_ascii_lower (ascii_lower u)]
  have h := toNat_ascii_lower u
  split at h <;> split <;> omega

theorem ascii_lower_of_separator {u : UInt16} (h : is_separator u) : ascii_lower u = u := by
  rw [is_separator_iff, is_alpha_iff] at h
  apply UInt16.toNat_inj.1
  rw [toNat_ascii_lower, if_neg (by omega)]

theorem is_separator_ascii_lower (u : UInt16) : is_separator (ascii_lower u) = is_separator u := by
  rw [Bool.eq_iff_iff]
  rw [is_separator_iff, is_separator_iff, is_alpha_iff, is_alpha_iff, toNat_ascii_lower]
  split <;> omega

/-- The code units of ASCII are its characters. -/
theorem code_units_ascii {s : String} (h : ∀ c ∈ s.toList, c.toNat < 128) : code_units s = s.toList.map unit := by
  rw [code_units, List.map_eq_flatMap]
  apply List.flatMap_congr
  intro c hc
  rw [if_pos (by have := h c hc; omega)]

theorem code_units_append (s t : String) : code_units (s ++ t) = code_units s ++ code_units t := by
  rw [code_units, String.toList_append, List.flatMap_append]
  rfl

/-- `toLowerCase`, of texts of ASCII. -/
def ascii_case : LowerCase where
  to_lower_case s := s.map ascii_lower
  ascii _ _ := rfl
  idempotent s := by
    rw [List.map_map]
    exact List.map_congr_left fun u _ => ascii_lower_ascii_lower u
  nonempty s h := List.map_eq_nil_iff.1 h
  separators s := by
    induction s with
    | nil => rfl
    | cons u s ih =>
        rw [List.map_cons, List.filter_cons, List.filter_cons, is_separator_ascii_lower, ih]
        split
        · rename_i hu
          rw [ascii_lower_of_separator hu]
        · rfl

/-- Every part is made canonical. -/
example : (new_url ascii_case (js " HTTP://u@Ex.com:080/a/%2E./b|\\ ?x y#z") none).map JUrl.href
    = .ok (js "http://u@ex.com/b|/%20?x%20y#z") := by
  decide +kernel

/-- Without a base, `file:` has nowhere to take a host from. -/
example : new_url ascii_case (js "file:x") none = .error .type_error := by decide +kernel

end Url

end RustyWorkers

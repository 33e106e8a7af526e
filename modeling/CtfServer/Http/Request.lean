import CtfServer.Lib.Decimal

/-!
# The HTTP request parser

`parse_chunk` and its helpers (http_request.c).  The receive buffer `buf` is the list of the
bytes received so far, so `s->buf_len` is its length; a `char *` into the buffer is an offset.

* `parseMethod`, `parseVersion`, `parseHeader`, `httpRequestGetHeader`   the helpers;
* `parseByte`     the `switch` of the loop of `parse_chunk`, at the byte of index `i`;
* `parseStep`     one turn of the loop: header limit, `switch`, the test for the end of the header;
* `parseLoop`     the loop, `parseChunk` the function;
* `feedChunks`    the receive loop of `parse_http_request`.
-/

set_option linter.unusedVariables false
set_option linter.unusedSimpArgs false

namespace Http

def MAX_HEADERS : Nat := 32
def MAX_HEADER_BYTES : Nat := 4096
def MAX_REQUEST_BYTES : Nat := 64 * 1024
def SIZE_MAX : Nat := 2^64 - 1

inductive HttpVersion where
  | http10 | http11
  deriving DecidableEq, Repr

inductive HttpMethod where
  | get | head | options | trace | put | delete | post | patch | connect
  deriving DecidableEq, Repr

inductive ParseState where
  | reqMethod | reqUri | reqVersion | reqLf | headerKey | headerName | headerValue | headerLf
  | headerEnd | body | done | error
  deriving DecidableEq, Repr

inductive ErrorCode where
  | none | connectionClosed | moreDataNeeded | httpParseFailed | outOfMemory | unknown
  deriving DecidableEq, Repr

/-- `error` -/
structure Error where
  code : ErrorCode
  msg : String := ""
  deriving DecidableEq, Repr

/-- `http_header_t`; a `NULL` value is `none` -/
structure HttpHeader where
  name : Nat := 0
  nameLen : Nat := 0
  value : Option Nat := none
  valueLen : Nat := 0
  deriving DecidableEq, Repr

/-- `http_request_t` with its `http_parser_internal_state`, as far as the parser goes.
`headers` is `headers[0..header_count)` and `slot` is `headers[header_count]`, which the parser
fills before it counts it. -/
structure HttpRequest where
  state : ParseState := .reqMethod
  methodPtr : Option Nat := none
  methodLen : Nat := 0
  method : HttpMethod := .get
  uri : Option Nat := none
  uriLen : Nat := 0
  versionPtr : Option Nat := none
  versionLen : Nat := 0
  version : HttpVersion := .http10
  headers : List HttpHeader := []
  slot : HttpHeader := {}
  contentLength : Nat := 0
  contentType : Option Nat := none
  host : Option Nat := none
  body : Option Nat := none
  bodyBytesRead : Nat := 0
  deriving DecidableEq, Repr

/-- the zeroed request of `parse_http_request` -/
def HttpRequest.fresh : HttpRequest := {}

def CR : UInt8 := 13
def LF : UInt8 := 10
def SP : UInt8 := 32
def HTAB : UInt8 := 9
def COLON : UInt8 := 58

/-- `is_whitespace` (strutil.c) -/
def isWhitespace (c : UInt8) : Bool := c == SP || c == HTAB || c == CR || c == LF

/-- the byte `s->buf[i]` -/
def byteAt (buf : Bytes) (i : Nat) : UInt8 := buf.getD i 0

/-! ## methods and versions -/

def METHOD_VALUE_GET : Nat := 0x0000000020544547
def METHOD_VALUE_HEAD : Nat := 0x0000002044414548
def METHOD_VALUE_OPTIONS : Nat := 0x20534e4f4954504f
def METHOD_VALUE_TRACE : Nat := 0x0000204543415254
def METHOD_VALUE_PUT : Nat := 0x0000000020545550
def METHOD_VALUE_DELETE : Nat := 0x00204554454c4544
def METHOD_VALUE_POST : Nat := 0x0000002054534f50
def METHOD_VALUE_PATCH : Nat := 0x0000204843544150
def METHOD_VALUE_CONNECT : Nat := 0x205443454e4e4f43

/-- `parse_method`: the method and its length, `none` for `-1` -/
def parseMethod (buf : Bytes) (cur : Nat) : Option (HttpMethod × Nat) :=
  -- `memcpy` of eight bytes into a little-endian `uint64_t`
  let v := Bytes.leNat (Bytes.slice buf cur 8)
  if v &&& 0x00000000ffffffff = METHOD_VALUE_GET then some (.get, 3)
  else if v &&& 0x00000000ffffffff = METHOD_VALUE_PUT then some (.put, 3)
  else if v &&& 0x000000ffffffffff = METHOD_VALUE_POST then some (.post, 4)
  else if v &&& 0x000000ffffffffff = METHOD_VALUE_HEAD then some (.head, 4)
  else if v &&& 0x0000ffffffffffff = METHOD_VALUE_PATCH then some (.patch, 5)
  else if v &&& 0x0000ffffffffffff = METHOD_VALUE_TRACE then some (.trace, 5)
  else if v &&& 0x00ffffffffffffff = METHOD_VALUE_DELETE then some (.delete, 6)
  else if v = METHOD_VALUE_OPTIONS then some (.options, 7)
  else if v = METHOD_VALUE_CONNECT then some (.connect, 7)
  else none

/-- `parse_version`: `none` for `-1` -/
def parseVersion (buf : Bytes) (cur len : Nat) : Option HttpVersion :=
  let c := fun k => byteAt buf (cur + k)
  if len ≠ 8 then none
  else if c 0 ≠ 72 ∨ c 1 ≠ 84 ∨ c 2 ≠ 84 ∨ c 3 ≠ 80 ∨ c 4 ≠ 47 ∨ c 6 ≠ 46 then none
  else if c 5 < 48 ∨ 57 < c 5 then none
  else if c 7 < 48 ∨ 57 < c 7 then none
  else
    let major := (c 5).toNat - 48
    let minor := (c 7).toNat - 48
    if major = 1 then
      if minor = 0 then some .http10 else if minor = 1 then some .http11 else none
    else none

/-! ## headers -/

def HttpHeader.nameBytes (buf : Bytes) (h : HttpHeader) : Bytes := Bytes.slice buf h.name h.nameLen

/-- the value; a `NULL` value has no bytes -/
def HttpHeader.valueBytes (buf : Bytes) (h : HttpHeader) : Bytes :=
  Bytes.slice buf (h.value.getD 0) h.valueLen

/-- the test of `http_request_get_header` on one header: length, first letter, `strncasecmp` -/
def HttpHeader.isNamed (buf : Bytes) (h : HttpHeader) (name : Bytes) : Bool :=
  h.nameLen == name.length && (byteAt buf h.name ||| 32) == (name.headD 0 ||| 32) &&
    Bytes.eqFold (h.nameBytes buf) name

/-- `http_request_get_header` -/
def httpRequestGetHeader (buf : Bytes) (req : HttpRequest) (name : Bytes) : Option HttpHeader :=
  req.headers.find? fun h => h.isNamed buf name

/-- the loop over the digits of a Content-Length, with the guard against overflow of `size_t` -/
def readContentLength (v : Bytes) : Option Nat := Decimal.readGuarded SIZE_MAX 0 v

def contentLengthName : Bytes := ascii "Content-Length"
def contentTypeName : Bytes := ascii "Content-Type"
def transferEncodingName : Bytes := ascii "Transfer-Encoding"
def hostName : Bytes := ascii "Host"

/-- `parse_header`: `none` for `-1` -/
def parseHeader (buf : Bytes) (req : HttpRequest) (h : HttpHeader) : Option HttpRequest :=
  let first := byteAt buf h.name ||| 32
  if first = 99 then
    if h.nameLen = 14 ∧ Bytes.eqFold (h.nameBytes buf) contentLengthName then
      if h.valueLen = 0 ∨ (httpRequestGetHeader buf req contentLengthName).isSome then none
      else
        match readContentLength (h.valueBytes buf) with
        | none => none
        | some value => some { req with contentLength := value }
    else if h.nameLen = 12 ∧ Bytes.eqFold (h.nameBytes buf) contentTypeName then
      some { req with contentType := h.value }
    else some req
  else if first = 116 then
    if h.nameLen = 17 ∧ Bytes.eqFold (h.nameBytes buf) transferEncodingName then none
    else some req
  else if first = 104 then
    if h.nameLen = 4 ∧ Bytes.eqFold (h.nameBytes buf) hostName then
      some { req with host := h.value }
    else some req
  else some req

/-! ## the loop -/

/-- how a call of `parse_chunk` ends: the error, `out_response->status`, the request -/
structure ChunkResult where
  err : Error
  status : Nat
  req : HttpRequest
  deriving DecidableEq, Repr

/-- one turn: the loop goes on at `i` (after `i++`), or `parse_chunk` returns -/
inductive Step where
  | next (i : Nat) (req : HttpRequest)
  | stop (res : ChunkResult)

/-- `out_response->status` before the parser sets it -/
def STATUS_OK : Nat := 200

def failWith (req : HttpRequest) (status : Nat) (msg : String) : Step :=
  .stop ⟨⟨.httpParseFailed, msg⟩, status, { req with state := .error }⟩

def stopMore (req : HttpRequest) (msg : String) : Step :=
  .stop ⟨⟨.moreDataNeeded, msg⟩, STATUS_OK, req⟩

def stopNone (req : HttpRequest) : Step := .stop ⟨⟨.none, ""⟩, STATUS_OK, req⟩

/-- `s->state < STATE_BODY` -/
def ParseState.beforeBody : ParseState → Bool
  | .body | .done | .error => false
  | _ => true

/-- the end of the version: `parse_version`, then the state `next` -/
def endVersion (buf : Bytes) (i start : Nat) (req : HttpRequest) (next : ParseState) : Step :=
  let req := { req with versionLen := i - start }
  match parseVersion buf start req.versionLen with
  | none => failWith req 505 "invalid request line: invalid HTTP version"
  | some v => .next i { req with state := next, version := v }

/-- `h->value`, `h->value_len` after one more byte of the value -/
def HttpHeader.takeValue (h : HttpHeader) (i : Nat) (c : UInt8) : HttpHeader :=
  if isWhitespace c then h
  else
    match h.value with
    | none => { h with value := some i, valueLen := 1 }
    | some v => { h with valueLen := i - v + 1 }

/-- the `switch` of `parse_chunk`; `.next j` is a `break` with `i = j` -/
def parseByte (buf : Bytes) (endIdx i : Nat) (req : HttpRequest) : Step :=
  let c := byteAt buf i
  match req.state with
  | .reqMethod =>
    let m := req.methodPtr.getD i
    let req := { req with methodPtr := some m }
    -- not all arrived yet
    if endIdx - m < 8 then stopMore req "more data needed"
    else
      match parseMethod buf m with
      | none => failWith req 501 "invalid request line: unknown method"
      | some (method, len) =>
        .next (m + len) { req with method := method, methodLen := len, state := .reqUri }
  | .reqUri =>
    let u := req.uri.getD i
    let req := { req with uri := some u }
    if c = SP then
      let req := { req with uriLen := i - u }
      if req.uriLen = 0 then failWith req 400 "invalid request line: empty URI"
      else .next i { req with state := .reqVersion }
    else if c = CR ∨ c = LF then
      failWith req 400 "invalid request line: unexpected end of line while parsing URI"
    else .next i req
  | .reqVersion =>
    let v := req.versionPtr.getD i
    let req := { req with versionPtr := some v }
    if c = CR then endVersion buf i v req .reqLf
    else if c = LF then endVersion buf i v req .headerKey
    else .next i req
  | .reqLf =>
    if c = LF then .next i { req with state := .headerKey }
    else failWith req 400 "invalid request line: expected LF"
  | .headerKey =>
    if c = CR then .next i { req with state := .headerEnd }
    else if c = LF then .next i { req with state := .body }
    else if c = COLON then failWith req 400 "empty field name"
    else if req.headers.length ≥ MAX_HEADERS then failWith req 431 "too many headers"
    else .next i { req with slot := { req.slot with name := i }, state := .headerName }
  | .headerName =>
    -- the two tests for CR and LF that follow this one in the source are never reached
    if isWhitespace c then failWith req 400 "whitespace is included in field-name"
    else if c = COLON then
      .next i { req with slot := { req.slot with nameLen := i - req.slot.name }, state :=
        .headerValue }
    else .next i req
  | .headerValue =>
    if c = CR ∨ c = LF then
      match parseHeader buf req req.slot with
      | none => failWith req 400 "invalid header"
      | some req =>
        if c = CR then .next i { req with state := .headerLf }
        else .next i { req with state := .headerKey, headers :=
          req.headers ++ [req.slot], slot := {} }
    else .next i { req with slot := req.slot.takeValue i c }
  | .headerLf =>
    if c = LF then
      .next i { req with state := .headerKey, headers := req.headers ++ [req.slot], slot := {} }
    else failWith req 400 "unexpected lf"
  | .headerEnd =>
    if c ≠ LF then failWith req 400 "expected LF after CR"
    else .next i { req with state := .body }
  | .body =>
    let remaining := req.contentLength - req.bodyBytesRead
    let available := endIdx - i
    let req := { req with bodyBytesRead := req.bodyBytesRead + min available remaining }
    if req.bodyBytesRead = req.contentLength then stopNone { req with state := .done }
    else stopMore req "more body data needed"
  | .done => stopNone req
  | .error => .stop ⟨⟨.httpParseFailed, "parse error"⟩, 400, req⟩

/-- the test after the `switch`: is the header complete? -/
def headerComplete (i : Nat) (req : HttpRequest) : Step :=
  if req.state = .body then
    let headerBytes := i + 1
    if req.contentLength ≥ MAX_REQUEST_BYTES - headerBytes then failWith req 413 "request too large"
    else if req.contentLength = 0 then stopNone { req with state := .done }
    else .next (i + 1) { req with body := some headerBytes }
  else .next (i + 1) req

/-- one turn of the loop of `parse_chunk` -/
def parseStep (buf : Bytes) (endIdx i : Nat) (req : HttpRequest) : Step :=
  if req.state.beforeBody ∧ i + 1 ≥ MAX_HEADER_BYTES then failWith req 431 "header too large"
  else
    match parseByte buf endIdx i req with
    | .stop res => .stop res
    | .next j req' => headerComplete j req'

/-! ## termination: the method state is left at most once, every other turn moves on -/

theorem headerComplete_next (i j : Nat) (req req' : HttpRequest)
    (h : headerComplete i req = .next j req') : j = i + 1 ∧ req'.state = req.state := by
  unfold headerComplete at h
  split at h
  · dsimp only at h
    split at h
    · cases h
    · split at h
      · cases h
      · cases h
        exact ⟨rfl, rfl⟩
  · cases h
    exact ⟨rfl, rfl⟩

theorem endVersion_next (buf : Bytes) (i start j : Nat) (req req' : HttpRequest) (st : ParseState)
    (h : endVersion buf i start req st = .next j req') : j = i ∧ req'.state = st := by
  unfold endVersion at h
  dsimp only at h
  split at h
  · cases h
  · cases h
    exact ⟨rfl, rfl⟩

theorem parseHeader_state (buf : Bytes) (req req' : HttpRequest) (h : HttpHeader)
    (hp : parseHeader buf req h = some req') :
    req'.state = req.state ∧ req'.headers = req.headers ∧ req'.slot = req.slot := by
  unfold parseHeader at hp
  grind

/-- how a request goes on with a byte, once the method is read -/
inductive ReadsByte (buf : Bytes) (i : Nat) (req : HttpRequest) : HttpRequest → Prop where
  | uri (hs : req.state = .reqUri) : ReadsByte buf i req { req with uri := some (req.uri.getD i) }
  | uriEnd (hs : req.state = .reqUri) (hlen : i - req.uri.getD i ≠ 0) :
      ReadsByte buf i req
        { req with uri := some (req.uri.getD i), uriLen := i - req.uri.getD i, state :=
          .reqVersion }
  | version (hs : req.state = .reqVersion) :
      ReadsByte buf i req { req with versionPtr := some (req.versionPtr.getD i) }
  | versionEnd {st : ParseState} {r : HttpRequest} (hs : req.state = .reqVersion)
      (hst : st = .reqLf ∨ st = .headerKey)
      (h : endVersion buf i (req.versionPtr.getD i)
        { req with versionPtr := some (req.versionPtr.getD i) } st = .next i r)
          : ReadsByte buf i req r
  /-- a line is at its end, or the head is -/
  | line {st : ParseState} (hs : (req.state = .reqLf ∧ st = .headerKey) ∨
      (req.state = .headerKey ∧ (st = .headerEnd ∨ st = .body)) ∨
      (req.state = .headerEnd ∧ st = .body)) :
      ReadsByte buf i req { req with state := st }
  | nameStart (hs : req.state = .headerKey) (hroom : req.headers.length < MAX_HEADERS) :
      ReadsByte buf i req { req with slot := { req.slot with name := i }, state := .headerName }
  | name (hs : req.state = .headerName) : ReadsByte buf i req req
  | nameEnd (hs : req.state = .headerName) :
      ReadsByte buf i req
        { req with slot := { req.slot with nameLen := i - req.slot.name }, state := .headerValue }
  | value (hs : req.state = .headerValue) :
      ReadsByte buf i req { req with slot := req.slot.takeValue i (byteAt buf i) }
  | valueEnd {r : HttpRequest} (hs : req.state = .headerValue)
      (hp : parseHeader buf req req.slot = some r) :
      ReadsByte buf i req { r with state := .headerLf }
  /-- a header is counted -/
  | valueLf {r : HttpRequest} (hs : req.state = .headerValue)
      (hp : parseHeader buf req req.slot = some r) :
      ReadsByte buf i req { r with state := .headerKey, headers := r.headers ++ [r.slot], slot := {} }
  | headerLine (hs : req.state = .headerLf) :
      ReadsByte buf i req
        { req with state := .headerKey, headers := req.headers ++ [req.slot], slot := {} }

/-- the `switch`, but for the method -/
theorem parseByte_readsByte (buf : Bytes) (e i j : Nat) (req req' : HttpRequest)
    (h : parseByte buf e i req = .next j req') (hm : req.state ≠ .reqMethod) :
    j = i ∧ ReadsByte buf i req req' := by
  unfold parseByte at h
  dsimp only at h
  cases hs : req.state with
  | reqMethod => exact absurd hs hm
  | reqUri =>
    simp only [hs] at h
    split at h
    · split at h
      · cases h
      · next hlen =>
        cases h
        exact ⟨rfl, .uriEnd hs hlen⟩
    · split at h <;> cases h
      exact ⟨rfl, hs ▸ .uri hs⟩
  | reqVersion =>
    simp only [hs] at h
    split at h
    · obtain ⟨rfl, -⟩ := endVersion_next _ _ _ _ _ _ _ h
      exact ⟨rfl, .versionEnd hs (.inl rfl) (by rw [hs]; exact h)⟩
    · split at h
      · obtain ⟨rfl, -⟩ := endVersion_next _ _ _ _ _ _ _ h
        exact ⟨rfl, .versionEnd hs (.inr rfl) (by rw [hs]; exact h)⟩
      · cases h
        exact ⟨rfl, hs ▸ .version hs⟩
  | reqLf =>
    simp only [hs] at h
    split at h <;> cases h
    exact ⟨rfl, .line (.inl ⟨hs, rfl⟩)⟩
  | headerKey =>
    simp only [hs] at h
    split at h
    · cases h
      exact ⟨rfl, .line (.inr (.inl ⟨hs, .inl rfl⟩))⟩
    · split at h
      · cases h
        exact ⟨rfl, .line (.inr (.inl ⟨hs, .inr rfl⟩))⟩
      · split at h
        · cases h
        · split at h <;> cases h
          next hroom => exact ⟨rfl, .nameStart hs (Nat.not_le.mp hroom)⟩
  | headerName =>
    simp only [hs] at h
    split at h
    · cases h
    · split at h <;> cases h
      · exact ⟨rfl, .nameEnd hs⟩
      · exact ⟨rfl, .name hs⟩
  | headerValue =>
    simp only [hs] at h
    split at h
    · split at h
      · cases h
      · next r hr =>
        split at h <;> cases h
        · exact ⟨rfl, .valueEnd hs hr⟩
        · exact ⟨rfl, .valueLf hs hr⟩
    · cases h
      exact ⟨rfl, hs ▸ .value hs⟩
  | headerLf =>
    simp only [hs] at h
    split at h <;> cases h
    exact ⟨rfl, .headerLine hs⟩
  | headerEnd =>
    simp only [hs] at h
    split at h <;> cases h
    exact ⟨rfl, .line (.inr (.inr ⟨hs, rfl⟩))⟩
  | body =>
    simp only [hs] at h
    split at h <;> cases h
  | done =>
    simp only [hs] at h
    cases h
  | error =>
    simp only [hs] at h
    cases h

/-- the states that a turn leads to -/
theorem ReadsByte.states {buf : Bytes} {i : Nat} {req req' : HttpRequest}
    (h : ReadsByte buf i req req') :
    req'.state ≠ .reqMethod ∧ req'.state ≠ .done ∧
      (req'.state.beforeBody = false → req'.state = .body) := by
  cases h with
  | uri hs | version hs | name hs | value hs => simp [hs, ParseState.beforeBody]
  | versionEnd hs hst h =>
    rw [(endVersion_next _ _ _ _ _ _ _ h).2]
    rcases hst with rfl | rfl <;> simp [ParseState.beforeBody]
  | line hs => rcases hs with ⟨-, rfl⟩ | ⟨-, rfl | rfl⟩ | ⟨-, rfl⟩ <;> simp [ParseState.beforeBody]
  | _ => simp [ParseState.beforeBody]

/-- the body is not read byte by byte -/
theorem ReadsByte.head {buf : Bytes} {i : Nat} {req req' : HttpRequest}
    (h : ReadsByte buf i req req') :
    req.state.beforeBody = true := by
  cases h with
  | line hs => rcases hs with ⟨hs, -⟩ | ⟨hs, -⟩ | ⟨hs, -⟩ <;> rw [hs] <;> rfl
  | uri hs | uriEnd hs | version hs | versionEnd hs | nameStart hs | name hs | nameEnd hs | value hs
  | valueEnd hs | valueLf hs | headerLine hs =>
    rw [hs]
    rfl

theorem parseByte_next (buf : Bytes) (e i j : Nat) (req req' : HttpRequest)
    (h : parseByte buf e i req = .next j req') (hm : req.state ≠ .reqMethod) :
    j = i ∧ req'.state ≠ .reqMethod ∧ req'.state ≠ .done := by
  obtain ⟨hj, hturn⟩ := parseByte_readsByte buf e i j req req' h hm
  exact ⟨hj, hturn.states.1, hturn.states.2.1⟩

theorem parseByte_method (buf : Bytes) (e i j : Nat) (req req' : HttpRequest)
    (h : parseByte buf e i req = .next j req') (hm : req.state = .reqMethod) :
    req'.state = .reqUri := by
  unfold parseByte at h
  simp only [hm, failWith, stopMore] at h
  grind

theorem parseStep_next (buf : Bytes) (e i j : Nat) (req req' : HttpRequest)
    (h : parseStep buf e i req = .next j req') (hm : req.state ≠ .reqMethod) :
    j = i + 1 ∧ req'.state ≠ .reqMethod ∧ req'.state ≠ .done := by
  unfold parseStep at h
  split at h
  · cases h
  · split at h
    · cases h
    · next k r hb =>
      obtain ⟨h1, h2⟩ := parseByte_next buf e i k req r hb hm
      obtain ⟨h3, h4⟩ := headerComplete_next k j r req' h
      exact ⟨by omega, by rw [h4]; exact h2⟩

theorem parseStep_method (buf : Bytes) (e i j : Nat) (req req' : HttpRequest)
    (h : parseStep buf e i req = .next j req') (hm : req.state = .reqMethod) :
    req'.state = .reqUri := by
  unfold parseStep at h
  split at h
  · cases h
  · split at h
    · cases h
    · next k r hb => rw [(headerComplete_next k j r req' h).2, parseByte_method buf e i
        k req r hb hm]

/-- turns left: one jump out of the method state, then one turn a byte -/
def turnsLeft (e i : Nat) (req : HttpRequest) : Nat :=
  (if req.state = .reqMethod then e + 1 else 0) + (e - i)

theorem parseStep_turns (buf : Bytes) (e i j : Nat) (req req' : HttpRequest)
    (h : parseStep buf e i req = .next j req') (hi : i < e) :
    turnsLeft e j req' < turnsLeft e i req := by
  unfold turnsLeft
  by_cases hm : req.state = .reqMethod
  · have h1 := parseStep_method buf e i j req req' h hm
    rw [if_neg (by rw [h1]; decide), if_pos hm]
    omega
  · obtain ⟨h1, h2, -⟩ := parseStep_next buf e i j req req' h hm
    rw [if_neg h2, if_neg hm]
    omega

/-- how the loop ends when the bytes run out -/
def moreData (req : HttpRequest) : ChunkResult :=
  ⟨⟨.moreDataNeeded, "more data needed"⟩, STATUS_OK, req⟩

/-- the loop of `parse_chunk` from the index `i` -/
def parseLoop (buf : Bytes) (endIdx i : Nat) (req : HttpRequest) : ChunkResult :=
  if hi : i < endIdx then
    match hs : parseStep buf endIdx i req with
    | .stop res => res
    | .next j req' => parseLoop buf endIdx j req'
  else moreData req
termination_by turnsLeft endIdx i req
decreasing_by exact parseStep_turns buf endIdx i j req req' hs hi

theorem parseLoop_end (buf : Bytes) (e i : Nat) (req : HttpRequest) (h : e ≤ i) :
    parseLoop buf e i req = moreData req := by
  rw [parseLoop, dif_neg (by omega)]

theorem parseLoop_stop (buf : Bytes) (e i : Nat) (req : HttpRequest) (res : ChunkResult) (h : i < e)
    (hs : parseStep buf e i req = .stop res) : parseLoop buf e i req = res := by
  rw [parseLoop, dif_pos h]
  split
  · next r hr =>
    rw [hs] at hr
    cases hr
    rfl
  · next j r hr =>
    rw [hs] at hr
    cases hr

theorem parseLoop_next (buf : Bytes) (e i j : Nat) (req req' : HttpRequest) (h : i < e)
    (hs : parseStep buf e i req = .next j req') :
    parseLoop buf e i req = parseLoop buf e j req' := by
  rw [parseLoop, dif_pos h]
  split
  · next r hr =>
    rw [hs] at hr
    cases hr
  · next k r hr =>
    rw [hs] at hr
    cases hr
    rfl

/-- `parse_chunk`, the last `readBytes` bytes of the buffer `buf` being new -/
def parseChunk (buf : Bytes) (readBytes : Nat) (req : HttpRequest) : ChunkResult :=
  let startIdx := buf.length - readBytes
  if req.state = .done then ⟨⟨.none, ""⟩, STATUS_OK, req⟩
  else parseLoop buf buf.length startIdx req

/-- the receive loop of `parse_http_request`: every chunk is appended to the buffer and parsed,
up to the first result other than `ERR_MORE_DATA_NEEDED`; with no chunk left the parser waits -/
def feedChunks (buf : Bytes) (req : HttpRequest) : List Bytes → ChunkResult
  | [] => moreData req
  | chunk :: chunks =>
    let res := parseChunk (buf ++ chunk) chunk.length req
    if res.err.code = .moreDataNeeded then feedChunks (buf ++ chunk) res.req chunks else res

/-- one call on the whole input -/
def parseWhole (b : Bytes) : ChunkResult := parseChunk b b.length HttpRequest.fresh

example : (parseWhole (ascii "GET / HTTP/1.1\n\n")).err.code = .none := by decide +kernel

end Http

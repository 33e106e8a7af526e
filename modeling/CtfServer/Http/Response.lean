import CtfServer.Http.Request
import CtfServer.Lib.Buffer
import CtfServer.Lib.Decimal

/-!
# Responses on the wire

`http_response_build` and `http_response_build_header` (http_response.c), down to the buffer: its
size is a sum of lengths counted by hand, and each part is a format that `snprintf` cuts off at the
end of the buffer.

* `httpResponseBuildHeader`, `httpResponseBuild`   the two builders;
* `headerText`         a status line and fields, each ended by CRLF, and an empty line;
* `headerLen_eq`       the sum is the length of that text;
* `builders_agree_iff` **the builders write that text, and the body behind it, exactly when the
                       content type leaves the header within an `int`**.
-/

set_option linter.unusedVariables false
set_option linter.unusedSimpArgs false

namespace Http

open Buffer (Malloc Libc storeAt snprintf)

/-! ## statuses -/

/-- `http_status` -/
inductive Status where
  | continue' | switchingProtocols | ok | created | accepted | nonAuthoritativeInformation
    | noContent
  | resetContent | partialContent | multipleChoices | movedPermanently | found | seeOther
    | notModified
  | useProxy | temporaryRedirect | permanentRedirect | badRequest | unauthorized | paymentRequired
    | forbidden
  | notFound | methodNotAllowed | notAcceptable | proxyAuthenticationRequired | requestTimeout
    | conflict
  | gone | lengthRequired | preconditionFailed | contentTooLarge | uriTooLong | unsupportedMediaType
  | rangeNotSatisfiable | expectationFailed | misdirectedRequest | unprocessableContent | tooEarly
  | upgradeRequired | preconditionRequired | tooManyRequests | requestHeaderFieldsTooLarge
  | unavailableForLegalReasons | internalServerError | notImplemented | badGateway
    | serviceUnavailable
  | gatewayTimeout | httpVersionNotSupported
  deriving DecidableEq, Repr

def Status.code : Status → Nat
  | .continue' => 100
  | .switchingProtocols => 101
  | .ok => 200
  | .created => 201
  | .accepted => 202
  | .nonAuthoritativeInformation => 203
  | .noContent => 204
  | .resetContent => 205
  | .partialContent => 206
  | .multipleChoices => 300
  | .movedPermanently => 301
  | .found => 302
  | .seeOther => 303
  | .notModified => 304
  | .useProxy => 305
  | .temporaryRedirect => 307
  | .permanentRedirect => 308
  | .badRequest => 400
  | .unauthorized => 401
  | .paymentRequired => 402
  | .forbidden => 403
  | .notFound => 404
  | .methodNotAllowed => 405
  | .notAcceptable => 406
  | .proxyAuthenticationRequired => 407
  | .requestTimeout => 408
  | .conflict => 409
  | .gone => 410
  | .lengthRequired => 411
  | .preconditionFailed => 412
  | .contentTooLarge => 413
  | .uriTooLong => 414
  | .unsupportedMediaType => 415
  | .rangeNotSatisfiable => 416
  | .expectationFailed => 417
  | .misdirectedRequest => 421
  | .unprocessableContent => 422
  | .tooEarly => 425
  | .upgradeRequired => 426
  | .preconditionRequired => 428
  | .tooManyRequests => 429
  | .requestHeaderFieldsTooLarge => 431
  | .unavailableForLegalReasons => 451
  | .internalServerError => 500
  | .notImplemented => 501
  | .badGateway => 502
  | .serviceUnavailable => 503
  | .gatewayTimeout => 504
  | .httpVersionNotSupported => 505

/-- `http_status_to_string` -/
def httpStatusToString : Status → Bytes
  | .continue' => ascii "Continue"
  | .switchingProtocols => ascii "Switching Protocols"
  | .ok => ascii "OK"
  | .created => ascii "Created"
  | .accepted => ascii "Accepted"
  | .nonAuthoritativeInformation => ascii "Non-Authoritative Information"
  | .noContent => ascii "No Content"
  | .resetContent => ascii "Reset Content"
  | .partialContent => ascii "Partial Content"
  | .multipleChoices => ascii "Multiple Choices"
  | .movedPermanently => ascii "Moved Permanently"
  | .found => ascii "Found"
  | .seeOther => ascii "See Other"
  | .notModified => ascii "Not Modified"
  | .useProxy => ascii "Use Proxy"
  | .temporaryRedirect => ascii "Temporary Redirect"
  | .permanentRedirect => ascii "Permanent Redirect"
  | .badRequest => ascii "Bad Request"
  | .unauthorized => ascii "Unauthorized"
  | .paymentRequired => ascii "Payment Required"
  | .forbidden => ascii "Forbidden"
  | .notFound => ascii "Not Found"
  | .methodNotAllowed => ascii "Method Not Allowed"
  | .notAcceptable => ascii "Not Acceptable"
  | .proxyAuthenticationRequired => ascii "Proxy Authentication Required"
  | .requestTimeout => ascii "Request Timeout"
  | .conflict => ascii "Conflict"
  | .gone => ascii "Gone"
  | .lengthRequired => ascii "Length Required"
  | .preconditionFailed => ascii "Precondition Failed"
  | .contentTooLarge => ascii "Content Too Large"
  | .uriTooLong => ascii "URI Too Long"
  | .unsupportedMediaType => ascii "Unsupported Media Type"
  | .rangeNotSatisfiable => ascii "Range Not Satisfiable"
  | .expectationFailed => ascii "Expectation Failed"
  | .misdirectedRequest => ascii "Misdirected Request"
  | .unprocessableContent => ascii "Unprocessable Content"
  | .tooEarly => ascii "Too Early"
  | .upgradeRequired => ascii "Upgrade Required"
  | .preconditionRequired => ascii "Precondition Required"
  | .tooManyRequests => ascii "Too Many Requests"
  | .requestHeaderFieldsTooLarge => ascii "Request Header Fields Too Large"
  | .unavailableForLegalReasons => ascii "Unavailable For Legal Reasons"
  | .internalServerError => ascii "Internal Server Error"
  | .notImplemented => ascii "Not Implemented"
  | .badGateway => ascii "Bad Gateway"
  | .serviceUnavailable => ascii "Service Unavailable"
  | .gatewayTimeout => ascii "Gateway Timeout"
  | .httpVersionNotSupported => ascii "HTTP Version Not Supported"

/-- `http_response_t`; the strings without their terminators -/
structure Response where
  status : Status
  body : Option Bytes := none
  bodyLen : Nat := 0
  bearerChallenge : Bool := false
  noStore : Bool := false
  contentType : Option Bytes := none
  deriving DecidableEq, Repr

/-! ## the builders -/

def INT_MAX : Nat := 2^31 - 1

/-- `while (tmp > 0) { tmp /= 10; digits++; }` -/
def digitsLoop (tmp digits : Nat) : Nat :=
  if h : 0 < tmp then digitsLoop (tmp / 10) (digits + 1) else digits
termination_by tmp
decreasing_by omega

def resolveContentLength (bodyLen : Nat) : Nat := digitsLoop (bodyLen / 10) 1

def resolveContentType (res : Response) : Bytes := res.contentType.getD (ascii "text/plain")

def authenticationHeaders (res : Response) : Bytes :=
  if res.bearerChallenge && res.noStore then
    ascii "WWW-Authenticate: Bearer\r\nCache-Control: no-store\r\n"
  else if res.bearerChallenge then ascii "WWW-Authenticate: Bearer\r\n"
  else if res.noStore then ascii "Cache-Control: no-store\r\n" else []

/-- `http_version_to_string(HTTP_VERSION_1_1)` -/
def versionStr : Bytes := ascii "HTTP/1.1"

/-- `response_len` without the body -/
def headerLen (res : Response) : Nat :=
  (authenticationHeaders res).length + versionStr.length + 5 +
    (httpStatusToString res.status).length + 2 +
    16 + resolveContentLength res.bodyLen + 2 + 14 + (resolveContentType res).length + 2 + 19 + 2

/-! the formats -/

def statusFormat (res : Response) : Bytes :=
  versionStr ++ ascii " " ++ Decimal.digits res.status.code ++ ascii " " ++ httpStatusToString
    res.status ++ ascii "\r\n"

def contentLengthFormat (res : Response) : Bytes :=
  ascii "Content-Length: " ++ Decimal.digits res.bodyLen ++ ascii "\r\n"

def contentTypeFormat (res : Response) : Bytes :=
  ascii "Content-Type: " ++ resolveContentType res ++ ascii "\r\n"

def connectionFormat : Bytes := ascii "Connection: close\r\n"

def authenticationFormat (res : Response) : Bytes := authenticationHeaders res ++ ascii "\r\n"

/-- the formats in their order; `http_response_build_header` has them as one -/
def formats (res : Response) : List Bytes :=
  [statusFormat res, contentLengthFormat res, contentTypeFormat res, connectionFormat,
    authenticationFormat res]

/-- `http_response_build_header`: the buffer and its length, or the message of the error; a size
that wraps around is followed no further -/
def httpResponseBuildHeader (libc : Libc) (malloc : Malloc) (res : Response) :
    Option (Except Bytes (Bytes × Nat)) :=
  if SIZE_MAX < headerLen res + 1 then none
  else
    match malloc.run (headerLen res + 1) with
    | none => some (.error (ascii "failed to allocate memory for HTTP response header"))
    | some buf => do
      let (_, buf) ← snprintf libc INT_MAX buf 0 (headerLen res + 1) (formats res).flatten
      some (.ok (buf, headerLen res))

/-- `offset += snprintf(buf + offset, response_len + 1 - offset, ...)`, on a `size_t` -/
def appendFormat (libc : Libc) (size : Nat) (format : Bytes) (state : Bytes × Nat) :
    Option (Bytes × Nat) :=
  if size < state.2 then none
  else do
    let (n, buf) ← snprintf libc INT_MAX state.1 state.2 (size - state.2) format
    some (buf, (((state.2 : Int) + n) % (2^64 : Nat)).toNat)

/-- one format after the other -/
def appendFormats (libc : Libc) (size : Nat) : List Bytes → Bytes × Nat → Option (Bytes × Nat)
  | [], state => some state
  | format :: formats, state => do
    let state ← appendFormat libc size format state
    appendFormats libc size formats state

/-- `if (res->body_len) memcpy(buf + offset, res->body, res->body_len)` -/
def copyBody (res : Response) (buf : Bytes) (offset : Nat) : Option Bytes :=
  if res.bodyLen = 0 then some buf
  else
    match res.body with
    | none => none
    | some body =>
      if body.length < res.bodyLen then none else storeAt buf offset (body.take res.bodyLen)

/-- `http_response_build` -/
def httpResponseBuild (libc : Libc) (malloc : Malloc) (res : Response) :
    Option (Except Bytes (Bytes × Nat)) :=
  if SIZE_MAX < headerLen res + res.bodyLen + 1 then none
  else
    match malloc.run (headerLen res + res.bodyLen + 1) with
    | none => some (.error (ascii "failed to allocate memory for HTTP response"))
    | some buf => do
      let size := headerLen res + res.bodyLen + 1
      let (buf, offset) ← appendFormats libc size (formats res) (buf, 0)
      let buf ← copyBody res buf offset
      let buf ← storeAt buf (headerLen res + res.bodyLen) [0]
      some (.ok (buf, headerLen res + res.bodyLen))

/-! ## the text of a header -/

/-- a line without its CRLF has none inside -/
def Unbroken (line : Bytes) : Prop := ∀ c ∈ line, c ≠ 13 ∧ c ≠ 10

def fieldLine (field : Bytes × Bytes) : Bytes := field.1 ++ ascii ": " ++ field.2

/-- lines that end in CRLF, and an empty one -/
def linesText (lines : List Bytes) : Bytes :=
  (lines.flatMap fun line => line ++ ascii "\r\n") ++ ascii "\r\n"

def statusLine (status : Status) : Bytes :=
  ascii "HTTP/1.1 " ++ Decimal.digits status.code ++ ascii " " ++ httpStatusToString status

def fields (res : Response) : List (Bytes × Bytes) :=
  [(ascii "Content-Length", Decimal.digits res.bodyLen),
    (ascii "Content-Type", resolveContentType res),
    (ascii "Connection", ascii "close")] ++
    (if res.bearerChallenge then [(ascii "WWW-Authenticate", ascii "Bearer")] else []) ++
    (if res.noStore then [(ascii "Cache-Control", ascii "no-store")] else [])

def headerText (res : Response) : Bytes :=
  linesText (statusLine res.status :: (fields res).map fieldLine)

theorem formats_eq (res : Response) : (formats res).flatten = headerText res := by
  have hauth : authenticationHeaders res =
      ((if res.bearerChallenge then [(ascii "WWW-Authenticate", ascii "Bearer")] else []) ++
        (if res.noStore then [(ascii "Cache-Control", ascii "no-store")] else [])).flatMap
          fun field => fieldLine field ++ ascii "\r\n" := by
    unfold authenticationHeaders
    cases res.bearerChallenge <;> cases res.noStore <;> rfl
  have hversion : versionStr ++ ascii " " = ascii "HTTP/1.1 " := rfl
  have hlength : ascii "Content-Length" ++ ascii ": " = ascii "Content-Length: " := rfl
  have htype : ascii "Content-Type" ++ ascii ": " = ascii "Content-Type: " := rfl
  have hconnection : fieldLine (ascii "Connection", ascii "close") ++ ascii "\r\n" =
    connectionFormat := rfl
  unfold headerText linesText fields formats statusFormat contentLengthFormat contentTypeFormat
    authenticationFormat
    statusLine
  rw [hauth, hversion, ← hconnection, ← hlength, ← htype]
  simp only [List.map_append, List.map_cons, List.map_nil, List.flatMap_cons, List.flatMap_append,
    List.flatMap_map,
    List.flatten_cons, List.flatten_nil, List.append_assoc, List.cons_append, List.nil_append,
    List.append_nil, fieldLine]

theorem digitsLoop_eq (n d : Nat) : digitsLoop (n / 10) d + 1 = (Decimal.digits n).length + d := by
  induction n using Decimal.digits.induct generalizing d with
  | case1 n h =>
    rw [digitsLoop, dif_neg (by omega), Decimal.digits, if_pos h, List.length_singleton]
    omega
  | case2 n h ih =>
    have hdigits : Decimal.digits n = Decimal.digits (n / 10) ++ [Decimal.digitByte (n % 10)] := by
      rw [Decimal.digits, if_neg h]
    rw [digitsLoop, dif_pos (by omega), ih, hdigits, List.length_append, List.length_singleton]
    omega

theorem resolveContentLength_eq (n : Nat) : resolveContentLength n = (Decimal.digits n).length := by
  have := digitsLoop_eq n 1
  unfold resolveContentLength
  omega

/-- every status has three digits -/
theorem code_digits (status : Status) : (Decimal.digits status.code).length = 3 := by
  have hrange : 100 ≤ status.code ∧ status.code < 1000 := by
    cases status <;> decide
  rw [Decimal.digits, if_neg (by omega), Decimal.digits, if_neg (by omega), Decimal.digits,
    if_pos (by omega)]
  rfl

/-- **the sum counted by hand is the length of the text** -/
theorem headerLen_eq (res : Response) : headerLen res = (headerText res).length := by
  have h1 : (ascii " ").length = 1 := by decide
  have h2 : (ascii "\r\n").length = 2 := by decide
  have h3 : (ascii "Content-Length: ").length = 16 := by decide
  have h4 : (ascii "Content-Type: ").length = 14 := by decide
  have h5 : connectionFormat.length = 19 := by decide
  rw [← formats_eq]
  unfold headerLen formats statusFormat contentLengthFormat contentTypeFormat authenticationFormat
  rw [resolveContentLength_eq]
  simp only [List.flatten_cons, List.flatten_nil, List.length_append, List.length_nil, h1, h2, h3,
    h4, h5, code_digits]
  omega

/-! ## what the builders write -/

section
variable {libc : Libc} {malloc : Malloc} {res : Response}

theorem httpResponseBuildHeader_writes (hm : ∀ size, ∃ buffer, malloc.run size = some buffer)
    (hfits : (headerText res).length + 1 ≤ SIZE_MAX) (hmax : (headerText res).length ≤ INT_MAX) :
    httpResponseBuildHeader libc malloc res =
      some (.ok (headerText res ++ [0], (headerText res).length)) := by
  obtain ⟨buffer, hb⟩ := hm ((headerText res).length + 1)
  have hsized := malloc.sized _ _ hb
  unfold httpResponseBuildHeader
  rw [headerLen_eq, if_neg (by omega), hb, formats_eq]
  have hwrite : snprintf libc INT_MAX buffer 0 ((headerText res).length + 1) (headerText res) =
      some (((headerText res).length : Int), headerText res ++ [0]) := by
    unfold snprintf
    rw [if_neg (by omega), Buffer.snprintfAt_whole hsized hmax]
    rfl
  simp only [hwrite, Option.bind_eq_bind, Option.bind_some]

/-- one part of the header, behind those before it -/
theorem appendFormat_writes (libc : Libc) (out rest text : Bytes) {size : Nat}
    (hsize : size = out.length + rest.length) (hs : size ≤ SIZE_MAX)
    (hroom : text.length + 1 ≤ rest.length) (hmax : text.length ≤ INT_MAX) :
    ∃ rest', rest'.length + text.length = rest.length ∧
      appendFormat libc size text (out ++ rest, out.length) =
      some (out ++ text ++ rest', (out ++ text).length) := by
  have hwrite : snprintf libc INT_MAX (out ++ rest) out.length rest.length text = _ :=
    Buffer.snprintf_append libc out hroom hmax
  have hoffset : (((out.length : Int) + (text.length : Int)) % (2^64 : Nat)).toNat =
    (out ++ text).length := by
    unfold SIZE_MAX at hs
    rw [List.length_append]
    omega
  refine ⟨0 :: rest.drop (text.length + 1), ?_, ?_⟩
  · rw [List.length_cons, List.length_drop]
    omega
  · unfold appendFormat
    rw [if_neg (show ¬ size < out.length by omega), hsize, Nat.add_sub_cancel_left, hwrite,
      Option.bind_eq_bind,
      Option.bind_some]
    exact congrArg (fun offset => some (_, offset)) hoffset

theorem appendFormats_writes (libc : Libc) (out rest : Bytes) (texts : List Bytes) {size : Nat}
    (hsize : size = out.length + rest.length) (hs : size ≤ SIZE_MAX)
    (hroom : texts.flatten.length + 1 ≤ rest.length)
    (hmax : ∀ text ∈ texts, text.length ≤ INT_MAX) :
    ∃ rest', rest'.length + texts.flatten.length = rest.length ∧
      appendFormats libc size texts (out ++ rest, out.length) =
        some (out ++ texts.flatten ++ rest', (out ++ texts.flatten).length) := by
  induction texts generalizing out rest with
  | nil => exact ⟨rest, rfl, by simp [appendFormats]⟩
  | cons text texts ih =>
    obtain ⟨hmax1, hmax2⟩ := List.forall_mem_cons.mp hmax
    rw [List.flatten_cons, List.length_append] at hroom
    obtain ⟨rest1, h1, e1⟩ := appendFormat_writes libc out rest text hsize hs (by omega) hmax1
    obtain ⟨rest2, h2, e2⟩ := ih (out ++ text) rest1 (by rw [List.length_append]; omega)
      (by omega) hmax2
    refine ⟨rest2, by rw [List.flatten_cons, List.length_append]; omega, ?_⟩
    rw [appendFormats, e1, Option.bind_eq_bind, Option.bind_some, e2, List.flatten_cons,
      List.append_assoc out]

/-- the bytes of the body -/
def bodyBytes (res : Response) : Bytes := (res.body.getD []).take res.bodyLen

theorem bodyBytes_length (hbody : res.bodyLen = 0 ∨ ∃ body, res.body = some body ∧ res.bodyLen ≤
    body.length) :
    (bodyBytes res).length = res.bodyLen := by
  unfold bodyBytes
  rw [List.length_take]
  rcases hbody with h | ⟨body, hbody, h⟩
  · omega
  · rw [hbody, Option.getD_some]
    omega

/-- the body goes where there is room for it and one more byte -/
theorem copyBody_writes (hbody : res.bodyLen = 0 ∨ ∃ body, res.body = some body ∧
    res.bodyLen ≤ body.length)
    (out : Bytes) {rest : Bytes} (hrest : rest.length = res.bodyLen + 1) :
    ∃ c, copyBody res (out ++ rest) out.length = some (out ++ bodyBytes res ++ [c]) := by
  have hlength := bodyBytes_length hbody
  unfold copyBody
  by_cases h0 : res.bodyLen = 0
  · obtain ⟨c, hc⟩ := List.length_eq_one_iff.mp (show rest.length = 1 by omega)
    rw [if_pos h0, List.length_eq_zero_iff.mp (hlength.trans h0), List.append_nil, hc]
    exact ⟨c, rfl⟩
  · obtain ⟨body, hb, hle⟩ := hbody.resolve_left h0
    have hbytes : bodyBytes res = body.take res.bodyLen := by
      unfold bodyBytes
      rw [hb, Option.getD_some]
    obtain ⟨c, hc⟩ := List.length_eq_one_iff.mp (show (rest.drop res.bodyLen).length = 1 by
      rw [List.length_drop]
      omega)
    rw [hbytes] at hlength
    rw [if_neg h0, hb, hbytes]
    simp only [if_neg (show ¬ body.length < res.bodyLen by omega)]
    rw [Buffer.storeAt_exact (by omega), hlength, hc]
    exact ⟨c, rfl⟩

theorem httpResponseBuild_writes (hm : ∀ size, ∃ buffer, malloc.run size = some buffer)
    (hbody : res.bodyLen = 0 ∨ ∃ body, res.body = some body ∧ res.bodyLen ≤ body.length)
    (hfits : (headerText res).length + res.bodyLen + 1 ≤ SIZE_MAX)
    (hmax : (headerText res).length ≤ INT_MAX) :
    httpResponseBuild libc malloc res =
      some (.ok (headerText res ++ bodyBytes res ++ [0], (headerText res).length +
        res.bodyLen)) := by
  obtain ⟨buffer, hb⟩ := hm ((headerText res).length + res.bodyLen + 1)
  have hsized := malloc.sized _ _ hb
  have hparts : ∀ text ∈ formats res, text.length ≤ INT_MAX := by
    intro text htext
    have hle := (List.sublist_flatten_of_mem htext).length_le
    rw [formats_eq] at hle
    omega
  obtain ⟨rest, hrest, hwrite⟩ := appendFormats_writes libc [] buffer (formats res)
    (by rw [hsized]; exact (Nat.zero_add _).symm)
    hfits (by rw [formats_eq]; omega) hparts
  rw [formats_eq, List.nil_append, List.nil_append, List.length_nil] at hwrite
  rw [formats_eq] at hrest
  obtain ⟨c, hcopy⟩ := copyBody_writes hbody (headerText res)
    (show rest.length = res.bodyLen + 1 by omega)
  have hend : storeAt (headerText res ++ bodyBytes res ++ [c])
    ((headerText res).length + res.bodyLen) [0] =
      some (headerText res ++ bodyBytes res ++ [0]) := by
    have hstore : storeAt (headerText res ++ bodyBytes res ++ [c])
      (headerText res ++ bodyBytes res).length [0] = _ :=
      Buffer.storeAt_exact (Nat.le_refl 1)
    rw [List.length_append, bodyBytes_length hbody] at hstore
    simpa using hstore
  unfold httpResponseBuild
  rw [headerLen_eq, if_neg (by omega), hb]
  simp only [hwrite, Option.bind_eq_bind, Option.bind_some, hcopy, hend]

/-! ## the builders agree -/

theorem unbroken_append {a b : Bytes} (ha : Unbroken a) (hb : Unbroken b) : Unbroken (a ++ b) :=
  List.forall_mem_append.mpr ⟨ha, hb⟩

/-- the test of a text that is written out -/
theorem unbroken_of_all {line : Bytes} (h : (line.all fun c => c != 13 && c != 10) = true) :
    Unbroken line := by
  intro c hc
  have hall := List.all_eq_true.1 h c hc
  rw [Bool.and_eq_true, bne_iff_ne, bne_iff_ne] at hall
  exact hall

theorem unbroken_digits (n : Nat) : Unbroken (Decimal.digits n) := by
  intro c hc
  have hdigit := (Decimal.isDigit_iff c).mp (Decimal.digits_isDigit n c hc)
  constructor
  · rintro rfl
    exact absurd hdigit.1 (by decide)
  · rintro rfl
    exact absurd hdigit.1 (by decide)

theorem unbroken_status (status : Status) : Unbroken (statusLine status) := by
  have hreason : Unbroken (httpStatusToString status) :=
    unbroken_of_all (by cases status <;> decide)
  have hversion : Unbroken (ascii "HTTP/1.1 ") := unbroken_of_all (by decide)
  have hspace : Unbroken (ascii " ") := unbroken_of_all (by decide)
  exact unbroken_append (unbroken_append (unbroken_append hversion (unbroken_digits _))
    hspace) hreason

/-- a content type without a line break is the only thing the lines need -/
theorem unbroken_fields (h : Unbroken (resolveContentType res)) :
    ∀ field ∈ fields res, Unbroken (fieldLine field) := by
  have hcolon : Unbroken (ascii ": ") := unbroken_of_all (by decide)
  have hlengthName : Unbroken (ascii "Content-Length") := unbroken_of_all (by decide)
  have htypeName : Unbroken (ascii "Content-Type") := unbroken_of_all (by decide)
  have hlength : Unbroken (fieldLine (ascii "Content-Length", Decimal.digits res.bodyLen)) :=
    unbroken_append (unbroken_append hlengthName hcolon) (unbroken_digits _)
  have htype : Unbroken (fieldLine (ascii "Content-Type", resolveContentType res)) :=
    unbroken_append (unbroken_append htypeName hcolon) h
  have hclose : Unbroken (fieldLine (ascii "Connection", ascii "close")) :=
    unbroken_of_all (by decide)
  have hbearer : Unbroken (fieldLine (ascii "WWW-Authenticate", ascii "Bearer")) :=
    unbroken_of_all (by decide)
  have hstore : Unbroken (fieldLine (ascii "Cache-Control", ascii "no-store")) :=
    unbroken_of_all (by decide)
  intro field hfield
  unfold fields at hfield
  cases res.bearerChallenge <;> cases res.noStore <;> simp at hfield <;> grind

/-- a status line and fields, each ended by CRLF, and an empty line; one of the fields is the length
of the body -/
structure WellFormed (res : Response) (header : Bytes) : Prop where
  text : header = linesText (statusLine res.status :: (fields res).map fieldLine)
  contentLength : (fields res).filter (fun field => field.1 == ascii "Content-Length") =
    [(ascii "Content-Length", Decimal.digits res.bodyLen)]
  lines : Unbroken (resolveContentType res) →
    ∀ line ∈ statusLine res.status :: (fields res).map fieldLine, line ≠ [] ∧ Unbroken line

theorem wellFormed_headerText (res : Response) : WellFormed res (headerText res) where
  text := rfl
  contentLength := by
    unfold fields
    cases res.bearerChallenge <;> cases res.noStore <;> rfl
  lines := by
    intro h line hline
    rcases List.mem_cons.mp hline with rfl | hline
    · have hversion : ascii "HTTP/1.1 " ≠ [] := by decide
      refine ⟨?_, unbroken_status _⟩
      exact List.append_ne_nil_of_left_ne_nil (List.append_ne_nil_of_left_ne_nil
        (List.append_ne_nil_of_left_ne_nil hversion _) _) _
    · obtain ⟨field, hfield, rfl⟩ := List.mem_map.mp hline
      have hcolon : ascii ": " ≠ [] := by decide
      refine ⟨?_, unbroken_fields h field hfield⟩
      exact List.append_ne_nil_of_left_ne_nil (List.append_ne_nil_of_right_ne_nil _ hcolon) _

/-- where there is memory, one builder writes a header of the length it returns, the other the same
header and the body behind it -/
def BuildersAgree (res : Response) : Prop :=
  ∀ (libc : Libc) (malloc : Malloc), (∀ size, ∃ buffer, malloc.run size = some buffer) → ∃ header,
    httpResponseBuildHeader libc malloc res = some (.ok (header ++ [0], header.length)) ∧
    httpResponseBuild libc malloc res =
      some (.ok (header ++ bodyBytes res ++ [0], header.length + res.bodyLen)) ∧
    WellFormed res header

theorem headerText_length (res : Response) :
    (headerText res).length = (resolveContentType res).length +
    (headerText { res with contentType := some [] }).length := by
  rw [← headerLen_eq, ← headerLen_eq]
  unfold headerLen
  show _ = _ + ((authenticationHeaders res).length + versionStr.length + 5 +
    (httpStatusToString res.status).length + 2 +
    16 + resolveContentLength res.bodyLen + 2 + 14 + 0 + 2 + 19 + 2)
  omega

/-- a header that is too long for `snprintf` is not written: the memory is returned as it was -/
theorem not_agree_of_long (hfits : (headerText res).length + 1 ≤ SIZE_MAX)
    (hlong : INT_MAX < (headerText res).length) :
    ¬ BuildersAgree res := by
  intro h
  obtain ⟨header, hheader, -, hwell⟩ := h ⟨id, fun _ => rfl⟩ .zeroed (fun size => ⟨_, rfl⟩)
  have hzero : httpResponseBuildHeader ⟨id, fun _ => rfl⟩ .zeroed res =
      some (.ok (List.replicate ((headerText res).length + 1) 0, (headerText res).length)) := by
    unfold httpResponseBuildHeader
    have hfail : snprintf ⟨id, fun _ => rfl⟩ INT_MAX
      (List.replicate ((headerText res).length + 1) 0) 0
        ((headerText res).length + 1) (headerText res) =
          some (-1, List.replicate ((headerText res).length + 1) 0) := by
      unfold snprintf Bytes.slice
      rw [if_pos hlong, if_pos (by rw [List.length_replicate]; omega), Nat.zero_add]
      simp
    rw [headerLen_eq, if_neg (by omega), formats_eq]
    simp only [Malloc.zeroed, hfail, Option.bind_eq_bind, Option.bind_some]
  rw [hzero] at hheader
  have hbuffer := (Prod.mk.inj (Except.ok.inj (Option.some.inj hheader))).1
  have hstart : headerText res = 72 :: (headerText res).tail := rfl
  rw [hwell.text, show linesText _ = headerText res from rfl, hstart] at hbuffer
  exact absurd (List.cons.inj hbuffer).1 (by decide)

/-- **For a response whose size fits and whose body is there, the builders agree exactly when the
content type leaves the header within what `snprintf` can return.** -/
theorem builders_agree_iff (res : Response)
    (hbody : res.bodyLen = 0 ∨ ∃ body, res.body = some body ∧ res.bodyLen ≤ body.length)
    (hfits : (headerText res).length + res.bodyLen + 1 ≤ SIZE_MAX) :
    BuildersAgree res ↔
      (resolveContentType res).length + (headerText { res with contentType := some [] }).length ≤
      INT_MAX := by
  rw [← headerText_length]
  constructor
  · intro h
    by_contra hlong
    exact not_agree_of_long (by omega) (by omega) h
  · intro hmax libc malloc hm
    exact ⟨headerText res, httpResponseBuildHeader_writes hm (by omega) hmax,
      httpResponseBuild_writes hm hbody hfits hmax,
      wellFormed_headerText res⟩

end

theorem builders_agree_sample :
    BuildersAgree ⟨.created, some (ascii "[]"), 2, true, true, some (ascii "application/json")⟩ ↔
      (ascii "application/json").length +
        (headerText ⟨.created, some (ascii "[]"), 2, true, true, some []⟩).length ≤ INT_MAX :=
  builders_agree_iff _ (Or.inr ⟨_, rfl, by decide⟩) (by
    rw [← headerLen_eq]
    unfold headerLen resolveContentLength
    rw [digitsLoop, dif_neg (by decide)]
    decide)

/-- a response without a body whose content type has 2^31 letters -/
def hugeType : Response := ⟨.ok, none, 0, false, false, some (List.replicate (2^31) 0x61)⟩

theorem hugeType_frame : (headerText { hugeType with contentType := some [] }).length = 73 := by
  rw [← headerLen_eq]
  unfold headerLen resolveContentLength
  rw [digitsLoop, dif_neg (by decide)]
  rfl

theorem hugeType_length : (resolveContentType hugeType).length = 2^31 := List.length_replicate

/-- `snprintf` fails, and what the buffer holds need not be the header -/
theorem builders_differ : ¬ ∀ res : Response,
    (res.bodyLen = 0 ∨ ∃ body, res.body = some body ∧ res.bodyLen ≤ body.length) →
      (headerText res).length + res.bodyLen + 1 ≤ SIZE_MAX → BuildersAgree res := by
  intro h
  have hbody : hugeType.bodyLen = 0 := rfl
  have hlength : (headerText hugeType).length = 2^31 + 73 := by
    rw [headerText_length, hugeType_length, hugeType_frame]
  refine not_agree_of_long ?_ ?_ (h hugeType (Or.inl hbody) ?_)
  · rw [hlength]
    decide
  · rw [hlength]
    decide
  · rw [hlength, hbody]
    decide

end Http

import CtfServer.App.Auth
import Mathlib.Data.List.Perm.Basic

/-!
# A token, issued and verified

`auth_token_issue` and `auth_token_verify` with their output parameter and with arithmetic in
`int64_t`: `none` is an overflow.  What libsodium, jansson and libjwt rely on between each other is
`AuthLib.Decodes`.

* `authTokenIssueOut_eq`, `authTokenVerifyOut_eq`   no time overflows, and a refusal clears the
                                                    output;
* `readClaims_issued`    the window of an issued token;
* `token_issue_verify`   both functions together.
-/

set_option linter.unusedVariables false
set_option linter.unusedSimpArgs false

namespace App

/-! ## arithmetic and outputs -/

/-- a result of type `int64_t` -/
def int64 (v : Int) : Option Int := if -2^63 ≤ v ∧ v < 2^63 then some v else none

theorem int64_of_range {v : Int} (h : -2^63 ≤ v ∧ v < 2^63) : int64 v = some v := if_pos h

/-- `(auth_claims_t){0}` -/
def AuthClaims.zero : AuthClaims := ⟨[], [], 0, 0, 0⟩

/-- `auth_token_issue`: the result, and the token in the output -/
def authTokenIssueOut (lib : AuthLib) (alloc : Alloc → Bool) (config : AuthConfig)
    (userId sessionId : Bytes) (now : Int) : Option (Except AuthFailure Bytes) :=
  if ¬ validConfig config ∨ ¬ validId userId ∨ ¬ validId sessionId ∨ now < 0 then
    some (.error .invalid)
  else do
    let latest ← int64 (AUTH_TIME_MAX - config.ttl)
    if now > latest then some (.error .invalid)
    else do
      let latest ← int64 (LONG_MAX - config.ttl)
      if now > latest then some (.error .invalid)
      else if alloc .jwt = false then some (.error .error)
      else do
        let expiry ← int64 (now + config.ttl)
        match lib.jwtEncode config.key [(ascii "iss", .string config.issuer),
          (ascii "aud", .string config.audience),
            (ascii "sub", .string userId), (ascii "jti", .string sessionId),
            (ascii "iat", .integer now),
            (ascii "nbf", .integer now), (ascii "exp", .integer expiry)] with
        | none => some (.error .error)
        | some token => some (if token.length > AUTH_TOKEN_MAX then .error .error else .ok token)

/-- the comparisons of the parsed times, in their order -/
def timesHold (config : AuthConfig) (now : Int) (parsed : AuthClaims) : Option Bool :=
  if parsed.notBefore < parsed.issuedAt ∨ parsed.notBefore ≥ parsed.expiresAt then some false
  else do
    let lifetime ← int64 (parsed.expiresAt - parsed.issuedAt)
    if lifetime > config.ttl then some false
    else do
      let latest ← int64 (now + AUTH_CLOCK_SKEW)
      if parsed.issuedAt > latest ∨ parsed.notBefore > latest then some false
      else do
        let stop ← int64 (parsed.expiresAt + AUTH_CLOCK_SKEW)
        some (decide (now < stop))

/-- the claims of the payload and their test; `out` is written when all hold -/
def readClaimsOut (config : AuthConfig) (now : Int) (claims : List (Bytes × JsonValue))
    (out : AuthClaims) :
    Option (Option AuthFailure × AuthClaims) :=
  if ¬ jsonTextEquals (jsonGet claims (ascii "iss")) config.issuer ∨
      ¬ jsonTextEquals (jsonGet claims (ascii "aud")) config.audience then some (some .invalid, out)
  else
    match readIdClaim claims (ascii "sub"), readIdClaim claims (ascii "jti"), readTimeClaim claims
      (ascii "iat"),
      readTimeClaim claims (ascii "nbf"), readTimeClaim claims (ascii "exp") with
    | some userId, some sessionId, some issuedAt, some notBefore, some expiresAt => do
      let parsed : AuthClaims := ⟨userId, sessionId, issuedAt, notBefore, expiresAt⟩
      let hold ← timesHold config now parsed
      some (if hold then (none, parsed) else (some .invalid, out))
    | _, _, _, _, _ => some (some .invalid, out)

/-- `auth_token_verify`: the result (`none` for `AUTH_OK`), and what it leaves in the output -/
def authTokenVerifyOut (lib : AuthLib) (alloc : Alloc → Bool) (config : AuthConfig)
    (token : Bytes) (now : Int) (out : AuthClaims) : Option (Option AuthFailure × AuthClaims) :=
  let out := AuthClaims.zero
  if ¬ validConfig config ∨ token = [] ∨ token.length > AUTH_TOKEN_MAX ∨
    token.contains 0 ∨ now < 0 ∨
      now > AUTH_TIME_MAX then some (some .invalid, out)
  else
    match splitToken token with
    | none => some (some .invalid, out)
    | some (first, second, third) =>
      match decodeObject lib (alloc .header) first with
      | .error e => some (some e, out)
      | .ok header =>
        if ¬ acceptedHeader header then some (some .invalid, out)
        else
          match decodeObject lib (alloc .claims) second with
          | .error e => some (some e, out)
          | .ok claims =>
            if (decodeBase64 lib 32 third).map List.length ≠ some 32 then some (some .invalid, out)
            else if alloc .jwt = false then some (some .error, out)
            else if lib.jwtDecode config.key token ≠ some true then some (some .invalid, out)
            else readClaimsOut config now claims out

/-! ## no overflow -/

theorem validConfig_ttl {config : AuthConfig} (h : validConfig config = true) :
    1 ≤ config.ttl ∧ config.ttl ≤ AUTH_TTL_MAX := by
  unfold validConfig at h
  simp only [Bool.and_eq_true, decide_eq_true_eq] at h
  exact ⟨h.1.2, h.2⟩

theorem authTokenIssueOut_eq (lib : AuthLib) (alloc : Alloc → Bool) (config : AuthConfig)
    (userId sessionId : Bytes) (now : Int) :
    authTokenIssueOut lib alloc config userId sessionId now =
      some (authTokenIssue lib alloc config userId sessionId now) := by
  unfold authTokenIssueOut authTokenIssue issuedGrants
  by_cases hvalid : ¬ validConfig config ∨ ¬ validId userId ∨ ¬ validId sessionId ∨ now < 0
  · rw [if_pos hvalid, if_pos]
    rcases hvalid with h | h | h | h
    · exact Or.inl h
    · exact Or.inr (Or.inl h)
    · exact Or.inr (Or.inr (Or.inl h))
    · exact Or.inr (Or.inr (Or.inr (Or.inl h)))
  · rw [if_neg hvalid]
    simp only [not_or, not_not] at hvalid
    obtain ⟨hconfig, hu, hs, hnow⟩ := hvalid
    have httl := validConfig_ttl hconfig
    unfold AUTH_TTL_MAX at httl
    rw [int64_of_range (by unfold AUTH_TIME_MAX; omega), int64_of_range (by unfold LONG_MAX; omega)]
    simp only [Option.bind_eq_bind, Option.bind_some, hconfig, hu, hs, hnow,
      not_true_eq_false, false_or]
    by_cases h1 : now > AUTH_TIME_MAX - config.ttl
    · rw [if_pos h1, if_pos (Or.inl h1)]
    by_cases h2 : now > LONG_MAX - config.ttl
    · rw [if_neg h1, if_pos h2, if_pos (Or.inr h2)]
    have h3 : ¬ (now > AUTH_TIME_MAX - config.ttl ∨ now > LONG_MAX - config.ttl) :=
      fun h => h.elim h1 h2
    rw [if_neg h1, if_neg h2, if_neg h3]
    by_cases halloc : alloc .jwt = false
    · rw [if_pos halloc, if_pos halloc]
    · rw [if_neg halloc, if_neg halloc, int64_of_range (by unfold AUTH_TIME_MAX at h1; omega),
        Option.bind_some]
      cases lib.jwtEncode config.key _ <;> rfl

/-- the comparisons, as `authTokenVerify` makes them -/
theorem timesHold_eq {config : AuthConfig} {now : Int} {parsed : AuthClaims}
    (hnow : 0 ≤ now ∧ now ≤ AUTH_TIME_MAX)
    (hi : 0 ≤ parsed.issuedAt ∧ parsed.issuedAt ≤ AUTH_TIME_MAX)
    (he : 0 ≤ parsed.expiresAt ∧ parsed.expiresAt ≤ AUTH_TIME_MAX) :
    timesHold config now parsed = some (decide (¬ (parsed.notBefore < parsed.issuedAt ∨
      parsed.notBefore ≥ parsed.expiresAt ∨ parsed.expiresAt - parsed.issuedAt > config.ttl ∨
        parsed.issuedAt > now + AUTH_CLOCK_SKEW ∨ parsed.notBefore > now + AUTH_CLOCK_SKEW ∨
          now ≥ parsed.expiresAt + AUTH_CLOCK_SKEW))) := by
  unfold AUTH_TIME_MAX at hnow hi he
  unfold timesHold AUTH_CLOCK_SKEW
  rw [int64_of_range (by omega), int64_of_range (by omega), int64_of_range (by omega)]
  simp only [Option.bind_eq_bind, Option.bind_some]
  split
  · next h => rw [decide_eq_false (by omega)]
  split
  · next h => rw [decide_eq_false (by omega)]
  split
  · next h => rw [decide_eq_false (by omega)]
  · next h1 h2 h3 => exact congrArg some (decide_eq_decide.mpr (by omega))

theorem readClaimsOut_eq {config : AuthConfig} {now : Int} (hnow : 0 ≤ now ∧ now ≤ AUTH_TIME_MAX)
    (claims : List (Bytes × JsonValue)) (out : AuthClaims) :
    readClaimsOut config now claims out = some (match readClaims config now claims with
      | none => (some .invalid, out)
      | some parsed => (none, parsed)) := by
  unfold readClaimsOut readClaims
  split
  · exact rfl
  cases hu : readIdClaim claims (ascii "sub") with
  | none => exact rfl
  | some userId =>
    cases hs : readIdClaim claims (ascii "jti") with
    | none => exact rfl
    | some sessionId =>
      cases hi : readTimeClaim claims (ascii "iat") with
      | none => exact rfl
      | some issuedAt =>
        cases hn : readTimeClaim claims (ascii "nbf") with
        | none => exact rfl
        | some notBefore =>
          cases he : readTimeClaim claims (ascii "exp") with
          | none => exact rfl
          | some expiresAt =>
            simp only [Option.bind_eq_bind]
            rw [timesHold_eq hnow (readTimeClaim_range hi) (readTimeClaim_range he),
              Option.bind_some]
            by_cases h : notBefore < issuedAt ∨ notBefore ≥ expiresAt ∨
              expiresAt - issuedAt > config.ttl ∨
                issuedAt > now + AUTH_CLOCK_SKEW ∨ notBefore > now + AUTH_CLOCK_SKEW ∨
                now ≥ expiresAt + AUTH_CLOCK_SKEW
            · rw [if_pos h, decide_eq_false (not_not.mpr h)]
              exact rfl
            · rw [if_neg h, decide_eq_true h]
              exact rfl

/-- no time overflows, and a refusal leaves the output cleared -/
theorem authTokenVerifyOut_eq (lib : AuthLib) (alloc : Alloc → Bool) (config : AuthConfig)
    (token : Bytes) (now : Int) (out : AuthClaims) :
    authTokenVerifyOut lib alloc config token now out =
      some (match authTokenVerify lib alloc config token now with
        | .error e => (some e, .zero)
        | .ok claims => (none, claims)) := by
  unfold authTokenVerifyOut authTokenVerify
  by_cases hbad : ¬ validConfig config ∨ token = [] ∨ token.length > AUTH_TOKEN_MAX ∨
    token.contains 0 ∨ now < 0 ∨
      now > AUTH_TIME_MAX
  · rw [if_pos hbad, if_pos hbad]
  rw [if_neg hbad, if_neg hbad]
  simp only [not_or, not_lt] at hbad
  have hnow : 0 ≤ now ∧ now ≤ AUTH_TIME_MAX := ⟨hbad.2.2.2.2.1, hbad.2.2.2.2.2⟩
  cases splitToken token with
  | none => exact rfl
  | some parts =>
    obtain ⟨first, second, third⟩ := parts
    simp only
    cases decodeObject lib (alloc .header) first with
    | error e => exact rfl
    | ok header =>
      simp only
      split
      · exact rfl
      cases decodeObject lib (alloc .claims) second with
      | error e => exact rfl
      | ok claims =>
        simp only
        split
        · exact rfl
        split
        · exact rfl
        split
        · exact rfl
        rw [readClaimsOut_eq hnow]
        cases readClaims config now claims <;> rfl

/-! ## what the libraries decode -/

/-- the header that libjwt writes -/
def issuedHeader : List (Bytes × JsonValue) :=
  [(ascii "alg", .string (ascii "HS256")), (ascii "typ", .string (ascii "JWT"))]

/-- a token in compact serialization -/
def compact (head body signature : Bytes) : Bytes := head ++ DOT :: (body ++ DOT :: signature)

/-- the libraries decode what they encode: `encode64` is `sodium_bin2base64`, `dump` is
`json_dumps`, `hmac` is HMAC-SHA256 of a key and a message -/
structure AuthLib.Decodes (lib : AuthLib) (encode64 : Bytes → Option Bytes)
    (dump : List (Bytes × JsonValue) → Option Bytes) (hmac : Bytes → Bytes → Bytes) : Prop where
  base64 : ∀ decoded text, encode64 decoded = some text → lib.base64 text = some decoded
  /-- the alphabet has no dot and no NUL, and a text is no shorter than what it encodes -/
  alphabet : ∀ decoded text, encode64 decoded = some text →
    DOT ∉ text ∧ (0 : UInt8) ∉ text ∧ decoded.length ≤ text.length
  json : ∀ members text, dump members = some text →
    text ≠ [] ∧ ∃ loaded, lib.jsonObject text = some loaded ∧ loaded.Perm members
  macLength : ∀ key message, (hmac key message).length = 32
  jwtEncode : ∀ key grants token, lib.jwtEncode key grants = some token →
    ∃ header headerText grantsText head body signature, header.Perm issuedHeader ∧
      dump header = some headerText ∧ encode64 headerText = some head ∧
      dump grants = some grantsText ∧ encode64 grantsText = some body ∧
      encode64 (hmac key (head ++ DOT :: body)) = some signature ∧
      token = compact head body signature
  /-- with a header of HS256, a token is accepted exactly when its third part is the HMAC of the
  others -/
  jwtDecode : ∀ key head body signature headerText header bodyText claims, DOT ∉ head → DOT ∉ body →
    DOT ∉ signature → lib.base64 head = some headerText → lib.jsonObject headerText = some header →
    lib.base64 body = some bodyText → lib.jsonObject bodyText = some claims →
    jsonGet header (ascii "alg") = some (.string (ascii "HS256")) →
    (lib.jwtDecode key (compact head body signature) = some true ↔
      lib.base64 signature = some (hmac key (head ++ DOT :: body)))

theorem jsonGet_mem {members : List (Bytes × JsonValue)} (hkeys : (members.map Prod.fst).Nodup)
    {name : Bytes}
    {value : JsonValue} (h : (name, value) ∈ members) : jsonGet members name = some value := by
  obtain ⟨front, back, rfl⟩ := List.append_of_mem h
  refine List.lookup_eq_some_iff.mpr ⟨front, back, rfl, fun p hp => ?_⟩
  rw [bne_iff_ne]
  rintro rfl
  rw [List.map_append, List.map_cons, List.nodup_append] at hkeys
  exact hkeys.2.2 _ (List.mem_map_of_mem hp) _ List.mem_cons_self rfl

theorem jsonGet_perm {loaded members : List (Bytes × JsonValue)} (h : loaded.Perm members)
    (hkeys : (members.map Prod.fst).Nodup) {name : Bytes} {value : JsonValue}
    (hmem : (name, value) ∈ members) :
    jsonGet loaded name = some value :=
  jsonGet_mem ((h.map Prod.fst).nodup_iff.mpr hkeys) (h.mem_iff.mpr hmem)

/-! ## the window of an issued token -/

/-- the claims that stand in an issued token -/
def issuedClaims (config : AuthConfig) (userId sessionId : Bytes) (issuedAt : Int) : AuthClaims :=
  ⟨userId, sessionId, issuedAt, issuedAt, issuedAt + config.ttl⟩

theorem readIdClaim_of {claims : List (Bytes × JsonValue)} {name id : Bytes}
    (h : jsonGet claims name = some (.string id)) (hid : validId id = true) :
    readIdClaim claims name = some id := by
  unfold readIdClaim
  rw [h]
  exact if_pos hid

theorem readTimeClaim_of {claims : List (Bytes × JsonValue)} {name : Bytes} {n : Int}
    (h : jsonGet claims name = some (.integer n)) (hn : 0 ≤ n ∧ n ≤ AUTH_TIME_MAX) :
    readTimeClaim claims name = some n := by
  unfold readTimeClaim
  rw [h]
  exact if_neg (by omega)

/-- what a successful issue has tested -/
structure Issuable (config : AuthConfig) (userId sessionId : Bytes) (issuedAt : Int) : Prop where
  valid : validConfig config = true
  userId : validId userId = true
  sessionId : validId sessionId = true
  issued : 0 ≤ issuedAt
  expires : issuedAt + config.ttl ≤ AUTH_TIME_MAX

theorem readClaims_issued {config : AuthConfig} {userId sessionId : Bytes} {issuedAt now : Int}
    (h : Issuable config userId sessionId issuedAt) {claims : List (Bytes × JsonValue)}
    (hclaims : claims.Perm (issuedGrants config userId sessionId issuedAt)) :
    readClaims config now claims =
      if issuedAt - AUTH_CLOCK_SKEW ≤ now ∧ now < issuedAt + config.ttl + AUTH_CLOCK_SKEW then
        some (issuedClaims config userId sessionId issuedAt)
      else none := by
  have hkeys : ((issuedGrants config userId sessionId issuedAt).map Prod.fst).Nodup := by
    show [ascii "iss", ascii "aud", ascii "sub", ascii "jti", ascii "iat", ascii "nbf",
      ascii "exp"].Nodup
    decide +kernel
  have hget : ∀ name value, (name, value) ∈ issuedGrants config userId sessionId issuedAt →
      jsonGet claims name = some value := fun _ _ => jsonGet_perm hclaims hkeys
  have httl := validConfig_ttl h.valid
  have hi := h.issued
  have he := h.expires
  have hiss : jsonGet claims (ascii "iss") = some (.string config.issuer) :=
    hget _ _ (by simp [issuedGrants])
  have haud : jsonGet claims (ascii "aud") = some (.string config.audience) :=
    hget _ _ (by simp [issuedGrants])
  have hsub := readIdClaim_of
    (hget (ascii "sub") (.string userId) (by simp [issuedGrants])) h.userId
  have hjti := readIdClaim_of
    (hget (ascii "jti") (.string sessionId) (by simp [issuedGrants])) h.sessionId
  have hiat := readTimeClaim_of (hget (ascii "iat") (.integer issuedAt) (by simp [issuedGrants]))
    ⟨hi, by omega⟩
  have hnbf := readTimeClaim_of (hget (ascii "nbf") (.integer issuedAt) (by simp [issuedGrants]))
    ⟨hi, by omega⟩
  have hexp := readTimeClaim_of (hget (ascii "exp") (.integer (issuedAt + config.ttl))
    (by simp [issuedGrants])) ⟨by omega, he⟩
  unfold readClaims
  rw [hiss, haud, hsub, hjti, hiat, hnbf, hexp, if_neg (by simp [jsonTextEquals])]
  simp only
  by_cases hwindow : issuedAt - AUTH_CLOCK_SKEW ≤ now ∧ now < issuedAt + config.ttl +
    AUTH_CLOCK_SKEW
  · rw [if_pos hwindow, if_neg (by omega)]
    exact rfl
  · rw [if_neg hwindow, if_pos (by omega)]

theorem issuedHeader_accepted {header : List (Bytes × JsonValue)} (h : header.Perm issuedHeader) :
    acceptedHeader header = true ∧ jsonGet header (ascii "alg") =
    some (.string (ascii "HS256")) := by
  have halg : jsonGet header (ascii "alg") = some (.string (ascii "HS256")) :=
    jsonGet_perm h (by decide +kernel) (by simp [issuedHeader])
  refine ⟨?_, halg⟩
  unfold acceptedHeader
  rw [halg, Bool.and_eq_true, List.all_eq_true]
  refine ⟨by decide +kernel, fun p hp => ?_⟩
  have hmem := h.mem_iff.mp hp
  simp only [issuedHeader, List.mem_cons, List.not_mem_nil, or_false] at hmem
  rcases hmem with rfl | rfl <;> decide +kernel

theorem splitToken_compact {head body signature : Bytes} (h1 : DOT ∉ head) (h2 : DOT ∉ body)
    (h3 : DOT ∉ signature) :
    splitToken (compact head body signature) = if signature = [] then none else
      some (head, body, signature) := by
  have hparts : ∀ l ∈ [head, body, signature], DOT ∉ l := by
    simp only [List.forall_mem_cons]
    exact ⟨h1, h2, h3, nofun⟩
  have hsplit := List.splitOn_intercalate DOT hparts (List.cons_ne_nil _ _)
  have hcompact : compact head body signature = [DOT].intercalate [head, body, signature] := by
    simp [compact, List.intercalate]
  unfold splitToken
  rw [hcompact, hsplit]

theorem decodeObject_of {lib : AuthLib} {text decoded : Bytes} {members : List (Bytes × JsonValue)}
    (h64 : lib.base64 text = some decoded) (hlen : decoded.length ≤ text.length)
    (hmax : text.length ≤ AUTH_TOKEN_MAX)
    (hne : decoded ≠ []) (h : lib.jsonObject decoded = some members) :
    decodeObject lib true text = .ok members := by
  have hpos := List.length_pos_iff.mpr hne
  unfold decodeObject decodeBase64
  rw [if_neg (List.length_pos_iff.mp (by omega)), h64, Option.filter_some,
    if_pos (by simpa using Nat.le_trans hlen hmax)]
  simp only [h, if_neg (by decide : ¬ true = false)]

/-- a token that was issued passes every test but the window of its times -/
theorem authTokenVerify_issued {lib : AuthLib} {encode64 : Bytes → Option Bytes}
    {dump : List (Bytes × JsonValue) → Option Bytes} {hmac : Bytes → Bytes → Bytes}
    (hlib : lib.Decodes encode64 dump hmac)
    {config : AuthConfig} {userId sessionId token : Bytes} {issuedAt now : Int}
    (h : authTokenIssue lib (fun _ => true) config userId sessionId issuedAt = .ok token)
    (hnow : 0 ≤ now ∧ now ≤ AUTH_TIME_MAX) :
    authTokenVerify lib (fun _ => true) config token now =
      if issuedAt - AUTH_CLOCK_SKEW ≤ now ∧ now < issuedAt + config.ttl + AUTH_CLOCK_SKEW then
        .ok (issuedClaims config userId sessionId issuedAt)
      else .error .invalid := by
  unfold authTokenIssue at h
  split at h
  · cases h
  next hvalid =>
  simp only [not_or, not_not, not_lt, gt_iff_lt] at hvalid
  obtain ⟨hconfig, hu, hs, hi, he, -⟩ := hvalid
  have hissuable : Issuable config userId sessionId issuedAt := ⟨hconfig, hu, hs, hi, by omega⟩
  rw [if_neg (by decide)] at h
  split at h
  · cases h
  next encoded hencoded =>
  split at h
  · cases h
  next hmax =>
  obtain rfl : encoded = token := by cases h; rfl
  obtain ⟨header, headerText, grantsText, head, body, signature, hheader, hd1, he1, hd2, he2,
    he3, htoken⟩ :=
    hlib.jwtEncode _ _ _ hencoded
  obtain ⟨hne1, loaded1, hload1, hperm1⟩ := hlib.json _ _ hd1
  obtain ⟨hne2, loaded2, hload2, hperm2⟩ := hlib.json _ _ hd2
  obtain ⟨hdot1, hnul1, hlen1⟩ := hlib.alphabet _ _ he1
  obtain ⟨hdot2, hnul2, hlen2⟩ := hlib.alphabet _ _ he2
  obtain ⟨hdot3, hnul3, hlen3⟩ := hlib.alphabet _ _ he3
  have hmac := hlib.macLength config.key (head ++ DOT :: body)
  have hsignature : signature ≠ [] := List.length_pos_iff.mp (by omega)
  have hsize : head.length + body.length + signature.length + 2 ≤ AUTH_TOKEN_MAX := by
    rw [htoken] at hmax
    simp only [compact, List.length_append, List.length_cons] at hmax
    omega
  have hnul : encoded.contains 0 = false := by
    rw [htoken, List.contains_eq_mem, decide_eq_false]
    simp only [compact, List.mem_append, List.mem_cons, not_or]
    exact ⟨hnul1, by decide, hnul2, by decide, hnul3⟩
  obtain ⟨haccepted, halg⟩ := issuedHeader_accepted (hperm1.trans hheader)
  unfold authTokenVerify
  rw [if_neg (by
    simp only [hconfig, hnul, not_true_eq_false, false_or, Bool.false_eq_true, not_or,
      not_lt, gt_iff_lt]
    refine ⟨?_, by omega, hnow.1, hnow.2⟩
    rw [htoken]
    simp [compact])]
  have hjwt : lib.jwtDecode config.key encoded = some true := by
    rw [htoken]
    exact (hlib.jwtDecode _ _ _ _ _ _ _ _ hdot1 hdot2 hdot3 (hlib.base64 _ _ he1) hload1
      (hlib.base64 _ _ he2) hload2
      halg).mpr (hlib.base64 _ _ he3)
  have h64 : (decodeBase64 lib 32 signature).map List.length = some 32 := by
    unfold decodeBase64
    rw [hlib.base64 _ _ he3, Option.filter_some, if_pos (by simpa using Nat.le_of_eq hmac),
      Option.map_some, hmac]
  have hsplit := splitToken_compact hdot1 hdot2 hdot3
  rw [← htoken, if_neg hsignature] at hsplit
  rw [hsplit]
  simp only [decodeObject_of (hlib.base64 _ _ he1) hlen1 (by omega) hne1 hload1,
    decodeObject_of (hlib.base64 _ _ he2) hlen2 (by omega) hne2 hload2, haccepted, h64, hjwt,
    readClaims_issued hissuable (hperm2.trans (.refl _)), not_true_eq_false, ne_eq, if_false,
    Bool.true_eq_false]
  by_cases hwindow : issuedAt - AUTH_CLOCK_SKEW ≤ now ∧ now < issuedAt + config.ttl +
    AUTH_CLOCK_SKEW
  · rw [if_pos hwindow, if_pos hwindow]
  · rw [if_neg hwindow, if_neg hwindow]

/-- **An issued token is accepted with its own claims exactly in its window, skew included.  What is
accepted at all has ids, ordered times, no more than the lifetime of the configuration, and a clock
in its window.  No time overflows, and every other result leaves the output cleared.** -/
theorem token_issue_verify {lib : AuthLib} {encode64 : Bytes → Option Bytes}
    {dump : List (Bytes × JsonValue) → Option Bytes} {hmac : Bytes → Bytes → Bytes}
    (hlib : lib.Decodes encode64 dump hmac) :
    (∀ config userId sessionId issuedAt,
      ∃ issued, authTokenIssueOut lib (fun _ => true) config userId sessionId issuedAt =
      some issued ∧
        ∀ token, issued = .ok token → ∀ now out, 0 ≤ now → now ≤ 253402300799 →
          authTokenVerifyOut lib (fun _ => true) config token now out =
            some (if issuedAt - 30 ≤ now ∧ now < issuedAt + config.ttl + 30 then
                (none, ⟨userId, sessionId, issuedAt, issuedAt, issuedAt + config.ttl⟩)
              else (some .invalid, .zero))) ∧
    (∀ alloc config token now out,
      ∃ failure claims, authTokenVerifyOut lib alloc config token now out = some (failure, claims) ∧
        (failure ≠ none → claims = .zero) ∧
        (failure = none → validId claims.userId = true ∧ validId claims.sessionId = true ∧
          claims.issuedAt ≤ claims.notBefore ∧ claims.notBefore < claims.expiresAt ∧
          claims.expiresAt - claims.issuedAt ≤ config.ttl ∧ claims.issuedAt ≤ now + 30 ∧
          claims.notBefore ≤ now + 30 ∧ now < claims.expiresAt + 30)) := by
  constructor
  · intro config userId sessionId issuedAt
    refine ⟨_, authTokenIssueOut_eq lib _ config userId sessionId issuedAt, ?_⟩
    intro token h now out h0 hmax
    rw [authTokenVerifyOut_eq, authTokenVerify_issued hlib h ⟨h0, hmax⟩]
    unfold AUTH_CLOCK_SKEW
    by_cases hwindow : issuedAt - 30 ≤ now ∧ now < issuedAt + config.ttl + 30
    · rw [if_pos hwindow, if_pos hwindow]
      exact rfl
    · rw [if_neg hwindow, if_neg hwindow]
  · intro alloc config token now out
    refine ⟨_, _, authTokenVerifyOut_eq lib alloc config token now out, ?_⟩
    cases h : authTokenVerify lib alloc config token now with
    | error e => exact ⟨fun _ => rfl, nofun⟩
    | ok claims =>
      refine ⟨fun hne => absurd rfl hne, fun _ => ?_⟩
      have hacc := authTokenVerify_ok h
      have hstarted := hacc.started
      unfold AUTH_CLOCK_SKEW at hstarted
      exact ⟨hacc.userId, hacc.sessionId, hacc.order.1, hacc.order.2, hacc.ttl,
        Int.le_trans hacc.order.1 hstarted,
        hstarted, hacc.running⟩

/-! ## one token -/

namespace TokenSample

def key : Bytes := (List.range 32).map UInt8.ofNat
def config : AuthConfig := ⟨key, ascii "i", ascii "a", 3600, []⟩
def userId : Bytes := List.replicate 32 0x30
def sessionId : Bytes := List.replicate 32 0x31
def headerText : Bytes := ascii "\x7b\"alg\":\"HS256\",\"typ\":\"JWT\"\x7d"
def grantsText : Bytes :=
  ascii "\x7b\"aud\":\"a\",\"exp\":4600,\"iat\":1000,\"iss\":\"i\",\"jti\":\"" ++ sessionId ++
    ascii "\",\"nbf\":1000,\"sub\":\"" ++ userId ++ ascii "\"\x7d"
def head : Bytes := ascii "eyJhbGciOiJIUzI1NiIsInR5cCI6IkpXVCJ9"
def body : Bytes :=
  ascii "eyJhdWQiOiJhIiwiZXhwIjo0NjAwLCJpYXQiOjEwMDAsImlzcyI6ImkiLCJqdGkiOiIxMTExMTExMTExMTEx" ++
    ascii "MTExMTExMTExMTExMTExMTExMSIsIm5iZiI6MTAwMCwic3ViIjoiMDAwMDAwMDAwMDAwMDAwMDAwMDAwMDAw" ++
    ascii "MDAwMDAwMDAifQ"
def signature : Bytes := ascii "qKao2F34vVP0wENmpCDzmKr6sf527Kvk8o5NGLD6_EA"
def mac : Bytes :=
  [168, 166, 168, 216, 93, 248, 189, 83, 244, 192, 67, 102, 164, 32, 243, 152, 170, 250, 177, 254,
    118, 236, 171, 228,
    242, 142, 77, 24, 176, 250, 252, 64]

/-- the encoders and decoders at the parts of one token -/
def encode64 (decoded : Bytes) : Option Bytes :=
  if decoded = headerText then some head
  else if decoded = grantsText then some body
  else if decoded = mac then some signature
  else none

def decode64 (text : Bytes) : Option Bytes :=
  if text = head then some headerText
  else if text = body then some grantsText
  else if text = signature then some mac
  else none

def grants : List (Bytes × JsonValue) := issuedGrants config userId sessionId 1000

def dump (members : List (Bytes × JsonValue)) : Option Bytes :=
  if members = issuedHeader then some headerText
  else if members = grants then some grantsText
  else none

def load (text : Bytes) : Option (List (Bytes × JsonValue)) :=
  if text = headerText then some issuedHeader
  else if text = grantsText then some grants
  else none

def hmac (_ _ : Bytes) : Bytes := mac

def lib : AuthLib where
  base64 := decode64
  jsonObject := load
  jwtEncode k members := if k = key ∧ members = grants then
    some (compact head body signature) else none
  jwtDecode k token :=
    match splitToken token with
    | some (first, second, third) =>
      if decode64 third = some (hmac k (first ++ DOT :: second)) then some true else none
    | none => none

theorem encode64_some {decoded text : Bytes} (h : encode64 decoded = some text) :
    (decoded = headerText ∧ text = head) ∨ (decoded = grantsText ∧ text = body) ∨
    (decoded = mac ∧ text = signature) := by
  unfold encode64 at h
  split at h
  · next hd => exact Or.inl ⟨hd, (Option.some.inj h).symm⟩
  split at h
  · next hd => exact Or.inr (Or.inl ⟨hd, (Option.some.inj h).symm⟩)
  split at h
  · next hd => exact Or.inr (Or.inr ⟨hd, (Option.some.inj h).symm⟩)
  · cases h

theorem dump_some {members : List (Bytes × JsonValue)} {text : Bytes}
    (h : dump members = some text) :
    (members = issuedHeader ∧ text = headerText) ∨ (members = grants ∧ text = grantsText) := by
  unfold dump at h
  split at h
  · next hd => exact Or.inl ⟨hd, (Option.some.inj h).symm⟩
  split at h
  · next hd => exact Or.inr ⟨hd, (Option.some.inj h).symm⟩
  · cases h

theorem lib_decodes : lib.Decodes encode64 dump hmac where
  base64 decoded text h := by
    rcases encode64_some h with ⟨h1, h2⟩ | ⟨h1, h2⟩ | ⟨h1, h2⟩ <;> (rw [h1, h2]; decide +kernel)
  alphabet decoded text h := by
    rcases encode64_some h with ⟨h1, h2⟩ | ⟨h1, h2⟩ | ⟨h1, h2⟩ <;> (rw [h1, h2]; decide +kernel)
  json members text h := by
    have hheader : lib.jsonObject headerText = some issuedHeader := by decide +kernel
    have hgrants : lib.jsonObject grantsText = some grants := by decide +kernel
    rcases dump_some h with ⟨h1, h2⟩ | ⟨h1, h2⟩
    · rw [h1, h2]
      exact ⟨by decide +kernel, _, hheader, .refl _⟩
    · rw [h1, h2]
      exact ⟨by decide +kernel, grants, hgrants, .refl grants⟩
  macLength _ _ := by
    show mac.length = 32
    decide +kernel
  jwtEncode k members token h := by
    have hheader : dump issuedHeader = some headerText := by decide +kernel
    have hhead : encode64 headerText = some head := by decide +kernel
    have hgrants : dump grants = some grantsText := by decide +kernel
    have hbody : encode64 grantsText = some body := by decide +kernel
    have hsignature : encode64 mac = some signature := by decide +kernel
    simp only [lib] at h
    split at h
    · next hk =>
      rw [hk.2]
      exact ⟨_, _, _, _, _, _, .refl _, hheader, hhead, hgrants, hbody, hsignature,
        (Option.some.inj h).symm⟩
    · cases h
  jwtDecode k first second third _ _ _ _ h1 h2 h3 _ _ _ _ _ := by
    show (match splitToken (compact first second third) with
      | some (first, second, third) =>
        if decode64 third = some (hmac k (first ++ DOT :: second)) then some true else none
      | none => none) = some true ↔ decode64 third = some (hmac k (first ++ DOT :: second))
    rw [splitToken_compact h1 h2 h3]
    by_cases hne : third = []
    · have hnone : decode64 [] = none := by
        unfold decode64
        rw [if_neg (by decide +kernel), if_neg (by decide +kernel), if_neg (by decide +kernel)]
      rw [if_pos hne, hne, hnone]
      simp only [reduceCtorEq]
    · rw [if_neg hne]
      simp

theorem issued : authTokenIssue lib (fun _ => true) config userId sessionId 1000 = .ok
    (compact head body signature) := by
  decide +kernel

end TokenSample

theorem token_issue_verify_sample :
    (∀ config userId sessionId issuedAt,
      ∃ issued, authTokenIssueOut TokenSample.lib (fun _ => true) config userId sessionId issuedAt =
      some issued ∧
        ∀ token, issued = .ok token → ∀ now out, 0 ≤ now → now ≤ 253402300799 →
          authTokenVerifyOut TokenSample.lib (fun _ => true) config token now out =
            some (if issuedAt - 30 ≤ now ∧ now < issuedAt + config.ttl + 30 then
                (none, ⟨userId, sessionId, issuedAt, issuedAt, issuedAt + config.ttl⟩)
              else (some .invalid, .zero))) ∧
      authTokenIssueOut TokenSample.lib (fun _ => true) TokenSample.config TokenSample.userId
        TokenSample.sessionId 1000 =
        some (.ok (compact TokenSample.head TokenSample.body TokenSample.signature)) :=
  ⟨(token_issue_verify TokenSample.lib_decodes).1, by decide +kernel⟩

end App

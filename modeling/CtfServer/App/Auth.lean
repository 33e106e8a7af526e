import CtfServer.App.Repository

/-!
# Tokens and passwords

auth.c.  libsodium's base64, jansson and libjwt are a parameter (`AuthLib`), Argon2id another
(`PasswordLib`): they are not part of the repository.

* `authGenerateId_valid`   a generated id is an id;
* `authTokenVerify_ok`     what an accepted token satisfies.
-/

set_option linter.unusedVariables false
set_option linter.unusedSimpArgs false

namespace App

open Json (validPassword)

def AUTH_TOKEN_MAX : Nat := 4096
def AUTH_CLOCK_SKEW : Int := 30
def AUTH_TTL_MAX : Int := 86400

/-- the results of the functions of auth.c that are not `AUTH_OK` -/
inductive AuthFailure where
  | invalid | error
  deriving DecidableEq, Repr

/-! ## the libraries -/

/-- `json_t`, as far as the code looks at it -/
inductive JsonValue where
  | string (text : Bytes)
  | integer (number : Int)
  | other
  deriving DecidableEq, Repr

/-- libsodium, jansson and libjwt where memory suffices -/
structure AuthLib where
  /-- `sodium_base642bin`, URL-safe without padding -/
  base64 : Bytes → Option Bytes
  /-- `json_loadb` with `JSON_REJECT_DUPLICATES`, then `json_is_object`: the members -/
  jsonObject : Bytes → Option (List (Bytes × JsonValue))
  /-- `jwt_encode_str` of an HS256 token with these grants: key, grants -/
  jwtEncode : Bytes → List (Bytes × JsonValue) → Option Bytes
  /-- `jwt_decode`: key, token; `some` says whether `jwt_get_alg` is HS256 -/
  jwtDecode : Bytes → Bytes → Option Bool

/-- Argon2id: the hashes that `crypto_pwhash_str_alg` may make of a password, and
`crypto_pwhash_str_verify` of a hash and a password -/
structure PasswordLib where
  produced : Bytes → Bytes → Prop
  verify : Bytes → Bytes → Bool

/-- the allocations of a call that may fail one by one -/
inductive Alloc where
  | context | state | identity | username | password | rows | selected | json | header | claims
    | jwt
  deriving DecidableEq, Repr

/-! ## configuration -/

/-- `auth_config_t` -/
structure AuthConfig where
  key : Bytes
  issuer : Bytes
  audience : Bytes
  ttl : Int
  dummyHash : Bytes
  deriving DecidableEq, Repr

def validSetting (value : Bytes) : Bool :=
  value != [] && value.length ≤ 128 && value.all isPrintable

def validConfig (config : AuthConfig) : Bool :=
  32 ≤ config.key.length && config.key.length ≤ 64 && validSetting config.issuer &&
    validSetting config.audience && decide (1 ≤ config.ttl) && decide (config.ttl ≤ AUTH_TTL_MAX)

/-! ## ids -/

/-- a digit of `sodium_bin2hex` -/
def hexByte (n : Nat) : UInt8 := UInt8.ofNat (if n < 10 then 48 + n else 87 + n)

def bin2hex (bytes : Bytes) : Bytes :=
  bytes.flatMap fun b => [hexByte (b.toNat / 16), hexByte (b.toNat % 16)]

/-- the random bytes of an id -/
abbrev IdBytes := { bytes : Bytes // bytes.length = 16 }

/-- `auth_generate_id`; `none` where the generator fails -/
def authGenerateId (random : Option IdBytes) : Option Bytes := random.map fun r => bin2hex r.1

theorem hexByte_isIdByte {n : Nat} (h : n < 16) : isIdByte (hexByte n) = true := by
  have hall : ∀ k : Fin 16, isIdByte (hexByte k.1) = true := by decide +kernel
  exact hall ⟨n, h⟩

theorem bin2hex_all (bytes : Bytes) : (bin2hex bytes).all isIdByte = true := by
  induction bytes with
  | nil => rfl
  | cons b bs ih =>
    have hb := b.toNat_lt
    simp only [bin2hex, List.flatMap_cons, List.all_append, Bool.and_eq_true] at ih ⊢
    refine ⟨?_, ih⟩
    simp only [List.all_cons, List.all_nil, Bool.and_true, Bool.and_eq_true]
    exact ⟨hexByte_isIdByte (by omega), hexByte_isIdByte (by omega)⟩

theorem bin2hex_length (bytes : Bytes) : (bin2hex bytes).length = 2 * bytes.length := by
  induction bytes with
  | nil => rfl
  | cons b bs ih =>
    simp only [bin2hex, List.flatMap_cons, List.length_append, List.length_cons,
      List.length_nil] at ih ⊢
    omega

theorem authGenerateId_valid {random : Option IdBytes} {id : Bytes}
    (h : authGenerateId random = some id) :
    validId id = true := by
  cases random with
  | none => cases h
  | some r =>
    cases h
    simp only [validId, bin2hex_length, r.2, bin2hex_all, Bool.and_true]
    rfl

/-! ## issue -/

/-- `auth_claims_t` -/
structure AuthClaims where
  userId : Bytes
  sessionId : Bytes
  issuedAt : Int
  notBefore : Int
  expiresAt : Int
  deriving DecidableEq, Repr

/-- the grants that `auth_token_issue` adds -/
def issuedGrants (config : AuthConfig) (userId sessionId : Bytes) (now : Int) :
    List (Bytes × JsonValue) :=
  [(ascii "iss", .string config.issuer), (ascii "aud", .string config.audience),
    (ascii "sub", .string userId), (ascii "jti", .string sessionId),
    (ascii "iat", .integer now), (ascii "nbf", .integer now),
    (ascii "exp", .integer (now + config.ttl))]

def authTokenIssue (lib : AuthLib) (alloc : Alloc → Bool) (config : AuthConfig)
    (userId sessionId : Bytes) (now : Int) : Except AuthFailure Bytes :=
  if ¬ validConfig config ∨ ¬ validId userId ∨ ¬ validId sessionId ∨ now < 0 ∨
      now > AUTH_TIME_MAX - config.ttl ∨ now > LONG_MAX - config.ttl then .error .invalid
  else if alloc .jwt = false then .error .error
  else
    match lib.jwtEncode config.key (issuedGrants config userId sessionId now) with
    | none => .error .error
    | some token => if token.length > AUTH_TOKEN_MAX then .error .error else .ok token

/-! ## verification -/

def DOT : UInt8 := 46

/-- the tests for the two dots: header, payload and a non-empty signature -/
def splitToken (token : Bytes) : Option (Bytes × Bytes × Bytes) :=
  match token.splitOn DOT with
  | [header, payload, signature] =>
    if signature = [] then none else some (header, payload, signature)
  | _ => none

/-- `sodium_base642bin` into a buffer of `size` bytes -/
def decodeBase64 (lib : AuthLib) (size : Nat) (text : Bytes) : Option Bytes :=
  (lib.base64 text).filter fun decoded => decoded.length ≤ size

/-- `decode_object` -/
def decodeObject (lib : AuthLib) (alloc : Bool) (text : Bytes) :
    Except AuthFailure (List (Bytes × JsonValue)) :=
  if text = [] then .error .invalid
  else
    match decodeBase64 lib AUTH_TOKEN_MAX text with
    | none => .error .invalid
    | some decoded =>
      if alloc = false then .error .error
      else
        match lib.jsonObject decoded with
        | none => .error .invalid
        | some members => .ok members

/-- `json_object_get` -/
def jsonGet (members : List (Bytes × JsonValue)) (name : Bytes) : Option JsonValue :=
  members.lookup name

def jsonTextEquals (value : Option JsonValue) (expected : Bytes) : Bool :=
  value == some (.string expected)

def readTimeClaim (claims : List (Bytes × JsonValue)) (name : Bytes) : Option Int :=
  match jsonGet claims name with
  | some (.integer number) => if number < 0 ∨ number > AUTH_TIME_MAX then none else some number
  | _ => none

def readIdClaim (claims : List (Bytes × JsonValue)) (name : Bytes) : Option Bytes :=
  match jsonGet claims name with
  | some (.string id) => if validId id then some id else none
  | _ => none

/-- the header: `alg` is HS256, and nothing else but an optional `typ` -/
def acceptedHeader (header : List (Bytes × JsonValue)) : Bool :=
  jsonTextEquals (jsonGet header (ascii "alg")) (ascii "HS256") &&
    header.all fun (key, value) =>
      key == ascii "alg" || (key == ascii "typ" && jsonTextEquals (some value) (ascii "JWT"))

/-- the reading of the claims, and their comparison with the clock -/
def readClaims (config : AuthConfig) (now : Int) (claims : List (Bytes × JsonValue)) :
    Option AuthClaims :=
  if ¬ jsonTextEquals (jsonGet claims (ascii "iss")) config.issuer ∨
      ¬ jsonTextEquals (jsonGet claims (ascii "aud")) config.audience then none
  else
    match readIdClaim claims (ascii "sub"), readIdClaim claims (ascii "jti"), readTimeClaim claims
      (ascii "iat"),
      readTimeClaim claims (ascii "nbf"), readTimeClaim claims (ascii "exp") with
    | some userId, some sessionId, some issuedAt, some notBefore, some expiresAt =>
      if notBefore < issuedAt ∨ notBefore ≥ expiresAt ∨ expiresAt - issuedAt > config.ttl ∨
          issuedAt > now + AUTH_CLOCK_SKEW ∨ notBefore > now + AUTH_CLOCK_SKEW ∨
          now ≥ expiresAt + AUTH_CLOCK_SKEW then none
      else some ⟨userId, sessionId, issuedAt, notBefore, expiresAt⟩
    | _, _, _, _, _ => none

def authTokenVerify (lib : AuthLib) (alloc : Alloc → Bool) (config : AuthConfig) (token : Bytes)
    (now : Int) :
    Except AuthFailure AuthClaims :=
  if ¬ validConfig config ∨ token = [] ∨ token.length > AUTH_TOKEN_MAX ∨
    token.contains 0 ∨ now < 0 ∨
      now > AUTH_TIME_MAX then .error .invalid
  else
    match splitToken token with
    | none => .error .invalid
    | some (first, second, third) =>
      match decodeObject lib (alloc .header) first with
      | .error e => .error e
      | .ok header =>
        if ¬ acceptedHeader header then .error .invalid
        else
          match decodeObject lib (alloc .claims) second with
          | .error e => .error e
          | .ok claims =>
            if (decodeBase64 lib 32 third).map List.length ≠ some 32 then .error .invalid
            else if alloc .jwt = false then .error .error
            else if lib.jwtDecode config.key token ≠ some true then .error .invalid
            else
              match readClaims config now claims with
              | none => .error .invalid
              | some parsed => .ok parsed

/-- the claims of an accepted token -/
structure AuthClaims.Accepted (config : AuthConfig) (now : Int) (claims : AuthClaims) : Prop where
  userId : validId claims.userId = true
  sessionId : validId claims.sessionId = true
  issued : 0 ≤ claims.issuedAt
  order : claims.issuedAt ≤ claims.notBefore ∧ claims.notBefore < claims.expiresAt
  expires : claims.expiresAt ≤ AUTH_TIME_MAX
  ttl : claims.expiresAt - claims.issuedAt ≤ config.ttl
  started : claims.notBefore ≤ now + AUTH_CLOCK_SKEW
  running : now < claims.expiresAt + AUTH_CLOCK_SKEW

theorem readIdClaim_valid {claims : List (Bytes × JsonValue)} {name id : Bytes}
    (h : readIdClaim claims name = some id) : validId id = true := by
  unfold readIdClaim at h
  split at h
  · split at h
    · next hv => cases h; exact hv
    · cases h
  · cases h

theorem readTimeClaim_range {claims : List (Bytes × JsonValue)} {name : Bytes} {n : Int}
    (h : readTimeClaim claims name = some n) : 0 ≤ n ∧ n ≤ AUTH_TIME_MAX := by
  unfold readTimeClaim at h
  split at h
  · split at h
    · cases h
    · cases h; omega
  · cases h

theorem readClaims_accepted {config : AuthConfig} {now : Int} {members : List (Bytes × JsonValue)}
    {claims : AuthClaims} (h : readClaims config now members = some claims) :
    claims.Accepted config now := by
  unfold readClaims at h
  split at h
  · cases h
  · split at h
    · next u s i n e hu hs hi hn he =>
      split at h
      · cases h
      · next hc =>
        cases h
        simp only [not_or, not_lt, ge_iff_le, not_le, gt_iff_lt] at hc
        exact ⟨readIdClaim_valid hu, readIdClaim_valid hs, (readTimeClaim_range hi).1,
          ⟨hc.1, hc.2.1⟩,
          (readTimeClaim_range he).2, hc.2.2.1, hc.2.2.2.2.1, hc.2.2.2.2.2⟩
    · cases h

theorem authTokenVerify_ok {lib : AuthLib} {alloc : Alloc → Bool} {config : AuthConfig}
    {token : Bytes}
    {now : Int} {claims : AuthClaims}
    (h : authTokenVerify lib alloc config token now = .ok claims) :
    claims.Accepted config now := by
  unfold authTokenVerify at h
  split at h
  · cases h
  split at h
  · cases h
  split at h
  · cases h
  split at h
  · cases h
  split at h
  · cases h
  split at h
  · cases h
  split at h
  · cases h
  split at h
  · cases h
  split at h
  · cases h
  · next hp => cases h; exact readClaims_accepted hp

/-! ## passwords -/

/-- `password_result_t` -/
structure PasswordResult where
  /-- `none` for `AUTH_OK` -/
  failure : Option AuthFailure
  cancelled : Bool := false
  hash : Bytes := []
  deriving DecidableEq, Repr

/-- `auth_password_hash`; `computed` is what `crypto_pwhash_str_alg` gives -/
def authPasswordHash (computed : Option Bytes) (password : Bytes) : PasswordResult :=
  if ¬ validPassword password then { failure := some .invalid }
  else
    match computed with
    | none => { failure := some .error }
    | some hash => { failure := none, hash := hash }

/-- `crypto_pwhash_STRBYTES` -/
def PWHASH_STRBYTES : Nat := 128

/-- `auth_password_verify` with a stored hash -/
def authPasswordVerify (lib : PasswordLib) (storedHash password : Bytes) : PasswordResult :=
  if ¬ validPassword password then { failure := some .invalid }
  else if storedHash.length ≥ PWHASH_STRBYTES ∨ ¬ (ascii "$argon2id$").isPrefixOf storedHash then
    { failure := some .error }
  else if lib.verify storedHash password then { failure := none }
  else { failure := some .invalid }

end App

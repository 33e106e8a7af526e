import CtfServer.App.Handler

/-!
# Signup, login, logout and the check of the token

handler_auth.c, one definition for each handler function.
-/

set_option linter.unusedVariables false

namespace App

open Json (AuthRequest jsonToAuthRequest)

/-- the tests of `read_credentials` -/
def readCredentials (env : Env) (ctx : Ctx) : Except HttpStatus AuthState :=
  if env.alloc .state = false then .error .internalServerError
  else
    match jsonToAuthRequest env.keys (env.alloc .username) (env.alloc .password)
      ctx.request.body with
    | .error e => .error (bodyStatus e)
    | .ok input => .ok { input := input }

/-- the first stage of a signup and of a login -/
def selectUsersFirst (env : Env) (ctx : Ctx) : Outcome :=
  match readCredentials env ctx with
  | .error status => ctx.finish [] { status := status, noStore := true }
  | .ok state =>
    ({ ctx with appData := .auth state }).advance.exec env [] .selectUsers serverErrorNoStore

/-- `json_response` -/
def jsonResponse (state : AuthState) (status : HttpStatus) : Response :=
  { status := status, body := state.response, contentType := some applicationJson, noStore := true }

/-! ## signup -/

def handleSignup1 (env : Env) (ctx : Ctx) : Outcome := selectUsersFirst env ctx

def handleSignup2 (runtime : Runtime) (env : Env) (ctx : Ctx) (task : DbTask) : Outcome :=
  match ctx.appData with
  | .auth state =>
    match bindUsers (env.alloc .rows) task.result with
    | none => ctx.finish [] serverErrorNoStore
    | some users =>
      if users.any (fun user => user.username == state.input.username) then
        ctx.finish [] { status := .conflict, noStore := true }
      else ctx.submitPassword runtime env state .hash none
  | _ => ctx.crash

def signupText (id username : Bytes) : Bytes :=
  ascii "\x7b\"id\":\"" ++ id ++ ascii "\",\"username\":\"" ++ username ++ ascii "\"\x7d"

def handleSignup3 (env : Env) (ctx : Ctx) (result : Option PasswordResult) : Outcome :=
  match ctx.appData with
  | .auth state =>
    match result with
    | none => ctx.finish [] serverErrorNoStore
    | some result =>
      if result.failure ≠ none ∨ result.cancelled then ctx.finish [] serverErrorNoStore
      else
        match authGenerateId env.random with
        | none => ctx.finish [] serverErrorNoStore
        | some id =>
          let state := { state with userId := id, response := signupText id state.input.username }
          ({ ctx with appData := .auth state }).advance.exec env [.generated id]
            (.insertUser id state.input.username result.hash) serverErrorNoStore
  | _ => ctx.crash

def handleSignup4 (env : Env) (ctx : Ctx) (task : DbTask) : Outcome :=
  match ctx.appData with
  | .auth state =>
    if task.result.success then
      if task.result.affected = 1 then ctx.finish [] (jsonResponse state .created)
      else ctx.finish [] serverErrorNoStore
    else ctx.advance.exec env [] .selectUsers serverErrorNoStore
  | _ => ctx.crash

def handleSignup5 (env : Env) (ctx : Ctx) (task : DbTask) : Outcome :=
  match ctx.appData with
  | .auth state =>
    match bindUsers (env.alloc .rows) task.result with
    | none => ctx.finish [] serverErrorNoStore
    | some users =>
      if users.any (fun user => user.username == state.input.username) then
        ctx.finish [] { status := .conflict, noStore := true }
      else ctx.finish [] serverErrorNoStore
  | _ => ctx.crash

/-! ## login -/

def handleLogin1 (env : Env) (ctx : Ctx) : Outcome := selectUsersFirst env ctx

def handleLogin2 (runtime : Runtime) (env : Env) (ctx : Ctx) (task : DbTask) : Outcome :=
  match ctx.appData with
  | .auth state =>
    match bindUsers (env.alloc .rows) task.result with
    | none => ctx.finish [] serverErrorNoStore
    | some users =>
      match users.find? (fun user => user.username == state.input.username) with
      | some user =>
        ctx.submitPassword runtime env { state with userId := user.id, foundUser := true } .verify
          (some user.passwordHash)
      | none => ctx.submitPassword runtime env state .verify none
  | _ => ctx.crash

def handleLogin3 (env : Env) (ctx : Ctx) (result : Option PasswordResult) : Outcome :=
  match ctx.appData with
  | .auth state =>
    match result with
    | none => ctx.finish [] serverErrorNoStore
    | some result =>
      if result.cancelled ∨ result.failure = some .error then ctx.finish [] serverErrorNoStore
      else if result.failure ≠ none ∨ state.foundUser = false then ctx.unauthorized []
      else ctx.advance.exec env [] .deleteExpiredSessions serverErrorNoStore
  | _ => ctx.crash

def loginText (token : Bytes) : Bytes := ascii "\x7b\"token\":\"" ++ token ++ ascii "\"\x7d"

def handleLogin4 (lib : AuthLib) (runtime : Runtime) (env : Env) (ctx : Ctx) (task : DbTask) :
    Outcome :=
  if task.result.success = false then ctx.finish [] serverErrorNoStore
  else
    match ctx.appData with
    | .auth state =>
      match authGenerateId env.random with
      | none => ctx.finish [.clock env.now] serverErrorNoStore
      | some id =>
        match authTokenIssue lib env.alloc runtime.config state.userId id env.now with
        | .error _ => ctx.finish [.clock env.now, .generated id] serverErrorNoStore
        | .ok token =>
          let state := { state with sessionId := id, issuedAt := env.now, response := loginText token }
          ({ ctx with appData := .auth state }).advance.exec env [.clock env.now, .generated id]
            (.insertSession id state.userId env.now (env.now + runtime.config.ttl))
            serverErrorNoStore
    | _ => ctx.crash

def handleLogin5 (ctx : Ctx) (task : DbTask) : Outcome :=
  match ctx.appData with
  | .auth state =>
    if task.result.success ∧ task.result.affected = 1 then ctx.finish [] (jsonResponse state .ok)
    else ctx.finish [] serverErrorNoStore
  | _ => ctx.crash

/-! ## the check of the token -/

def isAuthorization (header : Bytes × Bytes) : Bool := Bytes.eqFold header.1 (ascii "Authorization")

/-- the value of the `Authorization` header, if there is exactly one -/
def authorizationValue (headers : List (Bytes × Bytes)) : Option Bytes :=
  match headers.filter isAuthorization with
  | [header] => some header.2
  | _ => none

/-- the token of a `Bearer` header -/
def bearerToken (value : Bytes) : Option Bytes :=
  if value.length < 8 ∨ ¬ Bytes.eqFold (value.take 6) (ascii "Bearer") ∨
    value.getD 6 0 ≠ 32 then none
  else some ((value.drop 6).dropWhile (· == 32))

/-- the token of a request -/
def Request.token (request : Request) : Option Bytes :=
  (authorizationValue request.headers).bind bearerToken

def handleAuth1 (lib : AuthLib) (runtime : Runtime) (env : Env) (ctx : Ctx) : Outcome :=
  match ctx.request.token with
  | none => ctx.unauthorized []
  | some token =>
    if env.now < 0 then ctx.finish [.clock env.now] serverError
    else
      let result := authTokenVerify lib env.alloc runtime.config token env.now
      let events : List Event := [.clock env.now, .verify token env.now result]
      match result with
      | .error .invalid => ctx.unauthorized events
      | .error .error => ctx.finish events serverError
      | .ok claims =>
        if env.alloc .identity = false then ctx.finish events serverError
        else
          ({ ctx with authData := some ⟨claims, false⟩ }).advance.exec env events
            .selectSessions serverError

/-- the comparison of a row with the claims -/
def sessionMatches (claims : AuthClaims) (session : AuthSession) : Bool :=
  session.id == claims.sessionId && session.userId == claims.userId &&
    session.issuedAt == claims.issuedAt && session.expiresAt == claims.expiresAt

def handleAuth2 (env : Env) (ctx : Ctx) (task : DbTask) : Outcome :=
  match bindAuthSessions (env.alloc .rows) task.result with
  | none => ctx.finish [] serverError
  | some sessions =>
    match ctx.authData with
    | none => ctx.crash
    | some identity =>
      if env.now < 0 then ctx.finish [.clock env.now] serverError
      else if sessions.any (sessionMatches identity.claims) = false ∨
          env.now ≥ identity.claims.expiresAt + AUTH_CLOCK_SKEW ∨
          env.now + AUTH_CLOCK_SKEW < identity.claims.notBefore then ctx.unauthorized
          [.clock env.now]
      else
        ⟨({ ctx with authData := some { identity with verified := true } }).advance,
          [.clock env.now, .verified identity.claims], .next⟩

/-! ## logout -/

def handleLogout1 (env : Env) (ctx : Ctx) : Outcome :=
  match ctx.user, ctx.authData with
  | some user, some identity =>
    ctx.advance.exec env [] (.deleteSession identity.claims.sessionId identity.claims.userId)
      serverErrorNoStore
  | _, _ => ctx.unauthorized []

def handleLogout2 (ctx : Ctx) (task : DbTask) : Outcome :=
  let success := task.result.success && task.result.affected ≤ 1
  ctx.finish [] { status := if success then .ok else .internalServerError, noStore := true }

end App

import CtfServer.Http.Request
import CtfServer.App.Output

/-!
# Requests, contexts and stages

What a handler function sees and does (http_server.h, handler_auth.h).  A route is a chain of
handler functions, here `Stage`s; `Ctx.chain` is `current_handler` with what its `next` pointers
lead to.  A stage reads the context, the clock, the random generator and its completed task or
password job, and gives an `Outcome`: the new context, what it did, and whether it answers.

* `Event`         what a stage does that others can see, and the readings it depends on;
* `Outcome`       the effect of one call;
* `Ctx.finish`    the stage returns `true`;
* `Ctx.exec`      the stage ends in `db_pool_exec_query` or `db_exec_query_param`;
* `Ctx.submitPassword`   `submit_password`.
-/

set_option linter.unusedVariables false

namespace App

open Http (HttpMethod)
open Json (CreateChallengeRequest SubmitAnswerRequest AuthRequest validPassword)

/-! ## requests and responses -/

/-- `http_request_t` after `normalize_uri`, its slices as byte strings -/
structure Request where
  method : HttpMethod
  uri : Bytes
  headers : List (Bytes × Bytes) := []
  queryParams : List (Bytes × Bytes) := []
  body : Bytes := []
  deriving DecidableEq, Repr

/-- the statuses of the handlers -/
inductive HttpStatus where
  | ok | created | badRequest | unauthorized | forbidden | notFound | conflict
  | internalServerError | serviceUnavailable
  deriving DecidableEq, Repr

def HttpStatus.code : HttpStatus → Nat
  | .ok => 200
  | .created => 201
  | .badRequest => 400
  | .unauthorized => 401
  | .forbidden => 403
  | .notFound => 404
  | .conflict => 409
  | .internalServerError => 500
  | .serviceUnavailable => 503

/-- 2xx -/
def HttpStatus.isSuccess (status : HttpStatus) : Bool := 200 ≤ status.code && status.code < 300

def applicationJson : Bytes := ascii "application/json"

/-- `http_response_t` -/
structure Response where
  status : HttpStatus
  body : Bytes := []
  contentType : Option Bytes := none
  bearerChallenge : Bool := false
  noStore : Bool := false
  deriving DecidableEq, Repr

/-! ## the state of a request -/

/-- the handler functions -/
inductive Stage where
  | root | hello1 | hello2
  | getChallenges1 | getChallenges2
  | getOwnChallenges1 | getOwnChallenges2
  | postChallenges1 | postChallenges2
  | putChallenges1 | putChallenges2 | putChallenges3 | putChallenges4
  | deleteChallenges1 | deleteChallenges2 | deleteChallenges3 | deleteChallenges4
  | postAnswers1 | postAnswers2 | postAnswers3 | postAnswers4 | postAnswers5
  | getAnswers1 | getAnswers2 | getAnswers3
  | getOwnAnswers1 | getOwnAnswers2 | getOwnAnswers3
  | signup1 | signup2 | signup3 | signup4 | signup5
  | login1 | login2 | login3 | login4 | login5
  | auth1 | auth2
  | logout1 | logout2
  | getUsers1 | getUsers2 | getUsers3
  deriving DecidableEq, Repr

/-- `auth_state` -/
structure AuthState where
  input : AuthRequest
  userId : Bytes := []
  sessionId : Bytes := []
  issuedAt : Int := 0
  foundUser : Bool := false
  response : Bytes := []
  deriving DecidableEq, Repr

/-- `challenge_write_state` -/
structure ChallengeWriteState where
  id : Nat
  input : CreateChallengeRequest := {}
  deriving DecidableEq, Repr

/-- `answer_submit_state` -/
structure AnswerSubmitState where
  input : SubmitAnswerRequest
  insertId : Nat := 0
  deriving DecidableEq, Repr

/-- `app_data`, by the handler that allocates it -/
inductive AppData where
  | none
  | auth (state : AuthState)
  | write (state : ChallengeWriteState)
  | submit (state : AnswerSubmitState)
  /-- `answer_list_state` -/
  | list (challengeId : Nat)
  /-- `user_list_state` -/
  | users (users : List PublicUser)
  deriving DecidableEq, Repr

/-- `auth_identity_t` -/
structure AuthIdentity where
  claims : AuthClaims
  verified : Bool
  deriving DecidableEq, Repr

/-- `http_request_context_t` with the data of its request -/
structure Ctx where
  request : Request
  chain : List Stage
  appData : AppData := .none
  authData : Option AuthIdentity := none
  deriving DecidableEq, Repr

/-- `auth_request_user` -/
def Ctx.user (ctx : Ctx) : Option Bytes :=
  match ctx.authData with
  | some identity => if identity.verified then some identity.claims.userId else none
  | none => none

/-- `ctx->current_handler = ctx->current_handler->next` -/
def Ctx.advance (ctx : Ctx) : Ctx := { ctx with chain := ctx.chain.tail }

/-! ## the surroundings of a call -/

/-- `auth_runtime_t`, as main.c fills it -/
structure Runtime where
  config : AuthConfig
  contestStartAt : Int := 0
  contestEndAt : Int := 0
  contestEndEnabled : Bool := false
  deriving DecidableEq, Repr

/-- `password_submit_result`, for a job that is well formed -/
inductive QueueAnswer where
  | queued | full | stopped | error
  deriving DecidableEq, Repr

/-- what a call finds: the clock, the generator, and what its allocations and enqueues give -/
structure Env where
  now : Int
  random : Option IdBytes
  /-- the enqueue of a db task succeeds -/
  enqueue : Bool
  queue : QueueAnswer
  alloc : Alloc → Bool
  /-- the key records of `read_object`, by the bytes left -/
  keys : Nat → Bool

/-- `password_operation` -/
inductive PasswordOperation where
  | hash | verify
  deriving DecidableEq, Repr

/-- `password_job_t`, before it has run -/
structure PasswordJob where
  operation : PasswordOperation
  password : Bytes
  storedHash : Bytes := []
  unknownUser : Bool := false
  deriving DecidableEq, Repr

/-- the arguments `task` and `ctx->worker_result` -/
structure Input where
  task : Option DbTask := none
  workerResult : Option PasswordResult := none
  deriving DecidableEq

/-! ## outcomes -/

inductive Event where
  /-- a reading of the clock -/
  | clock (now : Int)
  /-- `auth_token_verify` returned -/
  | verify (token : Bytes) (now : Int) (result : Except AuthFailure AuthClaims)
  /-- `identity->verified = true` -/
  | verified (claims : AuthClaims)
  /-- `auth_generate_id` returned -/
  | generated (id : Bytes)
  /-- a db task is enqueued -/
  | query (query : Query)
  /-- a completed db task is handed to a stage -/
  | completed (query : Query) (result : DbResult)
  /-- a completed db task finds its connection closed -/
  | discarded (query : Query) (result : DbResult)
  /-- a password job is queued -/
  | submit (job : PasswordJob)
  /-- a finished password job is handed to a stage -/
  | finished (job : PasswordJob) (result : PasswordResult)
  | respond (response : Response)
  deriving DecidableEq

inductive Verdict where
  /-- the stage returns `true` -/
  | respond (response : Response)
  /-- the stage returns `false` -/
  | wait
  /-- the stage calls the next one -/
  | next
  /-- a failed assertion or a `NULL` pointer followed -/
  | crash
  deriving DecidableEq, Repr

structure Outcome where
  ctx : Ctx
  events : List Event
  verdict : Verdict

def Ctx.finish (ctx : Ctx) (events : List Event) (response : Response) : Outcome :=
  ⟨ctx, events ++ [.respond response], .respond response⟩

def Ctx.crash (ctx : Ctx) : Outcome := ⟨ctx, [], .crash⟩

/-- `return db_pool_exec_query(..) < 0` with `refused` in `*response` -/
def Ctx.exec (env : Env) (ctx : Ctx) (events : List Event) (query : Query) (refused : Response) :
    Outcome :=
  if env.enqueue then ⟨ctx, events ++ [.query query], .wait⟩ else ctx.finish events refused

/-- `{.status = HTTP_STATUS_INTERNAL_SERVER_ERROR}` -/
def serverError : Response := { status := .internalServerError }

/-- the same with `.no_store = true` -/
def serverErrorNoStore : Response := { status := .internalServerError, noStore := true }

/-- `auth_unauthorized` -/
def Ctx.unauthorized (ctx : Ctx) (events : List Event) : Outcome :=
  ctx.finish events { status := .unauthorized, bearerChallenge := true, noStore := true }

/-- the status of a body that is not read -/
def bodyStatus : Json.Error → HttpStatus
  | .invalid => .badRequest
  | .oom => .internalServerError

/-! ## password jobs -/

/-- the tests of `password_worker_submit` on its arguments -/
def PasswordJob.make (dummyHash : Bytes) (operation : PasswordOperation) (password : Bytes)
    (storedHash : Option Bytes) : Option PasswordJob :=
  if ¬ validPassword password then none
  else
    match operation with
    | .hash => some { operation := .hash, password := password }
    | .verify =>
      let hash := storedHash.getD dummyHash
      if hash = [] ∨ hash.length ≥ PWHASH_STRBYTES then none
      else some ⟨.verify, password, hash, storedHash.isNone⟩

/-- `submit_password`; the password of the state is consumed -/
def Ctx.submitPassword (runtime : Runtime) (env : Env) (ctx : Ctx) (state : AuthState)
    (operation : PasswordOperation) (hash : Option Bytes) : Outcome :=
  let job := PasswordJob.make runtime.config.dummyHash operation state.input.password hash
  let ctx := { ctx with appData := .auth { state with input := { state.input with password := [] } } }
  match job with
  | none => ctx.finish [] serverErrorNoStore
  | some job =>
    match env.queue with
    | .queued => ⟨ctx.advance, [.submit job], .wait⟩
    | .full | .stopped => ctx.finish [] { status := .serviceUnavailable, noStore := true }
    | .error => ctx.finish [] serverErrorNoStore

end App

import CtfServer.App.HandlerAuth
import CtfServer.App.Writers

/-!
# Challenges

handler_challenge.c and handler_health.c.  An `assert` on `current_handler->next` is the test of
`hasNext`.
-/

set_option linter.unusedVariables false

namespace App

open Json (CtfGenre CreateChallengeRequest jsonToCreateChallengeRequest INT_MAX)

/-- `ctx->current_handler->next != NULL` -/
def Ctx.hasNext (ctx : Ctx) : Bool := ctx.chain.tail != []

/-- a response with a text that was allocated -/
def jsonBody (status : HttpStatus) (body : Bytes) : Response :=
  { status := status, body := body, contentType := some applicationJson }

/-- the bytes that are sent of a text of json.c, `none` for `json.ptr == NULL`; where a writer
leaves its buffer nothing is known of the text, and none is sent -/
def jsonText : Option StringT → Option Bytes
  | none => some []
  | some json => json.sent

/-! ## the page and the greeting (handler_health.c) -/

def handleRoot (ctx : Ctx) : Outcome :=
  ctx.finish [] { status := .ok, body := ascii "Welcome to the CTF server!" }

def handleHello1 (env : Env) (ctx : Ctx) : Outcome :=
  if ¬ ctx.hasNext then ctx.crash else ctx.advance.exec env [] .selectHello serverError

def handleHello2 (ctx : Ctx) (task : DbTask) : Outcome :=
  ctx.finish [] { status := .ok, body := ascii "Hello, World!" }

/-! ## lists -/

def handleGetChallenges1 (runtime : Runtime) (env : Env) (ctx : Ctx) : Outcome :=
  let restricted := runtime.contestStartAt ≠ 0
  if restricted ∧ (env.now < 0 ∨ env.now < runtime.contestStartAt) then
    ctx.finish [.clock env.now]
      { status := if env.now < 0 then .internalServerError else .forbidden, noStore := true }
  else if ¬ ctx.hasNext then ctx.crash
  else
    ctx.advance.exec env (if restricted then [.clock env.now] else [])
      .selectChallengesWithoutFlag serverError

def handleGetChallenges2 (env : Env) (ctx : Ctx) (task : DbTask) : Outcome :=
  if ctx.hasNext then ctx.crash
  else if task.result.success = false then
    ctx.finish [] { status := .internalServerError, body := ascii "db error" }
  else
    match bindChallengesWithoutFlag (env.alloc .rows) task.result with
    | none => ctx.finish [] (jsonBody .ok (ascii "[]"))
    | some challenges =>
      match jsonText (challengesToJsonImplBuffer (jsonMemory (env.alloc .json)) challenges
        false false) with
      | none => ctx.finish [] { status := .internalServerError, body := ascii "json error" }
      | some json => ctx.finish [] (jsonBody .ok json)

def handleGetOwnChallenges1 (env : Env) (ctx : Ctx) : Outcome :=
  match ctx.user with
  | none => ctx.unauthorized []
  | some user =>
    if ¬ ctx.hasNext then ctx.crash else ctx.advance.exec env [] .selectChallenges
      serverErrorNoStore

/-- the list of a stage that reads whole challenges: `none` answers 500 -/
def readChallenges (mem : Bool) (result : DbResult) : Option (List Challenge) :=
  match result.stored with
  | none => none
  | some res =>
    if res.fields ≠ 6 then none
    else if res.rows = [] then some []
    else bindChallenges mem result

theorem readChallenges_some {mem : Bool} {result : DbResult} {out : List Challenge}
    (h : readChallenges mem result = some out) :
    ∃ res, result.stored = some res ∧ res.fields = 6 ∧ res.rows.mapM bindChallenge = some out := by
  unfold readChallenges at h
  split at h
  · cases h
  · next res hres =>
    split at h
    · cases h
    next hf =>
    split at h
    · next hnil =>
      cases h
      exact ⟨res, hres, not_not.1 hf, by rw [hnil]; rfl⟩
    unfold bindChallenges bindChallengesImpl at h
    rw [hres] at h
    dsimp only at h
    split at h
    · cases h
    · exact ⟨res, hres, not_not.1 hf, h⟩

/-- the text of the `selected` challenges: the array is empty without one -/
def ownChallengesText (mem : Bool) (selected : List Challenge) : Option Bytes :=
  if selected = [] then some (ascii "[]")
  else jsonText (challengesToJsonImplBuffer (jsonMemory mem) selected false true)

def handleGetOwnChallenges2 (env : Env) (ctx : Ctx) (task : DbTask) : Outcome :=
  match ctx.user with
  | none => ctx.unauthorized []
  | some user =>
    match readChallenges (env.alloc .rows) task.result with
    | none => ctx.finish [] serverErrorNoStore
    | some challenges =>
      if challenges ≠ [] ∧ env.alloc .selected = false then ctx.finish [] serverErrorNoStore
      else
        match ownChallengesText (env.alloc .json) (challenges.filter fun challenge =>
          challenge.creatorId == user) with
        | none => ctx.finish [] serverErrorNoStore
        | some body =>
          ctx.finish []
            { status := .ok, body := body, contentType := some applicationJson, noStore := true }

/-! ## POST -/

def handlePostChallenges1 (env : Env) (ctx : Ctx) : Outcome :=
  match ctx.user with
  | none => ctx.unauthorized []
  | some user =>
    if ¬ ctx.hasNext then ctx.crash
    else
      match jsonToCreateChallengeRequest env.keys ctx.request.body with
      | .error e => ctx.finish [] { status := bodyStatus e }
      | .ok request =>
        ctx.advance.exec env []
          (.insertChallenge user request.name request.description request.flag request.genre.code)
          serverError

def handlePostChallenges2 (env : Env) (ctx : Ctx) (task : DbTask) : Outcome :=
  if ctx.hasNext then ctx.crash
  else if task.result.success ∧ task.result.affected = 1 ∧ task.result.insertId > 0 ∧
      task.result.insertId ≤ INT_MAX then
    match task.query with
    | .insertChallenge creatorId name description flag genre =>
      if env.alloc .json = false then ctx.finish [] serverError
      else
        ctx.finish [] (jsonBody .created
          (challengeToJson ⟨task.result.insertId, creatorId, name, description, flag,
            ctfGenreOfInt genre⟩))
    | _ => ctx.crash
  else ctx.finish [] serverError

/-! ## PUT -/

/-- `read_challenge_id` -/
def readChallengeId (request : Request) : Option Nat :=
  match request.queryParams.filter fun param => param.1 == ascii "id" with
  | [param] => parseChallengeId param.2
  | _ => none

/-- `new_challenge_write_state` -/
def newChallengeWriteState (env : Env) (ctx : Ctx) : Except HttpStatus ChallengeWriteState :=
  match readChallengeId ctx.request with
  | none => .error .badRequest
  | some id => if env.alloc .state = false then .error .internalServerError else .ok { id := id }

/-- `select_challenge_owners` -/
def Ctx.selectChallengeOwners (env : Env) (ctx : Ctx) : Outcome :=
  if ¬ ctx.hasNext then ctx.crash else ctx.advance.exec env [] .selectOwners serverError

/-- the status of `challenge_write_access` -/
def Access.status : Access → HttpStatus
  | .ok => .ok
  | .forbidden => .forbidden
  | .notFound => .notFound
  | .error => .internalServerError

/-- `updated_challenge_response` -/
def updatedChallengeResponse (env : Env) (state : ChallengeWriteState) (user : Bytes) : Response :=
  let input := state.input
  if env.alloc .json = false then serverError
  else
    jsonBody .ok
      (challengeToJson ⟨state.id, user, input.name, input.description, input.flag, input.genre⟩)

/-- the user that `auth_request_user` gives to a later stage -/
def Ctx.userBytes (ctx : Ctx) : Bytes := ctx.user.getD []

def handlePutChallenges1 (env : Env) (ctx : Ctx) : Outcome :=
  match ctx.user with
  | none => ctx.unauthorized []
  | some user =>
    match newChallengeWriteState env ctx with
    | .error status => ctx.finish [] { status := status }
    | .ok state =>
      match jsonToCreateChallengeRequest env.keys ctx.request.body with
      | .error e => ctx.finish [] { status := bodyStatus e }
      | .ok input =>
        ({ ctx with appData := .write { state with input := input } }).selectChallengeOwners env

/-- the second stages of PUT and DELETE: the access is tested, then the statement is made -/
def writeIfOwner (env : Env) (ctx : Ctx) (task : DbTask)
    (statement : ChallengeWriteState → Bytes → Query) :
    Outcome :=
  if ¬ ctx.hasNext then ctx.crash
  else
    match ctx.appData with
    | .write state =>
      let access := challengeWriteAccess task.result state.id ctx.userBytes
      if access ≠ .ok then ctx.finish [] { status := access.status }
      else ctx.advance.exec env [] (statement state ctx.userBytes) serverError
    | _ => ctx.crash

def handlePutChallenges2 (env : Env) (ctx : Ctx) (task : DbTask) : Outcome :=
  writeIfOwner env ctx task fun state user =>
    .updateChallenge state.input.name state.input.description state.input.flag
      state.input.genre.code state.id user

def handlePutChallenges3 (env : Env) (ctx : Ctx) (task : DbTask) : Outcome :=
  if task.result.success = false ∨ task.result.affected > 1 then ctx.finish [] serverError
  else if task.result.affected = 0 then ctx.selectChallengeOwners env
  else
    match ctx.appData with
    | .write state => ctx.finish [] (updatedChallengeResponse env state ctx.userBytes)
    | _ => ctx.crash

def handlePutChallenges4 (env : Env) (ctx : Ctx) (task : DbTask) : Outcome :=
  if ctx.hasNext then ctx.crash
  else
    match ctx.appData with
    | .write state =>
      let access := challengeWriteAccess task.result state.id ctx.userBytes
      if access = .ok then ctx.finish [] (updatedChallengeResponse env state ctx.userBytes)
      else ctx.finish [] { status := access.status }
    | _ => ctx.crash

/-! ## DELETE -/

def handleDeleteChallenges1 (env : Env) (ctx : Ctx) : Outcome :=
  match ctx.user with
  | none => ctx.unauthorized []
  | some user =>
    match newChallengeWriteState env ctx with
    | .error status => ctx.finish [] { status := status }
    | .ok state => ({ ctx with appData := .write state }).selectChallengeOwners env

def handleDeleteChallenges2 (env : Env) (ctx : Ctx) (task : DbTask) : Outcome :=
  writeIfOwner env ctx task fun state user => .deleteChallenge state.id user

def handleDeleteChallenges3 (env : Env) (ctx : Ctx) (task : DbTask) : Outcome :=
  if task.result.success = false ∨ task.result.affected > 1 then ctx.finish [] serverError
  else if task.result.affected = 0 then ctx.selectChallengeOwners env
  else ctx.finish [] { status := .ok }

def handleDeleteChallenges4 (env : Env) (ctx : Ctx) (task : DbTask) : Outcome :=
  if ctx.hasNext then ctx.crash
  else
    match ctx.appData with
    | .write state =>
      let access := challengeWriteAccess task.result state.id ctx.userBytes
      ctx.finish [] { status := if access = .ok then .internalServerError else access.status }
    | _ => ctx.crash

end App

import CtfServer.App.HandlerChallenge

/-!
# Answers and users

handler_answer.c and handler_user.c.
-/

set_option linter.unusedVariables false

namespace App

open Json (equalDecoded jsonToSubmitAnswerRequest readPositiveInteger INT_MAX)

/-! ## the filter -/

/-- the value of one `challenge_id` parameter -/
def answerFilterValue (value : Bytes) : Option Nat :=
  match value with
  | [] => none
  | c :: _ =>
    if c < 49 ∨ 57 < c then none
    else
      match readPositiveInteger value with
      | some (id, []) => some id
      | _ => none

/-- `answer_filter`: 0 without a filter, `none` for a bad one -/
def answerFilter (request : Request) : Option Nat :=
  match request.queryParams.filter fun param => param.1 == ascii "challenge_id" with
  | [] => some 0
  | [param] => answerFilterValue param.2
  | _ => none

/-! ## POST -/

def handlePostAnswers1 (env : Env) (ctx : Ctx) : Outcome :=
  match ctx.user with
  | none => ctx.unauthorized []
  | some user =>
    if ¬ ctx.hasNext then ctx.crash
    else if env.alloc .state = false then ctx.finish [] serverError
    else
      match jsonToSubmitAnswerRequest env.keys ctx.request.body with
      | .error e => ctx.finish [] { status := bodyStatus e }
      | .ok input =>
        ({ ctx with appData := .submit { input := input } }).advance.exec env
          [] .selectChallenges serverError

def handlePostAnswers2 (env : Env) (ctx : Ctx) (task : DbTask) : Outcome :=
  if ¬ ctx.hasNext then ctx.crash
  else
    match ctx.appData with
    | .submit state =>
      match readChallenges (env.alloc .rows) task.result with
      | none => ctx.finish [] serverError
      | some challenges =>
        match challenges.find? fun challenge => challenge.id == (state.input.challengeId : Int) with
        | none => ctx.finish [] { status := .notFound }
        | some challenge =>
          match equalDecoded challenge.flag state.input.answer with
          | none => ctx.finish [] serverError
          | some correct =>
            ctx.advance.exec env []
              (.insertAnswer state.input.challengeId ctx.userBytes state.input.answer correct)
              serverError
    | _ => ctx.crash

def handlePostAnswers3 (env : Env) (ctx : Ctx) (task : DbTask) : Outcome :=
  if ¬ ctx.hasNext ∨ ¬ ctx.advance.hasNext then ctx.crash
  else
    match ctx.appData with
    | .submit state =>
      if task.result.success = false then
        -- the stage of the response is skipped; the last one looks for the challenge
        ctx.advance.advance.exec env [] .selectChallenges serverError
      else if task.result.affected ≠ 1 ∨ task.result.insertId = 0 ∨
        task.result.insertId > INT_MAX then
        ctx.finish [] serverError
      else
        ({ ctx with appData := .submit { state with insertId := task.result.insertId }
          }).advance.exec env []
          .selectAnswers serverError
    | _ => ctx.crash

def handlePostAnswers4 (env : Env) (ctx : Ctx) (task : DbTask) : Outcome :=
  match ctx.appData with
  | .submit state =>
    match bindAnswers (env.alloc .rows) task.result with
    | none => ctx.finish [] serverError
    | some answers =>
      match answers.find? fun answer => answer.id == state.insertId with
      | none => ctx.finish [] { status := .notFound }
      | some answer =>
        if env.alloc .json = false then ctx.finish [] serverError
        else ctx.finish [] (jsonBody .ok (answerToJson answer))
  | _ => ctx.crash

def handlePostAnswers5 (env : Env) (ctx : Ctx) (task : DbTask) : Outcome :=
  if ctx.hasNext then ctx.crash
  else
    match ctx.appData with
    | .submit state =>
      match readChallenges (env.alloc .rows) task.result with
      | none => ctx.finish [] serverError
      | some challenges =>
        if challenges.any fun challenge => challenge.id == (state.input.challengeId : Int) then
          ctx.finish [] serverError
        else ctx.finish [] { status := .notFound }
    | _ => ctx.crash

/-! ## lists -/

/-- the first stage of a list, once the request may have it -/
def selectForAnswers (env : Env) (ctx : Ctx) : Outcome :=
  if ¬ ctx.hasNext then ctx.crash
  else
    match answerFilter ctx.request with
    | none => ctx.finish [] { status := .badRequest }
    | some id =>
      if env.alloc .state = false then ctx.finish [] serverError
      else ({ ctx with appData := .list id }).advance.exec env [] .selectChallenges serverError

/-- the second stage of a list: the challenge of the filter exists -/
def checkFilter (env : Env) (ctx : Ctx) (task : DbTask) : Outcome :=
  if ¬ ctx.hasNext then ctx.crash
  else
    match ctx.appData with
    | .list id =>
      match readChallenges (env.alloc .rows) task.result with
      | none => ctx.finish [] serverError
      | some challenges =>
        if id = 0 ∨ challenges.any (fun challenge => challenge.id == (id : Int)) then
          ctx.advance.exec env [] .selectAnswers serverError
        else ctx.finish [] { status := .notFound }
    | _ => ctx.crash

/-- the last stage of a list: the answers that are `selected` and pass the filter -/
def listAnswers (env : Env) (ctx : Ctx) (task : DbTask) (selected : Answer → Bool)
    (publicView : Bool) : Outcome :=
  if ctx.hasNext then ctx.crash
  else
    match ctx.appData with
    | .list id =>
      match bindAnswers (env.alloc .rows) task.result with
      | none => ctx.finish [] serverError
      | some answers =>
        if answers ≠ [] ∧ env.alloc .selected = false then ctx.finish [] serverError
        else if env.alloc .json = false then ctx.finish [] serverError
        else
          ctx.finish [] (jsonBody .ok (answersToJson publicView
            (answers.filter fun answer => selected answer &&
              (id == 0 || answer.challengeId == id))))
    | _ => ctx.crash

def handleGetAnswers1 (env : Env) (ctx : Ctx) : Outcome := selectForAnswers env ctx

def handleGetAnswers2 (env : Env) (ctx : Ctx) (task : DbTask) : Outcome := checkFilter env ctx task

def handleGetAnswers3 (env : Env) (ctx : Ctx) (task : DbTask) : Outcome :=
  listAnswers env ctx task (fun answer => answer.isCorrected) true

def handleGetOwnAnswers1 (env : Env) (ctx : Ctx) : Outcome :=
  match ctx.user with
  | none => ctx.unauthorized []
  | some user => selectForAnswers env ctx

def handleGetOwnAnswers2 (env : Env) (ctx : Ctx) (task : DbTask) : Outcome :=
  checkFilter env ctx task

def handleGetOwnAnswers3 (env : Env) (ctx : Ctx) (task : DbTask) : Outcome :=
  listAnswers env ctx task (fun answer => answer.userId == ctx.userBytes) false

/-! ## users -/

def handleGetUsers1 (env : Env) (ctx : Ctx) : Outcome :=
  if ¬ ctx.hasNext then ctx.crash
  else if env.alloc .state = false then ctx.finish [] serverError
  else ({ ctx with appData := .users [] }).advance.exec env [] .selectPublicUsers serverError

def handleGetUsers2 (env : Env) (ctx : Ctx) (task : DbTask) : Outcome :=
  if ¬ ctx.hasNext then ctx.crash
  else
    match ctx.appData with
    | .users _ =>
      match bindPublicUsers (env.alloc .rows) task.result with
      | none => ctx.finish [] serverError
      | some users =>
        ({ ctx with appData := .users users }).advance.exec env [] .selectScoreAnswers serverError
    | _ => ctx.crash

def handleGetUsers3 (runtime : Runtime) (env : Env) (ctx : Ctx) (task : DbTask) : Outcome :=
  match ctx.appData with
  | .users users =>
    match bindScoreAnswers (env.alloc .rows) task.result with
    | none => ctx.finish [] serverError
    | some answers =>
      if env.alloc .json = false then ctx.finish [] serverError
      else
        ctx.finish [] (jsonBody .ok (publicUsersToJson
          (calculateUserScores users answers runtime.contestEndEnabled runtime.contestEndAt)))
  | _ => ctx.crash

end App

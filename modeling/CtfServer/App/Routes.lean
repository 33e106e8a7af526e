import CtfServer.App.HandlerAnswer

/-!
# Routes and runs of one request

The handler chains and routes of main.c, `http_server_handle_request` (http_server.c), and the
states of a request from its dispatch to its response, whatever its tasks bring back.

* `Stage.run`    the handler functions;
* `runStages`    a call of the current handler, with the call of the next one in `handle_auth_2`;
* `routes`       the route table;
* `Reach`        the states of a request.
-/

set_option linter.unusedVariables false

namespace App

open Http (HttpMethod)

/-! ## stages -/

/-- a stage that follows its task -/
def Input.withTask (input : Input) (ctx : Ctx) (f : DbTask → Outcome) : Outcome :=
  match input.task with
  | none => ctx.crash
  | some task => f task

def Stage.run (lib : AuthLib) (runtime : Runtime) (env : Env) (input : Input) (ctx : Ctx) :
    Stage → Outcome
  | .root => handleRoot ctx
  | .hello1 => handleHello1 env ctx
  | .hello2 => input.withTask ctx (handleHello2 ctx)
  | .getChallenges1 => handleGetChallenges1 runtime env ctx
  | .getChallenges2 => input.withTask ctx (handleGetChallenges2 env ctx)
  | .getOwnChallenges1 => handleGetOwnChallenges1 env ctx
  | .getOwnChallenges2 => input.withTask ctx (handleGetOwnChallenges2 env ctx)
  | .postChallenges1 => handlePostChallenges1 env ctx
  | .postChallenges2 => input.withTask ctx (handlePostChallenges2 env ctx)
  | .putChallenges1 => handlePutChallenges1 env ctx
  | .putChallenges2 => input.withTask ctx (handlePutChallenges2 env ctx)
  | .putChallenges3 => input.withTask ctx (handlePutChallenges3 env ctx)
  | .putChallenges4 => input.withTask ctx (handlePutChallenges4 env ctx)
  | .deleteChallenges1 => handleDeleteChallenges1 env ctx
  | .deleteChallenges2 => input.withTask ctx (handleDeleteChallenges2 env ctx)
  | .deleteChallenges3 => input.withTask ctx (handleDeleteChallenges3 env ctx)
  | .deleteChallenges4 => input.withTask ctx (handleDeleteChallenges4 env ctx)
  | .postAnswers1 => handlePostAnswers1 env ctx
  | .postAnswers2 => input.withTask ctx (handlePostAnswers2 env ctx)
  | .postAnswers3 => input.withTask ctx (handlePostAnswers3 env ctx)
  | .postAnswers4 => input.withTask ctx (handlePostAnswers4 env ctx)
  | .postAnswers5 => input.withTask ctx (handlePostAnswers5 env ctx)
  | .getAnswers1 => handleGetAnswers1 env ctx
  | .getAnswers2 => input.withTask ctx (handleGetAnswers2 env ctx)
  | .getAnswers3 => input.withTask ctx (handleGetAnswers3 env ctx)
  | .getOwnAnswers1 => handleGetOwnAnswers1 env ctx
  | .getOwnAnswers2 => input.withTask ctx (handleGetOwnAnswers2 env ctx)
  | .getOwnAnswers3 => input.withTask ctx (handleGetOwnAnswers3 env ctx)
  | .signup1 => handleSignup1 env ctx
  | .signup2 => input.withTask ctx (handleSignup2 runtime env ctx)
  | .signup3 => handleSignup3 env ctx input.workerResult
  | .signup4 => input.withTask ctx (handleSignup4 env ctx)
  | .signup5 => input.withTask ctx (handleSignup5 env ctx)
  | .login1 => handleLogin1 env ctx
  | .login2 => input.withTask ctx (handleLogin2 runtime env ctx)
  | .login3 => handleLogin3 env ctx input.workerResult
  | .login4 => input.withTask ctx (handleLogin4 lib runtime env ctx)
  | .login5 => input.withTask ctx (handleLogin5 ctx)
  | .auth1 => handleAuth1 lib runtime env ctx
  | .auth2 => input.withTask ctx (handleAuth2 env ctx)
  | .logout1 => handleLogout1 env ctx
  | .logout2 => input.withTask ctx (handleLogout2 ctx)
  | .getUsers1 => handleGetUsers1 env ctx
  | .getUsers2 => input.withTask ctx (handleGetUsers2 env ctx)
  | .getUsers3 => input.withTask ctx (handleGetUsers3 runtime env ctx)

/-- a call of the handlers of `chain`; a stage that goes on calls its next one without a task -/
def runStages (lib : AuthLib) (runtime : Runtime) (env : Env) (input : Input) (ctx : Ctx) :
    List Stage → Outcome
  | [] => ctx.crash
  | stage :: rest =>
    let outcome := stage.run lib runtime env input { ctx with chain := stage :: rest }
    match outcome.verdict with
    | .next =>
      let further := runStages lib runtime env { input with task := none } outcome.ctx rest
      { further with events := outcome.events ++ further.events }
    | _ => outcome

/-! ## routes -/

/-- `http_route_t` -/
structure Route where
  method : HttpMethod
  path : Bytes
  chain : List Stage
  deriving DecidableEq, Repr

/-- the chain behind the check of the token -/
def authenticated (chain : List Stage) : List Stage := .auth1 :: .auth2 :: chain

def routes : List Route :=
  [⟨.get, ascii "/", [.root]⟩,
    ⟨.get, ascii "/hello", [.hello1, .hello2]⟩,
    ⟨.get, ascii "/challenges", [.getChallenges1, .getChallenges2]⟩,
    ⟨.get, ascii "/challenges/me", authenticated [.getOwnChallenges1, .getOwnChallenges2]⟩,
    ⟨.post, ascii "/challenges", authenticated [.postChallenges1, .postChallenges2]⟩,
    ⟨.put, ascii "/challenges",
      authenticated [.putChallenges1, .putChallenges2, .putChallenges3, .putChallenges4]⟩,
    ⟨.delete, ascii "/challenges",
      authenticated [.deleteChallenges1, .deleteChallenges2, .deleteChallenges3,
        .deleteChallenges4]⟩,
    ⟨.post, ascii "/answers",
      authenticated [.postAnswers1, .postAnswers2, .postAnswers3, .postAnswers4, .postAnswers5]⟩,
    ⟨.get, ascii "/answers", [.getAnswers1, .getAnswers2, .getAnswers3]⟩,
    ⟨.get, ascii "/answers/me", authenticated [.getOwnAnswers1, .getOwnAnswers2, .getOwnAnswers3]⟩,
    ⟨.post, ascii "/signup", [.signup1, .signup2, .signup3, .signup4, .signup5]⟩,
    ⟨.post, ascii "/login", [.login1, .login2, .login3, .login4, .login5]⟩,
    ⟨.post, ascii "/logout", authenticated [.logout1, .logout2]⟩,
    ⟨.get, ascii "/users", [.getUsers1, .getUsers2, .getUsers3]⟩]

/-- the first route of a method and a path -/
def findRoute (method : HttpMethod) (uri : Bytes) : Option Route :=
  routes.find? fun route => route.method == method && route.path == uri

/-- a request of one of the routes under `/challenges` -/
def Request.IsChallenges (request : Request) (method : HttpMethod) : Prop :=
  request.method = method ∧ request.uri = ascii "/challenges"

/-- a request of the route that submits answers -/
def Request.IsSubmit (request : Request) : Prop :=
  request.method = .post ∧ request.uri = ascii "/answers"

def Request.route (request : Request) : Option Route := findRoute request.method request.uri

/-- the answer of `http_server_handle_request` where no route fits -/
def noRoute : Response := { status := .notFound, body := ascii "Not Found" }

/-- `http_server_handle_request` -/
def dispatch (lib : AuthLib) (runtime : Runtime) (env : Env) (request : Request) : Outcome :=
  match request.route with
  | none => ({ request := request, chain := [] } : Ctx).finish [] noRoute
  | some route =>
    let ctx : Ctx := { request := request, chain := route.chain }
    if env.alloc .context = false then ctx.finish [] serverError
    else runStages lib runtime env {} ctx route.chain

/-! ## runs -/

/-- what is outstanding -/
inductive Op where
  | db (query : Query)
  | password (job : PasswordJob)
  deriving DecidableEq, Repr

/-- the operation that an event starts -/
def Event.op : Event → Option Op
  | .query q => some (.db q)
  | .submit job => some (.password job)
  | _ => none

def opsOf (events : List Event) : List Op := events.filterMap Event.op

/-- what a completed operation hands to the stage -/
inductive Completion : Op → Input → List Event → Prop where
  | task (query : Query) (result : DbResult) :
      Completion (.db query) { task := some ⟨query, result⟩ } [.completed query result]
  | job (job : PasswordJob) (result : PasswordResult) :
      Completion (.password job) { workerResult := some result } [.finished job result]

/-- the answer to a job that was cancelled (password_worker_http.c) -/
def cancelledResponse : Response := { status := .serviceUnavailable }

/-- the state of a request between two calls -/
structure ReqState where
  ctx : Ctx
  /-- of the last call; `none` once its context is disposed of without a response -/
  verdict : Option Verdict
  pending : List Op
  trace : List Event

def ReqState.start (o : Outcome) : ReqState := ⟨o.ctx, some o.verdict, opsOf o.events, o.events⟩

/-- the state after the completion of `op` with the events `done`, and the call `o` -/
def ReqState.resume (s : ReqState) (op : Op) (done : List Event) (o : Outcome) : ReqState :=
  ⟨o.ctx, some o.verdict, s.pending.erase op ++ opsOf o.events, s.trace ++ done ++ o.events⟩

/-- the state after a completion that finds no connection (`db_handler`,
`password_worker_handler`) -/
def ReqState.discard (s : ReqState) (op : Op) (done : List Event) : ReqState :=
  ⟨s.ctx, none, s.pending.erase op, s.trace ++ done⟩

/-- the state after a job was cancelled -/
def ReqState.cancel (s : ReqState) (op : Op) : ReqState :=
  ⟨s.ctx, some (.respond cancelledResponse), s.pending.erase op, s.trace ++
    [.respond cancelledResponse]⟩

/-- what is left of a completion that finds no connection -/
inductive Discarded : Op → List Event → Prop where
  | task (query : Query) (result : DbResult) : Discarded (.db query) [.discarded query result]
  | job (job : PasswordJob) : Discarded (.password job) []

/-- the states of a request: its operations complete in any order, with any result; `meets` are
the surroundings that its calls may find -/
inductive Reach (lib : AuthLib) (runtime : Runtime) (meets : Env → Prop) (request : Request) :
    ReqState → Prop where
  | start (env : Env) (hmeets : meets env) :
      Reach lib runtime meets request (.start (dispatch lib runtime env request))
  | resume {s : ReqState} {op : Op} {input : Input} {done : List Event} (env : Env)
      (hmeets : meets env) :
      Reach lib runtime meets request s → op ∈ s.pending → Completion op input done →
      Reach lib runtime meets request
      (s.resume op done (runStages lib runtime env input s.ctx s.ctx.chain))
  | discard {s : ReqState} {op : Op} {done : List Event} :
      Reach lib runtime meets request s → op ∈ s.pending → Discarded op done →
      Reach lib runtime meets request (s.discard op done)
  | cancel {s : ReqState} {job : PasswordJob} :
      Reach lib runtime meets request s → .password job ∈ s.pending →
      Reach lib runtime meets request (s.cancel (.password job))

end App

import CtfServer.App.Routes

/-!
# Where a request waits

Every state in which a request waits for a task or a job, chain by chain: the context that the
next stage finds, the operation that is outstanding, and the trace so far.

* `Passed`      the check of a token that was passed;
* `Waiting`     the waiting states of a chain;
* `Finished`    the states after the last call of a chain.
-/

set_option linter.unusedVariables false

namespace App

open Json (AuthRequest CreateChallengeRequest SubmitAnswerRequest jsonToAuthRequest
  jsonToCreateChallengeRequest jsonToSubmitAnswerRequest equalDecoded INT_MAX)

/-! ## bodies -/

/-- the body of a request as credentials -/
def Request.Credentials (request : Request) (input : AuthRequest) : Prop :=
  ∃ keys allocU allocP, jsonToAuthRequest keys allocU allocP request.body = .ok input

/-- the body of a request as a challenge -/
def Request.NewChallenge (request : Request) (input : CreateChallengeRequest) : Prop :=
  ∃ keys, jsonToCreateChallengeRequest keys request.body = .ok input

/-- the body of a request as an answer -/
def Request.NewAnswer (request : Request) (input : SubmitAnswerRequest) : Prop :=
  ∃ keys, jsonToSubmitAnswerRequest keys request.body = .ok input

theorem Request.Credentials.unique {request : Request} {a b : AuthRequest}
    (ha : request.Credentials a) (hb : request.Credentials b) : a = b := by
  obtain ⟨mem, allocU, allocP, ha⟩ := ha
  obtain ⟨mem', allocU', allocP', hb⟩ := hb
  have h := (Json.jsonToAuthRequest_enough ha).symm.trans (Json.jsonToAuthRequest_enough hb)
  exact Except.ok.inj h

theorem Request.NewAnswer.unique {request : Request} {a b : SubmitAnswerRequest}
    (ha : request.NewAnswer a) (hb : request.NewAnswer b) : a = b := by
  obtain ⟨mem, ha⟩ := ha
  obtain ⟨mem', hb⟩ := hb
  have h := (Json.jsonToSubmitAnswerRequest_enough ha).symm.trans
    (Json.jsonToSubmitAnswerRequest_enough hb)
  exact Except.ok.inj h

/-! ## the check of the token -/

/-- one of the rows of a session SELECT is the session of the claims -/
def SessionRow (result : DbResult) (claims : AuthClaims) : Prop :=
  ∃ res, result.stored = some res ∧ ∃ row ∈ res.rows,
    bindAuthSession row = some ⟨claims.sessionId, claims.userId, claims.issuedAt, claims.expiresAt⟩

/-- the first half: the token was accepted at `issued` -/
structure Accepted (lib : AuthLib) (runtime : Runtime) (request : Request) where
  token : Bytes
  now : Int
  claims : AuthClaims
  carried : request.token = some token
  clock : 0 ≤ now
  verified : ∃ alloc, authTokenVerify lib alloc runtime.config token now = .ok claims

/-- the trace of the first half -/
def Accepted.trace {lib : AuthLib} {runtime : Runtime} {request : Request}
    (a : Accepted lib runtime request) :
    List Event :=
  [.clock a.now, .verify a.token a.now (.ok a.claims), .query .selectSessions]

/-- both halves: the session was found at `later` -/
structure Passed (lib : AuthLib) (runtime : Runtime) (request : Request) extends Accepted lib
    runtime request where
  result : DbResult
  later : Int
  row : SessionRow result claims
  laterClock : 0 ≤ later
  running : later < claims.expiresAt + AUTH_CLOCK_SKEW
  started : claims.notBefore ≤ later + AUTH_CLOCK_SKEW

/-- the trace of both halves -/
def Passed.trace {lib : AuthLib} {runtime : Runtime} {request : Request}
    (g : Passed lib runtime request) :
    List Event :=
  [.clock g.now, .verify g.token g.now (.ok g.claims), .query .selectSessions,
    .completed .selectSessions g.result, .clock g.later, .verified g.claims]

/-- the identity of a request that passed -/
def Passed.identity {lib : AuthLib} {runtime : Runtime} {request : Request}
    (g : Passed lib runtime request) :
    Option AuthIdentity := some ⟨g.claims, true⟩

/-! ## waiting states -/

/-- the state of a login after its users were read -/
def loginState (input : AuthRequest) : Option User → AuthState
  | some user => { input := { input with password := [] }, userId := user.id, foundUser := true }
  | none => { input := { input with password := [] } }

/-- a request that waits for `op`; `chain` starts with the stage that will be called -/
def waitingFor (request : Request) (chain : List Stage) (appData : AppData)
    (authData : Option AuthIdentity) (op : Op) (trace : List Event) : ReqState :=
  ⟨⟨request, chain, appData, authData⟩, some .wait, [op], trace⟩

/-- neither a response nor the start of an operation -/
def Event.isQuiet : Event → Bool
  | .query _ | .submit _ | .respond _ => false
  | _ => true

section
variable (lib : AuthLib) (runtime : Runtime) (request : Request)

/-- the waiting states of the route whose chain is the first argument -/
inductive Waiting : List Stage → ReqState → Prop where
  | hello2 {t} (ht : t = [.query .selectHello]) :
      Waiting [.hello1, .hello2] (waitingFor request [.hello2] .none none (.db .selectHello) t)
  | getChallenges2 {t} (clocks : List Int)
      (ht : t = clocks.map .clock ++ [.query .selectChallengesWithoutFlag]) :
      Waiting [.getChallenges1, .getChallenges2]
        (waitingFor request [.getChallenges2] .none none (.db .selectChallengesWithoutFlag) t)
  | getUsers2 {t} (ht : t = [.query .selectPublicUsers]) :
      Waiting [.getUsers1, .getUsers2, .getUsers3]
        (waitingFor request [.getUsers2, .getUsers3] (.users []) none (.db .selectPublicUsers) t)
  | getUsers3 {t} (r : DbResult) (mem : Bool) (users : List PublicUser)
      (hr : bindPublicUsers mem r = some users)
      (ht : t = [.query .selectPublicUsers, .completed .selectPublicUsers r,
        .query .selectScoreAnswers]) :
      Waiting [.getUsers1, .getUsers2, .getUsers3]
        (waitingFor request [.getUsers3] (.users users) none (.db .selectScoreAnswers) t)
  | getAnswers2 {t} (id : Nat) (hid : answerFilter request = some id)
      (ht : t = [.query .selectChallenges]) :
      Waiting [.getAnswers1, .getAnswers2, .getAnswers3]
        (waitingFor request [.getAnswers2, .getAnswers3] (.list id) none (.db .selectChallenges) t)
  | getAnswers3 {t} (id : Nat) (hid : answerFilter request = some id) (r : DbResult)
      (ht : t = [.query .selectChallenges, .completed .selectChallenges r, .query .selectAnswers]) :
      Waiting [.getAnswers1, .getAnswers2, .getAnswers3]
        (waitingFor request [.getAnswers3] (.list id) none (.db .selectAnswers) t)
  | signup2 {t} (input : AuthRequest) (hb : request.Credentials input)
      (ht : t = [.query .selectUsers]) :
      Waiting [.signup1, .signup2, .signup3, .signup4, .signup5]
        (waitingFor request [.signup2, .signup3, .signup4, .signup5] (.auth { input := input }) none
          (.db .selectUsers) t)
  | signup3 {t} (input : AuthRequest) (hb : request.Credentials input) (r : DbResult)
      (job : PasswordJob)
      (hj : PasswordJob.make runtime.config.dummyHash .hash input.password none = some job)
      (ht : t = [.query .selectUsers, .completed .selectUsers r, .submit job]) :
      Waiting [.signup1, .signup2, .signup3, .signup4, .signup5]
        (waitingFor request [.signup3, .signup4, .signup5] (.auth (loginState input none)) none
          (.password job) t)
  | signup4 {t} (input : AuthRequest) (hb : request.Credentials input) (r : DbResult)
      (job : PasswordJob)
      (hj : PasswordJob.make runtime.config.dummyHash .hash input.password none = some job)
      (result : PasswordResult) (hr : result.failure = none)
      (hc : result.cancelled = false) (id : Bytes)
      (hid : validId id = true)
      (ht : t = [.query .selectUsers, .completed .selectUsers r, .submit job, .finished job result,
        .generated id, .query (.insertUser id input.username result.hash)]) :
      Waiting [.signup1, .signup2, .signup3, .signup4, .signup5]
        (waitingFor request [.signup4, .signup5]
          (.auth { loginState input none with
            userId := id, response := signupText id input.username }) none
          (.db (.insertUser id input.username result.hash)) t)
  | signup5 {t} (input : AuthRequest) (hb : request.Credentials input) (r : DbResult)
      (job : PasswordJob)
      (result : PasswordResult) (state : AuthState)
      (hs : state.input.username = input.username) (id : Bytes)
      (hid : validId id = true) (r2 : DbResult) (hr2 : r2.success = false)
      (ht : t = [.query .selectUsers, .completed .selectUsers r, .submit job, .finished job result,
        .generated id, .query (.insertUser id input.username result.hash),
        .completed (.insertUser id input.username result.hash) r2, .query .selectUsers]) :
      Waiting [.signup1, .signup2, .signup3, .signup4, .signup5]
        (waitingFor request [.signup5] (.auth state) none (.db .selectUsers) t)
  | login2 {t} (input : AuthRequest) (hb : request.Credentials input)
      (ht : t = [.query .selectUsers]) :
      Waiting [.login1, .login2, .login3, .login4, .login5]
        (waitingFor request [.login2, .login3, .login4, .login5] (.auth { input := input }) none
          (.db .selectUsers) t)
  | login3 {t} (input : AuthRequest) (hb : request.Credentials input) (r : DbResult) (mem : Bool)
      (users : List User) (hu : bindUsers mem r = some users) (job : PasswordJob)
      (hj : PasswordJob.make runtime.config.dummyHash .verify input.password
        ((users.find? fun user => user.username == input.username).map User.passwordHash) =
        some job)
      (ht : t = [.query .selectUsers, .completed .selectUsers r, .submit job]) :
      Waiting [.login1, .login2, .login3, .login4, .login5]
        (waitingFor request [.login3, .login4, .login5]
          (.auth (loginState input (users.find? fun user => user.username == input.username))) none
          (.password job) t)
  | login4 {t} (input : AuthRequest) (hb : request.Credentials input) (r : DbResult) (mem : Bool)
      (users : List User) (hu : bindUsers mem r = some users) (user : User)
      (hf : (users.find? fun user => user.username == input.username) = some user)
      (job : PasswordJob)
      (hj : PasswordJob.make runtime.config.dummyHash .verify input.password
        (some user.passwordHash) = some job)
      (result : PasswordResult) (hr : result.failure = none) (hc : result.cancelled = false)
      (ht : t = [.query .selectUsers, .completed .selectUsers r, .submit job, .finished job result,
        .query .deleteExpiredSessions]) :
      Waiting [.login1, .login2, .login3, .login4, .login5]
        (waitingFor request [.login4, .login5] (.auth (loginState input (some user))) none
          (.db .deleteExpiredSessions) t)
  | login5 {t} (input : AuthRequest) (hb : request.Credentials input) (r : DbResult) (mem : Bool)
      (users : List User) (hu : bindUsers mem r = some users) (user : User)
      (hf : (users.find? fun user => user.username == input.username) = some user)
      (job : PasswordJob)
      (hj : PasswordJob.make runtime.config.dummyHash .verify input.password
        (some user.passwordHash) = some job)
      (result : PasswordResult) (hr : result.failure = none) (hc : result.cancelled = false)
      (r2 : DbResult) (hr2 : r2.success = true) (now : Int) (id token : Bytes)
      (hid : validId id = true)
      (hi : ∃ alloc, authTokenIssue lib alloc runtime.config user.id id now = .ok token)
      (ht : t = [.query .selectUsers, .completed .selectUsers r, .submit job, .finished job result,
        .query .deleteExpiredSessions, .completed .deleteExpiredSessions r2, .clock now,
        .generated id,
        .query (.insertSession id user.id now (now + runtime.config.ttl))]) :
      Waiting [.login1, .login2, .login3, .login4, .login5]
        (waitingFor request [.login5]
          (.auth { loginState input (some user) with
            sessionId := id, issuedAt := now, response := loginText token }) none
          (.db (.insertSession id user.id now (now + runtime.config.ttl))) t)
  | auth2 {t} (rest : List Stage) (a : Accepted lib runtime request) (ht : t = a.trace) :
      Waiting (.auth1 :: .auth2 :: rest)
        (waitingFor request (.auth2 :: rest) .none (some ⟨a.claims, false⟩) (.db .selectSessions) t)
  | logout2 {t} (g : Passed lib runtime request)
      (ht : t = g.trace ++ [.query (.deleteSession g.claims.sessionId g.claims.userId)]) :
      Waiting [.auth1, .auth2, .logout1, .logout2]
        (waitingFor request [.logout2] .none g.identity
          (.db (.deleteSession g.claims.sessionId g.claims.userId)) t)
  | getOwnChallenges2 {t} (g : Passed lib runtime request)
      (ht : t = g.trace ++ [.query .selectChallenges]) :
      Waiting [.auth1, .auth2, .getOwnChallenges1, .getOwnChallenges2]
        (waitingFor request [.getOwnChallenges2] .none g.identity (.db .selectChallenges) t)
  | getOwnAnswers2 {t} (g : Passed lib runtime request) (id : Nat)
      (hid : answerFilter request = some id)
      (ht : t = g.trace ++ [.query .selectChallenges]) :
      Waiting [.auth1, .auth2, .getOwnAnswers1, .getOwnAnswers2, .getOwnAnswers3]
        (waitingFor request [.getOwnAnswers2, .getOwnAnswers3] (.list id) g.identity
          (.db .selectChallenges) t)
  | getOwnAnswers3 {t} (g : Passed lib runtime request) (id : Nat)
      (hid : answerFilter request = some id)
      (r : DbResult)
      (ht : t = g.trace ++ [.query .selectChallenges, .completed .selectChallenges r,
        .query .selectAnswers]) :
      Waiting [.auth1, .auth2, .getOwnAnswers1, .getOwnAnswers2, .getOwnAnswers3]
        (waitingFor request [.getOwnAnswers3] (.list id) g.identity (.db .selectAnswers) t)
  | postChallenges2 {t} (g : Passed lib runtime request) (input : CreateChallengeRequest)
      (hb : request.NewChallenge input)
      (ht : t = g.trace ++ [.query
        (.insertChallenge g.claims.userId input.name input.description input.flag
        input.genre.code)]) :
      Waiting [.auth1, .auth2, .postChallenges1, .postChallenges2]
        (waitingFor request [.postChallenges2] .none g.identity
          (.db (.insertChallenge g.claims.userId input.name input.description input.flag
            input.genre.code)) t)
  | putChallenges2 {t} (g : Passed lib runtime request) (id : Nat)
      (hid : readChallengeId request = some id)
      (input : CreateChallengeRequest) (hb : request.NewChallenge input)
      (ht : t = g.trace ++ [.query .selectOwners]) :
      Waiting [.auth1, .auth2, .putChallenges1, .putChallenges2, .putChallenges3, .putChallenges4]
        (waitingFor request [.putChallenges2, .putChallenges3, .putChallenges4]
          (.write ⟨id, input⟩) g.identity
          (.db .selectOwners) t)
  | putChallenges3 {t} (g : Passed lib runtime request) (id : Nat)
      (hid : readChallengeId request = some id)
      (input : CreateChallengeRequest) (hb : request.NewChallenge input) (r : DbResult)
      (hr : challengeWriteAccess r id g.claims.userId = .ok)
      (ht : t = g.trace ++ [.query .selectOwners, .completed .selectOwners r,
        .query (.updateChallenge input.name input.description input.flag input.genre.code id
          g.claims.userId)]) :
      Waiting [.auth1, .auth2, .putChallenges1, .putChallenges2, .putChallenges3, .putChallenges4]
        (waitingFor request [.putChallenges3, .putChallenges4] (.write ⟨id, input⟩) g.identity
          (.db (.updateChallenge input.name input.description input.flag input.genre.code id
            g.claims.userId)) t)
  | putChallenges4 {t} (g : Passed lib runtime request) (id : Nat)
      (hid : readChallengeId request = some id)
      (input : CreateChallengeRequest) (hb : request.NewChallenge input) (r : DbResult)
      (hr : challengeWriteAccess r id g.claims.userId = .ok) (r2 : DbResult)
      (hr2 : r2.success = true)
      (ha : r2.affected = 0)
      (ht : t = g.trace ++ [.query .selectOwners, .completed .selectOwners r,
        .query (.updateChallenge input.name input.description input.flag input.genre.code id
          g.claims.userId),
        .completed (.updateChallenge input.name input.description input.flag input.genre.code id
          g.claims.userId) r2,
        .query .selectOwners]) :
      Waiting [.auth1, .auth2, .putChallenges1, .putChallenges2, .putChallenges3, .putChallenges4]
        (waitingFor request [.putChallenges4] (.write ⟨id, input⟩) g.identity (.db .selectOwners) t)
  | deleteChallenges2 {t} (g : Passed lib runtime request) (id : Nat)
      (hid : readChallengeId request = some id)
      (ht : t = g.trace ++ [.query .selectOwners]) :
      Waiting [.auth1, .auth2, .deleteChallenges1, .deleteChallenges2, .deleteChallenges3,
        .deleteChallenges4]
        (waitingFor request [.deleteChallenges2, .deleteChallenges3, .deleteChallenges4]
          (.write { id := id })
          g.identity (.db .selectOwners) t)
  | deleteChallenges3 {t} (g : Passed lib runtime request) (id : Nat)
      (hid : readChallengeId request = some id)
      (r : DbResult) (hr : challengeWriteAccess r id g.claims.userId = .ok)
      (ht : t = g.trace ++ [.query .selectOwners, .completed .selectOwners r,
        .query (.deleteChallenge id g.claims.userId)]) :
      Waiting [.auth1, .auth2, .deleteChallenges1, .deleteChallenges2, .deleteChallenges3,
        .deleteChallenges4]
        (waitingFor request [.deleteChallenges3, .deleteChallenges4]
          (.write { id := id }) g.identity
          (.db (.deleteChallenge id g.claims.userId)) t)
  | deleteChallenges4 {t} (g : Passed lib runtime request) (id : Nat)
      (hid : readChallengeId request = some id)
      (r : DbResult) (hr : challengeWriteAccess r id g.claims.userId = .ok) (r2 : DbResult)
      (hr2 : r2.success = true) (ha : r2.affected = 0)
      (ht : t = g.trace ++ [.query .selectOwners, .completed .selectOwners r,
        .query (.deleteChallenge id g.claims.userId),
        .completed (.deleteChallenge id g.claims.userId) r2,
        .query .selectOwners]) :
      Waiting [.auth1, .auth2, .deleteChallenges1, .deleteChallenges2, .deleteChallenges3,
        .deleteChallenges4]
        (waitingFor request [.deleteChallenges4] (.write { id := id }) g.identity
          (.db .selectOwners) t)
  | postAnswers2 {t} (g : Passed lib runtime request) (input : SubmitAnswerRequest)
      (hb : request.NewAnswer input) (ht : t = g.trace ++ [.query .selectChallenges]) :
      Waiting [.auth1, .auth2, .postAnswers1, .postAnswers2, .postAnswers3, .postAnswers4,
        .postAnswers5]
        (waitingFor request [.postAnswers2, .postAnswers3, .postAnswers4, .postAnswers5]
          (.submit { input := input }) g.identity (.db .selectChallenges) t)
  | postAnswers3 {t} (g : Passed lib runtime request) (input : SubmitAnswerRequest)
      (hb : request.NewAnswer input) (r : DbResult) (mem : Bool) (challenges : List Challenge)
      (hr : readChallenges mem r = some challenges) (challenge : Challenge)
      (hf : (challenges.find? fun challenge => challenge.id == (input.challengeId : Int)) =
        some challenge)
      (correct : Bool) (hq : equalDecoded challenge.flag input.answer = some correct)
      (ht : t = g.trace ++ [.query .selectChallenges, .completed .selectChallenges r,
        .query (.insertAnswer input.challengeId g.claims.userId input.answer correct)]) :
      Waiting [.auth1, .auth2, .postAnswers1, .postAnswers2, .postAnswers3, .postAnswers4,
        .postAnswers5]
        (waitingFor request [.postAnswers3, .postAnswers4, .postAnswers5]
          (.submit { input := input }) g.identity
          (.db (.insertAnswer input.challengeId g.claims.userId input.answer correct)) t)
  | postAnswers4 {t} (g : Passed lib runtime request) (input : SubmitAnswerRequest)
      (hb : request.NewAnswer input) (r : DbResult) (mem : Bool) (challenges : List Challenge)
      (hr : readChallenges mem r = some challenges) (challenge : Challenge)
      (hf : (challenges.find? fun challenge => challenge.id == (input.challengeId : Int)) =
        some challenge)
      (correct : Bool) (hq : equalDecoded challenge.flag input.answer = some correct)
        (r2 : DbResult)
      (hr2 : r2.success = true) (ha : r2.affected = 1)
        (hi : 0 < r2.insertId ∧ r2.insertId ≤ INT_MAX)
      (ht : t = g.trace ++ [.query .selectChallenges, .completed .selectChallenges r,
        .query (.insertAnswer input.challengeId g.claims.userId input.answer correct),
        .completed (.insertAnswer input.challengeId g.claims.userId input.answer correct) r2,
        .query .selectAnswers]) :
      Waiting [.auth1, .auth2, .postAnswers1, .postAnswers2, .postAnswers3, .postAnswers4,
        .postAnswers5]
        (waitingFor request [.postAnswers4, .postAnswers5] (.submit ⟨input, r2.insertId⟩) g.identity
          (.db .selectAnswers) t)
  | postAnswers5 {t} (g : Passed lib runtime request) (input : SubmitAnswerRequest)
      (hb : request.NewAnswer input) (r : DbResult) (mem : Bool) (challenges : List Challenge)
      (hr : readChallenges mem r = some challenges) (challenge : Challenge)
      (hf : (challenges.find? fun challenge => challenge.id == (input.challengeId : Int)) =
        some challenge)
      (correct : Bool) (hq : equalDecoded challenge.flag input.answer = some correct)
        (r2 : DbResult)
      (hr2 : r2.success = false)
      (ht : t = g.trace ++ [.query .selectChallenges, .completed .selectChallenges r,
        .query (.insertAnswer input.challengeId g.claims.userId input.answer correct),
        .completed (.insertAnswer input.challengeId g.claims.userId input.answer correct) r2,
        .query .selectChallenges]) :
      Waiting [.auth1, .auth2, .postAnswers1, .postAnswers2, .postAnswers3, .postAnswers4,
        .postAnswers5]
        (waitingFor request [.postAnswers5] (.submit { input := input }) g.identity
          (.db .selectChallenges) t)

/-- a call that answers: one response, at the end, and nothing enqueued -/
structure Outcome.Done (o : Outcome) (response : Response) : Prop where
  verdict : o.verdict = .respond response
  events : ∃ events, o.events = events ++ [.respond response] ∧ events.all Event.isQuiet = true

/-- the states after the last call of the chain -/
inductive Finished (meets : Env → Prop) (chain : List Stage) : ReqState → Prop where
  | atOnce {env : Env} {response : Response} (hmeets : meets env)
      (hd : (dispatch lib runtime env request).Done response) :
      Finished meets chain (.start (dispatch lib runtime env request))
  | last {s : ReqState} {op : Op} {input : Input} {done : List Event} {env : Env}
      {response : Response}
      (hmeets : meets env)
      (hw : Waiting lib runtime request chain s) (hp : s.pending = [op]) (hc : Completion op input done)
      (hd : (runStages lib runtime env input s.ctx s.ctx.chain).Done response) :
      Finished meets chain (s.resume op done (runStages lib runtime env input s.ctx s.ctx.chain))
  | discard {s : ReqState} {op : Op} {done : List Event}
      (hw : Waiting lib runtime request chain s) (hp : s.pending = [op]) (hc : Discarded op done) :
      Finished meets chain (s.discard op done)
  | cancel {s : ReqState} {job : PasswordJob}
      (hw : Waiting lib runtime request chain s) (hp : s.pending = [.password job]) :
      Finished meets chain (s.cancel (.password job))

end

end App

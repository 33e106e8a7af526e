import CtfServer.App.Comparisons

/-!
# The check of the token comes first

* `OnlyUser`        the events use one user id only;
* `Request.protects`   the effects that need a verified user;
* `Reach.gated`     a request has no such effect, or passed the check before;
* `protected_after_check`   **the check gates every protected effect**.
-/

set_option linter.unusedVariables false
set_option linter.unusedSimpArgs false

namespace App

open Http (HttpMethod)

/-! ## user ids -/

/-- the user ids that an event takes as parameters -/
def Event.users : Event → List Bytes
  | .query q => q.users
  | _ => []

/-- the events use no user id but `u` -/
def OnlyUser (u : Bytes) (events : List Event) : Prop := ∀ e ∈ events, ∀ v ∈ e.users, v = u

@[simp] theorem onlyUser_nil (u : Bytes) : OnlyUser u [] := by simp [OnlyUser]

@[simp] theorem onlyUser_cons (u : Bytes) (e : Event) (l : List Event) :
    OnlyUser u (e :: l) ↔ (∀ v ∈ e.users, v = u) ∧ OnlyUser u l := by simp [OnlyUser]

@[simp] theorem onlyUser_append (u : Bytes) (a b : List Event) :
    OnlyUser u (a ++ b) ↔ OnlyUser u a ∧ OnlyUser u b := by
  simp only [OnlyUser, List.mem_append]
  grind

@[simp] theorem onlyUser_finish (u : Bytes) (ctx : Ctx) (events : List Event) (r : Response) :
    OnlyUser u (ctx.finish events r).events ↔ OnlyUser u events := by
  simp [Ctx.finish, Event.users]

@[simp] theorem onlyUser_unauthorized (u : Bytes) (ctx : Ctx) (events : List Event) :
    OnlyUser u (ctx.unauthorized events).events ↔ OnlyUser u events :=
    onlyUser_finish u ctx events _

@[simp] theorem onlyUser_crash (u : Bytes) (ctx : Ctx) :
    OnlyUser u ctx.crash.events := by simp [Ctx.crash]

theorem onlyUser_exec {u : Bytes} {env : Env} {ctx : Ctx} {events : List Event} {q : Query}
    {r : Response}
    (h : OnlyUser u events) (hq : ∀ v ∈ q.users, v = u) :
    OnlyUser u (ctx.exec env events q r).events := by
  unfold Ctx.exec
  split
  · simp [Event.users, h]; exact hq
  · simp [h]

theorem onlyUser_submit {u : Bytes} {runtime : Runtime} {env : Env} {ctx : Ctx} {state : AuthState}
    {operation : PasswordOperation} {hash : Option Bytes} :
    OnlyUser u (ctx.submitPassword runtime env state operation hash).events := by
  unfold Ctx.submitPassword
  dsimp only
  repeat' split
  all_goals simp [Event.users]

theorem reading_users {u : Bytes} {events : List Event} (h : events.all Event.isReading = true) :
    OnlyUser u events := by
  intro e he v hv
  have hread := List.all_eq_true.1 h e he
  cases e with
  | query => cases hread
  | _ => cases hv

theorem Stage.run_users (lib : AuthLib) (runtime : Runtime) (env : Env) (input : Input) (ctx : Ctx)
    (stage : Stage) (claims : AuthClaims) (h1 : stage ≠ .signup3) (h2 : stage ≠ .login4)
    (h3 : stage ≠ .auth2)
    (hc : ctx.authData = some ⟨claims, true⟩) :
    OnlyUser claims.userId (stage.run lib runtime env input ctx).events := by
  have hbytes : ctx.userBytes = claims.userId := by simp [Ctx.userBytes, Ctx.user, hc]
  have hends := Stage.ends lib runtime env input ctx stage h3
  generalize stage.run lib runtime env input ctx = o at hends
  cases hends with
  | crash => exact onlyUser_crash _ _
  | finish events r he => exact (onlyUser_finish ..).2 (reading_users he)
  | exec c events q refused hauth he hq =>
    rcases hq with rfl | rfl | hq
    · exact absurd rfl h1
    · exact absurd rfl h2
    · exact onlyUser_exec (reading_users he) (hbytes ▸ hq)
  | submit => exact onlyUser_submit

/-! ## protected effects -/

/-- the routes behind the check -/
def guardedRoutes : List (HttpMethod × Bytes) :=
  [(.get, ascii "/challenges/me"), (.post, ascii "/challenges"), (.put, ascii "/challenges"),
    (.delete, ascii "/challenges"), (.post, ascii "/answers"), (.get, ascii "/answers/me"),
    (.post, ascii "/logout")]

/-- the routes that read the user's own rows -/
def ownRoutes : List (HttpMethod × Bytes) :=
  [(.get, ascii "/challenges/me"), (.get, ascii "/answers/me")]

/-- the statements that change challenges, add answers or end a session -/
def Query.isGuardedWrite : Query → Bool
  | .insertChallenge .. | .updateChallenge .. | .deleteChallenge .. | .insertAnswer ..
    | .deleteSession .. => true
  | _ => false

/-- the effects that need a verified user -/
def Request.protects (request : Request) : Event → Bool
  | .query q =>
    q.isGuardedWrite ||
      ((q == .selectChallenges || q == .selectAnswers) && ownRoutes.contains
        (request.method, request.uri))
  | .respond r => r.status.isSuccess && guardedRoutes.contains (request.method, request.uri)
  | _ => false

theorem chain_of_guarded {request : Request}
    (h : guardedRoutes.contains (request.method, request.uri) = true) :
    ∃ rest, request.chain = .auth1 :: .auth2 :: rest := by
  have hall : ∀ p ∈ guardedRoutes, ((findRoute p.1 p.2).map Route.chain).map (List.take 2) =
      some [Stage.auth1, Stage.auth2] := by decide +kernel
  have hm := hall _ (List.contains_iff_mem.1 h)
  unfold Request.chain Request.route
  cases hr : findRoute request.method request.uri with
  | none => rw [hr] at hm; cases hm
  | some route =>
    rw [hr] at hm
    simp only [Option.map_some, Option.some.injEq] at hm
    match hc : route.chain, hm with
    | a :: b :: rest, hm =>
      cases hm
      exact ⟨rest, hc⟩

theorem guarded_of_own {p : HttpMethod × Bytes} (h : ownRoutes.contains p = true) :
    guardedRoutes.contains p = true := by
  have hall : ∀ p ∈ ownRoutes, guardedRoutes.contains p = true := by decide +kernel
  exact hall p (List.contains_iff_mem.1 h)

theorem protects_quiet {request : Request} {e : Event} (h : e.isQuiet = true) :
    request.protects e = false := by
  cases e <;> first | rfl | cases h

/-- off the guarded routes only the writes are protected -/
theorem protects_public {request : Request} {e : Event}
    (h : guardedRoutes.contains (request.method, request.uri) = false)
    (hw : ∀ q, e = .query q → q.isGuardedWrite = false) : request.protects e = false := by
  have ho : ownRoutes.contains (request.method, request.uri) = false := by
    cases hc : ownRoutes.contains (request.method, request.uri) with
    | false => rfl
    | true => rw [guarded_of_own hc] at h; cases h
  cases e with
  | query q => simp only [Request.protects, ho, hw q rfl, Bool.and_false, Bool.or_false]
  | respond r => simp only [Request.protects, h, Bool.and_false]
  | _ => rfl

section
variable {lib : AuthLib} {runtime : Runtime} {request : Request}

/-- no protected effect, or the check was passed before -/
inductive Gated (lib : AuthLib) (runtime : Runtime) (request : Request) (trace : List Event) :
    Prop where
  | closed (h : ∀ e ∈ trace, request.protects e = false)
  | opened (g : Passed lib runtime request) (rest : List Event) (ht : trace = g.trace ++ rest)
      (hu : OnlyUser g.claims.userId rest) (hc : Compares request g.claims.userId trace)

/-! ## waiting states -/

/-- the part of the check that a waiting state is at -/
inductive GatePhase (lib : AuthLib) (runtime : Runtime) (request : Request) (chain : List Stage)
    (s : ReqState) :
    Prop where
  | outside (hr : guardedRoutes.contains (request.method, request.uri) = false)
      (hw : ∀ q, .query q ∈ s.trace → q.isGuardedWrite = false)
  | checking (a : Accepted lib runtime request) (rest : List Stage)
      (hr : chain = .auth1 :: .auth2 :: rest)
      (hs : s = waitingFor request (.auth2 :: rest) .none (some ⟨a.claims, false⟩)
        (.db .selectSessions) a.trace)
  | inside (g : Passed lib runtime request) (rest : List Event) (ht : s.trace = g.trace ++ rest)
      (hu : OnlyUser g.claims.userId rest) (hi : s.ctx.authData = some ⟨g.claims, true⟩)
      (hc : ∃ stage stages, s.ctx.chain = stage :: stages ∧
        stage ∉ [Stage.auth2, .signup3, .login4])

theorem not_guarded {chain : List Stage} (hc : request.chain = chain)
    (h : chain.head? ≠ some .auth1) :
    guardedRoutes.contains (request.method, request.uri) = false := by
  cases hg : guardedRoutes.contains (request.method, request.uri) with
  | false => rfl
  | true =>
    obtain ⟨rest, hr⟩ := chain_of_guarded hg
    rw [← hc, hr] at h
    exact absurd rfl h

theorem Waiting.gatePhase {s : ReqState} (h : Waiting lib runtime request request.chain s) :
    GatePhase lib runtime request request.chain s := by
  generalize hc : request.chain = chain at h
  cases h with
  | auth2 rest a ht => exact .checking a rest rfl (by rw [ht])
  | logout2 g ht | getOwnChallenges2 g ht | getOwnAnswers2 g id hid ht
    | getOwnAnswers3 g id hid r ht
    | postChallenges2 g input hb ht | putChallenges2 g id hid input hb ht
      | putChallenges3 g id hid input hb r hr ht
    | putChallenges4 g id hid input hb r hr r2 hr2 ha ht | deleteChallenges2 g id hid ht
    | deleteChallenges3 g id hid r hr ht | deleteChallenges4 g id hid r hr r2 hr2 ha ht
    | postAnswers2 g input hb ht
      | postAnswers3 g input hb r mem challenges hr challenge hf correct hq ht
    | postAnswers4 g input hb r mem challenges hr challenge hf correct hq r2 hr2 ha hi ht
    | postAnswers5 g input hb r mem challenges hr challenge hf correct hq r2 hr2 ht =>
    exact .inside g _ ht (by simp [Event.users, Query.users]) rfl ⟨_, _, rfl, by decide⟩
  | hello2 ht | getChallenges2 clocks ht | getUsers2 ht | getUsers3 r mem users hr ht
    | getAnswers2 id hid ht
    | getAnswers3 id hid r ht | signup2 input hb ht | signup3 input hb r job hj ht
    | signup4 input hb r job hj result hr hcn id hid ht
    | signup5 input hb r job result state hs id hid r2 hr2 ht
    | login2 input hb ht | login3 input hb r mem users hu job hj ht
    | login4 input hb r mem users hu user hf job hj result hr hcn ht
    | login5 input hb r mem users hu user hf job hj result hr hcn r2 hr2 now id token hid hi ht =>
    refine .outside (not_guarded hc (by decide)) fun q hq => ?_
    subst ht
    simp [waitingFor] at hq
    grind [Query.isGuardedWrite]

theorem Accepted.closed (a : Accepted lib runtime request) :
    ∀ e ∈ a.trace, request.protects e = false := by
  simp [Accepted.trace, Request.protects, Query.isGuardedWrite]

/-- what ends a waiting request without a call -/
def Event.isLost (e : Event) : Prop := (∃ q r, e = .discarded q r) ∨ e = .respond cancelledResponse

/-- a waiting request, and what ends it without a call -/
theorem Waiting.gated {s : ReqState} (hw : Waiting lib runtime request request.chain s)
    (events : List Event)
    (hlost : ∀ e ∈ events, e.isLost) : Gated lib runtime request (s.trace ++ events) := by
  have hclosed : ∀ e ∈ events, request.protects e = false ∧ e.users = [] := by
    intro e he
    rcases hlost e he with ⟨q, r, rfl⟩ | rfl <;> exact ⟨rfl, rfl⟩
  cases hw.gatePhase with
  | outside hr hq =>
    refine .closed fun e he => ?_
    rcases List.mem_append.1 he with he | he
    · exact protects_public hr fun q heq => hq q (heq ▸ he)
    · exact (hclosed e he).1
  | checking a rest hr hs =>
    subst hs
    refine .closed fun e he => ?_
    rcases List.mem_append.1 he with he | he
    · exact a.closed e he
    · exact (hclosed e he).1
  | inside g rest ht hu hi hc =>
    obtain ⟨hfollows, hlast⟩ :=
      hw.follows (show s.ctx.user = some g.claims.userId by simp [Ctx.user, hi])
    have hwaits : Compares request g.claims.userId s.trace :=
      ⟨hfollows, fun _ _ r hr => absurd hr (hw.noRespond r), fun _ _ r hr =>
        absurd hr (hw.noRespond r)⟩
    refine .opened g (rest ++ events) (by rw [ht, List.append_assoc])
      ((onlyUser_append ..).2 ⟨hu, ?_⟩) ?_
    · intro e he v hv
      rw [(hclosed e he).2] at hv
      cases hv
    · refine hwaits.append hlast fun e he => ?_
      rcases hlost e he with ⟨q, r, rfl⟩ | rfl
      · simp
      · simp [cancelledResponse]

/-! ## the last call -/

theorem finish_refused {ctx : Ctx} {events : List Event} {response r : Response}
    (h : (ctx.finish events response).verdict = .respond r)
    (hs : response.status.isSuccess = false) :
    r.status.isSuccess = false := by
  cases h
  exact hs

/-- the statuses of the check -/
def HttpStatus.ofCheck (status : HttpStatus) : Bool :=
  status == .unauthorized || status == .internalServerError

theorem HttpStatus.ofCheck_refused {status : HttpStatus} (h : status.ofCheck = true) :
    status.isSuccess = false := by
  cases status <;> first | rfl | cases h

theorem handleAuth1_refused {env : Env} {ctx : Ctx} {r : Response}
    (h : (handleAuth1 lib runtime env ctx).verdict = .respond r) : r.status.ofCheck = true := by
  unfold handleAuth1 Ctx.unauthorized Ctx.exec at h
  dsimp only at h
  repeat' split at h
  all_goals (cases h; try rfl)

theorem handleAuth2_refused {env : Env} {ctx : Ctx} {task : DbTask} {r : Response}
    (h : (handleAuth2 env ctx task).verdict = .respond r) : r.status.ofCheck = true := by
  unfold handleAuth2 Ctx.unauthorized at h
  repeat' split at h
  all_goals (cases h; try rfl)

/-- an answer that is no success has no protected effect -/
theorem Outcome.Done.closed {o : Outcome} {response : Response} (h : o.Done response)
    (hr : response.status.isSuccess = false) : ∀ e ∈ o.events, request.protects e = false := by
  obtain ⟨-, events, he, hq⟩ := h
  intro e hmem
  rw [he, List.mem_append, List.mem_singleton] at hmem
  rcases hmem with hmem | rfl
  · exact protects_quiet (List.all_eq_true.1 hq e hmem)
  · simp only [Request.protects, hr, Bool.false_and]

/-- off the guarded routes an answer has no protected effect -/
theorem Outcome.Done.closed_public {o : Outcome} {response : Response} (h : o.Done response)
    (hg : guardedRoutes.contains (request.method, request.uri) = false) :
    ∀ e ∈ o.events, request.protects e = false := by
  obtain ⟨-, events, he, hq⟩ := h
  intro e hmem
  refine protects_public hg fun q heq => ?_
  subst heq
  rw [he, List.mem_append, List.mem_singleton] at hmem
  rcases hmem with hmem | hmem
  · exact absurd (List.all_eq_true.1 hq _ hmem) (by simp [Event.isQuiet])
  · cases hmem

/-- the only stage that calls its next one passes the check -/
theorem runStages_auth2 (a : Accepted lib runtime request) {rest : List Stage}
    (hchain : request.chain = .auth1 :: .auth2 :: rest) (env : Env) (r : DbResult)
    (hrest : ∃ stage stages, rest = stage :: stages ∧ stage ∉ [Stage.auth2, .signup3, .login4])
    {response : Response} (hd : (runStages lib runtime env { task := some ⟨.selectSessions, r⟩ }
      ⟨request, .auth2 :: rest, .none, some ⟨a.claims, false⟩⟩ (.auth2 :: rest)).Done response) :
    Gated lib runtime request (a.trace ++ [.completed .selectSessions r] ++
      (runStages lib runtime env { task := some ⟨.selectSessions, r⟩ }
        ⟨request, .auth2 :: rest, .none, some ⟨a.claims, false⟩⟩ (.auth2 :: rest)).events) := by
  obtain ⟨stage, stages, rfl, hstage⟩ := hrest
  rw [runStages] at hd ⊢
  simp only [Stage.run, Input.withTask] at hd ⊢
  rcases handleAuth2_cases a (stage :: stages) env r with ⟨resp, hresp⟩ | ⟨g, rfl, rfl, heq⟩
  · rw [hresp.verdict]
    have hno : ∀ e ∈ _, request.protects e = false :=
      hresp.closed (HttpStatus.ofCheck_refused (handleAuth2_refused hresp.verdict))
    refine .closed fun e he => ?_
    rw [List.mem_append, List.mem_append, List.mem_singleton] at he
    rcases he with (he | rfl) | he
    · exact a.closed e he
    · rfl
    · exact hno e he
  · rw [heq]
    dsimp only
    simp only [List.mem_cons, List.not_mem_nil, or_false, not_or] at hstage
    have htrace : g.toAccepted.trace ++ [.completed .selectSessions g.result] ++
        ([.clock g.later, .verified g.claims] ++
          (runStages lib runtime env {} ⟨request, stage :: stages, .none, g.identity⟩
          (stage :: stages)).events) = g.trace ++ (runStages lib runtime env {}
            ⟨request, stage :: stages, .none, g.identity⟩ (stage :: stages)).events := by
      simp only [Accepted.trace, Passed.trace, List.append_assoc, List.cons_append, List.nil_append]
    refine .opened g (runStages lib runtime env {} ⟨request, stage :: stages, .none, g.identity⟩
      (stage :: stages)).events htrace ?_ ?_
    · rw [runStages_plain _ _ _ _ _ _ _ hstage.1]
      exact Stage.run_users lib runtime env {} _ stage g.claims hstage.2.1 hstage.2.2 hstage.1 rfl
    · have hv := hd.verdict
      rw [heq] at hv
      dsimp only at hv
      rw [runStages_plain _ _ _ _ _ _ _ hstage.1] at hv
      rw [htrace, runStages_plain _ _ _ _ _ _ _ hstage.1]
      exact compares_first g hchain hstage.1 hv

/-- behind the check of every route stands a stage of its own -/
theorem guarded_rest {rest : List Stage} (h : request.chain = .auth1 :: .auth2 :: rest) :
    ∃ stage stages, rest = stage :: stages ∧ stage ∉ [Stage.auth2, .signup3, .login4] := by
  have hall : ∀ route ∈ routes, route.chain.take 2 = [.auth1, .auth2] →
      ((route.chain.drop 2).head?.any fun stage => stage ∉ [Stage.auth2, .signup3, .login4]) =
      true := by
    decide +kernel
  unfold Request.chain at h
  cases hr : request.route with
  | none => rw [hr] at h; cases h
  | some route =>
    rw [hr] at h
    dsimp only at h
    have hm := hall route (route_mem hr) (by rw [h]; rfl)
    rw [h] at hm
    match rest, hm with
    | stage :: stages, hm => exact ⟨stage, stages, rfl, by simpa using hm⟩

/-- **a request has no protected effect, or passed the check before** -/
theorem Reach.gated {meets : Env → Prop} {s : ReqState} (h : Reach lib runtime meets request s) :
    Gated lib runtime request s.trace := by
  rcases h.shape with hw | hf
  · exact List.append_nil s.trace ▸ hw.gated [] (List.forall_mem_nil _)
  cases hf with
  | @atOnce env response hmeets hd =>
    refine .closed ?_
    cases hg : guardedRoutes.contains (request.method, request.uri) with
    | false => exact hd.closed_public hg
    | true =>
      refine hd.closed ?_
      obtain ⟨rest, hrest⟩ := chain_of_guarded hg
      have hv := hd.verdict
      unfold dispatch at hv
      unfold Request.chain at hrest
      cases hr : request.route with
      | none => rw [hr] at hrest; cases hrest
      | some route =>
        rw [hr] at hv hrest
        dsimp only at hv hrest
        split at hv
        · exact finish_refused hv rfl
        · rw [hrest, runStages_plain _ _ _ _ _ _ _ (by decide)] at hv
          exact HttpStatus.ofCheck_refused (handleAuth1_refused hv)
  | @last s op input done env response hmeets hw hp hc hd =>
    have hdone : ∀ e ∈ done, request.protects e = false ∧ e.users = [] := by
      cases hc <;> simp [Request.protects, Event.users]
    cases hw.gatePhase with
    | outside hr hq =>
      refine .closed fun e he => ?_
      rcases List.mem_append.1 he with he | he
      · rcases List.mem_append.1 he with he | he
        · exact protects_public hr fun q heq => hq q (heq ▸ he)
        · exact (hdone e he).1
      · exact hd.closed_public hr e he
    | checking a rest hr hs =>
      subst hs
      cases hp
      cases hc with
      | task _ r => exact runStages_auth2 a hr env r (guarded_rest hr) hd
    | inside g rest ht hu hi hstage =>
      obtain ⟨stage, stages, hchain, hstage⟩ := hstage
      simp only [List.mem_cons, List.not_mem_nil, or_false, not_or] at hstage
      refine .opened g (rest ++ done ++ (runStages lib runtime env input s.ctx s.ctx.chain).events)
        ?_ ?_
        (hw.compares hp hc (by simp [Ctx.user, hi]) hd)
      · simp only [ReqState.resume, ht, List.append_assoc]
      · refine (onlyUser_append ..).2 ⟨(onlyUser_append ..).2 ⟨hu, ?_⟩, ?_⟩
        · intro e he v hv
          rw [(hdone e he).2] at hv
          cases hv
        · rw [hchain, runStages_plain _ _ _ _ _ _ _ hstage.1]
          exact Stage.run_users lib runtime env input _ stage g.claims hstage.2.1
            hstage.2.2 hstage.1 hi
  | @discard s op done hw hp hc =>
    refine hw.gated done fun e he => ?_
    cases hc with
    | task q r => exact .inl ⟨q, r, List.mem_singleton.1 he⟩
    | job => cases he
  | @cancel s job hw hp => exact hw.gated _ (List.forall_mem_singleton.2 (.inr rfl))

theorem Passed.closed (g : Passed lib runtime request) :
    ∀ e ∈ g.trace, request.protects e = false := by
  simp [Passed.trace, Request.protects, Query.isGuardedWrite]

theorem Passed.onlyUser (g : Passed lib runtime request) (u : Bytes) : OnlyUser u g.trace := by
  simp [Passed.trace, Event.users, Query.users]

/-- the one `Authorization` header of a request with a token -/
theorem token_header {token : Bytes} (h : request.token = some token) :
    ∃ header, request.headers.filter isAuthorization = [header] ∧ bearerToken header.2 =
    some token := by
  unfold Request.token authorizationValue at h
  split at h
  · next header hf => exact ⟨header, hf, h⟩
  · cases h

/-- the check came before the event: the token of the one `Authorization` header was accepted, the
session SELECT after that brought the row of its claims, and the clock was in range; the request
takes no other user id as a parameter, and compares with no other -/
def CheckedBefore (lib : AuthLib) (runtime : Runtime) (request : Request) (trace : List Event)
    (e : Event) : Prop :=
  ∃ (header : Bytes × Bytes) (token : Bytes) (issued : Int) (claims :
    AuthClaims) (result : DbResult)
    (later : Int) (rest : List Event),
    request.headers.filter isAuthorization = [header] ∧ bearerToken header.2 = some token ∧
    (∃ alloc, authTokenVerify lib alloc runtime.config token issued = .ok claims) ∧
    trace = [.clock issued, .verify token issued (.ok claims), .query .selectSessions,
      .completed .selectSessions result, .clock later, .verified claims] ++ rest ∧
    e ∈ rest ∧ SessionRow result claims ∧
    0 ≤ later ∧ later < claims.expiresAt + 30 ∧ claims.notBefore - 30 ≤ later ∧
    (∀ f ∈ trace, ∀ u ∈ f.users, u = claims.userId) ∧ Compares request claims.userId trace

/-- **every protected effect of a request comes after its check** -/
theorem protected_after_check {meets : Env → Prop} {s : ReqState}
    (h : Reach lib runtime meets request s)
    {e : Event} (he : e ∈ s.trace) (hp : request.protects e = true) :
    CheckedBefore lib runtime request s.trace e := by
  cases h.gated with
  | closed hno => rw [hno e he] at hp; cases hp
  | opened g rest ht hu hcompares =>
    obtain ⟨header, hheader, htoken⟩ := token_header g.carried
    refine ⟨header, g.token, g.now, g.claims, g.result, g.later, rest, hheader, htoken, g.verified,
      ht, ?_, g.row,
      g.laterClock, g.running, ?_, ?_, hcompares⟩
    · rw [ht, List.mem_append] at he
      rcases he with he | he
      · rw [g.closed e he] at hp; cases hp
      · exact he
    · have := g.started
      simp only [AUTH_CLOCK_SKEW] at this
      omega
    · rw [ht]
      exact (onlyUser_append ..).2 ⟨g.onlyUser _, hu⟩

end

/-! ## a deletion and a list -/

def sampleUser : Bytes := ascii "00000000000000000000000000000001"
def sampleSession : Bytes := ascii "0000000000000000000000000000000a"

def sampleRuntime : Runtime :=
  { config := ⟨ascii "0123456789abcdef0123456789abcdef", ascii "ctf", ascii "ctf", 3600,
    ascii "$argon2id$"⟩ }

def sampleHeader : Bytes := ascii "eyJhbGciOiJIUzI1NiIsInR5cCI6IkpXVCJ9"

def samplePayload : Bytes :=
  ascii "eyJhdWQiOiJjdGYiLCJleHAiOjQ2MDAsImlhdCI6MTAwMCwiaXNzIjoiY3RmIiwianRpIjoiMDAwMDAwMDAwMDAwMDAwMDAw" ++
    ascii "MDAwMDAwMDAwMDAwMGEiLCJuYmYiOjEwMDAsInN1YiI6IjAwMDAwMDAwMDAwMDAwMDAwMDAwMDAwMDAwMDAwMDAxIn0"

def sampleSignature : Bytes := ascii "_sIoAu3poUbvJtkG10764YgUtUgMzODGaWYSjcLuAmc"

/-- the token of session `sampleSession`, issued at 1000 for one hour -/
def sampleToken : Bytes := sampleHeader ++ [DOT] ++ samplePayload ++ [DOT] ++ sampleSignature

def sampleHeaderText : Bytes := ascii "\x7b\"alg\":\"HS256\",\"typ\":\"JWT\"\x7d"

def samplePayloadText : Bytes :=
  ascii "\x7b\"aud\":\"ctf\",\"exp\":4600,\"iat\":1000,\"iss\":\"ctf\",\"jti\":\"" ++
    sampleSession ++
    ascii "\",\"nbf\":1000,\"sub\":\"" ++ sampleUser ++ ascii "\"\x7d"

/-- the libraries, on the texts of `sampleToken` -/
def sampleLib : AuthLib where
  base64 text :=
    if text = sampleHeader then some sampleHeaderText
    else if text = samplePayload then some samplePayloadText
    else if text = sampleSignature then
      some [254, 194, 40, 2, 237, 233, 161, 70, 239, 38, 217, 6, 215, 78, 250, 225, 136, 20, 181,
        72, 12, 204, 224,
        198, 105, 102, 18, 141, 194, 238, 2, 103]
    else none
  jsonObject text :=
    if text = sampleHeaderText then
      some [(ascii "alg", .string (ascii "HS256")), (ascii "typ", .string (ascii "JWT"))]
    else if text = samplePayloadText then
      some [(ascii "aud", .string (ascii "ctf")), (ascii "exp", .integer 4600),
        (ascii "iat", .integer 1000),
        (ascii "iss", .string (ascii "ctf")), (ascii "jti", .string sampleSession),
        (ascii "nbf", .integer 1000),
        (ascii "sub", .string sampleUser)]
    else none
  jwtEncode key grants :=
    if key = sampleRuntime.config.key ∧
        grants = issuedGrants sampleRuntime.config sampleUser sampleSession 1000 then
        some sampleToken
    else none
  jwtDecode key token := if key = sampleRuntime.config.key ∧ token = sampleToken then
    some true else none

/-- a call at `now` where nothing fails -/
def sampleEnv (now : Int) : Env := ⟨now, none, true, .queued, fun _ => true, fun _ => true⟩

def sampleLogout : Request :=
  { method := .post, uri := ascii "/logout",
    headers := [(ascii "Host", ascii "ctf"),
      (ascii "authorization", ascii "bearer " ++ sampleToken)] }

/-- the row of the session -/
def sampleSessionResult : DbResult :=
  { success := true, affected := 1,
    res := some ⟨4, [[some sampleSession, some sampleUser, some (ascii "1000"),
      some (ascii "4600")]], by decide⟩ }

/-- the first call of a request, and the call after the SELECT of the sessions -/
def sampleStart (request : Request) : ReqState :=
  .start (dispatch sampleLib sampleRuntime (sampleEnv 4601) request)

def sampleChecked (request : Request) : ReqState :=
  (sampleStart request).resume (.db .selectSessions)
    [.completed .selectSessions sampleSessionResult]
    (runStages sampleLib sampleRuntime (sampleEnv 4602)
      { task := some ⟨.selectSessions, sampleSessionResult⟩ }
      (sampleStart request).ctx (sampleStart request).ctx.chain)

/-- the call after the SELECT of a stage of its own -/
def sampleAnswered (request : Request) (query : Query) (result : DbResult) : ReqState :=
  (sampleChecked request).resume (.db query) [.completed query result]
    (runStages sampleLib sampleRuntime (sampleEnv 4603) { task := some ⟨query, result⟩ }
      (sampleChecked request).ctx (sampleChecked request).ctx.chain)

theorem sampleAnswered_reach {request : Request} {query : Query} (result : DbResult)
    (hstart : .db .selectSessions ∈ (sampleStart request).pending)
    (hquery : .db query ∈ (sampleChecked request).pending) :
    Reach sampleLib sampleRuntime (fun _ => True) request (sampleAnswered request query result) :=
  .resume _ trivial (.resume _ trivial (.start _ trivial) hstart (.task _ _)) hquery (.task _ _)

def sampleDelete : Request :=
  { sampleLogout with method := .delete, uri := ascii "/challenges", queryParams :=
    [(ascii "id", ascii "7")] }

def sampleOwn : Request := { sampleLogout with method := .get, uri := ascii "/challenges/me" }

def sampleOwners : DbResult :=
  { success := true, res :=
    some ⟨2, [[some (ascii "6"), some sampleSession],
    [some (ascii "7"), some sampleUser]], by decide⟩ }

/-- a challenge of the user, and one of somebody else -/
def sampleRows : DbResult :=
  { success := true,
    res := some ⟨6, [[some (ascii "6"), some sampleSession, some (ascii "m"), some (ascii "e"),
      some (ascii "g"), some (ascii "0")],
      [some (ascii "7"), some sampleUser, some (ascii "n"), some (ascii "d"), some (ascii "f"),
        some (ascii "2")]], by decide⟩ }

/-- the answer with the list of `sampleRows` -/
def sampleList : Response :=
  { status := .ok,
    body := ascii "[\x7b\"id\":7,\"creator_id\":\"" ++ sampleUser ++
      ascii "\",\"name\":\"n\",\"description\":\"d\",\"flag\":\"f\",\"genre\":\"pwn\"\x7d]",
    contentType := some applicationJson, noStore := true }

theorem protected_after_check_samples :
    CheckedBefore sampleLib sampleRuntime sampleDelete
    (sampleAnswered sampleDelete .selectOwners sampleOwners).trace
        (.query (.deleteChallenge 7 sampleUser)) ∧
      CheckedBefore sampleLib sampleRuntime sampleOwn
        (sampleAnswered sampleOwn .selectChallenges sampleRows).trace
        (.respond sampleList) :=
  ⟨protected_after_check (sampleAnswered_reach _ (by decide +kernel) (by decide +kernel))
    (by decide +kernel)
      (by decide +kernel),
    protected_after_check (sampleAnswered_reach _ (by decide +kernel) (by decide +kernel))
      (by decide +kernel)
      (by decide +kernel)⟩

end App

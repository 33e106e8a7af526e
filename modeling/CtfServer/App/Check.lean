import CtfServer.App.Replies
import CtfServer.App.Token

/-!
# The readings of a check

The check of a token reads the clock twice, and asks for the sessions in between.

* `CheckTrace`         the traces of a request behind the check;
* `Reach.checkTrace`   **every trace is one of these**;
* `dispatch_asks`      a token that is accepted leads to the SELECT;
* `runStages_verified` who is verified was in time.
-/

set_option linter.unusedVariables false
set_option linter.unusedSimpArgs false

namespace App

/-- the readings of the clock -/
def clocksOf (events : List Event) : List Int :=
  events.filterMap fun
    | .clock now => some now
    | _ => none

theorem clocksOf_append (a b : List Event) : clocksOf (a ++ b) = clocksOf a ++ clocksOf b := by
  simp [clocksOf]

/-- `handle_auth_2` has what it needs to pass the request on -/
structure Passable (claims : AuthClaims) (sessions : List AuthSession) (now : Int) : Prop where
  clock : 0 ≤ now
  found : sessions.any (sessionMatches claims) = true
  running : now < claims.expiresAt + AUTH_CLOCK_SKEW
  started : claims.notBefore ≤ now + AUTH_CLOCK_SKEW

/-- the traces of a request behind the check -/
inductive CheckTrace (lib : AuthLib) (runtime : Runtime) (request : Request) (meets : Env → Prop) :
    List Event → Prop where
  /-- before the second reading -/
  | early {t : List Event} (hc : (clocksOf t).length ≤ 1) (hv : ∀ claims, .verified claims ∉ t)
      (hr : ∀ r, .completed .selectSessions r ∈ t → ∃ env, meets env ∧
        bindAuthSessions (env.alloc .rows) r = none) :
      CheckTrace lib runtime request meets t
  | refused {t : List Event} (a : Accepted lib runtime request) (r : DbResult) (env : Env)
      (hmeets : meets env)
      (response : Response)
      (hno : ∀ sessions, bindAuthSessions (env.alloc .rows) r = some sessions →
        ¬ Passable a.claims sessions env.now)
      (ht : t = a.trace ++ [.completed .selectSessions r, .clock env.now, .respond response]) :
      CheckTrace lib runtime request meets t
  | passed {t : List Event} (g : Passed lib runtime request) (rest : List Event)
      (hv : ∀ claims, .verified claims ∉ rest) (ht : t = g.trace ++ rest) :
      CheckTrace lib runtime request meets t

section
variable {lib : AuthLib} {runtime : Runtime} {request : Request} {meets : Env → Prop}

/-! ## the stage that verifies -/

/-- only one stage verifies -/
theorem Stage.run_verified (env : Env) (input : Input) (ctx : Ctx) {stage : Stage}
    (hstage : stage ≠ .auth2)
    (claims : AuthClaims) : .verified claims ∉ (stage.run lib runtime env input ctx).events := by
  have hreading : ∀ {events : List Event}, events.all Event.isReading = true →
    .verified claims ∉ events :=
    fun he h => nomatch List.all_eq_true.1 he _ h
  have hends := Stage.ends lib runtime env input ctx stage hstage
  generalize stage.run lib runtime env input ctx = o at hends
  cases hends with
  | crash => exact List.not_mem_nil
  | finish events r he => simp [Ctx.finish, hreading he]
  | exec c events q refused hauth he hq =>
    unfold Ctx.exec
    split <;> simp [Ctx.finish, hreading he]
  | submit =>
    unfold Ctx.submitPassword
    dsimp only
    repeat' split
    all_goals simp [Ctx.finish]

/-! ## the identity -/

/-- `handle_auth_1` stores an identity that is not verified, and the stages after the check store
none -/
theorem Stage.run_authData (env : Env) (input : Input) (ctx : Ctx) {stage : Stage}
    (hstage : stage ≠ .auth2) :
    (stage.run lib runtime env input ctx).ctx.authData = ctx.authData ∨
      stage = .auth1 ∧ ∃ claims, (stage.run lib runtime env input ctx).ctx.authData =
      some ⟨claims, false⟩ := by
  have hends := Stage.ends lib runtime env input ctx stage hstage
  generalize stage.run lib runtime env input ctx = o at hends
  cases hends with
  | crash c hc => exact .inl hc
  | finish => exact .inl rfl
  | exec c events q refused hc he hq =>
    unfold Ctx.exec
    split <;> exact hc
  | submit =>
    unfold Ctx.submitPassword
    dsimp only
    repeat' split
    all_goals exact .inl rfl

/-- the first call verifies nobody -/
theorem dispatch_identity (env : Env) (claims : AuthClaims) :
    (dispatch lib runtime env request).ctx.authData ≠ some ⟨claims, true⟩ ∧
      .verified claims ∉ (dispatch lib runtime env request).events := by
  unfold dispatch
  cases hroute : request.route with
  | none => simp [Ctx.finish]
  | some route =>
    have hall : ∀ route ∈ routes, ∃ stage rest, route.chain = stage :: rest ∧ stage ≠ .auth2 := by
      simp [routes, authenticated]
    obtain ⟨stage, rest, hchain, hstage⟩ := hall route (route_mem hroute)
    dsimp only
    split
    · simp [Ctx.finish]
    rw [hchain, runStages_plain _ _ _ _ _ _ _ hstage]
    refine ⟨fun h => ?_, Stage.run_verified env _ _ hstage claims⟩
    rcases Stage.run_authData env {} _ hstage with hkeep | ⟨-, claims', hfalse⟩
    · rw [hkeep] at h
      cases h
    · rw [hfalse] at h
      cases h

/-- a waiting request is verified when its trace says so -/
theorem Waiting.identity {chain : List Stage} {s : ReqState}
    (h : Waiting lib runtime request chain s) (claims : AuthClaims) :
    (s.ctx.authData = some ⟨claims, true⟩ ↔ .verified claims ∈ s.trace) := by
  cases h with
  | hello2 ht | getChallenges2 clocks ht | getUsers2 ht | getUsers3 r mem users hr ht
    | getAnswers2 id hid ht
    | getAnswers3 id hid r ht | signup2 input hb ht | signup3 input hb r job hj ht
    | signup4 input hb r job hj result hr hcn id hid ht
    | signup5 input hb r job result state hs id hid r2 hr2 ht
    | login2 input hb ht | login3 input hb r mem users hu job hj ht
    | login4 input hb r mem users hu user hf job hj result hr hcn ht
    | login5 input hb r mem users hu user hf job hj result hr hcn r2 hr2 now id token hid hi ht =>
    subst ht
    simp [waitingFor]
  | auth2 rest a ht =>
    subst ht
    simp [waitingFor, Accepted.trace]
  | logout2 g ht | getOwnChallenges2 g ht | getOwnAnswers2 g id hid ht
    | getOwnAnswers3 g id hid r ht
    | postChallenges2 g input hb ht | putChallenges2 g id hid input hb ht
      | putChallenges3 g id hid input hb r hr ht
    | putChallenges4 g id hid input hb r hr r2 hr2 ha ht | deleteChallenges2 g id hid ht
    | deleteChallenges3 g id hid r hr ht | deleteChallenges4 g id hid r hr r2 hr2 ha ht
    | postAnswers2 g input hb ht
      | postAnswers3 g input hb r mem challenges hr challenge hf correct hq ht
    | postAnswers4 g input hb r mem challenges hr challenge hf correct hq r2 hr2 ha hi ht
    | postAnswers5 g input hb r mem challenges hr challenge hf correct hq r2 hr2 ht =>
    subst ht
    simp [waitingFor, Passed.trace, Passed.identity, eq_comm]

theorem auth2_identity (env : Env) (input : Input) (ctx : Ctx) (claims : AuthClaims) :
    (Stage.auth2.run lib runtime env input ctx).ctx.authData = some ⟨claims, true⟩ ↔
      ctx.authData = some ⟨claims, true⟩ ∨ .verified claims ∈
      (Stage.auth2.run lib runtime env input ctx).events := by
  simp only [Stage.run, Input.withTask]
  split
  · exact (or_iff_left List.not_mem_nil).symm
  unfold handleAuth2
  split
  · simp [Ctx.finish]
  split
  · simp [Ctx.crash]
  next identity hidentity =>
  split
  · simp [Ctx.finish]
  split
  · simp [Ctx.unauthorized, Ctx.finish]
  simp only [Ctx.advance, hidentity, Option.some.injEq, List.mem_cons, reduceCtorEq,
    Event.verified.injEq, List.not_mem_nil,
    or_false, false_or]
  constructor
  · rintro h
    exact .inr (congrArg AuthIdentity.claims h).symm
  · rintro (rfl | rfl) <;> rfl

/-- calls after the first one set the flag when they say so -/
theorem runStages_identity (env : Env) (input : Input) (ctx : Ctx) {chain : List Stage}
    (hchain : .auth1 ∉ chain) (claims : AuthClaims) :
    (runStages lib runtime env input ctx chain).ctx.authData = some ⟨claims, true⟩ ↔
      ctx.authData = some ⟨claims, true⟩ ∨ .verified claims ∈
      (runStages lib runtime env input ctx chain).events := by
  induction chain generalizing input ctx with
  | nil => exact (or_iff_left List.not_mem_nil).symm
  | cons stage rest ih =>
    rw [List.mem_cons, not_or] at hchain
    have hstage : (stage.run lib runtime env input { ctx with chain := stage :: rest }).ctx.authData
      = some ⟨claims, true⟩ ↔
        ctx.authData = some ⟨claims, true⟩ ∨
          .verified claims ∈ (stage.run lib runtime env input
            { ctx with chain := stage :: rest }).events := by
      by_cases h2 : stage = .auth2
      · subst h2
        exact auth2_identity env input _ claims
      · rcases Stage.run_authData env input { ctx with chain := stage :: rest } h2 with h | ⟨rfl, -⟩
        · rw [h, or_iff_left (Stage.run_verified env input _ h2 claims)]
        · exact absurd rfl hchain.1
    rw [runStages]
    split
    · dsimp only
      rw [ih _ _ hchain.2, hstage, List.mem_append, or_assoc]
    · exact hstage

/-- the first half of the check is only done once -/
theorem Waiting.noAuth1 {s : ReqState} (h : Waiting lib runtime request request.chain s) :
    .auth1 ∉ s.ctx.chain := by
  generalize hc : request.chain = chain at h
  cases h with
  | auth2 rest a ht =>
    have hall : ∀ route ∈ routes, .auth1 ∉ route.chain.tail := by decide
    unfold Request.chain at hc
    cases hr : request.route with
    | none => rw [hr] at hc; cases hc
    | some route =>
      rw [hr] at hc
      have htail := hall route (route_mem hr)
      rw [show route.chain = _ from hc] at htail
      exact htail
  | _ => simp [waitingFor]

/-- **the flag of a request is set exactly when its trace says so** -/
theorem Reach.identity {s : ReqState} (h : Reach lib runtime meets request s)
    (claims : AuthClaims) :
    s.ctx.authData = some ⟨claims, true⟩ ↔ .verified claims ∈ s.trace := by
  rcases h.shape with hw | hf
  · exact hw.identity claims
  cases hf with
  | @atOnce env response hmeets hd =>
    exact iff_of_false (dispatch_identity env claims).1 (dispatch_identity env claims).2
  | @last s op input done env response hmeets hw hp hc hd =>
    have hdone : .verified claims ∉ done := by cases hc <;> simp
    simp only [ReqState.resume, List.mem_append, hdone, or_false]
    rw [runStages_identity env input s.ctx hw.noAuth1, hw.identity]
  | @discard s op done hw hp hc =>
    have hdone : .verified claims ∉ done := by cases hc <;> simp
    simp only [ReqState.discard, List.mem_append, hdone, or_false]
    exact hw.identity claims
  | @cancel s job hw hp =>
    simp only [ReqState.cancel, List.mem_append, List.mem_singleton, reduceCtorEq, or_false]
    exact hw.identity claims

/-! ## the first half -/

theorem handleAuth1_events (env : Env) (ctx : Ctx) :
    (clocksOf (handleAuth1 lib runtime env ctx).events).length ≤ 1 ∧
      ∀ claims, .verified claims ∉ (handleAuth1 lib runtime env ctx).events := by
  unfold handleAuth1 Ctx.unauthorized Ctx.exec
  dsimp only
  repeat' split
  all_goals simp [Ctx.finish, clocksOf]

theorem dispatch_events {rest : List Stage} (hchain : request.chain = .auth1 :: .auth2 :: rest)
    (env : Env) :
    (clocksOf (dispatch lib runtime env request).events).length ≤ 1 ∧
      ∀ claims, .verified claims ∉ (dispatch lib runtime env request).events := by
  unfold Request.chain at hchain
  unfold dispatch
  cases hr : request.route with
  | none => simp [Ctx.finish, clocksOf]
  | some route =>
    rw [hr] at hchain
    dsimp only at hchain ⊢
    split
    · simp [Ctx.finish, clocksOf]
    · rw [hchain, runStages_plain _ _ _ _ _ _ _ (by decide)]
      exact handleAuth1_events env _

/-! ## the second half -/

theorem handleAuth2_trace (a : Accepted lib runtime request) {rest : List Stage}
    (hchain : request.chain = .auth1 :: .auth2 :: rest) {env : Env} (hmeets : meets env)
    (r : DbResult) :
    CheckTrace lib runtime request meets (a.trace ++ [.completed .selectSessions r] ++
      (runStages lib runtime env { task := some ⟨.selectSessions, r⟩ }
        ⟨request, .auth2 :: rest, .none, some ⟨a.claims, false⟩⟩ (.auth2 :: rest)).events) := by
  rw [runStages]
  simp only [Stage.run, Input.withTask]
  unfold handleAuth2
  cases hb : bindAuthSessions (env.alloc .rows) r with
  | none =>
    refine .early ?_ ?_ fun r' hr' => ⟨env, hmeets, ?_⟩
    · simp [clocksOf, Accepted.trace, Ctx.finish]
    · simp [Accepted.trace, Ctx.finish]
    · simp [Accepted.trace, Ctx.finish] at hr'
      rw [hr', hb]
  | some sessions =>
    dsimp only
    by_cases hnow : env.now < 0
    · rw [if_pos hnow]
      refine .refused a r env hmeets serverError (fun s hs hp => ?_) (by simp [Ctx.finish])
      have := hp.clock
      omega
    rw [if_neg hnow]
    by_cases hok : sessions.any (sessionMatches a.claims) = false ∨ env.now ≥ a.claims.expiresAt +
      AUTH_CLOCK_SKEW ∨
        env.now + AUTH_CLOCK_SKEW < a.claims.notBefore
    · rw [if_pos hok]
      refine .refused a r env hmeets _ (fun s hs hp => ?_)
        (by simp [Ctx.unauthorized, Ctx.finish]; rfl)
      rw [hb] at hs
      cases hs
      rcases hok with h | h | h
      · rw [hp.found] at h
        cases h
      · have := hp.running
        omega
      · have := hp.started
        omega
    · rw [if_neg hok]
      simp only [not_or, Bool.not_eq_false, ge_iff_le, not_le, not_lt] at hok hnow
      let g : Passed lib runtime request :=
        { a with result := r, later := env.now, row := sessionRow_of_bind hb hok.1,
                 laterClock := hnow, running := hok.2.1, started := hok.2.2 }
      refine .passed g _ (fun claims => ?_) rfl
      obtain ⟨stage, stages, rfl, hstage⟩ := guarded_rest hchain
      have hne : stage ≠ .auth2 := fun h => hstage (h ▸ List.mem_cons_self)
      rw [runStages_plain _ _ _ _ _ _ _ hne]
      exact Stage.run_verified env _ _ hne claims

/-! ## all of it -/

/-- a waiting state is at the check, or behind it -/
theorem Waiting.check {rest : List Stage} {s : ReqState}
    (h : Waiting lib runtime request (.auth1 :: .auth2 :: rest) s) :
    (∃ a : Accepted lib runtime request,
      s = waitingFor request (.auth2 :: rest) .none (some ⟨a.claims, false⟩)
      (.db .selectSessions) a.trace) ∨
      ∃ (g : Passed lib runtime request) (more : List Event), (∀ claims, .verified claims ∉ more) ∧
        s.trace = g.trace ++ more ∧ ∃ stage stages, s.ctx.chain = stage :: stages ∧
        stage ≠ .auth2 := by
  generalize hc : Stage.auth1 :: Stage.auth2 :: rest = chain at h
  cases h with
  | auth2 rest' a ht =>
    cases hc
    subst ht
    exact .inl ⟨a, rfl⟩
  | logout2 g ht | getOwnChallenges2 g ht | getOwnAnswers2 g id hid ht
    | getOwnAnswers3 g id hid r ht
    | postChallenges2 g input hb ht | putChallenges2 g id hid input hb ht
      | putChallenges3 g id hid input hb r hr ht
    | putChallenges4 g id hid input hb r hr r2 hr2 ha ht | deleteChallenges2 g id hid ht
    | deleteChallenges3 g id hid r hr ht | deleteChallenges4 g id hid r hr r2 hr2 ha ht
    | postAnswers2 g input hb ht
      | postAnswers3 g input hb r mem challenges hr challenge hf correct hq ht
    | postAnswers4 g input hb r mem challenges hr challenge hf correct hq r2 hr2 ha hi ht
    | postAnswers5 g input hb r mem challenges hr challenge hf correct hq r2 hr2 ht =>
    exact .inr ⟨g, _, by simp, ht, _, _, rfl, by decide⟩
  | _ => cases hc

/-- **every trace of a request behind the check** -/
theorem Reach.checkTrace {rest : List Stage} (hchain : request.chain = .auth1 :: .auth2 :: rest)
    {s : ReqState}
    (h : Reach lib runtime meets request s) : CheckTrace lib runtime request meets s.trace := by
  have hshape := h.shape
  rw [hchain] at hshape
  have hearly : ∀ (a : Accepted lib runtime request) (u : List Event),
    (u = [] ∨ ∃ q r, u = [.discarded q r]) →
      CheckTrace lib runtime request meets (a.trace ++ u) := by
    rintro a u (rfl | ⟨q, r, rfl⟩) <;>
      exact .early (by simp [clocksOf, Accepted.trace]) (by simp [Accepted.trace])
      (by simp [Accepted.trace])
  rcases hshape with hw | hf
  · rcases hw.check with ⟨a, rfl⟩ | ⟨g, more, hv, ht, -⟩
    · have h := hearly a [] (.inl rfl)
      rw [List.append_nil] at h
      exact h
    · exact .passed g more hv ht
  cases hf with
  | @atOnce env response hmeets hd =>
    refine .early (dispatch_events hchain env).1 (dispatch_events hchain env).2 fun r hr => ?_
    exact absurd (List.all_eq_true.1 (dispatch_own lib runtime env request) _ hr)
      (by simp [Event.isOwn])
  | @last s op input done env response hmeets hw hp hc hd =>
    rcases hw.check with ⟨a, rfl⟩ | ⟨g, more, hv, ht, stage, stages, hstages, hne⟩
    · cases hp
      cases hc with
      | task _ r => exact handleAuth2_trace a hchain hmeets r
    · refine .passed g (more ++
        (done ++ (runStages lib runtime env input s.ctx s.ctx.chain).events)) ?_ ?_
      · intro claims
        rw [List.mem_append, List.mem_append, hstages, runStages_plain _ _ _ _ _ _ _ hne]
        rintro (hm | hm | hm)
        · exact hv claims hm
        · cases hc <;> cases List.mem_singleton.1 hm
        · exact Stage.run_verified env _ _ hne claims hm
      · simp only [ReqState.resume, ht, List.append_assoc]
  | @discard s op done hw hp hc =>
    rcases hw.check with ⟨a, rfl⟩ | ⟨g, more, hv, ht, -⟩
    · cases hp
      cases hc with
      | task q r => exact hearly a _ (.inr ⟨_, r, rfl⟩)
    · refine .passed g (more ++ done) ?_ (by simp only [ReqState.discard, ht, List.append_assoc])
      intro claims
      rw [List.mem_append]
      rintro (hm | hm)
      · exact hv claims hm
      · cases hc with
        | task => cases List.mem_singleton.1 hm
        | job => cases hm
  | @cancel s job hw hp => exact absurd hp hw.no_job

/-! ## the token -/

/-- every trace starts with the first call -/
theorem Reach.dispatched {s : ReqState} (h : Reach lib runtime meets request s) :
    ∃ env, meets env ∧ (dispatch lib runtime env request).events <+: s.trace := by
  induction h with
  | start env hmeets => exact ⟨env, hmeets, List.prefix_refl _⟩
  | resume _ _ _ _ _ ih =>
    obtain ⟨env, hmeets, hpre⟩ := ih
    exact ⟨env, hmeets, hpre.trans ⟨_, (List.append_assoc ..).symm⟩⟩
  | discard _ _ _ ih =>
    obtain ⟨env, hmeets, hpre⟩ := ih
    exact ⟨env, hmeets, hpre.trans (List.prefix_append _ _)⟩
  | cancel _ _ ih =>
    obtain ⟨env, hmeets, hpre⟩ := ih
    exact ⟨env, hmeets, hpre.trans (List.prefix_append _ _)⟩

/-- a call where nothing fails -/
structure Env.Serves (env : Env) : Prop where
  alloc : ∀ alloc, env.alloc alloc = true
  enqueue : env.enqueue = true

/-- **a token that is accepted leads to the SELECT, any other to a refusal** -/
theorem dispatch_asks {rest : List Stage}
    (hchain : request.chain = .auth1 :: .auth2 :: rest) {env : Env}
    (hserves : env.Serves) {token : Bytes} (htoken : request.token = some token) :
    (∃ more, (dispatch lib runtime env request).events = .clock env.now :: more) ∧
      (0 ≤ env.now → ∀ claims, authTokenVerify lib env.alloc runtime.config token env.now
        = .ok claims →
        (dispatch lib runtime env request).events =
          [.clock env.now, .verify token env.now (.ok claims), .query .selectSessions]) ∧
      (0 ≤ env.now → authTokenVerify lib env.alloc runtime.config token env.now = .error .invalid →
        (dispatch lib runtime env request).events =
        [.clock env.now, .verify token env.now (.error .invalid),
          .respond { status := .unauthorized, bearerChallenge := true, noStore := true }]) := by
  unfold Request.chain at hchain
  unfold dispatch
  cases hr : request.route with
  | none => rw [hr] at hchain; cases hchain
  | some route =>
    rw [hr] at hchain
    dsimp only at hchain ⊢
    rw [if_neg (by rw [hserves.alloc]; decide), hchain, runStages_plain _ _ _ _ _ _ _ (by decide)]
    simp only [Stage.run, handleAuth1, htoken]
    refine ⟨?_, fun hnow claims hv => ?_, fun hnow hv => ?_⟩
    · unfold Ctx.unauthorized Ctx.exec Ctx.finish
      repeat' split
      all_goals exact ⟨_, rfl⟩
    · simp only [if_neg (Int.not_lt.2 hnow), hv, hserves.alloc, Bool.true_eq_false,
        if_false, Ctx.exec,
        hserves.enqueue, if_true, List.cons_append, List.nil_append]
    · simp only [if_neg (Int.not_lt.2 hnow), hv, Ctx.unauthorized, Ctx.finish, List.cons_append,
        List.nil_append]

/-- memory that suffices changes no token that is accepted -/
theorem authTokenVerify_enough {alloc : Alloc → Bool} {config : AuthConfig}
    {token : Bytes} {now : Int}
    {claims : AuthClaims} (h : authTokenVerify lib alloc config token now = .ok claims) :
    authTokenVerify lib (fun _ => true) config token now = .ok claims := by
  have hobject : ∀ {a : Bool} {text : Bytes} {members : List (Bytes × JsonValue)},
      decodeObject lib a text = .ok members → decodeObject lib true text = .ok members := by
    intro a text members hd
    unfold decodeObject at hd ⊢
    split at hd
    · cases hd
    next hne =>
    rw [if_neg hne]
    split at hd
    · cases hd
    rw [if_neg (by decide)]
    split at hd
    · cases hd
    · exact hd
  unfold authTokenVerify at h ⊢
  split at h
  · cases h
  next hvalid =>
  rw [if_neg hvalid]
  split at h
  · cases h
  split at h
  · cases h
  next header hheader =>
  rw [hobject hheader]
  dsimp only
  split at h
  · cases h
  next hacc =>
  rw [if_neg hacc]
  split at h
  · cases h
  next members hclaims =>
  rw [hobject hclaims]
  dsimp only
  split at h
  · cases h
  next hsig =>
  rw [if_neg hsig, if_neg (by decide)]
  split at h
  · cases h
  · exact h

/-! ## who is verified -/

theorem auth2_verified {env : Env} {input : Input} {ctx : Ctx} {claims : AuthClaims}
    (h : .verified claims ∈ (Stage.auth2.run lib runtime env input ctx).events) :
    .clock env.now ∈ (Stage.auth2.run lib runtime env input ctx).events ∧
      env.now < claims.expiresAt + AUTH_CLOCK_SKEW := by
  simp only [Stage.run, Input.withTask] at h ⊢
  split at h
  · cases h
  unfold handleAuth2 at h ⊢
  repeat' split at h
  all_goals simp [Ctx.finish, Ctx.crash, Ctx.unauthorized] at h
  next hnow hok =>
  rw [if_neg hnow, if_neg hok]
  simp only [not_or, Bool.not_eq_false, ge_iff_le, not_le, not_lt] at hok
  rw [h]
  exact ⟨List.mem_cons_self, hok.2.1⟩

/-- **who is verified in a call was in time at its reading** -/
theorem runStages_verified (env : Env) (input : Input) (ctx : Ctx) (chain : List Stage)
    {claims : AuthClaims}
    (h : .verified claims ∈ (runStages lib runtime env input ctx chain).events) :
    .clock env.now ∈ (runStages lib runtime env input ctx chain).events ∧
      env.now < claims.expiresAt + AUTH_CLOCK_SKEW := by
  have hfirst : ∀ (stage : Stage) (input : Input) (ctx : Ctx),
      .verified claims ∈ (stage.run lib runtime env input ctx).events →
        .clock env.now ∈ (stage.run lib runtime env input ctx).events ∧
          env.now < claims.expiresAt + AUTH_CLOCK_SKEW := by
    intro stage input ctx h
    by_cases hstage : stage = .auth2
    · subst hstage
      exact auth2_verified h
    · exact absurd h (Stage.run_verified env input ctx hstage claims)
  induction chain generalizing input ctx with
  | nil => cases h
  | cons stage rest ih =>
    rw [runStages] at h ⊢
    dsimp only at h ⊢
    split at h
    · rcases List.mem_append.1 h with h | h
      · obtain ⟨hclock, hlt⟩ := hfirst _ _ _ h
        exact ⟨List.mem_append_left _ hclock, hlt⟩
      · obtain ⟨hclock, hlt⟩ := ih _ _ h
        exact ⟨List.mem_append_right _ hclock, hlt⟩
    · exact hfirst _ _ _ h

theorem dispatch_verified (env : Env) (request : Request) {claims : AuthClaims}
    (h : .verified claims ∈ (dispatch lib runtime env request).events) :
    .clock env.now ∈ (dispatch lib runtime env request).events ∧ env.now < claims.expiresAt +
      AUTH_CLOCK_SKEW := by
  unfold dispatch at h ⊢
  split at h
  · simp [Ctx.finish] at h
  · split at h
    · simp [Ctx.finish] at h
    next halloc =>
    rw [if_neg halloc]
    exact runStages_verified env _ _ _ h

end

end App

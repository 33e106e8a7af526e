import CtfServer.App.Waiting

/-!
# The states of a request

A call that is not an answer leads from one waiting state to the next one.

* `Stage.run_ne_next`   only `handle_auth_2` calls its next stage;
* `Waiting.goes`        a call in a waiting state answers or waits again;
* `Reach.shape`         **every state of a routed request waits or is finished**.
-/

set_option linter.unusedVariables false
set_option linter.unusedSimpArgs false

namespace App

open Json (CreateChallengeRequest AuthRequest)

/-! ## calls that do not go on -/

theorem opsOf_append (a b : List Event) : opsOf (a ++ b) = opsOf a ++ opsOf b := by
  simp [opsOf]

theorem opsOf_nil : opsOf [] = [] := rfl

theorem opsOf_cons (e : Event) (l : List Event) : opsOf (e :: l) = e.op.toList ++ opsOf l := by
  unfold opsOf
  rw [List.filterMap_cons]
  cases e.op <;> rfl

theorem opsOf_clocks (clocks : List Int) : opsOf (clocks.map .clock) = [] := by
  induction clocks with
  | nil => rfl
  | cons c l ih => rw [List.map_cons, opsOf_cons, ih]; rfl

@[simp] theorem finish_verdict (ctx : Ctx) (events : List Event) (r : Response) :
    (ctx.finish events r).verdict = .respond r := rfl

@[simp] theorem unauthorized_verdict (ctx : Ctx) (events : List Event) :
    (ctx.unauthorized events).verdict =
      .respond { status := .unauthorized, bearerChallenge := true, noStore := true } := rfl

@[simp] theorem crash_verdict (ctx : Ctx) : ctx.crash.verdict = .crash := rfl

@[simp] theorem exec_ne_next (env : Env) (ctx : Ctx) (events : List Event) (q : Query)
    (r : Response) :
    (ctx.exec env events q r).verdict ≠ .next := by
  unfold Ctx.exec
  split <;> simp

@[simp] theorem submitPassword_ne_next (runtime : Runtime) (env : Env) (ctx : Ctx)
    (state : AuthState) (operation : PasswordOperation) (hash : Option Bytes) :
    (ctx.submitPassword runtime env state operation hash).verdict ≠ .next := by
  unfold Ctx.submitPassword
  dsimp only
  split
  · simp
  · split <;> simp

/-! ## how a stage ends -/

/-- the user ids of a statement -/
def Query.users : Query → List Bytes
  | .insertUser id _ _ => [id]
  | .insertChallenge user _ _ _ _ => [user]
  | .updateChallenge _ _ _ _ _ user => [user]
  | .deleteChallenge _ user => [user]
  | .insertAnswer _ user _ _ => [user]
  | .insertSession _ user _ _ => [user]
  | .deleteSession _ user => [user]
  | _ => []

/-- a reading of the clock, of a token or of the generator -/
def Event.isReading : Event → Bool
  | .clock _ | .verify .. | .generated _ => true
  | _ => false

/-- how a stage ends that calls no other one: with a failed assertion, an answer, a statement or a
job; nobody is verified there, and but for two stages the user ids are those of the check -/
inductive Stage.Ends (runtime : Runtime) (env : Env) (ctx : Ctx) (stage : Stage) :
    Outcome → Prop where
  | crash (c : Ctx) (hc : c.authData = ctx.authData) : Ends runtime env ctx stage c.crash
  | finish (events : List Event) (r : Response) (he : events.all Event.isReading = true) :
      Ends runtime env ctx stage (ctx.finish events r)
  | exec (c : Ctx) (events : List Event) (q : Query) (refused : Response)
      (hc : c.authData = ctx.authData ∨ stage = .auth1 ∧ ∃ claims, c.authData =
        some ⟨claims, false⟩)
      (he : events.all Event.isReading = true)
      (hq : stage = .signup3 ∨ stage = .login4 ∨ ∀ v ∈ q.users, v = ctx.userBytes) :
      Ends runtime env ctx stage (c.exec env events q refused)
  | submit (state : AuthState) (operation : PasswordOperation) (hash : Option Bytes) :
      Ends runtime env ctx stage (ctx.submitPassword runtime env state operation hash)

theorem userBytes_of_user {ctx : Ctx} {user : Bytes} (h : ctx.user = some user) :
    user = ctx.userBytes := by
  unfold Ctx.userBytes
  rw [h]
  rfl

/-- **the stages but `handle_auth_2`** -/
theorem Stage.ends (lib : AuthLib) (runtime : Runtime) (env : Env) (input : Input) (ctx : Ctx)
    (stage : Stage)
    (h : stage ≠ .auth2) : stage.Ends runtime env ctx (stage.run lib runtime env input ctx) := by
  cases stage
  case auth2 => exact absurd rfl h
  case auth1 =>
    simp only [Stage.run, handleAuth1, Ctx.unauthorized]
    repeat' split
    all_goals first
      | exact .finish _ _ rfl
      | exact .exec _ _ _ _ (.inr ⟨rfl, _, rfl⟩) rfl (.inr (.inr (List.forall_mem_nil _)))
  case logout1 =>
    simp only [Stage.run, handleLogout1, Ctx.unauthorized]
    split
    · next user identity huser hdata =>
      refine .exec _ _ _ _ (.inl rfl) rfl (.inr (.inr (List.forall_mem_singleton.2 ?_)))
      rw [← userBytes_of_user huser]
      unfold Ctx.user at huser
      rw [hdata] at huser
      exact (Option.some.inj (Option.ite_none_right_eq_some.1 huser).2)
    · exact .finish _ _ rfl
  all_goals
    simp only [Stage.run, Input.withTask, handleRoot, handleHello1, handleHello2,
      handleGetChallenges1,
      handleGetChallenges2, handleGetOwnChallenges1, handleGetOwnChallenges2, handlePostChallenges1,
      handlePostChallenges2, handlePutChallenges1, handlePutChallenges2, handlePutChallenges3,
      handlePutChallenges4,
      handleDeleteChallenges1, handleDeleteChallenges2, handleDeleteChallenges3,
      handleDeleteChallenges4,
      handlePostAnswers1, handlePostAnswers2, handlePostAnswers3, handlePostAnswers4,
      handlePostAnswers5,
      handleGetAnswers1, handleGetAnswers2, handleGetAnswers3, handleGetOwnAnswers1,
      handleGetOwnAnswers2,
      handleGetOwnAnswers3, handleSignup1, handleSignup2, handleSignup3, handleSignup4,
      handleSignup5, handleLogin1,
      handleLogin2, handleLogin3, handleLogin4, handleLogin5, handleLogout2, handleGetUsers1,
      handleGetUsers2, handleGetUsers3, selectUsersFirst, Ctx.selectChallengeOwners, writeIfOwner,
      selectForAnswers,
      checkFilter, listAnswers, Ctx.unauthorized]
    repeat' split
    all_goals first
      | exact .crash _ rfl
      | exact .finish _ _ rfl
      | exact .submit ..
      | exact .exec _ _ _ _ (.inl rfl) rfl (.inr (.inr (List.forall_mem_nil _)))
      | exact .exec _ _ _ _ (.inl rfl) rfl (.inl rfl)
      | exact .exec _ _ _ _ (.inl rfl) rfl (.inr (.inl rfl))
      | exact .exec _ _ _ _ (.inl rfl) rfl (.inr (.inr (List.forall_mem_singleton.2 rfl)))
      | exact .exec _ _ _ _ (.inl rfl) rfl
          (.inr (.inr (List.forall_mem_singleton.2 (userBytes_of_user ‹_›))))

theorem Stage.run_ne_next (lib : AuthLib) (runtime : Runtime) (env : Env)
    (input : Input) (ctx : Ctx)
    (stage : Stage) (h : stage ≠ .auth2) :
    (stage.run lib runtime env input ctx).verdict ≠ .next := by
  have hends := Stage.ends lib runtime env input ctx stage h
  generalize stage.run lib runtime env input ctx = o at hends
  cases hends <;> simp

theorem runStages_plain (lib : AuthLib) (runtime : Runtime) (env : Env) (input : Input) (ctx : Ctx)
    (stage : Stage) (rest : List Stage) (h : stage ≠ .auth2) :
    runStages lib runtime env input ctx (stage :: rest) =
      stage.run lib runtime env input { ctx with chain := stage :: rest } := by
  have hn := Stage.run_ne_next lib runtime env input { ctx with chain := stage :: rest } stage h
  rw [runStages]
  split
  · next hv => exact absurd hv hn
  · rfl

theorem hasNext_last (request : Request) (stage : Stage) (appData : AppData)
    (authData : Option AuthIdentity) :
    (Ctx.mk request [stage] appData authData).hasNext = false := rfl

theorem hasNext_more (request : Request) (stage next : Stage) (rest : List Stage)
    (appData : AppData)
    (authData : Option AuthIdentity) :
    (Ctx.mk request (stage :: next :: rest) appData authData).hasNext = true := by
  simp [Ctx.hasNext]

/-! ## the two ends of a call -/

theorem opsOf_quiet {events : List Event} (h : events.all Event.isQuiet = true) :
    opsOf events = [] := by
  induction events with
  | nil => rfl
  | cons e l ih =>
    simp only [List.all_cons, Bool.and_eq_true] at h
    have hl := ih h.2
    cases e <;> first | exact hl | cases h.1

theorem Outcome.Done.ops {o : Outcome} {response : Response} (h : o.Done response) :
    opsOf o.events = [] := by
  obtain ⟨events, he, hq⟩ := h.events
  rw [he, opsOf_append, opsOf_quiet hq]
  rfl

theorem finish_done (ctx : Ctx) {events : List Event} (r : Response)
    (h : events.all Event.isQuiet = true) :
    (ctx.finish events r).Done r := ⟨rfl, events, rfl, h⟩

theorem unauthorized_done (ctx : Ctx) {events : List Event} (h : events.all Event.isQuiet = true) :
    ∃ r, (ctx.unauthorized events).Done r := ⟨_, finish_done ctx _ h⟩

theorem exec_cases (env : Env) (ctx : Ctx) {events : List Event} (q : Query) (refused : Response)
    (h : events.all Event.isQuiet = true) :
    (∃ r, (ctx.exec env events q refused).Done r) ∨
      ctx.exec env events q refused = ⟨ctx, events ++ [.query q], .wait⟩ := by
  unfold Ctx.exec
  split
  · exact .inr rfl
  · exact .inl ⟨_, finish_done ctx refused h⟩

/-- what a call leads to: an answer, or the next waiting state -/
def Goes (lib : AuthLib) (runtime : Runtime) (request : Request) (chain : List Stage)
    (s : ReqState) (op : Op) (done : List Event) (o : Outcome) : Prop :=
  (∃ r, o.Done r) ∨ Waiting lib runtime request chain (s.resume op done o)

theorem goes_finish {lib : AuthLib} {runtime : Runtime} {request : Request} {chain : List Stage}
    {s : ReqState}
    {op : Op} {done : List Event} (ctx : Ctx) {events : List Event} (r : Response)
    (h : events.all Event.isQuiet = true) :
    Goes lib runtime request chain s op done (ctx.finish events r) := .inl ⟨r, finish_done ctx r h⟩

theorem goes_exec {lib : AuthLib} {runtime : Runtime} {request : Request} {chain : List Stage}
    {s : ReqState}
    {op : Op} {done : List Event} {env : Env} {ctx : Ctx} {events : List Event} {q : Query}
    {refused : Response} (hp : s.pending = [op]) (h : events.all Event.isQuiet = true)
    (hw : Waiting lib runtime request chain ⟨ctx, some .wait, [.db q], s.trace ++ done ++
      (events ++ [.query q])⟩) :
    Goes lib runtime request chain s op done (ctx.exec env events q refused) := by
  rcases exec_cases env ctx q refused h with hd | he
  · exact .inl hd
  · refine .inr ?_
    have ho : opsOf (events ++ [.query q]) = [.db q] := by rw [opsOf_append, opsOf_quiet h]; rfl
    simp only [ReqState.resume, he, hp, List.erase_cons_head, List.nil_append, ho]
    exact hw

theorem goes_submit {lib : AuthLib} {runtime : Runtime} {request : Request} {chain : List Stage}
    {s : ReqState}
    {op : Op} {done : List Event} {env : Env} {ctx : Ctx} {state : AuthState}
    {operation : PasswordOperation} {hash : Option Bytes} (hp : s.pending = [op])
    (hw : ∀ job, PasswordJob.make runtime.config.dummyHash operation state.input.password
      hash = some job →
      Waiting lib runtime request chain
        ⟨{ ctx with appData := .auth { state with input :=
          { state.input with password := [] } } }.advance,
          some .wait, [.password job], s.trace ++ done ++ [.submit job]⟩) :
    Goes lib runtime request chain s op done
      (ctx.submitPassword runtime env state operation hash) := by
  unfold Ctx.submitPassword
  dsimp only
  split
  · exact goes_finish _ _ rfl
  · next job hj =>
    split
    · refine .inr ?_
      have ho : opsOf [.submit job] = [.password job] := rfl
      simp only [ReqState.resume, hp, List.erase_cons_head, List.nil_append, ho]
      exact hw job hj
    · exact goes_finish _ _ rfl
    · exact goes_finish _ _ rfl
    · exact goes_finish _ _ rfl

section
variable {lib : AuthLib} {runtime : Runtime} {request : Request}

/-! ## public routes -/

theorem goes_hello {s : ReqState} {op : Op} {input : Input} {done : List Event} (env : Env)
    (hw : Waiting lib runtime request [.hello1, .hello2] s)
    (hp : s.pending = [op]) (hc : Completion op input done) :
    Goes lib runtime request [.hello1, .hello2] s op done
      (runStages lib runtime env input s.ctx s.ctx.chain) := by
  cases hw with
  | hello2 ht =>
    cases hp
    cases hc with | task _ r =>
    rw [waitingFor, runStages_plain _ _ _ _ _ _ _ (by decide)]
    simp only [Stage.run, Input.withTask, handleHello2, hasNext_last, hasNext_more,
      not_true_eq_false, Bool.false_eq_true, if_false]
    exact goes_finish _ _ rfl

theorem goes_getChallenges {s : ReqState} {op : Op} {input : Input} {done : List Event} (env : Env)
    (hw : Waiting lib runtime request [.getChallenges1, .getChallenges2] s)
    (hp : s.pending = [op]) (hc : Completion op input done) :
    Goes lib runtime request [.getChallenges1, .getChallenges2] s op done
      (runStages lib runtime env input s.ctx s.ctx.chain) := by
  cases hw with
  | getChallenges2 clocks ht =>
    cases hp
    cases hc with | task _ r =>
    rw [waitingFor, runStages_plain _ _ _ _ _ _ _ (by decide)]
    simp only [Stage.run, Input.withTask, handleGetChallenges2, hasNext_last, hasNext_more,
      not_true_eq_false, Bool.false_eq_true, if_false]
    repeat' split
    all_goals exact goes_finish _ _ rfl

theorem goes_getUsers {s : ReqState} {op : Op} {input : Input} {done : List Event} (env : Env)
    (hw : Waiting lib runtime request [.getUsers1, .getUsers2, .getUsers3] s)
    (hp : s.pending = [op]) (hc : Completion op input done) :
    Goes lib runtime request [.getUsers1, .getUsers2, .getUsers3] s op done
      (runStages lib runtime env input s.ctx s.ctx.chain) := by
  cases hw with
  | getUsers2 ht =>
    cases hp
    cases hc with | task _ r =>
    rw [waitingFor, runStages_plain _ _ _ _ _ _ _ (by decide)]
    simp only [Stage.run, Input.withTask, handleGetUsers2, hasNext_last, hasNext_more,
      not_true_eq_false, Bool.false_eq_true, if_false]
    split
    · exact goes_finish _ _ rfl
    · next users hu => exact goes_exec rfl rfl (.getUsers3 r _ users hu (by simp [ht, waitingFor]))
  | getUsers3 r mem users hr ht =>
    cases hp
    cases hc with | task _ r2 =>
    rw [waitingFor, runStages_plain _ _ _ _ _ _ _ (by decide)]
    simp only [Stage.run, Input.withTask, handleGetUsers3, hasNext_last, hasNext_more,
      not_true_eq_false, Bool.false_eq_true, if_false]
    repeat' split
    all_goals exact goes_finish _ _ rfl

theorem goes_getAnswers {s : ReqState} {op : Op} {input : Input} {done : List Event} (env : Env)
    (hw : Waiting lib runtime request [.getAnswers1, .getAnswers2, .getAnswers3] s)
    (hp : s.pending = [op]) (hc : Completion op input done) :
    Goes lib runtime request [.getAnswers1, .getAnswers2, .getAnswers3] s op done
      (runStages lib runtime env input s.ctx s.ctx.chain) := by
  cases hw with
  | getAnswers2 id hid ht =>
    cases hp
    cases hc with | task _ r =>
    rw [waitingFor, runStages_plain _ _ _ _ _ _ _ (by decide)]
    simp only [Stage.run, Input.withTask, handleGetAnswers2, checkFilter, hasNext_last,
      hasNext_more,
      not_true_eq_false, Bool.false_eq_true, if_false]
    split
    · exact goes_finish _ _ rfl
    · split
      · exact goes_exec rfl rfl (.getAnswers3 id hid r (by simp [ht, waitingFor]))
      · exact goes_finish _ _ rfl
  | getAnswers3 id hid r ht =>
    cases hp
    cases hc with | task _ r2 =>
    rw [waitingFor, runStages_plain _ _ _ _ _ _ _ (by decide)]
    simp only [Stage.run, Input.withTask, handleGetAnswers3, listAnswers, hasNext_last,
      hasNext_more,
      not_true_eq_false, Bool.false_eq_true, if_false]
    repeat' split
    all_goals exact goes_finish _ _ rfl

theorem goes_signup {s : ReqState} {op : Op} {input : Input} {done : List Event} (env : Env)
    (hw : Waiting lib runtime request [.signup1, .signup2, .signup3, .signup4, .signup5] s)
    (hp : s.pending = [op]) (hc : Completion op input done) :
    Goes lib runtime request [.signup1, .signup2, .signup3, .signup4, .signup5] s op done
      (runStages lib runtime env input s.ctx s.ctx.chain) := by
  cases hw with
  | signup2 input hb ht =>
    cases hp
    cases hc with | task _ r =>
    rw [waitingFor, runStages_plain _ _ _ _ _ _ _ (by decide)]
    simp only [Stage.run, Input.withTask, handleSignup2, hasNext_last, hasNext_more,
      not_true_eq_false, Bool.false_eq_true, if_false]
    split
    · exact goes_finish _ _ rfl
    · split
      · exact goes_finish _ _ rfl
      · exact goes_submit rfl fun job hj => .signup3 input hb r job hj (by simp [ht, waitingFor])
  | signup3 input hb r job hj ht =>
    cases hp
    cases hc with | job _ result =>
    rw [waitingFor, runStages_plain _ _ _ _ _ _ _ (by decide)]
    simp only [Stage.run, Input.withTask, handleSignup3]
    split
    · exact goes_finish _ _ rfl
    · next hok =>
      simp only [not_or, not_not, Bool.not_eq_true] at hok
      split
      · exact goes_finish _ _ rfl
      · next id hid =>
        exact goes_exec rfl rfl (.signup4 input hb r job hj result hok.1 hok.2 id
          (authGenerateId_valid hid)
          (by simp [ht, waitingFor, loginState]))
  | signup4 input hb r job hj result hr hcn id hid ht =>
    cases hp
    cases hc with | task _ r2 =>
    rw [waitingFor, runStages_plain _ _ _ _ _ _ _ (by decide)]
    simp only [Stage.run, Input.withTask, handleSignup4, hasNext_last, hasNext_more,
      not_true_eq_false, Bool.false_eq_true, if_false]
    split
    · split
      · exact goes_finish _ _ rfl
      · exact goes_finish _ _ rfl
    · next hf =>
      exact goes_exec rfl rfl (.signup5 input hb r job result _ rfl id hid r2
        (Bool.not_eq_true _ ▸ hf)
        (by simp [ht, waitingFor]))
  | signup5 input hb r job result state hs id hid r2 hr2 ht =>
    cases hp
    cases hc with | task _ r3 =>
    rw [waitingFor, runStages_plain _ _ _ _ _ _ _ (by decide)]
    simp only [Stage.run, Input.withTask, handleSignup5, hasNext_last, hasNext_more,
      not_true_eq_false, Bool.false_eq_true, if_false]
    repeat' split
    all_goals exact goes_finish _ _ rfl

theorem goes_login {s : ReqState} {op : Op} {input : Input} {done : List Event} (env : Env)
    (hw : Waiting lib runtime request [.login1, .login2, .login3, .login4, .login5] s)
    (hp : s.pending = [op]) (hc : Completion op input done) :
    Goes lib runtime request [.login1, .login2, .login3, .login4, .login5] s op done
      (runStages lib runtime env input s.ctx s.ctx.chain) := by
  cases hw with
  | login2 input hb ht =>
    cases hp
    cases hc with | task _ r =>
    rw [waitingFor, runStages_plain _ _ _ _ _ _ _ (by decide)]
    simp only [Stage.run, Input.withTask, handleLogin2, hasNext_last, hasNext_more,
      not_true_eq_false, Bool.false_eq_true, if_false]
    split
    · exact goes_finish _ _ rfl
    · next users hu =>
      split
      · next user hf =>
        refine goes_submit rfl fun job hj => ?_
        have hw : Waiting lib runtime request _ _ :=
          .login3 input hb r _ users hu job (by rw [hf]; exact hj) rfl
        rw [hf] at hw
        rw [ht]
        exact hw
      · next hf =>
        refine goes_submit rfl fun job hj => ?_
        have hw : Waiting lib runtime request _ _ :=
          .login3 input hb r _ users hu job (by rw [hf]; exact hj) rfl
        rw [hf] at hw
        rw [ht]
        exact hw
  | login3 input hb r mem users hu job hj ht =>
    cases hp
    cases hc with | job _ result =>
    rw [waitingFor, runStages_plain _ _ _ _ _ _ _ (by decide)]
    simp only [Stage.run, Input.withTask, handleLogin3]
    split
    · exact goes_finish _ _ rfl
    · next hok =>
      split
      · exact goes_finish _ _ rfl
      · next hfound =>
        simp only [not_or, not_not, Bool.not_eq_true, Bool.not_eq_false] at hok hfound
        cases hf : users.find? fun user => user.username == input.username with
        | none => rw [hf] at hfound; cases hfound.2
        | some user =>
          rw [hf] at hj
          exact goes_exec rfl rfl (.login4 input hb r mem users hu user hf job hj result
            hfound.1 hok.1
            (by simp [ht, waitingFor]))
  | login4 input hb r mem users hu user hf job hj result hr hcn ht =>
    cases hp
    cases hc with | task _ r2 =>
    rw [waitingFor, runStages_plain _ _ _ _ _ _ _ (by decide)]
    simp only [Stage.run, Input.withTask, handleLogin4, hasNext_last, hasNext_more,
      not_true_eq_false, Bool.false_eq_true, if_false]
    split
    · exact goes_finish _ _ rfl
    · next hs =>
      split
      · exact goes_finish _ _ rfl
      · next id hid =>
        split
        · exact goes_finish _ _ rfl
        · next token hi =>
          exact goes_exec rfl rfl (.login5 input hb r mem users hu user hf job hj result hr hcn r2
            (Bool.not_eq_false _ ▸ hs) env.now id token (authGenerateId_valid hid) ⟨env.alloc, hi⟩
            (by simp [ht, waitingFor, loginState]))
  | login5 input hb r mem users hu user hf job hj result hr hcn r2 hr2 now id token hid hi ht =>
    cases hp
    cases hc with | task _ r3 =>
    rw [waitingFor, runStages_plain _ _ _ _ _ _ _ (by decide)]
    simp only [Stage.run, Input.withTask, handleLogin5, hasNext_last, hasNext_more,
      not_true_eq_false, Bool.false_eq_true, if_false]
    repeat' split
    all_goals exact goes_finish _ _ rfl

/-! ## the check of the token -/

/-- what the first stage behind the check leads to -/
def First (lib : AuthLib) (runtime : Runtime) (request : Request) (chain : List Stage)
    (g : Passed lib runtime request) (o : Outcome) : Prop :=
  (∃ r, o.Done r) ∨ Waiting lib runtime request chain ⟨o.ctx, some o.verdict, opsOf o.events,
    g.trace ++ o.events⟩

theorem first_finish {chain : List Stage} {g : Passed lib runtime request} (ctx : Ctx)
    {events : List Event}
    (r : Response) (h : events.all Event.isQuiet = true) :
    First lib runtime request chain g (ctx.finish events r) :=
  .inl ⟨r, finish_done ctx r h⟩

theorem first_exec {chain : List Stage} {g : Passed lib runtime request} {env : Env}
    {ctx : Ctx} {q : Query} {refused : Response}
    (hw : Waiting lib runtime request chain ⟨ctx, some .wait, [.db q], g.trace ++ [.query q]⟩) :
    First lib runtime request chain g (ctx.exec env [] q refused) := by
  have hcases := exec_cases env ctx q refused (show List.all [] Event.isQuiet = true from rfl)
  rcases hcases with hd | he
  · exact .inl hd
  · refine .inr ?_
    rw [he]
    exact hw

/-- the rows that `handle_auth_2` looks for -/
theorem sessionRow_of_bind {mem : Bool} {result : DbResult} {sessions : List AuthSession}
    {claims : AuthClaims} (hb : bindAuthSessions mem result = some sessions)
    (hm : sessions.any (sessionMatches claims) = true) : SessionRow result claims := by
  obtain ⟨res, hres, -, hrows⟩ := bindRows_some hb
  obtain ⟨session, hs, hmatch⟩ := List.any_eq_true.1 hm
  obtain ⟨row, hrow, hbind⟩ := Readers.mem_of_mapM hrows hs
  simp only [sessionMatches, Bool.and_eq_true, beq_iff_eq] at hmatch
  refine ⟨res, hres, row, hrow, ?_⟩
  rw [hbind, ← hmatch.1.1.1, ← hmatch.1.1.2, ← hmatch.1.2, ← hmatch.2]

/-- `handle_auth_2` refuses, or passes the request on -/
theorem handleAuth2_cases (a : Accepted lib runtime request) (rest : List Stage) (env : Env)
    (r : DbResult) :
    (∃ resp, (handleAuth2 env ⟨request, .auth2 :: rest, .none, some ⟨a.claims, false⟩⟩
        ⟨.selectSessions, r⟩).Done resp) ∨
      ∃ g : Passed lib runtime request, g.toAccepted = a ∧ g.result = r ∧
        handleAuth2 env ⟨request, .auth2 :: rest, .none, some ⟨a.claims, false⟩⟩
        ⟨.selectSessions, r⟩ =
          ⟨⟨request, rest, .none, g.identity⟩, [.clock g.later, .verified g.claims], .next⟩ := by
  unfold handleAuth2
  split
  · exact .inl ⟨_, finish_done _ _ rfl⟩
  · next sessions hb =>
    dsimp only
    split
    · exact .inl ⟨_, finish_done _ _ rfl⟩
    · next hnow =>
      split
      · exact .inl (unauthorized_done _ rfl)
      · next hok =>
        simp only [not_or, Bool.not_eq_false, ge_iff_le, not_le, not_lt] at hok hnow
        exact .inr ⟨{ a with result := r, later := env.now, row := sessionRow_of_bind hb hok.1,
                             laterClock := hnow, running := hok.2.1, started := hok.2.2 },
                               rfl, rfl, rfl⟩

theorem Outcome.Done.prepend {o : Outcome} {response : Response} (h : o.Done response)
    (pre : List Event)
    (hpre : pre.all Event.isQuiet = true) :
    ({ o with events := pre ++ o.events } : Outcome).Done response := by
  obtain ⟨hv, events, he, hq⟩ := h
  refine ⟨hv, pre ++ events, ?_, ?_⟩
  · simp only [he, List.append_assoc]
  · rw [List.all_append, hpre, hq]
    rfl

/-- a request behind the check starts with the first stage of its own -/
theorem goes_auth2 {rest : List Stage} {s : ReqState} (a : Accepted lib runtime request)
    (hs : s = waitingFor request (.auth2 :: rest) .none (some ⟨a.claims, false⟩)
      (.db .selectSessions) a.trace)
    (env : Env) (r : DbResult)
    (hfirst : ∀ g : Passed lib runtime request,
      First lib runtime request (.auth1 :: .auth2 :: rest) g
        (runStages lib runtime env {} ⟨request, rest, .none, g.identity⟩ rest)) :
    Goes lib runtime request (.auth1 :: .auth2 :: rest) s (.db .selectSessions)
      [.completed .selectSessions r]
      (runStages lib runtime env { task := some ⟨.selectSessions, r⟩ } s.ctx s.ctx.chain) := by
  subst hs
  simp only [waitingFor, runStages, Stage.run, Input.withTask]
  rcases handleAuth2_cases a rest env r with ⟨resp, hd⟩ | ⟨g, rfl, rfl, heq⟩
  · rw [hd.verdict]
    exact .inl ⟨resp, hd⟩
  · rw [heq]
    dsimp only
    rcases hfirst g with ⟨resp, hd⟩ | hw
    · exact .inl ⟨resp, hd.prepend _ rfl⟩
    · refine .inr ?_
      simp only [ReqState.resume, List.erase_cons_head, List.nil_append]
      have hops : ∀ l : List Event, opsOf ([.clock g.later, .verified g.claims] ++ l) =
        opsOf l := fun l => rfl
      rw [hops]
      simpa only [Accepted.trace, Passed.trace, List.append_assoc, List.cons_append,
        List.nil_append] using hw

/-! ## routes behind the check -/

theorem first_logout (g : Passed lib runtime request) (env : Env) :
    First lib runtime request [.auth1, .auth2, .logout1, .logout2] g
      (runStages lib runtime env {} ⟨request, [.logout1, .logout2],
        .none, g.identity⟩ [.logout1, .logout2]) := by
  rw [runStages_plain _ _ _ _ _ _ _ (by decide)]
  simp only [Stage.run, handleLogout1, Ctx.user, Passed.identity, if_true, hasNext_more,
    not_true_eq_false, if_false]
  exact first_exec (.logout2 g rfl)

theorem goes_logout {s : ReqState} {op : Op} {input : Input} {done : List Event} (env : Env)
    (hw : Waiting lib runtime request [.auth1, .auth2, .logout1, .logout2] s)
    (hp : s.pending = [op]) (hc : Completion op input done) :
    Goes lib runtime request [.auth1, .auth2, .logout1, .logout2] s op done
      (runStages lib runtime env input s.ctx s.ctx.chain) := by
  cases hw with
  | auth2 rest a ht =>
    cases hp
    cases hc with | task _ r =>
    subst ht
    exact goes_auth2 a rfl env r fun g => first_logout g env
  | logout2 g ht =>
    cases hp
    cases hc with | task _ r =>
    rw [waitingFor, runStages_plain _ _ _ _ _ _ _ (by decide)]
    simp only [Stage.run, Input.withTask, handleLogout2, hasNext_last, hasNext_more,
      not_true_eq_false, Bool.false_eq_true, if_false]
    exact goes_finish _ _ rfl

theorem first_getOwnChallenges (g : Passed lib runtime request) (env : Env) :
    First lib runtime request [.auth1, .auth2, .getOwnChallenges1, .getOwnChallenges2] g
      (runStages lib runtime env {} ⟨request, [.getOwnChallenges1, .getOwnChallenges2],
        .none, g.identity⟩ [.getOwnChallenges1, .getOwnChallenges2]) := by
  rw [runStages_plain _ _ _ _ _ _ _ (by decide)]
  simp only [Stage.run, handleGetOwnChallenges1, Ctx.user, Passed.identity, if_true, hasNext_more,
    not_true_eq_false, if_false]
  exact first_exec (.getOwnChallenges2 g rfl)

theorem goes_getOwnChallenges {s : ReqState} {op : Op} {input : Input}
    {done : List Event} (env : Env)
    (hw : Waiting lib runtime request [.auth1, .auth2, .getOwnChallenges1, .getOwnChallenges2] s)
    (hp : s.pending = [op]) (hc : Completion op input done) :
    Goes lib runtime request [.auth1, .auth2, .getOwnChallenges1, .getOwnChallenges2] s op done
      (runStages lib runtime env input s.ctx s.ctx.chain) := by
  cases hw with
  | auth2 rest a ht =>
    cases hp
    cases hc with | task _ r =>
    subst ht
    exact goes_auth2 a rfl env r fun g => first_getOwnChallenges g env
  | getOwnChallenges2 g ht =>
    cases hp
    cases hc with | task _ r =>
    rw [waitingFor, runStages_plain _ _ _ _ _ _ _ (by decide)]
    simp only [Stage.run, Input.withTask, handleGetOwnChallenges2, hasNext_last, hasNext_more,
      not_true_eq_false, Bool.false_eq_true, if_false]
    repeat' split
    all_goals exact goes_finish _ _ rfl

theorem first_postChallenges (g : Passed lib runtime request) (env : Env) :
    First lib runtime request [.auth1, .auth2, .postChallenges1, .postChallenges2] g
      (runStages lib runtime env {} ⟨request, [.postChallenges1, .postChallenges2],
        .none, g.identity⟩ [.postChallenges1, .postChallenges2]) := by
  rw [runStages_plain _ _ _ _ _ _ _ (by decide)]
  simp only [Stage.run, handlePostChallenges1, Ctx.user, Passed.identity, if_true, hasNext_more,
    not_true_eq_false, if_false]
  split
  · exact first_finish _ _ rfl
  · next input hb => exact first_exec (.postChallenges2 g input ⟨env.keys, hb⟩ rfl)

theorem goes_postChallenges {s : ReqState} {op : Op} {input : Input} {done : List Event} (env : Env)
    (hw : Waiting lib runtime request [.auth1, .auth2, .postChallenges1, .postChallenges2] s)
    (hp : s.pending = [op]) (hc : Completion op input done) :
    Goes lib runtime request [.auth1, .auth2, .postChallenges1, .postChallenges2] s op done
      (runStages lib runtime env input s.ctx s.ctx.chain) := by
  cases hw with
  | auth2 rest a ht =>
    cases hp
    cases hc with | task _ r =>
    subst ht
    exact goes_auth2 a rfl env r fun g => first_postChallenges g env
  | postChallenges2 g input hb ht =>
    cases hp
    cases hc with | task _ r =>
    rw [waitingFor, runStages_plain _ _ _ _ _ _ _ (by decide)]
    simp only [Stage.run, Input.withTask, handlePostChallenges2, hasNext_last, hasNext_more,
      not_true_eq_false, Bool.false_eq_true, if_false]
    repeat' split
    all_goals exact goes_finish _ _ rfl

theorem first_putChallenges (g : Passed lib runtime request) (env : Env) :
    First lib runtime request [.auth1, .auth2, .putChallenges1, .putChallenges2,
      .putChallenges3, .putChallenges4] g
      (runStages lib runtime env {}
        ⟨request, [.putChallenges1, .putChallenges2, .putChallenges3, .putChallenges4],
        .none, g.identity⟩ [.putChallenges1, .putChallenges2, .putChallenges3,
        .putChallenges4]) := by
  rw [runStages_plain _ _ _ _ _ _ _ (by decide)]
  simp only [Stage.run, handlePutChallenges1, newChallengeWriteState, Ctx.user,
    Passed.identity, if_true,
    hasNext_more, not_true_eq_false, if_false]
  cases hid : readChallengeId request with
  | none => exact first_finish _ _ rfl
  | some id =>
    cases env.alloc .state with
    | false => exact first_finish _ _ rfl
    | true =>
      simp only [Bool.true_eq_false, if_false]
      split
      · exact first_finish _ _ rfl
      · next input hb =>
        simp only [Ctx.selectChallengeOwners, hasNext_more, not_true_eq_false, if_false]
        exact first_exec (.putChallenges2 g id hid input ⟨env.keys, hb⟩ rfl)

theorem goes_putChallenges {s : ReqState} {op : Op} {input : Input} {done : List Event} (env : Env)
    (hw : Waiting lib runtime request [.auth1, .auth2, .putChallenges1, .putChallenges2,
      .putChallenges3, .putChallenges4] s)
    (hp : s.pending = [op]) (hc : Completion op input done) :
    Goes lib runtime request [.auth1, .auth2, .putChallenges1, .putChallenges2,
      .putChallenges3, .putChallenges4] s op done
      (runStages lib runtime env input s.ctx s.ctx.chain) := by
  cases hw with
  | auth2 rest a ht =>
    cases hp
    cases hc with | task _ r =>
    subst ht
    exact goes_auth2 a rfl env r fun g => first_putChallenges g env
  | putChallenges2 g id hid input hb ht =>
    cases hp
    cases hc with | task _ r =>
    rw [waitingFor, runStages_plain _ _ _ _ _ _ _ (by decide)]
    simp only [Stage.run, Input.withTask, handlePutChallenges2, writeIfOwner, hasNext_last,
      hasNext_more,
      not_true_eq_false, Bool.false_eq_true, if_false]
    split
    · exact goes_finish _ _ rfl
    · next hok =>
      exact goes_exec rfl rfl (.putChallenges3 g id hid input hb r (not_not.1 hok)
        (by simp [ht, waitingFor, Ctx.userBytes, Ctx.user, Passed.identity]))
  | putChallenges3 g id hid input hb r hr ht =>
    cases hp
    cases hc with | task _ r2 =>
    rw [waitingFor, runStages_plain _ _ _ _ _ _ _ (by decide)]
    simp only [Stage.run, Input.withTask, handlePutChallenges3, hasNext_last, hasNext_more,
      not_true_eq_false, Bool.false_eq_true, if_false]
    split
    · exact goes_finish _ _ rfl
    · next hok =>
      simp only [not_or, Bool.not_eq_false] at hok
      split
      · next hzero =>
        simp only [Ctx.selectChallengeOwners, hasNext_more, not_true_eq_false, if_false]
        exact goes_exec rfl rfl (.putChallenges4 g id hid input hb r hr r2 hok.1 hzero
          (by simp [ht, waitingFor]))
      · exact goes_finish _ _ rfl
  | putChallenges4 g id hid input hb r hr r2 hr2 ha ht =>
    cases hp
    cases hc with | task _ r3 =>
    rw [waitingFor, runStages_plain _ _ _ _ _ _ _ (by decide)]
    simp only [Stage.run, Input.withTask, handlePutChallenges4, hasNext_last, hasNext_more,
      not_true_eq_false, Bool.false_eq_true, if_false]
    split
    all_goals exact goes_finish _ _ rfl

theorem first_deleteChallenges (g : Passed lib runtime request) (env : Env) :
    First lib runtime request [.auth1, .auth2, .deleteChallenges1, .deleteChallenges2,
      .deleteChallenges3, .deleteChallenges4] g
      (runStages lib runtime env {}
        ⟨request, [.deleteChallenges1, .deleteChallenges2, .deleteChallenges3, .deleteChallenges4],
        .none, g.identity⟩ [.deleteChallenges1, .deleteChallenges2, .deleteChallenges3,
        .deleteChallenges4]) := by
  rw [runStages_plain _ _ _ _ _ _ _ (by decide)]
  simp only [Stage.run, handleDeleteChallenges1, newChallengeWriteState, Ctx.user, Passed.identity,
    if_true, hasNext_more,
    not_true_eq_false, if_false]
  cases hid : readChallengeId request with
  | none => exact first_finish _ _ rfl
  | some id =>
    cases env.alloc .state with
    | false => exact first_finish _ _ rfl
    | true =>
      simp only [Bool.true_eq_false, if_false, Ctx.selectChallengeOwners, hasNext_more,
        not_true_eq_false]
      exact first_exec (.deleteChallenges2 g id hid rfl)

theorem goes_deleteChallenges {s : ReqState} {op : Op} {input : Input}
    {done : List Event} (env : Env)
    (hw : Waiting lib runtime request [.auth1, .auth2, .deleteChallenges1, .deleteChallenges2,
      .deleteChallenges3, .deleteChallenges4] s)
    (hp : s.pending = [op]) (hc : Completion op input done) :
    Goes lib runtime request [.auth1, .auth2, .deleteChallenges1, .deleteChallenges2,
      .deleteChallenges3, .deleteChallenges4] s op done
      (runStages lib runtime env input s.ctx s.ctx.chain) := by
  cases hw with
  | auth2 rest a ht =>
    cases hp
    cases hc with | task _ r =>
    subst ht
    exact goes_auth2 a rfl env r fun g => first_deleteChallenges g env
  | deleteChallenges2 g id hid ht =>
    cases hp
    cases hc with | task _ r =>
    rw [waitingFor, runStages_plain _ _ _ _ _ _ _ (by decide)]
    simp only [Stage.run, Input.withTask, handleDeleteChallenges2, writeIfOwner, hasNext_last,
      hasNext_more,
      not_true_eq_false, Bool.false_eq_true, if_false]
    split
    · exact goes_finish _ _ rfl
    · next hok =>
      exact goes_exec rfl rfl (.deleteChallenges3 g id hid r (not_not.1 hok)
        (by simp [ht, waitingFor, Ctx.userBytes, Ctx.user, Passed.identity]))
  | deleteChallenges3 g id hid r hr ht =>
    cases hp
    cases hc with | task _ r2 =>
    rw [waitingFor, runStages_plain _ _ _ _ _ _ _ (by decide)]
    simp only [Stage.run, Input.withTask, handleDeleteChallenges3, hasNext_last, hasNext_more,
      not_true_eq_false, Bool.false_eq_true, if_false]
    split
    · exact goes_finish _ _ rfl
    · next hok =>
      simp only [not_or, Bool.not_eq_false] at hok
      split
      · next hzero =>
        simp only [Ctx.selectChallengeOwners, hasNext_more, not_true_eq_false, if_false]
        exact goes_exec rfl rfl (.deleteChallenges4 g id hid r hr r2 hok.1 hzero
          (by simp [ht, waitingFor]))
      · exact goes_finish _ _ rfl
  | deleteChallenges4 g id hid r hr r2 hr2 ha ht =>
    cases hp
    cases hc with | task _ r3 =>
    rw [waitingFor, runStages_plain _ _ _ _ _ _ _ (by decide)]
    simp only [Stage.run, Input.withTask, handleDeleteChallenges4, hasNext_last, hasNext_more,
      not_true_eq_false, Bool.false_eq_true, if_false]
    exact goes_finish _ _ rfl

theorem first_postAnswers (g : Passed lib runtime request) (env : Env) :
    First lib runtime request [.auth1, .auth2, .postAnswers1, .postAnswers2,
      .postAnswers3, .postAnswers4, .postAnswers5] g
      (runStages lib runtime env {}
        ⟨request, [.postAnswers1, .postAnswers2, .postAnswers3, .postAnswers4, .postAnswers5],
        .none, g.identity⟩ [.postAnswers1, .postAnswers2, .postAnswers3, .postAnswers4,
        .postAnswers5]) := by
  rw [runStages_plain _ _ _ _ _ _ _ (by decide)]
  simp only [Stage.run, handlePostAnswers1, Ctx.user, Passed.identity, if_true, hasNext_more,
    not_true_eq_false, if_false]
  split
  · exact first_finish _ _ rfl
  · split
    · exact first_finish _ _ rfl
    · next input hb => exact first_exec (.postAnswers2 g input ⟨env.keys, hb⟩ rfl)

theorem goes_postAnswers {s : ReqState} {op : Op} {input : Input} {done : List Event} (env : Env)
    (hw : Waiting lib runtime request [.auth1, .auth2, .postAnswers1, .postAnswers2,
      .postAnswers3, .postAnswers4, .postAnswers5] s)
    (hp : s.pending = [op]) (hc : Completion op input done) :
    Goes lib runtime request [.auth1, .auth2, .postAnswers1, .postAnswers2,
      .postAnswers3, .postAnswers4, .postAnswers5] s op done
      (runStages lib runtime env input s.ctx s.ctx.chain) := by
  cases hw with
  | auth2 rest a ht =>
    cases hp
    cases hc with | task _ r =>
    subst ht
    exact goes_auth2 a rfl env r fun g => first_postAnswers g env
  | postAnswers2 g input hb ht =>
    cases hp
    cases hc with | task _ r =>
    rw [waitingFor, runStages_plain _ _ _ _ _ _ _ (by decide)]
    simp only [Stage.run, Input.withTask, handlePostAnswers2, hasNext_last, hasNext_more,
      not_true_eq_false, Bool.false_eq_true, if_false]
    split
    · exact goes_finish _ _ rfl
    · next challenges hr =>
      split
      · exact goes_finish _ _ rfl
      · next challenge hf =>
        split
        · exact goes_finish _ _ rfl
        · next correct hq =>
          exact goes_exec rfl rfl (.postAnswers3 g input hb r _ challenges hr challenge
            hf correct hq
            (by simp [ht, waitingFor, Ctx.userBytes, Ctx.user, Passed.identity]))
  | postAnswers3 g input hb r mem challenges hr challenge hf correct hq ht =>
    cases hp
    cases hc with | task _ r2 =>
    rw [waitingFor, runStages_plain _ _ _ _ _ _ _ (by decide)]
    simp only [Stage.run, Input.withTask, handlePostAnswers3, Ctx.advance, List.tail_cons,
      hasNext_last, hasNext_more,
      not_true_eq_false, Bool.false_eq_true, if_false]
    split
    · next h => exact absurd h (by simp)
    · split
      · next hfail =>
        exact goes_exec rfl rfl (.postAnswers5 g input hb r mem challenges hr challenge hf
          correct hq r2 hfail
          (by simp [ht, waitingFor]))
      · next hs =>
        split
        · exact goes_finish _ _ rfl
        · next hok =>
          simp only [not_or, not_not, not_lt, gt_iff_lt] at hok
          exact goes_exec rfl rfl (.postAnswers4 g input hb r mem challenges hr challenge hf
            correct hq r2
            (Bool.not_eq_false _ ▸ hs) hok.1 ⟨Nat.pos_of_ne_zero hok.2.1, hok.2.2⟩
            (by simp [ht, waitingFor]))
  | postAnswers4 g input hb r mem challenges hr challenge hf correct hq r2 hr2 ha hi ht =>
    cases hp
    cases hc with | task _ r3 =>
    rw [waitingFor, runStages_plain _ _ _ _ _ _ _ (by decide)]
    simp only [Stage.run, Input.withTask, handlePostAnswers4, hasNext_last, hasNext_more,
      not_true_eq_false, Bool.false_eq_true, if_false]
    repeat' split
    all_goals exact goes_finish _ _ rfl
  | postAnswers5 g input hb r mem challenges hr challenge hf correct hq r2 hr2 ht =>
    cases hp
    cases hc with | task _ r3 =>
    rw [waitingFor, runStages_plain _ _ _ _ _ _ _ (by decide)]
    simp only [Stage.run, Input.withTask, handlePostAnswers5, hasNext_last, hasNext_more,
      not_true_eq_false, Bool.false_eq_true, if_false]
    repeat' split
    all_goals exact goes_finish _ _ rfl

theorem first_getOwnAnswers (g : Passed lib runtime request) (env : Env) :
    First lib runtime request [.auth1, .auth2, .getOwnAnswers1, .getOwnAnswers2,
      .getOwnAnswers3] g
      (runStages lib runtime env {} ⟨request, [.getOwnAnswers1, .getOwnAnswers2, .getOwnAnswers3],
        .none, g.identity⟩ [.getOwnAnswers1, .getOwnAnswers2, .getOwnAnswers3]) := by
  rw [runStages_plain _ _ _ _ _ _ _ (by decide)]
  simp only [Stage.run, handleGetOwnAnswers1, selectForAnswers, Ctx.user, Passed.identity, if_true,
    hasNext_more,
    not_true_eq_false, if_false]
  split
  · exact first_finish _ _ rfl
  · next id hid =>
    split
    · exact first_finish _ _ rfl
    · exact first_exec (.getOwnAnswers2 g id hid rfl)

theorem goes_getOwnAnswers {s : ReqState} {op : Op} {input : Input} {done : List Event} (env : Env)
    (hw : Waiting lib runtime request [.auth1, .auth2, .getOwnAnswers1, .getOwnAnswers2,
      .getOwnAnswers3] s)
    (hp : s.pending = [op]) (hc : Completion op input done) :
    Goes lib runtime request [.auth1, .auth2, .getOwnAnswers1, .getOwnAnswers2,
      .getOwnAnswers3] s op done
      (runStages lib runtime env input s.ctx s.ctx.chain) := by
  cases hw with
  | auth2 rest a ht =>
    cases hp
    cases hc with | task _ r =>
    subst ht
    exact goes_auth2 a rfl env r fun g => first_getOwnAnswers g env
  | getOwnAnswers2 g id hid ht =>
    cases hp
    cases hc with | task _ r =>
    rw [waitingFor, runStages_plain _ _ _ _ _ _ _ (by decide)]
    simp only [Stage.run, Input.withTask, handleGetOwnAnswers2, checkFilter, hasNext_last,
      hasNext_more,
      not_true_eq_false, Bool.false_eq_true, if_false]
    split
    · exact goes_finish _ _ rfl
    · split
      · exact goes_exec rfl rfl (.getOwnAnswers3 g id hid r (by simp [ht, waitingFor]))
      · exact goes_finish _ _ rfl
  | getOwnAnswers3 g id hid r ht =>
    cases hp
    cases hc with | task _ r2 =>
    rw [waitingFor, runStages_plain _ _ _ _ _ _ _ (by decide)]
    simp only [Stage.run, Input.withTask, handleGetOwnAnswers3, listAnswers, hasNext_last,
      hasNext_more,
      not_true_eq_false, Bool.false_eq_true, if_false]
    repeat' split
    all_goals exact goes_finish _ _ rfl

/-! ## the first call -/

/-- what the first call leads to -/
def Starts (lib : AuthLib) (runtime : Runtime) (request : Request) (chain : List Stage)
    (o : Outcome) : Prop :=
  (∃ r, o.Done r) ∨ Waiting lib runtime request chain (.start o)

theorem starts_finish {chain : List Stage} (ctx : Ctx) {events : List Event} (r : Response)
    (h : events.all Event.isQuiet = true) :
    Starts lib runtime request chain (ctx.finish events r) := .inl ⟨r, finish_done ctx r h⟩

theorem starts_exec {chain : List Stage} {env : Env} {ctx : Ctx} {events : List Event} {q : Query}
    {refused : Response} (h : events.all Event.isQuiet = true)
    (hw : Waiting lib runtime request chain ⟨ctx, some .wait, [.db q], events ++ [.query q]⟩) :
    Starts lib runtime request chain (ctx.exec env events q refused) := by
  rcases exec_cases env ctx q refused h with hd | he
  · exact .inl hd
  · refine .inr ?_
    have ho : opsOf (events ++ [.query q]) = [.db q] := by rw [opsOf_append, opsOf_quiet h]; rfl
    simp only [ReqState.start, he, ho]
    exact hw

theorem starts_selectUsers {chain : List Stage} (env : Env) (stage : Stage) (rest : List Stage)
    (hw : ∀ input, request.Credentials input →
      Waiting lib runtime request chain
        (waitingFor request rest (.auth { input := input }) none (.db .selectUsers)
          [.query .selectUsers])) :
    Starts lib runtime request chain
      (selectUsersFirst env ⟨request, stage :: rest, .none, none⟩) := by
  unfold selectUsersFirst
  split
  · exact starts_finish _ _ rfl
  · next state hs =>
    unfold readCredentials at hs
    split at hs
    · cases hs
    split at hs
    · cases hs
    · next input hb =>
      cases hs
      exact starts_exec rfl (hw input ⟨_, _, _, hb⟩)

/-- the first call of a route behind the check -/
theorem starts_auth1 (rest : List Stage) (env : Env) :
    Starts lib runtime request (.auth1 :: .auth2 :: rest)
      (runStages lib runtime env {} ⟨request, .auth1 :: .auth2 :: rest, .none, none⟩
        (.auth1 :: .auth2 :: rest)) := by
  rw [runStages_plain _ _ _ _ _ _ _ (by decide)]
  simp only [Stage.run, handleAuth1]
  split
  · exact starts_finish _ _ rfl
  · next token htoken =>
    split
    · exact starts_finish _ _ rfl
    · next hnow =>
      split
      · exact starts_finish _ _ rfl
      · exact starts_finish _ _ rfl
      · next claims hv =>
        split
        · exact starts_finish _ _ rfl
        · rw [hv]
          exact starts_exec rfl
            (.auth2 rest ⟨token, env.now, claims, htoken, not_lt.1 hnow, ⟨env.alloc, hv⟩⟩ rfl)

theorem route_mem {route : Route} (h : request.route = some route) : route ∈ routes := by
  unfold Request.route findRoute at h
  exact List.mem_of_find?_eq_some h

/-- the chain of a request -/
def Request.chain (request : Request) : List Stage :=
  match request.route with
  | none => []
  | some route => route.chain

theorem dispatch_starts (env : Env) :
    Starts lib runtime request request.chain (dispatch lib runtime env request) := by
  unfold dispatch Request.chain
  cases hr : request.route with
  | none => exact starts_finish _ _ rfl
  | some route =>
    cases hctx : env.alloc .context with
    | false => exact starts_finish _ _ rfl
    | true =>
      have hmem : route ∈ routes := route_mem hr
      simp only [Bool.true_eq_false, if_false]
      simp only [routes, authenticated, List.mem_cons, List.not_mem_nil, or_false] at hmem
      rcases hmem with rfl | rfl | rfl | rfl | rfl | rfl | rfl | rfl | rfl | rfl | rfl
        | rfl | rfl | rfl
      -- the routes that start behind the check
      case inr.inr.inr.inl => exact starts_auth1 _ env
      case inr.inr.inr.inr.inl => exact starts_auth1 _ env
      case inr.inr.inr.inr.inr.inl => exact starts_auth1 _ env
      case inr.inr.inr.inr.inr.inr.inl => exact starts_auth1 _ env
      case inr.inr.inr.inr.inr.inr.inr.inl => exact starts_auth1 _ env
      case inr.inr.inr.inr.inr.inr.inr.inr.inr.inl => exact starts_auth1 _ env
      case inr.inr.inr.inr.inr.inr.inr.inr.inr.inr.inr.inr.inl => exact starts_auth1 _ env
      all_goals rw [runStages_plain _ _ _ _ _ _ _ (by decide)]
      · exact starts_finish _ _ rfl
      · exact starts_exec rfl (.hello2 rfl)
      · simp only [Stage.run, handleGetChallenges1, hasNext_more, not_true_eq_false, if_false]
        split
        · exact starts_finish _ _ rfl
        · split
          · exact starts_exec rfl (.getChallenges2 [env.now] rfl)
          · exact starts_exec rfl (.getChallenges2 [] rfl)
      · simp only [Stage.run, handleGetAnswers1, selectForAnswers, hasNext_more,
          not_true_eq_false, if_false]
        split
        · exact starts_finish _ _ rfl
        · next id hid =>
          split
          · exact starts_finish _ _ rfl
          · exact starts_exec rfl (.getAnswers2 id hid rfl)
      · exact starts_selectUsers env _ _ fun input hb => .signup2 input hb rfl
      · exact starts_selectUsers env _ _ fun input hb => .login2 input hb rfl
      · simp only [Stage.run, handleGetUsers1, hasNext_more, not_true_eq_false, if_false]
        split
        · exact starts_finish _ _ rfl
        · exact starts_exec rfl (.getUsers2 rfl)

/-! ## all the states -/

/-- **a call in a waiting state answers or waits again** -/
theorem Waiting.goes {s : ReqState} {op : Op} {input : Input} {done : List Event} (env : Env)
    (hw : Waiting lib runtime request request.chain s) (hp : s.pending = [op])
    (hc : Completion op input done) :
    Goes lib runtime request request.chain s op done
      (runStages lib runtime env input s.ctx s.ctx.chain) := by
  unfold Request.chain at hw ⊢
  cases hr : request.route with
  | none => rw [hr] at hw; cases hw
  | some route =>
    rw [hr] at hw
    dsimp only at hw ⊢
    have hmem : route ∈ routes := route_mem hr
    simp only [routes, authenticated, List.mem_cons, List.not_mem_nil, or_false] at hmem
    rcases hmem with rfl | rfl | rfl | rfl | rfl | rfl | rfl | rfl | rfl | rfl | rfl
      | rfl | rfl | rfl
    · cases hw
    · exact goes_hello env hw hp hc
    · exact goes_getChallenges env hw hp hc
    · exact goes_getOwnChallenges env hw hp hc
    · exact goes_postChallenges env hw hp hc
    · exact goes_putChallenges env hw hp hc
    · exact goes_deleteChallenges env hw hp hc
    · exact goes_postAnswers env hw hp hc
    · exact goes_getAnswers env hw hp hc
    · exact goes_getOwnAnswers env hw hp hc
    · exact goes_signup env hw hp hc
    · exact goes_login env hw hp hc
    · exact goes_logout env hw hp hc
    · exact goes_getUsers env hw hp hc

theorem Waiting.pending {chain : List Stage} {s : ReqState}
    (h : Waiting lib runtime request chain s) :
    ∃ op, s.pending = [op] := by
  cases h <;> exact ⟨_, rfl⟩

theorem Waiting.verdict {chain : List Stage} {s : ReqState}
    (h : Waiting lib runtime request chain s) :
    s.verdict = some .wait := by
  cases h <;> rfl

theorem Finished.pending {meets : Env → Prop} {chain : List Stage} {s : ReqState}
    (h : Finished lib runtime request meets chain s) :
    s.pending = [] := by
  cases h with
  | atOnce hmeets hd => exact hd.ops
  | last hmeets hw hp hc hd => simp [ReqState.resume, hp, hd.ops]
  | discard hw hp hc => simp [ReqState.discard, hp]
  | cancel hw hp => simp [ReqState.cancel, hp]

/-- **every state of a request waits for one operation or is finished** -/
theorem Reach.shape {meets : Env → Prop} {s : ReqState} (h : Reach lib runtime meets request s) :
    Waiting lib runtime request request.chain s ∨ Finished lib runtime request meets
    request.chain s := by
  induction h with
  | start env hmeets =>
    rcases dispatch_starts env with ⟨r, hd⟩ | hw
    · exact .inr (.atOnce hmeets hd)
    · exact .inl hw
  | @resume s op input done env hmeets _ hop hc ih =>
    rcases ih with hw | hf
    · obtain ⟨o, ho⟩ := hw.pending
      have heq : op = o := by rw [ho] at hop; exact List.mem_singleton.1 hop
      subst heq
      rcases hw.goes env ho hc with ⟨r, hd⟩ | hw'
      · exact .inr (.last hmeets hw ho hc hd)
      · exact .inl hw'
    · rw [hf.pending] at hop
      cases hop
  | @discard s op done _ hop hc ih =>
    rcases ih with hw | hf
    · obtain ⟨o, ho⟩ := hw.pending
      have heq : op = o := by rw [ho] at hop; exact List.mem_singleton.1 hop
      subst heq
      exact .inr (.discard hw ho hc)
    · rw [hf.pending] at hop
      cases hop
  | @cancel s job _ hop ih =>
    rcases ih with hw | hf
    · obtain ⟨o, ho⟩ := hw.pending
      have heq : .password job = o := by rw [ho] at hop; exact List.mem_singleton.1 hop
      subst heq
      exact .inr (.cancel hw ho)
    · rw [hf.pending] at hop
      cases hop

end

/-! ## the events of a call -/

/-- an event of a call itself, not of what was handed to it -/
def Event.isOwn : Event → Bool
  | .completed .. | .discarded .. | .finished .. => false
  | _ => true

theorem exec_own {env : Env} {ctx : Ctx} {events : List Event} {q : Query} {refused : Response}
    (h : events.all Event.isOwn = true) :
    (ctx.exec env events q refused).events.all Event.isOwn = true := by
  unfold Ctx.exec
  split <;> simp [Ctx.finish, Event.isOwn, h]

theorem submitPassword_own (runtime : Runtime) (env : Env) (ctx : Ctx) (state : AuthState)
    (operation : PasswordOperation) (hash : Option Bytes) :
    (ctx.submitPassword runtime env state operation hash).events.all Event.isOwn = true := by
  unfold Ctx.submitPassword
  dsimp only
  split
  · rfl
  · split <;> rfl

theorem reading_own {events : List Event} (h : events.all Event.isReading = true) :
    events.all Event.isOwn = true := by
  rw [List.all_eq_true] at h ⊢
  intro e he
  have hread := h e he
  cases e with
  | completed | discarded | finished => cases hread
  | _ => rfl

theorem Stage.run_own (lib : AuthLib) (runtime : Runtime) (env : Env) (input : Input) (ctx : Ctx)
    (stage : Stage) : (stage.run lib runtime env input ctx).events.all Event.isOwn = true := by
  by_cases hstage : stage = .auth2
  · subst hstage
    simp only [Stage.run, Input.withTask, handleAuth2]
    repeat' split
    all_goals rfl
  have hends := Stage.ends lib runtime env input ctx stage hstage
  generalize stage.run lib runtime env input ctx = o at hends
  cases hends with
  | crash => rfl
  | finish events r he => simp [Ctx.finish, reading_own he, Event.isOwn]
  | exec c events q refused hc he hq => exact exec_own (reading_own he)
  | submit => exact submitPassword_own ..

theorem runStages_own (lib : AuthLib) (runtime : Runtime) (env : Env) (input : Input) (ctx : Ctx)
    (chain : List Stage) : (runStages lib runtime env input ctx chain).events.all
    Event.isOwn = true := by
  induction chain generalizing input ctx with
  | nil => rfl
  | cons stage rest ih =>
    have hs := Stage.run_own lib runtime env input { ctx with chain := stage :: rest } stage
    rw [runStages]
    split
    · dsimp only
      rw [List.all_append, hs, ih]
      rfl
    · exact hs

theorem dispatch_own (lib : AuthLib) (runtime : Runtime) (env : Env) (request : Request) :
    (dispatch lib runtime env request).events.all Event.isOwn = true := by
  unfold dispatch
  split
  · rfl
  · dsimp only
    split
    · rfl
    · exact runStages_own ..

end App

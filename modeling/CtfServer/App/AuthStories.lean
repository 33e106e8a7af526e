import CtfServer.App.Stories

/-!
# The statements behind a signup and a login

What a signup or a login had executed when it was answered.

* `SignupStory`, `signup_story`   a signup that was answered 201 or 409;
* `LoginStory`, `login_story`     a login that was answered 200.
-/

set_option linter.unusedVariables false
set_option linter.unusedSimpArgs false

namespace App

open Json (AuthRequest)

def signupChain : List Stage := [.signup1, .signup2, .signup3, .signup4, .signup5]
def loginChain : List Stage := [.login1, .login2, .login3, .login4, .login5]

section
variable (lib : AuthLib) (runtime : Runtime)

/-- the statements of a signup that was answered 201 or 409 -/
inductive SignupStory (input : AuthRequest) (r : Response) : List (Query × DbResult) → Prop where
  | taken (r1 : DbResult) (mem : Bool) (users : List User) (hu : bindUsers mem r1 = some users)
      (hf : users.any (fun user => user.username == input.username) = true)
      (hs : r.status = .conflict) :
      SignupStory input r [(.selectUsers, r1)]
  | created (r1 r2 : DbResult) (id hash : Bytes) (h2 : r2.success = true) (hs : r.status = .created)
      (hb : r.body = signupText id input.username) :
      SignupStory input r [(.selectUsers, r1), (.insertUser id input.username hash, r2)]
  | overtaken (r1 r2 r3 : DbResult) (id hash : Bytes) (mem : Bool) (users : List User)
      (hu : bindUsers mem r3 = some users)
      (hf : users.any (fun user => user.username == input.username) = true)
      (hs : r.status = .conflict) :
      SignupStory input r [(.selectUsers, r1), (.insertUser id input.username hash, r2),
        (.selectUsers, r3)]

/-- the statements of a login that was answered 200 -/
structure LoginStory (input : AuthRequest) (r : Response) (trace : List Event) where
  users : DbResult
  mem : Bool
  rows : List User
  read : bindUsers mem users = some rows
  user : User
  found : (rows.find? fun user => user.username == input.username) = some user
  job : PasswordJob
  made : PasswordJob.make runtime.config.dummyHash .verify input.password
    (some user.passwordHash) = some job
  result : PasswordResult
  finished : .finished job result ∈ trace
  passed : result.failure = none
  cleaned : DbResult
  now : Int
  id : Bytes
  token : Bytes
  issued : ∃ alloc, authTokenIssue lib alloc runtime.config user.id id now = .ok token
  inserted : DbResult
  success : inserted.success = true
  body : r.body = loginText token
  executed : executed trace = [(.selectUsers, users), (.deleteExpiredSessions, cleaned),
    (.insertSession id user.id now (now + runtime.config.ttl), inserted)]

end

section
variable {lib : AuthLib} {runtime : Runtime} {request : Request} {meets : Env → Prop} {s : ReqState}
  {r : Response}

/-- the statuses that say something about an account -/
def HttpStatus.accounts (status : HttpStatus) : Bool :=
  status == .ok || status == .created || status == .conflict

theorem readCredentials_accounts {env : Env} {ctx : Ctx} {status : HttpStatus}
    (h : readCredentials env ctx = .error status) : status.accounts = false := by
  unfold readCredentials at h
  repeat' split at h
  · cases h
    rfl
  · next e _ =>
    cases h
    cases e <;> rfl
  · cases h

theorem selectUsersFirst_accounts {env : Env} {ctx : Ctx}
    (hv : (selectUsersFirst env ctx).verdict = .respond r) : r.status.accounts = false := by
  unfold selectUsersFirst at hv
  split at hv
  · next status hstatus =>
    cases hv
    exact readCredentials_accounts hstatus
  · unfold Ctx.exec at hv
    split at hv
    · cases hv
    · cases hv
      rfl

/-- at its first call such a request learns nothing about an account -/
theorem dispatch_accounts {env : Env} {stage : Stage} {rest : List Stage}
    (hc : request.chain = stage :: rest)
    (hfirst : ∀ ctx, stage.run lib runtime env {} ctx = selectUsersFirst env ctx)
    (hne : stage ≠ .auth2) (hv : (dispatch lib runtime env request).verdict = .respond r) :
    r.status.accounts = false := by
  unfold Request.chain at hc
  unfold dispatch at hv
  cases hr : request.route with
  | none => rw [hr] at hc; cases hc
  | some route =>
    rw [hr] at hc hv
    dsimp only at hc hv
    split at hv
    · cases hv
      rfl
    · rw [hc, runStages_plain _ _ _ _ _ _ _ hne, hfirst] at hv
      exact selectUsersFirst_accounts hv

theorem signup_story (h : Reach lib runtime meets request s) (hc : request.chain = signupChain)
    (hr : .respond r ∈ s.trace) (hs : r.status.accounts = true) :
    ∃ input, request.Credentials input ∧ SignupStory input r (executed s.trace) := by
  have hreplied := h.replied hr
  rw [hc] at hreplied
  cases hreplied with
  | atOnce hmeets hv =>
    rw [dispatch_accounts hc (fun _ => rfl) (by decide) hv] at hs
    cases hs
  | cancelled hw hp hcancel =>
    rw [hcancel] at hs
    cases hs
  | @last s op input done env hmeets hw hp hcomp hv =>
    rw [executed_resume _ _ (runStages_own ..)]
    cases hw with
    | signup2 input hb htr =>
      cases hp
      cases hcomp with | task _ r1 =>
      subst htr
      refine ⟨input, hb, ?_⟩
      rw [waitingFor, runStages_plain _ _ _ _ _ _ _ (by decide)] at hv
      simp only [Stage.run, Input.withTask, handleSignup2, Ctx.submitPassword] at hv
      split at hv
      · cases hv
        cases hs
      next users hread =>
      split at hv
      · next hfound =>
        cases hv
        exact .taken r1 _ users hread hfound rfl
      · repeat' split at hv
        all_goals cases hv
        all_goals cases hs
    | signup3 input hb r1 job hj htr =>
      cases hp
      cases hcomp with | job _ result =>
      rw [waitingFor, runStages_plain _ _ _ _ _ _ _ (by decide)] at hv
      simp only [Stage.run, handleSignup3, Ctx.exec] at hv
      repeat' split at hv
      all_goals cases hv
      all_goals cases hs
    | signup4 input hb r1 job hj result hres hcn id hid htr =>
      cases hp
      cases hcomp with | task _ r2 =>
      subst htr
      refine ⟨input, hb, ?_⟩
      rw [waitingFor, runStages_plain _ _ _ _ _ _ _ (by decide)] at hv
      simp only [Stage.run, Input.withTask, handleSignup4, Ctx.exec] at hv
      split at hv
      · next hok =>
        split at hv
        · cases hv
          exact .created r1 r2 id _ hok rfl rfl
        · cases hv
          cases hs
      · split at hv
        all_goals cases hv
        cases hs
    | signup5 input hb r1 job result state hstate id hid r2 hr2 htr =>
      cases hp
      cases hcomp with | task _ r3 =>
      subst htr
      refine ⟨input, hb, ?_⟩
      rw [waitingFor, runStages_plain _ _ _ _ _ _ _ (by decide)] at hv
      simp only [Stage.run, Input.withTask, handleSignup5] at hv
      split at hv
      · cases hv
        cases hs
      next users hread =>
      split at hv
      · next hfound =>
        cases hv
        rw [hstate] at hfound
        exact .overtaken r1 r2 r3 id _ _ users hread hfound rfl
      · cases hv
        cases hs

theorem login_story (h : Reach lib runtime meets request s) (hc : request.chain = loginChain)
    (hr : .respond r ∈ s.trace) (hs : r.status = .ok) :
    ∃ input, request.Credentials input ∧ Nonempty (LoginStory lib runtime input r s.trace) := by
  have hreplied := h.replied hr
  rw [hc] at hreplied
  cases hreplied with
  | atOnce hmeets hv =>
    have hno := dispatch_accounts hc (fun _ => rfl) (by decide) hv
    rw [hs] at hno
    cases hno
  | cancelled hw hp hcancel =>
    rw [hcancel] at hs
    cases hs
  | @last s op input done env hmeets hw hp hcomp hv =>
    cases hw with
    | login2 input hb htr =>
      cases hp
      cases hcomp with | task _ r1 =>
      rw [waitingFor, runStages_plain _ _ _ _ _ _ _ (by decide)] at hv
      simp only [Stage.run, Input.withTask, handleLogin2, Ctx.submitPassword] at hv
      repeat' split at hv
      all_goals cases hv
      all_goals cases hs
    | login3 input hb r1 mem users hu job hj htr =>
      cases hp
      cases hcomp with | job _ result =>
      rw [waitingFor, runStages_plain _ _ _ _ _ _ _ (by decide)] at hv
      cases hf : users.find? fun user => user.username == input.username
      all_goals
        rw [hf] at hv
        simp only [Stage.run, handleLogin3, loginState, Ctx.exec, Ctx.unauthorized,
          Bool.true_eq_false, or_false, or_true,
          if_true] at hv
        repeat' split at hv
        all_goals cases hv
        all_goals cases hs
    | login4 input hb r1 mem users hu user hf job hj result hres hcn htr =>
      cases hp
      cases hcomp with | task _ r2 =>
      rw [waitingFor, runStages_plain _ _ _ _ _ _ _ (by decide)] at hv
      simp only [Stage.run, Input.withTask, handleLogin4, Ctx.exec] at hv
      repeat' split at hv
      all_goals cases hv
      all_goals cases hs
    | login5 input hb r1 mem users hu user hf job hj result hres hcn r2 hr2 now id token
        hid hi htr =>
      cases hp
      cases hcomp with | task _ r3 =>
      subst htr
      rw [waitingFor, runStages_plain _ _ _ _ _ _ _ (by decide)] at hv
      simp only [Stage.run, Input.withTask, handleLogin5] at hv
      split at hv
      · next hok =>
        cases hv
        exact ⟨input, hb, ⟨{
          users := r1, mem := mem, rows := users, read := hu, user := user, found := hf, job :=
          job, made := hj,
          result := result, finished := by simp [ReqState.resume, waitingFor], passed :=
          hres, cleaned := r2,
          now := now, id := id, token := token, issued := hi, inserted := r3, success :=
          hok.1, body := rfl,
          executed := by rw [executed_resume _ _ (runStages_own ..)]; rfl }⟩⟩
      · cases hv
        cases hs

end

end App

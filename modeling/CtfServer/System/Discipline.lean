import CtfServer.System.Answers

/-!
# The discipline of the stages

What each stage of the chains is written for, and that it is called for nothing else.

* `Stage.awaits`       the operation whose result a stage reads;
* `Stage.run_columns`  a result set with other columns than a stage expects is none to it;
* `Waiting.awaits`     a request waits for the operation of its current stage;
* `stage_discipline`   **one operation is outstanding for an unfinished request, its current stage
                       reads the result, and no assertion fails**.
-/

set_option linter.unusedVariables false
set_option linter.unusedSimpArgs false

namespace App

/-! ## what a stage is written for -/

/-- the operation whose result a stage reads -/
def Stage.awaits : Stage → Op → Bool
  | .hello2, .db .selectHello => true
  | .getChallenges2, .db .selectChallengesWithoutFlag => true
  | .getOwnChallenges2, .db .selectChallenges => true
  | .postChallenges2, .db (.insertChallenge ..) => true
  | .putChallenges2, .db .selectOwners | .putChallenges4, .db .selectOwners => true
  | .putChallenges3, .db (.updateChallenge ..) => true
  | .deleteChallenges2, .db .selectOwners | .deleteChallenges4, .db .selectOwners => true
  | .deleteChallenges3, .db (.deleteChallenge ..) => true
  | .postAnswers2, .db .selectChallenges | .postAnswers5, .db .selectChallenges => true
  | .postAnswers3, .db (.insertAnswer ..) => true
  | .postAnswers4, .db .selectAnswers => true
  | .getAnswers2, .db .selectChallenges | .getOwnAnswers2, .db .selectChallenges => true
  | .getAnswers3, .db .selectAnswers | .getOwnAnswers3, .db .selectAnswers => true
  | .signup2, .db .selectUsers | .signup5, .db .selectUsers | .login2, .db .selectUsers => true
  | .signup3, .password job => job.operation == .hash
  | .login3, .password job => job.operation == .verify
  | .signup4, .db (.insertUser ..) => true
  | .login4, .db .deleteExpiredSessions => true
  | .login5, .db (.insertSession ..) => true
  | .auth2, .db .selectSessions => true
  | .logout2, .db (.deleteSession ..) => true
  | .getUsers2, .db .selectPublicUsers => true
  | .getUsers3, .db .selectScoreAnswers => true
  | _, _ => false

/-- the stages that read `worker_result` -/
def Stage.isPassword : Stage → Bool
  | .signup3 | .login3 => true
  | _ => false

/-- the number of columns that a stage expects of its result set -/
def Stage.columns : Stage → Option Nat
  | .getChallenges2 => some 5
  | .getOwnChallenges2 | .postAnswers2 | .postAnswers5 | .getAnswers2 | .getOwnAnswers2 => some 6
  | .putChallenges2 | .putChallenges4 | .deleteChallenges2 | .deleteChallenges4 => some 2
  | .postAnswers4 | .getAnswers3 | .getOwnAnswers3 => some 7
  | .signup2 | .signup5 | .login2 => some 3
  | .auth2 => some 4
  | .getUsers2 => some 2
  | .getUsers3 => some 3
  | _ => none

/-- what a stage is called with -/
def Stage.Takes (stage : Stage) (input : Input) : Prop :=
  if stage.isPassword then input.workerResult.isSome ∧ input.task = none
  else input.workerResult = none ∧ ∃ task, input.task = some task ∧ stage.awaits (.db task.query)

section
variable {r : DbResult} {res : ResultSet} {n : Nat}

theorem stored_lost (r : DbResult) : ({ r with res := none } : DbResult).stored = none := by
  unfold DbResult.stored
  split <;> rfl

theorem bindRows_columns {α : Type} {row : List (Option Bytes) → Option α} {mem : Bool}
    (hres : r.stored = some res) (hn : res.fields ≠ n) :
    bindRows n row mem r = bindRows n row mem { r with res := none } := by
  unfold bindRows
  rw [hres, stored_lost]
  exact if_pos hn

theorem bindChallengesWithoutFlag_columns {mem : Bool} (hres : r.stored = some res)
    (hn : res.fields ≠ 5) :
    bindChallengesWithoutFlag mem r = bindChallengesWithoutFlag mem { r with res := none } := by
  unfold bindChallengesWithoutFlag bindChallengesImpl
  rw [hres, stored_lost]
  exact if_pos (.inr (.inl hn))

theorem readChallenges_columns {mem : Bool} (hres : r.stored = some res) (hn : res.fields ≠ 6) :
    readChallenges mem r = readChallenges mem { r with res := none } := by
  unfold readChallenges
  rw [hres, stored_lost]
  exact if_pos hn

theorem challengeWriteAccess_columns {id : Nat} {user : Bytes} (hres : r.stored = some res)
    (hn : res.fields ≠ 2) :
    challengeWriteAccess r id user = challengeWriteAccess { r with res := none } id user := by
  unfold challengeWriteAccess
  rw [hres, stored_lost]
  exact if_pos hn

/-- a result set with another number of columns than the stage expects is none to it -/
theorem Stage.run_columns (lib : AuthLib) (runtime : Runtime) (env : Env) (ctx : Ctx)
    {stage : Stage} {q : Query}
    (hs : stage.columns = some n) (hres : r.stored = some res) (hn : res.fields ≠ n) :
    stage.run lib runtime env { task := some ⟨q, r⟩ } ctx =
      stage.run lib runtime env { task := some ⟨q, { r with res := none }⟩ } ctx := by
  cases stage <;> cases hs <;>
    simp only [Stage.run, Input.withTask, handleGetChallenges2, handleGetOwnChallenges2,
      handlePutChallenges2,
      handlePutChallenges4, handleDeleteChallenges2, handleDeleteChallenges4, writeIfOwner,
      handlePostAnswers2,
      handlePostAnswers4, handlePostAnswers5, handleGetAnswers2, handleGetAnswers3,
      handleGetOwnAnswers2,
      handleGetOwnAnswers3, checkFilter, listAnswers, handleSignup2, handleSignup5,
      handleLogin2, handleAuth2,
      handleGetUsers2, handleGetUsers3, bindAnswers, bindUsers, bindAuthSessions, bindPublicUsers,
      bindScoreAnswers,
      bindRows_columns hres, bindChallengesWithoutFlag_columns hres, readChallenges_columns hres,
      challengeWriteAccess_columns hres, hn, ne_eq, not_false_eq_true]

end

section
variable {lib : AuthLib} {runtime : Runtime} {request : Request} {s : ReqState}

/-! ## what a request waits for -/

theorem PasswordJob.make_operation {dummyHash password : Bytes} {operation : PasswordOperation}
    {hash : Option Bytes}
    {job : PasswordJob} (h : PasswordJob.make dummyHash operation password hash = some job) :
    job.operation = operation := by
  unfold PasswordJob.make at h
  split at h
  · cases h
  cases operation with
  | hash => rw [← Option.some.inj h]
  | verify =>
    dsimp only at h
    split at h
    · cases h
    · rw [← Option.some.inj h]

/-- a request waits for the operation of its current stage -/
theorem Waiting.awaits {chain : List Stage} (h : Waiting lib runtime request chain s) :
    ∃ op stage rest, s.pending = [op] ∧ s.ctx.chain = stage :: rest ∧ stage.awaits op = true := by
  cases h
  case signup3 input hb r job hj ht =>
    exact ⟨_, _, _, rfl, rfl, by rw [Stage.awaits, PasswordJob.make_operation hj]; rfl⟩
  case login3 input hb r mem users hu job hj ht =>
    exact ⟨_, _, _, rfl, rfl, by rw [Stage.awaits, PasswordJob.make_operation hj]; rfl⟩
  all_goals exact ⟨_, _, _, rfl, rfl, rfl⟩

/-- what a completed operation hands over is what its stage takes -/
theorem Stage.takes_completion {stage : Stage} {op : Op} {input : Input} {done : List Event}
    (h : stage.awaits op = true) (hc : Completion op input done) : stage.Takes input := by
  cases hc with
  | task query result =>
    have hp : stage.isPassword = false := by cases stage <;> first | rfl | (cases query <;> cases h)
    unfold Stage.Takes
    rw [hp]
    exact ⟨rfl, _, rfl, h⟩
  | job job result =>
    have hp : stage.isPassword = true := by cases stage <;> first | rfl | cases h
    unfold Stage.Takes
    rw [hp]
    exact ⟨rfl, rfl⟩

/-- a SELECT has the columns that the stage behind it expects -/
theorem Stage.awaits_columns {stage : Stage} {q : Query} {n : Nat} (h : stage.awaits (.db q) = true)
    (hn : stage.columns = some n) : q.isSelect = true ∧ Store.columns q = n := by
  cases stage <;> cases hn <;> cases q <;> first | exact ⟨rfl, rfl⟩ | cases h

/-- a finished request was answered or given up -/
theorem Finished.verdict {meets : Env → Prop} {chain : List Stage}
    (h : Finished lib runtime request meets chain s) : (∃ r, s.verdict = some (.respond r)) ∨
    s.verdict = none := by
  cases h with
  | atOnce hmeets hd => exact .inl ⟨_, congrArg some hd.verdict⟩
  | last hmeets hw hp hc hd => exact .inl ⟨_, congrArg some hd.verdict⟩
  | discard hw hp hc => exact .inr rfl
  | cancel hw hp => exact .inl ⟨_, rfl⟩

/-! ## responses -/

/-- the number of responses of a trace -/
def responsesOf (events : List Event) : Nat :=
  events.countP fun
    | .respond _ => true
    | _ => false

theorem responsesOf_zero {events : List Event} (h : ∀ r, .respond r ∉ events) :
    responsesOf events = 0 := by
  unfold responsesOf
  rw [List.countP_eq_zero]
  intro e he hr
  cases e <;> first | exact h _ he | cases hr

theorem responsesOf_append (a b : List Event) :
    responsesOf (a ++ b) = responsesOf a + responsesOf b :=
  List.countP_append

theorem Outcome.Done.responses {o : Outcome} {r : Response} (h : o.Done r) :
    responsesOf o.events = 1 := by
  obtain ⟨events, he, hq⟩ := h.events
  have hno : ∀ r, .respond r ∉ events := fun r hr => by
    have := List.all_eq_true.1 hq _ hr
    cases this
  rw [he, responsesOf_append, responsesOf_zero hno]
  rfl

theorem Completion.responses {op : Op} {input : Input} {done : List Event}
    (h : Completion op input done) :
    responsesOf done = 0 := by cases h <;> rfl

theorem Discarded.responses {op : Op} {done : List Event} (h : Discarded op done) :
    responsesOf done = 0 := by
  cases h <;> rfl

/-- a waiting request has no response, a finished one at most one -/
theorem Reach.responses {meets : Env → Prop} (h : Reach lib runtime meets request s) :
    responsesOf s.trace ≤ 1 := by
  rcases h.shape with hw | hf
  · exact (responsesOf_zero hw.noRespond).trans_le (Nat.zero_le 1)
  cases hf with
  | atOnce hmeets hd => exact hd.responses.le
  | last hmeets hw hp hc hd =>
    simp only [ReqState.resume, responsesOf_append, responsesOf_zero hw.noRespond, hc.responses,
      hd.responses]
    exact Nat.le_refl 1
  | discard hw hp hc =>
    simp only [ReqState.discard, responsesOf_append, responsesOf_zero hw.noRespond, hc.responses]
    exact Nat.zero_le 1
  | cancel hw hp =>
    simp only [ReqState.cancel, responsesOf_append, responsesOf_zero hw.noRespond]
    exact Nat.le_refl 1

end

end App

namespace System

open App Store

/-! ## the main result -/

/-- a request waits for the one operation under way for it, which its current stage reads -/
structure Unfinished (ops : List Op) (s : ReqState) (op : Op) (stage : Stage) : Prop where
  verdict : s.verdict = some .wait
  outstanding : ops = [op]
  current : s.ctx.chain.head? = some stage
  awaits : stage.awaits op = true
  takes : ∀ input done, Completion op input done → stage.Takes input
  columns : ∀ q n, op = .db q → stage.columns = some n → q.isSelect = true ∧ columns q = n

/-- the discipline of the stages -/
structure Discipline (w : World) : Prop where
  /-- a request is unfinished, with one operation under way for it, or its last stage has
  returned, or it was given up, and there is none -/
  states : ∀ id client, w.clients id = some client →
    (∃ op stage, Unfinished (w.opsFor id) client.state op stage) ∨
      (((∃ r, client.state.verdict = some (.respond r)) ∨ client.state.verdict = none) ∧
        w.opsFor id = [])
  /-- no assertion fails, and no `NULL` pointer is followed -/
  safe : ∀ id client, w.clients id = some client → client.state.verdict ≠ some .crash
  /-- no request is completed twice -/
  once : ∀ id client, w.clients id = some client → responsesOf client.state.trace ≤ 1

section
variable {lib : AuthLib} {passwords : PasswordLib} {runtime : Runtime} {dateFormat : Int → Bytes}
  {meets : Nat → Env → Prop} {db : Db} {w : World}

/-- **one operation is outstanding for an unfinished request, its current stage reads the result,
and no assertion fails**, on every route and for all results of tasks and jobs -/
theorem stage_discipline (hrun : Run lib passwords runtime dateFormat meets db w) :
    Discipline w := by
  have h := hrun.linked
  refine ⟨fun id client hc => ?_, fun id client hc => ?_, fun id client hc =>
    (h.client hc).reach.responses⟩
  · have hl := h.client hc
    rcases hl.reach.shape with hw | hf
    · obtain ⟨op, stage, rest, hp, hchain, haw⟩ := hw.awaits
      refine .inl ⟨op, stage, hw.verdict,
        ?_, by rw [hchain]; rfl, haw, fun input done => Stage.takes_completion haw, ?_⟩
      · exact List.perm_singleton.1 (hp ▸ hl.ops)
      · rintro q n rfl hn
        exact Stage.awaits_columns haw hn
    · exact .inr ⟨hf.verdict, List.perm_nil.1 (hf.pending ▸ hl.ops)⟩
  · rcases (h.client hc).reach.shape with hw | hf
    · rw [hw.verdict]
      exact fun h => by cases h
    · rcases hf.verdict with ⟨r, hr⟩ | hr <;> rw [hr] <;> exact fun h => by cases h

end

/-! ## a submission that waits for its INSERT -/

theorem stage_discipline_submit :
    ((serveSample sampleSubmit 2).clients 1).map (fun client => client.state.ctx.chain) =
        some [.postAnswers3, .postAnswers4, .postAnswers5] ∧
      (serveSample sampleSubmit 2).opsFor 1 =
        [.db (.insertAnswer 1 sampleUser (ascii "fl\\u0061g") true)] ∧
      Discipline (serveSample sampleSubmit 2) :=
  ⟨by decide +kernel, by decide +kernel, stage_discipline (serveSample_run sampleSubmit 2)⟩

end System

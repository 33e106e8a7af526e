import CtfServer.App.Replies

/-!
# The statements behind a response

What a request had executed when it was answered, route by route.

* `WriteStory`   PUT and DELETE of a challenge: `put_story`, `delete_story`;
* `post_story`   POST of a challenge.
-/

set_option linter.unusedVariables false
set_option linter.unusedSimpArgs false

namespace App

open Json (CreateChallengeRequest SubmitAnswerRequest equalDecoded)

section
variable {lib : AuthLib} {runtime : Runtime} {request : Request} {meets : Env → Prop} {s : ReqState}
  {r : Response}

/-! ## chains and routes -/

theorem chain_of_route {request : Request} {method : Http.HttpMethod} {uri : Bytes}
    {chain : List Stage} (hm : request.method = method) (hu : request.uri = uri)
    (hf : (findRoute method uri).map Route.chain = some chain) : request.chain = chain := by
  unfold Request.chain Request.route
  rw [hm, hu]
  cases hr : findRoute method uri with
  | none => rw [hr] at hf; cases hf
  | some route => rw [hr] at hf; exact Option.some.inj hf

theorem route_of_chain {request : Request} {chain : List Stage} (hc : request.chain = chain)
    (hne : chain ≠ []) :
    ∃ route ∈ routes, route.chain = chain ∧ request.method = route.method ∧ request.uri =
      route.path := by
  unfold Request.chain at hc
  cases hr : request.route with
  | none => rw [hr] at hc; exact absurd hc.symm hne
  | some route =>
    rw [hr] at hc
    have hfound := List.find?_some hr
    simp only [Bool.and_eq_true, beq_iff_eq] at hfound
    exact ⟨route, route_mem hr, hc, hfound.1.symm, hfound.2.symm⟩

/-! ## challenges -/

/-- the statuses that say something about a challenge -/
def HttpStatus.tells (status : HttpStatus) : Bool :=
  status == .ok || status == .forbidden || status == .notFound

theorem ofCheck_tells {status : HttpStatus} (h : status.ofCheck = true) : status.tells = false := by
  cases status <;> first | rfl | cases h

theorem bodyStatus_tells (e : Json.Error) : (bodyStatus e).tells = false := by cases e <;> rfl

theorem newChallengeWriteState_tells {env : Env} {ctx : Ctx} {status : HttpStatus}
    (h : newChallengeWriteState env ctx = .error status) : status.tells = false := by
  unfold newChallengeWriteState at h
  repeat' split at h
  all_goals (cases h; try rfl)

/-- the statements of a PUT or DELETE of challenge `id` that tells something; `again`: after a
statement that hit nothing it may be 200 all the same -/
inductive WriteStory (again : Bool) (id : Nat) (user : Bytes) (statement : Query)
    (status : HttpStatus) :
    List (Query × DbResult) → Prop where
  | denied (r0 r1 : DbResult) (ha : challengeWriteAccess r1 id user ≠ .ok)
      (hs : status = (challengeWriteAccess r1 id user).status) :
      WriteStory again id user statement status [(.selectSessions, r0), (.selectOwners, r1)]
  | written (r0 r1 r2 : DbResult) (ha : challengeWriteAccess r1 id user = .ok)
      (h2 : r2.success = true)
      (hn : r2.affected = 1) (hs : status = .ok) :
      WriteStory again id user statement status [(.selectSessions, r0), (.selectOwners, r1),
        (statement, r2)]
  | repeated (r0 r1 r2 r3 : DbResult) (ha : challengeWriteAccess r1 id user = .ok)
      (h2 : r2.success = true)
      (hn : r2.affected = 0) (hs : status = (challengeWriteAccess r3 id user).status)
      (hok : challengeWriteAccess r3 id user = .ok → again = true) :
      WriteStory again id user statement status
        [(.selectSessions, r0), (.selectOwners, r1), (statement, r2), (.selectOwners, r3)]

theorem updatedChallengeResponse_ok {env : Env} {state : ChallengeWriteState} {user : Bytes}
    (h : (updatedChallengeResponse env state user).status.tells = true) :
    (updatedChallengeResponse env state user).status = .ok := by
  unfold updatedChallengeResponse at h ⊢
  split <;> simp_all [serverError, jsonBody, HttpStatus.tells]

theorem put_story (h : Reach lib runtime meets request s)
    (hc : request.chain = authenticated [.putChallenges1, .putChallenges2, .putChallenges3,
      .putChallenges4])
    (hr : .respond r ∈ s.trace) (ht : r.status.tells = true) :
    ∃ (g : Passed lib runtime request) (id : Nat) (input : CreateChallengeRequest),
      .verified g.claims ∈ s.trace ∧ readChallengeId request = some id ∧
      request.NewChallenge input ∧
      WriteStory true id g.claims.userId
        (.updateChallenge input.name input.description input.flag input.genre.code id
          g.claims.userId)
        r.status (executed s.trace) := by
  cases h.checked hc hr with
  | refused href he => rw [ofCheck_tells href] at ht; cases ht
  | @first s env hmeets g hv he =>
    exfalso
    rw [runStages_plain _ _ _ _ _ _ _ (by decide)] at hv
    simp only [Stage.run, handlePutChallenges1, Ctx.user, Passed.identity, if_true,
      Ctx.selectChallengeOwners, hasNext_more, not_true_eq_false, if_false, Ctx.exec] at hv
    repeat' split at hv
    all_goals cases hv
    · next hid => rw [newChallengeWriteState_tells hid] at ht; cases ht
    · rw [bodyStatus_tells] at ht; cases ht
    · cases ht
  | @later s op input done env hmeets hw hp hcomp hs hv =>
    rw [executed_resume _ _ (runStages_own ..)]
    cases hw with
    | auth2 rest a ht => simp [waitingFor] at hs
    | putChallenges2 g id hid input hb htr =>
      cases hp
      cases hcomp with | task _ r1 =>
      subst htr
      refine ⟨g, id, input, by simp [ReqState.resume, waitingFor, Passed.trace], hid, hb, ?_⟩
      rw [waitingFor, runStages_plain _ _ _ _ _ _ _ (by decide)] at hv
      simp only [Stage.run, Input.withTask, handlePutChallenges2, writeIfOwner, hasNext_more,
        not_true_eq_false,
        if_false, Ctx.exec, Ctx.userBytes, Ctx.user, Passed.identity, if_true,
        Option.getD_some] at hv
      repeat' split at hv
      all_goals cases hv
      · next hok => exact .denied g.result r1 hok rfl
      · cases ht
    | putChallenges3 g id hid input hb r1 hr1 htr =>
      cases hp
      cases hcomp with | task _ r2 =>
      subst htr
      refine ⟨g, id, input, by simp [ReqState.resume, waitingFor, Passed.trace], hid, hb, ?_⟩
      rw [waitingFor, runStages_plain _ _ _ _ _ _ _ (by decide)] at hv
      simp only [Stage.run, Input.withTask, handlePutChallenges3, Ctx.selectChallengeOwners,
        hasNext_more,
        not_true_eq_false, if_false, Ctx.exec] at hv
      repeat' split at hv
      all_goals cases hv
      · cases ht
      · cases ht
      · next hok hne =>
        simp only [not_or, Bool.not_eq_false, not_lt] at hok
        exact .written g.result r1 r2 hr1 hok.1 (by omega) (updatedChallengeResponse_ok ht)
    | putChallenges4 g id hid input hb r1 hr1 r2 hr2 ha htr =>
      cases hp
      cases hcomp with | task _ r3 =>
      subst htr
      refine ⟨g, id, input, by simp [ReqState.resume, waitingFor, Passed.trace], hid, hb, ?_⟩
      rw [waitingFor, runStages_plain _ _ _ _ _ _ _ (by decide)] at hv
      simp only [Stage.run, Input.withTask, handlePutChallenges4, hasNext_last,
        Bool.false_eq_true, if_false,
        Ctx.userBytes, Ctx.user, Passed.identity, if_true, Option.getD_some] at hv
      split at hv
      all_goals cases hv
      · next hok =>
        refine .repeated g.result r1 r2 r3 hr1 hr2 ha ?_ fun _ => rfl
        rw [hok]
        exact updatedChallengeResponse_ok ht
      · next hok => exact .repeated g.result r1 r2 r3 hr1 hr2 ha rfl fun h => absurd h hok

theorem delete_story (h : Reach lib runtime meets request s)
    (hc : request.chain =
      authenticated [.deleteChallenges1, .deleteChallenges2, .deleteChallenges3,
        .deleteChallenges4])
    (hr : .respond r ∈ s.trace) (ht : r.status.tells = true) :
    ∃ (g : Passed lib runtime request) (id : Nat), .verified g.claims ∈ s.trace ∧
      readChallengeId request = some id ∧
      WriteStory false id g.claims.userId (.deleteChallenge id g.claims.userId) r.status
      (executed s.trace) := by
  cases h.checked hc hr with
  | refused href he => rw [ofCheck_tells href] at ht; cases ht
  | @first s env hmeets g hv he =>
    exfalso
    rw [runStages_plain _ _ _ _ _ _ _ (by decide)] at hv
    simp only [Stage.run, handleDeleteChallenges1, Ctx.user, Passed.identity, if_true,
      Ctx.selectChallengeOwners, hasNext_more, not_true_eq_false, if_false, Ctx.exec] at hv
    repeat' split at hv
    all_goals cases hv
    · next hid => rw [newChallengeWriteState_tells hid] at ht; cases ht
    · cases ht
  | @later s op input done env hmeets hw hp hcomp hs hv =>
    rw [executed_resume _ _ (runStages_own ..)]
    cases hw with
    | auth2 rest a ht => simp [waitingFor] at hs
    | deleteChallenges2 g id hid htr =>
      cases hp
      cases hcomp with | task _ r1 =>
      subst htr
      refine ⟨g, id, by simp [ReqState.resume, waitingFor, Passed.trace], hid, ?_⟩
      rw [waitingFor, runStages_plain _ _ _ _ _ _ _ (by decide)] at hv
      simp only [Stage.run, Input.withTask, handleDeleteChallenges2, writeIfOwner, hasNext_more,
        not_true_eq_false,
        if_false, Ctx.exec, Ctx.userBytes, Ctx.user, Passed.identity, if_true,
        Option.getD_some] at hv
      repeat' split at hv
      all_goals cases hv
      · next hok => exact .denied g.result r1 hok rfl
      · cases ht
    | deleteChallenges3 g id hid r1 hr1 htr =>
      cases hp
      cases hcomp with | task _ r2 =>
      subst htr
      refine ⟨g, id, by simp [ReqState.resume, waitingFor, Passed.trace], hid, ?_⟩
      rw [waitingFor, runStages_plain _ _ _ _ _ _ _ (by decide)] at hv
      simp only [Stage.run, Input.withTask, handleDeleteChallenges3, Ctx.selectChallengeOwners,
        hasNext_more,
        not_true_eq_false, if_false, Ctx.exec] at hv
      repeat' split at hv
      all_goals cases hv
      · cases ht
      · cases ht
      · next hok hne =>
        simp only [not_or, Bool.not_eq_false, not_lt] at hok
        exact .written g.result r1 r2 hr1 hok.1 (by omega) rfl
    | deleteChallenges4 g id hid r1 hr1 r2 hr2 ha htr =>
      cases hp
      cases hcomp with | task _ r3 =>
      subst htr
      refine ⟨g, id, by simp [ReqState.resume, waitingFor, Passed.trace], hid, ?_⟩
      rw [waitingFor, runStages_plain _ _ _ _ _ _ _ (by decide)] at hv
      simp only [Stage.run, Input.withTask, handleDeleteChallenges4, hasNext_last,
        Bool.false_eq_true, if_false,
        Ctx.userBytes, Ctx.user, Passed.identity, if_true, Option.getD_some] at hv
      cases hv
      split at ht
      · cases ht
      · next hok => exact .repeated g.result r1 r2 r3 hr1 hr2 ha (if_neg hok) fun h => absurd h hok

/-- a POST of a challenge tells nothing about one -/
theorem post_story (h : Reach lib runtime meets request s)
    (hc : request.chain = authenticated [.postChallenges1, .postChallenges2])
    (hr : .respond r ∈ s.trace) :
    r.status.tells = false := by
  cases h.checked hc hr with
  | refused href he => exact ofCheck_tells href
  | @first s env hmeets g hv he =>
    rw [runStages_plain _ _ _ _ _ _ _ (by decide)] at hv
    simp only [Stage.run, handlePostChallenges1, Ctx.user, Passed.identity, if_true, hasNext_more,
      not_true_eq_false,
      if_false, Ctx.exec] at hv
    repeat' split at hv
    all_goals cases hv
    · exact bodyStatus_tells _
    · rfl
  | @later s op input done env hmeets hw hp hcomp hs hv =>
    cases hw with
    | auth2 rest a ht => simp [waitingFor] at hs
    | postChallenges2 g input hb htr =>
      cases hp
      cases hcomp with | task _ r1 =>
      rw [waitingFor, runStages_plain _ _ _ _ _ _ _ (by decide)] at hv
      simp only [Stage.run, Input.withTask, handlePostChallenges2, hasNext_last, Bool.false_eq_true,
        if_false] at hv
      repeat' split at hv
      all_goals cases hv
      all_goals rfl

/-! ## answers -/

/-- the challenge of an id in a list -/
def findChallenge (challenges : List Challenge) (id : Nat) : Option Challenge :=
  challenges.find? fun challenge => challenge.id == (id : Int)

/-- the statements of an answer by `user` when it was answered `r` -/
inductive AnswerStory (meets : Env → Prop) (user : Bytes) (input : SubmitAnswerRequest)
    (r : Response) :
    List (Query × DbResult) → Prop where
  | unread {env : Env} (hmeets : meets env) (r0 r1 : DbResult)
      (hr : readChallenges (env.alloc .rows) r1 = none)
      (hs : r.status.tells = false) :
      AnswerStory meets user input r [(.selectSessions, r0), (.selectChallenges, r1)]
  | absent (r0 r1 : DbResult) (mem : Bool) (challenges : List Challenge)
      (hr : readChallenges mem r1 = some challenges)
      (hf : findChallenge challenges input.challengeId = none) (hs : r.status = .notFound) :
      AnswerStory meets user input r [(.selectSessions, r0), (.selectChallenges, r1)]
  | unjudged (r0 r1 : DbResult) (mem : Bool) (challenges : List Challenge)
      (hr : readChallenges mem r1 = some challenges) (challenge : Challenge)
      (hf : findChallenge challenges input.challengeId = some challenge)
      (hs : r.status.tells = false) :
      AnswerStory meets user input r [(.selectSessions, r0), (.selectChallenges, r1)]
  | unclear (r0 r1 r2 : DbResult) (correct : Bool) (hs : r.status.tells = false) :
      AnswerStory meets user input r [(.selectSessions, r0), (.selectChallenges, r1),
        (.insertAnswer input.challengeId user input.answer correct, r2)]
  | reported (r0 r1 r2 r3 : DbResult) (correct : Bool) (h2 : r2.success = true)
      (hr : r.status = .ok → ∃ mem answers answer, bindAnswers mem r3 = some answers ∧
        answer ∈ answers ∧
        answer.id = r2.insertId ∧ r = jsonBody .ok (answerToJson answer)) :
      AnswerStory meets user input r [(.selectSessions, r0), (.selectChallenges, r1),
        (.insertAnswer input.challengeId user input.answer correct, r2), (.selectAnswers, r3)]
  | failed (r0 r1 r2 r3 : DbResult) (correct : Bool) (h2 : r2.success = false)
      (hne : r.status ≠ .ok)
      (hr : r.status = .notFound → ∃ mem challenges, readChallenges mem r3 = some challenges ∧
        findChallenge challenges input.challengeId = none) :
      AnswerStory meets user input r [(.selectSessions, r0), (.selectChallenges, r1),
        (.insertAnswer input.challengeId user input.answer correct, r2), (.selectChallenges, r3)]

/-- the INSERT of an answer -/
def Op.isInsertAnswer : Op → Bool
  | .db (.insertAnswer ..) => true
  | _ => false

/-- the chain of the route that submits answers -/
def submitChain : List Stage :=
  authenticated [.postAnswers1, .postAnswers2, .postAnswers3, .postAnswers4, .postAnswers5]

theorem isSubmit_of_chain {request : Request} (h : request.chain = submitChain) :
    request.IsSubmit := by
  have hall : ∀ route ∈ routes, route.chain = submitChain → route.method = .post ∧ route.path =
    ascii "/answers" := by
    decide +kernel
  obtain ⟨route, hmem, hchain, hm, hu⟩ := route_of_chain h (by decide)
  obtain ⟨hpost, hpath⟩ := hall route hmem hchain
  exact ⟨hm.trans hpost, hu.trans hpath⟩

/-! ## the stages that respond -/

section
variable {env : Env} {rest : List Stage} {g : Passed lib runtime request}
  {input : SubmitAnswerRequest}
  {appData : AppData}

/-- the first stage has read nothing -/
theorem postAnswers1_responds
    (hv : (Stage.postAnswers1.run lib runtime env {}
      ⟨request, .postAnswers1 :: .postAnswers2 :: rest, appData, g.identity⟩).verdict =
        .respond r) :
    r.status.tells = false := by
  simp only [Stage.run, handlePostAnswers1, Ctx.user, Passed.identity, if_true, hasNext_more,
    not_true_eq_false,
    if_false, Ctx.exec] at hv
  repeat' split at hv
  all_goals cases hv
  · rfl
  · exact bodyStatus_tells _
  · rfl

/-- the second stage has read the challenges -/
theorem postAnswers2_responds (hmeets : meets env) (user : Bytes) (r0 r1 : DbResult)
    (hv : (Stage.postAnswers2.run lib runtime env { task := some ⟨.selectChallenges, r1⟩ }
      ⟨request, .postAnswers2 :: .postAnswers3 :: rest, .submit { input := input },
        g.identity⟩).verdict = .respond r) :
    AnswerStory meets user input r [(.selectSessions, r0), (.selectChallenges, r1)] := by
  simp only [Stage.run, Input.withTask, handlePostAnswers2, hasNext_more, not_true_eq_false,
    if_false, Ctx.exec] at hv
  split at hv
  · next hread =>
    cases hv
    exact .unread hmeets r0 r1 hread rfl
  next challenges hread =>
  split at hv
  · next hf =>
    cases hv
    exact .absent r0 r1 _ challenges hread hf rfl
  next challenge hf =>
  repeat' split at hv
  all_goals cases hv
  all_goals exact .unjudged r0 r1 _ challenges hread challenge hf rfl

/-- the third stage cannot tell what became of the row -/
theorem postAnswers3_responds {task : DbTask}
    (hv : (Stage.postAnswers3.run lib runtime env { task := some task }
      ⟨request, .postAnswers3 :: .postAnswers4 :: .postAnswers5 :: rest, .submit { input := input },
        g.identity⟩).verdict = .respond r) : r.status.tells = false := by
  simp only [Stage.run, Input.withTask, handlePostAnswers3, Ctx.advance, List.tail_cons,
    hasNext_more,
    not_true_eq_false, or_self, if_false, Ctx.exec] at hv
  repeat' split at hv
  all_goals cases hv
  all_goals rfl

/-- the fourth stage reports the row with the new id -/
theorem postAnswers4_responds {r3 : DbResult} {insertId : Nat}
    (hv : (Stage.postAnswers4.run lib runtime env { task := some ⟨.selectAnswers, r3⟩ }
      ⟨request, .postAnswers4 :: rest, .submit { input := input, insertId := insertId },
        g.identity⟩).verdict = .respond r)
    (hok : r.status = .ok) :
    ∃ mem answers answer, bindAnswers mem r3 = some answers ∧ answer ∈ answers ∧
      answer.id = insertId ∧
      r = jsonBody .ok (answerToJson answer) := by
  simp only [Stage.run, Input.withTask, handlePostAnswers4] at hv
  split at hv
  · cases hv
    cases hok
  next answers hread =>
  split at hv
  · cases hv
    cases hok
  next answer hfind =>
  split at hv
  · cases hv
    cases hok
  · cases hv
    exact ⟨_, answers, answer, hread, List.mem_of_find?_eq_some
      hfind, by simpa using List.find?_some hfind, rfl⟩

/-- the fifth stage looks whether the challenge is gone -/
theorem postAnswers5_responds {r3 : DbResult}
    (hv : (Stage.postAnswers5.run lib runtime env { task := some ⟨.selectChallenges, r3⟩ }
      ⟨request, [.postAnswers5], .submit { input := input }, g.identity⟩).verdict = .respond r) :
    r.status ≠ .ok ∧ (r.status = .notFound → ∃ mem challenges, readChallenges mem r3 =
      some challenges ∧
      findChallenge challenges input.challengeId = none) := by
  simp only [Stage.run, Input.withTask, handlePostAnswers5, hasNext_last, Bool.false_eq_true,
    if_false] at hv
  refine ⟨?_, fun hno => ?_⟩
  · repeat' split at hv
    all_goals cases hv
    all_goals simp [serverError]
  · repeat' split at hv
    all_goals cases hv
    · cases hno
    · cases hno
    · next challenges hread hany =>
      refine ⟨_, challenges, hread, ?_⟩
      rw [findChallenge, List.find?_eq_none]
      simpa using hany

end

theorem answer_story (h : Reach lib runtime meets request s) (hc : request.chain = submitChain)
    (hr : .respond r ∈ s.trace) :
    (r.status.tells = false ∧ ∀ e ∈ executed s.trace, e.1 = .selectSessions) ∨
    ∃ (g : Passed lib runtime request) (input : SubmitAnswerRequest),
      .verified g.claims ∈ s.trace ∧ request.NewAnswer input ∧
      AnswerStory meets g.claims.userId input r (executed s.trace) := by
  cases h.checked hc hr with
  | refused href he => exact .inl ⟨ofCheck_tells href, he⟩
  | @first s env hmeets g hv he =>
    rw [runStages_plain _ _ _ _ _ _ _ (by decide)] at hv
    refine .inl ⟨postAnswers1_responds hv, fun e hmem => ?_⟩
    rw [he] at hmem
    rw [List.mem_singleton.1 hmem]
  | @later s op input done env hmeets hw hp hcomp hs hv =>
    refine .inr ?_
    rw [executed_resume _ _ (runStages_own ..)]
    cases hw with
    | auth2 rest a ht => simp [waitingFor] at hs
    | postAnswers2 g input hb htr =>
      cases hp
      cases hcomp with | task _ r1 =>
      subst htr
      rw [waitingFor, runStages_plain _ _ _ _ _ _ _ (by decide)] at hv
      exact ⟨g, input, by simp [ReqState.resume, waitingFor, Passed.trace], hb,
        postAnswers2_responds hmeets g.claims.userId g.result r1 hv⟩
    | postAnswers3 g input hb r1 mem challenges hr1 challenge hf correct hq htr =>
      cases hp
      cases hcomp with | task _ r2 =>
      subst htr
      rw [waitingFor, runStages_plain _ _ _ _ _ _ _ (by decide)] at hv
      exact ⟨g, input, by simp [ReqState.resume, waitingFor, Passed.trace], hb,
        .unclear g.result r1 r2 correct (postAnswers3_responds hv)⟩
    | postAnswers4 g input hb r1 mem challenges hr1 challenge hf correct hq r2 hr2 ha hi htr =>
      cases hp
      cases hcomp with | task _ r3 =>
      subst htr
      rw [waitingFor, runStages_plain _ _ _ _ _ _ _ (by decide)] at hv
      exact ⟨g, input, by simp [ReqState.resume, waitingFor, Passed.trace], hb,
        .reported g.result r1 r2 r3 correct hr2 fun hok => postAnswers4_responds hv hok⟩
    | postAnswers5 g input hb r1 mem challenges hr1 challenge hf correct hq r2 hr2 htr =>
      cases hp
      cases hcomp with | task _ r3 =>
      subst htr
      rw [waitingFor, runStages_plain _ _ _ _ _ _ _ (by decide)] at hv
      obtain ⟨hne, hgone⟩ := postAnswers5_responds hv
      exact ⟨g, input, by simp [ReqState.resume, waitingFor, Passed.trace], hb,
        .failed g.result r1 r2 r3 correct hr2 hne hgone⟩

/-- the INSERT of an answer was enqueued after the answer was judged -/
theorem Waiting.judged {chain : List Stage} (h : Waiting lib runtime request chain s) {id : Nat}
    {user answer : Bytes} {correct : Bool}
    (hq : .db (.insertAnswer id user answer correct) ∈ opsOf s.trace) :
    chain = submitChain ∧ ∃ (g : Passed lib runtime request) (input : SubmitAnswerRequest) (r1 :
      DbResult) (mem : Bool)
      (challenges : List Challenge) (challenge : Challenge) (es : List (Query × DbResult)),
      .verified g.claims ∈ s.trace ∧ request.NewAnswer input ∧ id = input.challengeId ∧
      user = g.claims.userId ∧
      answer = input.answer ∧ readChallenges mem r1 = some challenges ∧ findChallenge challenges id
      = some challenge ∧
      equalDecoded challenge.flag input.answer = some correct ∧
      executed s.trace = (.selectSessions, g.result) :: (.selectChallenges, r1) :: es := by
  cases h with
  | postAnswers3 g input hb r mem challenges hr challenge hf correct hq' ht
  | postAnswers4 g input hb r mem challenges hr challenge hf correct hq' r2 hr2 ha hi ht
  | postAnswers5 g input hb r mem challenges hr challenge hf correct hq' r2 hr2 ht =>
    subst ht
    simp only [waitingFor, Passed.trace, opsOf_append, opsOf_cons, Event.op, Option.toList_some,
      Option.toList_none,
      List.mem_append, List.mem_singleton, List.not_mem_nil, Op.db.injEq, Query.insertAnswer.injEq,
      reduceCtorEq,
      false_or, or_false, opsOf_nil] at hq
    obtain ⟨rfl, rfl, rfl, rfl⟩ := hq
    exact ⟨rfl, g, input, r, mem, challenges, challenge,
      _, by simp [waitingFor, Passed.trace], hb, rfl, rfl, rfl, hr,
      hf, hq', rfl⟩
  | _ =>
    subst_vars
    simp [waitingFor, opsOf_append, opsOf_cons, Event.op, Passed.trace, Accepted.trace, opsOf_nil,
      opsOf_clocks] at hq

/-- the INSERT of an answer is enqueued once -/
theorem Waiting.judged_once {chain : List Stage} (h : Waiting lib runtime request chain s) :
    (opsOf s.trace).countP Op.isInsertAnswer ≤ 1 := by
  cases h <;> subst_vars <;>
    simp [waitingFor, opsOf_append, opsOf_cons, opsOf_nil, opsOf_clocks, Event.op, Passed.trace,
      Accepted.trace,
      Op.isInsertAnswer, List.countP_cons]

end

end App

import CtfServer.App.Shape
import Mathlib.Data.List.Chain

/-!
# Comparisons with the user

A user id is compared at three places: with the creators that an owners SELECT brings, and with the
rows of the two lists of one's own.

* `Follows`               the access of a user decides what follows the owners;
* `Compares`              the comparisons of a request came out as those with a user;
* `Waiting.lastCompares`  the last call of a request compares with the verified user.
-/

set_option linter.unusedVariables false
set_option linter.unusedSimpArgs false

namespace App

/-! ## what is compared -/

/-- the statements that change or delete a challenge -/
def Query.isOwnedWrite : Query → Bool
  | .updateChallenge .. | .deleteChallenge .. => true
  | _ => false

/-- the statement changes or deletes challenge `id` for `user` -/
def Query.Writes (id : Nat) (user : Bytes) : Query → Prop
  | .updateChallenge _ _ _ _ id' user' | .deleteChallenge id' user' => id' = id ∧ user' = user
  | _ => False

/-- what may come after what: the access of `user` to the challenge of the request decides what
follows the owners, and the statements that write it come from nowhere else -/
inductive Follows (request : Request) (user : Bytes) : Event → Event → Prop where
  | refused {id : Nat} {result : DbResult} (hid : readChallengeId request = some id)
      (ha : challengeWriteAccess result id user ≠ .ok) :
      Follows request user (.completed .selectOwners result)
        (.respond { status := (challengeWriteAccess result id user).status })
  | written {id : Nat} {result : DbResult} {q : Query} (hid : readChallengeId request = some id)
      (ha : challengeWriteAccess result id user = .ok) (hq : q.Writes id user) :
      Follows request user (.completed .selectOwners result) (.query q)
  | answered {id : Nat} {result : DbResult} {r : Response} (hid : readChallengeId request = some id)
      (ha : challengeWriteAccess result id user = .ok)
      (hr : r.status = .ok ∨ r.status = .internalServerError) :
      Follows request user (.completed .selectOwners result) (.respond r)
  | apart {e next : Event} (he : ∀ result, e ≠ .completed .selectOwners result)
      (hq : ∀ q, next = .query q → q.isOwnedWrite = false) : Follows request user e next

/-- the body lists the challenges of `user` among the rows of the SELECT, and no others -/
def ListsChallenges (user : Bytes) (result : DbResult) (body : Bytes) : Prop :=
  ∃ res rows, result.stored = some res ∧ res.rows.mapM bindChallenge = some rows ∧
    (∃ mem, ownChallengesText mem (rows.filter fun row => row.creatorId == user) = some body) ∧
    ((∀ row ∈ rows, row.creatorId = user → row.Printable true) →
      totalSize true (rows.filter fun row => row.creatorId == user) ≤ SIZE_MAX →
      body = challengesToJson (rows.filter fun row => row.creatorId == user))

/-- the body lists the answers of `user` that pass the filter among the rows of the SELECT, and no
others -/
def ListsAnswers (request : Request) (user : Bytes) (result : DbResult) (body : Bytes) : Prop :=
  ∃ id res rows, answerFilter request = some id ∧ result.stored = some res ∧
    res.rows.mapM bindAnswer = some rows ∧
    body = answersToJson false (rows.filter fun row => row.userId == user &&
      (id == 0 || row.challengeId == id))

/-- the comparisons of the request came out as those with `user` -/
structure Compares (request : Request) (user : Bytes) (trace : List Event) : Prop where
  owners : trace.IsChain (Follows request user)
  challenges : request.method = .get → request.uri = ascii "/challenges/me" → ∀ r,
    .respond r ∈ trace →
    r.status = .ok → ∃ result, .completed .selectChallenges result ∈ trace ∧
    ListsChallenges user result r.body
  answers : request.method = .get → request.uri = ascii "/answers/me" → ∀ r, .respond r ∈ trace →
    r.status = .ok → ∃ result, .completed .selectAnswers result ∈ trace ∧
    ListsAnswers request user result r.body

/-! ## traces -/

section
variable {request : Request} {user : Bytes}

/-- the events of a call that neither reads the owners nor writes a challenge follow one another -/
theorem follows_apart {events : List Event}
    (he : ∀ result, .completed .selectOwners result ∉ events)
    (hq : ∀ q, .query q ∈ events → q.isOwnedWrite = false) :
    events.IsChain (Follows request user) := by
  induction events with
  | nil => exact .nil
  | cons e events ih =>
    have ih := ih (fun result h => he result (List.mem_cons_of_mem _ h)) fun q h =>
      hq q (List.mem_cons_of_mem _ h)
    cases events with
    | nil => exact .singleton _
    | cons next events =>
      rw [List.isChain_cons_cons]
      refine ⟨.apart (fun result h => he result (h ▸ List.mem_cons_self)) fun q h => hq q ?_, ih⟩
      rw [← h]
      exact List.mem_cons_of_mem _ List.mem_cons_self

variable (request user) in
theorem Outcome.Done.follows {o : Outcome} {response : Response} (h : o.Done response)
    (hown : o.events.all Event.isOwn = true) : o.events.IsChain (Follows request user) := by
  obtain ⟨events, heq, hquiet⟩ := h.events
  refine follows_apart (fun result hm => ?_) fun q hm => ?_
  · cases List.all_eq_true.1 hown _ hm
  · rw [heq, List.mem_append, List.mem_singleton] at hm
    rcases hm with hm | hm
    · cases List.all_eq_true.1 hquiet _ hm
    · cases hm

/-- what comes after the start of an operation, and is no response of status 200 -/
theorem Compares.append {trace events : List Event} (h : Compares request user trace)
    (hlast : ∀ e ∈ trace.getLast?, ∀ result, e ≠ .completed .selectOwners result)
    (hnext : ∀ e ∈ events, (∀ result, e ≠ .completed .selectOwners result) ∧ (∀ q, e ≠ .query q) ∧
      ∀ r, e = .respond r → r.status ≠ .ok) : Compares request user (trace ++ events) where
  owners := by
    refine List.isChain_append.2
      ⟨h.owners, follows_apart (fun result hm => (hnext _ hm).1 result rfl)
      fun q hm => absurd rfl ((hnext _ hm).2.1 q), fun e he next hn => .apart (hlast e he)
        fun q heq => ?_⟩
    exact absurd heq ((hnext _ (List.mem_of_mem_head? hn)).2.1 q)
  challenges := by
    intro hm hu r hr hok
    rcases List.mem_append.1 hr with hr | hr
    · obtain ⟨result, hc, hl⟩ := h.challenges hm hu r hr hok
      exact ⟨result, List.mem_append_left _ hc, hl⟩
    · exact absurd hok ((hnext _ hr).2.2 r rfl)
  answers := by
    intro hm hu r hr hok
    rcases List.mem_append.1 hr with hr | hr
    · obtain ⟨result, hc, hl⟩ := h.answers hm hu r hr hok
      exact ⟨result, List.mem_append_left _ hc, hl⟩
    · exact absurd hok ((hnext _ hr).2.2 r rfl)

end

/-! ## waiting states -/

section
variable {lib : AuthLib} {runtime : Runtime} {request : Request}

theorem Waiting.noRespond {chain : List Stage} {s : ReqState}
    (h : Waiting lib runtime request chain s) (r : Response) : .respond r ∉ s.trace := by
  cases h <;> subst_vars <;> simp [waitingFor, Accepted.trace, Passed.trace]

/-- the trace of a write that its owners allow -/
theorem written_follows (g : Passed lib runtime request) {user : Bytes} {id : Nat}
    {result : DbResult} {q : Query}
    {more : List Event} (hid : readChallengeId request = some id)
    (ha : challengeWriteAccess result id user = .ok)
    (hq : q.Writes id user) (hown : ∀ result, .completed .selectOwners result ∉ more)
    (hmore : ∀ q, .query q ∈ more → q.isOwnedWrite = false) :
    (g.trace ++ .query .selectOwners :: .completed .selectOwners result :: .query q :: more).IsChain
      (Follows request user) := by
  rw [List.isChain_append, List.isChain_cons_cons, List.isChain_cons_cons]
  refine ⟨follows_apart (by simp [Passed.trace]) (by simp [Passed.trace, Query.isOwnedWrite]),
    ⟨.apart (by simp) (by simp), .written hid ha hq, ?_⟩, fun e he next hn =>
    .apart (fun result h => ?_) fun q h => ?_⟩
  · cases more with
    | nil => exact .singleton _
    | cons next more =>
      rw [List.isChain_cons_cons]
      exact ⟨.apart (by simp) fun q h => hmore q (h ▸ List.mem_cons_self), follows_apart hown hmore⟩
  · subst h
    simp [Passed.trace] at he
  · subst h
    cases hn
    rfl

/-- **a waiting request has compared with the verified user, and ends in the start of an
operation** -/
theorem Waiting.follows {chain : List Stage} {s : ReqState} {user : Bytes}
    (hw : Waiting lib runtime request chain s) (hv : s.ctx.user = some user) :
    s.trace.IsChain (Follows request user) ∧ ∀ e ∈ s.trace.getLast?, ∀ result,
      e ≠ .completed .selectOwners result := by
  cases hw with
  | hello2 | getChallenges2 | getUsers2 | getUsers3 | getAnswers2 | getAnswers3 | signup2 | signup3
    | signup4 | signup5
    | login2 | login3 | login4 | login5 | auth2 => cases hv
  | putChallenges3 g id hid input hb r hr ht | putChallenges4 g id hid input hb r hr r2 hr2 ha ht
    | deleteChallenges3 g id hid r hr ht | deleteChallenges4 g id hid r hr r2 hr2 ha ht =>
    cases hv
    subst ht
    exact ⟨written_follows g hid hr ⟨rfl, rfl⟩ (by simp)
      (by simp [Query.isOwnedWrite]), by simp [waitingFor]⟩
  | logout2 g ht | getOwnChallenges2 g ht | getOwnAnswers2 g id hid ht
    | getOwnAnswers3 g id hid r ht
    | postChallenges2 g input hb ht | putChallenges2 g id hid input hb ht
      | deleteChallenges2 g id hid ht
    | postAnswers2 g input hb ht
      | postAnswers3 g input hb r mem challenges hr challenge hf correct hq ht
    | postAnswers4 g input hb r mem challenges hr challenge hf correct hq r2 hr2 ha hi ht
    | postAnswers5 g input hb r mem challenges hr challenge hf correct hq r2 hr2 ht =>
    subst ht
    exact ⟨follows_apart (by simp [waitingFor, Passed.trace])
      (by simp [waitingFor, Passed.trace, Query.isOwnedWrite]),
      by simp [waitingFor]⟩

end

/-! ## the list of one's own challenges -/

/-- the text of challenges that can be printed is the array of them -/
theorem ownChallengesText_whole {mem : Bool} {selected : List Challenge} {body : Bytes}
    (h : ownChallengesText mem selected = some body)
    (hp : ∀ challenge ∈ selected, challenge.Printable true)
    (hsize : totalSize true selected ≤ SIZE_MAX) : body = challengesToJson selected := by
  unfold ownChallengesText at h
  split at h
  · next hnil =>
    rw [hnil]
    exact (Option.some.inj h).symm
  next hne =>
  cases mem with
  | false =>
    rw [((challengesToJson_exhausted true selected).1).2
      ⟨fun challenge hc => (hp challenge hc).id, hsize⟩] at h
    cases h
  | true =>
    obtain ⟨s, hs, hsent⟩ := (challengesToJson_sent_iff true hne fun challenge hc =>
      (hp challenge hc).flag).2 ⟨hp, hsize⟩
    rw [hs] at h
    exact Option.some.inj (h.symm.trans hsent)

/-! ## the last call -/

section
variable {lib : AuthLib} {runtime : Runtime} {request : Request}

/-- the last call compares with `user`, on what was handed to it -/
structure LastCompares (request : Request) (chain : List Stage) (user : Bytes) (done : List Event)
    (o : Outcome) (response : Response) : Prop where
  owners : ∀ result, done = [.completed .selectOwners result] →
    o.events = [.respond response] ∧ Follows request user (.completed .selectOwners result)
    (.respond response)
  challenges : chain = [.auth1, .auth2, .getOwnChallenges1, .getOwnChallenges2] →
    response.status = .ok →
    ∃ result, .completed .selectChallenges result ∈ done ∧ ListsChallenges user result response.body
  answers : chain = [.auth1, .auth2, .getOwnAnswers1, .getOwnAnswers2, .getOwnAnswers3] →
    response.status = .ok →
    ∃ result, .completed .selectAnswers result ∈ done ∧ ListsAnswers request user result
    response.body

theorem getOwnChallenges2_lists {env : Env} {ctx : Ctx} {task : DbTask} {user : Bytes}
    {response : Response}
    (huser : ctx.user = some user) (hv : (handleGetOwnChallenges2 env ctx task).verdict =
      .respond response)
    (hok : response.status = .ok) : ListsChallenges user task.result response.body := by
  unfold handleGetOwnChallenges2 at hv
  rw [huser] at hv
  dsimp only at hv
  split at hv
  · cases hv
    cases hok
  next rows hrows =>
  split at hv
  · cases hv
    cases hok
  split at hv
  · cases hv
    cases hok
  next body hbody =>
  cases hv
  obtain ⟨res, hstored, -, hmap⟩ := readChallenges_some hrows
  refine ⟨res, rows, hstored, hmap, ⟨_, hbody⟩, fun hp hsize => ownChallengesText_whole hbody
    (fun row hrow => ?_) hsize⟩
  exact hp row (List.mem_of_mem_filter hrow) (beq_iff_eq.1 (List.mem_filter.1 hrow).2)

theorem getOwnAnswers3_lists {env : Env} {ctx : Ctx} {task : DbTask} {user : Bytes}
    {response : Response} {id : Nat}
    (huser : ctx.userBytes = user) (hid : answerFilter request = some id)
    (hdata : ctx.appData = .list id)
    (hv : (handleGetOwnAnswers3 env ctx task).verdict = .respond response)
    (hok : response.status = .ok) :
    ListsAnswers request user task.result response.body := by
  unfold handleGetOwnAnswers3 listAnswers at hv
  rw [hdata, huser] at hv
  dsimp only at hv
  split at hv
  · cases hv
  split at hv
  · cases hv
    cases hok
  next rows hrows =>
  split at hv
  · cases hv
    cases hok
  split at hv
  · cases hv
    cases hok
  cases hv
  obtain ⟨res, hstored, -, hmap⟩ := bindRows_some hrows
  exact ⟨id, res, rows, hid, hstored, hmap, rfl⟩

/-- the second stage of a list answers no list -/
theorem checkFilter_status {env : Env} {ctx : Ctx} {task : DbTask} {response : Response}
    (h : (checkFilter env ctx task).verdict = .respond response) : response.status ≠ .ok := by
  unfold checkFilter Ctx.exec at h
  repeat' split at h
  all_goals cases h
  all_goals simp [serverError]

theorem writeIfOwner_follows {env : Env} {ctx : Ctx} {task : DbTask}
    {statement : ChallengeWriteState → Bytes → Query}
    {user : Bytes} {state : ChallengeWriteState} {response : Response}
    (huser : ctx.userBytes = user)
    (hdata : ctx.appData = .write state) (hid : readChallengeId request = some state.id)
    (hv : (writeIfOwner env ctx task statement).verdict = .respond response) :
    (writeIfOwner env ctx task statement).events = [.respond response] ∧
      Follows request user (.completed .selectOwners task.result) (.respond response) := by
  unfold writeIfOwner at hv ⊢
  rw [hdata, huser] at hv ⊢
  dsimp only at hv ⊢
  split at hv
  · cases hv
  next hnext =>
  rw [if_neg hnext]
  split at hv
  · next ha =>
    rw [if_pos ha]
    cases hv
    exact ⟨rfl, .refused hid ha⟩
  next ha =>
  rw [if_neg ha]
  unfold Ctx.exec at hv ⊢
  split at hv
  · cases hv
  next henqueue =>
  rw [if_neg henqueue]
  cases hv
  exact ⟨rfl, .answered hid (not_not.1 ha) (.inr rfl)⟩

theorem updatedChallengeResponse_status (env : Env) (state : ChallengeWriteState) (user : Bytes) :
    (updatedChallengeResponse env state user).status = .ok ∨
      (updatedChallengeResponse env state user).status = .internalServerError := by
  unfold updatedChallengeResponse
  dsimp only
  split
  · exact .inr rfl
  · exact .inl rfl

theorem handlePutChallenges4_follows {env : Env} {ctx : Ctx} {task : DbTask} {user : Bytes}
    {state : ChallengeWriteState} {response : Response} (huser : ctx.userBytes = user)
    (hdata : ctx.appData = .write state) (hid : readChallengeId request = some state.id)
    (hv : (handlePutChallenges4 env ctx task).verdict = .respond response) :
    (handlePutChallenges4 env ctx task).events = [.respond response] ∧
      Follows request user (.completed .selectOwners task.result) (.respond response) := by
  unfold handlePutChallenges4 at hv ⊢
  rw [hdata, huser] at hv ⊢
  dsimp only at hv ⊢
  split at hv
  · cases hv
  next hnext =>
  rw [if_neg hnext]
  split at hv
  · next ha =>
    rw [if_pos ha]
    cases hv
    exact ⟨rfl, .answered hid ha (updatedChallengeResponse_status env state user)⟩
  next ha =>
  rw [if_neg ha]
  cases hv
  exact ⟨rfl, .refused hid ha⟩

theorem handleDeleteChallenges4_follows (env : Env) {ctx : Ctx} {task : DbTask} {user : Bytes}
    {state : ChallengeWriteState} {response : Response} (huser : ctx.userBytes = user)
    (hdata : ctx.appData = .write state) (hid : readChallengeId request = some state.id)
    (hv : (handleDeleteChallenges4 env ctx task).verdict = .respond response) :
    (handleDeleteChallenges4 env ctx task).events = [.respond response] ∧
      Follows request user (.completed .selectOwners task.result) (.respond response) := by
  unfold handleDeleteChallenges4 at hv ⊢
  rw [hdata, huser] at hv ⊢
  dsimp only at hv ⊢
  split at hv
  · cases hv
  next hnext =>
  rw [if_neg hnext]
  cases hv
  refine ⟨rfl, ?_⟩
  by_cases ha : challengeWriteAccess task.result state.id user = .ok
  · exact .answered hid ha (.inr (if_pos ha))
  · rw [if_neg ha]
    exact .refused hid ha

/-- a call that was handed no owners, on a route without a list of one's own -/
theorem lastCompares_other {chain : List Stage} {user : Bytes} {q : Query} {r : DbResult}
    {o : Outcome}
    {response : Response} (hq : q ≠ .selectOwners)
    (hchallenges : chain ≠ [.auth1, .auth2, .getOwnChallenges1, .getOwnChallenges2])
    (hanswers : chain ≠ [.auth1, .auth2, .getOwnAnswers1, .getOwnAnswers2, .getOwnAnswers3]) :
    LastCompares request chain user [.completed q r] o response where
  owners := fun result h => by
    cases h
    exact absurd rfl hq
  challenges := fun h => absurd h hchallenges
  answers := fun h => absurd h hanswers

/-- a call that was handed the owners -/
theorem lastCompares_owners {chain : List Stage} {user : Bytes} {r : DbResult} {o : Outcome}
    {response : Response}
    (h : o.events = [.respond response] ∧ Follows request user (.completed .selectOwners r)
      (.respond response))
    (hchallenges : chain ≠ [.auth1, .auth2, .getOwnChallenges1, .getOwnChallenges2])
    (hanswers : chain ≠ [.auth1, .auth2, .getOwnAnswers1, .getOwnAnswers2, .getOwnAnswers3]) :
    LastCompares request chain user [.completed .selectOwners r] o response where
  owners := fun result heq => by
    cases heq
    exact h
  challenges := fun h => absurd h hchallenges
  answers := fun h => absurd h hanswers

/-- **the last call of a request behind the check compares with the verified user** -/
theorem Waiting.lastCompares {chain : List Stage} {s : ReqState} {op : Op} {input : Input}
    {done : List Event} {env : Env}
    {response : Response} {user : Bytes} (hw : Waiting lib runtime request chain s)
    (hp : s.pending = [op]) (hc : Completion op input done) (hv : s.ctx.user = some user)
    (hd : (runStages lib runtime env input s.ctx s.ctx.chain).verdict = .respond response) :
    LastCompares request chain user done (runStages lib runtime env input s.ctx s.ctx.chain)
      response := by
  have hbytes : s.ctx.userBytes = user := (userBytes_of_user hv).symm
  cases hw with
  | hello2 | getChallenges2 | getUsers2 | getUsers3 | getAnswers2 | getAnswers3 | signup2 | signup3
    | signup4 | signup5
    | login2 | login3 | login4 | login5 | auth2 => cases hv
  | getOwnChallenges2 g ht =>
    cases hp
    cases hc with | task _ r =>
    rw [waitingFor, runStages_plain _ _ _ _ _ _ _ (by decide)] at hd
    exact { owners := fun _ h => (by cases h), answers := fun h => (by cases h),
            challenges := fun _ hok =>
            ⟨r, List.mem_singleton_self _, getOwnChallenges2_lists hv hd hok⟩ }
  | getOwnAnswers3 g id hid r ht =>
    cases hp
    cases hc with | task _ r2 =>
    rw [waitingFor, runStages_plain _ _ _ _ _ _ _ (by decide)] at hd
    exact { owners := fun _ h => (by cases h), challenges := fun h => (by cases h),
            answers := fun _ hok => ⟨r2, List.mem_singleton_self _, getOwnAnswers3_lists hbytes hid
              rfl hd hok⟩ }
  | getOwnAnswers2 g id hid ht =>
    cases hp
    cases hc with | task _ r =>
    rw [waitingFor, runStages_plain _ _ _ _ _ _ _ (by decide)] at hd
    simp only [Stage.run, Input.withTask, handleGetOwnAnswers2] at hd
    exact { owners := fun _ h => (by cases h), challenges := fun h => (by cases h),
            answers := fun _ hok => absurd hok (checkFilter_status hd) }
  | putChallenges2 g id hid input hb ht =>
    cases hp
    cases hc with | task _ r =>
    rw [waitingFor, runStages_plain _ _ _ _ _ _ _ (by decide)] at hd ⊢
    simp only [Stage.run, Input.withTask, handlePutChallenges2] at hd ⊢
    exact lastCompares_owners (writeIfOwner_follows hbytes rfl hid hd) (by decide) (by decide)
  | putChallenges4 g id hid input hb r hr r2 hr2 ha ht =>
    cases hp
    cases hc with | task _ r3 =>
    rw [waitingFor, runStages_plain _ _ _ _ _ _ _ (by decide)] at hd ⊢
    exact lastCompares_owners (handlePutChallenges4_follows hbytes rfl hid hd)
      (by decide) (by decide)
  | deleteChallenges2 g id hid ht =>
    cases hp
    cases hc with | task _ r =>
    rw [waitingFor, runStages_plain _ _ _ _ _ _ _ (by decide)] at hd ⊢
    simp only [Stage.run, Input.withTask, handleDeleteChallenges2] at hd ⊢
    exact lastCompares_owners (writeIfOwner_follows hbytes rfl hid hd) (by decide) (by decide)
  | deleteChallenges4 g id hid r hr r2 hr2 ha ht =>
    cases hp
    cases hc with | task _ r3 =>
    rw [waitingFor, runStages_plain _ _ _ _ _ _ _ (by decide)] at hd ⊢
    exact lastCompares_owners (handleDeleteChallenges4_follows env hbytes rfl hid hd)
      (by decide) (by decide)
  | logout2 | postChallenges2 | putChallenges3 | deleteChallenges3 | postAnswers2 | postAnswers3
    | postAnswers4
    | postAnswers5 =>
    cases hp
    cases hc with | task _ r => exact lastCompares_other (by simp) (by decide) (by decide)

/-! ## requests that were answered -/

theorem chain_ownChallenges (hm : request.method = .get)
    (hu : request.uri = ascii "/challenges/me") :
    request.chain = [.auth1, .auth2, .getOwnChallenges1, .getOwnChallenges2] := by
  unfold Request.chain Request.route
  rw [hm, hu]
  rfl

theorem chain_ownAnswers (hm : request.method = .get) (hu : request.uri = ascii "/answers/me") :
    request.chain = [.auth1, .auth2, .getOwnAnswers1, .getOwnAnswers2, .getOwnAnswers3] := by
  unfold Request.chain Request.route
  rw [hm, hu]
  rfl

/-- the first stages of the lists of one's own answer no list -/
theorem ownFirst_status {env : Env} {input : Input} {ctx : Ctx} {stage : Stage}
    {response : Response} (hs : stage = .getOwnChallenges1 ∨ stage = .getOwnAnswers1)
    (h : (stage.run lib runtime env input ctx).verdict = .respond response) :
    response.status ≠ .ok := by
  rcases hs with rfl | rfl
  all_goals
    simp only [Stage.run, handleGetOwnChallenges1, handleGetOwnAnswers1, selectForAnswers, Ctx.exec,
      Ctx.unauthorized] at h
    repeat' split at h
    all_goals cases h
    all_goals simp [serverError, serverErrorNoStore]

theorem reading_quiet {events : List Event} (h : events.all Event.isReading = true) :
    events.all Event.isQuiet = true := by
  rw [List.all_eq_true] at h ⊢
  intro e he
  have hread := h e he
  cases e with
  | query | submit | respond => cases hread
  | _ => rfl

/-- a stage that answers is done -/
theorem Stage.done {env : Env} {input : Input} {ctx : Ctx} {stage : Stage} {response : Response}
    (hstage : stage ≠ .auth2)
    (h : (stage.run lib runtime env input ctx).verdict = .respond response) :
    (stage.run lib runtime env input ctx).Done response := by
  have hends := Stage.ends lib runtime env input ctx stage hstage
  generalize stage.run lib runtime env input ctx = o at hends h
  cases hends with
  | crash => cases h
  | finish events r he =>
    cases h
    exact finish_done _ _ (reading_quiet he)
  | exec c events q refused hauth he hq =>
    unfold Ctx.exec at h ⊢
    split at h
    · cases h
    next hrefused =>
    cases h
    rw [if_neg hrefused]
    exact finish_done _ _ (reading_quiet he)
  | submit state operation hash =>
    unfold Ctx.submitPassword at h ⊢
    cases hjob : PasswordJob.make runtime.config.dummyHash operation state.input.password hash with
    | none =>
      rw [hjob] at h
      cases h
      exact finish_done _ _ rfl
    | some job =>
      rw [hjob] at h
      cases hqueue : env.queue with
      | queued =>
        rw [hqueue] at h
        cases h
      | _ =>
        rw [hqueue] at h
        cases h
        exact finish_done _ _ rfl

/-- the first call behind the check reads no owners, and answers no list -/
theorem compares_first {stage : Stage} {stages : List Stage} (g : Passed lib runtime request)
    (hchain : request.chain = .auth1 :: .auth2 :: stage :: stages) (hstage : stage ≠ .auth2)
    {env : Env} {ctx : Ctx}
    {response : Response} (hv : (stage.run lib runtime env {} ctx).verdict = .respond response) :
    Compares request g.claims.userId (g.trace ++ (stage.run lib runtime env {} ctx).events) := by
  obtain ⟨events, heq, hquiet⟩ := (Stage.done hstage hv).events
  have hown := Stage.run_own lib runtime env {} ctx stage
  have hresponse : ∀ r, .respond r ∈ g.trace ++ (stage.run lib runtime env {} ctx).events →
    r = response := by
    intro r hr
    rw [heq, List.mem_append, List.mem_append, List.mem_singleton] at hr
    rcases hr with hr | hr | hr
    · simp [Passed.trace] at hr
    · cases List.all_eq_true.1 hquiet _ hr
    · cases hr
      rfl
  refine ⟨follows_apart (fun result hm => ?_) fun q hm => ?_, fun hm hu r hr hok => ?_,
    fun hm hu r hr hok => ?_⟩
  · rcases List.mem_append.1 hm with hm | hm
    · simp [Passed.trace] at hm
    · cases List.all_eq_true.1 hown _ hm
  · rw [heq, List.mem_append, List.mem_append, List.mem_singleton] at hm
    rcases hm with hm | hm | hm
    · simp only [Passed.trace, List.mem_cons, Event.query.injEq, reduceCtorEq, List.not_mem_nil,
        or_false, false_or] at hm
      rw [hm]
      rfl
    · cases List.all_eq_true.1 hquiet _ hm
    · cases hm
  · rw [chain_ownChallenges hm hu] at hchain
    cases hchain
    exact absurd (hresponse r hr ▸ hok) (ownFirst_status (.inl rfl) hv)
  · rw [chain_ownAnswers hm hu] at hchain
    cases hchain
    exact absurd (hresponse r hr ▸ hok) (ownFirst_status (.inr rfl) hv)

/-- **a request that was answered behind the check compared with the verified user** -/
theorem Waiting.compares {s : ReqState} {op : Op} {input : Input} {done : List Event} {env : Env}
    {response : Response}
    {user : Bytes} (hw : Waiting lib runtime request request.chain s) (hp : s.pending = [op])
    (hc : Completion op input done) (hv : s.ctx.user = some user)
    (hd : (runStages lib runtime env input s.ctx s.ctx.chain).Done response) :
    Compares request user (s.resume op done
      (runStages lib runtime env input s.ctx s.ctx.chain)).trace := by
  have hlast := hw.lastCompares hp hc hv hd.verdict
  obtain ⟨hstart, hends⟩ := hw.follows hv
  have hcall := hd.follows request user (runStages_own lib runtime env input s.ctx s.ctx.chain)
  obtain ⟨events, heq, hevents⟩ := hd.events
  have hdone : ∃ e, done = [e] ∧ (∀ r, e ≠ .respond r) ∧ ∀ q, e ≠ .query q := by
    cases hc <;> exact ⟨_, rfl, by simp, by simp⟩
  obtain ⟨e, rfl, hrespond, hquery⟩ := hdone
  have hresponse : ∀ r, .respond r ∈ s.trace ++ [e] ++
    (runStages lib runtime env input s.ctx s.ctx.chain).events →
      r = response := by
    intro r hr
    rw [heq, List.mem_append, List.mem_append, List.mem_append, List.mem_singleton,
      List.mem_singleton] at hr
    rcases hr with (hr | hr) | hr | hr
    · exact absurd hr (hw.noRespond r)
    · exact absurd hr.symm (hrespond r)
    · cases List.all_eq_true.1 hevents _ hr
    · cases hr
      rfl
  refine ⟨?_, fun hm hu r hr hok => ?_, fun hm hu r hr hok => ?_⟩
  · show (s.trace ++ [e] ++ _).IsChain _
    rw [List.isChain_append, List.isChain_append]
    refine ⟨⟨hstart, .singleton e, fun before hb next hn => .apart (hends before hb) fun q h => ?_⟩,
      hcall,
      fun before hb next hn => ?_⟩
    · cases hn
      exact absurd h (hquery q)
    · rw [List.getLast?_concat] at hb
      cases hb
      by_cases howners : ∃ result, e = .completed .selectOwners result
      · obtain ⟨result, rfl⟩ := howners
        obtain ⟨honly, hfollows⟩ := hlast.owners result rfl
        rw [honly] at hn
        cases hn
        exact hfollows
      · refine .apart (fun result h => howners ⟨result, h⟩) fun q h => ?_
        subst h
        have hmem := List.mem_of_mem_head? hn
        rw [heq, List.mem_append, List.mem_singleton] at hmem
        rcases hmem with hmem | hmem
        · cases List.all_eq_true.1 hevents _ hmem
        · cases hmem
  · obtain rfl := hresponse r hr
    obtain ⟨result, hmem, hlist⟩ := hlast.challenges (chain_ownChallenges hm hu) hok
    exact ⟨result, List.mem_append_left _ (List.mem_append_right _ hmem), hlist⟩
  · obtain rfl := hresponse r hr
    obtain ⟨result, hmem, hlist⟩ := hlast.answers (chain_ownAnswers hm hu) hok
    exact ⟨result, List.mem_append_left _ (List.mem_append_right _ hmem), hlist⟩

end

end App

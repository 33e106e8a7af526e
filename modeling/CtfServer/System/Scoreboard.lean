import CtfServer.App.Scores
import CtfServer.System.Answers

/-!
# The ranking

`GET /users` reads the users, then the correct answers, and ranks the users by them.  Between its
two statements, and between two rankings, any other statement may be executed.

* `users_story`        what was read for a ranking;
* `Db.solvedBy`        the challenges that a user has solved in time;
* `answer_added`, `answer_removed`   where a row of the answers comes from, and where it goes;
* `scoreboard`         **every point of a ranking was earned**, and none is lost while its
                       challenge is there.
-/

set_option linter.unusedVariables false
set_option linter.unusedSimpArgs false

namespace App

/-! ## the statements of a ranking -/

def usersChain : List Stage := [.getUsers1, .getUsers2, .getUsers3]

/-- a request for the ranking -/
def Request.IsUsers (request : Request) : Prop :=
  request.method = .get ∧ request.uri = ascii "/users"

/-- what a ranking was computed from -/
structure UsersStory (runtime : Runtime) (r : Response) (statements : List (Query × DbResult)) where
  users : DbResult
  answers : DbResult
  usersMem : Bool
  answersMem : Bool
  userRows : List PublicUser
  answerRows : List ScoreAnswer
  usersRead : bindPublicUsers usersMem users = some userRows
  answersRead : bindScoreAnswers answersMem answers = some answerRows
  executed : statements = [(.selectPublicUsers, users), (.selectScoreAnswers, answers)]
  response : r = jsonBody .ok (publicUsersToJson
    (calculateUserScores userRows answerRows runtime.contestEndEnabled runtime.contestEndAt))

section
variable {lib : AuthLib} {runtime : Runtime} {request : Request} {meets : Env → Prop} {s : ReqState}
  {r : Response}

theorem users_story (h : Reach lib runtime meets request s) (hc : request.chain = usersChain)
    (hr : .respond r ∈ s.trace) (hs : r.status = .ok) :
    Nonempty (UsersStory runtime r (executed s.trace)) := by
  have hreplied := h.replied hr
  rw [hc] at hreplied
  cases hreplied with
  | @atOnce env hmeets hv =>
    exfalso
    unfold Request.chain at hc
    unfold dispatch at hv
    cases hroute : request.route with
    | none =>
      rw [hroute] at hc
      cases hc
    | some route =>
      rw [hroute] at hc hv
      dsimp only at hc hv
      split at hv
      · cases hv
        cases hs
      · rw [hc, usersChain, runStages_plain _ _ _ _ _ _ _ (by decide)] at hv
        simp only [Stage.run, handleGetUsers1, hasNext_more, not_true_eq_false, if_false,
          Ctx.exec] at hv
        repeat' split at hv
        all_goals cases hv
        all_goals cases hs
  | cancelled hw hp hcancel =>
    rw [hcancel] at hs
    cases hs
  | @last s op input done env hmeets hw hp hcomp hv =>
    rw [executed_resume _ _ (runStages_own ..)]
    cases hw with
    | getUsers2 htr =>
      cases hp
      cases hcomp with | task _ r1 =>
      rw [waitingFor, runStages_plain _ _ _ _ _ _ _ (by decide)] at hv
      simp only [Stage.run, Input.withTask, handleGetUsers2, hasNext_more, not_true_eq_false,
        if_false, Ctx.exec] at hv
      repeat' split at hv
      all_goals cases hv
      all_goals cases hs
    | getUsers3 r1 mem users hread htr =>
      cases hp
      cases hcomp with | task _ r2 =>
      subst htr
      rw [waitingFor, runStages_plain _ _ _ _ _ _ _ (by decide)] at hv
      simp only [Stage.run, Input.withTask, handleGetUsers3] at hv
      split at hv
      · cases hv
        cases hs
      next answers hanswers =>
      split at hv
      · cases hv
        cases hs
      · cases hv
        exact ⟨⟨r1, r2, mem, _, users, answers, hread, hanswers, rfl, rfl⟩⟩

end

end App

namespace Store

open App

/-! ## the rows of a ranking -/

theorem readNumber_digits {maximum n m : Nat} (hmax : 9 ≤ maximum)
    (h : readNumber maximum (Decimal.digits n) = some m) :
    m = n := by
  unfold readNumber at h
  rw [if_neg (Decimal.digits_ne_nil n), Decimal.readGuarded_iff maximum 0 m _ hmax
    (Nat.zero_le _)] at h
  exact h.2.1.symm.trans (Decimal.value_digits n)

/-- a time that was read is the one that was written -/
theorem readAuthTime_intText {t : Int} {n : Nat} (h : readAuthTime (intText t) = some n) :
    (n : Int) = t := by
  unfold intText at h
  split at h
  · unfold readAuthTime readNumber at h
    split at h
    · cases h
    rw [Decimal.readGuarded_iff AUTH_TIME_MAX 0 n _ (by decide) (Nat.zero_le _)] at h
    have hminus := h.1 45 (List.mem_append_left _ (by decide))
    exact absurd hminus (by decide)
  · have heq := readNumber_digits (by decide) h
    omega

/-- a row of the users as `bind_public_users` reads it -/
def UserRow.listed (row : UserRow) : PublicUser := ⟨row.id, row.username, 0⟩

/-- a row of the answers as `bind_score_answers` reads it -/
def AnswerRow.scored (row : AnswerRow) : ScoreAnswer :=
  ⟨row.userId, row.challengeId, row.createdAt.getD 0⟩

/-- what is read of the rows of a SELECT, in any order -/
theorem read_perm {α β γ : Type} {f : α → Option β} {g : γ → α} {k : γ → β} {rows : List α}
    {l : List γ} {out : List β}
    (hperm : rows.Perm (l.map g)) (hread : rows.mapM f = some out)
    (hf : ∀ c ∈ l, ∀ b, f (g c) = some b → b = k c) :
    out.Perm (l.map k) := by
  obtain ⟨mid, hmid, hout⟩ := List.perm_comp_forall₂ hperm.symm (Readers.mapM_eq_some.mp hread)
  have heq : mid = l.map k := by
    clear hperm hread hout
    induction l generalizing mid with
    | nil =>
      cases hmid
      rfl
    | cons c l ih =>
      rw [List.map_cons] at hmid
      cases hmid with
      | cons hb hrest =>
        rw [List.map_cons, hf c List.mem_cons_self _ hb,
          ih (fun c hc => hf c (List.mem_cons_of_mem _ hc)) _ hrest]
  rw [← heq]
  exact hout.symm

section
variable {dateFormat : Int → Bytes} {now : Int} {db db' : Db} {r : DbResult} {mem : Bool}

theorem listed_users {users : List PublicUser} (h : Exec dateFormat now .selectPublicUsers db r db')
    (hr : bindPublicUsers mem r = some users) : users.Perm (db.users.map UserRow.listed) := by
  obtain ⟨res, hres, -, hmap⟩ := bindRows_some hr
  refine read_perm (h.resultSet hres).2.2.2.1 hmap fun row hrow user hbind => ?_
  rw [bindPublicUser] at hbind
  split at hbind
  · cases hbind
    rfl
  · cases hbind

/-- a row of the answers that is read -/
theorem bindScoreAnswer_values {row : AnswerRow} {answer : ScoreAnswer}
    (h : bindScoreAnswer [some row.userId, some (Decimal.digits row.challengeId),
      row.createdAt.map intText] =
      some answer) :
    1 ≤ row.challengeId ∧ (∃ t, row.createdAt = some t) ∧ answer = row.scored := by
  cases htime : row.createdAt with
  | none =>
    rw [htime] at h
    cases h
  | some t =>
    rw [htime, Option.map_some, bindScoreAnswer] at h
    split at h
    · next user challenge created huser hchallenge hcreated =>
      split at h
      · cases h
      next hrange =>
      cases h
      have hid := readNumber_digits (by decide) hchallenge
      have hread := readAuthTime_intText hcreated
      have huser : user = row.userId := by
        unfold readAuthId at huser
        split at huser
        · exact (Option.some.inj huser).symm
        · cases huser
      refine ⟨by omega, ⟨t, rfl⟩, ?_⟩
      unfold AnswerRow.scored
      rw [htime, huser, hid, hread]
      rfl
    · cases h

theorem scored_answers {answers : List ScoreAnswer}
    (h : Exec dateFormat now .selectScoreAnswers db r db')
    (hr : bindScoreAnswers mem r = some answers) :
    answers.Perm ((db.answers.filter fun row => row.isCorrect).map AnswerRow.scored) ∧
      ∀ row ∈ db.answers, row.isCorrect = true → 1 ≤ row.challengeId ∧
      ∃ t, row.createdAt = some t := by
  obtain ⟨res, hres, -, hmap⟩ := bindRows_some hr
  have hrows := (h.resultSet hres).2.2.2.1
  refine ⟨read_perm hrows hmap fun row hrow answer hbind => (bindScoreAnswer_values hbind).2.2, ?_⟩
  intro row hrow hcorrect
  have hmem : [some row.userId, some (Decimal.digits row.challengeId), row.createdAt.map intText]
    ∈ res.rows :=
    hrows.mem_iff.mpr (List.mem_map.mpr ⟨row, List.mem_filter.mpr ⟨hrow, hcorrect⟩, rfl⟩)
  obtain ⟨answer, -, hbind⟩ := Readers.mapM_of_mem hmap hmem
  have hvalues := bindScoreAnswer_values hbind
  exact ⟨hvalues.1, hvalues.2.1⟩

/-! ## solved challenges -/

/-- an answer that scores: it is correct, and came before the end -/
def AnswerRow.scores (runtime : Runtime) (row : AnswerRow) : Bool :=
  row.isCorrect && row.createdAt.any fun t => !runtime.contestEndEnabled ||
    decide (t < runtime.contestEndAt)

theorem AnswerRow.scores_iff {runtime : Runtime} {row : AnswerRow} : row.scores runtime = true ↔
    row.isCorrect = true ∧ ∃ t, row.createdAt = some t ∧
    (runtime.contestEndEnabled = true → t < runtime.contestEndAt) := by
  unfold AnswerRow.scores
  rw [Bool.and_eq_true, Option.any_eq_true]
  refine and_congr_right fun _ => exists_congr fun t => and_congr Option.mem_def ?_
  rw [Bool.or_eq_true, decide_eq_true_eq, Bool.not_eq_true']
  cases runtime.contestEndEnabled <;> simp

/-- the challenges that a user has solved in time -/
def Db.solvedBy (runtime : Runtime) (db : Db) (user : Bytes) : Finset Nat :=
  ((db.answers.filter fun row => decide (row.userId = user) && row.scores runtime).map
    AnswerRow.challengeId).toFinset

theorem mem_solvedBy {runtime : Runtime} {user : Bytes} {n : Nat} :
    n ∈ db.solvedBy runtime user ↔
      ∃ row ∈ db.answers, row.userId = user ∧ row.scores runtime = true ∧ row.challengeId = n := by
  simp [Db.solvedBy, and_assoc]

/-- a user with the points of the challenges solved -/
def UserRow.ranked (runtime : Runtime) (db : Db) (row : UserRow) : PublicUser :=
  ⟨row.id, row.username, 100 * (db.solvedBy runtime row.id).card⟩

/-- the answers that were read give the challenges that were solved -/
theorem solved_solvedBy {runtime : Runtime} {answers : List ScoreAnswer} (user : Bytes)
    (h : answers.Perm ((db.answers.filter fun row => row.isCorrect).map AnswerRow.scored))
    (htimes : ∀ row ∈ db.answers, row.isCorrect = true → ∃ t, row.createdAt = some t) :
    solved (endedAt runtime.contestEndEnabled runtime.contestEndAt) user answers =
      db.solvedBy runtime user := by
  have hended : ∀ (row : AnswerRow) t, row.createdAt = some t →
      (endedAt runtime.contestEndEnabled runtime.contestEndAt row.scored = false ↔
        (runtime.contestEndEnabled = true → t < runtime.contestEndAt)) := by
    intro row t ht
    unfold endedAt AnswerRow.scored
    rw [ht, Option.getD_some, Bool.and_eq_false_imp]
    refine imp_congr_right fun _ => ?_
    rw [decide_eq_false_iff_not, not_le]
  rw [solved_perm h]
  apply Finset.ext
  intro n
  rw [mem_solved, mem_solvedBy]
  constructor
  · rintro ⟨a, ha, huser, hin, hid⟩
    obtain ⟨row, hrow, rfl⟩ := List.mem_map.mp ha
    obtain ⟨hrow, hcorrect⟩ := List.mem_filter.mp hrow
    obtain ⟨t, ht⟩ := htimes row hrow hcorrect
    exact ⟨row, hrow, huser, AnswerRow.scores_iff.mpr ⟨hcorrect, t, ht, (hended row t ht).mp hin⟩,
      hid⟩
  · rintro ⟨row, hrow, huser, hscores, hid⟩
    obtain ⟨hcorrect, t, ht, hin⟩ := AnswerRow.scores_iff.mp hscores
    exact ⟨row.scored, List.mem_map_of_mem (List.mem_filter.mpr ⟨hrow, hcorrect⟩), huser,
      (hended row t ht).mpr hin, hid⟩

end

end Store

namespace System

open App Store
open Json (codepoints)

/-! ## rows of the answers -/

section
variable {lib : AuthLib} {passwords : PasswordLib} {runtime : Runtime} {dateFormat : Int → Bytes}
  {meets : Nat → Env → Prop} {db : Db} {w : World}

/-- a SELECT changes nothing -/
theorem select_unchanged {x : Execution}
    (h : Exec dateFormat x.now x.query x.before x.result x.after)
    (hq : x.query.isSelect = true) : x.after = x.before := by
  rcases h.cases with ⟨heq, -⟩ | ⟨-, -, k, hw⟩
  · exact heq
  · generalize x.query = q at hq hw
    generalize x.after = after at hw
    generalize x.result.affected = n at hw
    generalize x.result.insertId = i at hw
    cases hw <;> cases hq

/-- a row that comes to the answers comes with an INSERT -/
theorem answer_added {x : Execution} {row : AnswerRow}
    (h : Exec dateFormat x.now x.query x.before x.result x.after)
    (hk : Keyed x.before) (hbefore : row ∉ x.before.answers) (hafter : row ∈ x.after.answers) :
    x.query = .insertAnswer row.challengeId row.userId row.answer row.isCorrect ∧
      x.result.success = true ∧
      row.createdAt = some x.now := by
  have hnew : row ∈ x.newAnswers := List.mem_filter.mpr ⟨hafter, by simp [hbefore]⟩
  rcases newAnswers_cases h hk with ⟨hnil, -⟩ | ⟨cid, user, answer, correct, hq, hs, hone, -, -⟩
  · rw [hnil] at hnew
    cases hnew
  · rw [hone, List.mem_singleton] at hnew
    rw [hnew]
    exact ⟨hq, hs, rfl⟩

/-- a row that leaves the answers goes with the challenge -/
theorem answer_removed {x : Execution} {row : AnswerRow}
    (h : Exec dateFormat x.now x.query x.before x.result x.after)
    (hbefore : row ∈ x.before.answers) (hafter : row ∉ x.after.answers) :
    x.result.success = true ∧ ∃ challenge ∈ x.before.challenges, challenge.id = row.challengeId ∧
      x.query = .deleteChallenge challenge.id challenge.creatorId := by
  rcases h.cases with ⟨heq, -⟩ | ⟨hs, -, k, hw⟩
  · rw [heq] at hafter
    exact absurd hbefore hafter
  refine ⟨hs, ?_⟩
  generalize hq : x.query = q at hw
  generalize ha : x.after = after at hw
  generalize hn : x.result.affected = n at hw
  generalize hi : x.result.insertId = i at hw
  rw [ha] at hafter
  cases hw with
  | @deleteChallenge id creator =>
    have hany : (x.before.challenges.any fun challenge => challenge.hit id creator &&
      challenge.id == row.challengeId) = true := by
      by_contra hno
      rw [Bool.not_eq_true] at hno
      refine hafter (List.mem_filter.mpr ⟨hbefore, ?_⟩)
      rw [hno]
      rfl
    obtain ⟨challenge, hmem, hhit⟩ := List.any_eq_true.mp hany
    simp only [ChallengeRow.hit, Bool.and_eq_true, beq_iff_eq] at hhit
    obtain ⟨⟨rfl, rfl⟩, hid⟩ := hhit
    exact ⟨challenge, hmem, hid, rfl⟩
  | insertAnswer => exact absurd (List.mem_append_left _ hbefore) hafter
  | _ => exact absurd hbefore hafter

/-- the user has solved the challenge before `y` is executed: a submission of the user, with the
text of the flag that the challenge had, was stored as correct, in time -/
def Earned (runtime : Runtime) (w : World) (y : Execution) (user : Bytes) (challenge : Nat) :
    Prop :=
  ∃ id client claims z s row text flag, w.clients id = some client ∧ client.request.IsSubmit ∧
    .verified claims ∈ client.state.trace ∧ claims.userId = user ∧
    z ∈ w.execsFor id ∧ List.Sublist [z, y] (executions w.log) ∧ z.query = .insertAnswer challenge
    user text true ∧
    z.result.success = true ∧ (runtime.contestEndEnabled = true → z.now < runtime.contestEndAt) ∧
    firstSelect (w.execsFor id) = some s ∧ row ∈ s.before.challenges ∧ row.id = challenge ∧
    codepoints row.flag = some flag ∧ codepoints text = some flag

/-- **a solved challenge was solved at the start, or was earned** -/
theorem Linked.earned (h : Linked lib runtime dateFormat meets db w) (hk : Keyed db) {y : Execution}
    (hy : y ∈ executions w.log) {user : Bytes} {challenge : Nat}
    (hsolved : challenge ∈ y.before.solvedBy runtime user) :
    challenge ∈ db.solvedBy runtime user ∨ Earned runtime w y user challenge := by
  obtain ⟨row, hrow, rfl, hscores, rfl⟩ := mem_solvedBy.mp hsolved
  by_cases hstart : row ∈ db.answers
  · exact .inl (mem_solvedBy.mpr ⟨row, hstart, rfl, hscores, rfl⟩)
  obtain ⟨hcorrect, t, ht, hin⟩ := AnswerRow.scores_iff.mp hscores
  obtain ⟨z, hzy, hbefore, hafter⟩ := h.chained.changes_before (p := fun s => row ∈ s.answers)
    hy hstart hrow
  have hz : z ∈ executions w.log := hzy.subset List.mem_cons_self
  obtain ⟨hq, hs, hnow⟩ := answer_added (h.sound z hz) (h.keyed hk hz).1 hbefore hafter
  obtain ⟨client, hc, -⟩ := h.requested hz
  obtain ⟨hsubmit, claims, input, s, stored, hver, -, -, huser, hanswer, hfirst, hmem,
    hid, hequal⟩ :=
    h.judged hk hc (mem_execsFor hz) hq
  rw [Json.equalDecoded_eq, Option.bind_eq_some_iff] at hequal
  obtain ⟨flag, hflag, hequal⟩ := hequal
  obtain ⟨decoded, hdecoded, heq⟩ := Option.map_eq_some_iff.mp hequal
  rw [hcorrect, beq_iff_eq] at heq
  rw [ht, Option.some.injEq] at hnow
  refine .inr ⟨z.id, client, claims, z, s, stored, row.answer, flag, hc, hsubmit, hver, huser.symm,
    mem_execsFor hz, hzy,
    ?_, hs, ?_, hfirst, hmem, hid, hflag, ?_⟩
  · rw [hq, hcorrect]
  · rw [← hnow]
    exact hin
  · rw [hanswer, hdecoded, heq]

/-- **a solved challenge stays solved unless it is deleted** -/
theorem Linked.stays_solved (h : Linked lib runtime dateFormat meets db w) {y y' : Execution}
    (hyy : List.Sublist [y, y'] (executions w.log)) {user : Bytes} {challenge : Nat}
    (hsolved : challenge ∈ y.after.solvedBy runtime user) :
    challenge ∈ y'.before.solvedBy runtime user ∨
      ∃ z creator, List.Sublist [y, z, y'] (executions w.log) ∧
      z.query = .deleteChallenge challenge creator ∧
        z.result.success = true := by
  obtain ⟨row, hrow, rfl, hscores, rfl⟩ := mem_solvedBy.mp hsolved
  by_cases hkept : row ∈ y'.before.answers
  · exact .inl (mem_solvedBy.mpr ⟨row, hkept, rfl, hscores, rfl⟩)
  obtain ⟨z, hz, hbefore, hafter⟩ :=
    h.chained.changes_between (p := fun s => row ∉ s.answers) hyy (fun hno => hno hrow) hkept
  have hmem : z ∈ executions w.log := hz.subset (by simp)
  obtain ⟨hs, deleted, -, hid, hq⟩ := answer_removed (h.sound z hmem) (not_not.mp hbefore) hafter
  exact .inr ⟨z, deleted.creatorId, hz, hid ▸ hq, hs⟩

/-! ## rankings -/

/-- request `id` was answered with this ranking, of the users at `x` by the answers at `y` -/
structure World.Ranking (runtime : Runtime) (w : World) (id : Nat) (list : List PublicUser)
    (x y : Execution) : Prop where
  answered : ∃ client, w.Answered id client (jsonBody .ok (publicUsersToJson list)) ∧
    client.request.IsUsers
  execs : w.execsFor id = [x, y]
  users : x.query = .selectPublicUsers
  answers : y.query = .selectScoreAnswers
  ranked : Ranked list
  points : list.Perm (x.before.users.map (UserRow.ranked runtime y.before))

theorem World.Ranking.mem_left {id : Nat} {list : List PublicUser} {x y : Execution}
    (h : w.Ranking runtime id list x y) :
    x ∈ executions w.log := by
  have hx : x ∈ w.execsFor id := by
    rw [h.execs]
    exact List.mem_cons_self
  exact (mem_of_execsFor hx).1

theorem World.Ranking.mem_right {id : Nat} {list : List PublicUser} {x y : Execution}
    (h : w.Ranking runtime id list x y) :
    y ∈ executions w.log := by
  have hy : y ∈ w.execsFor id := by
    rw [h.execs]
    exact List.mem_cons_of_mem _ List.mem_cons_self
  exact (mem_of_execsFor hy).1

theorem World.Ranking.ordered {id : Nat} {list : List PublicUser} {x y : Execution}
    (h : w.Ranking runtime id list x y) :
    List.Sublist [x, y] (executions w.log) := by
  rw [← h.execs]
  exact execsFor_sublist w id

/-- a user of a ranking is a row -/
theorem World.Ranking.row {id : Nat} {list : List PublicUser} {x y : Execution}
    (h : w.Ranking runtime id list x y) {user : PublicUser} (hu : user ∈ list) :
    ∃ row ∈ x.before.users, user = row.ranked runtime y.before := by
  obtain ⟨row, hrow, heq⟩ := List.mem_map.mp (h.points.mem_iff.mp hu)
  exact ⟨row, hrow, heq.symm⟩

/-- **a 200 is a ranking** -/
theorem Linked.ranking (h : Linked lib runtime dateFormat meets db w) (hk : Keyed db) {id : Nat}
    {client : Client}
    {r : Response} (ha : w.Answered id client r) (hm : client.request.IsUsers)
    (hs : r.status = .ok) :
    ∃ list x y, r = jsonBody .ok (publicUsersToJson list) ∧ w.Ranking runtime id list x y := by
  have hchain : client.request.chain = usersChain := chain_of_route hm.1 hm.2 (by decide +kernel)
  obtain ⟨story⟩ := users_story (h.client ha.found).reach hchain ha.response hs
  have hexecs := h.answered ha.found ha.response
  rw [story.executed] at hexecs
  obtain ⟨x, y, rest, hl, hx, hy, hrest⟩ := execs_cons_cons hexecs
  rw [List.map_eq_nil_iff] at hrest
  subst hrest
  have hxm : x ∈ w.execsFor id := by
    rw [hl]
    exact List.mem_cons_self
  have hym : y ∈ w.execsFor id := by
    rw [hl]
    exact List.mem_cons_of_mem _ List.mem_cons_self
  have husers := listed_users (h.exec hxm hx) story.usersRead
  obtain ⟨hanswers, hrows⟩ := scored_answers (h.exec hym hy) story.answersRead
  have hids : (story.userRows.map (·.id)).Nodup := by
    refine (husers.map _).nodup_iff.mpr ?_
    rw [List.map_map]
    exact (h.keyed hk (mem_of_execsFor hxm).1).1.users
  have hpos : ∀ a ∈ story.answerRows, 1 ≤ a.challengeId := by
    intro a hmem
    obtain ⟨row, hrow, rfl⟩ := List.mem_map.mp (hanswers.mem_iff.mp hmem)
    obtain ⟨hrow, hcorrect⟩ := List.mem_filter.mp hrow
    exact (hrows row hrow hcorrect).1
  obtain ⟨hperm, hranked⟩ := calculateUserScoresBy_spec .merge story.userRows story.answerRows
    runtime.contestEndEnabled runtime.contestEndAt hids hpos
  rw [← calculateUserScores_merge] at hperm hranked
  refine ⟨_, x, y, story.response, ⟨client, ?_, hm⟩, hl, (Execution.effect_eq.mp hx).1,
    (Execution.effect_eq.mp hy).1, hranked, ?_⟩
  · rw [← story.response]
    exact ha
  · have hscore : withScore (endedAt runtime.contestEndEnabled runtime.contestEndAt)
      story.answerRows ∘ UserRow.listed =
        UserRow.ranked runtime y.before := by
      funext row
      show withScore _ _ row.listed = _
      unfold withScore UserRow.ranked
      rw [solved_solvedBy _ hanswers fun row hrow hcorrect => (hrows row hrow hcorrect).2]
      rfl
    have hall := hperm.trans (husers.map _)
    rwa [List.map_map, hscore] at hall

/-- the rankings of a run -/
structure Scoreboard (runtime : Runtime) (db : Db) (w : World) : Prop where
  /-- every list of users is the ranking of the users there are by the answers that score -/
  computed : ∀ id client r, w.Answered id client r → client.request.IsUsers → r.status = .ok →
    ∃ list x y, r = jsonBody .ok (publicUsersToJson list) ∧ w.Ranking runtime id list x y
  /-- a user has 100 points for each of some challenges, each of them solved at the start or
  earned -/
  earned : ∀ id list x y, w.Ranking runtime id list x y → ∀ user ∈ list,
    ∃ challenges : Finset Nat, user.score = 100 * challenges.card ∧
      ∀ c ∈ challenges, c ∈ db.solvedBy runtime user.id ∨ Earned runtime w y user.id c
  /-- a user stays, and loses points only with challenges that are deleted between the two
  rankings -/
  kept : ∀ id id' list list' x y x' y', w.Ranking runtime id list x y →
    w.Ranking runtime id' list' x' y' →
    List.Sublist [y, x', y'] (executions w.log) → ∀ user ∈ list, ∃ user' ∈ list',
    user'.id = user.id ∧
      user'.username = user.username ∧ ∃ lost : Finset Nat, user.score ≤ user'.score +
      100 * lost.card ∧
        ∀ c ∈ lost, ∃ z creator, List.Sublist [y, z, y'] (executions w.log) ∧
        z.query = .deleteChallenge c creator ∧
          z.result.success = true

/-- **Every point of a ranking was earned.** In every run, in whatever order the statements of the
requests are executed: a ranking lists the users at its first statement, ordered by the points that
its second statement gives them; behind every 100 points stands one challenge, solved in time by a
submission of the user with the text of the flag that the challenge had; and what a later ranking
takes away are the points for challenges that were deleted in between. -/
theorem scoreboard (hk : Keyed db) (hrun : Run lib passwords runtime dateFormat meets db w) :
    Scoreboard runtime db w := by
  have h := hrun.linked
  refine ⟨fun id client r ha hm hs => h.ranking hk ha hm hs, ?_, ?_⟩
  · intro id list x y hranking user hu
    obtain ⟨row, -, rfl⟩ := hranking.row hu
    exact ⟨y.before.solvedBy runtime row.id, rfl, fun c hc => h.earned hk hranking.mem_right hc⟩
  · intro id id' list list' x y x' y' hranking hranking' horder user hu
    obtain ⟨row, hrow, rfl⟩ := hranking.row hu
    have hxy := hranking.ordered
    have hyx' : List.Sublist [y, x'] (executions w.log) := .trans (by simp) horder
    have hyy' : List.Sublist [y, y'] (executions w.log) := .trans (by simp) horder
    -- the users of the first ranking are still there
    have hx := select_unchanged (h.sound x hranking.mem_left) (hranking.users ▸ rfl)
    have hy := select_unchanged (h.sound y hranking.mem_right) (hranking.answers ▸ rfl)
    have hkeep := (h.evolves hxy).users.trans (hy ▸ (h.evolves hyx').users)
    rw [hx] at hkeep
    refine ⟨row.ranked runtime y'.before, hranking'.points.mem_iff.mpr
      (List.mem_map_of_mem (hkeep.subset hrow)), rfl, rfl,
      y.before.solvedBy runtime row.id \ y'.before.solvedBy runtime row.id, ?_, ?_⟩
    · have hcard := Finset.card_le_card_sdiff_add_card (s := y.before.solvedBy runtime row.id)
        (t := y'.before.solvedBy runtime row.id)
      unfold UserRow.ranked
      dsimp only
      omega
    · intro c hc
      obtain ⟨hsolved, hnot⟩ := Finset.mem_sdiff.mp hc
      rw [← hy] at hsolved
      exact (h.stays_solved hyy' hsolved).resolve_left hnot

end

/-! ## a ranking -/

/-- `alice` submits the flag of the sample database, then asks for the ranking -/
def rankedSample : World :=
  ((World.start sampleDb).serve sampleLib sampleRuntime 2000 1 sampleSubmit (sampleRandom 1)
    4).serve sampleLib
    sampleRuntime 2001 2 { method := .get, uri := ascii "/users" } (sampleRandom 2) 2

theorem rankedSample_run : Run sampleLib argonPasswords sampleRuntime intText
    (fun _ _ => True) sampleDb rankedSample :=
  serve_run (serve_run .start 1 _ _ 4 fun _ => trivial) 2 _ _ 2 fun _ => trivial

theorem scoreboard_sample :
    (rankedSample.responses 2).map Response.body =
    [publicUsersToJson [⟨sampleUser, ascii "alice", 100⟩]] ∧
      Scoreboard sampleRuntime sampleDb rankedSample :=
  ⟨by decide +kernel, scoreboard sampleDb_keyed rankedSample_run⟩

end System

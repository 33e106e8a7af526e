import Mathlib.Data.List.Sort
import CtfServer.App.ChallengeText
import CtfServer.App.Stories
import CtfServer.Store.Valid
import CtfServer.System.Serve

/-!
# What a reader sees

A request whose statements find one content of the database after the other, and two runs of it on
different contents.

* `reply`                  the response to a request; it ends one of its runs (`replyFrom_reach`);
* `Db.WellFormed`          valid rows, in the order of their ids;
* `PublicEq`, `OwnEq`      contents that agree on the public columns, and on the rows of a user;
* `Alike`                  both runs end with the same response, one lemma for each list;
* `lists_hide`             **a list shows no more than the columns and rows it is for**.
-/

set_option linter.unusedVariables false
set_option linter.unusedSimpArgs false

namespace Store

open App
open Json (INT_MAX)

/-! ## contents -/

/-- rows as the validators and the schema let them in, in the order of their ids -/
structure Db.WellFormed (db : Db) : Prop extends Db.Valid db where
  usersOrder : db.users.Pairwise fun a b => a.id < b.id
  challengesOrder : db.challenges.Pairwise fun a b => a.id < b.id
  answersOrder : db.answers.Pairwise fun a b => a.id < b.id

/-- id, creator, name, description and genre -/
def ChallengeRow.publicColumns (row : ChallengeRow) : Nat × Bytes × Bytes × Bytes × Nat :=
  (row.id, row.creatorId, row.name, row.description, row.genre)

/-- id, challenge, user, is_correct and created_at -/
def AnswerRow.publicColumns (row : AnswerRow) : Nat × Nat × Bytes × Bool × Option Int :=
  (row.id, row.challengeId, row.userId, row.isCorrect, row.createdAt)

/-- id and username -/
def UserRow.publicColumns (row : UserRow) : Bytes × Bytes := (row.id, row.username)

/-- the public columns hold the same rows -/
structure PublicEq (a b : Db) : Prop where
  challenges : ∀ p, p ∈ a.challenges.map ChallengeRow.publicColumns ↔
    p ∈ b.challenges.map ChallengeRow.publicColumns
  answers : ∀ p, p ∈ a.answers.map AnswerRow.publicColumns ↔
    p ∈ b.answers.map AnswerRow.publicColumns
  users : ∀ p, p ∈ a.users.map UserRow.publicColumns ↔ p ∈ b.users.map UserRow.publicColumns

/-- the rows of the user are the same, and so are the ids of all challenges -/
structure OwnEq (user : Bytes) (a b : Db) : Prop where
  challenges : ∀ row, row.creatorId = user → (row ∈ a.challenges ↔ row ∈ b.challenges)
  challengeIds : ∀ id, (∃ row ∈ a.challenges, row.id = id) ↔ ∃ row ∈ b.challenges, row.id = id
  answers : ∀ row, row.userId = user → (row ∈ a.answers ↔ row ∈ b.answers)
  users : ∀ row, row.id = user → (row ∈ a.users ↔ row ∈ b.users)
  sessions : ∀ row, row.userId = user → (row ∈ a.sessions ↔ row ∈ b.sessions)

/-! ## lists in the order of a key -/

/-- a list in the order of a key is known by its members -/
theorem eq_of_ordered {α κ : Type} [LT κ] [Std.Irrefl (α := κ) (· < ·)] [Std.Asymm (α := κ) (· < ·)]
    (key : α → κ)
    {l1 l2 : List α} (h1 : l1.Pairwise fun a b => key a < key b)
    (h2 : l2.Pairwise fun a b => key a < key b) (h : ∀ a, a ∈ l1 ↔ a ∈ l2) : l1 = l2 := by
  have hirr : Std.Irrefl fun a b : α => key a < key b := ⟨fun a => Std.Irrefl.irrefl (key a)⟩
  have hasymm : Std.Antisymm fun a b : α => key a < key b :=
    ⟨fun a b hab hba => absurd hba (Std.Asymm.asymm _ _ hab)⟩
  exact List.Pairwise.eq_of_mem_iff h1 h2 h

theorem filter_of_ordered {α κ : Type} [LT κ] [Std.Irrefl (α := κ) (· < ·)]
    [Std.Asymm (α := κ) (· < ·)] (key : α → κ)
    {l1 l2 : List α} (h1 : l1.Pairwise fun a b => key a < key b)
    (h2 : l2.Pairwise fun a b => key a < key b)
    {p : α → Bool} (h : ∀ a, p a = true → (a ∈ l1 ↔ a ∈ l2)) : l1.filter p = l2.filter p := by
  refine eq_of_ordered key (h1.filter p) (h2.filter p) fun a => ?_
  rw [List.mem_filter, List.mem_filter]
  exact and_congr_left (h a)

section
variable {a b : Db} (ha : a.WellFormed) (hb : b.WellFormed)
include ha hb

theorem PublicEq.challenges_eq (h : PublicEq a b) :
    a.challenges.map ChallengeRow.publicColumns = b.challenges.map ChallengeRow.publicColumns :=
  eq_of_ordered Prod.fst (List.pairwise_map.2 ha.challengesOrder)
    (List.pairwise_map.2 hb.challengesOrder) h.challenges

theorem PublicEq.answers_eq (h : PublicEq a b) :
    a.answers.map AnswerRow.publicColumns = b.answers.map AnswerRow.publicColumns :=
  eq_of_ordered Prod.fst (List.pairwise_map.2 ha.answersOrder)
    (List.pairwise_map.2 hb.answersOrder) h.answers

theorem PublicEq.users_eq (h : PublicEq a b) :
    a.users.map UserRow.publicColumns = b.users.map UserRow.publicColumns :=
  eq_of_ordered Prod.fst (List.pairwise_map.2 ha.usersOrder)
    (List.pairwise_map.2 hb.usersOrder) h.users

theorem OwnEq.challenges_eq {user : Bytes} (h : OwnEq user a b) :
    a.challenges.filter (fun row => row.creatorId == user) = b.challenges.filter fun row =>
    row.creatorId == user :=
  filter_of_ordered ChallengeRow.id ha.challengesOrder hb.challengesOrder fun row hrow =>
    h.challenges row (beq_iff_eq.1 hrow)

theorem OwnEq.answers_eq {user : Bytes} (h : OwnEq user a b) :
    a.answers.filter (fun row => row.userId == user) = b.answers.filter fun row =>
    row.userId == user :=
  filter_of_ordered AnswerRow.id ha.answersOrder hb.answersOrder fun row hrow => h.answers row
    (beq_iff_eq.1 hrow)

theorem OwnEq.user_eq {user : Bytes} (h : OwnEq user a b) : a.user? user = b.user? user := by
  have hlist : a.users.filter (fun row => row.id == user) = b.users.filter fun row =>
    row.id == user :=
    filter_of_ordered UserRow.id ha.usersOrder hb.usersOrder fun row hrow =>
      h.users row (beq_iff_eq.1 hrow)
  unfold Db.user?
  rw [← List.head?_filter, ← List.head?_filter, hlist]

end

/-- the id of a public row is the one of a challenge -/
theorem PublicEq.challengeIds {a b : Db} (h : PublicEq a b) (id : Nat) :
    (∃ row ∈ a.challenges, row.id = id) ↔ ∃ row ∈ b.challenges, row.id = id := by
  have hids : ∀ db : Db, (∃ row ∈ db.challenges, row.id = id) ↔
      ∃ p ∈ db.challenges.map ChallengeRow.publicColumns, p.1 = id := by
    intro db
    simp only [List.mem_map, exists_exists_and_eq_and, ChallengeRow.publicColumns]
  rw [hids, hids]
  simp only [h.challenges]

/-! ## the lists that the stages read -/

section
variable {dateFormat : Int → Bytes} {now : Int} {a b db : Db} {q : Query}

theorem run_stored (hq : q.isSelect = true) :
    (db.run dateFormat now q).1.stored = some
    ⟨columns q, db.rows dateFormat now q, rows_wf dateFormat now db q⟩ := by
  unfold Db.run DbResult.stored
  rw [if_pos hq]
  exact rfl

/-- the result of a SELECT is its rows -/
theorem run_congr (hq : q.isSelect = true) (h : a.rows dateFormat now q = b.rows dateFormat now q) :
    (a.run dateFormat now q).1 = (b.run dateFormat now q).1 := by
  unfold Db.run
  rw [if_pos hq, if_pos hq]
  simp only [h]

theorem mapM_map {α β γ : Type} {row : β → Option γ} {f : α → β} {g : α → γ} {l : List α}
    (h : ∀ x ∈ l, row (f x) = some (g x)) : (l.map f).mapM row = some (l.map g) := by
  rw [Readers.mapM_eq_some, List.forall₂_map_left_iff, List.forall₂_map_right_iff,
    List.forall₂_same]
  exact h

theorem bindRows_map {α β : Type} {fields : Nat} {row : List (Option Bytes) → Option β}
    {result : DbResult}
    {res : ResultSet} {f : α → List (Option Bytes)} {g : α → β} {l : List α}
    (hres : result.stored = some res)
    (hf : res.fields = fields) (hrows : res.rows = l.map f) (h : ∀ x ∈ l, row (f x) = some (g x)) :
    bindRows fields row true result = some (l.map g) := by
  unfold bindRows
  simp only [hres, hf, ne_eq, not_true_eq_false, if_false, Bool.true_eq_false]
  split
  · next hnil =>
    rw [hrows, List.map_eq_nil_iff] at hnil
    rw [hnil]
    exact rfl
  · rw [hrows]
    exact mapM_map h

theorem readChallenges_run (hv : db.Valid) :
    readChallenges true (db.run dateFormat now .selectChallenges).1 =
    some (db.challenges.map ChallengeRow.record) := by
  have hmap : (db.challenges.map ChallengeRow.values).mapM bindChallenge =
    some (db.challenges.map ChallengeRow.record) :=
    mapM_map fun row hrow => bindChallenge_values (hv.challenges row hrow).id.2
  unfold readChallenges bindChallenges bindChallengesImpl
  simp only [run_stored (q := .selectChallenges) rfl, columns, Db.rows, ne_eq,
    not_true_eq_false, if_false,
    Bool.true_eq_false, or_self, or_false]
  split
  · next hnil =>
    rw [List.map_eq_nil_iff] at hnil
    rw [hnil]
    exact rfl
  · exact hmap

/-- the answers with their users -/
def Db.joined (db : Db) : List (AnswerRow × UserRow) :=
  db.answers.filterMap fun row => (db.user? row.userId).map fun user => (row, user)

/-- an answer as `bind_answers` reads it -/
def readAnswer (dateFormat : Int → Bytes) (p : AnswerRow × UserRow) : Answer :=
  p.1.record dateFormat p.2.username (p.1.createdAt.getD 0)

theorem mem_joined {p : AnswerRow × UserRow} (h : p ∈ db.joined) :
    p.1 ∈ db.answers ∧ p.2 ∈ db.users := by
  obtain ⟨row, hrow, hp⟩ := List.mem_filterMap.1 h
  obtain ⟨user, huser, rfl⟩ := Option.map_eq_some_iff.1 hp
  exact ⟨hrow, List.mem_of_find?_eq_some huser⟩

theorem bindAnswers_run (hw : db.WellFormed) :
    bindAnswers true (db.run dateFormat now .selectAnswers).1 =
    some (db.joined.map (readAnswer dateFormat)) := by
  have hsorted : db.answers.mergeSort (fun a b => a.id ≤ b.id) = db.answers :=
    List.mergeSort_of_pairwise (hw.answersOrder.imp fun h => decide_eq_true (Nat.le_of_lt h))
  have hrows : db.rows dateFormat now .selectAnswers = db.joined.map fun p =>
    p.1.values dateFormat p.2 := by
    unfold Db.rows Db.joined
    rw [hsorted, List.map_filterMap]
    simp only [Option.map_map]
    exact rfl
  refine bindRows_map (run_stored rfl) rfl hrows fun p hp => ?_
  obtain ⟨hrow, huser⟩ := mem_joined hp
  obtain ⟨n, hn, -⟩ := (hw.answers p.1 hrow).createdAt
  rw [bindAnswer_valid (hw.answers p.1 hrow) (hw.users p.2 huser) hn, readAnswer, hn]
  exact rfl

/-- what `handle_auth_2` finds in a valid database -/
theorem bindAuthSessions_run (hv : db.Valid) :
    ∃ sessions, bindAuthSessions true (db.run dateFormat now .selectSessions).1 = some sessions ∧
      ∀ claims, sessions.any (sessionMatches claims) = true ↔
        ∃ row ∈ db.sessions, now - AUTH_CLOCK_SKEW < row.expiresAt ∧
        (db.user? claims.userId).isSome = true ∧
          row.userId = claims.userId ∧ row.id = claims.sessionId ∧ row.issuedAt = claims.issuedAt ∧
          row.expiresAt = claims.expiresAt := by
  -- the rows that are not expired and have their user
  let found := db.sessions.filter fun row =>
    decide (now - AUTH_CLOCK_SKEW < row.expiresAt) && (db.user? row.userId).isSome
  have hrows : db.rows dateFormat now .selectSessions =
      found.map fun row => [some row.id, some row.userId, some (intText row.issuedAt),
        some (intText row.expiresAt)] := by
    unfold Db.rows
    simp only [found]
    induction db.sessions with
    | nil => rfl
    | cons row rows ih =>
      by_cases hlive : now - AUTH_CLOCK_SKEW < row.expiresAt
      · cases huser : db.user? row.userId with
        | none => simpa [hlive, huser] using ih
        | some user =>
          have hid : user.id = row.userId := by simpa using List.find?_some huser
          simpa [hlive, huser, hid] using ih
      · simpa [hlive] using ih
  have hvalid : ∀ row ∈ found, row.Valid := fun row hrow => hv.sessions row
    (List.mem_filter.1 hrow).1
  refine ⟨_, bindRows_map (run_stored rfl) rfl hrows fun row hrow => bindAuthSession_valid
    (hvalid row hrow), ?_⟩
  intro claims
  rw [List.any_eq_true]
  constructor
  · rintro ⟨session, hsession, hmatch⟩
    obtain ⟨row, hrow, rfl⟩ := List.mem_map.1 hsession
    simp only [sessionMatches, Bool.and_eq_true, beq_iff_eq] at hmatch
    simp only [found, List.mem_filter, Bool.and_eq_true, decide_eq_true_eq] at hrow
    obtain ⟨⟨⟨hid, huser⟩, hissued⟩, hexpires⟩ := hmatch
    exact ⟨row, hrow.1, hrow.2.1, huser ▸ hrow.2.2, huser, hid, hissued, hexpires⟩
  · rintro ⟨row, hrow, hlive, hsome, huser, hid, hissued, hexpires⟩
    refine ⟨_, List.mem_map.2 ⟨row, ?_, rfl⟩, ?_⟩
    · simp only [found, List.mem_filter, Bool.and_eq_true, decide_eq_true_eq]
      exact ⟨hrow, hlive, huser ▸ hsome⟩
    · simp only [sessionMatches, Bool.and_eq_true, beq_iff_eq]
      exact ⟨⟨⟨hid, huser⟩, hissued⟩, hexpires⟩

/-! ## what two contents have in common -/

/-- an id is found among the challenges that are read -/
theorem any_record (l : List ChallengeRow) (id : Nat) :
    ((l.map ChallengeRow.record).any fun challenge => challenge.id == (id : Int)) = true ↔
    ∃ row ∈ l, row.id = id := by
  rw [List.any_eq_true]
  simp only [List.mem_map, exists_exists_and_eq_and, ChallengeRow.record, beq_iff_eq,
    Int.natCast_inj]

/-- the public columns of an answer, and its username -/
def publicAnswer (p : AnswerRow × UserRow) : (Nat × Nat × Bytes × Bool × Option Int) × Bytes :=
  (p.1.publicColumns, p.2.username)

theorem joined_public : db.joined.map publicAnswer =
    (db.answers.map AnswerRow.publicColumns).filterMap fun p =>
      ((db.users.map UserRow.publicColumns).find? fun user => user.1 == p.2.2.1).map fun user =>
        (p, user.2) := by
  unfold Db.joined
  rw [List.map_filterMap, List.filterMap_map]
  refine congrArg (fun f => List.filterMap f db.answers) (funext fun row => ?_)
  rw [Option.map_map, Function.comp_apply, List.find?_map, Option.map_map]
  exact rfl

/-- the public text of an answer depends on its public columns -/
theorem publicText (dateFormat : Int → Bytes) (selected : Answer → Bool)
    (hs : ∀ p p', publicAnswer p = publicAnswer p' →
      selected (readAnswer dateFormat p) = selected (readAnswer dateFormat p'))
    {l l' : List (AnswerRow × UserRow)} (h : l.map publicAnswer = l'.map publicAnswer) :
    answersToJson true ((l.map (readAnswer dateFormat)).filter selected) =
      answersToJson true ((l'.map (readAnswer dateFormat)).filter selected) := by
  have hlists : ((l.map (readAnswer dateFormat)).filter selected).map (formatAnswer true) =
      ((l'.map (readAnswer dateFormat)).filter selected).map (formatAnswer true) := by
    induction l generalizing l' with
    | nil =>
      cases l' with
      | nil => rfl
      | cons p' l' => cases h
    | cons p l ih =>
      cases l' with
      | nil => cases h
      | cons p' l' =>
        simp only [List.map_cons, List.cons.injEq] at h
        obtain ⟨hp, hl⟩ := h
        have htext : formatAnswer true (readAnswer dateFormat p) = formatAnswer true
          (readAnswer dateFormat p') := by
          simp only [publicAnswer, AnswerRow.publicColumns, Prod.mk.injEq] at hp
          obtain ⟨⟨-, hchallenge, -, -, hcreated⟩, hname⟩ := hp
          simp only [formatAnswer, readAnswer, AnswerRow.record, if_true, hchallenge,
            hcreated, hname]
        simp only [List.map_cons, List.filter_cons, hs p p' hp]
        split
        · rw [List.map_cons, List.map_cons, htext, ih hl]
        · exact ih hl
  unfold answersToJson
  rw [hlists]

/-- the answers of a user, as they are read -/
theorem own_joined {user : Bytes} :
    (db.joined.map (readAnswer dateFormat)).filter (fun answer => answer.userId == user) =
      ((db.answers.filter fun row => row.userId == user).filterMap fun row =>
        (db.user? user).map fun owner => readAnswer dateFormat (row, owner)) := by
  unfold Db.joined
  induction db.answers with
  | nil => rfl
  | cons row rows ih =>
    by_cases hrow : row.userId = user
    · cases hu : db.user? row.userId with
      | none => simp_all
      | some owner => simp_all [readAnswer, AnswerRow.record]
    · cases hu : db.user? row.userId with
      | none => simp_all
      | some owner => simp_all [readAnswer, AnswerRow.record]

end

end Store

namespace System

open App Store

/-! ## a request alone -/

section
variable (lib : AuthLib) (runtime : Runtime) (dateFormat : Int → Bytes) (env : Nat → Env)
  (clock : Nat → Int)

/-- the response of a request whose `n`-th call gave `o`, if it comes with `fuel` more calls: its
`n`-th statement finds the tables `db n` when the clock of the database is at `clock n` -/
def replyFrom (db : Nat → Db) : Nat → Nat → Outcome → Option Response
  | 0, n, o => none
  | fuel + 1, n, o =>
    match o.verdict with
    | .respond response => some response
    | .wait =>
      match opsOf o.events with
      | [.db q] =>
        replyFrom db fuel (n + 1)
          (runStages lib runtime (env (n + 1))
            { task := some ⟨q, ((db n).run dateFormat (clock n) q).1⟩ } o.ctx o.ctx.chain)
      | _ => none
    | _ => none

/-- the response to a request: every stage of its chain is called at most once -/
def reply (db : Nat → Db) (request : Request) : Option Response :=
  replyFrom lib runtime dateFormat env clock db (request.chain.length + 1) 0
    (dispatch lib runtime (env 0) request)

variable {lib runtime dateFormat env clock}

/-- the response ends a run of the request -/
theorem replyFrom_reach {db : Nat → Db} {request : Request} {meets : Env → Prop}
    (hmeets : ∀ n, meets (env n))
    {fuel n : Nat} {o : Outcome} {s : ReqState} {response : Response}
    (hs : Reach lib runtime meets request s)
    (hctx : s.ctx = o.ctx) (hverdict : s.verdict = some o.verdict)
    (hpending : s.pending = opsOf o.events)
    (h : replyFrom lib runtime dateFormat env clock db fuel n o = some response) :
    ∃ s', Reach lib runtime meets request s' ∧ s'.verdict = some (.respond response) := by
  induction fuel generalizing n o s with
  | zero => cases h
  | succ fuel ih =>
    rw [replyFrom] at h
    split at h
    · next response' hv =>
      cases h
      exact ⟨s, hs, by rw [hverdict, hv]⟩
    · split at h
      · next q hops =>
        have hmem : Op.db q ∈ s.pending := by
          rw [hpending, hops]
          exact List.mem_singleton_self _
        have hnext := Reach.resume (env (n + 1)) (hmeets _) hs hmem
          (.task q ((db n).run dateFormat (clock n) q).1)
        rw [hctx] at hnext
        refine ih hnext rfl rfl ?_ h
        simp only [ReqState.resume, hpending, hops, List.erase_cons_head, List.nil_append]
      · cases h
    · cases h

end

/-! ## two runs -/

section
variable {lib : AuthLib} {runtime : Runtime} {dateFormat : Int → Bytes} {env : Nat → Env}
  {clock : Nat → Int}
  {a b : Nat → Db}

/-- both runs end with the same response -/
def Alike (lib : AuthLib) (runtime : Runtime) (dateFormat : Int → Bytes) (env : Nat → Env)
    (clock : Nat → Int) (a b : Nat → Db) (fuel n : Nat) (o o' : Outcome) : Prop :=
  ∃ response, replyFrom lib runtime dateFormat env clock a fuel n o = some response ∧
    replyFrom lib runtime dateFormat env clock b fuel n o' = some response

theorem alike_finish {fuel n : Nat} (ctx ctx' : Ctx) (events events' : List Event)
    (response : Response) :
    Alike lib runtime dateFormat env clock a b (fuel + 1) n (ctx.finish events response)
      (ctx'.finish events' response) :=
  ⟨response, rfl, rfl⟩

theorem alike_exec {fuel n : Nat} {call : Env} {ctx : Ctx} {events : List Event} {q : Query}
    {refused : Response} (hquiet : events.all Event.isQuiet = true)
    (h : Alike lib runtime dateFormat env clock a b fuel (n + 1)
      (runStages lib runtime (env (n + 1))
        { task := some ⟨q, ((a n).run dateFormat (clock n) q).1⟩ } ctx ctx.chain)
      (runStages lib runtime (env (n + 1))
        { task := some ⟨q, ((b n).run dateFormat (clock n) q).1⟩ } ctx ctx.chain)) :
    Alike lib runtime dateFormat env clock a b (fuel + 1) n (ctx.exec call events q refused)
      (ctx.exec call events q refused) := by
  unfold Ctx.exec
  split
  · have hops : opsOf (events ++ [.query q]) = [.db q] := by
      rw [opsOf_append, opsOf_quiet hquiet]
      exact rfl
    obtain ⟨response, ha, hb⟩ := h
    refine ⟨response, ?_, ?_⟩
    · simp only [replyFrom, hops]
      exact ha
    · simp only [replyFrom, hops]
      exact hb
  · exact alike_finish _ _ _ _ _

/-- events that start nothing do not change the rest of a run -/
theorem replyFrom_prepend {db : Nat → Db} {fuel n : Nat} {o : Outcome} {events : List Event}
    (hquiet : events.all Event.isQuiet = true) :
    replyFrom lib runtime dateFormat env clock db fuel n { o with events := events ++ o.events } =
      replyFrom lib runtime dateFormat env clock db fuel n o := by
  cases fuel with
  | zero => rfl
  | succ fuel => simp only [replyFrom, opsOf_append, opsOf_quiet hquiet, List.nil_append]

/-- the first call of a request with a route -/
theorem dispatch_of_chain {call : Env} {request : Request} {stage : Stage} {rest : List Stage}
    (hc : request.chain = stage :: rest) (hmem : call.alloc .context = true) :
    dispatch lib runtime call request = runStages lib runtime call {} { request := request, chain :=
      stage :: rest } (stage :: rest) := by
  unfold Request.chain at hc
  unfold dispatch
  cases hr : request.route with
  | none => rw [hr] at hc; cases hc
  | some route =>
    rw [hr] at hc
    simp only [hmem, Bool.true_eq_false, if_false]
    rw [show route.chain = stage :: rest from hc]

variable (hmem : ∀ n k, (env n).alloc k = true)
include hmem

/-- the second stage of both lists of answers -/
theorem checkFilter_alike {n m : Nat} {ctx : Ctx} {fuel id : Nat} {x y : Db} (hx : x.Valid)
    (hy : y.Valid) (hdata : ctx.appData = .list id) (hnext : ctx.hasNext = true)
    (hids : ∀ id, (∃ row ∈ x.challenges, row.id = id) ↔ ∃ row ∈ y.challenges, row.id = id)
    (h : Alike lib runtime dateFormat env clock a b fuel (n + 1)
      (runStages lib runtime (env (n + 1))
        { task := some ⟨.selectAnswers, ((a n).run dateFormat (clock n) .selectAnswers).1⟩ }
        ctx.advance ctx.advance.chain)
      (runStages lib runtime (env (n + 1))
        { task := some ⟨.selectAnswers, ((b n).run dateFormat (clock n) .selectAnswers).1⟩ }
        ctx.advance ctx.advance.chain)) :
    Alike lib runtime dateFormat env clock a b (fuel + 1) n
      (checkFilter (env n) ctx ⟨.selectChallenges,
        (x.run dateFormat (clock m) .selectChallenges).1⟩)
      (checkFilter (env n) ctx ⟨.selectChallenges,
        (y.run dateFormat (clock m) .selectChallenges).1⟩) := by
  have hany : ((x.challenges.map ChallengeRow.record).any fun challenge => challenge.id ==
    (id : Int)) =
      (y.challenges.map ChallengeRow.record).any fun challenge => challenge.id == (id : Int) := by
    rw [Bool.eq_iff_iff, any_record, any_record]
    exact hids id
  simp only [checkFilter, hnext, not_true_eq_false, if_false, hdata, hmem, readChallenges_run hx,
    readChallenges_run hy,
    hany]
  split
  · exact alike_exec rfl h
  · exact alike_finish _ _ _ _ _

/-! ## the public lists -/

section
variable (ha : ∀ n, (a n).WellFormed) (hb : ∀ n, (b n).WellFormed) (hab : ∀ n, PublicEq (a n) (b n))
include ha hb hab

theorem challenges_alike {request : Request}
    (hc : request.chain = [.getChallenges1, .getChallenges2]) :
    Alike lib runtime dateFormat env clock a b 3 0 (dispatch lib runtime (env 0) request)
      (dispatch lib runtime (env 0) request) := by
  rw [dispatch_of_chain hc (hmem 0 _), runStages_plain _ _ _ _ _ _ _ (by decide)]
  simp only [Stage.run, handleGetChallenges1, hasNext_more, not_true_eq_false, if_false]
  split
  · exact alike_finish _ _ _ _ _
  · refine alike_exec (by split <;> rfl) ?_
    have hrows : ∀ db : Db, db.rows dateFormat (clock 0) .selectChallengesWithoutFlag =
        (db.challenges.map ChallengeRow.publicColumns).map fun p =>
          [some (Decimal.digits p.1), some p.2.1, some p.2.2.1, some p.2.2.2.1,
            some (Decimal.digits p.2.2.2.2)] := by
      intro db
      rw [List.map_map]
      exact rfl
    have hresult : ((a 0).run dateFormat (clock 0) .selectChallengesWithoutFlag).1 =
        ((b 0).run dateFormat (clock 0) .selectChallengesWithoutFlag).1 :=
      run_congr rfl (by rw [hrows, hrows, (hab 0).challenges_eq (ha 0) (hb 0)])
    rw [hresult]
    simp only [Ctx.advance, List.tail_cons]
    rw [runStages_plain _ _ _ _ _ _ _ (by decide)]
    simp only [Stage.run, Input.withTask, handleGetChallenges2, hasNext_last,
      Bool.false_eq_true, if_false]
    repeat' split
    all_goals exact alike_finish _ _ _ _ _

theorem users_alike {request : Request}
    (hc : request.chain = [.getUsers1, .getUsers2, .getUsers3]) :
    Alike lib runtime dateFormat env clock a b 4 0 (dispatch lib runtime (env 0) request)
      (dispatch lib runtime (env 0) request) := by
  have husers : ((a 0).run dateFormat (clock 0) .selectPublicUsers).1 =
      ((b 0).run dateFormat (clock 0) .selectPublicUsers).1 := by
    have hrows : ∀ db : Db, db.rows dateFormat (clock 0) .selectPublicUsers =
        (db.users.map UserRow.publicColumns).map fun p => [some p.1, some p.2] := by
      intro db
      rw [List.map_map]
      exact rfl
    exact run_congr rfl (by rw [hrows, hrows, (hab 0).users_eq (ha 0) (hb 0)])
  have hscores : ((a 1).run dateFormat (clock 1) .selectScoreAnswers).1 =
      ((b 1).run dateFormat (clock 1) .selectScoreAnswers).1 := by
    have hrows : ∀ db : Db, db.rows dateFormat (clock 1) .selectScoreAnswers =
        ((db.answers.map AnswerRow.publicColumns).filter fun p => p.2.2.2.1).map fun p =>
          [some p.2.2.1, some (Decimal.digits p.2.1), p.2.2.2.2.map intText] := by
      intro db
      rw [List.filter_map, List.map_map]
      exact rfl
    exact run_congr rfl (by rw [hrows, hrows, (hab 1).answers_eq (ha 1) (hb 1)])
  rw [dispatch_of_chain hc (hmem 0 _), runStages_plain _ _ _ _ _ _ _ (by decide)]
  simp only [Stage.run, handleGetUsers1, hasNext_more, not_true_eq_false, if_false]
  split
  · exact alike_finish _ _ _ _ _
  · refine alike_exec rfl ?_
    rw [husers]
    simp only [Ctx.advance, List.tail_cons]
    rw [runStages_plain _ _ _ _ _ _ _ (by decide)]
    simp only [Stage.run, Input.withTask, handleGetUsers2, hasNext_more,
      not_true_eq_false, if_false]
    split
    · exact alike_finish _ _ _ _ _
    · refine alike_exec rfl ?_
      rw [hscores]
      simp only [Ctx.advance, List.tail_cons]
      rw [runStages_plain _ _ _ _ _ _ _ (by decide)]
      simp only [Stage.run, Input.withTask, handleGetUsers3]
      repeat' split
      all_goals exact alike_finish _ _ _ _ _

theorem answers_alike {request : Request}
    (hc : request.chain = [.getAnswers1, .getAnswers2, .getAnswers3]) :
    Alike lib runtime dateFormat env clock a b 4 0 (dispatch lib runtime (env 0) request)
      (dispatch lib runtime (env 0) request) := by
  rw [dispatch_of_chain hc (hmem 0 _), runStages_plain _ _ _ _ _ _ _ (by decide)]
  simp only [Stage.run, handleGetAnswers1, selectForAnswers, hasNext_more,
    not_true_eq_false, if_false]
  split
  · exact alike_finish _ _ _ _ _
  · next id hid =>
    split
    · exact alike_finish _ _ _ _ _
    · refine alike_exec rfl ?_
      simp only [Ctx.advance, List.tail_cons]
      rw [runStages_plain _ _ _ _ _ _ _ (by decide), runStages_plain _ _ _ _ _ _ _ (by decide)]
      simp only [Stage.run, Input.withTask, handleGetAnswers2]
      refine checkFilter_alike hmem (ha 0).toValid (hb 0).toValid rfl (hasNext_more _ _ _ _ _ _)
        (hab 0).challengeIds ?_
      simp only [Ctx.advance, List.tail_cons]
      rw [runStages_plain _ _ _ _ _ _ _ (by decide), runStages_plain _ _ _ _ _ _ _ (by decide)]
      have hjoined : (a 1).joined.map publicAnswer = (b 1).joined.map publicAnswer := by
        rw [joined_public, joined_public, (hab 1).answers_eq (ha 1) (hb 1), (hab 1).users_eq
          (ha 1) (hb 1)]
      have htext := publicText dateFormat (fun answer => answer.isCorrected &&
        (id == 0 || answer.challengeId == id))
        (by
          intro p p' hp
          simp only [publicAnswer, AnswerRow.publicColumns, Prod.mk.injEq] at hp
          simp only [readAnswer, AnswerRow.record, hp]) hjoined
      simp only [Stage.run, Input.withTask, handleGetAnswers3, listAnswers, hasNext_last,
        Bool.false_eq_true, if_false,
        hmem, bindAnswers_run (ha 1), bindAnswers_run (hb 1), Bool.true_eq_false, and_false, htext]
      exact alike_finish _ _ _ _ _

end

/-! ## the lists of a user -/

section
variable {user : Bytes} (ha : ∀ n, (a n).WellFormed) (hb : ∀ n, (b n).WellFormed)
  (hab : ∀ n, OwnEq user (a n) (b n))
include ha hb hab

/-- the check of a token of the user ends alike, or lets both runs pass -/
theorem auth_alike {request : Request} {first : Stage} {rest : List Stage} {fuel : Nat}
    (hfirst : first ≠ .auth2) (htoken : ∀ token claims, request.token = some token →
      authTokenVerify lib (env 0).alloc runtime.config token (env 0).now = .ok claims →
      claims.userId = user)
    (hc : request.chain = .auth1 :: .auth2 :: first :: rest)
    (h : ∀ claims : AuthClaims, claims.userId = user →
      Alike lib runtime dateFormat env clock a b (fuel + 1) 1
        (first.run lib runtime (env 1) {} ⟨request, first :: rest, .none, some ⟨claims, true⟩⟩)
        (first.run lib runtime (env 1) {} ⟨request, first :: rest, .none, some ⟨claims, true⟩⟩)) :
    Alike lib runtime dateFormat env clock a b (fuel + 2) 0 (dispatch lib runtime (env 0) request)
      (dispatch lib runtime (env 0) request) := by
  rw [dispatch_of_chain hc (hmem 0 _), runStages_plain _ _ _ _ _ _ _ (by decide)]
  simp only [Stage.run, handleAuth1]
  split
  · exact alike_finish _ _ _ _ _
  next token hcarried =>
  split
  · exact alike_finish _ _ _ _ _
  split
  · exact alike_finish _ _ _ _ _
  · exact alike_finish _ _ _ _ _
  next claims hverify =>
  split
  · exact alike_finish _ _ _ _ _
  have huser : claims.userId = user := htoken token claims hcarried hverify
  refine alike_exec rfl ?_
  obtain ⟨sessionsA, hbindA, hanyA⟩ := @bindAuthSessions_run dateFormat (clock 0) (a 0)
    (ha 0).toValid
  obtain ⟨sessionsB, hbindB, hanyB⟩ := @bindAuthSessions_run dateFormat (clock 0) (b 0)
    (hb 0).toValid
  have hany : sessionsA.any (sessionMatches claims) = sessionsB.any (sessionMatches claims) := by
    rw [Bool.eq_iff_iff, hanyA, hanyB, huser, (hab 0).user_eq (ha 0) (hb 0)]
    refine exists_congr fun row => ?_
    constructor
    · rintro ⟨hrow, hlive, hsome, howner, hrest⟩
      exact ⟨((hab 0).sessions row howner).1 hrow, hlive, hsome, howner, hrest⟩
    · rintro ⟨hrow, hlive, hsome, howner, hrest⟩
      exact ⟨((hab 0).sessions row howner).2 hrow, hlive, hsome, howner, hrest⟩
  simp only [Ctx.advance, List.tail_cons]
  have hsame : ∀ sessions result, bindAuthSessions true result = some sessions →
      sessions.any (sessionMatches claims) = sessionsB.any (sessionMatches claims) →
      handleAuth2 (env 1) ⟨request, .auth2 :: first :: rest, .none, some ⟨claims, false⟩⟩
      ⟨.selectSessions, result⟩ =
        handleAuth2 (env 1) ⟨request, .auth2 :: first :: rest, .none, some ⟨claims, false⟩⟩
          ⟨.selectSessions, ((b 0).run dateFormat (clock 0) .selectSessions).1⟩ := by
    intro sessions result hbind hsessions
    simp only [handleAuth2, hmem, hbind, hbindB, hsessions]
  simp only [runStages, Stage.run, Input.withTask, hsame sessionsA _ hbindA hany]
  -- the stage answers, or calls the next one
  have hcases : (∃ events response, handleAuth2 (env 1) ⟨request, .auth2 :: first :: rest, .none,
    some ⟨claims, false⟩⟩
        ⟨.selectSessions, ((b 0).run dateFormat (clock 0) .selectSessions).1⟩ =
          Ctx.finish ⟨request, .auth2 :: first :: rest, .none, some ⟨claims, false⟩⟩
          events response) ∨
      handleAuth2 (env 1) ⟨request, .auth2 :: first :: rest, .none, some ⟨claims, false⟩⟩
        ⟨.selectSessions, ((b 0).run dateFormat (clock 0) .selectSessions).1⟩ =
          ⟨⟨request, first :: rest, .none, some ⟨claims, true⟩⟩,
            [.clock (env 1).now, .verified claims], .next⟩ := by
    simp only [handleAuth2, hmem, hbindB]
    split
    · exact .inl ⟨_, _, rfl⟩
    · split
      · exact .inl ⟨_, _, rfl⟩
      · exact .inr rfl
  rcases hcases with ⟨events, response, heq⟩ | heq
  · rw [heq]
    exact alike_finish _ _ _ _ _
  · rw [heq]
    have hrun := runStages_plain lib runtime (env 1) {}
      ⟨request, first :: rest, .none, some ⟨claims, true⟩⟩ first rest hfirst
    have hquiet : List.all [Event.clock (env 1).now, Event.verified claims] Event.isQuiet
      = true := rfl
    obtain ⟨response, hresA, hresB⟩ := h claims huser
    rw [← hrun, runStages] at hresA hresB
    exact ⟨response, (replyFrom_prepend hquiet).trans hresA, (replyFrom_prepend hquiet).trans hresB⟩

theorem own_challenges_alike {request : Request}
    (hc : request.chain = [.auth1, .auth2, .getOwnChallenges1, .getOwnChallenges2])
    (htoken : ∀ token claims, request.token = some token →
      authTokenVerify lib (env 0).alloc runtime.config token (env 0).now = .ok claims →
      claims.userId = user) :
    Alike lib runtime dateFormat env clock a b 5 0 (dispatch lib runtime (env 0) request)
      (dispatch lib runtime (env 0) request) := by
  refine auth_alike hmem ha hb hab (by decide) htoken hc fun claims hclaims => ?_
  have hlist : ∀ db : Db, (db.challenges.map ChallengeRow.record).filter
    (fun challenge => challenge.creatorId == user) =
      (db.challenges.filter fun row => row.creatorId == user).map ChallengeRow.record := by
    intro db
    rw [List.filter_map]
    exact rfl
  simp only [Stage.run, handleGetOwnChallenges1, Ctx.user, if_true, hasNext_more,
    not_true_eq_false, if_false]
  refine alike_exec rfl ?_
  simp only [Ctx.advance, List.tail_cons]
  rw [runStages_plain _ _ _ _ _ _ _ (by decide), runStages_plain _ _ _ _ _ _ _ (by decide)]
  simp only [Stage.run, Input.withTask, handleGetOwnChallenges2, Ctx.user, if_true, hmem,
    Bool.true_eq_false, and_false,
    if_false, readChallenges_run (ha 1).toValid, readChallenges_run (hb 1).toValid, hclaims, hlist,
    (hab 1).challenges_eq (ha 1) (hb 1)]
  split <;> exact alike_finish _ _ _ _ _

theorem own_answers_alike {request : Request}
    (hc : request.chain = [.auth1, .auth2, .getOwnAnswers1, .getOwnAnswers2, .getOwnAnswers3])
    (htoken : ∀ token claims, request.token = some token →
      authTokenVerify lib (env 0).alloc runtime.config token (env 0).now = .ok claims →
      claims.userId = user) :
    Alike lib runtime dateFormat env clock a b 6 0 (dispatch lib runtime (env 0) request)
      (dispatch lib runtime (env 0) request) := by
  refine auth_alike hmem ha hb hab (by decide) htoken hc fun claims hclaims => ?_
  simp only [Stage.run, handleGetOwnAnswers1, selectForAnswers, Ctx.user, if_true, hasNext_more,
    not_true_eq_false, if_false]
  split
  · exact alike_finish _ _ _ _ _
  next id hid =>
  split
  · exact alike_finish _ _ _ _ _
  refine alike_exec rfl ?_
  simp only [Ctx.advance, List.tail_cons]
  rw [runStages_plain _ _ _ _ _ _ _ (by decide), runStages_plain _ _ _ _ _ _ _ (by decide)]
  simp only [Stage.run, Input.withTask, handleGetOwnAnswers2]
  refine checkFilter_alike hmem (ha 1).toValid (hb 1).toValid rfl (hasNext_more _ _ _ _ _ _)
    (hab 1).challengeIds ?_
  simp only [Ctx.advance, List.tail_cons]
  rw [runStages_plain _ _ _ _ _ _ _ (by decide), runStages_plain _ _ _ _ _ _ _ (by decide)]
  have hlist : ∀ db : Db, (db.joined.map (readAnswer dateFormat)).filter (fun answer =>
        answer.userId == user && (id == 0 || answer.challengeId == id)) =
      (((db.answers.filter fun row => row.userId == user).filterMap fun row =>
        (db.user? user).map fun owner => readAnswer dateFormat (row, owner)).filter fun answer =>
          id == 0 || answer.challengeId == id) := by
    intro db
    rw [← own_joined, List.filter_filter]
    simp only [Bool.and_comm]
  simp only [Stage.run, Input.withTask, handleGetOwnAnswers3, listAnswers, hasNext_last,
    Bool.false_eq_true, if_false,
    hmem, bindAnswers_run (ha 2), bindAnswers_run (hb 2), Bool.true_eq_false, and_false,
    Ctx.userBytes, Ctx.user, if_true,
    Option.getD_some, hclaims, hlist, (hab 2).answers_eq (ha 2) (hb 2), (hab 2).user_eq
    (ha 2) (hb 2)]
  exact alike_finish _ _ _ _ _

end

end

/-! ## the lists -/

section
variable (lib : AuthLib) (runtime : Runtime) (dateFormat : Int → Bytes) (env : Nat → Env)
  (clock : Nat → Int)

/-- both contents give the same response, from which `http_response_build` makes what is sent -/
def SameReply (a b : Nat → Db) (request : Request) : Prop :=
  ∃ response, reply lib runtime dateFormat env clock a request = some response ∧
    reply lib runtime dateFormat env clock b request = some response

variable {lib runtime dateFormat env clock}

theorem Alike.same {a b : Nat → Db} {request : Request} {chain : List Stage}
    (hc : request.chain = chain)
    (h : Alike lib runtime dateFormat env clock a b (chain.length + 1) 0
      (dispatch lib runtime (env 0) request)
      (dispatch lib runtime (env 0) request)) : SameReply lib runtime dateFormat env clock a b
        request := by
  unfold SameReply reply
  rw [hc]
  exact h

/-- **Where memory suffices, the lists that anybody may read depend on the public columns only, and
the lists of a user on the rows of the user and the ids of the challenges.** -/
theorem lists_hide (hmem : ∀ n k, (env n).alloc k = true) {a b : Nat → Db}
    (ha : ∀ n, (a n).WellFormed)
    (hb : ∀ n, (b n).WellFormed) {request : Request} (hget : request.method = .get) :
    (request.uri ∈ [ascii "/answers", ascii "/challenges", ascii "/users"] →
      (∀ n, PublicEq (a n) (b n)) →
      SameReply lib runtime dateFormat env clock a b request) ∧
    (request.uri ∈ [ascii "/answers/me", ascii "/challenges/me"] → ∀ user,
      (∀ n, OwnEq user (a n) (b n)) →
      (∀ token claims, request.token = some token →
        authTokenVerify lib (env 0).alloc runtime.config token (env 0).now = .ok claims →
        claims.userId = user) →
      SameReply lib runtime dateFormat env clock a b request) := by
  constructor
  · intro huri hab
    simp only [List.mem_cons, List.not_mem_nil, or_false] at huri
    rcases huri with huri | huri | huri
    · have hc : request.chain = [.getAnswers1, .getAnswers2, .getAnswers3] :=
        chain_of_route hget huri (by decide +kernel)
      exact (answers_alike hmem ha hb hab hc).same hc
    · have hc : request.chain = [.getChallenges1, .getChallenges2] :=
        chain_of_route hget huri (by decide +kernel)
      exact (challenges_alike hmem ha hb hab hc).same hc
    · have hc : request.chain = [.getUsers1, .getUsers2, .getUsers3] :=
        chain_of_route hget huri (by decide +kernel)
      exact (users_alike hmem ha hb hab hc).same hc
  · intro huri user hab htoken
    simp only [List.mem_cons, List.not_mem_nil, or_false] at huri
    rcases huri with huri | huri
    · have hc : request.chain = [.auth1, .auth2, .getOwnAnswers1, .getOwnAnswers2,
        .getOwnAnswers3] :=
        chain_of_route hget huri (by decide +kernel)
      exact (own_answers_alike hmem ha hb hab hc htoken).same hc
    · have hc : request.chain = [.auth1, .auth2, .getOwnChallenges1, .getOwnChallenges2] :=
        chain_of_route hget huri (by decide +kernel)
      exact (own_challenges_alike hmem ha hb hab hc htoken).same hc

end

/-! ## a sample -/

def sampleOther : Bytes := ascii "00000000000000000000000000000002"

/-- two contents with different secrets of another user -/
def viewDb (second : Bool) : Db where
  users := [⟨sampleUser, ascii "alice", ascii "$argon2id$correcthorse", 900⟩,
    ⟨sampleOther, ascii "bob", if second then ascii "$argon2id$b" else ascii "$argon2id$", 901⟩]
  challenges := [⟨1, sampleOther, ascii "warmup", ascii "", if second then ascii "other flag" else
    ascii "flag", 0⟩]
  answers := [⟨1, 1, sampleUser, ascii "flag", true, some 1500⟩,
    ⟨2, 1, sampleOther, if second then ascii "other flag" else ascii "flag", true, some 1600⟩]
  sessions := [⟨sampleSession, sampleUser, 1000, 4600⟩]

theorem literal_plain {f : Bytes}
    (h : (f.all fun c => 0x20 ≤ c && c < 0x80 && c != Json.DQUOTE && c != Json.BACKSLASH) = true) :
    Json.Literal f := by
  refine (Json.chars_iff f).1 (Json.chars_plain fun c hc => ?_)
  have hplain := List.all_eq_true.1 h c hc
  simp only [Bool.and_eq_true, decide_eq_true_eq, bne_iff_ne] at hplain
  exact ⟨UInt8.not_lt.2 hplain.1.1.1, UInt8.not_le.2 hplain.1.1.2, hplain.1.2, hplain.2⟩

theorem viewDb_wellFormed (second : Bool) : (viewDb second).WellFormed where
  users := by
    simp only [viewDb, List.forall_mem_cons, List.not_mem_nil, false_imp_iff,
      implies_true, and_true]
    cases second <;> exact ⟨⟨by decide, by decide, by decide⟩, ⟨by decide, by decide, by decide⟩⟩
  challenges := by
    simp only [viewDb, List.forall_mem_cons, List.not_mem_nil, false_imp_iff,
      implies_true, and_true]
    cases second <;> exact ⟨by decide, by decide, ⟨literal_plain (by decide), by decide⟩,
      ⟨literal_plain (by decide), by decide⟩, ⟨literal_plain (by decide), by decide⟩, by decide⟩
  answers := by
    simp only [viewDb, List.forall_mem_cons, List.not_mem_nil, false_imp_iff,
      implies_true, and_true]
    cases second <;> exact ⟨⟨by
      decide, by decide, by decide, ⟨literal_plain (by decide), by decide⟩, 1500, rfl, by decide⟩,
      ⟨by decide, by decide, by decide, ⟨literal_plain (by decide), by decide⟩, 1600,
        rfl, by decide⟩⟩
  sessions := by
    simp only [viewDb, List.forall_mem_cons, List.not_mem_nil, false_imp_iff,
      implies_true, and_true]
    exact ⟨by decide, by decide, 1000, 4600, rfl, rfl, by decide, by decide⟩
  usersOrder := by cases second <;> decide
  challengesOrder := List.pairwise_singleton _ _
  answersOrder := by cases second <;> decide

theorem view_publicEq : PublicEq (viewDb false) (viewDb true) :=
  ⟨fun _ => Iff.rfl, fun _ => Iff.rfl, fun _ => Iff.rfl⟩

theorem view_ownEq : OwnEq sampleUser (viewDb false) (viewDb true) where
  challenges row hrow := by
    have hother : row.creatorId ≠ sampleOther := by rw [hrow]; decide
    simp only [viewDb, List.mem_singleton]
    exact ⟨fun h => absurd (h ▸ rfl) hother, fun h => absurd (h ▸ rfl) hother⟩
  challengeIds id := by simp [viewDb]
  answers row hrow := by
    have hother : row.userId ≠ sampleOther := by rw [hrow]; decide
    simp only [viewDb, List.mem_cons, List.not_mem_nil, or_false]
    exact or_congr_right ⟨fun h => absurd (h ▸ rfl) hother, fun h => absurd (h ▸ rfl) hother⟩
  users row hrow := by
    have hother : row.id ≠ sampleOther := by rw [hrow]; decide
    simp only [viewDb, List.mem_cons, List.not_mem_nil, or_false]
    exact or_congr_right ⟨fun h => absurd (h ▸ rfl) hother, fun h => absurd (h ▸ rfl) hother⟩
  sessions _ _ := Iff.rfl

/-- a list, asked for with the token of `sampleUser` -/
def sampleGet (uri : Bytes) : Request :=
  { method := .get, uri := uri, headers :=
    [(ascii "Authorization", ascii "Bearer " ++ sampleToken)] }

theorem lists_hide_sample :
    SameReply sampleLib sampleRuntime intText (fun _ => sampleEnv 2000) (fun _ => 2000)
    (fun _ => viewDb false)
      (fun _ => viewDb true) (sampleGet (ascii "/answers")) ∧
    SameReply sampleLib sampleRuntime intText (fun _ => sampleEnv 2000) (fun _ => 2000)
      (fun _ => viewDb false)
      (fun _ => viewDb true) (sampleGet (ascii "/answers/me")) := by
  have hverify : ∃ claims, authTokenVerify sampleLib (sampleEnv 2000).alloc
    sampleRuntime.config sampleToken
      (sampleEnv 2000).now = .ok claims ∧ claims.userId = sampleUser :=
    ⟨⟨sampleUser, sampleSession, 1000, 1000, 4600⟩, by decide +kernel, rfl⟩
  have hcarried : (sampleGet (ascii "/answers/me")).token = some sampleToken := by decide +kernel
  refine ⟨(lists_hide (fun _ _ => rfl) (fun _ => viewDb_wellFormed false)
    (fun _ => viewDb_wellFormed true) rfl).1
      (List.mem_cons_self) (fun _ => view_publicEq),
    (lists_hide (fun _ _ => rfl) (fun _ => viewDb_wellFormed false)
      (fun _ => viewDb_wellFormed true) rfl).2
      (List.mem_cons_self) sampleUser (fun _ => view_ownEq) fun token claims htoken hclaims => ?_⟩
  obtain ⟨claims', hok, huser⟩ := hverify
  rw [hcarried, Option.some.injEq] at htoken
  rw [← htoken] at hclaims
  obtain rfl : claims' = claims := Except.ok.inj (hok.symm.trans hclaims)
  exact huser

end System

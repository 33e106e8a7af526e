import CtfServer.Store.Reads
import CtfServer.System.Executions
import CtfServer.System.Serve

/-!
# Answers and the flags they are judged against

* `newAnswers_cases`   what an execution adds to the answers;
* `Linked.judged`      behind an INSERT stands the SELECT that brought the flag;
* `judged_answers`     **answers are judged against the flag that was stored**.
-/

set_option linter.unusedVariables false
set_option linter.unusedSimpArgs false

namespace System

open App Store
open Json (SubmitAnswerRequest equalDecoded codepoints)

/-! ## the rows of an execution -/

/-- the answers that an execution adds -/
def Execution.newAnswers (x : Execution) : List AnswerRow :=
  x.after.answers.filter fun row => !x.before.answers.contains row

/-- the first execution that reads the challenges -/
def firstSelect (l : List Execution) : Option Execution :=
  l.find? fun x => x.query == .selectChallenges

section
variable {lib : AuthLib} {passwords : PasswordLib} {runtime : Runtime} {dateFormat : Int → Bytes}
  {meets : Nat → Env → Prop} {db : Db} {w : World}

theorem newAnswers_of_subset {x : Execution} (h : ∀ row ∈ x.after.answers, row ∈ x.before.answers) :
    x.newAnswers = [] := by
  rw [Execution.newAnswers, List.filter_eq_nil_iff]
  intro row hrow
  simp [h row hrow]

/-- an execution adds no answer, or it is the INSERT of one -/
theorem newAnswers_cases {x : Execution}
    (h : Exec dateFormat x.now x.query x.before x.result x.after) (hk : Keyed x.before) :
    x.newAnswers = [] ∧ (x.result.success = false ∨ Op.isInsertAnswer (.db x.query) = false) ∨
      ∃ id user answer correct, x.query = .insertAnswer id user answer correct ∧
      x.result.success = true ∧
      x.newAnswers = [⟨x.result.insertId, id, user, answer, correct, some x.now⟩] ∧
      x.after.answers = x.before.answers ++
      [⟨x.result.insertId, id, user, answer, correct, some x.now⟩] ∧
      x.after.nextAnswer = x.result.insertId + 1 := by
  rcases h.cases with ⟨heq, hsel⟩ | ⟨hs, -, k, hw⟩
  · refine .inl ⟨newAnswers_of_subset fun row hrow => heq ▸ hrow, hsel.imp_right fun hq => ?_⟩
    cases hxq : x.query <;> rw [hxq] at hq <;> first | rfl | cases hq
  generalize hq : x.query = q at hw
  generalize ha : x.after = after at hw
  generalize hn : x.result.affected = n at hw
  generalize hi : x.result.insertId = i at hw
  cases hw with
  | @insertAnswer id user answer correct hnext hmax hc hu =>
    refine .inr ⟨id, user, answer, correct, rfl, hs, ?_, rfl, rfl⟩
    have hnew : (⟨k, id, user, answer, correct, some x.now⟩ : AnswerRow) ∉ x.before.answers :=
      fun hmem =>
      absurd (hk.answersBelow _ hmem) (Nat.not_lt.2 hnext)
    rw [Execution.newAnswers, ha, List.filter_append, List.filter_eq_nil_iff.2
      fun row hrow => by simp [hrow]]
    simpa using hnew
  | deleteChallenge =>
    refine .inl ⟨newAnswers_of_subset fun row hrow => ?_, .inr rfl⟩
    rw [ha] at hrow
    exact (List.mem_filter.1 hrow).1
  | _ => exact .inl ⟨newAnswers_of_subset fun row hrow => by rw [ha] at hrow; exact hrow, .inr rfl⟩

/-- the executions of a request are, in order, statements that it enqueued -/
theorem Linked.ops_sublist {id : Nat} {client : Client}
    (h : Linked lib runtime dateFormat meets db w) (hc : w.clients id = some client) :
    ((w.execsFor id).map fun x => Op.db x.query).Sublist (opsOf client.state.trace) := by
  rcases h.statements hc with ⟨-, hnil⟩ | ⟨s, op, hw, hp, -, hops, es, hes, hlen, hall⟩
  · rw [hnil]
    exact List.nil_sublist _
  · have hmap : ((w.execsFor id).map fun x => Op.db x.query) =
        ((w.execsFor id).map Execution.effect).map fun e => Op.db e.1 := by
      rw [List.map_map]
      rfl
    have htail : (es.map fun e => Op.db e.1).Sublist [op] := by
      match es, hlen with
      | [], _ => exact List.nil_sublist _
      | [e], _ => rw [List.map_singleton, ← hall e (List.mem_singleton_self e)]
    rw [hmap, hes, hops, List.map_append]
    exact ((List.Sublist.refl _).append htail).trans (hw.statements hp)

/-- what an execution of a request with at least two executions before the rest shows -/
theorem execs_cons_cons {l : List Execution} {q0 q1 : Query} {r0 r1 : DbResult}
    {es : List (Query × DbResult)} (h : l.map Execution.effect = (q0, r0) :: (q1, r1) :: es) :
    ∃ x y rest, l = x :: y :: rest ∧ x.effect = (q0, r0) ∧ y.effect = (q1, r1) ∧
      rest.map Execution.effect = es := by
  simp only [List.map_eq_cons_iff] at h
  obtain ⟨x, l1, rfl, hx, y, l2, rfl, hy, hrest⟩ := h
  exact ⟨x, y, l2, rfl, hx, hy, hrest⟩

theorem firstSelect_second {x y : Execution} {rest : List Execution} {r0 r1 : DbResult}
    (hx : x.effect = (.selectSessions, r0)) (hy : y.effect = (.selectChallenges, r1)) :
    firstSelect (x :: y :: rest) = some y := by
  have hqx := (Execution.effect_eq.1 hx).1
  have hqy := (Execution.effect_eq.1 hy).1
  simp [firstSelect, hqx, hqy]

/-- **behind an INSERT stands the SELECT that brought the flag** -/
theorem Linked.judged {id : Nat} {client : Client} {x : Execution} {cid : Nat} {user answer : Bytes}
    {correct : Bool}
    (h : Linked lib runtime dateFormat meets db w) (hk : Keyed db) (hc : w.clients id = some client)
    (hx : x ∈ w.execsFor id) (hq : x.query = .insertAnswer cid user answer correct) :
    client.request.IsSubmit ∧ ∃ claims input y row, .verified claims ∈ client.state.trace ∧
      client.request.NewAnswer input ∧ cid = input.challengeId ∧ user = claims.userId ∧
      answer = input.answer ∧
      firstSelect (w.execsFor id) = some y ∧ row ∈ y.before.challenges ∧ row.id = cid ∧
      equalDecoded row.flag input.answer = some correct := by
  have hop : .db (.insertAnswer cid user answer correct) ∈ opsOf client.state.trace :=
    hq ▸ (h.ops_sublist hc).subset (List.mem_map_of_mem (f := fun x => Op.db x.query) hx)
  rcases h.statements hc with ⟨-, hnil⟩ | ⟨s, op, hw, hp, hpre, hops, es, hes, -, -⟩
  · rw [hnil] at hx
    cases hx
  rw [hops] at hop
  obtain ⟨hchain, g, input, r1, mem, challenges, challenge, es', hver, hb, hid, hu, ha, hr, hf,
    hcorrect, hex⟩ :=
    hw.judged hop
  rw [hex] at hes
  obtain ⟨x0, y, rest, hl, hx0, hy, -⟩ := execs_cons_cons hes
  have hym : y ∈ w.execsFor id := by simp [hl]
  obtain ⟨row, hrow, hrid, heq⟩ :=
    findChallenge_row (h.exec hym hy) (h.keyed hk (mem_of_execsFor hym).1).1 hr cid hf
  refine ⟨isSubmit_of_chain hchain, g.claims, input, y, row, hpre.subset hver, hb, hid, hu, ha, ?_,
    hrow, hrid, ?_⟩
  · rw [hl]
    exact firstSelect_second hx0 hy
  · rw [heq] at hcorrect
    exact hcorrect

/-! ## what stands behind a response -/

/-- the answers that an execution adds are at most one, and none unless it is their INSERT -/
theorem newAnswers_length {x : Execution}
    (h : Exec dateFormat x.now x.query x.before x.result x.after)
    (hk : Keyed x.before) : x.newAnswers.length ≤ if Op.isInsertAnswer (.db x.query) then
    1 else 0 := by
  rcases newAnswers_cases h hk with ⟨hnil, -⟩ | ⟨id, user, answer, correct, hq, -, hnew, -⟩
  · rw [hnil]
    exact Nat.zero_le _
  · rw [hnew, hq]
    exact Nat.le_refl 1

/-- a request inserts at most one answer -/
theorem Linked.inserts_once (h : Linked lib runtime dateFormat meets db w)
    (hk : Keyed db) (id : Nat) :
    ((w.execsFor id).flatMap Execution.newAnswers).length ≤ 1 := by
  cases hc : w.clients id with
  | none =>
    have hat := h.at_ id
    unfold LinkedAt at hat
    rw [hc] at hat
    rw [hat.2]
    exact Nat.zero_le _
  | some client =>
    have hlen : ∀ l : List Execution, (∀ x ∈ l, x ∈ w.execsFor id) →
      (l.flatMap Execution.newAnswers).length ≤
        (l.map fun x => Op.db x.query).countP Op.isInsertAnswer := by
      intro l
      induction l with
      | nil => exact fun _ => Nat.le_refl _
      | cons x l ih =>
        intro hall
        have hx := hall x List.mem_cons_self
        have hnew := newAnswers_length (h.exec hx rfl) (h.keyed hk (mem_of_execsFor hx).1).1
        have hrest := ih fun y hy => hall y (List.mem_cons_of_mem _ hy)
        rw [List.flatMap_cons, List.length_append, List.map_cons, List.countP_cons]
        omega
    refine (hlen _ fun x hx => hx).trans (((h.ops_sublist hc).countP_le).trans ?_)
    rcases h.statements hc with ⟨hnil, -⟩ | ⟨s, op, hw, -, -, hops, -⟩
    · rw [hnil]
      exact Nat.zero_le _
    · rw [hops]
      exact hw.judged_once

/-- the answer of an id that was given before is found again as it was inserted -/
theorem Linked.found_again (h : Linked lib runtime dateFormat meets db w) (hk : Keyed db)
    {x z : Execution}
    (hxz : List.Sublist [x, z] (executions w.log)) {row row' : AnswerRow} (hid : row.id = row'.id)
    (hafter : x.after.answers = x.before.answers ++ [row]) (hnext : x.after.nextAnswer = row.id + 1)
    (hrow : row' ∈ z.before.answers) : row' = row := by
  have hmem := (h.evolves hxz).answers row' hrow (by omega)
  rw [hafter, List.mem_append, List.mem_singleton] at hmem
  rcases hmem with hold | heq
  · have hx : x ∈ executions w.log := hxz.subset List.mem_cons_self
    have hkey := (h.keyed hk hx).2.answers
    rw [hafter, List.map_append, List.nodup_append] at hkey
    exact absurd hid.symm (hkey.2.2 _ (List.mem_map_of_mem hold) _
      (List.mem_map_of_mem List.mem_cons_self))
  · exact heq

/-- a 200 reports the answer that the request inserted -/
theorem answer_reported {id : Nat} {client : Client} {r : Response} (hk : Keyed db)
    (h : Linked lib runtime dateFormat meets db w) (ha : w.Answered id client r)
    (hm : client.request.IsSubmit) (hs : r.status = .ok) :
    ∃ x row z user, List.Sublist [x, z] (w.execsFor id) ∧ x.newAnswers = [row] ∧
      z.query = .selectAnswers ∧
      user ∈ z.before.users ∧ user.id = row.userId ∧
      r = jsonBody .ok (answerToJson (row.record dateFormat user.username x.now)) := by
  have hc := ha.found
  have hexecs := h.answered hc ha.response
  rcases answer_story (h.client hc).reach (chain_of_route hm.1 hm.2 (by decide +kernel))
    ha.response with
    ⟨htells, -⟩ | ⟨g, input, hver, hb, story⟩
  · rw [hs] at htells
    cases htells
  rw [← hexecs] at story
  generalize hl : (w.execsFor id).map Execution.effect = es at story
  cases story with
  | unread hmeets r0 r1 hr hno => rw [hs] at hno; cases hno
  | absent r0 r1 mem challenges hr hf hno => rw [hs] at hno; cases hno
  | unjudged r0 r1 mem challenges hr challenge hf hno => rw [hs] at hno; cases hno
  | unclear r0 r1 r2 correct hno => rw [hs] at hno; cases hno
  | failed r0 r1 r2 r3 correct h2 hno hr => exact absurd hs hno
  | reported r0 r1 r2 r3 correct h2 hr =>
    obtain ⟨mem, answers, answer, hread, hmem, hid, heq⟩ := hr hs
    simp only [List.map_eq_cons_iff, List.map_eq_nil_iff] at hl
    obtain ⟨x0, l0, hx0, he0, x1, l1, rfl, he1, x, l2, rfl, hex, z, l3, rfl, hez, rfl⟩ := hl
    have hxm : x ∈ w.execsFor id := by simp [hx0]
    have hzm : z ∈ w.execsFor id := by simp [hx0]
    have hxz : List.Sublist [x, z] (w.execsFor id) := by
      rw [hx0]
      exact (List.sublist_cons_self _ _).trans (List.sublist_cons_self _ _)
    have hexec := h.exec hxm hex
    have hkx := (h.keyed hk (mem_of_execsFor hxm).1).1
    obtain ⟨hqx, hrx⟩ := Execution.effect_eq.1 hex
    rcases newAnswers_cases (hqx.symm ▸ hrx.symm ▸ hexec) hkx with
      ⟨-, hno | hno⟩ | ⟨cid, user, text, c, hq, -, hnew, hafter, hnext⟩
    · rw [hrx, h2] at hno
      cases hno
    · rw [hqx] at hno
      cases hno
    · obtain ⟨row', hrow', user', huser', hid', createdAt, hcreated, hrec⟩ :=
        mem_bindAnswers (h.exec hzm hez) hread hmem
      have hsame := h.found_again hk (hxz.trans (execsFor_sublist w id))
        (by rw [hrec] at hid; exact hrx ▸ hid.symm)
        hafter hnext hrow'
      subst hsame
      cases hcreated
      exact ⟨x, _, z, user', hxz, hnew, (Execution.effect_eq.1 hez).1, huser',
        hid', by rw [heq, hrec]⟩

/-- the statements of an answer start with the sessions and the challenges -/
theorem answerStory_starts {meets : Env → Prop} {user : Bytes} {input : SubmitAnswerRequest}
    {r : Response} {es : List (Query × DbResult)} (h : AnswerStory meets user input r es) :
    ∃ r0 r1 rest, es = (.selectSessions, r0) :: (.selectChallenges, r1) :: rest := by
  cases h <;> exact ⟨_, _, _, rfl⟩

/-- where the challenge was absent at the first SELECT no INSERT is executed -/
theorem Linked.no_insert {id : Nat} {client : Client} {input : SubmitAnswerRequest} {y : Execution}
    (h : Linked lib runtime dateFormat meets db w) (hk : Keyed db) (hc : w.clients id = some client)
    (hb : client.request.NewAnswer input) (hy : firstSelect (w.execsFor id) = some y)
    (habsent : ∀ row ∈ y.before.challenges, row.id ≠ input.challengeId) {x : Execution}
    (hx : x ∈ w.execsFor id)
    {cid : Nat} {user answer : Bytes} {correct : Bool} :
    x.query ≠ .insertAnswer cid user answer correct := by
  intro hq
  obtain ⟨-, claims, input', y', row, -, hb', hid, -, -, hy', hrow, hrid, -⟩ := h.judged hk hc hx hq
  cases Option.some.inj (hy.symm.trans hy')
  rw [hb.unique hb'] at habsent
  exact habsent row hrow (hrid.trans hid)

theorem answer_absent {id : Nat} {client : Client} {input : SubmitAnswerRequest} {y : Execution}
    {r : Response}
    (hk : Keyed db) (h : Linked lib runtime dateFormat meets db w) (ha : w.Answered id client r)
    (hm : client.request.IsSubmit) (hb : client.request.NewAnswer input)
    (hy : firstSelect (w.execsFor id) = some y)
    (habsent : ∀ row ∈ y.before.challenges, row.id ≠ input.challengeId)
    (hmem : ∀ env, meets id env → env.alloc .rows = true) (hres : y.result.stored ≠ none) :
    r.status = .notFound := by
  have hc := ha.found
  have hexecs := h.answered hc ha.response
  have hno : ∀ q ∈ ((w.execsFor id).map Execution.effect).map Prod.fst, ∀ cid user answer correct,
      q ≠ .insertAnswer cid user answer correct := by
    simp only [List.mem_map, forall_exists_index, and_imp]
    rintro q e x hx rfl rfl cid user answer correct
    exact h.no_insert hk hc hb hy habsent hx
  rcases answer_story (h.client hc).reach (chain_of_route hm.1 hm.2 (by decide +kernel))
    ha.response with
    ⟨-, honly⟩ | ⟨g, input', hver, hb', story⟩
  · exfalso
    have hyq : y.query = .selectChallenges := by simpa using List.find?_some hy
    have hsess := honly y.effect (hexecs ▸ List.mem_map_of_mem (List.mem_of_find?_eq_some hy))
    rw [Execution.effect, hyq] at hsess
    cases hsess
  obtain rfl := hb.unique hb'
  rw [← hexecs] at story
  obtain ⟨q0, q1, rest, hstart⟩ := answerStory_starts story
  obtain ⟨x0, y', l, hl, hx0, hy', -⟩ := execs_cons_cons hstart
  have hsame : y' = y := by
    rw [hl, firstSelect_second hx0 hy'] at hy
    exact Option.some.inj hy
  subst hsame
  have hym : y' ∈ w.execsFor id := by simp [hl]
  have hky := (h.keyed hk (mem_of_execsFor hym).1).1
  have hexec := h.exec hym hy'
  generalize hes : (w.execsFor id).map Execution.effect = es at story hstart hno
  cases story with
  | unread hmeets r0 r1 hr hs =>
    cases hstart
    rw [hmem _ hmeets] at hr
    rw [(Execution.effect_eq.1 hy').2] at hres
    obtain ⟨res, hstored⟩ := Option.ne_none_iff_exists'.1 hres
    exact absurd hr (readChallenges_stored hexec hky hstored)
  | absent r0 r1 mem challenges hr hf hs => exact hs
  | unjudged r0 r1 mem challenges hr challenge hf hs =>
    cases hstart
    obtain ⟨row, hrow, hid, -⟩ := findChallenge_row hexec hky hr _ hf
    exact absurd hid (habsent row hrow)
  | unclear r0 r1 r2 correct hs
  | reported r0 r1 r2 r3 correct h2 hr
  | failed r0 r1 r2 r3 correct h2 hne hr =>
    exact absurd rfl (hno (.insertAnswer input.challengeId g.claims.userId input.answer correct)
      (by simp) _ _ _ _)

/-- a 404 after a failed INSERT is what the later SELECT saw -/
theorem answer_vanished {id : Nat} {client : Client} {r : Response} {x : Execution} {cid : Nat}
    {user answer : Bytes} {correct : Bool} (hk : Keyed db)
    (h : Linked lib runtime dateFormat meets db w)
    (ha : w.Answered id client r) (hs : r.status = .notFound) (hx : x ∈ w.execsFor id)
    (hq : x.query = .insertAnswer cid user answer correct) (hfail : x.result.success = false) :
    ∃ z, List.Sublist [x, z] (w.execsFor id) ∧ z.query = .selectChallenges ∧
      ∀ row ∈ z.before.challenges, row.id ≠ cid := by
  have hc := ha.found
  have hexecs := h.answered hc ha.response
  have hm := (h.judged hk hc hx hq).1
  have hxe : x.effect = (.insertAnswer cid user answer correct, x.result) :=
    Execution.effect_eq.2 ⟨hq, rfl⟩
  have hmem : x.effect ∈ executed client.state.trace := hexecs ▸ List.mem_map_of_mem hx
  rcases answer_story (h.client hc).reach (chain_of_route hm.1 hm.2 (by decide +kernel))
    ha.response with
    ⟨-, honly⟩ | ⟨g, input, hver, hb, story⟩
  · have := honly _ hmem
    rw [hxe] at this
    cases this
  rw [← hexecs] at story hmem
  generalize hes : (w.execsFor id).map Execution.effect = es at story hmem
  rw [hxe] at hmem
  cases story with
  | unread hmeets r0 r1 hr hno | absent r0 r1 mem challenges hr hf hno
  | unjudged r0 r1 mem challenges hr challenge hf hno => simp at hmem
  | unclear r0 r1 r2 correct hno => rw [hs] at hno; cases hno
  | reported r0 r1 r2 r3 correct h2 hr =>
    simp only [List.mem_cons, Prod.mk.injEq, reduceCtorEq, false_and, false_or, List.not_mem_nil,
      or_false] at hmem
    rw [← hmem.2, hfail] at h2
    cases h2
  | failed r0 r1 r2 r3 correct h2 hne hr =>
    obtain ⟨mem, challenges, hread, hf⟩ := hr hs
    simp only [List.map_eq_cons_iff, List.map_eq_nil_iff] at hes
    obtain ⟨x0, l0, hx0, he0, x1, l1, rfl, he1, x2, l2, rfl, he2, z, l3, rfl, hez, rfl⟩ := hes
    simp only [List.mem_cons, Prod.mk.injEq, reduceCtorEq, false_and, false_or,
      List.not_mem_nil, or_false,
      Query.insertAnswer.injEq] at hmem
    have hxx : x = x2 := by
      rw [hx0] at hx
      simp only [List.mem_cons, List.not_mem_nil, or_false] at hx
      rcases hx with rfl | rfl | rfl | rfl
      · rw [hxe] at he0; cases he0
      · rw [hxe] at he1; cases he1
      · rfl
      · rw [hxe] at hez; cases hez
    subst hxx
    have hzm : z ∈ w.execsFor id := by simp [hx0]
    refine ⟨z, ?_, (Execution.effect_eq.1 hez).1, ?_⟩
    · rw [hx0]
      exact (List.sublist_cons_self _ _).trans (List.sublist_cons_self _ _)
    · rw [hmem.1.1]
      exact findChallenge_none (h.exec hzm hez) (h.keyed hk (mem_of_execsFor hzm).1).1 hread _ hf

/-! ## the main result -/

/-- answers are judged against the flag that was stored -/
structure JudgedAnswers (meets : Nat → Env → Prop) (dateFormat : Int → Bytes) (w : World) :
    Prop where
  /-- a request inserts at most one answer -/
  once : ∀ id, ((w.execsFor id).flatMap Execution.newAnswers).length ≤ 1
  /-- an answer that a request inserts has the id, the user and the text of the request, and is
  correct when its text is the flag that the challenge had at the first SELECT, both decoded -/
  judged : ∀ id, ∀ row ∈ (w.execsFor id).flatMap Execution.newAnswers,
    ∃ client claims input y challenge flag answer, w.clients id = some client ∧
    client.request.IsSubmit ∧
      .verified claims ∈ client.state.trace ∧ client.request.NewAnswer input ∧ row.challengeId =
      input.challengeId ∧
      row.userId = claims.userId ∧ row.answer = input.answer ∧
      firstSelect (w.execsFor id) = some y ∧
      challenge ∈ y.before.challenges ∧ challenge.id = row.challengeId ∧
      codepoints challenge.flag = some flag ∧
      codepoints input.answer = some answer ∧ (row.isCorrect = true ↔ answer = flag)
  /-- where the challenge was absent at the first SELECT no answer is inserted, and the status is
  404 when the rows arrive and memory suffices for them -/
  absent : ∀ id client input y, w.clients id = some client → client.request.IsSubmit →
    client.request.NewAnswer input → firstSelect (w.execsFor id) = some y →
    (∀ row ∈ y.before.challenges, row.id ≠ input.challengeId) →
    (w.execsFor id).flatMap Execution.newAnswers = [] ∧
      ((∀ env, meets id env → env.alloc .rows = true) → y.result.stored ≠ none →
        ∀ r, .respond r ∈ client.state.trace → r.status = .notFound)
  /-- a 200 reports the answer that the request inserted, with the name of its user -/
  reported : ∀ id client r, w.Answered id client r → client.request.IsSubmit → r.status = .ok →
    ∃ x row z user, [x, z].Sublist (w.execsFor id) ∧ x.newAnswers = [row] ∧
    z.query = .selectAnswers ∧
      user ∈ z.before.users ∧ user.id = row.userId ∧
      r = jsonBody .ok (answerToJson (row.record dateFormat user.username x.now))
  /-- a 404 after a failed INSERT is what the later SELECT saw -/
  vanished : ∀ id client r, w.Answered id client r → r.status = .notFound → ∀ x ∈ w.execsFor id,
    ∀ cid user answer correct, x.query = .insertAnswer cid user answer correct →
    x.result.success = false →
    ∃ z, [x, z].Sublist (w.execsFor id) ∧ z.query = .selectChallenges ∧
    ∀ row ∈ z.before.challenges, row.id ≠ cid

/-- **answers are judged against the flag that was stored**, in whatever order the stages of the
requests and the writes of the challenges interleave -/
theorem judged_answers (hk : Keyed db) (hrun : Run lib passwords runtime dateFormat meets db w) :
    JudgedAnswers meets dateFormat w := by
  have h := hrun.linked
  refine ⟨h.inserts_once hk, ?_, ?_, fun id client r ha hm hs => answer_reported hk h ha hm hs,
    fun id client r ha hs x hx cid user answer correct hq hfail => answer_vanished hk h ha
    hs hx hq hfail⟩
  · intro id row hrow
    obtain ⟨x, hx, hnew⟩ := List.mem_flatMap.1 hrow
    rcases newAnswers_cases (h.exec hx rfl) (h.keyed hk (mem_of_execsFor hx).1).1 with
      ⟨hnil, -⟩ | ⟨cid, user, text, correct, hq, -, hone, -, -⟩
    · rw [hnil] at hnew
      cases hnew
    rw [hone, List.mem_singleton] at hnew
    subst hnew
    obtain ⟨client, hc, -⟩ := h.requested (mem_of_execsFor hx).1
    rw [(mem_of_execsFor hx).2] at hc
    obtain ⟨hm, claims, input, y, challenge, hver, hb, hcid, hu, ha, hy, hrow', hid, heq⟩ :=
      h.judged hk hc hx hq
    rw [Json.equalDecoded_eq, Option.bind_eq_some_iff] at heq
    obtain ⟨flag, hflag, heq⟩ := heq
    obtain ⟨answer, hanswer, rfl⟩ := Option.map_eq_some_iff.1 heq
    refine ⟨client, claims, input, y, challenge, flag, answer, hc, hm, hver, hb, hcid, hu, ha, hy,
      hrow', hid, hflag,
      hanswer, ?_⟩
    show (flag == answer) = true ↔ answer = flag
    rw [beq_iff_eq, eq_comm]
  · intro id client input y hc hm hb hy habsent
    refine ⟨?_, fun hmem hres r hr => answer_absent hk h ⟨hc, hr⟩ hm hb hy habsent hmem hres⟩
    rw [List.flatMap_eq_nil_iff]
    intro x hx
    rcases newAnswers_cases (h.exec hx rfl) (h.keyed hk (mem_of_execsFor hx).1).1 with
      ⟨hnil, -⟩ | ⟨cid, user, text, correct, hq, -⟩
    · exact hnil
    · exact absurd hq (h.no_insert hk hc hb hy habsent hx)

end

/-! ## a submission -/

def sampleSubmit : Request :=
  { sampleLogout with
    method := .post
    uri := ascii "/answers"
    body := ascii "\x7b\"challenge_id\":1,\"answer\":\"fl\\u0061g\"\x7d" }

theorem judged_answers_submit :
    ((serveSample sampleSubmit 4).responses 1).map Response.status = [.ok] ∧
      (serveSample sampleSubmit 4).db.answers =
      [⟨1, 1, sampleUser, ascii "fl\\u0061g", true, some 2000⟩] ∧
      JudgedAnswers (fun _ _ => True) intText (serveSample sampleSubmit 4) :=
  ⟨by decide +kernel, by decide +kernel, judged_answers sampleDb_keyed
    (serveSample_run sampleSubmit 4)⟩

end System

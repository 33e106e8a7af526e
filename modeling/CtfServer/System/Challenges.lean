import CtfServer.App.Stories
import CtfServer.Store.Reads
import CtfServer.System.Executions
import CtfServer.System.Serve

/-!
# Challenges and their owners

* `Written.challenge_gone`   a challenge is changed or removed in the name of its creator;
* `put_done`, `delete_done`  what stands behind a 200;
* `owner_writes`   **writes of challenges are owner-only and answered truthfully**.
-/

set_option linter.unusedVariables false
set_option linter.unusedSimpArgs false

namespace Store

open App

section
variable {now : Int} {k : Nat} {db db' : Db} {q : Query} {a i : Nat}

/-! ## one statement -/

/-- a challenge is changed or removed in the name of its creator -/
theorem Written.challenge_gone {row : ChallengeRow} (h : Written now k db q db' a i)
    (hrow : row ∈ db.challenges)
    (hgone : row ∉ db'.challenges) : q.isGuardedWrite = true ∧ row.creatorId ∈ q.users := by
  cases h with
  | insertUser hfree => exact absurd hrow hgone
  | insertChallenge hnext hmax hu => exact absurd (List.mem_append_left _ hrow) hgone
  | @updateChallenge name description flag genre id creatorId =>
    refine ⟨rfl, ?_⟩
    by_cases hhit : row.hit id creatorId = true
    · simp only [ChallengeRow.hit, Bool.and_eq_true, beq_iff_eq] at hhit
      rw [hhit.2]
      exact List.mem_singleton_self _
    · exact absurd (List.mem_map.2 ⟨row, hrow, by rw [if_neg hhit]⟩) hgone
  | @deleteChallenge id creatorId =>
    refine ⟨rfl, ?_⟩
    by_cases hhit : row.hit id creatorId = true
    · simp only [ChallengeRow.hit, Bool.and_eq_true, beq_iff_eq] at hhit
      rw [hhit.2]
      exact List.mem_singleton_self _
    · exact absurd (List.mem_filter.2 ⟨hrow, by simpa using hhit⟩) hgone
  | insertAnswer hnext hmax hc hu => exact absurd hrow hgone
  | deleteExpiredSessions => exact absurd hrow hgone
  | insertSession hfree hu => exact absurd hrow hgone
  | deleteSession => exact absurd hrow hgone

section
variable {name description flag : Bytes} {genre id : Nat} {creatorId : Bytes}

/-- an UPDATE that changed a row -/
theorem Written.updated (h : Written now k db
    (.updateChallenge name description flag genre id creatorId) db' a i)
    (ha : a = 1) : (⟨id, creatorId, name, description, flag, genre⟩ : ChallengeRow) ∈
    db'.challenges := by
  cases h
  have hpos := ha ▸ Nat.one_pos
  obtain ⟨row, hrow, hhit⟩ := List.countP_pos_iff.1 hpos
  simp only [Bool.and_eq_true] at hhit
  refine List.mem_map.2 ⟨row, hrow, ?_⟩
  rw [if_pos hhit.1]
  have heq := hhit.1
  simp only [ChallengeRow.hit, Bool.and_eq_true, beq_iff_eq] at heq
  rw [ChallengeRow.updated, heq.1, heq.2]

/-- after an UPDATE every row that it hit has the new values -/
theorem Written.updated_row
    (h : Written now k db (.updateChallenge name description flag genre id creatorId) db' a i)
    {row : ChallengeRow} (hrow : row ∈ db'.challenges) (hid : row.id = id)
    (hcreator : row.creatorId = creatorId) :
    row = ⟨id, creatorId, name, description, flag, genre⟩ := by
  cases h
  obtain ⟨old, hold, rfl⟩ := List.mem_map.1 hrow
  by_cases hhit : old.hit id creatorId = true
  · rw [if_pos hhit]
    simp only [ChallengeRow.hit, Bool.and_eq_true, beq_iff_eq] at hhit
    rw [ChallengeRow.updated, hhit.1, hhit.2]
  · rw [if_neg hhit] at hid hcreator
    simp only [ChallengeRow.hit, hid, hcreator, beq_self_eq_true, Bool.and_true,
      not_true_eq_false] at hhit

/-- a DELETE that removed a row -/
theorem Written.deleted (h : Written now k db (.deleteChallenge id creatorId) db' a i)
    (hk : Keyed db) (ha : a = 1) :
    (∃ row ∈ db.challenges, row.id = id ∧ row.creatorId = creatorId) ∧ ∀ row ∈ db'.challenges,
    row.id ≠ id := by
  cases h
  have hpos := ha ▸ Nat.one_pos
  obtain ⟨row, hrow, hhit⟩ := List.countP_pos_iff.1 hpos
  have heq := hhit
  simp only [ChallengeRow.hit, Bool.and_eq_true, beq_iff_eq] at heq
  refine ⟨⟨row, hrow, heq⟩, fun row' hrow' hid => ?_⟩
  obtain ⟨hmem, hno⟩ := List.mem_filter.1 hrow'
  have hsame : row' = row := List.inj_on_of_nodup_map hk.challenges hmem hrow (hid.trans heq.1.symm)
  rw [hsame, hhit] at hno
  cases hno

end

end

end Store

namespace System

open App Store
open Json (CreateChallengeRequest)

section
variable {lib : AuthLib} {passwords : PasswordLib} {runtime : Runtime} {dateFormat : Int → Bytes}
  {meets : Nat → Env → Prop} {db : Db} {w : World}

/-! ## what stands behind a status -/

/-- the executions of a PUT or DELETE that tells something -/
theorem writeStory_execs {again : Bool} {cid : Nat} {user : Bytes} {statement : Query}
    {status : HttpStatus}
    {l : List Execution} (h : WriteStory again cid user statement status (l.map Execution.effect)) :
    (∃ x r, x ∈ l ∧ x.effect = (.selectOwners, r) ∧ challengeWriteAccess r cid user ≠ .ok ∧
      status = (challengeWriteAccess r cid user).status) ∨
    (status = .ok ∧ ∃ x r, x ∈ l ∧ x.effect = (statement, r) ∧ r.success = true ∧ r.affected = 1) ∨
    (status = .ok ∧ again = true ∧ ∃ x y z rx ry rz, [x, y, z].Sublist l ∧
      x.effect = (.selectOwners, rx) ∧
      y.effect = (statement, ry) ∧ z.effect = (.selectOwners, rz) ∧
      challengeWriteAccess rx cid user = .ok ∧
      ry.success = true ∧ challengeWriteAccess rz cid user = .ok) := by
  generalize hl : l.map Execution.effect = es at h
  cases h with
  | denied r0 r1 ha hs =>
    simp only [List.map_eq_cons_iff, List.map_eq_nil_iff] at hl
    obtain ⟨x0, l0, rfl, h0, x1, l1, rfl, h1, rfl⟩ := hl
    exact .inl ⟨x1, r1, by simp, h1, ha, hs⟩
  | written r0 r1 r2 ha h2 hn hs =>
    simp only [List.map_eq_cons_iff, List.map_eq_nil_iff] at hl
    obtain ⟨x0, l0, rfl, h0, x1, l1, rfl, h1, x2, l2, rfl, h2', rfl⟩ := hl
    exact .inr (.inl ⟨hs, x2, r2, by simp, h2', h2, hn⟩)
  | repeated r0 r1 r2 r3 ha h2 hn hs hok =>
    simp only [List.map_eq_cons_iff, List.map_eq_nil_iff] at hl
    obtain ⟨x0, l0, rfl, h0, x1, l1, rfl, h1, x2, l2, rfl, h2', x3, l3, rfl, h3, rfl⟩ := hl
    by_cases hacc : challengeWriteAccess r3 cid user = .ok
    · exact .inr (.inr ⟨by rw [hs, hacc]; rfl, hok hacc, x1, x2, x3, r1, r2, r3,
        List.sublist_cons_self _ _, h1, h2', h3,
        ha, h2, hacc⟩)
    · exact .inl ⟨x3, r3, by simp, h3, hacc, hs⟩

theorem Access.status_ok {a : Access} (h : a.status = .ok) : a = .ok := by
  cases a <;> first | rfl | cases h

/-- **behind the 200 of a PUT** stands its UPDATE, after which the row has the values of the PUT -/
theorem put_done (hk : Keyed db) (h : Linked lib runtime dateFormat meets db w) {id : Nat}
    {client : Client}
    {r : Response} (ha : w.Answered id client r) (hm : client.request.IsChallenges .put)
    (hs : r.status = .ok) :
    ∃ cid input claims, readChallengeId client.request = some cid ∧
      client.request.NewChallenge input ∧
      .verified claims ∈ client.state.trace ∧ ∃ x ∈ w.execsFor id,
        x.query = .updateChallenge input.name input.description input.flag input.genre.code cid
        claims.userId ∧
        ⟨cid, claims.userId, input.name, input.description, input.flag, input.genre.code⟩ ∈
        x.after.challenges := by
  obtain ⟨g, cid, input, hver, hid, hb, hstory⟩ :=
    put_story (h.client ha.found).reach (chain_of_route hm.1 hm.2 (by decide +kernel)) ha.response
      (by rw [hs]; rfl)
  rw [← h.answered ha.found ha.response] at hstory
  refine ⟨cid, input, g.claims, hid, hb, hver, ?_⟩
  rcases writeStory_execs hstory with ⟨x, r1, -, -, hno, hst⟩ | ⟨-, x, r2, hx, he, h2, hn⟩ |
    ⟨-, -, x, y, z, r1, r2, r3, hsub, hx, hy, hz, h1, h2, h3⟩
  · exact absurd (Access.status_ok (hst.symm.trans hs)) hno
  · obtain ⟨k, hw⟩ := (h.exec hx he).written rfl h2
    exact ⟨x, hx, (Execution.effect_eq.1 he).1, hw.updated hn⟩
  · have hmem : ∀ e ∈ [x, y, z], e ∈ w.execsFor id := fun e he => hsub.subset he
    have hlog := hsub.trans (execsFor_sublist w id)
    have hxe := h.exec (hmem x (by simp)) hx
    have hye := h.exec (hmem y (by simp)) hy
    have hze := h.exec (hmem z (by simp)) hz
    obtain ⟨k, hw⟩ := hye.written rfl h2
    obtain ⟨first, hfirst, hfid, hfown⟩ := access_found hxe (.inl h1)
    obtain ⟨last, hlast, hlid, hlown⟩ := access_found hze (.inl h3)
    -- the id was given before the UPDATE, so the row that is there later was there then
    have hkx := (h.keyed hk (mem_of_execsFor (hmem x (by simp))).1).1
    have hgiven : cid < y.after.nextChallenge := by
      have h1 := hfid ▸ hkx.challengesBelow first hfirst
      have h2 := hxe.evolves.nextChallenge
      have h3 := (h.evolves (x := x) (y := y) (List.Sublist.trans (by simp) hlog)).nextChallenge
      have h4 := hye.evolves.nextChallenge
      omega
    obtain ⟨row, hrow, hrid, hrown⟩ :=
      (h.evolves (x := y) (y := z) (List.Sublist.trans (by simp) hlog)).challenges last hlast
        (hlid ▸ hgiven)
    refine ⟨y, hmem y (by simp), (Execution.effect_eq.1 hy).1, ?_⟩
    rw [← hw.updated_row hrow (hrid.trans hlid) (hrown.trans (hlown.1 h3))]
    exact hrow

/-- **behind the 200 of a DELETE** stands its DELETE, which removed the row -/
theorem delete_done (hk : Keyed db) (h : Linked lib runtime dateFormat meets db w) {id : Nat}
    {client : Client}
    {r : Response} (ha : w.Answered id client r) (hm : client.request.IsChallenges .delete)
    (hs : r.status = .ok) :
    ∃ cid claims, readChallengeId client.request = some cid ∧ .verified claims ∈
      client.state.trace ∧
      ∃ x ∈ w.execsFor id, x.query = .deleteChallenge cid claims.userId ∧
        (∃ row ∈ x.before.challenges, row.id = cid ∧ row.creatorId = claims.userId) ∧
        ∀ row ∈ x.after.challenges, row.id ≠ cid := by
  obtain ⟨g, cid, hver, hid, hstory⟩ :=
    delete_story (h.client ha.found).reach
      (chain_of_route hm.1 hm.2 (by decide +kernel)) ha.response
      (by rw [hs]; rfl)
  rw [← h.answered ha.found ha.response] at hstory
  refine ⟨cid, g.claims, hid, hver, ?_⟩
  rcases writeStory_execs hstory with ⟨x, r1, -, -, hno, hst⟩ | ⟨-, x, r2, hx, he, h2, hn⟩
    | ⟨-, hfalse, -⟩
  · exact absurd (Access.status_ok (hst.symm.trans hs)) hno
  · obtain ⟨k, hw⟩ := (h.exec hx he).written rfl h2
    exact ⟨x, hx, (Execution.effect_eq.1 he).1, hw.deleted (h.keyed hk (mem_of_execsFor hx).1).1 hn⟩
  · cases hfalse

/-- a challenge that a DELETE removed is not there at a later one -/
theorem delete_once (hk : Keyed db) (h : Linked lib runtime dateFormat meets db w) {cid : Nat}
    {x y : Execution}
    (hxy : [x, y].Sublist (executions w.log)) (hx : ∃ row ∈ x.before.challenges, row.id = cid)
    (hgone : ∀ row ∈ x.after.challenges, row.id ≠ cid)
    (hy : ∃ row ∈ y.before.challenges, row.id = cid) : False := by
  obtain ⟨row, hrow, hid⟩ := hx
  obtain ⟨late, hlate, hlid⟩ := hy
  have hxm : x ∈ executions w.log := hxy.subset (by simp)
  have hlt := (h.keyed hk hxm).1.challengesBelow row hrow
  have hle := (h.sound x hxm).evolves.nextChallenge
  obtain ⟨old, hold, hoid, -⟩ := (h.evolves hxy).challenges late hlate (by omega)
  exact hgone old hold (hoid.trans hlid)

/-- **403 and 404** are answers to what one of the SELECTs of the request saw -/
theorem access_denied (h : Linked lib runtime dateFormat meets db w) {id : Nat} {client : Client}
    {r : Response} (ha : w.Answered id client r)
    (hm : client.request.IsChallenges .post ∨ client.request.IsChallenges .put ∨
      client.request.IsChallenges .delete)
    (hs : r.status = .forbidden ∨ r.status = .notFound) :
    ∃ cid claims, readChallengeId client.request = some cid ∧ .verified claims ∈
      client.state.trace ∧
      ∃ x ∈ w.execsFor id, x.query = .selectOwners ∧
        (r.status = .forbidden → ∃ row ∈ x.before.challenges, row.id = cid ∧ row.creatorId ≠
          claims.userId) ∧
        (r.status = .notFound → ∀ row ∈ x.before.challenges, row.id ≠ cid) := by
  have htells : r.status.tells = true := by rcases hs with hs | hs <;> rw [hs] <;> rfl
  have hreach := (h.client ha.found).reach
  have hnot : r.status ≠ .ok := by rcases hs with hs | hs <;> rw [hs] <;> simp
  -- what the two kinds of requests have in common
  have hstory : ∃ (g : Passed lib runtime client.request) (cid : Nat) (again :
    Bool) (statement : Query),
      .verified g.claims ∈ client.state.trace ∧ readChallengeId client.request = some cid ∧
      WriteStory again cid g.claims.userId statement r.status (executed client.state.trace) := by
    rcases hm with hm | hm | hm
    · have := post_story hreach (chain_of_route hm.1 hm.2 (by decide +kernel)) ha.response
      rw [this] at htells
      cases htells
    · obtain ⟨g, cid, input, hver, hid, -, hst⟩ :=
        put_story hreach (chain_of_route hm.1 hm.2 (by decide +kernel)) ha.response htells
      exact ⟨g, cid, _, _, hver, hid, hst⟩
    · obtain ⟨g, cid, hver, hid, hst⟩ :=
        delete_story hreach (chain_of_route hm.1 hm.2 (by decide +kernel)) ha.response htells
      exact ⟨g, cid, _, _, hver, hid, hst⟩
  obtain ⟨g, cid, again, statement, hver, hid, hstory⟩ := hstory
  rw [← h.answered ha.found ha.response] at hstory
  refine ⟨cid, g.claims, hid, hver, ?_⟩
  rcases writeStory_execs hstory with ⟨x, r1, hx, he, hno, hst⟩ | ⟨hok, -⟩ | ⟨hok, -⟩
  · refine ⟨x, hx, (Execution.effect_eq.1 he).1, fun hf => ?_, fun hn => ?_⟩
    · have hacc : challengeWriteAccess r1 cid g.claims.userId = .forbidden := by
        cases hc : challengeWriteAccess r1 cid g.claims.userId <;> rw [hc, hf] at hst <;>
          first | rfl | cases hst
      obtain ⟨row, hrow, hrid, hiff⟩ := access_found (h.exec hx he) (.inr hacc)
      exact ⟨row, hrow, hrid, fun heq => hno (hiff.2 heq)⟩
    · have hacc : challengeWriteAccess r1 cid g.claims.userId = .notFound := by
        cases hc : challengeWriteAccess r1 cid g.claims.userId <;> rw [hc, hn] at hst <;>
          first | rfl | cases hst
      exact access_notFound (h.exec hx he) hacc
  · exact absurd hok hnot
  · exact absurd hok hnot

/-! ## the main result -/

/-- writes of challenges are owner-only and answered truthfully -/
structure OwnerWrites (w : World) : Prop where
  /-- a challenge is changed or removed for its creator only, whose token was checked -/
  owner : ∀ x ∈ executions w.log, ∀ row ∈ x.before.challenges, row ∉ x.after.challenges →
    ∃ client claims, w.clients x.id = some client ∧ .verified claims ∈ client.state.trace ∧
      claims.userId = row.creatorId
  /-- after the UPDATE of a PUT that is answered 200 its user's row has the values of the PUT -/
  put : ∀ id client r, w.Answered id client r → client.request.IsChallenges .put → r.status = .ok →
    ∃ cid input claims, readChallengeId client.request = some cid ∧
    client.request.NewChallenge input ∧
      .verified claims ∈ client.state.trace ∧ ∃ x ∈ w.execsFor id,
        x.query = .updateChallenge input.name input.description input.flag input.genre.code cid
        claims.userId ∧
        ⟨cid, claims.userId, input.name, input.description, input.flag, input.genre.code⟩ ∈
        x.after.challenges
  /-- the DELETE of a request that is answered 200 removed the row -/
  delete : ∀ id client r, w.Answered id client r → client.request.IsChallenges .delete →
    r.status = .ok →
    ∃ cid claims, readChallengeId client.request = some cid ∧ .verified claims ∈
    client.state.trace ∧
      ∃ x ∈ w.execsFor id, x.query = .deleteChallenge cid claims.userId ∧
        (∃ row ∈ x.before.challenges, row.id = cid ∧ row.creatorId = claims.userId) ∧
        ∀ row ∈ x.after.challenges, row.id ≠ cid
  /-- at most one DELETE of a challenge is answered 200 -/
  once : ∀ id client r id' client' r', w.Answered id client r → w.Answered id' client' r' →
    client.request.IsChallenges .delete → client'.request.IsChallenges .delete → r.status = .ok →
    r'.status = .ok →
    readChallengeId client.request = readChallengeId client'.request → id = id'
  /-- 403 and 404 are what one of the SELECTs of the request saw -/
  denied : ∀ id client r, w.Answered id client r →
    client.request.IsChallenges .post ∨ client.request.IsChallenges .put ∨
    client.request.IsChallenges .delete →
    r.status = .forbidden ∨ r.status = .notFound →
    ∃ cid claims, readChallengeId client.request = some cid ∧ .verified claims ∈
    client.state.trace ∧
      ∃ x ∈ w.execsFor id, x.query = .selectOwners ∧
        (r.status = .forbidden → ∃ row ∈ x.before.challenges, row.id = cid ∧ row.creatorId ≠
          claims.userId) ∧
        (r.status = .notFound → ∀ row ∈ x.before.challenges, row.id ≠ cid)

/-- **writes of challenges are owner-only and answered truthfully**, in whatever order the stages of
the requests interleave -/
theorem owner_writes (hk : Keyed db) (hrun : Run lib passwords runtime dateFormat meets db w) :
    OwnerWrites w := by
  have h := hrun.linked
  refine ⟨?_, fun id client r ha hm hs => put_done hk h ha hm hs, fun id client r ha hm hs =>
    delete_done hk h ha hm hs,
    ?_, fun id client r ha hm hs => access_denied h ha hm hs⟩
  · intro x hx row hrow hgone
    rcases (h.sound x hx).cases with ⟨heq, -⟩ | ⟨-, -, k, hw⟩
    · exact absurd (heq ▸ hrow) hgone
    · obtain ⟨hg, hu⟩ := hw.challenge_gone hrow hgone
      obtain ⟨client, claims, hc, hver, hall⟩ := h.verified hx hg
      exact ⟨client, claims, hc, hver, (hall _ hu).symm⟩
  · intro id client r id' client' r' ha ha' hm hm' hs hs' hsame
    obtain ⟨cid, claims, hid, -, x, hx, -, ⟨row, hrow, hrid, -⟩, hgone⟩ := delete_done hk h ha hm hs
    obtain ⟨cid', claims', hid', -, y, hy, -, ⟨row', hrow', hrid', -⟩, hgone'⟩ :=
      delete_done hk h ha' hm' hs'
    obtain rfl : cid = cid' := by rw [hid, hid'] at hsame; exact Option.some.inj hsame
    by_contra hne
    have hxm := mem_of_execsFor hx
    have hym := mem_of_execsFor hy
    have hxy : x ≠ y := fun heq => hne (hxm.2.symm.trans (heq ▸ hym.2))
    rcases History.ordered_of_ne hxm.1 hym.1 hxy with hord | hord
    · exact delete_once hk h hord ⟨row, hrow, hrid⟩ hgone ⟨row', hrow', hrid'⟩
    · exact delete_once hk h hord ⟨row', hrow', hrid'⟩ hgone' ⟨row, hrow, hrid⟩

end

/-! ## a PUT -/

def samplePut : Request :=
  { sampleLogout with
    method := .put
    uri := ascii "/challenges"
    queryParams := [(ascii "id", ascii "1")]
    body := ascii "\x7b\"name\":\"n\",\"description\":\"d\",\"flag\":\"f\",\"genre\":\"pwn\"\x7d" }

theorem owner_writes_put :
    ((serveSample samplePut 3).responses 1).map Response.status = [.ok] ∧ OwnerWrites
    (serveSample samplePut 3) :=
  ⟨by decide +kernel, owner_writes sampleDb_keyed (serveSample_run samplePut 3)⟩

end System

import CtfServer.System.Sessions

/-!
# The life of a session

The request that carries a token is verified when both of its readings fall in the window of the
token and the row of the session is in the table in between.

* `Run.accepted`, `Run.verifies`   **the two directions**;
* `Run.logged_out`                 after a logout;
* `Run.cleaned_up`                 after a cleanup;
* `session_lifecycle`              **all of it**.
-/

set_option linter.unusedVariables false
set_option linter.unusedSimpArgs false

namespace System

open App Store

section
variable {lib : AuthLib} {passwords : PasswordLib} {runtime : Runtime} {dateFormat : Int → Bytes}
  {meets : Nat → Env → Prop} {db : Db} {w : World} {encode64 : Bytes → Option Bytes}
  {dump : List (Bytes × JsonValue) → Option Bytes} {hmac : Bytes → Bytes → Bytes} {login id : Nat}
  {client : Client}
  {token userId sid : Bytes} {t0 : Int}

/-! ## who is verified -/

/-- **a request that is verified read the clock in the window, and the row in between** -/
theorem Run.accepted (h : Run lib passwords runtime dateFormat meets db w)
    (hlib : lib.Decodes encode64 dump hmac)
    (hclock : Clocked w.log) (hissued : Issued lib runtime w login token userId sid t0)
    (hcarries : Carries w id client token) {claims : AuthClaims}
    (hv : .verified claims ∈ client.state.trace) :
    claims = issuedClaims runtime.config userId sid t0 ∧
      ∃ now1 now2 more x execs, clocksOf client.state.trace = now1 :: now2 :: more ∧
      Window runtime t0 now1 ∧
        Window runtime t0 now2 ∧ w.execsFor id = x :: execs ∧ x.query = .selectSessions ∧
        rowOf runtime sid userId t0 ∈ x.before.sessions := by
  obtain ⟨stages, hchain⟩ := hcarries.guarded
  obtain ⟨g, rest, x, more, ht, hclaims, hexecs, hq, hreadings, hrow⟩ :=
    h.passed hcarries.found hchain hv
  have htoken : g.token = token := by
    have hcarried := g.carried
    rw [hcarries.token] at hcarried
    exact (Option.some.inj hcarried).symm
  have hdated : Dated g.now := hclock.dated _ (hreadings.subset List.mem_cons_self)
  obtain ⟨alloc, hverify⟩ := g.verified
  have hok := authTokenVerify_enough hverify
  rw [htoken] at hok
  have hverdict := verify_issued hlib hissued hdated
  have hw : Window runtime t0 g.now := by
    by_contra hno
    rw [hverdict.2 hno] at hok
    cases hok
  have hc : g.claims = issuedClaims runtime.config userId sid t0 := by
    rw [hverdict.1 hw] at hok
    exact (Except.ok.inj hok).symm
  have hlater : Window runtime t0 g.later := by
    have hrun := g.running
    have hstart := g.started
    rw [hc] at hrun hstart
    simp only [issuedClaims, AUTH_CLOCK_SKEW] at hrun hstart
    exact ⟨by omega, by omega⟩
  rw [← hclaims, hc] at hrow
  refine ⟨hclaims ▸ hc, g.now, g.later, clocksOf rest, x, more, ?_, hw, hlater, hexecs, hq, hrow⟩
  rw [ht]
  rfl

/-- **a request that read the clock in the window, and the row in between, is verified** -/
theorem Run.verifies (h : Run lib passwords runtime dateFormat meets db w)
    (hlib : lib.Decodes encode64 dump hmac)
    (hclock : Clocked w.log) (hids : FreshIds db w.log)
    (hissued : Issued lib runtime w login token userId sid t0)
    (hcarries : Carries w id client token) (hun : Unfailing meets w id) {now1 now2 : Int}
    {more : List Int}
    {x : Execution} {execs : List Execution}
    (hclocks : clocksOf client.state.trace = now1 :: now2 :: more)
    (hw1 : Window runtime t0 now1) (hw2 : Window runtime t0 now2)
    (hexecs : w.execsFor id = x :: execs)
    (hrow : rowOf runtime sid userId t0 ∈ x.before.sessions) :
    ∃ claims, .verified claims ∈ client.state.trace := by
  obtain ⟨stages, hchain⟩ := hcarries.guarded
  cases Reach.checkTrace hchain (h.linked.client hcarries.found).reach with
  | early hc hno hr =>
    rw [hclocks] at hc
    simp only [List.length_cons] at hc
    omega
  | passed g more hno ht => exact ⟨g.claims, by simp [ht, Passed.trace]⟩
  | refused a r env hmeets response hno ht =>
    exfalso
    obtain ⟨x', execs', hexecs', hq, hres, hreadings⟩ := h.second_reading hcarries.found ht
    rw [hexecs] at hexecs'
    cases hexecs'
    have hclk : clocksOf client.state.trace = [a.now, env.now] := by
      rw [ht]
      rfl
    rw [hclocks] at hclk
    cases hclk
    have hdated : ∀ now ∈ [a.now, x.now, env.now], Dated now := fun now hnow =>
      hclock.dated now (hreadings.subset hnow)
    have hordered : x.now ≤ env.now := by
      have hpair := hclock.ordered.sublist hreadings
      simp only [List.pairwise_cons, List.mem_cons, List.not_mem_nil, or_false] at hpair
      exact hpair.2.1 env.now rfl
    -- the claims are those of the token
    have htoken : a.token = token := by
      have hcarried := a.carried
      rw [hcarries.token] at hcarried
      exact (Option.some.inj hcarried).symm
    obtain ⟨alloc, hverify⟩ := a.verified
    have hok := authTokenVerify_enough hverify
    rw [htoken, (verify_issued hlib hissued (hdated a.now List.mem_cons_self)).1 hw1] at hok
    have hclaims : a.claims = issuedClaims runtime.config userId sid t0 := (Except.ok.inj hok).symm
    -- the row is found
    have hxm : x ∈ w.execsFor id := hexecs ▸ List.mem_cons_self
    obtain ⟨front, back, hsplit⟩ := List.append_of_mem (mem_of_execsFor hxm).1
    have hstart : rowOf runtime sid userId t0 ∉ db.sessions := fun hmem =>
      hids.fresh _ hmem (h.issued_generated hissued)
    obtain ⟨-, -, -, user⟩ := h.linked.inserted_before hsplit hstart hrow
    have halloc : env.alloc .rows = true := (hun.serves env hmeets).alloc _
    cases hb : bindAuthSessions true x.result with
    | none => exact hun.bound x hxm hq hb
    | some sessions =>
      refine hno sessions (by rw [halloc, ← hres, hb]) ⟨(hdated _ (by simp)).1, ?_, ?_, ?_⟩
      · refine session_selected (h.linked.exec hxm (Execution.effect_eq.2 ⟨hq, rfl⟩)) hb hrow ?_
          user (by rw [hclaims]; rfl)
        have := hw2.2
        simp only [rowOf, AUTH_CLOCK_SKEW]
        omega
      · rw [hclaims]
        exact hw2.2
      · have := hw2.1
        rw [hclaims]
        simp only [issuedClaims, AUTH_CLOCK_SKEW]
        omega

/-! ## the readings -/

/-- **the first reading decides whether the sessions are read** -/
theorem Run.asks (h : Run lib passwords runtime dateFormat meets db w)
    (hlib : lib.Decodes encode64 dump hmac)
    (hclock : Clocked w.log) (hissued : Issued lib runtime w login token userId sid t0)
    (hcarries : Carries w id client token) (hun : Unfailing meets w id) :
    ∃ now more, clocksOf client.state.trace = now :: more ∧
      (Window runtime t0 now → .query .selectSessions ∈ client.state.trace) ∧
      (¬ Window runtime t0 now →
        .respond { status := .unauthorized, bearerChallenge := true, noStore := true } ∈
        client.state.trace) := by
  obtain ⟨stages, hchain⟩ := hcarries.guarded
  obtain ⟨env, hmeets, rest, hrest⟩ := Reach.dispatched (h.linked.client hcarries.found).reach
  have hserves := hun.serves env hmeets
  obtain ⟨⟨more, hfirst⟩, hok, hinvalid⟩ := @dispatch_asks lib runtime _ _ hchain _ hserves _
    hcarries.token
  have hsub : ∀ e ∈ (dispatch lib runtime env client.request).events,
    e ∈ client.state.trace := fun e he =>
    hrest ▸ List.mem_append_left _ he
  have hread : env.now ∈ readings w.log := by
    obtain ⟨events, hcall, hmem⟩ := h.storied.logged hcarries.found
      (hsub (.clock env.now) (by simp [hfirst])) rfl
    exact List.mem_flatMap.2 ⟨_, hcall, List.mem_filterMap.2 ⟨_, hmem, rfl⟩⟩
  have hdated := hclock.dated _ hread
  have halloc : env.alloc = fun _ => true := funext hserves.alloc
  rw [halloc] at hok hinvalid
  have hverdict := verify_issued hlib hissued hdated
  refine ⟨env.now, clocksOf (more ++ rest), ?_, fun hw => ?_, fun hw => ?_⟩
  · rw [← hrest, hfirst]
    rfl
  · exact hsub _ (by simp [hok hdated.1 _ (hverdict.1 hw)])
  · exact hsub _ (by simp [hinvalid hdated.1 (hverdict.2 hw)])

/-- what a request was told was executed for it -/
theorem Run.executed_for (h : Run lib passwords runtime dateFormat meets db w)
    (hc : w.clients id = some client) {q : Query}
    {r : DbResult} (hr : .completed q r ∈ client.state.trace) :
    ∃ x ∈ w.execsFor id, x.query = q ∧ x.result = r := by
  have hmem : (q, r) ∈ (w.execsFor id).map Execution.effect := by
    rw [(h.linked.client hc).execs]
    exact List.mem_append_left _ (List.mem_filterMap.2 ⟨_, hr, rfl⟩)
  obtain ⟨x, hx, heffect⟩ := List.mem_map.1 hmem
  exact ⟨x, hx, Execution.effect_eq.1 heffect⟩

/-- **what was read of the sessions leads to the second reading** -/
theorem Run.reads (h : Run lib passwords runtime dateFormat meets db w)
    (hcarries : Carries w id client token)
    (hun : Unfailing meets w id) {r : DbResult}
    (hr : .completed .selectSessions r ∈ client.state.trace) :
    ∃ now1 now2 more, clocksOf client.state.trace = now1 :: now2 :: more := by
  obtain ⟨stages, hchain⟩ := hcarries.guarded
  cases Reach.checkTrace hchain (h.linked.client hcarries.found).reach with
  | early hc hno hbind =>
    obtain ⟨env, hmeets, hnone⟩ := hbind r hr
    obtain ⟨x, hx, hq, rfl⟩ := h.executed_for hcarries.found hr
    rw [(hun.serves env hmeets).alloc] at hnone
    exact absurd hnone (hun.bound x hx hq)
  | refused a r env hmeets response hno ht => exact ⟨a.now, env.now, [], by rw [ht]; rfl⟩
  | passed g rest hno ht => exact ⟨g.now, g.later, clocksOf rest, by rw [ht]; rfl⟩

/-! ## the row -/

/-- **the row comes with the INSERT of its login** -/
theorem Run.appears (h : Run lib passwords runtime dateFormat meets db w) (hids : FreshIds db w.log)
    (hissued : Issued lib runtime w login token userId sid t0) {x : Execution}
    (hx : x ∈ executions w.log)
    {row : Store.SessionRow} (hrow : row.id = sid) (hbefore : row ∉ x.before.sessions)
    (hafter : row ∈ x.after.sessions) :
    row = rowOf runtime sid userId t0 ∧ x.id = login ∧
      x.query = .insertSession sid userId t0 (t0 + runtime.config.ttl) := by
  obtain ⟨hq, -⟩ := session_added (h.linked.sound x hx) hbefore hafter
  rw [hrow] at hq
  obtain ⟨hid, hq'⟩ := h.inserter hids hissued hx hq
  rw [hq] at hq'
  injection hq' with _ huser hissuedAt hexpires
  refine ⟨?_, hid, by rw [hq, huser, hissuedAt, hexpires]⟩
  cases row
  simp only at hrow huser hissuedAt hexpires
  rw [hrow, huser, hissuedAt, hexpires]
  rfl

/-- **the row goes with a logout of its session, or with the cleanup of a login** -/
theorem Run.disappears (h : Run lib passwords runtime dateFormat meets db w) {x : Execution}
    (hx : x ∈ executions w.log) {row : Store.SessionRow} (hbefore : row ∈ x.before.sessions)
    (hafter : row ∉ x.after.sessions) :
    ∃ client, w.clients x.id = some client ∧
      (x.query = .deleteSession row.id row.userId ∧ IsLogout client.request ∧
          (∃ claims, .verified claims ∈ client.state.trace ∧ claims.sessionId = row.id ∧
            claims.userId = row.userId) ∨
        x.query = .deleteExpiredSessions ∧ IsLogin client.request ∧ row.expiresAt +
          30 ≤ x.now) := by
  obtain ⟨client, hc, hmem⟩ := h.linked.requested hx
  obtain ⟨s, hw, hp, hpre⟩ := Reach.waitedFor (h.linked.client hc).reach hmem
  refine ⟨client, hc, ?_⟩
  rcases session_removed (h.linked.sound x hx) hbefore hafter with hq | ⟨hq, hnow⟩
  · rw [hq] at hp
    obtain ⟨hchain, claims, hv, hids⟩ := Waiting.logsOut hw hp
    exact .inl ⟨hq, isLogout_of_chain hchain, claims, hpre.subset hv, hids⟩
  · rw [hq] at hp
    exact .inr ⟨hq, Waiting.cleans hw hp, hnow⟩

/-- **after its logout a session is not found any more** -/
theorem Run.logged_out (h : Run lib passwords runtime dateFormat meets db w)
    (hids : FreshIds db w.log)
    (hissued : Issued lib runtime w login token userId sid t0) {x y : Execution}
    (hxy : [x, y].Sublist (executions w.log)) (hq : x.query = .deleteSession sid userId)
    (hr : x.result.success = true) : rowOf runtime sid userId t0 ∉ y.before.sessions := by
  intro hrow
  obtain ⟨front', back', hsplit', hxfront, hy⟩ := List.cons_sublist_iff.1 hxy
  obtain ⟨front, mid, rfl⟩ := List.append_of_mem hxfront
  obtain ⟨mid', back, rfl⟩ := List.append_of_mem (List.singleton_sublist.1 hy)
  have hsplit : executions w.log = front ++ x :: (mid ++ mid' ++ y :: back) := by simp [hsplit']
  have hx : x ∈ executions w.log := hsplit ▸ List.mem_append_right _ List.mem_cons_self
  -- the request that logs out found the session, so it was inserted before
  obtain ⟨client, hc, hmem⟩ := h.linked.requested hx
  obtain ⟨s, hw, hp, hpre⟩ := Reach.waitedFor (h.linked.client hc).reach hmem
  rw [hq] at hp
  obtain ⟨hchain, claims, hv, hsid, -⟩ := Waiting.logsOut hw hp
  obtain ⟨-, -, x0, more, -, -, hexecs, hq0, -, hrow0⟩ := h.passed hc hchain (hpre.subset hv)
  rw [hsid] at hrow0
  have hx0 : x0 ∈ front := by
    unfold World.execsFor at hexecs
    rw [hsplit, List.filter_append, List.filter_cons_of_pos (by simp)] at hexecs
    cases hf : front.filter (fun z => z.id == x.id) with
    | nil =>
      rw [hf] at hexecs
      have : x = x0 := (List.cons.inj hexecs).1
      rw [this, hq0] at hq
      cases hq
    | cons z l =>
      rw [hf] at hexecs
      have : z = x0 := (List.cons.inj hexecs).1
      exact this ▸ (List.mem_filter.1 (hf ▸ List.mem_cons_self)).1
  obtain ⟨f1, f2, rfl⟩ := List.append_of_mem hx0
  have hsplit0 : executions w.log = f1 ++ x0 :: (f2 ++ x :: (mid ++ mid' ++ y :: back)) := by
    rw [hsplit, List.append_assoc]
    rfl
  obtain ⟨y0, hy0, hq0, -⟩ := h.linked.inserted_before hsplit0
    (fun hmem => hids.fresh _ hmem (h.issued_generated hissued)) hrow0
  -- after the DELETE it would have to be inserted again
  have hchained := h.linked.chained
  rw [hsplit] at hchained
  obtain ⟨u, -, rfl, hafter⟩ := History.chained_append.1 hchained
  obtain ⟨v, hmid, rfl, -⟩ := History.chained_append.1 hafter
  have hgone : rowOf runtime sid userId t0 ∉ x.after.sessions := fun hmem =>
    session_deleted (hq ▸ h.linked.sound x hx) hr _ hmem ⟨rfl, rfl⟩
  obtain ⟨z, hz, hqz, -⟩ :=
    inserted_of_chained hmid (fun z hz => h.linked.sound z
    (hsplit ▸ by simp only [List.mem_append, List.mem_cons] at hz ⊢; tauto))
    hgone hrow
  have hyz : [y0, z].Sublist (executions w.log) := by
    rw [hsplit]
    refine List.Sublist.append (show [y0].Sublist _ from List.singleton_sublist.2
      (List.mem_append_left _ hy0)) ?_
    exact List.singleton_sublist.2 (List.mem_cons_of_mem _ (List.mem_append_left _ hz))
  exact h.inserted_once hids hyz hq0 hqz

/-- **after a cleanup of the row no reading falls in the window** -/
theorem Run.cleaned_up (h : Run lib passwords runtime dateFormat meets db w)
    (hlib : lib.Decodes encode64 dump hmac)
    (hclock : Clocked w.log) (hissued : Issued lib runtime w login token userId sid t0)
    {front rest : List Entry}
    {x : Execution} (hsplit : w.log = front ++ .exec x :: rest)
    (hq : x.query = .deleteExpiredSessions)
    (hbefore : rowOf runtime sid userId t0 ∈ x.before.sessions)
    (hafter : rowOf runtime sid userId t0 ∉ x.after.sessions) :
    (∀ now ∈ readings rest, ¬ Window runtime t0 now) ∧
      ∀ id client, Carries w id client token → ∀ events, .call id events ∈ rest → ∀ claims,
      .verified claims ∉ events := by
  have hx : x ∈ executions w.log := by
    rw [hsplit, executions_append]
    exact List.mem_append_right _ List.mem_cons_self
  have hexpired : t0 + runtime.config.ttl + 30 ≤ x.now := by
    rcases session_removed (h.linked.sound x hx) hbefore hafter with hq' | ⟨-, hnow⟩
    · rw [hq] at hq'
      cases hq'
    · exact hnow
  have hlater : ∀ now ∈ readings rest, x.now ≤ now := by
    have hordered := hclock.ordered
    rw [hsplit, readings_append] at hordered
    exact (List.pairwise_cons.1 (List.pairwise_append.1 hordered).2.1).1
  have hout : ∀ now ∈ readings rest, ¬ Window runtime t0 now := by
    intro now hnow hw
    have := hlater now hnow
    have := hw.2
    omega
  refine ⟨hout, fun id client hcarries events hcall claims hv => ?_⟩
  have hcall' : .call id events ∈ w.log := hsplit ▸ List.mem_append_right _
    (List.mem_cons_of_mem _ hcall)
  obtain ⟨client', hc', htrace⟩ := h.storied.traced hcall' hv rfl
  obtain rfl : client' = client := by
    rw [hcarries.found] at hc'
    exact (Option.some.inj hc').symm
  obtain ⟨rfl, -⟩ := h.accepted hlib hclock hissued hcarries htrace
  obtain ⟨now, hnow, hlt⟩ := h.calls (P := fun events => ∀ claims, .verified claims ∈ events →
      ∃ now, .clock now ∈ events ∧ now < claims.expiresAt + AUTH_CLOCK_SKEW)
    (fun env request claims hv => ⟨env.now, dispatch_verified env request hv⟩)
    (fun env input ctx chain claims hv => ⟨env.now, runStages_verified env input ctx chain hv⟩)
    (fun claims hv => by cases List.mem_singleton.1 hv) id events hcall' _ hv
  have hread : now ∈ readings rest :=
    List.mem_flatMap.2 ⟨_, hcall, List.mem_filterMap.2 ⟨_, hnow, rfl⟩⟩
  have := hlater now hread
  simp only [issuedClaims, AUTH_CLOCK_SKEW] at hlt
  omega

end

/-! ## all of it -/

/-- the session `sid` of `userId`, whose token the login `login` issued at `t0` -/
structure SessionLifecycle (lib : AuthLib) (runtime : Runtime) (meets : Nat → Env → Prop)
    (db : Db) (w : World) (login : Nat) (token userId sid : Bytes) (t0 : Int) : Prop where
  /-- a request reads the clock; in the window it asks for the sessions, else it is refused -/
  asks : ∀ id client, Carries w id client token → Unfailing meets w id →
    ∃ now more, clocksOf client.state.trace = now :: more ∧
      (Window runtime t0 now → .query .selectSessions ∈ client.state.trace) ∧
      (¬ Window runtime t0 now →
        .respond { status := .unauthorized, bearerChallenge := true, noStore := true } ∈
        client.state.trace)
  /-- when it has the sessions, it reads the clock again -/
  reads : ∀ id client, Carries w id client token → Unfailing meets w id →
    ∀ r, .completed .selectSessions r ∈ client.state.trace →
      ∃ now1 now2 more, clocksOf client.state.trace = now1 :: now2 :: more
  /-- it is verified exactly when both readings are in the window and the row was in the table -/
  verified : ∀ id client, Carries w id client token → Unfailing meets w id →
    ((∃ claims, .verified claims ∈ client.state.trace) ↔
      ∃ now1 now2 more x execs, clocksOf client.state.trace = now1 :: now2 :: more ∧
      Window runtime t0 now1 ∧
        Window runtime t0 now2 ∧ w.execsFor id = x :: execs ∧ x.query = .selectSessions ∧
        rowOf runtime sid userId t0 ∈ x.before.sessions)
  /-- `identity->verified` is set exactly in the requests that are verified -/
  flag : ∀ id client, w.clients id = some client → ∀ claims,
    (client.state.ctx.authData = some ⟨claims, true⟩ ↔ .verified claims ∈ client.state.trace)
  absent : ∀ row ∈ db.sessions, row.id ≠ sid
  appears : ∀ x ∈ executions w.log, ∀ row : Store.SessionRow, row.id = sid →
    row ∉ x.before.sessions →
    row ∈ x.after.sessions → row = rowOf runtime sid userId t0 ∧ x.id = login ∧
      x.query = .insertSession sid userId t0 (t0 + runtime.config.ttl)
  disappears : ∀ x ∈ executions w.log, rowOf runtime sid userId t0 ∈ x.before.sessions →
    rowOf runtime sid userId t0 ∉ x.after.sessions →
    ∃ client, w.clients x.id = some client ∧
      (x.query = .deleteSession sid userId ∧ IsLogout client.request ∧
          (∃ claims, .verified claims ∈ client.state.trace ∧ claims.sessionId = sid ∧
            claims.userId = userId) ∨
        x.query = .deleteExpiredSessions ∧ IsLogin client.request)
  /-- after a cleanup of the row no reading falls in the window, and nobody is verified with the
  token -/
  cleanup : ∀ front x rest, w.log = front ++ .exec x :: rest → x.query = .deleteExpiredSessions →
    rowOf runtime sid userId t0 ∈ x.before.sessions → rowOf runtime sid userId t0 ∉
    x.after.sessions →
    (∀ now ∈ readings rest, ¬ Window runtime t0 now) ∧
      ∀ id client, Carries w id client token → ∀ events, .call id events ∈ rest →
        ∀ claims, .verified claims ∉ events
  /-- nobody is verified with the token whose sessions are read after a logout -/
  logout : ∀ x y, [x, y].Sublist (executions w.log) → x.query = .deleteSession sid userId →
    x.result.success = true →
    y.query = .selectSessions → ∀ client, Carries w y.id client token → ∀ claims,
    .verified claims ∉ client.state.trace

section
variable {lib : AuthLib} {passwords : PasswordLib} {runtime : Runtime} {dateFormat : Int → Bytes}
  {meets : Nat → Env → Prop} {db : Db} {w : World} {encode64 : Bytes → Option Bytes}
  {dump : List (Bytes × JsonValue) → Option Bytes} {hmac : Bytes → Bytes → Bytes} {login id : Nat}
  {token userId sid : Bytes} {t0 : Int}

/-- the SELECT of the sessions is the first execution of its request -/
theorem Linked.selectsSessions_first (h : Linked lib runtime dateFormat meets db w)
    {x y : Execution}
    {execs : List Execution} (hexecs : w.execsFor id = x :: execs) (hx : x.query = .selectSessions)
    (hy : y ∈ w.execsFor id) (hq : y.query = .selectSessions) : y = x := by
  have hle := h.selectsSessions_le id
  rw [hexecs] at hy hle
  rcases List.mem_cons.1 hy with hy | hy
  · exact hy
  · have hpos : 0 < execs.countP fun x => opSelectsSessions (.db x.query) :=
      List.countP_pos_iff.2 ⟨y, hy, by rw [hq]; rfl⟩
    rw [List.countP_cons_of_pos (by rw [hx]; rfl)] at hle
    omega

/-- **the life of a session** -/
theorem session_lifecycle (hlib : lib.Decodes encode64 dump hmac)
    (hrun : Run lib passwords runtime dateFormat meets db w) (hclock : Clocked w.log)
    (hids : FreshIds db w.log) (hissued : Issued lib runtime w login token userId sid t0) :
    SessionLifecycle lib runtime meets db w login token userId sid t0 where
  asks id client hcarries hun := hrun.asks hlib hclock hissued hcarries hun
  reads id client hcarries hun r hr := hrun.reads hcarries hun hr
  verified id client hcarries hun := by
    constructor
    · rintro ⟨claims, hv⟩
      exact (hrun.accepted hlib hclock hissued hcarries hv).2
    · rintro ⟨now1, now2, more, x, execs, hclocks, hw1, hw2, hexecs, -, hrow⟩
      exact hrun.verifies hlib hclock hids hissued hcarries hun hclocks hw1 hw2 hexecs hrow
  flag id client hc claims := (hrun.linked.client hc).reach.identity claims
  absent row hrow := by
    rintro rfl
    exact hids.fresh row hrow (hrun.issued_generated hissued)
  appears x hx row := hrun.appears hids hissued hx
  disappears x hx hbefore hafter := by
    obtain ⟨client, hc, hlogout | hcleanup⟩ := hrun.disappears hx hbefore hafter
    · exact ⟨client, hc, .inl hlogout⟩
    · exact ⟨client, hc, .inr ⟨hcleanup.1, hcleanup.2.1⟩⟩
  cleanup front x rest hsplit hq hbefore hafter := hrun.cleaned_up hlib hclock hissued hsplit hq
    hbefore hafter
  logout x y hxy hq hr hy client hcarries claims hv := by
    obtain ⟨-, now1, now2, more, z, execs, -, -, -, hexecs, hz, hrow⟩ :=
      hrun.accepted hlib hclock hissued hcarries hv
    have hym : y ∈ w.execsFor y.id :=
      mem_execsFor (hxy.subset (List.mem_cons_of_mem _ List.mem_cons_self))
    obtain rfl := hrun.linked.selectsSessions_first hexecs hz hym hy
    exact hrun.logged_out hids hissued hxy hq hr hrow

end

/-! ## one session -/

def tokenRuntime : Runtime := { sampleRuntime with config := TokenSample.config }

def tokenSession : IdBytes := ⟨List.replicate 16 17, rfl⟩

def tokenText : Bytes := compact TokenSample.head TokenSample.body TokenSample.signature

def tokenLogout : Request :=
  { method := .post, uri := ascii "/logout", headers :=
    [(ascii "Authorization", ascii "Bearer " ++ tokenText)] }

/-- a signup and a login at 1000, and a logout at 1010 -/
def lifeWorld : World :=
  (((World.start {}).serve TokenSample.lib tokenRuntime 1000 1 (sampleAccount (ascii "/signup"))
    (sampleRandom 0) 3).serve
    TokenSample.lib tokenRuntime 1000 2 (sampleAccount (ascii "/login")) tokenSession 4).serve
    TokenSample.lib tokenRuntime 1010 3 tokenLogout tokenSession 2

theorem lifeWorld_run :
    Run TokenSample.lib argonPasswords tokenRuntime intText (fun _ env => env.Serves)
    {} lifeWorld := by
  have hserves : ∀ (now : Int) (random : IdBytes),
    ({ sampleEnv now with random := some random } : Env).Serves :=
    fun now random => ⟨fun _ => rfl, rfl⟩
  exact serve_run (serve_run (serve_run .start 1 _ _ 3 fun _ => hserves _ _) 2 _ _ 4 fun _ =>
    hserves _ _) 3 _ _ 2
    fun _ => hserves _ _

/-- what the log of `lifeWorld` shows -/
theorem lifeWorld_log :
    readings lifeWorld.log = [1000, 1000, 1000, 1000, 1000, 1000, 1010, 1010, 1010, 1010] ∧
      generatedIds lifeWorld.log = [TokenSample.userId, TokenSample.sessionId] ∧
      .query (.insertSession TokenSample.sessionId TokenSample.userId 1000 4600) ∈
      lifeWorld.traceOf 2 := by
  decide +kernel

theorem session_lifecycle_logout :
    lifeWorld.db.sessions = [] ∧
      SessionLifecycle TokenSample.lib tokenRuntime (fun _ env => env.Serves) {} lifeWorld 2
      tokenText TokenSample.userId
        TokenSample.sessionId 1000 := by
  obtain ⟨hreadings, hgenerated, hquery⟩ := lifeWorld_log
  refine ⟨by decide +kernel, session_lifecycle TokenSample.lib_decodes lifeWorld_run ⟨?_, ?_⟩
    ⟨?_, List.forall_mem_nil _⟩
    ⟨⟨_, TokenSample.issued⟩, ?_⟩⟩
  · rw [hreadings]
    decide +kernel
  · rw [hreadings]
    decide +kernel
  · rw [hgenerated]
    decide +kernel
  · cases hc : lifeWorld.clients 2 with
    | none =>
      unfold World.traceOf at hquery
      rw [hc] at hquery
      cases hquery
    | some client =>
      rw [traceOf_some hc] at hquery
      exact ⟨client, rfl, hquery⟩

end System

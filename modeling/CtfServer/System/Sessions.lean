import Mathlib.Data.List.Pairwise
import CtfServer.Store.Sessions
import CtfServer.System.Accounts
import CtfServer.System.Story

/-!
# Sessions and their readings

The row of a session comes with the INSERT of its login.  A request that is verified has read the
clock, then the row, then the clock again.

* `Clocked`, `FreshIds`   one clock that never goes back, and ids that are never given twice;
* `Issued`, `Carries`     a token, the login that made it, and a request that carries it;
* `Linked.inserted_before`   behind a row of the table stands the INSERT of a login;
* `Run.inserted_once`     a session is inserted once;
* `Run.passed`            what a request that is verified has read.
-/

set_option linter.unusedVariables false
set_option linter.unusedSimpArgs false

namespace System

open App Store

/-! ## clocks and ids -/

/-- one clock for the server and its database: it shows dates, and it never goes back -/
structure Clocked (log : List Entry) : Prop where
  dated : ∀ now ∈ readings log, Dated now
  ordered : (readings log).Pairwise (· ≤ ·)

def generatedOf (events : List Event) : List Bytes :=
  events.filterMap fun
    | .generated id => some id
    | _ => none

/-- the ids that were generated -/
def generatedIds (log : List Entry) : List Bytes :=
  log.flatMap fun
    | .call _ events => generatedOf events
    | .exec _ => []

/-- no id was generated twice, or is that of a session from before -/
structure FreshIds (db : Db) (log : List Entry) : Prop where
  nodup : (generatedIds log).Nodup
  fresh : ∀ row ∈ db.sessions, row.id ∉ generatedIds log

theorem mem_generatedOf {id : Bytes} {events : List Event} :
    id ∈ generatedOf events ↔ .generated id ∈ events := by
  unfold generatedOf
  rw [List.mem_filterMap]
  constructor
  · rintro ⟨e, he, heq⟩
    cases e <;> cases heq
    exact he
  · exact fun h => ⟨_, h, rfl⟩

theorem mem_generatedIds {id : Bytes} {log : List Entry} :
    id ∈ generatedIds log ↔ ∃ i events, .call i events ∈ log ∧ .generated id ∈ events := by
  unfold generatedIds
  rw [List.mem_flatMap]
  constructor
  · rintro ⟨entry, hentry, hmem⟩
    cases entry with
    | call i events => exact ⟨i, events, hentry, mem_generatedOf.1 hmem⟩
    | exec x => cases hmem
  · rintro ⟨i, events, hentry, hmem⟩
    exact ⟨_, hentry, mem_generatedOf.2 hmem⟩

/-- an id is that of one request -/
theorem generated_once {log : List Entry} (h : (generatedIds log).Nodup) {id : Bytes} {i j : Nat}
    {events events' : List Event} (hi : .call i events ∈ log) (hid : .generated id ∈ events)
    (hj : .call j events' ∈ log) (hjd : .generated id ∈ events') : i = j := by
  by_contra hne
  unfold generatedIds at h
  obtain ⟨-, hpair⟩ := List.nodup_flatMap.1 h
  have hsymm : Std.Symm (Function.onFun List.Disjoint fun entry : Entry =>
      match entry with
      | .call _ events => generatedOf events
      | .exec _ => []) := ⟨fun _ _ hd _ ha hb => hd hb ha⟩
  have hdisjoint := hpair.forall hi hj fun heq => hne (Entry.call.inj heq).1
  exact hdisjoint (mem_generatedOf.2 hid) (mem_generatedOf.2 hjd)

/-! ## tokens -/

section
variable (lib : AuthLib) (runtime : Runtime)

/-- the window of a token that was issued at `t0` -/
def Window (t0 now : Int) : Prop := t0 - 30 ≤ now ∧ now < t0 + runtime.config.ttl + 30

/-- the row of a session that starts at `t0` -/
def rowOf (sid userId : Bytes) (t0 : Int) : Store.SessionRow :=
  ⟨sid, userId, t0, t0 + runtime.config.ttl⟩

/-- the login `login` made `token` at `t0`, and asked for the row of its session -/
structure Issued (w : World) (login : Nat) (token userId sid : Bytes) (t0 : Int) : Prop where
  token : ∃ alloc, authTokenIssue lib alloc runtime.config userId sid t0 = .ok token
  login : ∃ client, w.clients login = some client ∧
    .query (.insertSession sid userId t0 (t0 + runtime.config.ttl)) ∈ client.state.trace

end

/-- request `id` carries the token in its one `Authorization` header, on a route behind the check -/
structure Carries (w : World) (id : Nat) (client : Client) (token : Bytes) : Prop where
  found : w.clients id = some client
  token : client.request.token = some token
  guarded : ∃ rest, client.request.chain = .auth1 :: .auth2 :: rest

/-- request `id` meets no failure of an allocation or of the database -/
structure Unfailing (meets : Nat → Env → Prop) (w : World) (id : Nat) : Prop where
  serves : ∀ env, meets id env → env.Serves
  bound : ∀ x ∈ w.execsFor id, x.query = .selectSessions → bindAuthSessions true x.result ≠ none

section
variable {lib : AuthLib} {passwords : PasswordLib} {runtime : Runtime} {dateFormat : Int → Bytes}
  {meets : Nat → Env → Prop} {db : Db} {w : World}

theorem authTokenIssue_enough {alloc : Alloc → Bool} {config : AuthConfig}
    {userId sessionId token : Bytes} {now : Int}
    (h : authTokenIssue lib alloc config userId sessionId now = .ok token) :
    authTokenIssue lib (fun _ => true) config userId sessionId now = .ok token := by
  unfold authTokenIssue at h ⊢
  split at h
  · cases h
  next hvalid =>
  rw [if_neg hvalid, if_neg (by decide)]
  split at h
  · cases h
  · exact h

/-- the verdict on an issued token -/
theorem verify_issued {encode64 : Bytes → Option Bytes}
    {dump : List (Bytes × JsonValue) → Option Bytes}
    {hmac : Bytes → Bytes → Bytes} (hlib : lib.Decodes encode64 dump hmac) {login : Nat}
    {token userId sid : Bytes}
    {t0 now : Int} (h : Issued lib runtime w login token userId sid t0) (hnow : Dated now) :
    (Window runtime t0 now → authTokenVerify lib (fun _ => true) runtime.config token now =
        .ok (issuedClaims runtime.config userId sid t0)) ∧
      (¬ Window runtime t0 now → authTokenVerify lib (fun _ => true) runtime.config token now =
        .error .invalid) := by
  obtain ⟨alloc, hi⟩ := h.token
  have hv := authTokenVerify_issued hlib (authTokenIssue_enough hi) hnow
  constructor
  · intro hw
    exact hv.trans (if_pos hw)
  · intro hw
    exact hv.trans (if_neg hw)

/-! ## readings -/

/-- the readings of a request that came to its second one -/
theorem Run.second_reading (h : Run lib passwords runtime dateFormat meets db w) {id : Nat}
    {client : Client}
    (hc : w.clients id = some client) {a : App.Accepted lib runtime client.request}
    {r : DbResult} {now : Int} {rest : List Event}
    (ht : client.state.trace = a.trace ++ .completed .selectSessions r :: .clock now :: rest) :
    ∃ x more, w.execsFor id = x :: more ∧ x.query = .selectSessions ∧ x.result = r ∧
      [a.now, x.now, now].Sublist (readings w.log) := by
  have hstory := h.storied id
  rw [traceOf_some hc, ht] at hstory
  have hitems := readings_items id w.log
  have hexecs := execsFor_items w id
  have hown : ∀ e, .event e ∈ itemsOf id w.log → e.isOwn = true := by
    intro e he
    obtain ⟨events, hcall, hmem⟩ := event_mem_items.1 he
    exact List.all_eq_true.1 (h.calls_own id events hcall) e hmem
  generalize itemsOf id w.log = items at hstory hitems hexecs hown
  simp only [Accepted.trace, List.filterMap_append, List.filterMap_cons, visible, List.cons_append,
    List.nil_append,
    List.filterMap_nil, List.map_eq_cons_iff] at hstory
  obtain ⟨i1, l1, rfl, h1, i2, l2, rfl, h2, i3, l3, rfl, h3, i4, l4, rfl, h4, i5, l5, rfl, h5,
    hrest⟩ := hstory
  have hevent : ∀ {i : Item} {e : Event}, i.shown = e → e.isOwn = true → i = .event e := by
    intro i e hi he
    cases i with
    | event e' =>
      cases hi
      rfl
    | exec x =>
      rw [← hi] at he
      cases he
  obtain rfl := hevent h1 rfl
  obtain rfl := hevent h2 rfl
  obtain rfl := hevent h3 rfl
  obtain rfl := hevent h5 rfl
  cases i4 with
  | event e =>
    have he := hown e (by simp)
    rw [show e = .completed .selectSessions r from h4] at he
    cases he
  | exec x =>
    obtain ⟨hq, hr⟩ := Event.completed.inj h4
    refine ⟨x, l5.filterMap Item.exec?, ?_, hq, hr, ?_⟩
    · rw [hexecs]
      rfl
    · refine List.Sublist.trans ?_ hitems
      show [a.now, x.now, now].Sublist ([a.now, x.now, now] ++ l5.flatMap Item.readings)
      exact List.sublist_append_left _ _

/-! ## the row -/

/-- a row that comes to the table comes with an INSERT -/
theorem inserted_of_chained {l : List Execution} {s t : Db}
    (h : History.Chained Execution.before Execution.after s l t)
    (hsound : ∀ x ∈ l, Exec dateFormat x.now x.query x.before x.result x.after)
    {row : Store.SessionRow} (hs : row ∉ s.sessions) (ht : row ∈ t.sessions) :
    ∃ y ∈ l, y.query = .insertSession row.id row.userId row.issuedAt row.expiresAt ∧
      ∃ user ∈ t.users, user.id = row.userId := by
  obtain ⟨y, hy, hbefore, hafter⟩ := h.changes (p := fun s => row ∈ s.sessions) hs ht
  obtain ⟨hq, user, huser, hid⟩ := session_added (hsound y hy) hbefore hafter
  have hkeep := (hsound y hy).evolves.users.trans
    (h.since Evolves.refl (fun _ _ _ => Evolves.trans) (fun x hx => (hsound x hx).evolves) hy).users
  exact ⟨y, hy, hq, user, hkeep.subset huser, hid⟩

/-- **behind a row of the table that was not there at the start stands the INSERT of a login** -/
theorem Linked.inserted_before (h : Linked lib runtime dateFormat meets db w)
    {front back : List Execution}
    {x : Execution} (hx : executions w.log = front ++ x :: back) {row : Store.SessionRow}
    (hstart : row ∉ db.sessions) (hrow : row ∈ x.before.sessions) :
    ∃ y ∈ front, y.query = .insertSession row.id row.userId row.issuedAt row.expiresAt ∧
      ∃ user ∈ x.before.users, user.id = row.userId := by
  have hchained := h.chained
  rw [hx] at hchained
  obtain ⟨u, hfront, hu, -⟩ := History.chained_append.1 hchained
  rw [hu] at hrow ⊢
  exact inserted_of_chained hfront
    (fun y hy => h.sound y (hx ▸ List.mem_append_left _ hy)) hstart hrow

/-- a generated id is inserted by the request that generated it -/
theorem Run.inserter (h : Run lib passwords runtime dateFormat meets db w)
    (hids : FreshIds db w.log)
    {login : Nat} {token userId sid : Bytes} {t0 : Int}
    (hissued : Issued lib runtime w login token userId sid t0)
    {x : Execution} (hx : x ∈ executions w.log) {user : Bytes} {issuedAt expiresAt : Int}
    (hq : x.query = .insertSession sid user issuedAt expiresAt) :
    x.id = login ∧ x.query = .insertSession sid userId t0 (t0 + runtime.config.ttl) := by
  obtain ⟨client, hc, hquery⟩ := hissued.login
  obtain ⟨client', hc', hquery'⟩ := h.linked.requested hx
  have hid : x.id = login := by
    rw [hq] at hquery'
    obtain ⟨events, hcall, hmem⟩ :=
      h.storied.logged hc (h.linked.insertsSession hc hquery).generated rfl
    obtain ⟨events', hcall', hmem'⟩ :=
      h.storied.logged hc' (h.linked.insertsSession hc' hquery').generated rfl
    exact generated_once hids.nodup hcall' hmem' hcall hmem
  refine ⟨hid, ?_⟩
  obtain rfl : client' = client := by
    rw [hid, hc] at hc'
    exact (Option.some.inj hc').symm
  have honce : (opsOf client'.state.trace).countP opInsertsSession ≤ 1 := by
    rcases h.linked.statements hc with ⟨hnil, -⟩ | ⟨s, op, hw, -, -, hops, -⟩
    · rw [hnil]
      exact Nat.zero_le _
    · rw [hops]
      exact (System.Waiting.inserts_once hw).2
  by_contra hne
  have hmem : ∀ {q : Query}, .query q ∈ client'.state.trace → opInsertsSession (.db q) = true →
      Op.db q ∈ (opsOf client'.state.trace).filter opInsertsSession :=
    fun hq hp => List.mem_filter.2 ⟨List.mem_filterMap.2 ⟨_, hq, rfl⟩, hp⟩
  have h1 := hmem hquery' (by rw [hq]; rfl)
  have h2 := hmem hquery rfl
  rw [List.countP_eq_length_filter] at honce
  match hl : (opsOf client'.state.trace).filter opInsertsSession, honce with
  | [], _ =>
    rw [hl] at h1
    cases h1
  | [op], _ =>
    rw [hl] at h1 h2
    exact hne (Op.db.inj ((List.mem_singleton.1 h1).trans (List.mem_singleton.1 h2).symm))

/-- a session is inserted once -/
theorem Run.inserted_once (h : Run lib passwords runtime dateFormat meets db w)
    (hids : FreshIds db w.log)
    {x y : Execution} (hxy : [x, y].Sublist (executions w.log)) {sid user user' : Bytes}
    {i e i' e' : Int}
    (hx : x.query = .insertSession sid user i e) (hy : y.query = .insertSession sid user' i' e') :
    False := by
  have hxm : x ∈ executions w.log := hxy.subset List.mem_cons_self
  have hym : y ∈ executions w.log := hxy.subset (List.mem_cons_of_mem _ List.mem_cons_self)
  have hid : y.id = x.id := by
    obtain ⟨client, hc, hq⟩ := h.linked.requested hxm
    obtain ⟨client', hc', hq'⟩ := h.linked.requested hym
    rw [hx] at hq
    rw [hy] at hq'
    obtain ⟨events, hcall, hmem⟩ :=
      h.storied.logged hc (h.linked.insertsSession hc hq).generated rfl
    obtain ⟨events', hcall', hmem'⟩ :=
      h.storied.logged hc' (h.linked.insertsSession hc' hq').generated rfl
    exact generated_once hids.nodup hcall' hmem' hcall hmem
  have hsub : [x, y].Sublist (w.execsFor x.id) := by
    have hfilter := hxy.filter (fun z => z.id == x.id)
    rw [List.filter_eq_self.2 (by simp [hid])] at hfilter
    exact hfilter
  have hcount := hsub.countP_le (p := fun z => opInsertsSession (.db z.query))
  have hle := h.linked.insertsSession_le x.id
  have htwo : [x, y].countP (fun z => opInsertsSession (.db z.query)) = 2 := by
    simp [List.countP_cons, hx, hy, opInsertsSession]
  omega

/-! ## who is verified -/

/-- **what a request that is verified has read** -/
theorem Run.passed (h : Run lib passwords runtime dateFormat meets db w) {id : Nat}
    {client : Client}
    (hc : w.clients id = some client) {stages : List Stage}
    (hchain : client.request.chain = .auth1 :: .auth2 :: stages)
    {claims : AuthClaims} (hv : .verified claims ∈ client.state.trace) :
    ∃ (g : Passed lib runtime client.request) (rest : List Event) (x : Execution) (more :
      List Execution),
      client.state.trace = g.trace ++ rest ∧ g.claims = claims ∧ w.execsFor id = x :: more ∧
      x.query = .selectSessions ∧ [g.now, x.now, g.later].Sublist (readings w.log) ∧
      (⟨claims.sessionId, claims.userId, claims.issuedAt, claims.expiresAt⟩ : Store.SessionRow) ∈
      x.before.sessions := by
  cases Reach.checkTrace hchain (h.linked.client hc).reach with
  | early hc hno hr => exact absurd hv (hno claims)
  | refused a r env hmeets response hno ht =>
    rw [ht] at hv
    simp [Accepted.trace] at hv
  | passed g more hno ht =>
    have hclaims : g.claims = claims := by
      rw [ht, List.mem_append] at hv
      rcases hv with hv | hv
      · simp [Passed.trace] at hv
        exact hv.symm
      · exact absurd hv (hno claims)
    obtain ⟨x, execs, hexecs, hq, hres, hreadings⟩ := h.second_reading hc
      (show client.state.trace = g.toAccepted.trace ++ .completed .selectSessions g.result ::
        .clock g.later ::
        (.verified g.claims :: more) by rw [ht]; rfl)
    have hxm : x ∈ w.execsFor id := hexecs ▸ List.mem_cons_self
    have hexec := h.linked.exec hxm (Execution.effect_eq.2 ⟨hq, hres⟩)
    exact ⟨g, more, x, execs, ht, hclaims, hexecs, hq, hreadings,
      hclaims ▸ selected_session hexec g.row⟩

/-- the id of an issued token is new -/
theorem Run.issued_generated (h : Run lib passwords runtime dateFormat meets db w) {login : Nat}
    {token userId sid : Bytes} {t0 : Int}
    (hissued : Issued lib runtime w login token userId sid t0) :
    sid ∈ generatedIds w.log := by
  obtain ⟨client, hc, hquery⟩ := hissued.login
  obtain ⟨events, hcall, hmem⟩ :=
    h.storied.logged hc (h.linked.insertsSession hc hquery).generated rfl
  exact mem_generatedIds.2 ⟨login, events, hcall, hmem⟩

end

end System

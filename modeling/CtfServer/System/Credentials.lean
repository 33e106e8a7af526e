import CtfServer.Store.Users
import CtfServer.System.Lifecycle

/-!
# Signups and logins

Signup and login agree on names and passwords, in whatever order the stages of the requests run.

* `Verifies`              the verifier accepts the password that was hashed;
* `Run.signed_up`         a signup that was answered 201;
* `SignedUp.once`         at most one for each name;
* `Run.logged_in`         a login that was answered 200;
* `accounts_agree`        **all of it**.
-/

set_option linter.unusedVariables false
set_option linter.unusedSimpArgs false

namespace System

open App Store
open Json (AuthRequest)

/-- the verifier accepts the password that was hashed, and no other -/
def Verifies (passwords : PasswordLib) : Prop :=
  ∀ password hash other, passwords.produced password hash →
    (passwords.verify hash other = true ↔ password = other)

/-! ## rows -/

def Execution.newUsers (x : Execution) : List UserRow :=
  x.after.users.filter fun row => !x.before.users.contains row

def Execution.newSessions (x : Execution) : List Store.SessionRow :=
  x.after.sessions.filter fun row => !x.before.sessions.contains row

section
variable (w : World) (id : Nat)

/-- the rows that the statements of request `id` inserted -/
def World.insertedUsers : List UserRow := (w.execsFor id).flatMap Execution.newUsers
def World.insertedSessions : List Store.SessionRow := (w.execsFor id).flatMap Execution.newSessions

end

theorem filter_new {α : Type} [BEq α] [LawfulBEq α] {l : List α} {a : α} (h : a ∉ l) :
    (l ++ [a]).filter (fun b => !l.contains b) = [a] := by
  rw [List.filter_append, List.filter_eq_nil_iff.2 fun b hb => by simp [hb]]
  simpa using h

theorem filter_same {α : Type} [BEq α] [LawfulBEq α] {l m : List α} (h : ∀ a ∈ m, a ∈ l) :
    m.filter (fun b => !l.contains b) = [] := by
  rw [List.filter_eq_nil_iff]
  intro b hb
  simp [h b hb]

section
variable {lib : AuthLib} {passwords : PasswordLib} {runtime : Runtime} {dateFormat : Int → Bytes}
  {meets : Nat → Env → Prop} {db : Db} {w : World} {x : Execution}

theorem newUsers_insert {id username hash : Bytes}
    (h : Exec dateFormat x.now x.query x.before x.result x.after)
    (hq : x.query = .insertUser id username hash) (hr : x.result.success = true) :
    x.newUsers = [⟨id, username, hash, x.now⟩] := by
  rw [hq] at h
  obtain ⟨hafter, hfree⟩ := user_inserted h hr
  rw [Execution.newUsers, hafter]
  exact filter_new fun hmem => hfree _ hmem rfl

theorem newSessions_insert {id userId : Bytes} {issuedAt expiresAt : Int}
    (h : Exec dateFormat x.now x.query x.before x.result x.after)
    (hq : x.query = .insertSession id userId issuedAt expiresAt) (hr : x.result.success = true) :
    x.newSessions = [⟨id, userId, issuedAt, expiresAt⟩] := by
  rw [hq] at h
  obtain ⟨hafter, hfree⟩ := session_inserted h hr
  rw [Execution.newSessions, hafter]
  exact filter_new fun hmem => hfree _ hmem rfl

theorem new_select (h : Exec dateFormat x.now x.query x.before x.result x.after)
    (hq : x.query.isSelect = true) :
    x.newUsers = [] ∧ x.newSessions = [] := by
  have hsame := selected_same h hq
  rw [Execution.newUsers, Execution.newSessions, hsame]
  exact ⟨filter_same fun _ => id, filter_same fun _ => id⟩

theorem newSessions_cleanup (h : Exec dateFormat x.now x.query x.before x.result x.after)
    (hq : x.query = .deleteExpiredSessions) : x.newSessions = [] := by
  refine filter_same fun row hafter => ?_
  by_contra hbefore
  obtain ⟨hins, -⟩ := session_added h hbefore hafter
  rw [hq] at hins
  cases hins

/-- a list of executions that reads as a list of statements and results -/
theorem execs_of_effects {l : List Execution} {e : Query × DbResult} {es : List (Query × DbResult)}
    (h : l.map Execution.effect = e :: es) :
    ∃ x rest, l = x :: rest ∧ x.query = e.1 ∧ x.result = e.2 ∧ rest.map Execution.effect = es := by
  obtain ⟨x, rest, rfl, hx, hrest⟩ := List.map_eq_cons_iff.1 h
  obtain ⟨hq, hr⟩ := Execution.effect_eq.1 (show x.effect = (e.1, e.2) from hx)
  exact ⟨x, rest, rfl, hq, hr, hrest⟩

theorem make_verify {dummyHash password : Bytes} {hash : Bytes} {job : PasswordJob}
    (h : PasswordJob.make dummyHash .verify password (some hash) = some job) :
    job.operation = .verify ∧ job.password = password ∧ job.storedHash = hash := by
  unfold PasswordJob.make at h
  split at h
  · cases h
  dsimp only at h
  split at h
  · cases h
  · cases h
    exact ⟨rfl, rfl, rfl⟩

/-! ## signups -/

/-- what a request has executed, from its trace -/
theorem Run.story (h : Run lib passwords runtime dateFormat meets db w) {id : Nat} {client : Client}
    {r : Response}
    (hc : w.clients id = some client) (hr : .respond r ∈ client.state.trace)
    {es : List (Query × DbResult)}
    (he : executed client.state.trace = es) : (w.execsFor id).map Execution.effect = es :=
  (h.linked.answered hc hr).trans he

/-- a signup that was answered 201, and its INSERT -/
structure SignedUp (passwords : PasswordLib) (w : World) (id : Nat) (input : AuthRequest)
    (x : Execution) (row : UserRow) : Prop where
  inserted : w.insertedUsers id = [row]
  executed : x ∈ executions w.log ∧ x.id = id
  query : x.query = .insertUser row.id row.username row.passwordHash
  success : x.result.success = true
  username : row.username = input.username
  password : passwords.produced input.password row.passwordHash

/-- **a signup that was answered 201 inserted one user, as its body says** -/
theorem Run.signed_up (h : Run lib passwords runtime dateFormat meets db w) {id : Nat}
    {client : Client} {r : Response}
    (hc : w.clients id = some client) (hs : IsSignup client.request)
    (hr : .respond r ∈ client.state.trace) (hstatus : r.status = .created) :
    ∃ input x row, client.request.Credentials input ∧ SignedUp passwords w id input x row ∧
      r.body = signupText row.id row.username := by
  have hchain := chain_of_isSignup hs
  obtain ⟨input, hb, hstory⟩ := signup_story (h.linked.client hc).reach hchain hr
    (by rw [hstatus]; rfl)
  generalize he : executed client.state.trace = es at hstory
  have heffects := h.story hc hr he
  cases hstory with
  | taken r1 mem users hu hf hconflict => rw [hstatus] at hconflict; cases hconflict
  | overtaken r1 r2 r3 uid hash mem users hu hf hconflict =>
    rw [hstatus] at hconflict; cases hconflict
  | created r1 r2 uid hash h2 hs hbody =>
    obtain ⟨x1, rest, hexecs, hq1, -, hrest⟩ := execs_of_effects heffects
    obtain ⟨x, rest', rfl, hq, hres, hnil⟩ := execs_of_effects hrest
    obtain rfl := List.map_eq_nil_iff.1 hnil
    have hmem1 : x1 ∈ w.execsFor id := by simp [hexecs]
    have hmem : x ∈ w.execsFor id := by simp [hexecs]
    have hx1 := mem_of_execsFor hmem1
    have hx := mem_of_execsFor hmem
    have hsuccess : x.result.success = true := by rw [hres]; exact h2
    obtain ⟨client', hc', hins⟩ := h.insertsUser hx.1 hq
    obtain ⟨input', hb', husername, hproduced⟩ := hins.credentials
    rw [hx.2, hc] at hc'
    cases hc'
    obtain rfl := hb.unique hb'
    refine ⟨input, x, ⟨uid, input.username, hash, x.now⟩, hb,
      ⟨?_, hx, hq, hsuccess, rfl, hproduced⟩, hbody⟩
    rw [World.insertedUsers, hexecs]
    simp only [List.flatMap_cons, List.flatMap_nil, List.append_nil]
    rw [(new_select (h.linked.sound x1 hx1.1) (by rw [hq1]; rfl)).1, List.nil_append,
      newUsers_insert (h.linked.sound x hx.1) hq hsuccess]

/-- a name that was inserted cannot be inserted again -/
theorem Linked.name_taken (h : Linked lib runtime dateFormat meets db w) {x y : Execution}
    (hxy : [x, y].Sublist (executions w.log)) {id id' username hash hash' : Bytes}
    (hx : x.query = .insertUser id username hash) (hxr : x.result.success = true)
    (hy : y.query = .insertUser id' username hash') (hyr : y.result.success = true) : False := by
  have hxs := h.sound x (hxy.subset List.mem_cons_self)
  have hys := h.sound y (hxy.subset (List.mem_cons_of_mem _ List.mem_cons_self))
  rw [hx] at hxs
  rw [hy] at hys
  have hmem : (⟨id, username, hash, x.now⟩ : UserRow) ∈ x.after.users := by
    rw [(user_inserted hxs hxr).1]
    exact List.mem_append_right _ List.mem_cons_self
  exact (user_inserted hys hyr).2 _ ((h.evolves hxy).users.subset hmem) rfl

/-- **one signup for each name** -/
theorem SignedUp.once (h : Linked lib runtime dateFormat meets db w) {id id' : Nat}
    {input input' : AuthRequest}
    {x x' : Execution} {row row' : UserRow} (hup : SignedUp passwords w id input x row)
    (hup' : SignedUp passwords w id' input' x' row') (hname : input.username = input'.username) :
    id = id' := by
  by_contra hne
  have hxne : x ≠ x' := by
    rintro rfl
    exact hne (hup.executed.2.symm.trans hup'.executed.2)
  have hq := hup.query
  have hq' := hup'.query
  rw [hup.username] at hq
  rw [hup'.username, ← hname] at hq'
  rcases History.ordered_of_ne hup.executed.1 hup'.executed.1 hxne with hxy | hxy
  · exact h.name_taken hxy hq hup.success hq' hup'.success
  · exact h.name_taken hxy hq' hup'.success hq hup.success

/-- **a signup that was answered 409 has read a user of that name** -/
theorem Run.refused_name (h : Run lib passwords runtime dateFormat meets db w) {id : Nat}
    {client : Client}
    {r : Response} (hc : w.clients id = some client) (hs : IsSignup client.request)
    (hr : .respond r ∈ client.state.trace) (hstatus : r.status = .conflict) :
    ∃ input x row, client.request.Credentials input ∧ x ∈ w.execsFor id ∧ x.query = .selectUsers ∧
      row ∈ x.before.users ∧ row.username = input.username := by
  obtain ⟨input, hb, hstory⟩ :=
    signup_story (h.linked.client hc).reach (chain_of_isSignup hs) hr (by rw [hstatus]; rfl)
  have hread : ∀ {x : Execution} {mem : Bool} {users : List User}, x ∈ w.execsFor id →
    x.query = .selectUsers →
      bindUsers mem x.result = some users →
      users.any (fun user => user.username == input.username) = true →
        ∃ row ∈ x.before.users, row.username = input.username := by
    intro x mem users hx hq hu hf
    obtain ⟨user, huser, hname⟩ := List.any_eq_true.1 hf
    obtain ⟨row, hrow, rfl⟩ :=
      selected_user (h.linked.exec hx (Execution.effect_eq.2 ⟨hq, rfl⟩)) hu huser
    exact ⟨row, hrow, beq_iff_eq.1 hname⟩
  generalize he : executed client.state.trace = es at hstory
  have heffects := h.story hc hr he
  cases hstory with
  | created r1 r2 uid hash h2 hcreated => rw [hstatus] at hcreated; cases hcreated
  | taken r1 mem users hu hf =>
    obtain ⟨x, rest, hexecs, hq, rfl, -⟩ := execs_of_effects heffects
    have hx : x ∈ w.execsFor id := by simp [hexecs]
    obtain ⟨row, hrow, hname⟩ := hread hx hq hu hf
    exact ⟨input, x, row, hb, hx, hq, hrow, hname⟩
  | overtaken r1 r2 r3 uid hash mem users hu hf =>
    obtain ⟨x1, rest, hexecs, -, -, hrest⟩ := execs_of_effects heffects
    obtain ⟨x2, rest', rfl, -, -, hrest'⟩ := execs_of_effects hrest
    obtain ⟨x, rest'', rfl, hq, rfl, -⟩ := execs_of_effects hrest'
    have hx : x ∈ w.execsFor id := by simp [hexecs]
    obtain ⟨row, hrow, hname⟩ := hread hx hq hu hf
    exact ⟨input, x, row, hb, hx, hq, hrow, hname⟩

/-! ## logins -/

/-- a password that was accepted for a login is the one whose hash is stored -/
theorem Run.password_matches (h : Run lib passwords runtime dateFormat meets db w)
    (hv : Verifies passwords) {id : Nat}
    {client : Client} {input : AuthRequest} {r : Response} (hc : w.clients id = some client)
    (story : LoginStory lib runtime input r client.state.trace) {password : Bytes}
    (hp : passwords.produced password story.user.passwordHash) : password = input.password := by
  obtain ⟨ho, hpass, hstored⟩ := make_verify story.made
  obtain ⟨hjob, -⟩ := h.worked.traces id client hc _ _ story.finished
  have hverified := (hjob.verified ho story.passed).2
  rw [hstored, hpass] at hverified
  exact (hv _ _ _ hp).1 hverified

/-- the signup `id` with these credentials inserted the row -/
structure Registered (passwords : PasswordLib) (w : World) (id : Nat) (input : AuthRequest)
    (row : UserRow) : Prop where
  request : ∃ client, w.clients id = some client ∧ IsSignup client.request ∧
    client.request.Credentials input
  inserted : row ∈ w.insertedUsers id
  username : input.username = row.username
  password : passwords.produced input.password row.passwordHash

/-- **behind a user of the table that was not there at the start stands a signup** -/
theorem Run.registered (h : Run lib passwords runtime dateFormat meets db w) {x : Execution}
    (hx : x ∈ executions w.log) {row : UserRow} (hstart : row ∉ db.users)
    (hrow : row ∈ x.before.users) :
    ∃ id input, Registered passwords w id input row := by
  obtain ⟨front, back, hsplit⟩ := List.append_of_mem hx
  have hchained := h.linked.chained
  rw [hsplit] at hchained
  obtain ⟨u, hfront, rfl, -⟩ := History.chained_append.1 hchained
  obtain ⟨y, hy, hbefore, hafter⟩ := hfront.changes (p := fun s => row ∈ s.users) hstart hrow
  have hym : y ∈ executions w.log := hsplit ▸ List.mem_append_left _ hy
  obtain ⟨hq, -⟩ := user_added (h.linked.sound y hym) hbefore hafter
  obtain ⟨client, hc, hins⟩ := h.insertsUser hym hq
  obtain ⟨input, hb, hname, hproduced⟩ := hins.credentials
  refine ⟨y.id, input, ⟨client, hc, hins.signup, hb⟩, ?_, hname.symm, hproduced⟩
  exact List.mem_flatMap.2 ⟨y, mem_execsFor hym, List.mem_filter.2 ⟨hafter, by simp [hbefore]⟩⟩

/-- a login that was answered 200: the row it read, and what it made of it -/
structure LoggedIn (lib : AuthLib) (passwords : PasswordLib) (runtime : Runtime) (db : Db)
    (w : World) (id : Nat) (input : AuthRequest) (r : Response) (row : UserRow) : Prop where
  read : ∃ x execs, w.execsFor id = x :: execs ∧ x.query = .selectUsers ∧ row ∈ x.before.users
  username : row.username = input.username
  password : passwords.produced input.password row.passwordHash
  registered : row ∈ db.users ∨ ∃ id' input', Registered passwords w id' input' row ∧
    input'.password = input.password
  session : ∃ sid t0 token,
    (∃ alloc, authTokenIssue lib alloc runtime.config row.id sid t0 = .ok token) ∧
    r.body = loginText token ∧ w.insertedSessions id = [⟨sid, row.id, t0, t0 + runtime.config.ttl⟩]

/-- **a login that was answered 200 has read its user, and has the password of its signup** -/
theorem Run.logged_in (h : Run lib passwords runtime dateFormat meets db w)
    (hv : Verifies passwords)
    (hdb : ∀ row ∈ db.users, ∃ password, passwords.produced password row.passwordHash) {id : Nat}
    {client : Client} {r : Response} (hc : w.clients id = some client) (hs : IsLogin client.request)
    (hr : .respond r ∈ client.state.trace) (hstatus : r.status = .ok) :
    ∃ input row, client.request.Credentials input ∧ LoggedIn lib passwords runtime db w id
      input r row := by
  obtain ⟨input, hb, ⟨story⟩⟩ := login_story (h.linked.client hc).reach
    (chain_of_isLogin hs) hr hstatus
  have heffects := h.story hc hr story.executed
  obtain ⟨x1, rest, hexecs, hq1, hres1, hrest⟩ := execs_of_effects heffects
  obtain ⟨x2, rest', rfl, hq2, -, hrest'⟩ := execs_of_effects hrest
  obtain ⟨x3, rest'', rfl, hq3, hres3, hnil⟩ := execs_of_effects hrest'
  obtain rfl := List.map_eq_nil_iff.1 hnil
  have hx1 : x1 ∈ w.execsFor id := by simp [hexecs]
  have hs1 := h.linked.sound x1 (mem_of_execsFor hx1).1
  have hx2 : x2 ∈ w.execsFor id := by simp [hexecs]
  have hx3 : x3 ∈ w.execsFor id := by simp [hexecs]
  have hs2 := h.linked.sound x2 (mem_of_execsFor hx2).1
  have hs3 := h.linked.sound x3 (mem_of_execsFor hx3).1
  -- the row that was read
  obtain ⟨row, hrow, huser⟩ :=
    selected_user (h.linked.exec hx1 (Execution.effect_eq.2 ⟨hq1, hres1⟩)) story.read
    (List.mem_of_find?_eq_some story.found)
  have hname : row.username = input.username := by
    have hfound := List.find?_some story.found
    rw [← huser] at hfound
    exact beq_iff_eq.1 hfound
  have hmatch : ∀ {password : Bytes}, passwords.produced password row.passwordHash →
    password = input.password :=
    fun hp => h.password_matches hv hc story (huser ▸ hp)
  have hregistered : row ∈ db.users ∨
      ∃ id' input', Registered passwords w id' input' row ∧ input'.password = input.password := by
    by_cases hstart : row ∈ db.users
    · exact .inl hstart
    · obtain ⟨id', input', hreg⟩ := h.registered (mem_of_execsFor hx1).1 hstart hrow
      exact .inr ⟨id', input', hreg, hmatch hreg.password⟩
  have hproduced : passwords.produced input.password row.passwordHash := by
    rcases hregistered with hstart | ⟨id', input', hreg, hpass⟩
    · obtain ⟨password, hp⟩ := hdb row hstart
      exact hmatch hp ▸ hp
    · exact hpass ▸ hreg.password
  refine ⟨input, row, hb, ⟨x1, _, hexecs, hq1, hrow⟩, hname, hproduced, hregistered, story.id,
    story.now, story.token,
    ?_, story.body, ?_⟩
  · obtain ⟨alloc, hi⟩ := story.issued
    exact ⟨alloc, by rw [← huser] at hi; exact hi⟩
  · have huid : story.user.id = row.id := by rw [← huser]; rfl
    rw [World.insertedSessions, hexecs]
    simp only [List.flatMap_cons, List.flatMap_nil, List.append_nil]
    rw [(new_select hs1 (by rw [hq1]; rfl)).2, newSessions_cleanup hs2 hq2,
      newSessions_insert hs3 hq3 (by rw [hres3]; exact story.success), huid]
    rfl

/-! ## all of it -/

/-- what signups and logins make of names and passwords -/
structure AccountsAgree (lib : AuthLib) (passwords : PasswordLib) (runtime : Runtime) (db : Db)
    (w : World) : Prop where
  /-- a signup that is answered 201 inserted one user, with the name and the password of its body -/
  created : ∀ id client r, w.clients id = some client → IsSignup client.request → .respond r ∈
    client.state.trace →
    r.status = .created → ∃ input row, client.request.Credentials input ∧
    w.insertedUsers id = [row] ∧
      row.username = input.username ∧ passwords.produced input.password row.passwordHash ∧
      (∀ other, passwords.verify row.passwordHash other = true ↔ input.password = other) ∧
      r.body = signupText row.id row.username
  /-- at most one signup of a name is answered 201 -/
  once : ∀ id id' client client' r r' input input', w.clients id = some client → w.clients id' =
    some client' →
    IsSignup client.request → IsSignup client'.request → .respond r ∈ client.state.trace →
    .respond r' ∈ client'.state.trace → r.status = .created → r'.status = .created →
    client.request.Credentials input → client'.request.Credentials input' → input.username =
    input'.username → id = id'
  /-- 409 says that a SELECT of the request found the name -/
  conflict : ∀ id client r, w.clients id = some client → IsSignup client.request → .respond r ∈
    client.state.trace →
    r.status = .conflict → ∃ input x row, client.request.Credentials input ∧ x ∈ w.execsFor id ∧
      x.query = .selectUsers ∧ row ∈ x.before.users ∧ row.username = input.username
  loggedIn : ∀ id client r, w.clients id = some client → IsLogin client.request → .respond r ∈
    client.state.trace →
    r.status = .ok → ∃ input row, client.request.Credentials input ∧ LoggedIn lib passwords runtime
    db w id input r row
  /-- a name without a user is not let in, whatever the password -/
  unknown : ∀ id client input x execs, w.clients id = some client → IsLogin client.request →
    client.request.Credentials input → w.execsFor id = x :: execs →
    (∀ row ∈ x.before.users, row.username ≠ input.username) → ∀ r, .respond r ∈ client.state.trace →
    r.status ≠ .ok

/-- **signup and login agree, in whatever order the stages of the requests run** -/
theorem accounts_agree (hv : Verifies passwords)
    (hdb : ∀ row ∈ db.users, ∃ password, passwords.produced password row.passwordHash)
    (hrun : Run lib passwords runtime dateFormat meets db w) :
    AccountsAgree lib passwords runtime db w where
  created id client r hc hs hr hstatus := by
    obtain ⟨input, x, row, hb, hup, hbody⟩ := hrun.signed_up hc hs hr hstatus
    exact ⟨input, row, hb, hup.inserted, hup.username, hup.password, fun other =>
      hv _ _ other hup.password, hbody⟩
  once id id' client client' r r' input input' hc hc' hs hs' hr hr' hstatus hstatus' hb
    hb' hname := by
    obtain ⟨input1, x, row, hb1, hup, -⟩ := hrun.signed_up hc hs hr hstatus
    obtain ⟨input2, x', row', hb2, hup', -⟩ := hrun.signed_up hc' hs' hr' hstatus'
    obtain rfl := hb.unique hb1
    obtain rfl := hb'.unique hb2
    exact hup.once hrun.linked hup' hname
  conflict id client r hc hs hr hstatus := hrun.refused_name hc hs hr hstatus
  loggedIn id client r hc hs hr hstatus := hrun.logged_in hv hdb hc hs hr hstatus
  unknown id client input x execs hc hs hb hexecs hno r hr hstatus := by
    obtain ⟨input', row, hb', hlogin⟩ := hrun.logged_in hv hdb hc hs hr hstatus
    obtain rfl := hb.unique hb'
    obtain ⟨x', execs', hexecs', -, hrow⟩ := hlogin.read
    rw [hexecs] at hexecs'
    cases hexecs'
    exact hno row hrow hlogin.username

end

/-! ## one account -/

theorem hexByte_injective {m n : Nat} (hm : m < 16) (hn : n < 16) (h : hexByte m = hexByte n) :
    m = n := by
  have hall : ∀ m < 16, ∀ n < 16, hexByte m = hexByte n → m = n := by decide +kernel
  exact hall m hm n hn h

theorem bin2hex_injective : Function.Injective bin2hex := by
  intro a
  induction a with
  | nil =>
    intro b h
    cases b with
    | nil => rfl
    | cons y b => cases h
  | cons x a ih =>
    intro b h
    cases b with
    | nil => cases h
    | cons y b =>
      simp only [bin2hex, List.flatMap_cons, List.cons_append, List.nil_append,
        List.cons.injEq] at h
      obtain ⟨hhigh, hlow, hrest⟩ := h
      have hx := x.toNat_lt
      have hy := y.toNat_lt
      have h1 := hexByte_injective (by omega) (by omega) hhigh
      have h2 := hexByte_injective (by omega) (by omega) hlow
      rw [ih hrest, UInt8.toNat_inj.1 (show x.toNat = y.toNat by omega)]

theorem argonPasswords_verifies : Verifies argonPasswords := by
  intro password hash other h
  have h : argonHash password = some hash := h
  show (argonHash other == some hash) = true ↔ password = other
  rw [beq_iff_eq]
  constructor
  · intro ho
    unfold argonHash at h ho
    split at h
    · split at ho
      · rw [← ho] at h
        exact bin2hex_injective (List.append_cancel_left (Option.some.inj h))
      · cases ho
    · cases h
  · rintro rfl
    exact h

theorem accounts_agree_login :
    (lifeWorld.responses 1).map Response.status = [.created] ∧ (lifeWorld.responses 2).map
    Response.status = [.ok] ∧
      AccountsAgree TokenSample.lib argonPasswords tokenRuntime {} lifeWorld :=
  ⟨by decide +kernel, by decide +kernel,
    accounts_agree argonPasswords_verifies (List.forall_mem_nil _) lifeWorld_run⟩

end System

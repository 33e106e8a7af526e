import CtfServer.App.AuthStories
import CtfServer.System.Answers
import CtfServer.System.Stored

/-!
# Signups, logins and logouts

The requests behind the INSERTs of users and sessions and behind the DELETEs of sessions.

* `UserInsert`, `SessionInsert`     what stands behind an INSERT;
* `Run.insertsUser`, `Linked.insertsSession`   **every INSERT comes from a signup or a login**;
* `Linked.executes_once`            a request makes each of its INSERTs at most once.
-/

set_option linter.unusedVariables false
set_option linter.unusedSimpArgs false

namespace System

open App Store
open Json (AuthRequest)

/-! ## routes -/

def IsSignup (request : Request) : Prop := request.method = .post ∧ request.uri = ascii "/signup"
def IsLogin (request : Request) : Prop := request.method = .post ∧ request.uri = ascii "/login"
def IsLogout (request : Request) : Prop := request.method = .post ∧ request.uri = ascii "/logout"

def logoutChain : List Stage := authenticated [.logout1, .logout2]

/-- a chain belongs to one path -/
theorem post_of_chain {request : Request} {chain : List Stage} {path : Bytes}
    (hall : ∀ route ∈ routes, route.chain = chain → route.method = .post ∧ route.path = path)
    (hne : chain ≠ [])
    (h : request.chain = chain) : request.method = .post ∧ request.uri = path := by
  obtain ⟨route, hmem, hchain, hm, hu⟩ := route_of_chain h hne
  obtain ⟨hpost, hpath⟩ := hall route hmem hchain
  exact ⟨hm.trans hpost, hu.trans hpath⟩

theorem isSignup_of_chain {request : Request} (h : request.chain = signupChain) :
    IsSignup request :=
  post_of_chain (by decide +kernel) (by decide) h

theorem isLogin_of_chain {request : Request} (h : request.chain = loginChain) : IsLogin request :=
  post_of_chain (by decide +kernel) (by decide) h

theorem isLogout_of_chain {request : Request} (h : request.chain = logoutChain) :
    IsLogout request :=
  post_of_chain (by decide +kernel) (by decide) h

theorem chain_of_isSignup {request : Request} (h : IsSignup request) :
    request.chain = signupChain :=
  chain_of_route h.1 h.2 (by decide +kernel)

theorem chain_of_isLogin {request : Request} (h : IsLogin request) : request.chain = loginChain :=
  chain_of_route h.1 h.2 (by decide +kernel)

/-! ## what stands behind an INSERT -/

section
variable (lib : AuthLib) (passwords : PasswordLib) (runtime : Runtime)

/-- a signup that inserts a user -/
structure UserInsert (request : Request) (trace : List Event) (id username hash : Bytes) :
    Prop where
  signup : IsSignup request
  generated : .generated id ∈ trace
  credentials : ∃ input, request.Credentials input ∧ username = input.username ∧
    passwords.produced input.password hash

/-- a login that inserts a session -/
structure SessionInsert (request : Request) (trace : List Event) (id userId : Bytes)
    (issuedAt expiresAt : Int) :
    Prop where
  login : IsLogin request
  generated : .generated id ∈ trace
  issued : ∃ alloc token, authTokenIssue lib alloc runtime.config userId id issuedAt = .ok token
  expires : expiresAt = issuedAt + runtime.config.ttl

end

section
variable {lib : AuthLib} {passwords : PasswordLib} {runtime : Runtime} {request : Request}
  {s : ReqState}
  {meets : Env → Prop}

theorem Waiting.insertsUser {id username hash : Bytes}
    (h : Waiting lib runtime request request.chain s)
    (hw : WorkedAt passwords s.trace) (hp : s.pending = [.db (.insertUser id username hash)]) :
    UserInsert passwords request s.trace id username hash := by
  generalize hc : request.chain = chain at h
  cases h with
  | signup4 input hb r job hj result hr hcn id hid ht =>
    cases hp
    obtain ⟨ho, hpass⟩ := make_hash hj
    have hjob : JobResult passwords job result := (hw job result (by simp [waitingFor, ht])).1
    exact ⟨isSignup_of_chain hc, by simp [waitingFor, ht], input, hb, rfl,
      hpass ▸ hjob.produced ho hr⟩
  | _ => cases hp

theorem Waiting.insertsSession {id userId : Bytes} {issuedAt expiresAt : Int}
    (h : Waiting lib runtime request request.chain s)
    (hp : s.pending = [.db (.insertSession id userId issuedAt expiresAt)]) :
    SessionInsert lib runtime request s.trace id userId issuedAt expiresAt := by
  generalize hc : request.chain = chain at h
  cases h with
  | login5 input hb r mem users hu user hf job hj result hr hcn r2 hr2 now id token hid hi ht =>
    cases hp
    obtain ⟨alloc, hi⟩ := hi
    exact ⟨isLogin_of_chain hc, by simp [waitingFor, ht], ⟨alloc, token, hi⟩, rfl⟩
  | _ => cases hp

theorem Waiting.cleans (h : Waiting lib runtime request request.chain s)
    (hp : s.pending = [.db .deleteExpiredSessions]) : IsLogin request := by
  generalize hc : request.chain = chain at h
  cases h with
  | login4 => exact isLogin_of_chain hc
  | _ => cases hp

theorem Waiting.logsOut {id userId : Bytes} (h : Waiting lib runtime request request.chain s)
    (hp : s.pending = [.db (.deleteSession id userId)]) :
    request.chain = logoutChain ∧
      ∃ claims, .verified claims ∈ s.trace ∧ claims.sessionId = id ∧ claims.userId = userId := by
  generalize hc : request.chain = chain at h
  cases h with
  | logout2 g ht =>
    cases hp
    exact ⟨rfl, g.claims, by simp [waitingFor, ht, Passed.trace], rfl, rfl⟩
  | _ => cases hp

/-- a statement of a trace was waited for in a state before -/
theorem Reach.waitedFor {q : Query} (h : Reach lib runtime meets request s)
    (hq : .query q ∈ s.trace) :
    ∃ s0, Waiting lib runtime request request.chain s0 ∧ s0.pending = [.db q] ∧
      s0.trace <+: s.trace := by
  obtain ⟨s0, h0, hpre, hmem⟩ := Reach.enqueued h (.db q) (List.mem_filterMap.2 ⟨_, hq, rfl⟩)
  rcases h0.shape with hw | hf
  · obtain ⟨op, hop⟩ := hw.pending
    rw [hop] at hmem
    cases List.mem_singleton.1 hmem
    exact ⟨s0, hw, hop, hpre⟩
  · rw [hf.pending] at hmem
    cases hmem

/-! ## at most one -/

def opInsertsUser : Op → Bool
  | .db (.insertUser ..) => true
  | _ => false

def opInsertsSession : Op → Bool
  | .db (.insertSession ..) => true
  | _ => false

def opSelectsSessions : Op → Bool
  | .db .selectSessions => true
  | _ => false

theorem Waiting.inserts_once {chain : List Stage} (h : Waiting lib runtime request chain s) :
    (opsOf s.trace).countP opInsertsUser ≤ 1 ∧ (opsOf s.trace).countP opInsertsSession ≤ 1 := by
  cases h <;> subst_vars <;>
    simp [waitingFor, opsOf_append, opsOf_cons, opsOf_nil, opsOf_clocks, Event.op, Passed.trace,
      Accepted.trace,
      opInsertsUser, opInsertsSession, List.countP_cons]

theorem Waiting.selects_once {chain : List Stage} (h : Waiting lib runtime request chain s) :
    (opsOf s.trace).countP opSelectsSessions ≤ 1 := by
  cases h <;> subst_vars <;>
    simp [waitingFor, opsOf_append, opsOf_cons, opsOf_nil, opsOf_clocks, Event.op, Passed.trace,
      Accepted.trace,
      opSelectsSessions, List.countP_cons]

end

section
variable {lib : AuthLib} {passwords : PasswordLib} {runtime : Runtime} {dateFormat : Int → Bytes}
  {meets : Nat → Env → Prop} {db : Db} {w : World}

/-- what is enqueued once is executed once -/
theorem Linked.executes_once (h : Linked lib runtime dateFormat meets db w) (p : Op → Bool)
    (hp : ∀ {request : Request} {s : ReqState}, Waiting lib runtime request request.chain s →
      (opsOf s.trace).countP p ≤ 1) (id : Nat) : (w.execsFor id).countP
        (fun x => p (.db x.query)) ≤ 1 := by
  cases hc : w.clients id with
  | none =>
    have hat := h.at_ id
    unfold LinkedAt at hat
    rw [hc] at hat
    rw [hat.2]
    exact Nat.zero_le _
  | some client =>
    have hsub := (h.ops_sublist hc).countP_le (p := p)
    rw [List.countP_map] at hsub
    refine Nat.le_trans hsub ?_
    rcases h.statements hc with ⟨hnil, -⟩ | ⟨s, op, hw, -, -, hops, -⟩
    · rw [hnil]
      exact Nat.zero_le _
    · rw [hops]
      exact hp hw

theorem Linked.insertsSession_le (h : Linked lib runtime dateFormat meets db w) (id : Nat) :
    (w.execsFor id).countP (fun x => opInsertsSession (.db x.query)) ≤ 1 :=
  h.executes_once opInsertsSession (fun hw => (System.Waiting.inserts_once hw).2) id

theorem Linked.selectsSessions_le (h : Linked lib runtime dateFormat meets db w) (id : Nat) :
    (w.execsFor id).countP (fun x => opSelectsSessions (.db x.query)) ≤ 1 :=
  h.executes_once opSelectsSessions (fun hw => System.Waiting.selects_once hw) id

/-- **an INSERT of a user is that of a signup** -/
theorem Run.insertsUser (h : Run lib passwords runtime dateFormat meets db w) {x : Execution}
    (hx : x ∈ executions w.log) {id username hash : Bytes}
    (hq : x.query = .insertUser id username hash) :
    ∃ client, w.clients x.id = some client ∧
      UserInsert passwords client.request client.state.trace id username hash := by
  obtain ⟨client, hc, hmem⟩ := h.linked.requested hx
  rw [hq] at hmem
  obtain ⟨s0, hw, hp, hpre⟩ := Reach.waitedFor (h.linked.client hc).reach hmem
  have hworked : WorkedAt passwords s0.trace := fun job result hj =>
    h.worked.traces x.id client hc job result (hpre.subset hj)
  have hins := Waiting.insertsUser hw hworked hp
  exact ⟨client, hc, hins.signup, hpre.subset hins.generated, hins.credentials⟩

/-- **an INSERT of a session is that of a login** -/
theorem Linked.insertsSession (h : Linked lib runtime dateFormat meets db w) {id : Nat}
    {client : Client}
    (hc : w.clients id = some client) {sid userId : Bytes} {issuedAt expiresAt : Int}
    (hq : .query (.insertSession sid userId issuedAt expiresAt) ∈ client.state.trace) :
    SessionInsert lib runtime client.request client.state.trace sid userId issuedAt expiresAt := by
  obtain ⟨s0, hw, hp, hpre⟩ := Reach.waitedFor (h.client hc).reach hq
  have hins := Waiting.insertsSession hw hp
  exact ⟨hins.login, hpre.subset hins.generated, hins.issued, hins.expires⟩

end

end System

import CtfServer.Store.Admitted
import CtfServer.System.Jobs
import CtfServer.System.Serve

/-!
# What is stored can be read

* `Waiting.admitted`   the values of a statement come from a validator;
* `Run.sound`          in every state of the server the database is valid;
* `store_readable`     **no request makes the database unreadable**.
-/

set_option linter.unusedVariables false
set_option linter.unusedSimpArgs false

namespace System

open App Store
open Json (INT_MAX CtfGenre jsonToAuthRequest_ok jsonToCreateChallengeRequest_ok
  jsonToSubmitAnswerRequest_ok)

/-! ## values -/

/-- the hashes are printable ASCII of at most 127 bytes; `crypto_pwhash_STRBYTES` counts the
`NUL` -/
def Printable (passwords : PasswordLib) : Prop :=
  ∀ password hash, passwords.produced password hash →
    hash ≠ [] ∧ hash.length < PWHASH_STRBYTES ∧ hash.all isPrintable = true

section
variable {lib : AuthLib} {passwords : PasswordLib} {runtime : Runtime} {request : Request}

theorem validHash_of (hp : Printable passwords) {password hash : Bytes}
    (h : passwords.produced password hash) :
    validHash hash = true := by
  obtain ⟨hne, hlen, hall⟩ := hp password hash h
  have hmax : hash.length ≤ 255 := Nat.le_trans (Nat.le_of_lt hlen) (by decide)
  simp only [validHash, Bool.and_eq_true, bne_iff_ne, ne_eq, decide_eq_true_eq]
  exact ⟨⟨hne, hmax⟩, hall⟩

theorem make_hash {dummyHash password : Bytes} {stored : Option Bytes} {job : PasswordJob}
    (h : PasswordJob.make dummyHash .hash password stored = some job) :
    job.operation = .hash ∧ job.password = password := by
  unfold PasswordJob.make at h
  split at h
  · cases h
  · cases h
    exact ⟨rfl, rfl⟩

theorem genre_code_le (genre : CtfGenre) : genre.code ≤ 6 := by
  cases genre <;> decide

theorem challengeValues_of {input : Json.CreateChallengeRequest} (h : request.NewChallenge input) :
    ChallengeValues input.name input.description input.flag input.genre.code := by
  obtain ⟨keys, h⟩ := h
  have ha := jsonToCreateChallengeRequest_ok h
  exact ⟨⟨ha.name, ha.nameCount⟩, ⟨ha.description, ha.descriptionLength⟩, ⟨ha.flag, ha.flagCount⟩,
    genre_code_le input.genre⟩

theorem Passed.userId_valid (g : Passed lib runtime request) : validId g.claims.userId = true := by
  obtain ⟨alloc, h⟩ := g.verified
  exact (authTokenVerify_ok h).userId

theorem authTokenIssue_ok {alloc : Alloc → Bool} {config : AuthConfig}
    {userId sessionId token : Bytes} {now : Int}
    (h : authTokenIssue lib alloc config userId sessionId now = .ok token) :
    validId userId = true ∧ validId sessionId = true ∧ 0 ≤ now ∧ now < now + config.ttl ∧
      now + config.ttl ≤ AUTH_TIME_MAX := by
  unfold authTokenIssue at h
  split at h
  · cases h
  next hok =>
  simp only [not_or, not_not, not_lt] at hok
  obtain ⟨hconfig, huser, hsession, h0, hmax, -⟩ := hok
  simp only [validConfig, Bool.and_eq_true, decide_eq_true_eq] at hconfig
  have hgt : ¬ now > AUTH_TIME_MAX - config.ttl := not_lt.2 hmax
  exact ⟨huser, hsession, h0, by omega, by omega⟩

/-- **the values of a statement that a request waits for come from a validator** -/
theorem Waiting.admitted (hprint : Printable passwords) {chain : List Stage}
    {s : ReqState} {q : Query}
    (h : Waiting lib runtime request chain s) (hw : WorkedAt passwords s.trace)
    (hp : s.pending = [.db q]) :
    Admitted q := by
  cases h with
  | signup4 input hb r job hj result hr hc id hid ht =>
    cases hp
    obtain ⟨keys, allocU, allocP, hb⟩ := hb
    obtain ⟨ho, -⟩ := make_hash hj
    have hjob : JobResult passwords job result := (hw job result (by simp [waitingFor, ht])).1
    exact ⟨hid, (jsonToAuthRequest_ok hb).1, validHash_of hprint (hjob.produced ho hr)⟩
  | login5 input hb r mem users hu user hf job hj result hr hc r2 hr2 now id token hid hi ht =>
    cases hp
    obtain ⟨alloc, hi⟩ := hi
    obtain ⟨huser, hsession, h0, hlt, hmax⟩ := authTokenIssue_ok hi
    exact ⟨hsession, huser, h0, hlt, hmax⟩
  | postChallenges2 g input hb ht =>
    cases hp
    exact ⟨Passed.userId_valid g, challengeValues_of hb⟩
  | putChallenges3 g id hid input hb r hr ht =>
    cases hp
    exact challengeValues_of hb
  | postAnswers3 g input hb r mem challenges hr challenge hf correct hq ht =>
    cases hp
    obtain ⟨keys, hb⟩ := hb
    have ha := jsonToSubmitAnswerRequest_ok hb
    exact ⟨⟨ha.positive, ha.bounded⟩, Passed.userId_valid g, ha.literal, ha.count⟩
  | _ => cases hp <;> exact trivial

/-! ## the statements of a request -/

/-- what a request enqueued it once waited for -/
theorem Reach.enqueued {meets : Env → Prop} {s : ReqState} (h : Reach lib runtime meets request s) :
    ∀ op ∈ opsOf s.trace, ∃ s0, Reach lib runtime meets request s0 ∧ s0.trace <+: s.trace ∧
    op ∈ s0.pending := by
  induction h with
  | start env hmeets => exact fun op hop => ⟨_, .start env hmeets, List.prefix_refl _, hop⟩
  | @resume s op input done env hmeets hr hop hc ih =>
    intro o ho
    simp only [ReqState.resume, opsOf_append, List.mem_append] at ho
    rcases ho with (ho | ho) | ho
    · obtain ⟨s0, h0, hpre, hmem⟩ := ih o ho
      exact ⟨s0, h0, hpre.trans ⟨done ++ _, (List.append_assoc ..).symm⟩, hmem⟩
    · cases hc <;> cases ho
    · exact ⟨_, .resume env hmeets hr hop hc, List.prefix_refl _, List.mem_append_right _ ho⟩
  | @discard s op done hr hop hc ih =>
    intro o ho
    simp only [ReqState.discard, opsOf_append, List.mem_append] at ho
    rcases ho with ho | ho
    · obtain ⟨s0, h0, hpre, hmem⟩ := ih o ho
      exact ⟨s0, h0, hpre.trans (List.prefix_append _ _), hmem⟩
    · cases hc <;> cases ho
  | @cancel s job hr hop ih =>
    intro o ho
    simp only [ReqState.cancel, opsOf_append, List.mem_append] at ho
    rcases ho with ho | ho
    · obtain ⟨s0, h0, hpre, hmem⟩ := ih o ho
      exact ⟨s0, h0, hpre.trans (List.prefix_append _ _), hmem⟩
    · cases ho

/-- **every statement that a request builds has values from a validator** -/
theorem Reach.admitted (hprint : Printable passwords) {meets : Env → Prop}
    {s : ReqState} {q : Query}
    (h : Reach lib runtime meets request s) (hw : WorkedAt passwords s.trace)
    (hq : .query q ∈ s.trace) :
    Admitted q := by
  have hop : .db q ∈ opsOf s.trace := List.mem_filterMap.2 ⟨_, hq, rfl⟩
  obtain ⟨s0, h0, hpre, hmem⟩ := Reach.enqueued h _ hop
  rcases h0.shape with hwait | hfin
  · obtain ⟨op, hpend⟩ := hwait.pending
    rw [hpend] at hmem
    cases List.mem_singleton.1 hmem
    exact Waiting.admitted hprint hwait (fun job result hj => hw job result (hpre.subset hj)) hpend
  · rw [hfin.pending] at hmem
    cases hmem

end

/-! ## the database -/

section
variable {lib : AuthLib} {passwords : PasswordLib} {runtime : Runtime} {dateFormat : Int → Bytes}
  {meets : Nat → Env → Prop} {db : Db} {w : World}

theorem Run.admitted (hprint : Printable passwords)
    (h : Run lib passwords runtime dateFormat meets db w) {id : Nat}
    {client : Client} {q : Query} (hc : w.clients id = some client)
    (hq : .query q ∈ client.state.trace) :
    Admitted q :=
  Reach.admitted hprint (h.linked.client hc).reach (h.worked.traces id client hc) hq

/-- the database is valid before each execution and now -/
theorem Run.sound (hprint : Printable passwords) (hdb : Sound db)
    (h : Run lib passwords runtime dateFormat meets db w)
    (hclock : ∀ x ∈ executions w.log, Dated x.now) :
    (∀ x ∈ executions w.log, Sound x.before) ∧ Sound w.db := by
  have hstep : ∀ x ∈ executions w.log, Sound x.before → Sound x.after := by
    intro x hx hbefore
    obtain ⟨client, hc, hq⟩ := h.linked.requested hx
    exact (h.linked.sound x hx).sound (h.admitted hprint hc hq) (hclock x hx) hbefore
  refine ⟨fun x hx => ?_, ?_⟩
  · exact h.linked.chained.upto (R := fun s t => Sound s → Sound t) (fun _ => id)
      (fun _ _ _ f g => g ∘ f) hstep hx hdb
  · exact h.linked.chained.relates (R := fun s t => Sound s → Sound t) (fun _ => id)
      (fun _ _ _ f g => g ∘ f) hstep hdb

/-- no request has poisoned the store -/
structure Readable (dateFormat : Int → Bytes) (w : World) : Prop where
  /-- whatever a SELECT may give now is taken by the reader of its stage -/
  now : ∀ now q r db' res, Exec dateFormat now q w.db r db' → r.stored = some res →
    Store.Accepted r res q
  /-- and so was everything that a SELECT gave -/
  before : ∀ x ∈ executions w.log, ∀ res, x.result.stored = some res →
    Store.Accepted x.result res x.query
  /-- a statement that a request has built meets the lengths, `NOT NULL` and `CHECK` of its
  columns -/
  fits : ∀ id client q, w.clients id = some client → .query q ∈ client.state.trace → fits q = true

/-- **No request makes the database unreadable**, and no accepted body makes a statement that the
columns refuse: for a server that starts with empty tables, with a clock of the database between 0
and the last second that the token code admits. -/
theorem store_readable (hprint : Printable passwords)
    (h : Run lib passwords runtime dateFormat meets {} w)
    (hclock : ∀ x ∈ executions w.log, Dated x.now) : Readable dateFormat w := by
  obtain ⟨hbefore, hdb⟩ := h.sound hprint .empty hclock
  refine ⟨?_, ?_, ?_⟩
  · intro now q r db' res hx hres
    exact hx.readable hdb.toValid hres
  · intro x hx res hres
    exact (h.linked.sound x hx).readable (hbefore x hx).toValid hres
  · intro id client q hc hq
    exact (h.admitted hprint hc hq).fits

end

/-! ## a signup -/

instance : DecidablePred Dated :=
  fun now => inferInstanceAs (Decidable (0 ≤ now ∧ now ≤ AUTH_TIME_MAX))

theorem argonPasswords_printable : Printable argonPasswords := by
  intro password hash h
  have h : argonHash password = some hash := h
  unfold argonHash at h
  split at h
  · next hlen =>
    cases h
    refine ⟨fun hnil => ?_, ?_, ?_⟩
    · exact absurd (List.append_eq_nil_iff.1 hnil).1 (by decide +kernel)
    · rw [List.length_append, bin2hex_length]
      show 10 + 2 * password.length < 128
      omega
    · rw [List.all_append, Bool.and_eq_true]
      refine ⟨by decide +kernel, List.all_eq_true.2 fun c hc => ?_⟩
      have hbyte := List.all_eq_true.1 (bin2hex_all password) c hc
      simp only [isIdByte, Bool.or_eq_true, Bool.and_eq_true, decide_eq_true_eq,
        UInt8.le_iff_toNat_le] at hbyte
      simp only [isPrintable, Bool.and_eq_true, decide_eq_true_eq, UInt8.le_iff_toNat_le]
      have h48 : (48 : UInt8).toNat = 48 := rfl
      have h57 : (57 : UInt8).toNat = 57 := rfl
      have h97 : (97 : UInt8).toNat = 97 := rfl
      have h102 : (102 : UInt8).toNat = 102 := rfl
      have h33 : (33 : UInt8).toNat = 33 := rfl
      have h126 : (126 : UInt8).toNat = 126 := rfl
      omega
  · cases h

theorem store_readable_signup :
    (signedUp.responses 1).map Response.status = [.created] ∧
      signedUp.db.users = [⟨sampleUser, ascii "alice", ascii "$argon2id$" ++ bin2hex
        (ascii "correct horse"), 1000⟩] ∧
      Readable intText signedUp :=
  ⟨by decide +kernel, by decide +kernel,
    store_readable argonPasswords_printable signedUp_run (by decide +kernel)⟩

end System

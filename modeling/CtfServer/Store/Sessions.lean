import CtfServer.Store.Valid
import CtfServer.Lib.History

/-!
# Sessions

* `selected_session`, `session_selected`   what the SELECT of the check says of the table;
* `session_added`, `session_removed`       the statements that change a row of the table;
* `session_deleted`                        what a DELETE leaves.
-/

set_option linter.unusedVariables false
set_option linter.unusedSimpArgs false

namespace Store

open App
open Json (INT_MAX)

/-! ## the SELECT -/

theorem readNumber_intText {maximum n : Nat} (hmax : 9 ≤ maximum) {v : Int}
    (h : readNumber maximum (intText v) = some n) : v = n := by
  unfold readNumber at h
  split at h
  · cases h
  rw [Decimal.readGuarded_iff maximum 0 n _ hmax (Nat.zero_le _)] at h
  obtain ⟨hdigits, hvalue, -⟩ := h
  unfold intText at hdigits hvalue
  by_cases hneg : v < 0
  · rw [if_pos hneg] at hdigits
    have hminus := hdigits 45 (List.mem_append_left _ (by decide +kernel))
    exact absurd hminus (by decide)
  · rw [if_neg hneg] at hvalue
    have heq : Decimal.valueFrom 0 (Decimal.digits v.natAbs) = v.natAbs :=
      Decimal.value_digits v.natAbs
    omega

/-- a session as `bind_auth_sessions` reads it -/
theorem bindAuthSession_values {id userId : Bytes} {issuedAt expiresAt : Int}
    {session : AuthSession}
    (h : bindAuthSession [some id, some userId, some (intText issuedAt), some (intText expiresAt)] =
      some session) :
    session = ⟨id, userId, issuedAt, expiresAt⟩ := by
  rw [bindAuthSession, readAuthId, readAuthId] at h
  split at h
  · next id' userId' issued expires h1 h2 h3 h4 =>
    rw [Option.ite_none_right_eq_some] at h1 h2
    split at h
    · cases h
    · cases h
      rw [Option.some.inj h1.2, Option.some.inj h2.2, readNumber_intText (by decide) h3,
        readNumber_intText (by decide) h4]
  · cases h

section
variable {dateFormat : Int → Bytes} {now : Int} {db db' : Db} {r : DbResult}

/-- a session that was found is a row of the table -/
theorem selected_session {claims : AuthClaims} (h : Exec dateFormat now .selectSessions db r db')
    (hr : App.SessionRow r claims) :
    (⟨claims.sessionId, claims.userId, claims.issuedAt, claims.expiresAt⟩ : SessionRow) ∈
    db.sessions := by
  obtain ⟨res, hres, values, hvalues, hbind⟩ := hr
  have hrows := (h.mem_rows hres).1 hvalues
  simp only [Db.rows, List.mem_filterMap, Option.map_eq_some_iff] at hrows
  obtain ⟨row, hrow, user, huser, rfl⟩ := hrows
  have huid : user.id = row.userId := by simpa using List.find?_some huser
  have heq := bindAuthSession_values hbind
  simp only [AuthSession.mk.injEq] at heq
  rw [heq.1, heq.2.1, heq.2.2.1, heq.2.2.2, huid]
  exact (List.mem_filter.1 hrow).1

/-- a row of the table that has not run out is found -/
theorem session_selected {mem : Bool} {sessions : List AuthSession} {row : SessionRow}
    {claims : AuthClaims}
    (h : Exec dateFormat now .selectSessions db r db') (hr : bindAuthSessions mem r = some sessions)
    (hrow : row ∈ db.sessions) (hnow : now < row.expiresAt + AUTH_CLOCK_SKEW)
    (huser : ∃ user ∈ db.users, user.id = row.userId)
    (hclaims : row = ⟨claims.sessionId, claims.userId, claims.issuedAt, claims.expiresAt⟩) :
    sessions.any (sessionMatches claims) = true := by
  obtain ⟨res, hres, -, hmap⟩ := bindRows_some hr
  obtain ⟨user, hfind⟩ : ∃ user, db.user? row.userId = some user := by
    obtain ⟨user, hmem, hid⟩ := huser
    cases hf : db.user? row.userId with
    | some user => exact ⟨user, rfl⟩
    | none => exact absurd (beq_iff_eq.2 hid) (by simpa using List.find?_eq_none.1 hf user hmem)
  have huid : user.id = row.userId := by simpa using List.find?_some hfind
  have hvalues : [some row.id, some user.id, some (intText row.issuedAt),
    some (intText row.expiresAt)] ∈ res.rows := by
    rw [h.mem_rows hres]
    refine List.mem_filterMap.2 ⟨row, List.mem_filter.2 ⟨hrow, decide_eq_true (by omega)⟩, ?_⟩
    rw [hfind]
    rfl
  obtain ⟨session, hsession, hbind⟩ := Readers.mapM_of_mem hmap hvalues
  refine List.any_eq_true.2 ⟨session, hsession, ?_⟩
  rw [bindAuthSession_values hbind, huid, hclaims]
  simp [sessionMatches]

/-! ## the rows -/

variable {q : Query} {row : SessionRow}

/-- a row that an execution adds is that of its INSERT, for a user of the table -/
theorem session_added (h : Exec dateFormat now q db r db') (hbefore : row ∉ db.sessions)
    (hafter : row ∈ db'.sessions) :
    q = .insertSession row.id row.userId row.issuedAt row.expiresAt ∧ ∃ user ∈ db.users, user.id =
      row.userId := by
  rcases h.cases with ⟨rfl, -⟩ | ⟨-, -, k, hw⟩
  · exact absurd hafter hbefore
  generalize r.affected = n at hw
  generalize r.insertId = i at hw
  cases hw with
  | insertSession hfree hu =>
    rcases List.mem_append.1 hafter with hafter | hafter
    · exact absurd hafter hbefore
    · cases List.mem_singleton.1 hafter
      exact ⟨rfl, hu⟩
  | deleteExpiredSessions => exact absurd (List.mem_filter.1 hafter).1 hbefore
  | deleteSession => exact absurd (List.mem_filter.1 hafter).1 hbefore
  | _ => exact absurd hafter hbefore

/-- a row that an execution removes has run out, or was deleted by its keys -/
theorem session_removed (h : Exec dateFormat now q db r db') (hbefore : row ∈ db.sessions)
    (hafter : row ∉ db'.sessions) :
    q = .deleteSession row.id row.userId ∨ q = .deleteExpiredSessions ∧ row.expiresAt +
      AUTH_CLOCK_SKEW ≤ now := by
  rcases h.cases with ⟨rfl, -⟩ | ⟨-, -, k, hw⟩
  · exact absurd hbefore hafter
  generalize r.affected = n at hw
  generalize r.insertId = i at hw
  cases hw with
  | insertSession hfree hu => exact absurd (List.mem_append_left _ hbefore) hafter
  | deleteExpiredSessions =>
    by_cases hexpired : row.expiresAt ≤ now - AUTH_CLOCK_SKEW
    · exact .inr ⟨rfl, by omega⟩
    · refine absurd (List.mem_filter.2 ⟨hbefore, ?_⟩) hafter
      rw [decide_eq_false hexpired]
      rfl
  | @deleteSession id userId =>
    by_cases hhit : (row.id == id && row.userId == userId) = true
    · simp only [Bool.and_eq_true, beq_iff_eq] at hhit
      rw [hhit.1, hhit.2]
      exact .inl rfl
    · refine absurd (List.mem_filter.2 ⟨hbefore, ?_⟩) hafter
      rw [Bool.eq_false_iff.2 hhit]
      rfl
  | _ => exact absurd hbefore hafter

/-- a DELETE that succeeds leaves no row with its keys -/
theorem session_deleted {id userId : Bytes}
    (h : Exec dateFormat now (.deleteSession id userId) db r db')
    (hr : r.success = true) : ∀ row ∈ db'.sessions, ¬ (row.id = id ∧ row.userId = userId) := by
  obtain ⟨k, hw⟩ := h.written rfl hr
  generalize hq : Query.deleteSession id userId = q at hw
  generalize r.affected = n at hw
  generalize r.insertId = i at hw
  cases hw <;> cases hq
  rintro row hrow ⟨rfl, rfl⟩
  have := (List.mem_filter.1 hrow).2
  simp at this

end

end Store

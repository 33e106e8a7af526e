import CtfServer.Store.Reads

/-!
# Rows that the readers take

The rows as the validators of the handlers and the schema let them in, and what the readers of
result sets make of them: none is refused.

* `Db.Valid`             every row of every table is as it should be;
* `bindUser_valid`, ..   the readers of rows;
* `Exec.readable`        **where memory suffices, a stored result set of a valid database is read**.
-/

set_option linter.unusedVariables false
set_option linter.unusedSimpArgs false

namespace Store

open App
open Json (INT_MAX Literal storedCharacterCount validUsername readPositiveInteger)

/-! ## rows -/

structure UserRow.Valid (row : UserRow) : Prop where
  id : validId row.id = true
  username : validUsername row.username = true
  passwordHash : validHash row.passwordHash = true

structure ChallengeRow.Valid (row : ChallengeRow) : Prop where
  id : 1 ≤ row.id ∧ row.id ≤ INT_MAX
  creatorId : validId row.creatorId = true
  name : Literal row.name ∧ storedCharacterCount row.name ≤ 255
  description : Literal row.description ∧ row.description.length ≤ 65535
  flag : Literal row.flag ∧ storedCharacterCount row.flag ≤ 255
  genre : row.genre ≤ 6

structure AnswerRow.Valid (row : AnswerRow) : Prop where
  id : 1 ≤ row.id ∧ row.id ≤ INT_MAX
  challengeId : 1 ≤ row.challengeId ∧ row.challengeId ≤ INT_MAX
  userId : validId row.userId = true
  answer : Literal row.answer ∧ storedCharacterCount row.answer ≤ 255
  createdAt : ∃ n : Nat, row.createdAt = some (n : Int) ∧ n ≤ AUTH_TIME_MAX

structure SessionRow.Valid (row : SessionRow) : Prop where
  id : validId row.id = true
  userId : validId row.userId = true
  times : ∃ issued expires : Nat, row.issuedAt = issued ∧ row.expiresAt = expires ∧
    issued < expires ∧
    expires ≤ AUTH_TIME_MAX

structure Db.Valid (db : Db) : Prop where
  users : ∀ row ∈ db.users, row.Valid
  challenges : ∀ row ∈ db.challenges, row.Valid
  answers : ∀ row ∈ db.answers, row.Valid
  sessions : ∀ row ∈ db.sessions, row.Valid

/-! ## the readers of numbers -/

theorem intText_natCast (n : Nat) : intText (n : Int) = Decimal.digits n := by
  unfold intText
  rw [if_neg (by omega)]
  exact congrArg Decimal.digits (Int.natAbs_natCast n)

theorem bindAnswerId_of {n : Nat} (h : 1 ≤ n ∧ n ≤ INT_MAX) :
    bindAnswerId (Decimal.digits n) = some n := by
  have hread := Json.readPositiveInteger_digits n [] h.1 h.2 nofun
  rw [List.append_nil] at hread
  unfold bindAnswerId
  rw [hread]

theorem readNumber_of {maximum n : Nat} (hmax : 9 ≤ maximum) (h : n ≤ maximum) :
    readNumber maximum (Decimal.digits n) = some n := by
  unfold readNumber
  rw [if_neg (Decimal.digits_ne_nil n)]
  exact Decimal.readGuarded_digits maximum n hmax h

theorem parseChallengeId_of {n : Nat} (h : 1 ≤ n ∧ n ≤ INT_MAX) :
    parseChallengeId (Decimal.digits n) = some n := by
  have hread := Decimal.readGuarded_digits INT_MAX n (by decide) h.2
  obtain ⟨c, cs, hcs, h49, h57⟩ := Decimal.digits_head n h.1
  rw [hcs] at hread ⊢
  have hc : ¬ (c < 49 ∨ 57 < c) := by
    rw [UInt8.lt_iff_toNat_lt, UInt8.lt_iff_toNat_lt]
    show ¬ (c.toNat < 49 ∨ 57 < c.toNat)
    omega
  exact (if_neg hc).trans hread

/-! ## the readers of rows -/

section
variable {dateFormat : Int → Bytes}

theorem bindUser_valid {row : UserRow} (h : row.Valid) :
    bindUser [some row.id, some row.username, some row.passwordHash] =
      some ⟨row.id, row.username, row.passwordHash⟩ := by
  have hvalid : (validId row.id && validUsername row.username && validHash row.passwordHash) =
    true := by
    rw [h.id, h.username, h.passwordHash]
    exact rfl
  exact if_pos hvalid

theorem bindPublicUser_valid {row : UserRow} (h : row.Valid) :
    bindPublicUser [some row.id, some row.username] = some ⟨row.id, row.username, 0⟩ := by
  have hvalid : (validId row.id && validUsername row.username) = true := by
    rw [h.id, h.username]
    exact rfl
  exact if_pos hvalid

theorem bindAnswer_valid {row : AnswerRow} {user : UserRow} (h : row.Valid)
    (hu : user.Valid) {n : Int} (hn : row.createdAt = some n) :
    bindAnswer (row.values dateFormat user) = some (row.record dateFormat user.username n) := by
  have hflag : (if row.isCorrect then ascii "1" else ascii "0") = [48] ∨
      (if row.isCorrect then ascii "1" else ascii "0") = [49] := by
    cases row.isCorrect <;> decide +kernel
  have hone : ((if row.isCorrect then ascii "1" else ascii "0") == [49]) = row.isCorrect := by
    cases row.isCorrect <;> decide +kernel
  unfold AnswerRow.values
  rw [hn, Option.map_some, bindAnswer, bindAnswerId_of h.id, bindAnswerId_of h.challengeId]
  simp only [hflag, hu.username, and_self, if_true, hone]
  exact rfl

theorem bindScoreAnswer_valid {row : AnswerRow} (h : row.Valid) :
    ∃ answer, bindScoreAnswer [some row.userId, some (Decimal.digits row.challengeId),
      row.createdAt.map intText] =
      some answer := by
  obtain ⟨n, hn, hmax⟩ := h.createdAt
  have hid := h.challengeId
  have hrange : ¬ (row.challengeId < 1 ∨ INT_MAX < row.challengeId) := by omega
  have hnumber : readNonnegativeInteger (Decimal.digits row.challengeId) = some row.challengeId :=
    readNumber_of (by decide) (Nat.le_trans hid.2 (by decide))
  have htime : readAuthTime (Decimal.digits n) = some n := readNumber_of (by decide) hmax
  rw [hn, Option.map_some, intText_natCast, bindScoreAnswer, readAuthId, h.userId, hnumber, htime]
  exact ⟨_, if_neg hrange⟩

theorem bindAuthSession_valid {row : SessionRow} (h : row.Valid) :
    bindAuthSession [some row.id, some row.userId, some (intText row.issuedAt),
      some (intText row.expiresAt)] =
      some ⟨row.id, row.userId, row.issuedAt, row.expiresAt⟩ := by
  obtain ⟨issued, expires, hi, he, hlt, hmax⟩ := h.times
  have htime : ∀ {n : Nat}, n ≤ AUTH_TIME_MAX → readAuthTime (Decimal.digits n) = some n :=
    readNumber_of (by decide)
  rw [hi, he, intText_natCast, intText_natCast, bindAuthSession, readAuthId, readAuthId,
    h.id, h.userId,
    htime (Nat.le_trans (Nat.le_of_lt hlt) hmax), htime hmax]
  exact if_neg (by omega)

/-! ## the readers of result sets -/

theorem bindRows_readable {α : Type} {fields : Nat} {row : List (Option Bytes) → Option α}
    {result : DbResult}
    {res : ResultSet} (hres : result.stored = some res) (hf : res.fields = fields)
    (hrows : ∀ values ∈ res.rows, (row values).isSome = true) :
    bindRows fields row true result ≠ none := by
  have hmap : (res.rows.mapM row).isSome = true := by
    rw [Readers.mapM_isSome_iff]
    exact hrows
  unfold bindRows
  simp only [hres, hf, ne_eq, not_true_eq_false, if_false, Bool.true_eq_false]
  split
  · simp
  · intro hnone
    rw [hnone] at hmap
    cases hmap

theorem ownerLoop_readable {target : Nat} {user : Bytes} {rows : List (List (Option Bytes))}
    (h : ∀ row ∈ rows, ∃ n creator, 1 ≤ n ∧ n ≤ INT_MAX ∧
      row = [some (Decimal.digits n), some creator]) :
    ownerLoop target user rows ≠ .error := by
  induction rows with
  | nil => exact nofun
  | cons row rows ih =>
    obtain ⟨⟨n, creator, h1, h2, rfl⟩, hrest⟩ := List.forall_mem_cons.1 h
    rw [ownerLoop, parseChallengeId_of ⟨h1, h2⟩]
    dsimp only
    split
    · split <;> exact nofun
    · exact ih hrest

/-- the readers of the stages take a result set -/
def Accepted (result : DbResult) (res : ResultSet) : Query → Prop
  | .selectUsers => bindUsers true result ≠ none
  | .selectPublicUsers => bindPublicUsers true result ≠ none
  | .selectScoreAnswers => bindScoreAnswers true result ≠ none
  -- both readers of challenges give `NULL` for an empty set, which the stages tell apart
  | .selectChallenges =>
    readChallenges true result ≠ none ∧ (res.rows ≠ [] → bindChallenges true result ≠ none)
  | .selectChallengesWithoutFlag => res.rows ≠ [] → bindChallengesWithoutFlag true result ≠ none
  | .selectOwners => ∀ id user, challengeWriteAccess result id user ≠ .error
  | .selectAnswers => bindAnswers true result ≠ none
  | .selectSessions => bindAuthSessions true result ≠ none
  | _ => True

theorem bindChallengesImpl_readable {fields : Nat} {row : List (Option Bytes) → Option Challenge}
    {result : DbResult}
    {res : ResultSet} (hres : result.stored = some res) (hf : res.fields = fields)
    (hrows : ∀ values ∈ res.rows, (row values).isSome = true) (hne : res.rows ≠ []) :
    bindChallengesImpl fields row true result ≠ none := by
  have hmap : (res.rows.mapM row).isSome = true := by
    rw [Readers.mapM_isSome_iff]
    exact hrows
  have hok : ¬ (res.rows = [] ∨ res.fields ≠ fields ∨ true = false) := by
    rintro (h | h | h)
    · exact hne h
    · exact h hf
    · cases h
  unfold bindChallengesImpl
  rw [hres]
  dsimp only
  rw [if_neg hok]
  intro hnone
  rw [hnone] at hmap
  cases hmap

/-- **Where memory suffices, a stored result set of a valid database is taken by the reader of its
stage.** -/
theorem Exec.readable {now : Int} {q : Query} {db db' : Db} {r : DbResult} {res : ResultSet}
    (h : Exec dateFormat now q db r db') (hv : db.Valid) (hres : r.stored = some res) :
    Accepted r res q := by
  obtain ⟨-, -, hf, hperm, -⟩ := h.resultSet hres
  have hrows : ∀ values, values ∈ res.rows → values ∈ db.rows dateFormat now q :=
    fun values => hperm.mem_iff.1
  cases q with
  | selectUsers =>
    refine bindRows_readable hres hf fun values hvalues => ?_
    obtain ⟨user, huser, rfl⟩ := List.mem_map.1 (hrows _ hvalues)
    rw [bindUser_valid (hv.users user huser)]
    exact rfl
  | selectPublicUsers =>
    refine bindRows_readable hres hf fun values hvalues => ?_
    obtain ⟨user, huser, rfl⟩ := List.mem_map.1 (hrows _ hvalues)
    rw [bindPublicUser_valid (hv.users user huser)]
    exact rfl
  | selectScoreAnswers =>
    refine bindRows_readable hres hf fun values hvalues => ?_
    obtain ⟨row, hrow, rfl⟩ := List.mem_map.1 (hrows _ hvalues)
    obtain ⟨answer, hbind⟩ := bindScoreAnswer_valid (hv.answers row (List.mem_filter.1 hrow).1)
    rw [hbind]
    exact rfl
  | selectChallenges =>
    have hread : ∀ values ∈ res.rows, (bindChallenge values).isSome = true := by
      intro values hvalues
      obtain ⟨row, hrow, rfl⟩ := List.mem_map.1 (hrows _ hvalues)
      exact rfl
    refine ⟨fun hnone => ?_, fun hne => bindChallengesImpl_readable hres hf hread hne⟩
    unfold readChallenges at hnone
    rw [hres] at hnone
    dsimp only at hnone
    rw [hf, if_neg (by decide)] at hnone
    split at hnone
    · cases hnone
    · next hne => exact bindChallengesImpl_readable hres hf hread hne hnone
  | selectChallengesWithoutFlag =>
    refine bindChallengesImpl_readable hres hf fun values hvalues => ?_
    obtain ⟨row, hrow, rfl⟩ := List.mem_map.1 (hrows _ hvalues)
    exact rfl
  | selectOwners =>
    intro id user
    unfold challengeWriteAccess
    rw [hres]
    dsimp only
    rw [hf, if_neg (by decide)]
    refine ownerLoop_readable fun values hvalues => ?_
    obtain ⟨row, hrow, rfl⟩ := List.mem_map.1 (hrows _ hvalues)
    have hid := (hv.challenges row hrow).id
    exact ⟨row.id, row.creatorId, hid.1, hid.2, rfl⟩
  | selectAnswers =>
    refine bindRows_readable hres hf fun values hvalues => ?_
    obtain ⟨row, hrow, hvalues⟩ := List.mem_filterMap.1 (hrows _ hvalues)
    obtain ⟨user, huser, rfl⟩ := Option.map_eq_some_iff.1 hvalues
    have hvrow := hv.answers row (List.mem_mergeSort.1 hrow)
    obtain ⟨n, hn, -⟩ := hvrow.createdAt
    have hbind : bindAnswer (row.values dateFormat user) =
      some (row.record dateFormat user.username n) :=
      bindAnswer_valid hvrow (hv.users user (List.mem_of_find?_eq_some huser)) hn
    unfold AnswerRow.values at hbind
    rw [hbind]
    exact rfl
  | selectSessions =>
    refine bindRows_readable hres hf fun values hvalues => ?_
    obtain ⟨row, hrow, hvalues⟩ := List.mem_filterMap.1 (hrows _ hvalues)
    obtain ⟨user, huser, rfl⟩ := Option.map_eq_some_iff.1 hvalues
    have hid : user.id = row.userId := by simpa using List.find?_some huser
    rw [hid, bindAuthSession_valid (hv.sessions row (List.mem_filter.1 hrow).1)]
    exact rfl
  | _ => exact trivial

end

end Store

import CtfServer.Lib.Readers
import CtfServer.Store.Evolution
import CtfServer.App.Stories

/-!
# What the readers see of the tables

* `Exec.resultSet`   the result set of a SELECT;
* `access_found`, `access_notFound`   what `challenge_write_access` says of the challenges;
* `mem_readChallenges`   the list that a stage reads is the table.
-/

set_option linter.unusedVariables false
set_option linter.unusedSimpArgs false

namespace Store

open App
open Json (INT_MAX)

section
variable {dateFormat : Int → Bytes} {now : Int} {q : Query} {db db' : Db} {r : DbResult}

/-- the result set of a SELECT -/
theorem Exec.resultSet {res : ResultSet} (h : Exec dateFormat now q db r db')
    (hres : r.stored = some res) :
    db' = db ∧ q.isSelect = true ∧ res.fields = columns q ∧
      res.rows.Perm (db.rows dateFormat now q) ∧
      (q = .selectAnswers → res.rows = db.rows dateFormat now q) := by
  unfold DbResult.stored at hres
  cases h with
  | failed hr => rw [hr] at hres; cases hres
  | select hq hr hres' hf hrows hsort =>
    rw [hr, hres'] at hres
    cases hres
    exact ⟨rfl, hq, hf, hrows, hsort⟩
  | lost hq hr hres' => rw [hr, hres'] at hres; cases hres
  | write k hr hres' hw => rw [hr, hres'] at hres; cases hres

/-- a row of a result set -/
theorem Exec.mem_rows {res : ResultSet} {row : List (Option Bytes)}
    (h : Exec dateFormat now q db r db')
    (hres : r.stored = some res) : row ∈ res.rows ↔ row ∈ db.rows dateFormat now q :=
  (h.resultSet hres).2.2.2.1.mem_iff

/-- a successful INSERT, UPDATE or DELETE -/
theorem Exec.written (h : Exec dateFormat now q db r db') (hq : q.isSelect = false)
    (hr : r.success = true) :
    ∃ k, Written now k db q db' r.affected r.insertId := by
  rcases h.cases with ⟨-, hf | hs⟩ | ⟨-, -, k, hw⟩
  · rw [hr] at hf; cases hf
  · rw [hq] at hs; cases hs
  · exact ⟨k, hw⟩

/-! ## owners -/

theorem parseChallengeId_digits {n m : Nat} (h : parseChallengeId (Decimal.digits n) = some m) :
    m = n := by
  unfold parseChallengeId at h
  split at h
  · cases h
  · split at h
    · cases h
    · next hd _ =>
      rw [Decimal.readGuarded_iff INT_MAX 0 m _ (by decide) (Nat.zero_le _)] at h
      exact h.2.1.symm.trans (Decimal.value_digits n)

/-- the row at which the loop stops -/
theorem ownerLoop_found {target : Nat} {user : Bytes} {rows : List (List (Option Bytes))}
    (h : ownerLoop target user rows = .ok ∨ ownerLoop target user rows = .forbidden) :
    ∃ id creator, [some id, some creator] ∈ rows ∧ parseChallengeId id = some target ∧
      (ownerLoop target user rows = .ok ↔ creator = user) := by
  fun_induction ownerLoop target user rows with
  | case1 => simp at h
  | case2 id creator rows hid => simp at h
  | case3 id rows hid => exact ⟨id, user, List.mem_cons_self, hid, by simp⟩
  | case4 id creator rows hne hid => exact ⟨id, creator, List.mem_cons_self, hid, by simp [hne]⟩
  | case5 id creator rows n hid hne ih =>
    obtain ⟨id', creator', hmem, hrest⟩ := ih h
    exact ⟨id', creator', List.mem_cons_of_mem _ hmem, hrest⟩
  | case6 => simp at h

/-- the loop that finds no row -/
theorem ownerLoop_notFound {target : Nat} {user : Bytes} {rows : List (List (Option Bytes))}
    (h : ownerLoop target user rows = .notFound) :
    ∀ row ∈ rows, ∃ id creator n, row = [some id, some creator] ∧ parseChallengeId id = some n ∧
      n ≠ target := by
  fun_induction ownerLoop target user rows with
  | case1 => simp
  | case2 id creator rows hid => cases h
  | case3 id rows hid => cases h
  | case4 id creator rows hne hid => cases h
  | case5 id creator rows n hid hne ih =>
    intro row hrow
    rcases List.mem_cons.1 hrow with rfl | hrow
    · exact ⟨id, creator, n, rfl, hid, hne⟩
    · exact ih h row hrow
  | case6 => cases h

section
variable {id : Nat} {user : Bytes} (h : Exec dateFormat now .selectOwners db r db')
include h

/-- the challenge of an access that is granted or denied for its creator -/
theorem access_found (ha : challengeWriteAccess r id user = .ok ∨ challengeWriteAccess r id user =
    .forbidden) :
    ∃ row ∈ db.challenges, row.id = id ∧
      (challengeWriteAccess r id user = .ok ↔ row.creatorId = user) := by
  unfold challengeWriteAccess at ha ⊢
  cases hres : r.stored with
  | none => simp [hres] at ha
  | some res =>
    simp only [hres] at ha ⊢
    split at ha
    · simp at ha
    next hf =>
    rw [if_neg hf]
    obtain ⟨text, creator, hmem, hparse, hiff⟩ := ownerLoop_found ha
    obtain ⟨row, hrow, heq⟩ := List.mem_map.1 ((h.mem_rows hres).1 hmem)
    cases heq
    exact ⟨row, hrow, (parseChallengeId_digits hparse).symm, hiff⟩

theorem access_notFound (ha : challengeWriteAccess r id user = .notFound) :
    ∀ row ∈ db.challenges, row.id ≠ id := by
  unfold challengeWriteAccess at ha
  cases hres : r.stored with
  | none => simp [hres] at ha
  | some res =>
    simp only [hres] at ha
    split at ha
    · cases ha
    intro row hrow
    obtain ⟨text, creator, n, heq, hparse, hne⟩ :=
      ownerLoop_notFound ha _ ((h.mem_rows hres).2 (List.mem_map_of_mem hrow))
    cases heq
    rw [← parseChallengeId_digits hparse]
    exact hne

end

/-! ## challenges -/

theorem strtol_digits (n : Nat) : strtol (Decimal.digits n) = min LONG_MAX n := by
  simpa using App.strtol_numeral n (r := []) nofun

theorem toInt_of_le {n : Nat} (h : n ≤ INT_MAX) : toInt (strtol (Decimal.digits n)) = n := by
  rw [strtol_digits]
  exact App.toInt_numeral h

/-- a row as `bind_challenges` reads it -/
def ChallengeRow.record (row : ChallengeRow) : Challenge :=
  ⟨row.id, row.creatorId, row.name, row.description, row.flag, ctfGenreOfInt
    (strtol (Decimal.digits row.genre))⟩

theorem bindChallenge_values {row : ChallengeRow} (h : row.id ≤ INT_MAX) :
    bindChallenge row.values = some row.record := by
  simp only [bindChallenge, ChallengeRow.values, ChallengeRow.record, toInt_of_le h]

section
variable {mem : Bool} {challenges : List Challenge}
  (h : Exec dateFormat now .selectChallenges db r db')
  (hk : Keyed db) (hr : readChallenges mem r = some challenges) (id : Nat)
include h hk hr

/-- a list that was read holds the challenges of the table -/
theorem mem_readChallenges (c : Challenge) :
    c ∈ challenges ↔ ∃ row ∈ db.challenges, c = row.record := by
  obtain ⟨res, hres, -, hmap⟩ := readChallenges_some hr
  constructor
  · intro hc
    obtain ⟨values, hmem, hbind⟩ := Readers.mem_of_mapM hmap hc
    obtain ⟨row, hrow, rfl⟩ := List.mem_map.1 ((h.mem_rows hres).1 hmem)
    rw [bindChallenge_values (hk.challengesFit row hrow)] at hbind
    exact ⟨row, hrow, (Option.some.inj hbind).symm⟩
  · rintro ⟨row, hrow, rfl⟩
    obtain ⟨c, hc, hbind⟩ := Readers.mapM_of_mem hmap
      ((h.mem_rows hres).2 (List.mem_map_of_mem hrow))
    rw [bindChallenge_values (hk.challengesFit row hrow)] at hbind
    exact Option.some.inj hbind ▸ hc

/-- the challenge that is found is the row with the id -/
theorem findChallenge_row {c : Challenge} (hf : findChallenge challenges id = some c) :
    ∃ row ∈ db.challenges, row.id = id ∧ c = row.record := by
  obtain ⟨row, hrow, rfl⟩ := (mem_readChallenges h hk hr c).1 (List.mem_of_find?_eq_some hf)
  have hid := List.find?_some hf
  simp only [ChallengeRow.record, beq_iff_eq, Int.natCast_inj] at hid
  exact ⟨row, hrow, hid, rfl⟩

/-- where none is found there is no row with the id -/
theorem findChallenge_none (hf : findChallenge challenges id = none) :
    ∀ row ∈ db.challenges, row.id ≠ id := by
  intro row hrow hid
  have hno := List.find?_eq_none.1 hf _ ((mem_readChallenges h hk hr _).2 ⟨row, hrow, rfl⟩)
  simp [ChallengeRow.record, hid] at hno

end

/-- a stored result set of challenges is read where memory suffices -/
theorem readChallenges_stored {res : ResultSet} (h : Exec dateFormat now .selectChallenges db r db')
    (hk : Keyed db) (hres : r.stored = some res) : readChallenges true r ≠ none := by
  obtain ⟨-, -, hf, -, -⟩ := h.resultSet hres
  have hrows : (res.rows.mapM bindChallenge).isSome = true := by
    rw [Readers.mapM_isSome_iff]
    intro values hmem
    obtain ⟨row, hrow, rfl⟩ := List.mem_map.1 ((h.mem_rows hres).1 hmem)
    rw [bindChallenge_values (hk.challengesFit row hrow)]
    rfl
  unfold readChallenges bindChallenges bindChallengesImpl
  simp only [hres, hf, columns, ne_eq, not_true_eq_false, if_false, Bool.true_eq_false, or_false]
  split
  · simp
  · intro hnone
    rw [hnone] at hrows
    cases hrows

/-! ## answers -/

theorem bindAnswerId_digits {n m : Nat} (h : bindAnswerId (Decimal.digits n) = some m) : m = n := by
  have hall := Decimal.digits_isDigit n
  have hskip : Json.skipWhitespace (Decimal.digits n) = Decimal.digits n := by
    cases hd : Decimal.digits n with
    | nil => rfl
    | cons c rest =>
      rw [hd] at hall
      have hc := (Decimal.isDigit_iff c).1 (hall c List.mem_cons_self)
      refine List.dropWhile_cons_of_neg ?_
      simp only [Json.isSpace, Bool.or_eq_true, beq_iff_eq, UInt8.ext_iff]
      show ¬ (((c.toNat = 32 ∨ c.toNat = 9) ∨ c.toNat = 10) ∨ c.toNat = 13)
      omega
  have hloop := Json.positiveLoop_digits 0 (Decimal.digits n) [] hall (by simp)
  rw [List.append_nil] at hloop
  unfold bindAnswerId Json.readPositiveInteger at h
  rw [hskip] at h
  split at h
  · next id hread =>
    cases h
    split at hread
    · cases hread
    next c rest hd =>
    split at hread
    · cases hread
    rw [← hd, hloop, Option.map_eq_some_iff] at hread
    obtain ⟨k, hk, heq⟩ := hread
    cases heq
    rw [Decimal.readGuarded_iff INT_MAX 0 m _ (by decide) (Nat.zero_le _)] at hk
    exact hk.2.1.symm.trans (Decimal.value_digits n)
  · cases h

/-- the columns of an answer with its user -/
def AnswerRow.values (dateFormat : Int → Bytes) (row : AnswerRow) (user : UserRow) :
    List (Option Bytes) :=
  [some (Decimal.digits row.id), some (Decimal.digits row.challengeId), some row.userId,
    some row.answer,
    some (if row.isCorrect then ascii "1" else ascii "0"), row.createdAt.map dateFormat,
    some user.username]

/-- a row as `bind_answers` reads it -/
def AnswerRow.record (dateFormat : Int → Bytes) (row : AnswerRow) (username : Bytes)
    (createdAt : Int) : Answer :=
  ⟨row.id, row.challengeId, row.userId, username, row.answer, row.isCorrect, dateFormat createdAt⟩

theorem bindAnswer_values {row : AnswerRow} {user : UserRow} {answer : Answer}
    (h : bindAnswer (row.values dateFormat user) = some answer) :
    ∃ createdAt, row.createdAt = some createdAt ∧ answer = row.record dateFormat user.username
      createdAt := by
  unfold AnswerRow.values at h
  cases hc : row.createdAt with
  | none => rw [hc] at h; cases h
  | some createdAt =>
    rw [hc, Option.map_some, bindAnswer] at h
    split at h
    · next id challengeId hid hchallenge =>
      rw [Option.ite_none_right_eq_some] at h
      obtain ⟨-, heq⟩ := h
      rw [bindAnswerId_digits hid, bindAnswerId_digits hchallenge] at heq
      have hflag : ((if row.isCorrect then ascii "1" else ascii "0") == [49]) = row.isCorrect := by
        cases row.isCorrect <;> decide +kernel
      rw [hflag] at heq
      exact ⟨createdAt, rfl, (Option.some.inj heq).symm⟩
    · cases h

/-- the answers of a list that was read are rows of the table, each with the name of its user -/
theorem mem_bindAnswers {mem : Bool} {answers : List Answer} {answer : Answer}
    (h : Exec dateFormat now .selectAnswers db r db') (hr : bindAnswers mem r = some answers)
    (hmem : answer ∈ answers) :
    ∃ row ∈ db.answers, ∃ user ∈ db.users, user.id = row.userId ∧ ∃ createdAt, row.createdAt =
      some createdAt ∧
      answer = row.record dateFormat user.username createdAt := by
  obtain ⟨res, hres, -, hmap⟩ := bindRows_some hr
  obtain ⟨values, hvalues, hbind⟩ := Readers.mem_of_mapM hmap hmem
  have hrows := (h.mem_rows hres).1 hvalues
  simp only [Db.rows, List.mem_filterMap, Option.map_eq_some_iff, List.mem_mergeSort] at hrows
  obtain ⟨row, hrow, user, huser, rfl⟩ := hrows
  obtain ⟨createdAt, hcreated, heq⟩ :=
    bindAnswer_values (show bindAnswer (row.values _ user) = some answer from hbind)
  exact ⟨row, hrow, user, List.mem_of_find?_eq_some
    huser, by simpa using List.find?_some huser, createdAt, hcreated, heq⟩

end

end Store

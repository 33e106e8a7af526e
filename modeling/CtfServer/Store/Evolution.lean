import Mathlib.Data.List.Nodup
import CtfServer.Store.Tables

/-!
# How the tables evolve

* `write_cases`     what each INSERT, UPDATE and DELETE does;
* `Keyed`           the keys of the tables;
* `Evolves`         what no statement undoes: users stay, ids are not given twice, a challenge
                    keeps its creator, and an answer its values;
* `Exec.keyed`, `Exec.evolves`   both for every execution.
-/

set_option linter.unusedVariables false
set_option linter.unusedSimpArgs false

namespace Store

open App (Query DbResult AUTH_CLOCK_SKEW)
open Json (INT_MAX)

/-! ## the statements -/

/-- the row that an UPDATE or DELETE of a challenge is about -/
def ChallengeRow.hit (id : Nat) (creatorId : Bytes) (row : ChallengeRow) : Bool :=
  row.id == id && row.creatorId == creatorId

/-- what a write does; `affected` and `insertId` as the client sees them -/
inductive Written (now : Int) (k : Nat) (db : Db) : Query → Db → Nat → Nat → Prop where
  | insertUser {id username passwordHash : Bytes}
      (hfree : ∀ user ∈ db.users, user.id ≠ id ∧ user.username ≠ username) :
      Written now k db (.insertUser id username passwordHash)
        { db with users := db.users ++ [⟨id, username, passwordHash, now⟩] } 1 0
  | insertChallenge {creatorId name description flag : Bytes} {genre : Nat}
      (hk : db.nextChallenge ≤ k)
      (hmax : k ≤ INT_MAX) (hu : ∃ user ∈ db.users, user.id = creatorId) :
      Written now k db (.insertChallenge creatorId name description flag genre)
        { db with
          challenges := db.challenges ++ [⟨k, creatorId, name, description, flag, genre⟩]
          nextChallenge := k + 1 } 1 k
  | updateChallenge {name description flag : Bytes} {genre id : Nat} {creatorId : Bytes} :
      Written now k db (.updateChallenge name description flag genre id creatorId)
        { db with
          challenges := db.challenges.map fun row =>
            if row.hit id creatorId then row.updated name description flag genre else row }
        (db.challenges.countP fun row =>
          row.hit id creatorId && row.updated name description flag genre != row) 0
  | deleteChallenge {id : Nat} {creatorId : Bytes} :
      Written now k db (.deleteChallenge id creatorId)
        { db with
          challenges := db.challenges.filter fun row => !row.hit id creatorId
          answers := db.answers.filter fun answer =>
            !(db.challenges.any fun row => row.hit id creatorId && row.id == answer.challengeId) }
        (db.challenges.countP fun row => row.hit id creatorId) 0
  | insertAnswer {challengeId : Nat} {userId answer : Bytes} {isCorrect : Bool}
      (hk : db.nextAnswer ≤ k)
      (hmax : k ≤ INT_MAX) (hc : ∃ row ∈ db.challenges, row.id = challengeId)
      (hu : ∃ user ∈ db.users, user.id = userId) :
      Written now k db (.insertAnswer challengeId userId answer isCorrect)
        { db with
          answers := db.answers ++ [⟨k, challengeId, userId, answer, isCorrect, some now⟩]
          nextAnswer := k + 1 } 1 k
  | deleteExpiredSessions :
      Written now k db .deleteExpiredSessions
        { db with sessions := db.sessions.filter fun row => !decide (row.expiresAt ≤ now - AUTH_CLOCK_SKEW) }
        (db.sessions.countP fun row => decide (row.expiresAt ≤ now - AUTH_CLOCK_SKEW)) 0
  | insertSession {id userId : Bytes} {issuedAt expiresAt : Int}
      (hfree : ∀ row ∈ db.sessions, row.id ≠ id)
      (hu : ∃ user ∈ db.users, user.id = userId) :
      Written now k db (.insertSession id userId issuedAt expiresAt)
        { db with sessions := db.sessions ++ [⟨id, userId, issuedAt, expiresAt⟩] } 1 0
  | deleteSession {id userId : Bytes} :
      Written now k db (.deleteSession id userId)
        { db with sessions := db.sessions.filter fun row =>
          !(row.id == id && row.userId == userId) }
        (db.sessions.countP fun row => row.id == id && row.userId == userId) 0

/-- **a write that succeeds fits the columns and is one of these** -/
theorem write_cases {now : Int} {k : Nat} {db db' : Db} {q : Query} {affected insertId : Nat}
    (h : db.write now k q = some (db', affected, insertId)) :
    fits q = true ∧ Written now k db q db' affected insertId := by
  unfold Db.write at h
  split at h
  · cases h
  next hfits =>
  refine ⟨not_not.1 hfits, ?_⟩
  cases q <;> dsimp only at h
  case insertUser id username passwordHash =>
    split at h
    · cases h
    · next hfree =>
      cases h
      refine .insertUser fun user hu => ?_
      simp only [Bool.not_eq_true, List.any_eq_false, Bool.or_eq_true, beq_iff_eq, not_or] at hfree
      exact hfree user hu
  case insertChallenge creatorId name description flag genre =>
    split at h
    · cases h
    · next hok =>
      cases h
      simp only [not_or, not_not, not_lt, List.any_eq_true, beq_iff_eq] at hok
      exact .insertChallenge hok.1 hok.2.1 hok.2.2
  case updateChallenge => cases h; exact .updateChallenge
  case deleteChallenge => cases h; exact .deleteChallenge
  case insertAnswer =>
    split at h
    · cases h
    · next hok =>
      cases h
      simp only [not_or, not_not, not_lt, List.any_eq_true, beq_iff_eq] at hok
      exact .insertAnswer hok.1 hok.2.1 hok.2.2.1 hok.2.2.2
  case deleteExpiredSessions => cases h; exact .deleteExpiredSessions
  case insertSession =>
    split at h
    · cases h
    · next hok =>
      cases h
      simp only [not_or, not_not, Bool.not_eq_true, List.any_eq_false, List.any_eq_true,
        beq_iff_eq] at hok
      exact .insertSession (fun row hr he => hok.1 ⟨row, hr, he⟩) hok.2
  case deleteSession => cases h; exact .deleteSession
  all_goals cases h

/-- an execution leaves the tables alone, or is a write -/
theorem Exec.cases {dateFormat : Int → Bytes} {now : Int} {q : Query} {db db' : Db} {r : DbResult}
    (h : Exec dateFormat now q db r db') :
    db' = db ∧ (r.success = false ∨ q.isSelect = true) ∨
      r.success = true ∧ fits q = true ∧ ∃ k, Written now k db q db' r.affected r.insertId := by
  cases h with
  | failed hr => exact .inl ⟨rfl, .inl hr⟩
  | select hq => exact .inl ⟨rfl, .inr hq⟩
  | lost hq => exact .inl ⟨rfl, .inr hq⟩
  | write k hr hres hw => exact .inr ⟨hr, (write_cases hw).1, k, (write_cases hw).2⟩

/-! ## keys -/

/-- the keys of the tables, and the range of the ids of challenges -/
structure Keyed (db : Db) : Prop where
  users : (db.users.map UserRow.id).Nodup
  usernames : (db.users.map UserRow.username).Nodup
  challenges : (db.challenges.map ChallengeRow.id).Nodup
  challengesBelow : ∀ row ∈ db.challenges, row.id < db.nextChallenge
  challengesFit : ∀ row ∈ db.challenges, row.id ≤ INT_MAX
  answers : (db.answers.map AnswerRow.id).Nodup
  answersBelow : ∀ row ∈ db.answers, row.id < db.nextAnswer
  sessions : (db.sessions.map SessionRow.id).Nodup

theorem nodup_snoc {α β : Type} {f : α → β} {l : List α} {a : α} (h : (l.map f).Nodup)
    (ha : ∀ b ∈ l, f b ≠ f a) : ((l ++ [a]).map f).Nodup := by
  rw [List.map_append, List.map_singleton, List.nodup_append]
  refine ⟨h, List.nodup_singleton _, ?_⟩
  intro x hx y hy
  obtain ⟨b, hb, rfl⟩ := List.mem_map.1 hx
  rw [List.mem_singleton.1 hy]
  exact ha b hb

theorem nodup_filter {α β : Type} {f : α → β} {l : List α} (p : α → Bool) (h : (l.map f).Nodup) :
    ((l.filter p).map f).Nodup := h.sublist (List.filter_sublist.map f)

theorem Written.keyed {now : Int} {k : Nat} {db db' : Db} {q : Query} {a i : Nat}
    (h : Written now k db q db' a i) (hk : Keyed db) : Keyed db' := by
  cases h with
  | insertUser hfree =>
    exact { hk with
      users := nodup_snoc hk.users fun user hu => (hfree user hu).1
      usernames := nodup_snoc hk.usernames fun user hu => (hfree user hu).2 }
  | insertChallenge hnext hmax hu =>
    refine { hk with
      challenges := nodup_snoc hk.challenges fun row hr => ?_, challengesBelow :=
      ?_, challengesFit := ?_ }
    · have := hk.challengesBelow row hr
      dsimp only
      omega
    · intro row hr
      rcases List.mem_append.1 hr with hr | hr
      · have := hk.challengesBelow row hr
        dsimp only
        omega
      · rw [List.mem_singleton.1 hr]
        exact Nat.lt_succ_self k
    · intro row hr
      rcases List.mem_append.1 hr with hr | hr
      · exact hk.challengesFit row hr
      · rw [List.mem_singleton.1 hr]
        exact hmax
  | @updateChallenge name description flag genre id creatorId =>
    have hid : ∀ row : ChallengeRow,
        (if row.hit id creatorId then row.updated name description flag genre else row).id
        = row.id := by
      intro row
      split <;> rfl
    refine { hk with challenges := ?_, challengesBelow := ?_, challengesFit := ?_ }
    · rw [List.map_map]
      exact (List.map_congr_left fun row _ => hid row).symm ▸ hk.challenges
    · intro row hr
      obtain ⟨old, hold, rfl⟩ := List.mem_map.1 hr
      rw [hid]
      exact hk.challengesBelow old hold
    · intro row hr
      obtain ⟨old, hold, rfl⟩ := List.mem_map.1 hr
      rw [hid]
      exact hk.challengesFit old hold
  | deleteChallenge =>
    exact { hk with
      challenges := nodup_filter _ hk.challenges
      challengesBelow := fun row hr => hk.challengesBelow row (List.mem_filter.1 hr).1
      challengesFit := fun row hr => hk.challengesFit row (List.mem_filter.1 hr).1
      answers := nodup_filter _ hk.answers
      answersBelow := fun row hr => hk.answersBelow row (List.mem_filter.1 hr).1 }
  | insertAnswer hnext hmax hc hu =>
    refine { hk with answers := nodup_snoc hk.answers fun row hr => ?_, answersBelow := ?_ }
    · have := hk.answersBelow row hr
      dsimp only
      omega
    · intro row hr
      rcases List.mem_append.1 hr with hr | hr
      · have := hk.answersBelow row hr
        dsimp only
        omega
      · rw [List.mem_singleton.1 hr]
        exact Nat.lt_succ_self k
  | deleteExpiredSessions => exact { hk with sessions := nodup_filter _ hk.sessions }
  | insertSession hfree hu => exact { hk with sessions := nodup_snoc hk.sessions hfree }
  | deleteSession => exact { hk with sessions := nodup_filter _ hk.sessions }

theorem Exec.keyed {dateFormat : Int → Bytes} {now : Int} {q : Query} {db db' : Db} {r : DbResult}
    (h : Exec dateFormat now q db r db') (hk : Keyed db) : Keyed db' := by
  rcases h.cases with ⟨rfl, -⟩ | ⟨-, -, k, hw⟩
  · exact hk
  · exact hw.keyed hk

/-! ## evolution -/

structure Evolves (db db' : Db) : Prop where
  users : db.users <+: db'.users
  nextChallenge : db.nextChallenge ≤ db'.nextChallenge
  /-- a challenge with an id from before was there before, with the same creator -/
  challenges : ∀ row' ∈ db'.challenges, row'.id < db.nextChallenge →
    ∃ row ∈ db.challenges, row.id = row'.id ∧ row.creatorId = row'.creatorId
  nextAnswer : db.nextAnswer ≤ db'.nextAnswer
  /-- an answer with an id from before was there before -/
  answers : ∀ row ∈ db'.answers, row.id < db.nextAnswer → row ∈ db.answers

theorem Evolves.refl (db : Db) : Evolves db db :=
  ⟨List.prefix_refl _, Nat.le_refl _, fun row h _ => ⟨row, h, rfl, rfl⟩, Nat.le_refl _,
    fun _ h _ => h⟩

theorem Evolves.trans {db1 db2 db3 : Db} (h1 : Evolves db1 db2) (h2 : Evolves db2 db3) :
    Evolves db1 db3 := by
  refine ⟨h1.users.trans h2.users, h1.nextChallenge.trans h2.nextChallenge, ?_,
    h1.nextAnswer.trans h2.nextAnswer, ?_⟩
  · intro row3 h3 hid
    obtain ⟨row2, hrow2, hid2, hcr2⟩ := h2.challenges row3 h3 (hid.trans_le h1.nextChallenge)
    obtain ⟨row1, hrow1, hid1, hcr1⟩ := h1.challenges row2 hrow2 (hid2 ▸ hid)
    exact ⟨row1, hrow1, hid1.trans hid2, hcr1.trans hcr2⟩
  · intro row h3 hid
    exact h1.answers row (h2.answers row h3 (hid.trans_le h1.nextAnswer)) hid

theorem Written.evolves {now : Int} {k : Nat} {db db' : Db} {q : Query} {a i : Nat}
    (h : Written now k db q db' a i) : Evolves db db' := by
  have hr := Evolves.refl db
  cases h with
  | insertUser hfree => exact { hr with users := List.prefix_append _ _ }
  | insertChallenge hnext hmax hu =>
    refine { hr with nextChallenge := Nat.le_succ_of_le hnext, challenges :=
      fun row' hrow hid => ?_ }
    rcases List.mem_append.1 hrow with hrow | hrow
    · exact ⟨row', hrow, rfl, rfl⟩
    · rw [List.mem_singleton.1 hrow] at hid
      exact absurd hid (Nat.not_lt.2 hnext)
  | @updateChallenge name description flag genre id creatorId =>
    refine { hr with challenges := fun row' hrow hid => ?_ }
    obtain ⟨row, hmem, rfl⟩ := List.mem_map.1 hrow
    refine ⟨row, hmem, ?_⟩
    split <;> exact ⟨rfl, rfl⟩
  | deleteChallenge =>
    exact { hr with
      challenges := fun row hrow _ => ⟨row, (List.mem_filter.1 hrow).1, rfl, rfl⟩
      answers := fun row hrow _ => (List.mem_filter.1 hrow).1 }
  | insertAnswer hnext hmax hc hu =>
    refine { hr with nextAnswer := Nat.le_succ_of_le hnext, answers := fun row hrow hid => ?_ }
    rcases List.mem_append.1 hrow with hrow | hrow
    · exact hrow
    · rw [List.mem_singleton.1 hrow] at hid
      exact absurd hid (Nat.not_lt.2 hnext)
  | deleteExpiredSessions => exact { hr with }
  | insertSession hfree hu => exact { hr with }
  | deleteSession => exact { hr with }

theorem Exec.evolves {dateFormat : Int → Bytes} {now : Int} {q : Query} {db db' : Db} {r : DbResult}
    (h : Exec dateFormat now q db r db') : Evolves db db' := by
  rcases h.cases with ⟨rfl, -⟩ | ⟨-, -, k, hw⟩
  · exact .refl _
  · exact hw.evolves

end Store

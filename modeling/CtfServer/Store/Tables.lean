import CtfServer.App.Database
import CtfServer.App.Output

/-!
# The database

The tables of 0_schema.sql and the statements of the handlers on them.  The database is strict: a
value that does not fit its column makes the statement fail, and a failed statement changes
nothing.  Each statement is atomic.

* `Db`            the tables, with the counters of the `AUTO_INCREMENT` columns;
* `Query.fits`    the lengths, `NOT NULL` and `CHECK` of the columns that a statement writes;
* `Db.write`      an INSERT, UPDATE or DELETE;
* `Db.rows`       the rows of a SELECT;
* `Exec`          the execution of a statement.
-/

set_option linter.unusedVariables false

namespace Store

open App (Query DbResult ResultSet intText AUTH_TIME_MAX AUTH_CLOCK_SKEW)
open Json (INT_MAX)

/-! ## tables -/

structure UserRow where
  id : Bytes
  username : Bytes
  passwordHash : Bytes
  createdAt : Int
  deriving DecidableEq, Repr

structure ChallengeRow where
  id : Nat
  creatorId : Bytes
  name : Bytes
  description : Bytes
  flag : Bytes
  genre : Nat
  deriving DecidableEq, Repr

structure AnswerRow where
  id : Nat
  challengeId : Nat
  userId : Bytes
  answer : Bytes
  isCorrect : Bool
  createdAt : Option Int
  deriving DecidableEq, Repr

structure SessionRow where
  id : Bytes
  userId : Bytes
  issuedAt : Int
  expiresAt : Int
  deriving DecidableEq, Repr

/-- the tables; a `DATETIME` is its second since 1970 -/
structure Db where
  users : List UserRow := []
  challenges : List ChallengeRow := []
  answers : List AnswerRow := []
  sessions : List SessionRow := []
  /-- the next values of the `AUTO_INCREMENT` columns -/
  nextChallenge : Nat := 1
  nextAnswer : Nat := 1
  deriving DecidableEq, Repr

/-! ## columns -/

/-- `CHAR(n)` and `VARCHAR(n)` of ascii -/
def fitsAscii (n : Nat) (value : Bytes) : Bool := value.length ≤ n && value.all (· < 128)

/-- `VARCHAR(255)` of utf8mb4: UTF-8 text of that many characters -/
def fitsText (value : Bytes) : Bool :=
  value.toByteArray.utf8Decode?.any fun characters => characters.size ≤ 255

/-- `TEXT` -/
def fitsLongText (value : Bytes) : Bool := value.length ≤ 65535

/-- `DATE_ADD('1970-01-01', INTERVAL n SECOND)` is a date; out of range it is `NULL` -/
def fitsDate (n : Int) : Bool := decide (0 ≤ n) && decide (n ≤ AUTH_TIME_MAX)

/-- the column lengths, `NOT NULL` and `CHECK` that a statement has to meet -/
def fits : Query → Bool
  | .insertUser id username passwordHash =>
    fitsAscii 32 id && fitsAscii 32 username && fitsAscii 255 passwordHash
  | .insertChallenge creatorId name description flag genre =>
    fitsAscii 32 creatorId && fitsText name && fitsLongText description && fitsText flag &&
      genre ≤ INT_MAX
  | .updateChallenge name description flag genre _ _ =>
    fitsText name && fitsLongText description && fitsText flag && genre ≤ INT_MAX
  | .insertAnswer _ userId answer _ => fitsAscii 32 userId && fitsText answer
  | .insertSession id userId issuedAt expiresAt =>
    fitsAscii 32 id && fitsAscii 32 userId && fitsDate issuedAt && fitsDate expiresAt &&
      decide (issuedAt < expiresAt)
  | _ => true

/-! ## writes -/

/-- the challenge with the new values of an UPDATE -/
def ChallengeRow.updated (row : ChallengeRow) (name description flag : Bytes) (genre : Nat) :
    ChallengeRow :=
  { row with name := name, description := description, flag := flag, genre := genre }

/-- an INSERT, UPDATE or DELETE at `now`: the new tables, the changed rows and the new id; `none`
where a constraint is violated.  `k` is the new id of an `AUTO_INCREMENT` column; it may be any
that was not given before. -/
def Db.write (now : Int) (k : Nat) (db : Db) (q : Query) : Option (Db × Nat × Nat) :=
  if ¬ fits q then none
  else
    match q with
    | .insertUser id username passwordHash =>
      if db.users.any (fun user => user.id == id || user.username == username) then none
      else some ({ db with users := db.users ++ [⟨id, username, passwordHash, now⟩] }, 1, 0)
    | .insertChallenge creatorId name description flag genre =>
      if k < db.nextChallenge ∨ INT_MAX < k ∨
        ¬ db.users.any (fun user => user.id == creatorId) then none
      else
        some ({ db with
          challenges := db.challenges ++ [⟨k, creatorId, name, description, flag, genre⟩]
          nextChallenge := k + 1 }, 1, k)
    | .updateChallenge name description flag genre id creatorId =>
      let hit := fun (row : ChallengeRow) => row.id == id && row.creatorId == creatorId
      let changed := fun (row : ChallengeRow) => hit row && row.updated name description
        flag genre != row
      some ({ db with
        challenges := db.challenges.map fun row =>
          if hit row then row.updated name description flag genre else row },
            db.challenges.countP changed, 0)
    | .deleteChallenge id creatorId =>
      let hit := fun (row : ChallengeRow) => row.id == id && row.creatorId == creatorId
      let kept := db.challenges.filter fun row => !hit row
      -- `ON DELETE CASCADE`
      some ({ db with
        challenges := kept
        answers := db.answers.filter fun answer =>
          !(db.challenges.any fun row => hit row && row.id == answer.challengeId) },
        db.challenges.countP hit, 0)
    | .insertAnswer challengeId userId answer isCorrect =>
      if k < db.nextAnswer ∨ INT_MAX < k ∨ ¬ db.challenges.any (fun row => row.id == challengeId) ∨
          ¬ db.users.any (fun user => user.id == userId) then none
      else
        some ({ db with
          answers := db.answers ++ [⟨k, challengeId, userId, answer, isCorrect, some now⟩]
          nextAnswer := k + 1 }, 1, k)
    | .deleteExpiredSessions =>
      let expired := fun (row : SessionRow) => decide (row.expiresAt ≤ now - AUTH_CLOCK_SKEW)
      some ({ db with sessions := db.sessions.filter fun row => !expired row },
        db.sessions.countP expired, 0)
    | .insertSession id userId issuedAt expiresAt =>
      if db.sessions.any (fun row => row.id == id) ∨
        ¬ db.users.any (fun user => user.id == userId) then none
      else some ({ db with sessions := db.sessions ++ [⟨id, userId, issuedAt, expiresAt⟩] }, 1, 0)
    | .deleteSession id userId =>
      let hit := fun (row : SessionRow) => row.id == id && row.userId == userId
      some ({ db with sessions := db.sessions.filter fun row => !hit row },
        db.sessions.countP hit, 0)
    | _ => none

/-! ## result sets -/

/-- the number of columns of a SELECT -/
def columns : Query → Nat
  | .selectPublicUsers | .selectOwners => 2
  | .selectUsers | .selectScoreAnswers => 3
  | .selectSessions => 4
  | .selectChallengesWithoutFlag => 5
  | .selectChallenges | .selectHello => 6
  | .selectAnswers => 7
  | _ => 0

/-- the user of an id -/
def Db.user? (db : Db) (id : Bytes) : Option UserRow := db.users.find? fun user => user.id == id

section
variable (dateFormat : Int → Bytes)

/-- the columns of a challenge row -/
def ChallengeRow.values (row : ChallengeRow) : List (Option Bytes) :=
  [some (Decimal.digits row.id), some row.creatorId, some row.name, some row.description,
    some row.flag,
    some (Decimal.digits row.genre)]

/-- the rows of a SELECT; `dateFormat` is `DATE_FORMAT(.., '%Y-%m-%dT%H:%i:%sZ')` -/
def Db.rows (now : Int) (db : Db) : Query → List (List (Option Bytes))
  | .selectUsers =>
    db.users.map fun user => [some user.id, some user.username, some user.passwordHash]
  | .selectPublicUsers => db.users.map fun user => [some user.id, some user.username]
  | .selectScoreAnswers =>
    (db.answers.filter fun row => row.isCorrect).map fun row =>
      [some row.userId, some (Decimal.digits row.challengeId), row.createdAt.map intText]
  | .selectChallenges | .selectHello => db.challenges.map ChallengeRow.values
  | .selectChallengesWithoutFlag =>
    db.challenges.map fun row =>
      [some (Decimal.digits row.id), some row.creatorId, some row.name, some row.description,
        some (Decimal.digits row.genre)]
  | .selectOwners => db.challenges.map fun row => [some (Decimal.digits row.id), some row.creatorId]
  | .selectAnswers =>
    (db.answers.mergeSort fun a b => a.id ≤ b.id).filterMap fun row =>
      (db.user? row.userId).map fun user =>
        [some (Decimal.digits row.id), some (Decimal.digits row.challengeId), some row.userId,
          some row.answer,
          some (if row.isCorrect then ascii "1" else ascii "0"), row.createdAt.map dateFormat,
          some user.username]
  | .selectSessions =>
    (db.sessions.filter fun row => decide (now - AUTH_CLOCK_SKEW < row.expiresAt)).filterMap
      fun row =>
      (db.user? row.userId).map fun user =>
        [some row.id, some user.id, some (intText row.issuedAt), some (intText row.expiresAt)]
  | _ => []

/-- the execution of a statement when the clock of the database is at `now` -/
inductive Exec (now : Int) : Query → Db → DbResult → Db → Prop where
  /-- no connection, no memory, or a violated constraint -/
  | failed {q : Query} {db : Db} {r : DbResult} (hr : r.success = false) : Exec now q db r db
  /-- the rows come in any order, unless the statement fixes it -/
  | select {q : Query} {db : Db} {r : DbResult} {res : ResultSet} (hq : q.isSelect = true)
      (hr : r.success = true)
      (hres : r.res = some res) (hf : res.fields = columns q)
      (hrows : res.rows.Perm (db.rows dateFormat now q))
      (hsort : q = .selectAnswers → res.rows = db.rows dateFormat now q) : Exec now q db r db
  /-- the result set was not stored -/
  | lost {q : Query} {db : Db} {r : DbResult} (hq : q.isSelect = true) (hr : r.success = true)
      (hres : r.res = none) : Exec now q db r db
  | write {q : Query} {db db' : Db} {r : DbResult} (k : Nat) (hr : r.success = true)
      (hres : r.res = none)
      (hw : db.write now k q = some (db', r.affected, r.insertId)) : Exec now q db r db'

end

end Store

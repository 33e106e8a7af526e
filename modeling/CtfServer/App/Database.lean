import CtfServer.Json.Requests

/-!
# Statements and results

The SQL statements of the handlers, and what a db task brings back (db.h, db.c).

* `Query`       one constructor for each statement, with its parameters;
* `ResultSet`   a stored result: rows of text columns, `none` for `NULL`;
* `DbResult`    `db_result_t`.
-/

set_option linter.unusedVariables false

namespace App

/-- the statements; `?` stands for a parameter -/
inductive Query where
  /-- `SELECT id, username, password_hash FROM users` -/
  | selectUsers
  /-- `SELECT id,username FROM users` -/
  | selectPublicUsers
  /-- `SELECT user_id,challenge_id,TIMESTAMPDIFF(SECOND,'1970-01-01',created_at) FROM answers
  WHERE is_correct=1` -/
  | selectScoreAnswers
  /-- `SELECT id, creator_id, name, description, flag, genre FROM challenges` -/
  | selectChallenges
  /-- `SELECT id, creator_id, name, description, genre FROM challenges;` -/
  | selectChallengesWithoutFlag
  /-- `SELECT * FROM challenges;` -/
  | selectHello
  /-- `SELECT id, creator_id FROM challenges` -/
  | selectOwners
  /-- `SELECT a.id,a.challenge_id,a.user_id,a.answer,a.is_correct,
  DATE_FORMAT(a.created_at,'%Y-%m-%dT%H:%i:%sZ'),u.username
  FROM answers a JOIN users u ON u.id=a.user_id ORDER BY a.id` -/
  | selectAnswers
  /-- `SELECT s.id,u.id,TIMESTAMPDIFF(SECOND,'1970-01-01',s.issued_at),
  TIMESTAMPDIFF(SECOND,'1970-01-01',s.expires_at) FROM auth_sessions s
  JOIN users u ON u.id=s.user_id WHERE s.expires_at>UTC_TIMESTAMP()-INTERVAL 30 SECOND` -/
  | selectSessions
  /-- `INSERT INTO users (id, username, password_hash, created_at)
  VALUES (?, ?, ?, UTC_TIMESTAMP())` -/
  | insertUser (id username passwordHash : Bytes)
  /-- `INSERT INTO challenges (creator_id, name, description, flag, genre) VALUES (?, ?, ?, ?,
  ?)` -/
  | insertChallenge (creatorId name description flag : Bytes) (genre : Nat)
  /-- `UPDATE challenges SET name = ?, description = ?, flag = ?, genre = ?
  WHERE id = ? AND creator_id = ?` -/
  | updateChallenge (name description flag : Bytes) (genre : Nat) (id : Nat) (creatorId : Bytes)
  /-- `DELETE FROM challenges WHERE id = ? AND creator_id = ?` -/
  | deleteChallenge (id : Nat) (creatorId : Bytes)
  /-- `INSERT INTO answers (challenge_id, user_id, answer, is_correct, created_at)
  VALUES (?, ?, ?, ?, UTC_TIMESTAMP())` -/
  | insertAnswer (challengeId : Nat) (userId answer : Bytes) (isCorrect : Bool)
  /-- `DELETE FROM auth_sessions WHERE expires_at <= UTC_TIMESTAMP() - INTERVAL 30 SECOND` -/
  | deleteExpiredSessions
  /-- `INSERT INTO auth_sessions (id,user_id,issued_at,expires_at) VALUES
  (?,?,DATE_ADD('1970-01-01', INTERVAL ? SECOND),DATE_ADD('1970-01-01', INTERVAL ? SECOND))` -/
  | insertSession (id userId : Bytes) (issuedAt expiresAt : Int)
  /-- `DELETE FROM auth_sessions WHERE id=? AND user_id=?` -/
  | deleteSession (id userId : Bytes)
  deriving DecidableEq, Repr

/-- the statements that give a result set -/
def Query.isSelect : Query → Bool
  | .selectUsers | .selectPublicUsers | .selectScoreAnswers | .selectChallenges
  | .selectChallengesWithoutFlag | .selectHello | .selectOwners | .selectAnswers
    | .selectSessions => true
  | _ => false

/-! ## results -/

/-- `MYSQL_RES`: every row has one entry for each column -/
structure ResultSet where
  fields : Nat
  rows : List (List (Option Bytes))
  wf : ∀ row ∈ rows, row.length = fields
  deriving DecidableEq

/-- `db_result_t`, but for the text of the error -/
structure DbResult where
  success : Bool
  res : Option ResultSet := none
  affected : Nat := 0
  insertId : Nat := 0
  deriving DecidableEq

/-- a failed statement -/
def DbResult.failed : DbResult := { success := false }

/-- the result set of a statement that did not fail -/
def DbResult.stored (r : DbResult) : Option ResultSet := if r.success then r.res else none

/-- a db task that has come back: its statement and its result -/
structure DbTask where
  query : Query
  result : DbResult
  deriving DecidableEq

end App

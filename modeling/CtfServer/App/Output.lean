import CtfServer.App.Auth

/-!
# The bodies of responses

The writers of json.c, json_answer.c and json_user.c, and `calculate_user_scores` (score.c).  The
strings have no NUL byte, so that `%.*s` writes them whole; the text is the buffer without its
terminator.  A failed allocation is the caller's `alloc`.
-/

set_option linter.unusedVariables false

namespace App

open Json (ctfGenreToString)

/-- `%d`, `%ld` -/
def intText (value : Int) : Bytes :=
  if value < 0 then ascii "-" ++ Decimal.digits value.natAbs else Decimal.digits value.natAbs

/-! ## challenges -/

/-- `challenge_to_json_impl` -/
def challengeToJsonImpl (includeFlag : Bool) (challenge : Challenge) : Bytes :=
  ascii "\x7b\"id\":" ++ intText challenge.id ++ ascii ",\"creator_id\":\"" ++
    challenge.creatorId ++
    ascii "\",\"name\":\"" ++ challenge.name ++ ascii "\",\"description\":\"" ++
    challenge.description ++
    (if includeFlag then ascii "\",\"flag\":\"" ++ challenge.flag else []) ++
    ascii "\",\"genre\":\"" ++ ctfGenreToString challenge.genre ++ ascii "\"\x7d"

def challengeToJson (challenge : Challenge) : Bytes := challengeToJsonImpl true challenge

/-- the frame of an array -/
def arrayText (elements : List Bytes) : Bytes :=
  ascii "[" ++ (ascii ",").intercalate elements ++ ascii "]"

def challengesToJson (challenges : List Challenge) : Bytes :=
  arrayText (challenges.map (challengeToJsonImpl true))

def challengesToJsonWithoutFlag (challenges : List Challenge) : Bytes :=
  arrayText (challenges.map (challengeToJsonImpl false))

/-! ## answers -/

/-- `format_answer` -/
def formatAnswer (publicView : Bool) (answer : Answer) : Bytes :=
  if publicView then
    ascii "\x7b\"challenge_id\":" ++ intText answer.challengeId ++ ascii ",\"username\":\"" ++
      answer.username ++
      ascii "\",\"answered_at\":\"" ++ answer.createdAt ++ ascii "\"\x7d"
  else
    ascii "\x7b\"challenge_id\":" ++ intText answer.challengeId ++ ascii ",\"answer\":\"" ++
      answer.answer ++
      ascii "\",\"correct\":" ++ (if answer.isCorrected then ascii "true" else ascii "false") ++
      ascii ",\"username\":\"" ++ answer.username ++ ascii "\",\"answered_at\":\"" ++
      answer.createdAt ++
      ascii "\"\x7d"

def answerToJson (answer : Answer) : Bytes := formatAnswer false answer

def answersToJson (publicView : Bool) (answers : List Answer) : Bytes :=
  arrayText (answers.map (formatAnswer publicView))

/-! ## users -/

/-- `format_public_user` -/
def formatPublicUser (user : PublicUser) : Bytes :=
  ascii "\x7b\"id\":\"" ++ user.id ++ ascii "\",\"username\":\"" ++ user.username ++
    ascii "\",\"score\":" ++
    intText user.score ++ ascii "\x7d"

def publicUsersToJson (users : List PublicUser) : Bytes := arrayText (users.map formatPublicUser)

/-! ## scores -/

/-- `compare_user_ids(a, b) <= 0` -/
def compareUserIds (a b : PublicUser) : Bool := decide (a.id ≤ b.id)

/-- `compare_answers(a, b) <= 0` -/
def compareAnswers (a b : ScoreAnswer) : Bool :=
  if a.userId = b.userId then decide (a.challengeId ≤ b.challengeId) else
    decide (a.userId ≤ b.userId)

/-- `compare_scores(a, b) <= 0` -/
def compareScores (a b : PublicUser) : Bool :=
  if a.score ≠ b.score then decide (b.score < a.score) else decide (a.id ≤ b.id)

/-- the inner loop: the score of one user, and the answers of the users after it -/
def scoreLoop (ended : ScoreAnswer → Bool) (id : Bytes) (score : Int) (last : Nat) :
    List ScoreAnswer → Int × List ScoreAnswer
  | [] => (score, [])
  | answer :: answers =>
    if id < answer.userId then (score, answer :: answers)
    else if answer.userId < id ∨ ended answer then scoreLoop ended id score last answers
    else if answer.challengeId ≠ last then scoreLoop ended id (score + 100)
      answer.challengeId answers
    else scoreLoop ended id score last answers

/-- the outer loop -/
def scoreUsers (ended : ScoreAnswer → Bool) : List PublicUser → List ScoreAnswer → List PublicUser
  | [], _ => []
  | user :: users, answers =>
    let (score, answers) := scoreLoop ended user.id 0 0 answers
    { user with score := score } :: scoreUsers ended users answers

/-- `calculate_user_scores`; `qsort` is a merge sort -/
def calculateUserScores (users : List PublicUser) (answers : List ScoreAnswer) (endEnabled : Bool)
    (endAt : Int) :
    List PublicUser :=
  let ended := fun (answer : ScoreAnswer) => endEnabled && decide (answer.createdAt ≥ endAt)
  (scoreUsers ended (users.mergeSort compareUserIds) (answers.mergeSort compareAnswers)).mergeSort
  compareScores

end App

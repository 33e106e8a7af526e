import CtfServer.Lib.Readers
import CtfServer.App.Database

/-!
# From rows to records

`bind_challenges`, `bind_answers` (repository.c) and `bind_users`, `bind_auth_sessions`,
`bind_public_users`, `bind_score_answers` (repository_auth.c).  A reader of a row gives `none`
where the C code goes to its error exit: one bad row and the whole list is refused.  `mem` says
that the allocations of the list and of its strings succeed.
-/

set_option linter.unusedVariables false

namespace App

open Json (CtfGenre validUsername isUsernameByte readPositiveInteger INT_MAX)

/-! ## numbers -/

/-- `isspace` -/
def isSpaceC (c : UInt8) : Bool := c == 32 || (9 ≤ c && c ≤ 13)

def LONG_MAX : Int := 2^63 - 1
def LONG_MIN : Int := -2^63

/-- `strtol` with base 10: leading white space, a sign, the digits, the limits of `long` -/
def strtol (str : Bytes) : Int :=
  let str := str.dropWhile isSpaceC
  let number := fun (ds : Bytes) => (Decimal.value (ds.takeWhile Decimal.isDigit) : Int)
  match str with
  | [] => 0
  | c :: rest =>
    if c = 45 then max LONG_MIN (-(number rest))
    else if c = 43 then min LONG_MAX (number rest)
    else min LONG_MAX (number str)

/-- the cast from `long` to `int` -/
def toInt (v : Int) : Int := Int.bmod v (2^32)

theorem digit_signs {c : UInt8} (h : Decimal.isDigit c = true) :
    ¬ isSpaceC c = true ∧ c ≠ 45 ∧ c ≠ 43 := by
  have hc := (Decimal.isDigit_iff c).1 h
  refine ⟨?_, ?_, ?_⟩
  · simp only [isSpaceC, Bool.or_eq_true, beq_iff_eq, Bool.and_eq_true, decide_eq_true_eq,
      UInt8.le_iff_toNat_le,
      UInt8.ext_iff]
    show ¬ (c.toNat = 32 ∨ 9 ≤ c.toNat ∧ c.toNat ≤ 13)
    omega
  · rintro rfl
    revert hc
    decide
  · rintro rfl
    revert hc
    decide

theorem takeWhile_numeral (n : Nat) {r : Bytes} (hr : ∀ c ∈ r.head?, Decimal.isDigit c = false) :
    (Decimal.digits n ++ r).takeWhile Decimal.isDigit = Decimal.digits n := by
  rw [List.takeWhile_append_of_pos (Decimal.digits_isDigit n)]
  cases r with
  | nil => exact List.append_nil _
  | cons x r =>
    rw [List.takeWhile_cons_of_neg (by rw [hr x rfl]; decide)]
    exact List.append_nil _

/-- a numeral that ends in front of `r` -/
theorem strtol_numeral (n : Nat) {r : Bytes} (hr : ∀ c ∈ r.head?, Decimal.isDigit c = false) :
    strtol (Decimal.digits n ++ r) = min LONG_MAX n := by
  have hall := Decimal.digits_isDigit n
  have hval := Decimal.value_digits n
  have htake := takeWhile_numeral n hr
  cases hd : Decimal.digits n with
  | nil => exact absurd hd (Decimal.digits_ne_nil n)
  | cons c rest =>
    rw [hd] at hall hval htake
    obtain ⟨hspace, hminus, hplus⟩ := digit_signs (hall c List.mem_cons_self)
    rw [List.cons_append] at htake ⊢
    unfold strtol
    rw [List.dropWhile_cons_of_neg hspace]
    simp only [hminus, hplus, if_false, htake, hval]

theorem toInt_numeral {n : Nat} (h : n ≤ INT_MAX) : toInt (min LONG_MAX n) = n := by
  unfold toInt LONG_MAX INT_MAX at *
  rw [min_eq_right (by omega)]
  exact Int.bmod_eq_of_le (by omega) (by omega)

/-- the cast to `ctf_genre`, which is 32 bits wide; what is no enumerator is written as `misc` -/
def ctfGenreOfInt (v : Int) : CtfGenre :=
  match toInt v with
  | 0 => .web
  | 1 => .crypto
  | 2 => .pwn
  | 3 => .rev
  | 4 => .forensics
  | 5 => .osint
  | _ => .misc

/-! ## records -/

/-- `challenge_t` -/
structure Challenge where
  id : Int
  creatorId : Bytes
  name : Bytes
  description : Bytes
  flag : Bytes := []
  genre : CtfGenre
  deriving DecidableEq, Repr

/-- `answer_t` -/
structure Answer where
  id : Nat
  challengeId : Nat
  userId : Bytes
  username : Bytes
  answer : Bytes
  isCorrected : Bool
  createdAt : Bytes
  deriving DecidableEq, Repr

/-- `user_t` -/
structure User where
  id : Bytes
  username : Bytes
  passwordHash : Bytes
  deriving DecidableEq, Repr

/-- `public_user_t` -/
structure PublicUser where
  id : Bytes
  username : Bytes
  score : Int := 0
  deriving DecidableEq, Repr

/-- `score_answer_t` -/
structure ScoreAnswer where
  userId : Bytes
  challengeId : Nat
  createdAt : Int
  deriving DecidableEq, Repr

/-- `auth_session_t` -/
structure AuthSession where
  id : Bytes
  userId : Bytes
  issuedAt : Int
  expiresAt : Int
  deriving DecidableEq, Repr

/-! ## challenges -/

def bindChallenge : List (Option Bytes) → Option Challenge
  | [some id, some creatorId, some name, some description, some flag, some genre] =>
    some ⟨toInt (strtol id), creatorId, name, description, flag, ctfGenreOfInt (strtol genre)⟩
  | _ => none

def bindChallengeWithoutFlag : List (Option Bytes) → Option Challenge
  | [some id, some creatorId, some name, some description, some genre] =>
    some ⟨toInt (strtol id), creatorId, name, description, [], ctfGenreOfInt (strtol genre)⟩
  | _ => none

/-- `bind_challenges_impl`: an empty result set gives `NULL` as well -/
def bindChallengesImpl (fields : Nat) (row : List (Option Bytes) → Option Challenge) (mem : Bool)
    (result : DbResult) : Option (List Challenge) :=
  match result.stored with
  | none => none
  | some res =>
    if res.rows = [] ∨ res.fields ≠ fields ∨ mem = false then none else res.rows.mapM row

def bindChallenges (mem : Bool) (result : DbResult) : Option (List Challenge) :=
  bindChallengesImpl 6 bindChallenge mem result

def bindChallengesWithoutFlag (mem : Bool) (result : DbResult) : Option (List Challenge) :=
  bindChallengesImpl 5 bindChallengeWithoutFlag mem result

/-! ## the other lists -/

/-- the frame of the other readers: an empty result set gives an empty list -/
def bindRows {α : Type} (fields : Nat) (row : List (Option Bytes) → Option α) (mem : Bool)
    (result : DbResult) : Option (List α) :=
  match result.stored with
  | none => none
  | some res =>
    if res.fields ≠ fields then none
    else if res.rows = [] then some []
    else if mem = false then none
    else res.rows.mapM row

/-- a list that was read: every row was -/
theorem bindRows_some {α : Type} {fields : Nat} {row : List (Option Bytes) → Option α} {mem : Bool}
    {result : DbResult} {out : List α} (h : bindRows fields row mem result = some out) :
    ∃ res, result.stored = some res ∧ res.fields = fields ∧ res.rows.mapM row = some out := by
  unfold bindRows at h
  split at h
  · cases h
  · next res hres =>
    split at h
    · cases h
    next hf =>
    split at h
    · next hnil =>
      cases h
      exact ⟨res, hres, not_not.1 hf, by rw [hnil]; rfl⟩
    split at h
    · cases h
    · exact ⟨res, hres, not_not.1 hf, h⟩

/-- `bind_answer_id` -/
def bindAnswerId (value : Bytes) : Option Nat :=
  match readPositiveInteger value with
  | some (id, []) => some id
  | _ => none

def bindAnswer : List (Option Bytes) → Option Answer
  | [some id, some challengeId, some userId, some answer, some isCorrect, some createdAt,
      some username] =>
    match bindAnswerId id, bindAnswerId challengeId with
    | some id, some challengeId =>
      if (isCorrect = [48] ∨ isCorrect = [49]) ∧ validUsername username then
        some ⟨id, challengeId, userId, username, answer, isCorrect == [49], createdAt⟩
      else none
    | _, _ => none
  | _ => none

def bindAnswers (mem : Bool) (result : DbResult) : Option (List Answer) :=
  bindRows 7 bindAnswer mem result

def AUTH_ID_LENGTH : Nat := 32

/-- a byte of an id: a digit or one of `a` to `f` -/
def isIdByte (c : UInt8) : Bool := (48 ≤ c && c ≤ 57) || (97 ≤ c && c ≤ 102)

/-- the test of `read_auth_id`, and of `valid_id` (auth.c) -/
def validId (id : Bytes) : Bool := id.length == AUTH_ID_LENGTH && id.all isIdByte

def readAuthId (value : Bytes) : Option Bytes := if validId value then some value else none

/-- 9999-12-31 23:59:59 UTC -/
def AUTH_TIME_MAX : Nat := 253402300799

/-- the digits of a number of at most `maximum` -/
def readNumber (maximum : Nat) (value : Bytes) : Option Nat :=
  if value = [] then none else Decimal.readGuarded maximum 0 value

def readAuthTime (value : Bytes) : Option Nat := readNumber AUTH_TIME_MAX value

def INT64_MAX : Nat := 2^63 - 1

def readNonnegativeInteger (value : Bytes) : Option Nat := readNumber INT64_MAX value

/-- a printable byte, no space -/
def isPrintable (c : UInt8) : Bool := 33 ≤ c && c ≤ 126

/-- the test of `bind_users` on a password hash -/
def validHash (hash : Bytes) : Bool := hash != [] && hash.length ≤ 255 && hash.all isPrintable

def bindUser : List (Option Bytes) → Option User
  | [some id, some username, some passwordHash] =>
    if validId id && validUsername username && validHash passwordHash then
      some ⟨id, username, passwordHash⟩
    else none
  | _ => none

def bindUsers (mem : Bool) (result : DbResult) : Option (List User) :=
  bindRows 3 bindUser mem result

def bindAuthSession : List (Option Bytes) → Option AuthSession
  | [some id, some userId, some issuedAt, some expiresAt] =>
    match readAuthId id, readAuthId userId, readAuthTime issuedAt, readAuthTime expiresAt with
    | some id, some userId, some issuedAt, some expiresAt =>
      if expiresAt ≤ issuedAt then none else some ⟨id, userId, issuedAt, expiresAt⟩
    | _, _, _, _ => none
  | _ => none

def bindAuthSessions (mem : Bool) (result : DbResult) : Option (List AuthSession) :=
  bindRows 4 bindAuthSession mem result

def bindPublicUser : List (Option Bytes) → Option PublicUser
  | [some id, some username] =>
    if validId id && validUsername username then some ⟨id, username, 0⟩ else none
  | _ => none

def bindPublicUsers (mem : Bool) (result : DbResult) : Option (List PublicUser) :=
  bindRows 2 bindPublicUser mem result

def bindScoreAnswer : List (Option Bytes) → Option ScoreAnswer
  | [some userId, some challengeId, some createdAt] =>
    match readAuthId userId, readNonnegativeInteger challengeId, readAuthTime createdAt with
    | some userId, some challengeId, some createdAt =>
      if challengeId < 1 ∨ INT_MAX < challengeId then none else
        some ⟨userId, challengeId, createdAt⟩
    | _, _, _ => none
  | _ => none

def bindScoreAnswers (mem : Bool) (result : DbResult) : Option (List ScoreAnswer) :=
  bindRows 3 bindScoreAnswer mem result

/-! ## owners of challenges (handler_challenge.c) -/

/-- `parse_challenge_id` -/
def parseChallengeId (text : Bytes) : Option Nat :=
  match text with
  | [] => none
  | c :: _ => if c < 49 ∨ 57 < c then none else Decimal.readGuarded INT_MAX 0 text

/-- the result of `challenge_write_access` -/
inductive Access where
  | ok | forbidden | notFound | error
  deriving DecidableEq, Repr

/-- the loop of `challenge_write_access`, up to the first row of the challenge -/
def ownerLoop (targetId : Nat) (user : Bytes) : List (List (Option Bytes)) → Access
  | [] => .notFound
  | [some id, some creator] :: rows =>
    match parseChallengeId id with
    | none => .error
    | some id =>
      if id = targetId then (if creator = user then .ok else .forbidden) else
        ownerLoop targetId user rows
  | _ :: _ => .error

def challengeWriteAccess (result : DbResult) (targetId : Nat) (user : Bytes) : Access :=
  match result.stored with
  | none => .error
  | some res => if res.fields ≠ 2 then .error else ownerLoop targetId user res.rows

end App

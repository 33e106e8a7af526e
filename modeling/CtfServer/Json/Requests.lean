import CtfServer.Json.Parser

/-!
# The bodies of requests

`json_to_create_challenge_request` (json_request.c), `json_to_submit_answer_request`
(json_answer.c) and `json_to_auth_request` (json_auth.c).

* `CtfGenre`                          `ctf_genre_from_string`, `ctf_genre_to_string` (model.c);
* `jsonToCreateChallengeRequest_ok`   what an accepted challenge satisfies;
* `jsonToSubmitAnswerRequest_ok`      what an accepted answer satisfies;
* `jsonToAuthRequest_ok`              what accepted credentials satisfy.
-/

set_option linter.unusedVariables false
set_option linter.unusedSimpArgs false

namespace Json

/-! ## genres -/

inductive CtfGenre where
  | web | crypto | pwn | rev | forensics | osint | misc
  deriving DecidableEq, Repr

/-- the value of the enumerator -/
def CtfGenre.code : CtfGenre → Nat
  | .web => 0
  | .crypto => 1
  | .pwn => 2
  | .rev => 3
  | .forensics => 4
  | .osint => 5
  | .misc => 6

def ctfGenreFromString (str : Bytes) : CtfGenre :=
  if str = ascii "web" then .web
  else if str = ascii "crypto" then .crypto
  else if str = ascii "pwn" then .pwn
  else if str = ascii "rev" then .rev
  else if str = ascii "forensics" then .forensics
  else if str = ascii "osint" then .osint
  else .misc

def ctfGenreToString : CtfGenre → Bytes
  | .web => ascii "web"
  | .crypto => ascii "crypto"
  | .pwn => ascii "pwn"
  | .rev => ascii "rev"
  | .forensics => ascii "forensics"
  | .osint => ascii "osint"
  | .misc => ascii "misc"

/-! ## challenges -/

structure CreateChallengeRequest where
  name : Bytes := []
  description : Bytes := []
  flag : Bytes := []
  genre : CtfGenre := .web
  deriving DecidableEq, Repr

/-- `create_challenge_parser` -/
structure CreateChallengeParser where
  request : CreateChallengeRequest := {}
  fields : Nat := 0

/-- one string field: where it goes, and its bit -/
def readStringField {σ : Type} (put : Bytes → σ) (cur : Bytes) : Except Error (σ × Bytes) :=
  match readString cur with
  | none => .error .invalid
  | some (value, cur) => .ok (put value, cur)

def readChallengeField (mem : Nat → Bool) (key : Bytes) (parsed : CreateChallengeParser)
    (cur : Bytes) :
    Except Error (CreateChallengeParser × Bytes) :=
  let request := parsed.request
  if key = ascii "name" then
    readStringField (fun v => ⟨{ request with name := v }, parsed.fields ||| 1⟩) cur
  else if key = ascii "description" then
    readStringField (fun v => ⟨{ request with description := v }, parsed.fields ||| 2⟩) cur
  else if key = ascii "flag" then
    readStringField (fun v => ⟨{ request with flag := v }, parsed.fields ||| 4⟩) cur
  else if key = ascii "genre" then
    match readString cur with
    | none => .error .invalid
    | some (genre, cur) =>
      if genre = ctfGenreToString (ctfGenreFromString genre) then
        .ok (⟨{ request with genre := ctfGenreFromString genre }, parsed.fields ||| 8⟩, cur)
      else .error .invalid
  else (readValue mem FIELD_LEVELS cur).map fun cur => (parsed, cur)

/-- the bytes that start a UTF-8 sequence -/
def storedCharacterCount (value : Bytes) : Nat := (value.filter fun c => c &&& 0xc0 != 0x80).length

def jsonToCreateChallengeRequest (mem : Nat → Bool) (json : Bytes) :
    Except Error CreateChallengeRequest :=
  if json = [] then .error .invalid
  else
    match readObject mem (readChallengeField mem) {} json with
    | .error e => .error e
    | .ok (parsed, cur) =>
      let request := parsed.request
      if skipWhitespace cur ≠ [] ∨ parsed.fields ≠ 15 ∨ request.name = [] ∨ request.flag = [] ∨
          storedCharacterCount request.name > 255 ∨ storedCharacterCount request.flag > 255 ∨
          request.description.length > 65535 then .error .invalid
      else .ok request

/-! ## answers -/

structure SubmitAnswerRequest where
  challengeId : Nat := 0
  answer : Bytes := []
  deriving DecidableEq, Repr

def readAnswerField (mem : Nat → Bool) (key : Bytes) (request : SubmitAnswerRequest) (cur : Bytes) :
    Except Error (SubmitAnswerRequest × Bytes) :=
  if key = ascii "challenge_id" then
    match readPositiveInteger cur with
    | none => .error .invalid
    | some (id, cur) => .ok ({ request with challengeId := id }, cur)
  else if key = ascii "answer" then readStringField (fun v => { request with answer := v }) cur
  else (readValue mem FIELD_LEVELS cur).map fun cur => (request, cur)

def jsonToSubmitAnswerRequest (mem : Nat → Bool) (json : Bytes) :
    Except Error SubmitAnswerRequest :=
  if json = [] then .error .invalid
  else
    match readObject mem (readAnswerField mem) {} json with
    | .error e => .error e
    | .ok (parsed, cur) =>
      if skipWhitespace cur ≠ [] ∨ parsed.challengeId = 0 ∨ parsed.answer = [] then .error .invalid
      else if storedCharacterCount parsed.answer > 255 ∨
        equalDecoded parsed.answer parsed.answer = none then
        .error .invalid
      else .ok parsed

/-! ## credentials -/

structure AuthRequest where
  username : Bytes
  password : Bytes
  deriving DecidableEq, Repr

/-- `auth_parser` -/
structure AuthParser where
  username : Bytes := []
  password : Bytes := []
  fields : Nat := 0

/-- the loop over the two fields: keys are compared decoded -/
def readAuthField (key : Bytes) (parsed : AuthParser) (cur : Bytes) :
    Except Error (AuthParser × Bytes) :=
  match equalDecoded key (ascii "username") with
  | none => .error .invalid
  | some true =>
    if parsed.fields &&& 1 ≠ 0 then .error .invalid
    else readStringField (fun v => { parsed with username := v, fields := parsed.fields ||| 1 }) cur
  | some false =>
    match equalDecoded key (ascii "password") with
    | none => .error .invalid
    | some true =>
      if parsed.fields &&& 2 ≠ 0 then .error .invalid
      else readStringField (fun v => { parsed with password := v, fields := parsed.fields ||| 2 })
        cur
    | some false => .error .invalid

/-- the alphabet of usernames -/
def isUsernameByte (ch : UInt8) : Bool :=
  (97 ≤ ch && ch ≤ 122) || (65 ≤ ch && ch ≤ 90) || (48 ≤ ch && ch ≤ 57) || ch == 95 || ch == 45

/-- `valid_username` (repository_auth.c); the checks of `json_to_auth_request` and `bind_answers`
are the same -/
def validUsername (value : Bytes) : Bool :=
  3 ≤ value.length && value.length ≤ 32 && value.all isUsernameByte

/-- `valid_password` (auth.c); `json_to_auth_request` and `password_worker_submit` check it too -/
def validPassword (password : Bytes) : Bool :=
  8 ≤ password.length && password.length ≤ 128 && !password.contains 0

/-- `json_to_auth_request`; `allocUsername`, `allocPassword` are the two allocations for the
decoded strings -/
def jsonToAuthRequest (mem : Nat → Bool) (allocUsername allocPassword : Bool) (json : Bytes) :
    Except Error AuthRequest :=
  if json = [] ∨ json.length ≥ 65536 then .error .invalid
  else
    match readObject mem readAuthField {} json with
    | .error e => .error e
    | .ok (parsed, cur) =>
      if parsed.fields ≠ 3 ∨ skipWhitespace cur ≠ [] then .error .invalid
      else
        match decode allocUsername parsed.username with
        | .error e => .error e
        | .ok username =>
          match decode allocPassword parsed.password with
          | .error e => .error e
          | .ok password =>
            if validUsername username && validPassword password then .ok ⟨username, password⟩
            else .error .invalid

/-! ## what was accepted -/

theorem readStringField_some {σ : Type} {put : Bytes → σ} {cur rest : Bytes} {s : σ}
    (h : readStringField put cur = .ok (s, rest)) : ∃ v, Literal v ∧ s = put v := by
  unfold readStringField at h
  split at h
  · cases h
  · next v r hr => cases h; exact ⟨v, readString_literal hr, rfl⟩

/-- the strings of a challenge are literals -/
structure CreateChallengeRequest.Literals (request : CreateChallengeRequest) : Prop where
  name : Literal request.name
  description : Literal request.description
  flag : Literal request.flag

theorem readChallengeField_literals {mem : Nat → Bool} {key cur rest : Bytes}
    {parsed parsed' : CreateChallengeParser} (hl : parsed.request.Literals)
    (h : readChallengeField mem key parsed cur = .ok (parsed', rest)) :
    parsed'.request.Literals := by
  unfold readChallengeField at h
  dsimp only at h
  split at h
  · obtain ⟨v, hv, rfl⟩ := readStringField_some h
    exact ⟨hv, hl.description, hl.flag⟩
  split at h
  · obtain ⟨v, hv, rfl⟩ := readStringField_some h
    exact ⟨hl.name, hv, hl.flag⟩
  split at h
  · obtain ⟨v, hv, rfl⟩ := readStringField_some h
    exact ⟨hl.name, hl.description, hv⟩
  split at h
  · split at h
    · cases h
    · split at h <;> cases h
      exact ⟨hl.name, hl.description, hl.flag⟩
  · obtain ⟨l, -, h2⟩ := map_ok h
    cases h2
    exact hl

/-- an accepted challenge -/
structure CreateChallengeRequest.Accepted (request : CreateChallengeRequest) : Prop
    extends request.Literals where
  nameSome : request.name ≠ []
  flagSome : request.flag ≠ []
  nameCount : storedCharacterCount request.name ≤ 255
  flagCount : storedCharacterCount request.flag ≤ 255
  descriptionLength : request.description.length ≤ 65535

theorem jsonToCreateChallengeRequest_ok {mem : Nat → Bool} {json : Bytes}
    {request : CreateChallengeRequest}
    (h : jsonToCreateChallengeRequest mem json = .ok request) : request.Accepted := by
  unfold jsonToCreateChallengeRequest at h
  split at h
  · cases h
  · split at h
    · cases h
    · next parsed cur hr =>
      dsimp only at h
      split at h
      · cases h
      · next hc =>
        cases h
        have hl := readObject_inv (fun p : CreateChallengeParser => p.request.Literals)
          (fun _ _ _ _ _ hp hf => readChallengeField_literals hp hf) ⟨.nil, .nil, .nil⟩ hr
        simp only [not_or, not_not, Nat.not_lt] at hc
        exact ⟨hl, hc.2.2.1, hc.2.2.2.1, hc.2.2.2.2.1, hc.2.2.2.2.2.1, hc.2.2.2.2.2.2⟩

/-- an accepted answer -/
structure SubmitAnswerRequest.Accepted (request : SubmitAnswerRequest) : Prop where
  literal : Literal request.answer
  answerSome : request.answer ≠ []
  count : storedCharacterCount request.answer ≤ 255
  decodes : (codepoints request.answer).isSome = true
  positive : 1 ≤ request.challengeId
  bounded : request.challengeId ≤ INT_MAX

theorem positiveLoop_le {number n : Nat} {cur rest : Bytes} (hn : number ≤ INT_MAX)
    (h : positiveLoop number cur = some (n, rest)) : n ≤ INT_MAX := by
  induction cur generalizing number with
  | nil => cases h; exact hn
  | cons c cur ih =>
    rw [positiveLoop] at h
    split at h
    · next hd =>
      dsimp only at h
      split at h
      · cases h
      · next hg =>
        have hle := Decimal.digit_le c hd
        have hmax : Decimal.digit c ≤ INT_MAX := by unfold INT_MAX; omega
        have hguard := (Decimal.guard_iff INT_MAX number (Decimal.digit c) hmax).not.mp hg
        exact ih (by omega) h
    · cases h
      exact hn

theorem readPositiveInteger_le {n : Nat} {cur rest : Bytes}
    (h : readPositiveInteger cur = some (n, rest)) :
    n ≤ INT_MAX := by
  unfold readPositiveInteger at h
  split at h
  · cases h
  · split at h
    · cases h
    · exact positiveLoop_le (Nat.zero_le _) h

theorem readAnswerField_inv {mem : Nat → Bool} {key cur rest : Bytes}
    {request request' : SubmitAnswerRequest}
    (hl : Literal request.answer ∧ request.challengeId ≤ INT_MAX)
    (h : readAnswerField mem key request cur = .ok (request', rest)) :
    Literal request'.answer ∧ request'.challengeId ≤ INT_MAX := by
  unfold readAnswerField at h
  split at h
  · split at h
    · cases h
    · next n r hn => cases h; exact ⟨hl.1, readPositiveInteger_le hn⟩
  split at h
  · obtain ⟨v, hv, rfl⟩ := readStringField_some h
    exact ⟨hv, hl.2⟩
  · obtain ⟨l, -, h2⟩ := map_ok h
    cases h2
    exact hl

theorem equalDecoded_ne_none {f : Bytes} (h : equalDecoded f f ≠ none) :
    (codepoints f).isSome = true := by
  rw [equalDecoded_eq] at h
  cases hc : codepoints f with
  | none => rw [hc] at h; exact absurd rfl h
  | some x => rfl

theorem jsonToSubmitAnswerRequest_ok {mem : Nat → Bool} {json : Bytes}
    {request : SubmitAnswerRequest}
    (h : jsonToSubmitAnswerRequest mem json = .ok request) : request.Accepted := by
  unfold jsonToSubmitAnswerRequest at h
  split at h
  · cases h
  · split at h
    · cases h
    · next parsed cur hr =>
      split at h
      · cases h
      · next hc =>
        split at h
        · cases h
        · next hd =>
          cases h
          have hl := readObject_inv (fun p : SubmitAnswerRequest => Literal p.answer ∧
            p.challengeId ≤ INT_MAX)
            (fun _ _ _ _ _ hp hf => readAnswerField_inv hp hf) ⟨.nil, Nat.zero_le _⟩ hr
          simp only [not_or, Nat.not_lt] at hc hd
          exact ⟨hl.1, hc.2.2, hd.1, equalDecoded_ne_none hd.2, Nat.pos_of_ne_zero hc.2.1, hl.2⟩

theorem jsonToAuthRequest_ok {mem : Nat → Bool} {allocUsername allocPassword : Bool} {json : Bytes}
    {request : AuthRequest} (h : jsonToAuthRequest mem allocUsername allocPassword json =
      .ok request) :
    validUsername request.username = true ∧ validPassword request.password = true := by
  unfold jsonToAuthRequest at h
  split at h
  · cases h
  split at h
  · cases h
  split at h
  · cases h
  split at h
  · cases h
  split at h
  · cases h
  · split at h
    · next hv =>
      cases h
      exact (Bool.and_eq_true _ _).mp hv
    · cases h

/-! ## memory does not change what is read -/

theorem map_readValue_enough {σ : Type} {mem : Nat → Bool} {levels : Nat} {cur : Bytes}
    {f : Bytes → σ} {x : σ}
    (h : (readValue mem levels cur).map f = .ok x) :
    (readValue enoughMemory levels cur).map f = .ok x := by
  obtain ⟨rest, hr, rfl⟩ := map_ok h
  rw [readValue_enough hr]
  rfl

theorem readChallengeField_enough {mem : Nat → Bool} (key : Bytes) (parsed : CreateChallengeParser)
    (cur : Bytes)
    (x : CreateChallengeParser × Bytes) (h : readChallengeField mem key parsed cur = .ok x) :
    readChallengeField enoughMemory key parsed cur = .ok x := by
  unfold readChallengeField at h ⊢
  dsimp only at h ⊢
  split
  · next h1 => rw [if_pos h1] at h; exact h
  next h1 =>
  rw [if_neg h1] at h
  split
  · next h2 => rw [if_pos h2] at h; exact h
  next h2 =>
  rw [if_neg h2] at h
  split
  · next h3 => rw [if_pos h3] at h; exact h
  next h3 =>
  rw [if_neg h3] at h
  split
  · next h4 => rw [if_pos h4] at h; exact h
  · next h4 => rw [if_neg h4] at h; exact map_readValue_enough h

theorem readAnswerField_enough {mem : Nat → Bool} (key : Bytes) (request : SubmitAnswerRequest)
    (cur : Bytes)
    (x : SubmitAnswerRequest × Bytes) (h : readAnswerField mem key request cur = .ok x) :
    readAnswerField enoughMemory key request cur = .ok x := by
  unfold readAnswerField at h ⊢
  split
  · next h1 => rw [if_pos h1] at h; exact h
  next h1 =>
  rw [if_neg h1] at h
  split
  · next h2 => rw [if_pos h2] at h; exact h
  · next h2 => rw [if_neg h2] at h; exact map_readValue_enough h

theorem jsonToCreateChallengeRequest_enough {mem : Nat → Bool} {json : Bytes}
    {request : CreateChallengeRequest} (h : jsonToCreateChallengeRequest mem json = .ok request) :
    jsonToCreateChallengeRequest enoughMemory json = .ok request := by
  unfold jsonToCreateChallengeRequest at h ⊢
  split
  · next hn => rw [if_pos hn] at h; exact h
  next hn =>
  rw [if_neg hn] at h
  cases hr : readObject mem (readChallengeField mem) {} json with
  | error e => rw [hr] at h; cases h
  | ok x =>
    rw [hr] at h
    rw [readObject_enough readChallengeField_enough hr]
    exact h

theorem jsonToSubmitAnswerRequest_enough {mem : Nat → Bool} {json : Bytes}
    {request : SubmitAnswerRequest} (h : jsonToSubmitAnswerRequest mem json = .ok request) :
    jsonToSubmitAnswerRequest enoughMemory json = .ok request := by
  unfold jsonToSubmitAnswerRequest at h ⊢
  split
  · next hn => rw [if_pos hn] at h; exact h
  next hn =>
  rw [if_neg hn] at h
  cases hr : readObject mem (readAnswerField mem) {} json with
  | error e => rw [hr] at h; cases h
  | ok x =>
    rw [hr] at h
    rw [readObject_enough readAnswerField_enough hr]
    exact h

theorem decode_enough {alloc : Bool} {slice value : Bytes} (h : decode alloc slice = .ok value) :
    decode true slice = .ok value := by
  unfold decode at h ⊢
  split at h
  · cases h
  next hne =>
  rw [if_neg hne]
  split at h
  · cases h
  · exact h

theorem jsonToAuthRequest_enough {mem : Nat → Bool} {allocUsername allocPassword : Bool}
    {json : Bytes}
    {request : AuthRequest} (h : jsonToAuthRequest mem allocUsername allocPassword json =
      .ok request) :
    jsonToAuthRequest enoughMemory true true json = .ok request := by
  unfold jsonToAuthRequest at h ⊢
  split
  · next hn => rw [if_pos hn] at h; exact h
  next hn =>
  rw [if_neg hn] at h
  cases hr : readObject mem readAuthField {} json with
  | error e => rw [hr] at h; cases h
  | ok x =>
    obtain ⟨parsed, cur⟩ := x
    rw [hr] at h
    rw [readObject_enough (fun _ _ _ _ h => h) hr]
    dsimp only at h ⊢
    split
    · next hf => rw [if_pos hf] at h; exact h
    next hf =>
    rw [if_neg hf] at h
    cases hu : decode allocUsername parsed.username with
    | error e => rw [hu] at h; cases h
    | ok username =>
      rw [hu] at h
      rw [decode_enough hu]
      dsimp only at h ⊢
      cases hp : decode allocPassword parsed.password with
      | error e => rw [hp] at h; cases h
      | ok password =>
        rw [hp] at h
        rw [decode_enough hp]
        exact h

end Json

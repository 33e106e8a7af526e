import CtfServer.App.ListWriters
import CtfServer.App.ChallengeText
import CtfServer.Json.AuthBody
import CtfServer.App.HandlerAnswer
import CtfServer.App.Numbers
import CtfServer.App.Scores
import Mathlib.Order.Interval.Finset.Nat

/-!
# The lists of answers and of users

The last stages of GET /answers, GET /answers/me and GET /users, on result sets of well-formed rows:
the body is a JSON array with an object for each row that is asked for.

* `IsObject`, `IsArray`        objects and arrays of the grammar, with their members and values;
* `Lists members rows body`    the body is a valid array, with one object for each row, in order;
* `answerObject`, `userObject`  the text of an element is an object with the values of its row;
* `lists_complete`             **the lists are complete, well formed and written inside their
                               buffers**.
-/

set_option linter.unusedVariables false
set_option linter.unusedSimpArgs false

namespace App

open Json
open Buffer (Malloc Libc)

/-! ## arrays of objects -/

/-- an object with these members, whose values hold no values -/
def IsObject (ps : List (Bytes × Bytes)) (v : Bytes) : Prop :=
  ∃ ms, Members Flat ps ms ∧ (ps.map Prod.fst).Nodup ∧ v = 0x7b :: (ms ++ [0x7d])

/-- an array of these values -/
def IsArray (V : Bytes → Prop) (vs : List Bytes) (text : Bytes) : Prop :=
  (vs = [] ∧ text = [0x5b, 0x5d]) ∨ ∃ es, Elements V vs es ∧ text = 0x5b :: (es ++ [0x5d])

/-- a valid array with one object for each row, in the order of the rows -/
structure Lists {α : Type} (members : α → List (Bytes × Bytes)) (rows : List α) (body : Bytes) :
    Prop where
  valid : Document List.Nodup 2 body
  objects : ∃ vs, IsArray (Value List.Nodup 1) vs body ∧
    List.Forall₂ (fun row v => IsObject (members row) v) rows vs

theorem IsObject.value {ps : List (Bytes × Bytes)} {v : Bytes} (h : IsObject ps v) :
    Value List.Nodup 1 v := by
  obtain ⟨ms, hms, hnodup, hv⟩ := h
  exact .inr (.inr ⟨ps, ms, hms, hnodup, hv⟩)

theorem IsArray.value {vs : List Bytes} {text : Bytes} (h : IsArray (Value List.Nodup 1) vs text) :
    Value List.Nodup 2 text := by
  rcases h with ⟨-, rfl⟩ | ⟨es, hes, ht⟩
  · exact .inl (.emptyArray (List.forall_mem_nil _))
  · exact .inr (.inl ⟨vs, es, hes, ht⟩)

/-- the text of an object without whitespace -/
def objectText (ps : List (Bytes × Bytes)) : Bytes := 0x7b :: (membersText ps ++ [0x7d])

theorem isObject_text {ps : List (Bytes × Bytes)} (hne : ps ≠ [])
    (h : ∀ p ∈ ps, Chars p.1 ∧ Flat p.2)
    (hnodup : (ps.map Prod.fst).Nodup) : IsObject ps (objectText ps) :=
  ⟨membersText ps, membersText_members hne h, hnodup, rfl⟩

/-- the text of an array without whitespace -/
theorem isArray_text {V : Bytes → Prop} {texts : List Bytes} (h : ∀ text ∈ texts, V text) :
    IsArray V texts (arrayText texts) := by
  have hempty : Ws [] := List.forall_mem_nil _
  have hcomma : ascii "," = [0x2c] := rfl
  have hopen : ∀ es : Bytes, ascii "[" ++ es ++ ascii "]" = 0x5b :: (es ++ [0x5d]) := fun es => rfl
  have helements : ∀ {texts : List Bytes}, texts ≠ [] → (∀ text ∈ texts, V text) →
      Elements V texts ((ascii ",").intercalate texts) := by
    intro texts
    induction texts with
    | nil => exact fun hne _ => absurd rfl hne
    | cons text texts ih =>
      intro _ hall
      obtain ⟨hv, hvs⟩ := List.forall_mem_cons.mp hall
      by_cases hlast : texts = []
      · have hone : Elements V [text] ([] ++ (text ++ [])) := .one hempty hv hempty
        rw [hlast, List.intercalate_singleton]
        simpa using hone
      · have hmore : Elements V (text :: texts)
          ([] ++ (text ++ ([] ++ 0x2c :: (ascii ",").intercalate texts))) :=
          .more hempty hv hempty (ih hlast hvs)
        rw [List.intercalate_cons_of_ne_nil hlast]
        rw [hcomma] at hmore ⊢
        simpa using hmore
  unfold arrayText
  rw [hopen]
  by_cases hnil : texts = []
  · rw [hnil]
    exact .inl ⟨rfl, rfl⟩
  · exact .inr ⟨_, helements hnil h, rfl⟩

/-- an array of the objects of rows -/
theorem lists_text {α : Type} {members : α → List (Bytes × Bytes)} {rows : List α}
    {text : α → Bytes}
    (h : ∀ row ∈ rows, IsObject (members row) (text row)) :
    Lists members rows (arrayText (rows.map text)) := by
  have harray : IsArray (Value List.Nodup 1) (rows.map text) (arrayText (rows.map text)) :=
    isArray_text (List.forall_mem_map.mpr fun row hrow => (h row hrow).value)
  refine ⟨⟨[], _, [], List.forall_mem_nil _, harray.value, List.forall_mem_nil _, ?_⟩,
    _, harray, ?_⟩
  · rw [List.nil_append, List.append_nil]
  · rw [List.forall₂_map_right_iff, List.forall₂_same]
    exact h

/-! ## the rows -/

/-- `DATE_FORMAT(.., '%Y-%m-%dT%H:%i:%sZ')` gives a text of this shape -/
def isStamp (s : Bytes) : Bool :=
  s.length == 20 && (s.zip (ascii "0000-00-00T00:00:00Z")).all fun p => if p.2 = 48 then
    Decimal.isDigit p.1 else p.1 == p.2

/-- an answer as the validators and the schema let it in -/
structure Answer.WellFormed (answer : Answer) : Prop where
  id : 1 ≤ answer.id ∧ answer.id ≤ INT_MAX
  challengeId : 1 ≤ answer.challengeId ∧ answer.challengeId ≤ INT_MAX
  userId : validId answer.userId = true
  username : validUsername answer.username = true
  text : Chars answer.answer ∧ storedCharacterCount answer.answer ≤ 255
  createdAt : isStamp answer.createdAt = true

/-- its row, as the query of the lists selects it -/
def Answer.columns (answer : Answer) : List (Option Bytes) :=
  [some (Decimal.digits answer.id), some (Decimal.digits answer.challengeId), some answer.userId,
    some answer.answer,
    some (if answer.isCorrected then ascii "1" else ascii "0"), some answer.createdAt,
    some answer.username]

structure PublicUser.WellFormed (user : PublicUser) : Prop where
  id : validId user.id = true
  username : validUsername user.username = true

def PublicUser.columns (user : PublicUser) : List (Option Bytes) :=
  [some user.id, some user.username]

structure ScoreAnswer.WellFormed (answer : ScoreAnswer) : Prop where
  userId : validId answer.userId = true
  challengeId : 1 ≤ answer.challengeId ∧ answer.challengeId ≤ INT_MAX
  createdAt : 0 ≤ answer.createdAt ∧ answer.createdAt ≤ AUTH_TIME_MAX

def ScoreAnswer.columns (answer : ScoreAnswer) : List (Option Bytes) :=
  [some answer.userId, some (Decimal.digits answer.challengeId),
    some (Decimal.digits answer.createdAt.toNat)]

/-- the result set has these rows -/
structure HasRows (result : DbResult) (fields : Nat) (rows : List (List (Option Bytes))) :
    Prop where
  stored : ∃ res, result.stored = some res ∧ res.fields = fields ∧ res.rows = rows

/-! ## the members -/

/-- what the public list shows of an answer -/
def publicMembers (answer : Answer) : List (Bytes × Bytes) :=
  [(ascii "challenge_id", Decimal.digits answer.challengeId),
    (ascii "username", quote answer.username),
    (ascii "answered_at", quote answer.createdAt)]

/-- what a user's own list shows of an answer -/
def ownMembers (answer : Answer) : List (Bytes × Bytes) :=
  [(ascii "challenge_id", Decimal.digits answer.challengeId), (ascii "answer", quote answer.answer),
    (ascii "correct", if answer.isCorrected then ascii "true" else ascii "false"),
    (ascii "username", quote answer.username), (ascii "answered_at", quote answer.createdAt)]

def userMembers (user : PublicUser) : List (Bytes × Bytes) :=
  [(ascii "id", quote user.id), (ascii "username", quote user.username),
    (ascii "score", intText user.score)]

def answerMembers (publicView : Bool) : Answer → List (Bytes × Bytes) :=
  if publicView then publicMembers else ownMembers

theorem intText_nat (n : Nat) : intText (n : Int) = Decimal.digits n := by
  unfold intText
  rw [if_neg (by omega), Int.natAbs_natCast]

theorem formatAnswer_text (publicView : Bool) (answer : Answer) :
    formatAnswer publicView answer = objectText (answerMembers publicView answer) := by
  have h0 : ascii "," = [0x2c] := rfl
  have h1 : ascii "\x7b\"challenge_id\":" = 0x7b :: (quote (ascii "challenge_id") ++ [0x3a]) := rfl
  have h2 : ascii ",\"username\":\"" = 0x2c :: (quote (ascii "username") ++ [0x3a, 0x22]) := rfl
  have h3 : ascii "\",\"answered_at\":\"" = 0x22 :: 0x2c ::
    (quote (ascii "answered_at") ++ [0x3a, 0x22]) := rfl
  have h4 : ascii ",\"answer\":\"" = 0x2c :: (quote (ascii "answer") ++ [0x3a, 0x22]) := rfl
  have h5 : ascii "\",\"correct\":" = 0x22 :: 0x2c :: (quote (ascii "correct") ++ [0x3a]) := rfl
  have h7 : ascii "\"\x7d" = [0x22, 0x7d] := rfl
  unfold formatAnswer objectText answerMembers publicMembers ownMembers membersText
  rw [h0, h1, h2, h3, h4, h5, h7, intText_nat]
  generalize ascii "challenge_id" = k1
  generalize ascii "username" = k2
  generalize ascii "answered_at" = k3
  generalize ascii "answer" = k4
  generalize ascii "correct" = k5
  cases publicView <;> simp [List.intercalate, memberText, quote]

theorem formatPublicUser_text (user : PublicUser) :
    formatPublicUser user = objectText (userMembers user) := by
  have h0 : ascii "," = [0x2c] := rfl
  have h1 : ascii "\x7b\"id\":\"" = 0x7b :: (quote (ascii "id") ++ [0x3a, 0x22]) := rfl
  have h2 : ascii "\",\"username\":\"" = 0x22 :: 0x2c ::
    (quote (ascii "username") ++ [0x3a, 0x22]) := rfl
  have h3 : ascii "\",\"score\":" = 0x22 :: 0x2c :: (quote (ascii "score") ++ [0x3a]) := rfl
  have h7 : ascii "\x7d" = [0x7d] := rfl
  unfold formatPublicUser objectText userMembers membersText
  rw [h0, h1, h2, h3, h7]
  generalize ascii "id" = k1
  generalize ascii "username" = k2
  generalize ascii "score" = k3
  simp [List.intercalate, memberText, quote]

/-! ## what stands in the members -/

/-- the bytes of a name, an id or a time: no quote, no backslash, and ASCII -/
def PlainText (f : Bytes) : Prop := ∀ c ∈ f, ¬ c < 0x20 ∧ ¬ 0x80 ≤ c ∧ c ≠ DQUOTE ∧ c ≠ BACKSLASH

theorem PlainText.noNul {f : Bytes} (h : PlainText f) : (0 : UInt8) ∉ f :=
  fun h0 => (h 0 h0).1 (by decide)

theorem plain_username {username : Bytes} (h : validUsername username = true) :
    PlainText username := by
  unfold validUsername at h
  rw [Bool.and_eq_true, List.all_eq_true] at h
  intro c hc
  have h1 := (isUsernameByte_iff c).mp (h.2 c hc)
  simp only [UInt8.lt_iff_toNat_lt, UInt8.le_iff_toNat_le, ne_eq, UInt8.ext_iff]
  show ¬ c.toNat < 32 ∧ ¬ 128 ≤ c.toNat ∧ ¬ c.toNat = 34 ∧ ¬ c.toNat = 92
  omega

theorem plain_stamp {s : Bytes} (h : isStamp s = true) : PlainText s ∧ s.length = 20 := by
  unfold isStamp at h
  rw [Bool.and_eq_true, beq_iff_eq, List.all_eq_true] at h
  obtain ⟨hlen, hall⟩ := h
  refine ⟨fun c hc => ?_, hlen⟩
  -- the byte of the shape that stands in its place
  obtain ⟨i, hi, rfl⟩ := List.getElem_of_mem hc
  have hshape : (ascii "0000-00-00T00:00:00Z").length = 20 := by decide
  have hmem : (s[i], (ascii "0000-00-00T00:00:00Z")[i]) ∈ s.zip (ascii "0000-00-00T00:00:00Z") := by
    rw [← List.getElem_zip (h := by rw [List.length_zip]; omega)]
    exact List.getElem_mem _
  have hp := hall _ hmem
  have hplain : ∀ p ∈ ascii "0000-00-00T00:00:00Z", ¬ p < 0x20 ∧ ¬ 0x80 ≤ p ∧ p ≠ DQUOTE ∧
    p ≠ BACKSLASH := by
    decide +kernel
  dsimp only at hp
  split at hp
  · have hdigit := (Decimal.isDigit_iff _).mp hp
    simp only [UInt8.lt_iff_toNat_lt, UInt8.le_iff_toNat_le, ne_eq, UInt8.ext_iff]
    show ¬ s[i].toNat < 32 ∧ ¬ 128 ≤ s[i].toNat ∧ ¬ s[i].toNat = 34 ∧ ¬ s[i].toNat = 92
    omega
  · rw [beq_iff_eq.mp hp]
    exact hplain _ (List.getElem_mem _)

theorem flat_number (n : Nat) : Flat (Decimal.digits n) := .number (digits_number n)

theorem flat_plain {f : Bytes} (h : PlainText f) : Flat (quote f) := .string (chars_plain h)

/-- a key of the members -/
theorem chars_keys : ∀ k ∈ [ascii "challenge_id", ascii "username", ascii "answered_at",
    ascii "answer", ascii "correct",
    ascii "id", ascii "score"], Chars k := by
  intro k hk
  apply chars_plain
  revert k
  decide +kernel

/-- **the text of an answer is an object with its values** -/
theorem answerObject {answer : Answer} (h : answer.WellFormed) (publicView : Bool) :
    IsObject (answerMembers publicView answer) (formatAnswer publicView answer) := by
  have hkeys := chars_keys
  simp only [List.forall_mem_cons] at hkeys
  obtain ⟨k1, k2, k3, k4, k5, -⟩ := hkeys
  have hname := flat_plain (plain_username h.username)
  have hstamp := flat_plain (plain_stamp h.createdAt).1
  have hcorrect : Flat (if answer.isCorrected then ascii "true" else ascii "false") := by
    refine .literal _ ?_
    cases answer.isCorrected
    · exact .inr (.inl rfl)
    · exact .inl rfl
  rw [formatAnswer_text]
  unfold answerMembers
  cases publicView with
  | true =>
    refine isObject_text (List.cons_ne_nil _ _) ?_ ?_
    · simp only [if_true, publicMembers, List.forall_mem_cons]
      exact ⟨⟨k1, flat_number _⟩, ⟨k2, hname⟩, ⟨k3, hstamp⟩, List.forall_mem_nil _⟩
    · show [ascii "challenge_id", ascii "username", ascii "answered_at"].Nodup
      decide
  | false =>
    refine isObject_text (List.cons_ne_nil _ _) ?_ ?_
    · simp only [Bool.false_eq_true, if_false, ownMembers, List.forall_mem_cons]
      exact ⟨⟨k1, flat_number _⟩, ⟨k4, .string h.text.1⟩, ⟨k5, hcorrect⟩, ⟨k2, hname⟩, ⟨k3, hstamp⟩,
        List.forall_mem_nil _⟩
    · show [ascii "challenge_id", ascii "answer", ascii "correct", ascii "username",
        ascii "answered_at"].Nodup
      decide

/-- **the text of a user is an object with its values** -/
theorem userObject {user : PublicUser} (h : user.WellFormed) (hscore : 0 ≤ user.score) :
    IsObject (userMembers user) (formatPublicUser user) := by
  have hkeys := chars_keys
  simp only [List.forall_mem_cons] at hkeys
  obtain ⟨-, k2, -, -, -, k6, k7, -⟩ := hkeys
  rw [formatPublicUser_text]
  refine isObject_text (List.cons_ne_nil _ _) ?_ ?_
  · simp only [userMembers, List.forall_mem_cons]
    exact ⟨⟨k6, .string (chars_id h.id)⟩, ⟨k2, flat_plain (plain_username h.username)⟩,
      ⟨k7, .number (intText_number hscore)⟩, List.forall_mem_nil _⟩
  · show [ascii "id", ascii "username", ascii "score"].Nodup
    decide

/-! ## what the formats write -/

theorem answerFormat_eq {answer : Answer} (h : answer.WellFormed) (publicView : Bool) :
    answerFormat publicView answer = some (formatAnswer publicView answer) ∧
      (0 : UInt8) ∉ formatAnswer publicView answer ∧ (formatAnswer publicView answer).length ≤
      INT_MAX := by
  have hmax : (10000 : Nat) ≤ INT_MAX := by decide
  have hname : answer.username.length ≤ 32 := by
    have hvalid := h.username
    unfold validUsername at hvalid
    simp only [Bool.and_eq_true, decide_eq_true_eq] at hvalid
    exact hvalid.1.2
  have htext : answer.answer.length ≤ 1020 :=
    Nat.le_trans (chars_length h.text.1) (Nat.mul_le_mul_left 4 h.text.2)
  have hstamp := (plain_stamp h.createdAt).2
  have hdigits : (intText (answer.challengeId : Int)).length ≤ 10 := by
    rw [intText_nat]
    exact Decimal.digits_length (by decide) (Nat.lt_of_le_of_lt h.challengeId.2 (by decide))
  have n1 := (plain_username h.username).noNul
  have n2 := (plain_stamp h.createdAt).1.noNul
  have n3 := chars_noNul h.text.1
  have p1 := precise_whole n1 (Nat.le_trans hname (by decide))
  have p2 := precise_whole n2 (Nat.le_trans (Nat.le_of_eq hstamp) (by decide))
  have p3 := precise_whole n3 (Nat.le_trans htext (by decide))
  have c1 : (0 : UInt8) ∉ ascii "\x7b\"challenge_id\":" := by decide
  have c2 : (0 : UInt8) ∉ ascii ",\"username\":\"" := by decide
  have c3 : (0 : UInt8) ∉ ascii "\",\"answered_at\":\"" := by decide
  have c4 : (0 : UInt8) ∉ ascii "\"\x7d" := by decide
  have c5 : (0 : UInt8) ∉ ascii ",\"answer\":\"" := by decide
  have c6 : (0 : UInt8) ∉ ascii "\",\"correct\":" := by decide
  have c7 : (0 : UInt8) ∉ (if answer.isCorrected then ascii "true" else ascii "false") := by
    cases answer.isCorrected <;> decide
  have l1 : (ascii "\x7b\"challenge_id\":").length = 16 := rfl
  have l2 : (ascii ",\"username\":\"").length = 13 := rfl
  have l3 : (ascii "\",\"answered_at\":\"").length = 17 := rfl
  have l4 : (ascii "\"\x7d").length = 2 := rfl
  have l5 : (ascii ",\"answer\":\"").length = 11 := rfl
  have l6 : (ascii "\",\"correct\":").length = 12 := rfl
  have l7 : (if answer.isCorrected then ascii "true" else ascii "false").length ≤ 5 := by
    cases answer.isCorrected <;> decide
  unfold answerFormat formatAnswer
  simp only [p1, p2, p3, Option.bind_eq_bind, Option.bind_some]
  cases publicView with
  | true =>
    refine ⟨rfl, ?_, ?_⟩
    · simp only [if_true, List.mem_append, not_or]
      exact ⟨⟨⟨⟨⟨⟨c1, intText_noNul _⟩, c2⟩, n1⟩, c3⟩, n2⟩, c4⟩
    · simp only [if_true, List.length_append]
      omega
  | false =>
    refine ⟨rfl, ?_, ?_⟩
    · simp only [Bool.false_eq_true, if_false, List.mem_append, not_or]
      exact ⟨⟨⟨⟨⟨⟨⟨⟨⟨⟨c1, intText_noNul _⟩, c5⟩, n3⟩, c6⟩, c7⟩, c2⟩, n1⟩, c3⟩, n2⟩, c4⟩
    · simp only [Bool.false_eq_true, if_false, List.length_append]
      omega

theorem publicUserFormat_eq {user : PublicUser} (h : user.WellFormed) (hscore : 0 ≤ user.score)
    (hmost : user.score ≤ 100 * INT_MAX) :
    publicUserFormat user = some (formatPublicUser user) ∧ (0 : UInt8) ∉ formatPublicUser user ∧
      (formatPublicUser user).length ≤ INT_MAX := by
  have hmax : (10000 : Nat) ≤ INT_MAX := by decide
  have hname : user.username.length ≤ 32 := by
    have hvalid := h.username
    unfold validUsername at hvalid
    simp only [Bool.and_eq_true, decide_eq_true_eq] at hvalid
    exact hvalid.1.2
  have hid : user.id.length = 32 := by
    have hvalid := h.id
    unfold validId AUTH_ID_LENGTH at hvalid
    rw [Bool.and_eq_true, beq_iff_eq] at hvalid
    exact hvalid.1
  have hdigits : (intText user.score).length ≤ 12 := by
    unfold intText
    rw [if_neg (by omega)]
    refine Decimal.digits_length (by decide) ?_
    have hbound : 100 * INT_MAX < 10^12 := by decide
    omega
  have n1 := (plain_username h.username).noNul
  have n2 := chars_noNul (chars_id h.id)
  have p1 := precise_whole n1 (Nat.le_trans hname (by decide))
  have p2 : user.id.takeWhile (· != 0) = user.id := by
    rw [List.takeWhile_eq_self_iff]
    intro c hc
    rw [bne_iff_ne]
    rintro rfl
    exact n2 hc
  have c1 : (0 : UInt8) ∉ ascii "\x7b\"id\":\"" := by decide
  have c2 : (0 : UInt8) ∉ ascii "\",\"username\":\"" := by decide
  have c3 : (0 : UInt8) ∉ ascii "\",\"score\":" := by decide
  have c4 : (0 : UInt8) ∉ ascii "\x7d" := by decide
  have l1 : (ascii "\x7b\"id\":\"").length = 7 := rfl
  have l2 : (ascii "\",\"username\":\"").length = 14 := rfl
  have l3 : (ascii "\",\"score\":").length = 10 := rfl
  have l4 : (ascii "\x7d").length = 1 := rfl
  unfold publicUserFormat formatPublicUser
  simp only [p1, p2, Option.bind_eq_bind, Option.bind_some]
  refine ⟨trivial, ?_, ?_⟩
  · simp only [List.mem_append, not_or]
    exact ⟨⟨⟨⟨⟨⟨c1, n2⟩, c2⟩, n1⟩, c3⟩, intText_noNul _⟩, c4⟩
  · simp only [List.length_append]
    omega

/-! ## the rows are read -/

theorem bindAnswerId_digits {n : Nat} (h : 1 ≤ n ∧ n ≤ INT_MAX) :
    bindAnswerId (Decimal.digits n) = some n := by
  have hhead : ∀ c ∈ (Decimal.digits n).head?, isSpace c = false := by
    intro c hc
    have hdigit := (Decimal.isDigit_iff c).mp
      (Decimal.digits_isDigit n c (List.mem_of_mem_head? hc))
    rw [Bool.eq_false_iff]
    intro hspace
    simp only [isSpace, Bool.or_eq_true, beq_iff_eq, UInt8.ext_iff] at hspace
    change (((c.toNat = 32 ∨ c.toNat = 9) ∨ c.toNat = 10) ∨ c.toNat = 13) at hspace
    omega
  rw [bindAnswerId_eq hhead]
  exact (parseChallengeId_iff _ n).mpr ⟨h.1, h.2, rfl⟩

theorem readNumber_digits {maximum n : Nat} (hmax : 9 ≤ maximum) (h : n ≤ maximum) :
    readNumber maximum (Decimal.digits n) = some n :=
  (readNumber_iff hmax _ n).mpr ⟨Decimal.digits_ne_nil n, Decimal.digits_isDigit n,
    Decimal.value_digits n, h⟩

theorem bindAnswer_columns {answer : Answer} (h : answer.WellFormed) :
    bindAnswer answer.columns = some answer := by
  have hflag : (if answer.isCorrected then ascii "1" else ascii "0") = [48] ∨
      (if answer.isCorrected then ascii "1" else ascii "0") = [49] := by
    cases answer.isCorrected <;> decide
  have hone : ((if answer.isCorrected then ascii "1" else ascii "0") == [49]) =
    answer.isCorrected := by
    cases answer.isCorrected <;> decide
  unfold Answer.columns bindAnswer
  simp only [bindAnswerId_digits h.id, bindAnswerId_digits h.challengeId, hflag, h.username,
    and_self, if_true, hone]

theorem bindPublicUser_columns {user : PublicUser} (h : user.WellFormed) :
    bindPublicUser user.columns = some { user with score := 0 } := by
  have hvalid : (validId user.id && validUsername user.username) = true := by
    rw [h.id, h.username]
    exact rfl
  exact if_pos hvalid

theorem bindScoreAnswer_columns {answer : ScoreAnswer} (h : answer.WellFormed) :
    bindScoreAnswer answer.columns = some answer := by
  obtain ⟨h1, h2⟩ := h.challengeId
  obtain ⟨h3, h4⟩ := h.createdAt
  have hnumber : readNonnegativeInteger (Decimal.digits answer.challengeId) =
    some answer.challengeId :=
    readNumber_digits (by decide) (Nat.le_trans h2 (by decide))
  have htime : readAuthTime (Decimal.digits answer.createdAt.toNat) = some answer.createdAt.toNat :=
    readNumber_digits (by decide) (by omega)
  have hback : ((answer.createdAt.toNat : Nat) : Int) = answer.createdAt := Int.toNat_of_nonneg h3
  unfold ScoreAnswer.columns bindScoreAnswer
  simp only [readAuthId, h.userId, if_true, hnumber, htime, hback]
  exact if_neg (by omega)

/-- a result set whose rows can be bound is read, where memory suffices -/
theorem bindRows_reads {α : Type} {fields : Nat} {row : List (Option Bytes) → Option α}
    {columns : α → List (Option Bytes)}
    {f : α → α} (mem : Bool) {result : DbResult} {xs : List α}
    (h : HasRows result fields (xs.map columns)) (hrow : ∀ x ∈ xs, row (columns x) = some (f x)) :
    bindRows fields row mem result = some (xs.map f) ∨
      (bindRows fields row mem result = none ∧ mem = false) := by
  obtain ⟨res, hres, hf, hrows⟩ := h.stored
  have hmap : (xs.map columns).mapM row = some (xs.map f) := by
    rw [Readers.mapM_eq_some, List.forall₂_map_left_iff, List.forall₂_map_right_iff,
      List.forall₂_same]
    exact hrow
  unfold bindRows
  simp only [hres, hf, hrows, ne_eq, not_true_eq_false, if_false]
  split
  · next hnil => exact .inl (by rw [List.map_eq_nil_iff.mp hnil]; rfl)
  split
  · next hmem => exact .inr ⟨rfl, hmem⟩
  · exact .inl hmap

/-! ## the responses -/

/-- 200 with the list, which the writer writes whole or not at all, or 500 where memory is short -/
def Listing {α : Type} (env : Env) (verdict : Verdict) (members : α → List (Bytes × Bytes))
    (rows : List α) (writer : Malloc → Libc → Option StringT) : Prop :=
  ∃ response, verdict = .respond response ∧
    ((response.status = .ok ∧ response.contentType = some applicationJson ∧
      Lists members rows response.body ∧
      ∀ malloc libc, (writer malloc libc = some .null ∧
          (SIZE_MAX < response.body.length + 1 ∨ malloc.run (response.body.length + 1) = none)) ∨
        ∃ s, writer malloc libc = some s ∧ s.Holds response.body) ∨
    (response.status = .internalServerError ∧ ∃ alloc, env.alloc alloc = false))

/-- `!state->challenge_id || answers[i].challenge_id == state->challenge_id` -/
def matchesFilter (id : Nat) (answer : Answer) : Bool := id == 0 || answer.challengeId == id

section
variable {env : Env} {ctx : Ctx} {task : DbTask}

/-- an answer list, public or not -/
theorem listAnswers_listing {id : Nat} {answers : List Answer} (hlast : ctx.hasNext = false)
    (hid : ctx.appData = .list id) (hrows : HasRows task.result 7 (answers.map Answer.columns))
    (hwf : ∀ answer ∈ answers, answer.WellFormed) (selected : Answer → Bool) (publicView : Bool) :
    Listing env (listAnswers env ctx task selected publicView).verdict (answerMembers publicView)
      (answers.filter fun answer => selected answer && matchesFilter id answer) fun malloc libc =>
        answersToJsonBuffer malloc libc (answers.filter fun answer => selected answer &&
          matchesFilter id answer)
          publicView := by
  have hbind := bindRows_reads (f := fun answer => answer) (env.alloc .rows) hrows
    fun answer hanswer =>
    bindAnswer_columns (hwf answer hanswer)
  have hlisted : ∀ answer ∈ answers.filter fun answer => selected answer && matchesFilter id answer,
    answer.WellFormed :=
    fun answer hanswer => hwf answer (List.mem_of_mem_filter hanswer)
  rw [List.map_id'] at hbind
  unfold Listing listAnswers
  simp only [hlast, Bool.false_eq_true, if_false, hid]
  unfold bindAnswers
  rcases hbind with hsome | ⟨hnone, hmem⟩
  · rw [hsome]
    dsimp only
    split
    · next hselected => exact ⟨_, rfl, .inr ⟨rfl, .selected, hselected.2⟩⟩
    split
    · next hjson => exact ⟨_, rfl, .inr ⟨rfl, .json, hjson⟩⟩
    · refine ⟨_, rfl, .inl ⟨rfl, rfl, lists_text fun answer hanswer => answerObject
        (hlisted answer hanswer) publicView, ?_⟩⟩
      intro malloc libc
      have hformats : (answers.filter fun answer => selected answer && matchesFilter id answer).map
        (answerFormat publicView) =
          ((answers.filter fun answer => selected answer && matchesFilter id answer).map
            (formatAnswer publicView)).map some := by
        rw [List.map_map]
        exact List.map_congr_left fun answer hanswer =>
          (answerFormat_eq (hlisted answer hanswer) publicView).1
      unfold answersToJsonBuffer
      rw [hformats]
      exact writeList_cases guards_answers false (List.forall_mem_map.mpr fun answer hanswer =>
        (answerFormat_eq (hlisted answer hanswer) publicView).2) malloc libc
  · rw [hnone]
    exact ⟨_, rfl, .inr ⟨rfl, .rows, hmem⟩⟩

/-- a score is at most 100 for each id of a challenge -/
theorem withScore_bounds {ended : ScoreAnswer → Bool} {answers : List ScoreAnswer}
    (h : ∀ answer ∈ answers, answer.WellFormed) (user : PublicUser) :
    0 ≤ (withScore ended answers user).score ∧ (withScore ended answers user).score ≤
      100 * INT_MAX := by
  have hsub : solved ended user.id answers ⊆ Finset.Icc 1 INT_MAX := by
    intro n hn
    obtain ⟨answer, hanswer, -, -, rfl⟩ := mem_solved.mp hn
    exact Finset.mem_Icc.mpr (h answer hanswer).challengeId
  have hcard := Finset.card_le_card hsub
  rw [Nat.card_Icc, Nat.add_sub_cancel] at hcard
  show 0 ≤ 100 * ((solved ended user.id answers).card : Int) ∧
    100 * ((solved ended user.id answers).card : Int) ≤ 100 * INT_MAX
  omega

/-- the list of users, in the order of their scores -/
theorem users_listing {users : List PublicUser} {answers : List ScoreAnswer} (runtime : Runtime)
    (hread : ctx.appData = .users (users.map fun user => { user with score := 0 }))
    (hids : (users.map (·.id)).Nodup) (husers : ∀ user ∈ users, user.WellFormed)
    (hrows : HasRows task.result 3 (answers.map ScoreAnswer.columns))
    (hanswers : ∀ answer ∈ answers, answer.WellFormed) :
    ∃ ranked, ranked.Perm (users.map
      (withScore (endedAt runtime.contestEndEnabled runtime.contestEndAt) answers)) ∧
      Ranked ranked ∧ Listing env (handleGetUsers3 runtime env ctx task).verdict userMembers ranked
      fun malloc libc =>
        publicUsersToJsonBuffer malloc libc ranked := by
  have hreset : (users.map fun user => ({ user with score := 0 } : PublicUser)).map (·.id) =
    users.map (·.id) := by
    rw [List.map_map]
    rfl
  obtain ⟨hperm, hranked⟩ := calculateUserScoresBy_spec .merge
    (users.map fun user => { user with score := 0 }) answers
    runtime.contestEndEnabled runtime.contestEndAt (hreset ▸ hids) fun answer hanswer =>
      (hanswers answer hanswer).challengeId.1
  rw [← calculateUserScores_merge] at hperm hranked
  rw [List.map_map] at hperm
  refine ⟨_, hperm, hranked, ?_⟩
  generalize hlist : calculateUserScores (users.map fun user => { user with score := 0 }) answers
    runtime.contestEndEnabled
    runtime.contestEndAt = ranked at hperm
  have hwf : ∀ user ∈ ranked, user.WellFormed ∧ 0 ≤ user.score ∧ user.score ≤ 100 * INT_MAX := by
    intro user huser
    obtain ⟨row, hrow, rfl⟩ := List.mem_map.mp (hperm.mem_iff.mp huser)
    exact ⟨⟨(husers row hrow).id, (husers row hrow).username⟩, withScore_bounds hanswers _⟩
  have hbind := bindRows_reads (f := fun answer => answer) (env.alloc .rows) hrows
    fun answer hanswer =>
    bindScoreAnswer_columns (hanswers answer hanswer)
  rw [List.map_id'] at hbind
  unfold Listing handleGetUsers3
  simp only [hread]
  unfold bindScoreAnswers
  rcases hbind with hsome | ⟨hnone, hmem⟩
  · rw [hsome]
    dsimp only
    rw [hlist]
    split
    · next hjson => exact ⟨_, rfl, .inr ⟨rfl, .json, hjson⟩⟩
    · refine ⟨_, rfl, .inl ⟨rfl, rfl, lists_text fun user huser => userObject (hwf user huser).1
        (hwf user huser).2.1, ?_⟩⟩
      intro malloc libc
      have hformats : ranked.map publicUserFormat = (ranked.map formatPublicUser).map some := by
        rw [List.map_map]
        exact List.map_congr_left fun user huser =>
          (publicUserFormat_eq (hwf user huser).1 (hwf user huser).2.1
          (hwf user huser).2.2).1
      unfold publicUsersToJsonBuffer
      rw [hformats]
      exact writeList_cases guards_users true (List.forall_mem_map.mpr fun user huser =>
        (publicUserFormat_eq (hwf user huser).1 (hwf user huser).2.1 (hwf user huser).2.2).2) malloc
          libc
  · rw [hnone]
    exact ⟨_, rfl, .inr ⟨rfl, .rows, hmem⟩⟩

/-! ## the lists -/

/-- the three requests for a list, at their last stages, with well-formed rows -/
structure ListRequests (env : Env) (ctx own board : Ctx) (task scores users : DbTask) (id : Nat)
    (user : Bytes)
    (answers : List Answer) (accounts : List PublicUser) (solutions : List ScoreAnswer) : Prop where
  /-- GET /answers and GET /answers/me, with the id of the filter, or 0 -/
  last : ctx.hasNext = false ∧ own.hasNext = false
  filter : ctx.appData = .list id ∧ own.appData = .list id
  verified : own.user = some user
  rows : HasRows task.result 7 (answers.map Answer.columns)
  wf : ∀ answer ∈ answers, answer.WellFormed
  /-- GET /users, with the accounts that its second stage has read -/
  accounts : HasRows users.result 2 (accounts.map PublicUser.columns) ∧
    (accounts.map (·.id)).Nodup ∧
    ∀ account ∈ accounts, account.WellFormed
  read : ∃ stored, bindPublicUsers (env.alloc .rows) users.result = some stored ∧ board.appData =
    .users stored
  scores : HasRows scores.result 3 (solutions.map ScoreAnswer.columns) ∧ ∀ solution ∈ solutions,
    solution.WellFormed

end

/-- **The lists are complete and well formed.** GET /answers shows one object for each correct
answer that passes the filter, GET /answers/me one for each answer of the user that does, in the
order of the rows, and GET /users one for each user in the order of the ranking; each object has the
values of its row, and a stored answer is read back as it was; the body is valid JSON, and what its
writer stores is inside of its buffer. -/
theorem lists_complete (runtime : Runtime) {env : Env} {ctx own board : Ctx}
    {task scores users : DbTask} {id : Nat}
    {user : Bytes} {answers : List Answer} {accounts : List PublicUser}
    {solutions : List ScoreAnswer}
    (h : ListRequests env ctx own board task scores users id user answers accounts solutions) :
    Listing env (handleGetAnswers3 env ctx task).verdict publicMembers
        (answers.filter fun answer => answer.isCorrected && matchesFilter id answer)
        (fun malloc libc =>
          answersToJsonBuffer malloc libc (answers.filter fun answer => answer.isCorrected &&
            matchesFilter id answer) true) ∧
      Listing env (handleGetOwnAnswers3 env own task).verdict ownMembers
        (answers.filter fun answer => answer.userId == user && matchesFilter id answer)
        (fun malloc libc =>
          answersToJsonBuffer malloc libc (answers.filter fun answer => answer.userId == user &&
            matchesFilter id answer)
            false) ∧
      (∃ ranked, ranked.Perm (accounts.map
        (withScore (endedAt runtime.contestEndEnabled runtime.contestEndAt) solutions)) ∧
        Ranked ranked ∧ Listing env (handleGetUsers3 runtime env board scores).verdict userMembers
        ranked fun malloc libc =>
          publicUsersToJsonBuffer malloc libc ranked) ∧
      ∀ answer ∈ answers, ∀ rest, readString (quote answer.answer ++ rest) =
        some (answer.answer, rest) := by
  refine ⟨listAnswers_listing h.last.1 h.filter.1 h.rows h.wf (fun answer => answer.isCorrected)
    true, ?_, ?_, ?_⟩
  · have huser : own.userBytes = user := by
      unfold Ctx.userBytes
      rw [h.verified]
      rfl
    unfold handleGetOwnAnswers3
    rw [huser]
    exact listAnswers_listing h.last.2 h.filter.2 h.rows h.wf
      (fun answer => answer.userId == user) false
  · obtain ⟨haccounts, hids, hwf⟩ := h.accounts
    obtain ⟨stored, hstored, hread⟩ := h.read
    rcases bindRows_reads (env.alloc .rows) haccounts fun account haccount => bindPublicUser_columns
      (hwf account haccount)
      with hsome | ⟨hnone, -⟩
    · have heq : stored = accounts.map fun account => { account with score := 0 } :=
        Option.some.inj (hstored.symm.trans hsome)
      exact users_listing runtime (heq ▸ hread) hids hwf h.scores.1 h.scores.2
    · rw [show bindPublicUsers (env.alloc .rows) users.result = none from hnone] at hstored
      cases hstored
  · intro answer hanswer rest
    have hread := readString_chars (w := []) (List.forall_mem_nil _)
      (h.wf answer hanswer).text.1 rest
    rw [quote_append]
    exact hread

def shownUserId : Bytes := List.replicate 32 97

def otherUserId : Bytes := List.replicate 32 98

def shownAnswer : Answer :=
  ⟨1, 1, shownUserId, ascii "alice", ascii "flag\\n", true, ascii "2024-01-01T00:00:00Z"⟩

/-- answers to two challenges by two users, the last two of them wrong -/
def shownAnswers : List Answer :=
  [shownAnswer, { shownAnswer with id := 2, challengeId := 2 },
    { shownAnswer with id := 3, userId := otherUserId, username := ascii "bob", isCorrected := false },
    { shownAnswer with id := 4, isCorrected := false }]

def shownUsers : List PublicUser := [⟨otherUserId, ascii "bob", 0⟩, ⟨shownUserId, ascii "alice", 0⟩]

def shownSolutions : List ScoreAnswer := [⟨shownUserId, 1, 0⟩, ⟨shownUserId, 2, 60⟩]

def shownEnv : Env := ⟨0, none, true, .queued, fun _ => true, fun _ => true⟩

def shownCtx (stage : Stage) (appData : AppData) : Ctx :=
  ⟨{ method := .get, uri := ascii "/answers" }, [stage], appData,
    some ⟨⟨shownUserId, shownUserId, 0, 0, 1⟩, true⟩⟩

theorem shownAnswer_wellFormed : shownAnswer.WellFormed where
  id := by decide
  challengeId := by decide
  userId := by decide
  username := by decide
  text := ⟨.cons (Piece.plain 102 (by decide) (by decide) (by decide) (by decide)).charBytes
    (.cons (Piece.plain 108 (by decide) (by decide) (by decide) (by decide)).charBytes
    (.cons (Piece.plain 97 (by decide) (by decide) (by decide) (by decide)).charBytes
    (.cons (Piece.plain 103 (by decide) (by decide) (by decide) (by decide)).charBytes
    (.cons (.escape 110 (by decide)) .nil)))), by decide⟩
  createdAt := by decide

theorem shownAnswers_wellFormed : ∀ answer ∈ shownAnswers, answer.WellFormed := by
  have h := shownAnswer_wellFormed
  refine List.forall_mem_cons.mpr
    ⟨h, List.forall_mem_cons.mpr ⟨{ h with id := ?_, challengeId := ?_ },
    List.forall_mem_cons.mpr ⟨{ h with id := ?_, userId := ?_, username := ?_ },
      List.forall_mem_singleton.mpr { h with id := ?_ }⟩⟩⟩
  all_goals decide

/-- a result set of rows of one length -/
theorem hasRows_of_length (fields : Nat) (rows : List (List (Option Bytes)))
    (h : ∀ row ∈ rows, row.length = fields) : ∃ result, HasRows result fields rows :=
  ⟨{ success := true, res := some ⟨fields, rows, h⟩ }, ⟨_, rfl, rfl, rfl⟩⟩

/-- with the filter for challenge 1, one answer is public, and two are the user's own -/
theorem lists_complete_sample : ∃ task scores : DbTask,
    Listing shownEnv (handleGetAnswers3 shownEnv (shownCtx .getAnswers3 (.list 1)) task).verdict
    publicMembers
        [shownAnswer] (fun malloc libc => answersToJsonBuffer malloc libc [shownAnswer] true) ∧
      Listing shownEnv (handleGetOwnAnswers3 shownEnv (shownCtx .getOwnAnswers3 (.list 1))
        task).verdict ownMembers
        [shownAnswer, { shownAnswer with id := 4, isCorrected := false }] (fun malloc libc =>
          answersToJsonBuffer malloc libc
            [shownAnswer, { shownAnswer with id := 4, isCorrected := false }] false) ∧
      ∃ ranked, ranked.Perm (shownUsers.map (withScore (endedAt true 60) shownSolutions)) ∧
        Ranked ranked ∧
        Listing shownEnv (handleGetUsers3 ⟨⟨[], [], [], 0, []⟩, 0, 60, true⟩ shownEnv
          (shownCtx .getUsers3 (.users shownUsers)) scores).verdict userMembers ranked
          fun malloc libc => publicUsersToJsonBuffer malloc libc ranked := by
  obtain ⟨answerRows, hanswers⟩ := hasRows_of_length 7 (shownAnswers.map Answer.columns)
    (List.forall_mem_map.mpr fun _ _ => rfl)
  obtain ⟨scoreRows, hscores⟩ := hasRows_of_length 3 (shownSolutions.map ScoreAnswer.columns)
    (List.forall_mem_map.mpr fun _ _ => rfl)
  obtain ⟨userRows, husers⟩ := hasRows_of_length 2 (shownUsers.map PublicUser.columns)
    (List.forall_mem_map.mpr fun _ _ => rfl)
  have huser : ∀ account ∈ shownUsers, account.WellFormed :=
    List.forall_mem_cons.mpr ⟨⟨by decide, by decide⟩, List.forall_mem_singleton.mpr
      ⟨by decide, by decide⟩⟩
  have hsolution : ∀ solution ∈ shownSolutions, solution.WellFormed :=
    List.forall_mem_cons.mpr ⟨⟨by decide, by decide, by decide⟩,
      List.forall_mem_singleton.mpr ⟨by decide, by decide, by decide⟩⟩
  have hread : bindPublicUsers true userRows = some shownUsers := by
    rcases bindRows_reads true husers fun account haccount => bindPublicUser_columns
      (huser account haccount) with
      hsome | ⟨-, hmem⟩
    · exact hsome
    · cases hmem
  have hrequests : ListRequests shownEnv (shownCtx .getAnswers3 (.list 1))
    (shownCtx .getOwnAnswers3 (.list 1))
      (shownCtx .getUsers3 (.users shownUsers)) ⟨.selectAnswers, answerRows⟩
      ⟨.selectScoreAnswers, scoreRows⟩
      ⟨.selectPublicUsers, userRows⟩ 1 shownUserId shownAnswers shownUsers shownSolutions :=
    ⟨⟨rfl, rfl⟩, ⟨rfl, rfl⟩, rfl, hanswers, shownAnswers_wellFormed, ⟨husers, by decide, huser⟩,
      ⟨_, hread, rfl⟩,
      ⟨hscores, hsolution⟩⟩
  obtain ⟨h1, h2, h3, -⟩ := lists_complete ⟨⟨[], [], [], 0, []⟩, 0, 60, true⟩ hrequests
  have hpublic : (shownAnswers.filter fun answer => answer.isCorrected && matchesFilter 1 answer) =
      [shownAnswer] := by
    decide
  have hown : (shownAnswers.filter fun answer => answer.userId == shownUserId && matchesFilter 1 answer) =
      [shownAnswer, { shownAnswer with id := 4, isCorrected := false }] := by decide
  rw [hpublic] at h1
  rw [hown] at h2
  exact ⟨_, _, h1, h2, h3⟩

end App

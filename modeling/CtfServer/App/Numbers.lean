import CtfServer.App.HandlerAnswer
import CtfServer.Http.Request

/-!
# The readers of decimal numbers

Five loops of the source read digits with a guard against overflow: `parse_challenge_id`,
`read_positive_integer`, `read_auth_time`, `read_nonnegative_integer` and the one of `parse_header`
for Content-Length.  Here each has its form with every result checked against the range of its type.

* `parseChallengeId_iff`   accepted are the numerals of 1, 2, ... up to `INT_MAX`;
* `bindAnswerId_eq`        what `read_positive_integer` takes whole is the same;
* `decimal_readers`        **the readers agree, are exact at their limits, and never overflow**.
-/

set_option linter.unusedVariables false

namespace App

open Json (INT_MAX readPositiveInteger positiveLoop skipWhitespace isSpace)
open Http (readContentLength)

/-! ## with every result checked -/

def INT64_MIN : Int := -2^63

def parseChallengeIdChecked (text : Bytes) : Option (Option Int) :=
  match text with
  | [] => some none
  | c :: _ =>
    if c < 49 ∨ 57 < c then some none else Decimal.readChecked (-2^31) INT_MAX INT_MAX 0 text

/-- the loop of `read_positive_integer` -/
def positiveLoopChecked (number : Int) : Bytes → Option (Option (Int × Bytes))
  | [] => some (some (number, []))
  | c :: cur =>
    if Decimal.isDigit c then
      match Decimal.digitChecked (-2^31) INT_MAX INT_MAX number c with
      | none => none
      | some none => some none
      | some (some number) => positiveLoopChecked number cur
    else some (some (number, c :: cur))

def readPositiveIntegerChecked (cur : Bytes) : Option (Option (Int × Bytes)) :=
  match skipWhitespace cur with
  | [] => some none
  | c :: cur => if c < 49 ∨ 57 < c then some none else positiveLoopChecked 0 (c :: cur)

def readAuthTimeChecked (value : Bytes) : Option (Option Int) :=
  if value = [] then some none else Decimal.readChecked INT64_MIN INT64_MAX AUTH_TIME_MAX 0 value

def readNonnegativeIntegerChecked (value : Bytes) : Option (Option Int) :=
  if value = [] then some none else Decimal.readChecked INT64_MIN INT64_MAX INT64_MAX 0 value

/-- `value_len == 0`, then the loop of `parse_header` -/
def contentLength (value : Bytes) : Option Nat :=
  if value = [] then none else readContentLength value

def contentLengthChecked (value : Bytes) : Option (Option Int) :=
  if value = [] then some none else Decimal.readChecked 0 Http.SIZE_MAX Http.SIZE_MAX 0 value

theorem parseChallengeIdChecked_eq (text : Bytes) :
    parseChallengeIdChecked text = some ((parseChallengeId text).map Int.ofNat) := by
  unfold parseChallengeIdChecked parseChallengeId
  cases text with
  | nil => rfl
  | cons c text =>
    by_cases hc : c < 49 ∨ 57 < c
    · simp only [if_pos hc]
      rfl
    · simp only [if_neg hc]
      exact Decimal.readChecked_eq (by decide) (by decide) (by decide) (Nat.zero_le _) _

theorem positiveLoopChecked_eq {number : Nat} (h : number ≤ INT_MAX) (cur : Bytes) :
    positiveLoopChecked number cur = some ((positiveLoop number cur).map fun r =>
      ((r.1 : Int), r.2)) := by
  induction cur generalizing number with
  | nil => rfl
  | cons c cur ih =>
    rw [positiveLoopChecked, positiveLoop]
    by_cases hc : Decimal.isDigit c = true
    · have hle := Decimal.digit_le c hc
      rw [if_pos hc, if_pos hc, Decimal.digitChecked_eq (by decide) (by decide) (by decide) hc]
      by_cases hguard : number > (INT_MAX - Decimal.digit c) / 10
      · simp only [if_pos hguard]
        rfl
      · have hsum : number * 10 + Decimal.digit c ≤ INT_MAX := by
          have h9 : 9 ≤ INT_MAX := by decide
          have := (Decimal.guard_iff INT_MAX number (Decimal.digit c) (by omega)).not.mp hguard
          omega
        simp only [if_neg hguard]
        exact ih hsum
    · rw [if_neg hc, if_neg hc]
      rfl

theorem readPositiveIntegerChecked_eq (cur : Bytes) :
    readPositiveIntegerChecked cur = some ((readPositiveInteger cur).map fun r =>
      ((r.1 : Int), r.2)) := by
  unfold readPositiveIntegerChecked readPositiveInteger
  cases skipWhitespace cur with
  | nil => rfl
  | cons c cur =>
    by_cases hc : c < 49 ∨ 57 < c
    · simp only [if_pos hc]
      rfl
    · simp only [if_neg hc]
      exact positiveLoopChecked_eq (Nat.zero_le _) _

theorem readNumberChecked_eq {lo hi : Int} {max : Nat} (hlo : lo ≤ 0) (hhi : (max : Int) ≤ hi)
    (hmax : 9 ≤ max) (value : Bytes) :
    (if value = [] then some none else Decimal.readChecked lo hi max 0 value) =
      some ((readNumber max value).map Int.ofNat) := by
  unfold readNumber
  by_cases h : value = []
  · rw [if_pos h, if_pos h]
    rfl
  · rw [if_neg h, if_neg h]
    exact Decimal.readChecked_eq hlo hhi hmax (Nat.zero_le _) value

/-! ## what they accept -/

theorem readNumber_iff {max : Nat} (hmax : 9 ≤ max) (value : Bytes) (n : Nat) :
    readNumber max value = some n ↔
      value ≠ [] ∧ (∀ c ∈ value, Decimal.isDigit c = true) ∧ Decimal.value value = n ∧ n ≤ max := by
  unfold readNumber
  by_cases h : value = []
  · rw [if_pos h]
    exact ⟨fun hn => (nomatch hn), fun hn => absurd h hn.1⟩
  · rw [if_neg h, Decimal.readGuarded_iff max 0 n value hmax (Nat.zero_le _)]
    exact ⟨fun hn => ⟨h, hn⟩, fun hn => hn.2⟩

/-- `parse_challenge_id` accepts the numerals of the positive `int`s -/
theorem parseChallengeId_iff (text : Bytes) (n : Nat) :
    parseChallengeId text = some n ↔ 1 ≤ n ∧ n ≤ INT_MAX ∧ text = Decimal.digits n := by
  constructor
  · intro h
    unfold parseChallengeId at h
    cases text with
    | nil => cases h
    | cons c text =>
      simp only at h
      split at h
      · cases h
      next hc =>
      obtain ⟨hdigits, hvalue, hmax⟩ :=
        (Decimal.readGuarded_iff INT_MAX 0 n _ (by decide) (Nat.zero_le _)).mp h
      rw [UInt8.lt_iff_toNat_lt, UInt8.lt_iff_toNat_lt] at hc
      change ¬ (c.toNat < 49 ∨ 57 < c.toNat) at hc
      obtain ⟨hcanonical, hpos⟩ := Decimal.digits_value (show 49 ≤ c.toNat ∧ c.toNat ≤ 57 by omega)
        (fun x hx => hdigits x (List.mem_cons_of_mem _ hx))
      have heq : Decimal.value (c :: text) = n := hvalue
      rw [heq] at hcanonical hpos
      exact ⟨hpos, hmax, hcanonical.symm⟩
  · rintro ⟨hpos, hmax, rfl⟩
    obtain ⟨c, cs, hcs, hc⟩ := Decimal.digits_head n hpos
    have hread := Decimal.readGuarded_digits INT_MAX n (by decide) hmax
    unfold parseChallengeId
    rw [hcs] at hread ⊢
    have hrange : ¬ (c < 49 ∨ 57 < c) := by
      rw [UInt8.lt_iff_toNat_lt, UInt8.lt_iff_toNat_lt]
      show ¬ (c.toNat < 49 ∨ 57 < c.toNat)
      omega
    simp only [if_neg hrange]
    exact hread

/-- what `read_positive_integer` reads to its end, `parse_challenge_id` reads as the same -/
theorem positiveLoop_whole {c : UInt8} {text : Bytes} :
    (match positiveLoop 0 (c :: text) with
      | some (id, []) => some id
      | _ => none) = Decimal.readGuarded INT_MAX 0 (c :: text) := by
  have hsplit : c :: text = (c :: text).takeWhile Decimal.isDigit ++ (c :: text).dropWhile
    Decimal.isDigit :=
    List.takeWhile_append_dropWhile.symm
  have hloop := Json.positiveLoop_digits 0 ((c :: text).takeWhile Decimal.isDigit)
    ((c :: text).dropWhile Decimal.isDigit)
    (fun x hx => List.mem_takeWhile_imp hx) (fun x hx => by
      have := List.head?_dropWhile_not Decimal.isDigit (c :: text)
      rw [Option.mem_def.mp hx] at this
      simpa using this)
  rw [← hsplit] at hloop
  rw [hloop]
  cases hrest : (c :: text).dropWhile Decimal.isDigit with
  | nil =>
    rw [hrest, List.append_nil] at hsplit
    rw [← hsplit]
    cases Decimal.readGuarded INT_MAX 0 (c :: text) <;> rfl
  | cons x rest =>
    -- an octet that is no digit ends the one loop and fails the other
    have hnone : Decimal.readGuarded INT_MAX 0 (c :: text) = none := by
      rw [Option.eq_none_iff_forall_ne_some]
      intro n hn
      have hdigits := ((Decimal.readGuarded_iff INT_MAX 0 n _ (by decide) (Nat.zero_le _)).mp hn).1
      have hall := List.dropWhile_eq_nil_iff.mpr hdigits
      rw [hall] at hrest
      cases hrest
    rw [hnone]
    cases Decimal.readGuarded INT_MAX 0 ((c :: text).takeWhile Decimal.isDigit) <;> rfl

theorem readPositiveInteger_head {c : UInt8} (hc : isSpace c = false) (value : Bytes) :
    readPositiveInteger (c :: value) = if c < 49 ∨ 57 < c then none else positiveLoop 0
    (c :: value) := by
  have hskip : skipWhitespace (c :: value) = c :: value :=
    List.dropWhile_cons_of_neg (by rw [hc]; decide)
  unfold readPositiveInteger
  rw [hskip]

/-- `bind_answer_id` on a string that does not begin with whitespace -/
theorem bindAnswerId_eq {value : Bytes} (h : ∀ c ∈ value.head?, isSpace c = false) :
    bindAnswerId value = parseChallengeId value := by
  cases value with
  | nil => rfl
  | cons c value =>
    unfold bindAnswerId parseChallengeId
    rw [readPositiveInteger_head (h c rfl)]
    by_cases hc : c < 49 ∨ 57 < c
    · simp only [if_pos hc]
    · simp only [if_neg hc]
      exact positiveLoop_whole

/-- `answer_filter` looks at the first octet itself -/
theorem answerFilterValue_eq (value : Bytes) :
    answerFilterValue value = parseChallengeId value := by
  cases value with
  | nil => rfl
  | cons c value =>
    by_cases hc : c < 49 ∨ 57 < c
    · unfold answerFilterValue parseChallengeId
      simp only [if_pos hc]
    · have hspace : isSpace c = false := by
        rw [Bool.eq_false_iff]
        intro hs
        unfold isSpace at hs
        simp only [Bool.or_eq_true, beq_iff_eq] at hs
        rcases hs with ((rfl | rfl) | rfl) | rfl <;> exact hc (by decide)
      rw [← bindAnswerId_eq (show ∀ x ∈ (c :: value).head?, isSpace x = false from fun x hx =>
        Option.some.inj hx ▸ hspace)]
      show (if c < 49 ∨ 57 < c then none else bindAnswerId (c :: value)) = _
      rw [if_neg hc]

/-- **The readers agree, and never overflow.** `parse_challenge_id` accepts exactly the canonical
numerals of 1 to `INT_MAX`; `bind_answer_id` and `answer_filter` accept the same with the same
value; the other three accept the non-empty digit strings up to their bounds; and with every result
checked against its type, each loop comes to the same result. -/
theorem decimal_readers (value : Bytes) :
    (∀ n, parseChallengeId value = some n ↔ 1 ≤ n ∧ n ≤ INT_MAX ∧ value = Decimal.digits n) ∧
    ((∀ c ∈ value.head?, isSpace c = false) →
      bindAnswerId value = parseChallengeId value ∧ answerFilterValue value =
      parseChallengeId value) ∧
    (∀ n, contentLength value = some n ↔
      value ≠ [] ∧ (∀ c ∈ value, Decimal.isDigit c = true) ∧ Decimal.value value = n ∧
      n ≤ 2^64 - 1) ∧
    (∀ n, readAuthTime value = some n ↔
      value ≠ [] ∧ (∀ c ∈ value, Decimal.isDigit c = true) ∧ Decimal.value value = n ∧
      n ≤ 253402300799) ∧
    (∀ n, readNonnegativeInteger value = some n ↔
      value ≠ [] ∧ (∀ c ∈ value, Decimal.isDigit c = true) ∧ Decimal.value value = n ∧
      n ≤ 2^63 - 1) ∧
    parseChallengeIdChecked value = some ((parseChallengeId value).map Int.ofNat) ∧
    readPositiveIntegerChecked value = some ((readPositiveInteger value).map fun r =>
      ((r.1 : Int), r.2)) ∧
    contentLengthChecked value = some ((contentLength value).map Int.ofNat) ∧
    readAuthTimeChecked value = some ((readAuthTime value).map Int.ofNat) ∧
    readNonnegativeIntegerChecked value = some ((readNonnegativeInteger value).map Int.ofNat) :=
  ⟨parseChallengeId_iff value, fun h => ⟨bindAnswerId_eq h, answerFilterValue_eq value⟩,
    readNumber_iff (by decide) value, readNumber_iff (by decide) value, readNumber_iff
    (by decide) value,
    parseChallengeIdChecked_eq value, readPositiveIntegerChecked_eq value,
    readNumberChecked_eq (Int.le_refl 0) (Int.le_refl _) (by decide) value,
    readNumberChecked_eq (by decide) (by decide) (by decide) value,
    readNumberChecked_eq (by decide) (Int.le_refl _) (by decide) value⟩

end App

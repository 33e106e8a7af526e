import CtfServer.Store.Valid
import CtfServer.Store.Evolution
import CtfServer.Json.Fields

/-!
# What the writers let in

The values of the INSERTs and UPDATEs as the validators of the handlers let them in.

* `Admitted`         the values of a statement;
* `Admitted.fits`    **they meet the lengths, `NOT NULL` and `CHECK` of the columns**;
* `Sound`            a valid database whose `AUTO_INCREMENT` columns have started;
* `Exec.sound`       **a statement with such values keeps the database valid**.
-/

set_option linter.unusedVariables false
set_option linter.unusedSimpArgs false

namespace Store

open App
open Json (INT_MAX Literal storedCharacterCount validUsername isUsernameByte)

/-! ## values -/

/-- the values of a challenge as `json_to_create_challenge_request` lets them in -/
structure ChallengeValues (name description flag : Bytes) (genre : Nat) : Prop where
  name : Literal name ∧ storedCharacterCount name ≤ 255
  description : Literal description ∧ description.length ≤ 65535
  flag : Literal flag ∧ storedCharacterCount flag ≤ 255
  genre : genre ≤ 6

/-- the values of a statement -/
def Admitted : Query → Prop
  | .insertUser id username passwordHash =>
    validId id = true ∧ validUsername username = true ∧ validHash passwordHash = true
  | .insertChallenge creatorId name description flag genre =>
    validId creatorId = true ∧ ChallengeValues name description flag genre
  | .updateChallenge name description flag genre _ _ => ChallengeValues name description flag genre
  | .insertAnswer challengeId userId answer _ =>
    (1 ≤ challengeId ∧ challengeId ≤ INT_MAX) ∧ validId userId = true ∧ Literal answer ∧
      storedCharacterCount answer ≤ 255
  | .insertSession id userId issuedAt expiresAt =>
    validId id = true ∧ validId userId = true ∧ 0 ≤ issuedAt ∧ issuedAt < expiresAt ∧
      expiresAt ≤ AUTH_TIME_MAX
  | _ => True

/-! ## columns -/

theorem fitsAscii_of {n : Nat} {p : UInt8 → Bool} {value : Bytes} (hlen : value.length ≤ n)
    (hall : value.all p = true) (hp : ∀ c, p c = true → c.toNat < 128) :
    fitsAscii n value = true := by
  unfold fitsAscii
  rw [decide_eq_true hlen, Bool.true_and, List.all_eq_true]
  intro c hc
  rw [decide_eq_true_eq, UInt8.lt_iff_toNat_lt]
  exact hp c (List.all_eq_true.1 hall c hc)

theorem fitsAscii_id {id : Bytes} (h : validId id = true) : fitsAscii 32 id = true := by
  simp only [validId, AUTH_ID_LENGTH, Bool.and_eq_true, beq_iff_eq] at h
  refine fitsAscii_of (Nat.le_of_eq h.1) h.2 fun c hc => ?_
  simp only [isIdByte, Bool.or_eq_true, Bool.and_eq_true, decide_eq_true_eq,
    UInt8.le_iff_toNat_le] at hc
  rcases hc with hc | hc <;> exact Nat.lt_of_le_of_lt hc.2 (by decide)

theorem fitsAscii_username {username : Bytes} (h : validUsername username = true) :
    fitsAscii 32 username = true := by
  simp only [validUsername, Bool.and_eq_true, decide_eq_true_eq] at h
  refine fitsAscii_of h.1.2 h.2 fun c hc => ?_
  simp only [isUsernameByte, Bool.or_eq_true, Bool.and_eq_true, decide_eq_true_eq, beq_iff_eq,
    UInt8.le_iff_toNat_le] at hc
  rcases hc with (((hc | hc) | hc) | rfl) | rfl
  · exact Nat.lt_of_le_of_lt hc.2 (by decide)
  · exact Nat.lt_of_le_of_lt hc.2 (by decide)
  · exact Nat.lt_of_le_of_lt hc.2 (by decide)
  · decide
  · decide

theorem fitsAscii_hash {hash : Bytes} (h : validHash hash = true) : fitsAscii 255 hash = true := by
  simp only [validHash, Bool.and_eq_true, decide_eq_true_eq] at h
  refine fitsAscii_of h.1.2 h.2 fun c hc => ?_
  simp only [isPrintable, Bool.and_eq_true, decide_eq_true_eq, UInt8.le_iff_toNat_le] at hc
  exact Nat.lt_of_le_of_lt hc.2 (by decide)

/-- the characters of a literal are those that the validators count -/
theorem fitsText_of {f : Bytes} (h : Literal f ∧ storedCharacterCount f ≤ 255) :
    fitsText f = true := by
  obtain ⟨chs, rfl, hcount⟩ := ((Json.chars_iff _).2 h.1).text
  unfold fitsText
  rw [show (chs.flatMap String.utf8EncodeChar).toByteArray = chs.utf8Encode from rfl,
    List.utf8Decode?_utf8Encode]
  exact decide_eq_true (hcount.symm.trans_le h.2)

theorem ChallengeValues.fits {name description flag : Bytes} {genre : Nat}
    (h : ChallengeValues name description flag genre) :
    (fitsText name && fitsLongText description && fitsText flag && decide (genre ≤ INT_MAX)) =
    true := by
  have hgenre : genre ≤ INT_MAX := Nat.le_trans h.genre (by decide)
  unfold fitsLongText
  rw [fitsText_of h.name, decide_eq_true h.description.2, fitsText_of h.flag, decide_eq_true hgenre]
  rfl

/-- **The values that the validators let in meet the lengths, `NOT NULL` and `CHECK` of their
columns.** -/
theorem Admitted.fits {q : Query} (h : Admitted q) : fits q = true := by
  cases q with
  | insertUser id username passwordHash =>
    obtain ⟨hid, hname, hhash⟩ := h
    show (fitsAscii 32 id && fitsAscii 32 username && fitsAscii 255 passwordHash) = true
    rw [fitsAscii_id hid, fitsAscii_username hname, fitsAscii_hash hhash]
    rfl
  | insertChallenge creatorId name description flag genre =>
    have hvalues := h.2.fits
    show (fitsAscii 32 creatorId && fitsText name && fitsLongText description && fitsText flag &&
      decide (genre ≤ INT_MAX)) = true
    rw [fitsAscii_id h.1, Bool.true_and]
    exact hvalues
  | updateChallenge name description flag genre id creatorId => exact ChallengeValues.fits h
  | insertAnswer challengeId userId answer isCorrect =>
    obtain ⟨-, hid, htext⟩ := h
    show (fitsAscii 32 userId && fitsText answer) = true
    rw [fitsAscii_id hid]
    exact fitsText_of htext
  | insertSession id userId issuedAt expiresAt =>
    obtain ⟨hid, huser, h0, hlt, hmax⟩ := h
    show (fitsAscii 32 id && fitsAscii 32 userId && fitsDate issuedAt && fitsDate expiresAt &&
      decide (issuedAt < expiresAt)) = true
    unfold fitsDate
    rw [fitsAscii_id hid, fitsAscii_id huser, decide_eq_true h0, decide_eq_true hmax,
      decide_eq_true hlt,
      decide_eq_true (show issuedAt ≤ AUTH_TIME_MAX by omega), decide_eq_true
      (show 0 ≤ expiresAt by omega)]
    rfl
  | _ => rfl

/-! ## the database -/

/-- a valid database whose `AUTO_INCREMENT` columns have started -/
structure Sound (db : Db) : Prop extends db.Valid where
  nextChallenge : 1 ≤ db.nextChallenge
  nextAnswer : 1 ≤ db.nextAnswer

theorem Sound.empty : Sound {} :=
  ⟨⟨List.forall_mem_nil _, List.forall_mem_nil _, List.forall_mem_nil _, List.forall_mem_nil _⟩,
    Nat.le_refl _, Nat.le_refl _⟩

/-- a new row -/
theorem forall_mem_snoc {α : Type} {p : α → Prop} {l : List α} {a : α}
    (hl : ∀ b ∈ l, p b) (ha : p a) :
    ∀ b ∈ l ++ [a], p b :=
  List.forall_mem_append.2 ⟨hl, List.forall_mem_singleton.2 ha⟩

/-- the clock is at a date -/
def Dated (now : Int) : Prop := 0 ≤ now ∧ now ≤ AUTH_TIME_MAX

theorem Written.sound {now : Int} {k : Nat} {db db' : Db} {q : Query} {a i : Nat}
    (h : Written now k db q db' a i) (hq : Admitted q) (hnow : Dated now) (hs : Sound db) :
    Sound db' := by
  cases h with
  | insertUser hfree =>
    obtain ⟨hid, hname, hhash⟩ := hq
    exact { hs with users := forall_mem_snoc hs.users ⟨hid, hname, hhash⟩ }
  | insertChallenge hk hmax hu =>
    have hrow := hs.nextChallenge
    exact { hs with
      challenges := forall_mem_snoc hs.challenges
        ⟨⟨Nat.le_trans hrow hk, hmax⟩, hq.1, hq.2.name, hq.2.description, hq.2.flag, hq.2.genre⟩
      nextChallenge := Nat.le_add_left 1 k }
  | @updateChallenge name description flag genre id creatorId =>
    refine { hs with challenges := fun row hrow => ?_ }
    obtain ⟨old, hold, rfl⟩ := List.mem_map.1 hrow
    have hv := hs.challenges old hold
    split
    · exact ⟨hv.id, hv.creatorId, hq.name, hq.description, hq.flag, hq.genre⟩
    · exact hv
  | deleteChallenge =>
    exact { hs with
      challenges := fun row hrow => hs.challenges row (List.mem_filter.1 hrow).1
      answers := fun row hrow => hs.answers row (List.mem_filter.1 hrow).1 }
  | insertAnswer hk hmax hc hu =>
    obtain ⟨hid, huser, hanswer⟩ := hq
    have hrow := hs.nextAnswer
    refine { hs with
      answers := forall_mem_snoc hs.answers ⟨⟨Nat.le_trans hrow hk, hmax⟩, hid, huser, hanswer,
        now.toNat, ?_, ?_⟩
      nextAnswer := Nat.le_add_left 1 k }
    · show some now = some (now.toNat : Int)
      rw [Int.toNat_of_nonneg hnow.1]
    · have := hnow.2
      omega
  | deleteExpiredSessions =>
    exact { hs with sessions := fun row hrow => hs.sessions row (List.mem_filter.1 hrow).1 }
  | @insertSession id userId issuedAt expiresAt hfree hu =>
    obtain ⟨hid, huser, h0, hlt, hmax⟩ := hq
    have h1 : 0 ≤ expiresAt := by omega
    refine { hs with
      sessions := forall_mem_snoc hs.sessions ⟨hid, huser, issuedAt.toNat, expiresAt.toNat, ?_,
        ?_, ?_, ?_⟩ }
    · exact (Int.toNat_of_nonneg h0).symm
    · exact (Int.toNat_of_nonneg h1).symm
    · omega
    · omega
  | deleteSession =>
    exact { hs with sessions := fun row hrow => hs.sessions row (List.mem_filter.1 hrow).1 }

/-- **A statement with such values keeps the database valid.** -/
theorem Exec.sound {dateFormat : Int → Bytes} {now : Int} {q : Query} {db db' : Db} {r : DbResult}
    (h : Exec dateFormat now q db r db') (hq : Admitted q) (hnow : Dated now) (hs : Sound db) :
    Sound db' := by
  rcases h.cases with ⟨rfl, -⟩ | ⟨-, -, k, hw⟩
  · exact hs
  · exact hw.sound hq hnow hs

end Store

import CtfServer.Json.Requests

/-!
# Which flags can be solved

A flag is stored as the literal of the request that created the challenge, and compared decoded
when it is submitted.  The scanner takes surrogate escapes one by one, the decoder only in pairs.

* `answerBody n f`   the submission of the flag `f`;
* `submit_answerBody`  how it is read;
* `solvable_iff`     an accepted flag can be solved exactly when its surrogates come in pairs.
-/

set_option linter.unusedVariables false

namespace Json

/-- the body that submits the literal `f` for the challenge `n` -/
def answerBody (n : Nat) (f : Bytes) : Bytes :=
  ascii "\x7b\"challenge_id\":" ++
    (Decimal.digits n ++ (ascii ",\"answer\":\"" ++ (f ++ ascii "\"\x7d")))

theorem literal_key (w : Bytes) (h : ∀ c ∈ w, ¬ c < 0x20 ∧ ¬ 0x80 ≤ c ∧ c ≠ DQUOTE ∧
    c ≠ BACKSLASH) :
    Literal w := by
  induction w with
  | nil => exact .nil
  | cons c w ih =>
    obtain ⟨⟨h1, h2, h3, h4⟩, hw⟩ := List.forall_mem_cons.mp h
    exact .cons (.plain c h1 h2 h3 h4) (ih hw)

theorem readString_quoted {f : Bytes} (hf : Literal f) (rest : Bytes) :
    readString (DQUOTE :: (f ++ DQUOTE :: rest)) = some (f, rest) :=
  (parseJsonStr_iff _ f rest).mpr ⟨hf, rfl⟩

/-- the fields of a submission -/
theorem readObject_answerBody (n : Nat) (f : Bytes) (h1 : 1 ≤ n) (h2 : n ≤ INT_MAX)
    (hf : Literal f) :
    readObject enoughMemory (readAnswerField enoughMemory) {} (answerBody n f) =
      .ok (⟨n, f⟩, []) := by
  have hid : Literal (ascii "challenge_id") := literal_key _ (by decide +kernel)
  have hans : Literal (ascii "answer") := literal_key _ (by decide +kernel)
  have hb : answerBody n f = OPEN_BRACE :: DQUOTE :: (ascii "challenge_id" ++ DQUOTE :: COLON ::
      (Decimal.digits n ++ COMMA :: DQUOTE :: (ascii "answer" ++ DQUOTE :: COLON ::
        DQUOTE :: (f ++ DQUOTE :: [CLOSE_BRACE])))) := rfl
  have hnum := readPositiveInteger_digits n
    (COMMA :: DQUOTE :: (ascii "answer" ++ DQUOTE :: COLON ::
    DQUOTE :: (f ++ DQUOTE :: [CLOSE_BRACE]))) h1 h2 (by simp; decide)
  rw [hb, readObject, show consume OPEN_BRACE (OPEN_BRACE :: _) = some _ from rfl]
  dsimp only
  rw [show consume CLOSE_BRACE (DQUOTE :: _) = none from rfl]
  dsimp only
  rw [objectLoop, readString_quoted hid]
  simp only [List.not_mem_nil, if_false, enoughMemory, Bool.true_eq_false]
  rw [show consume COLON (COLON :: _) = some _ from rfl]
  dsimp only
  have hfield : readAnswerField enoughMemory (ascii "challenge_id") {}
      (Decimal.digits n ++ COMMA :: DQUOTE :: (ascii "answer" ++ DQUOTE :: COLON ::
        DQUOTE :: (f ++ DQUOTE :: [CLOSE_BRACE]))) = .ok (⟨n, []⟩, COMMA :: DQUOTE ::
          (ascii "answer" ++ DQUOTE :: COLON :: DQUOTE :: (f ++ DQUOTE :: [CLOSE_BRACE]))) := by
    unfold readAnswerField
    rw [if_pos rfl, hnum]
  rw [hfield]
  dsimp only
  rw [show consume CLOSE_BRACE (COMMA :: _) = none from rfl, show consume COMMA (COMMA :: _) =
    some _ from rfl]
  dsimp only
  rw [List.length_cons, objectLoop, readString_quoted hans]
  simp only [show ¬ ascii "answer" ∈ [ascii "challenge_id"] by decide, if_false]
  rw [show consume COLON (COLON :: _) = some _ from rfl]
  dsimp only
  have hfield2 : readAnswerField enoughMemory (ascii "answer") ⟨n, []⟩
      (DQUOTE :: (f ++ DQUOTE :: [CLOSE_BRACE])) = .ok (⟨n, f⟩, [CLOSE_BRACE]) := by
    unfold readAnswerField readStringField
    rw [if_neg (by decide), if_pos rfl, readString_quoted hf]
  rw [hfield2]
  rfl

/-- the submission of an accepted flag is accepted exactly when the flag decodes -/
theorem submit_answerBody {request : CreateChallengeRequest} (hr : request.Accepted)
    (n : Nat) (h1 : 1 ≤ n) (h2 : n ≤ INT_MAX) :
    jsonToSubmitAnswerRequest enoughMemory (answerBody n request.flag) =
      if wellPaired request.flag then .ok ⟨n, request.flag⟩ else .error .invalid := by
  unfold jsonToSubmitAnswerRequest
  rw [if_neg (by exact List.cons_ne_nil _ _), readObject_answerBody n request.flag h1 h2 hr.flag]
  dsimp only
  have hz : ¬ (skipWhitespace [] ≠ [] ∨ n = 0 ∨ request.flag = []) := by
    rintro (h | h | h)
    · exact h rfl
    · omega
    · exact hr.flagSome h
  have hcount := hr.flagCount
  rw [if_neg hz, equalDecoded_self hr.flag]
  cases wellPaired request.flag with
  | true => rw [if_neg (by simp; exact hcount)]; rfl
  | false => rw [if_pos (by simp)]; rfl

/-- **A flag that was accepted can be solved exactly when its surrogate escapes come in pairs.** -/
theorem solvable_iff (mem : Nat → Bool) (json : Bytes) (request : CreateChallengeRequest)
    (h : jsonToCreateChallengeRequest mem json = .ok request) (n : Nat) (h1 : 1 ≤ n)
    (h2 : n ≤ INT_MAX) :
    (jsonToSubmitAnswerRequest enoughMemory (answerBody n request.flag) = .ok ⟨n, request.flag⟩ ∧
      equalDecoded request.flag request.flag = some true) ↔ wellPaired request.flag = true := by
  have hr := jsonToCreateChallengeRequest_ok h
  rw [submit_answerBody hr n h1 h2, equalDecoded_self hr.flag]
  cases wellPaired request.flag with
  | true => simp
  | false => simp

/-- a challenge whose flag is `flag` -/
def challengeBody (flag : String) : Bytes :=
  ascii "\x7b\"name\":\"n\",\"description\":\"\",\"flag\":\"" ++ ascii flag ++
    ascii "\",\"genre\":\"web\"\x7d"

theorem solvable_pair :
    (jsonToSubmitAnswerRequest enoughMemory (answerBody 7 (ascii "\\ud83d\\ude00")) =
        .ok ⟨7, ascii "\\ud83d\\ude00"⟩ ∧
      equalDecoded (ascii "\\ud83d\\ude00") (ascii "\\ud83d\\ude00") = some true) ↔
        wellPaired (ascii "\\ud83d\\ude00") = true :=
  solvable_iff enoughMemory (challengeBody "\\ud83d\\ude00")
    ⟨ascii "n", [], ascii "\\ud83d\\ude00", .web⟩ (by decide +kernel) 7 (by decide) (by decide)

/-- a lone surrogate is stored, and never solved -/
theorem lone_surrogate : ¬ ∀ (mem : Nat → Bool) (json : Bytes) (request : CreateChallengeRequest),
    jsonToCreateChallengeRequest mem json = .ok request → ∀ n, 1 ≤ n → n ≤ INT_MAX →
      jsonToSubmitAnswerRequest enoughMemory (answerBody n request.flag) = .ok ⟨n, request.flag⟩ ∧
        equalDecoded request.flag request.flag = some true := by
  intro h
  have h1 := h enoughMemory (challengeBody "\\ud800") ⟨ascii "n", [], ascii "\\ud800", .web⟩
    (by decide +kernel) 1 (by decide) (by decide)
  exact absurd h1.2 (by decide +kernel)

end Json

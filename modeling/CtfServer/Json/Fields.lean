import CtfServer.Json.Requests
import CtfServer.Json.Unambiguous

/-!
# The fields of a body

What the readers of fields do with the members of a body, against the grammar: a body that is
accepted is an object with distinct keys, and each of its members did to the request what the
reader of its field does.

* `TopMembers`                     the members of the outermost object;
* `ChallengeField`, `AnswerField`  what one member does;
* `jsonToCreateChallengeRequest_iff`, `jsonToSubmitAnswerRequest_iff`   acceptance, against the
                                                                        members;
* `Steps.put`                      what stands in a field at the end.
-/

set_option linter.unusedVariables false
set_option linter.unusedSimpArgs false

namespace Json

/-- a string between its quotes -/
def quote (f : Bytes) : Bytes := 0x22 :: (f ++ [0x22])

theorem quote_append (f r : Bytes) : quote f ++ r = 0x22 :: (f ++ 0x22 :: r) := by
  simp [quote]

theorem quote_inj {f g : Bytes} (h : quote f = quote g) : f = g :=
  List.append_cancel_right (List.cons.inj h).2

theorem valueAt_quote {distinct : List Bytes → Prop} {levels : Nat} {f : Bytes} (hf : Chars f) :
    ValueAt distinct (levels + 1) (quote f) :=
  (value_iff _ _ _).mpr (Or.inl (.string hf))

/-- the text is an object with these members, between whitespace -/
def TopMembers (distinct : List Bytes → Prop) (text : Bytes) (ps : List (Bytes × Bytes)) : Prop :=
  ∃ w ms w', Ws w ∧ Ws w' ∧ ObjectBody (ValueAt distinct FIELD_LEVELS) ps ms ∧
    text = w ++ (0x7b :: (ms ++ 0x7d :: w'))

/-! ## one string field -/

theorem readStringField_sound {σ : Type} {put : Bytes → σ} {cur rest : Bytes} {s : σ}
    (h : readStringField put cur = .ok (s, rest)) :
    ∃ w f, Ws w ∧ Chars f ∧ s = put f ∧ cur = w ++ (quote f ++ rest) := by
  unfold readStringField at h
  split at h
  · cases h
  · next f r hr =>
    cases h
    obtain ⟨w, hw, hf, hcur⟩ := readString_split hr
    exact ⟨w, f, hw, hf, rfl, by rw [quote_append]; exact hcur⟩

theorem readStringField_complete {σ : Type} {put : Bytes → σ} {w f : Bytes} (hw : Ws w)
    (hf : Chars f) (r : Bytes) :
    readStringField put (w ++ (quote f ++ r)) = .ok (put f, r) := by
  unfold readStringField
  rw [quote_append, readString_chars hw hf]

/-! ## counted characters -/

theorem storedCharacterCount_append (f g : Bytes) :
    storedCharacterCount (f ++ g) = storedCharacterCount f + storedCharacterCount g := by
  unfold storedCharacterCount
  rw [List.filter_append, List.length_append]

theorem starts_iff (c : UInt8) :
    (c &&& 0xc0 != 0x80) = true ↔ ¬ (128 ≤ c.toNat ∧ c.toNat < 192) := by
  rw [bne_iff_ne, ne_eq, isContinuation_iff]

theorem storedCharacterCount_ascii {f : Bytes} (h : ∀ c ∈ f, c.toNat < 0x80) :
    storedCharacterCount f = f.length := by
  unfold storedCharacterCount
  rw [List.filter_eq_self.mpr]
  intro c hc
  rw [starts_iff]
  have hlow := h c hc
  omega

/-- a first byte, and the bytes of its continuation -/
theorem storedCharacterCount_lead {c : UInt8} {cs : Bytes} (hc : ¬ (128 ≤ c.toNat ∧ c.toNat < 192))
    (hcs : ∀ x ∈ cs, 128 ≤ x.toNat ∧ x.toNat < 192) : storedCharacterCount (c :: cs) = 1 := by
  unfold storedCharacterCount
  rw [List.filter_cons_of_pos (by exact (starts_iff c).mpr hc), List.filter_eq_nil_iff.mpr]
  · rfl
  · intro x hx
    rw [starts_iff, not_not]
    exact hcs x hx

theorem storedCharacterCount_char (ch : Char) :
    storedCharacterCount (String.utf8EncodeChar ch) = 1 := by
  have hr := char_range ch
  have htail : ∀ v : Nat, 128 ≤ (UInt8.ofNat (v % 64 + 128)).toNat ∧
    (UInt8.ofNat (v % 64 + 128)).toNat < 192 := by
    intro v
    rw [UInt8.toNat_ofNat']
    omega
  unfold String.utf8EncodeChar
  dsimp only
  generalize ch.val.toNat = v at hr
  repeat' split
  all_goals
    refine storedCharacterCount_lead ?_ ?_
    · rw [UInt8.toNat_ofNat']
      omega
    · simp only [List.forall_mem_cons, htail, true_and, List.not_mem_nil, false_implies,
        implies_true, and_self]

theorem ascii_text {f : Bytes} (h : ∀ c ∈ f, c.toNat < 0x80) : ∃ chs :
    List Char, f = chs.flatMap String.utf8EncodeChar := by
  induction f with
  | nil => exact ⟨[], rfl⟩
  | cons c f ih =>
    obtain ⟨hc, hf⟩ := List.forall_mem_cons.mp h
    obtain ⟨chs, rfl⟩ := ih hf
    obtain ⟨ch, hch⟩ := exists_char (show c.toNat ≤ 0x10ffff by omega) (by omega)
    refine ⟨ch :: chs, ?_⟩
    rw [List.flatMap_cons, String.utf8EncodeChar]
    rw [hch, if_pos (by omega), UInt8.ofNat_toNat]
    rfl

/-- **a literal is UTF-8 text, and its characters are those that are counted** -/
theorem Chars.text {f : Bytes} (h : Chars f) :
    ∃ chs : List Char, f = chs.flatMap String.utf8EncodeChar ∧ storedCharacterCount f =
    chs.length := by
  have hencode : ∀ chs : List Char, storedCharacterCount (chs.flatMap String.utf8EncodeChar) =
    chs.length := by
    intro chs
    induction chs with
    | nil => rfl
    | cons ch chs ih =>
      rw [List.flatMap_cons, storedCharacterCount_append, storedCharacterCount_char, ih,
        List.length_cons, Nat.add_comm]
  suffices htext : ∃ chs : List Char, f = chs.flatMap String.utf8EncodeChar by
    obtain ⟨chs, rfl⟩ := htext
    exact ⟨chs, rfl, hencode chs⟩
  induction h with
  | nil => exact ⟨[], rfl⟩
  | cons hu _ ih =>
    obtain ⟨chs, rfl⟩ := ih
    suffices hpiece : ∃ piece : List Char, _ = piece.flatMap String.utf8EncodeChar by
      obtain ⟨piece, hpiece⟩ := hpiece
      exact ⟨piece ++ chs, by rw [List.flatMap_append, ← hpiece]⟩
    cases hu with
    | unescaped ch => exact ⟨[ch], (List.append_nil _).symm⟩
    | escape e he =>
      refine ascii_text (List.forall_mem_cons.mpr ⟨by decide, List.forall_mem_singleton.mpr ?_⟩)
      exact of_decide_eq_true (List.all_eq_true.mp
        (by decide : (ascii "\"\\/bfnrt").all (·.toNat < 0x80) = true) e he)
    | unicode a b c d ha hb hc hd =>
      have hlow : ∀ {x : UInt8}, HexDigit x → x.toNat < 0x80 := by
        intro x hx
        simp only [HexDigit, UInt8.le_iff_toNat_le] at hx
        rcases hx with hx | hx | hx <;> exact Nat.lt_of_le_of_lt hx.2 (by decide)
      refine ascii_text ?_
      simp only [List.forall_mem_cons, hlow ha, hlow hb, hlow hc, hlow hd, true_and,
        List.not_mem_nil, false_implies,
        implies_true, and_true]
      decide

/-! ## challenges -/

inductive ChallengeField : Bytes → Bytes → CreateChallengeParser →
    CreateChallengeParser → Prop where
  | name {f : Bytes} {p : CreateChallengeParser} : Chars f →
      ChallengeField (ascii "name") (quote f) p ⟨{ p.request with name := f }, p.fields ||| 1⟩
  | description {f : Bytes} {p : CreateChallengeParser} : Chars f →
      ChallengeField (ascii "description") (quote f) p ⟨{ p.request with description := f },
        p.fields ||| 2⟩
  | flag {f : Bytes} {p : CreateChallengeParser} : Chars f →
      ChallengeField (ascii "flag") (quote f) p ⟨{ p.request with flag := f }, p.fields ||| 4⟩
  | genre {g : CtfGenre} {p : CreateChallengeParser} :
      ChallengeField (ascii "genre") (quote (ctfGenreToString g)) p
      ⟨{ p.request with genre := g }, p.fields ||| 8⟩
  | other {key v : Bytes} {p : CreateChallengeParser} : key ≠ ascii "name" →
      key ≠ ascii "description" →
      key ≠ ascii "flag" → key ≠ ascii "genre" → ChallengeField key v p p

theorem genre_round (g : CtfGenre) : ctfGenreFromString (ctfGenreToString g) = g := by
  cases g <;> decide +kernel

theorem chars_plain {f : Bytes} (h : ∀ c ∈ f, ¬ c < 0x20 ∧ ¬ 0x80 ≤ c ∧ c ≠ DQUOTE ∧ c ≠ BACKSLASH)
    : Chars f := by
  induction f with
  | nil => exact .nil
  | cons c f ih =>
    obtain ⟨⟨h1, h2, h3, h4⟩, hf⟩ := List.forall_mem_cons.mp h
    exact .cons (Piece.plain c h1 h2 h3 h4).charBytes (ih hf)

theorem chars_genre (g : CtfGenre) : Chars (ctfGenreToString g) := by
  apply chars_plain
  cases g <;> decide +kernel

theorem readChallengeField_sound (mem : Nat → Bool) :
    FieldSound (ValueAt List.Nodup FIELD_LEVELS) ChallengeField (readChallengeField mem) := by
  intro key p cur p' rest h
  unfold readChallengeField at h
  dsimp only at h
  split at h
  · next hk =>
    obtain ⟨w, f, hw, hf, rfl, hcur⟩ := readStringField_sound h
    exact ⟨w, quote f, hw, valueAt_quote hf, by rw [hk]; exact .name hf, hcur⟩
  next hk1 =>
  split at h
  · next hk =>
    obtain ⟨w, f, hw, hf, rfl, hcur⟩ := readStringField_sound h
    exact ⟨w, quote f, hw, valueAt_quote hf, by rw [hk]; exact .description hf, hcur⟩
  next hk2 =>
  split at h
  · next hk =>
    obtain ⟨w, f, hw, hf, rfl, hcur⟩ := readStringField_sound h
    exact ⟨w, quote f, hw, valueAt_quote hf, by rw [hk]; exact .flag hf, hcur⟩
  next hk3 =>
  split at h
  · next hk =>
    split at h
    · cases h
    · next g r hr =>
      split at h <;> cases h
      next hg =>
      obtain ⟨w, hw, hf, hcur⟩ := readString_split hr
      refine ⟨w, quote g, hw, valueAt_quote hf, ?_, by rw [quote_append]; exact hcur⟩
      have hfield := ChallengeField.genre (g := ctfGenreFromString g) (p := p)
      rwa [← hg, ← hk] at hfield
  · next hk4 =>
    obtain ⟨l, h1, h2⟩ := map_ok h
    cases h2
    obtain ⟨w, v, hw, hv, hcur⟩ := readValue_sound h1
    exact ⟨w, v, hw, hv, .other hk1 hk2 hk3 hk4, hcur⟩

theorem readChallengeField_complete :
    FieldComplete (ValueAt List.Nodup FIELD_LEVELS) ChallengeField
    (readChallengeField enoughMemory) := by
  have h21 : ascii "description" ≠ ascii "name" := by decide +kernel
  have h31 : ascii "flag" ≠ ascii "name" := by decide +kernel
  have h32 : ascii "flag" ≠ ascii "description" := by decide +kernel
  have h41 : ascii "genre" ≠ ascii "name" := by decide +kernel
  have h42 : ascii "genre" ≠ ascii "description" := by decide +kernel
  have h43 : ascii "genre" ≠ ascii "flag" := by decide +kernel
  intro key p p' w v r hw hv hR he
  unfold readChallengeField
  dsimp only
  cases hR with
  | name hf =>
    rw [if_pos rfl]
    exact readStringField_complete hw hf r
  | description hf =>
    rw [if_neg h21, if_pos rfl]
    exact readStringField_complete hw hf r
  | flag hf =>
    rw [if_neg h31, if_neg h32, if_pos rfl]
    exact readStringField_complete hw hf r
  | @genre g =>
    rw [if_neg h41, if_neg h42, if_neg h43, if_pos rfl, quote_append, readString_chars hw
      (chars_genre g)]
    simp only [genre_round, if_true]
  | other h1 h2 h3 h4 =>
    rw [if_neg h1, if_neg h2, if_neg h3, if_neg h4, readValue_complete hw hv he]
    rfl

/-- the checks on the fields of a challenge -/
structure CreateChallengeRequest.Fits (request : CreateChallengeRequest) : Prop where
  nameSome : request.name ≠ []
  flagSome : request.flag ≠ []
  nameCount : storedCharacterCount request.name ≤ 255
  flagCount : storedCharacterCount request.flag ≤ 255
  descriptionLength : request.description.length ≤ 65535

/-- **acceptance, against the members of the body** -/
theorem jsonToCreateChallengeRequest_iff (json : Bytes) (request : CreateChallengeRequest) :
    jsonToCreateChallengeRequest enoughMemory json = .ok request ↔
      ∃ ps, TopMembers List.Nodup json ps ∧ (ps.map Prod.fst).Nodup ∧ Steps ChallengeField ps {}
      ⟨request, 15⟩ ∧
        request.Fits := by
  constructor
  · intro h
    have hacc := jsonToCreateChallengeRequest_ok h
    unfold jsonToCreateChallengeRequest at h
    split at h
    · cases h
    split at h
    · cases h
    next parsed cur hr =>
    dsimp only at h
    split at h
    · cases h
    next hc =>
    cases h
    simp only [not_or, not_not, Nat.not_lt] at hc
    obtain ⟨w, ps, ms, hw, hb, hnd, hst, hcur⟩ :=
      readObject_sound (readChallengeField_sound enoughMemory) hr
    refine ⟨ps, ⟨w, ms, cur, hw, (skipWhitespace_nil_iff cur).mp hc.1, hb, hcur⟩, hnd, ?_,
      ⟨hacc.nameSome, hacc.flagSome, hacc.nameCount, hacc.flagCount, hacc.descriptionLength⟩⟩
    rw [← hc.2.1]
    exact hst
  · rintro ⟨ps, ⟨w, ms, w', hw, hw', hb, rfl⟩, hnd, hst, hfit⟩
    have hread := readObject_complete readChallengeField_complete hw hb hnd hst w'
    unfold jsonToCreateChallengeRequest
    rw [if_neg (by simp), hread]
    dsimp only
    refine if_neg ?_
    simp only [not_or, not_not, Nat.not_lt]
    exact ⟨(skipWhitespace_nil_iff w').mpr hw', trivial, hfit.nameSome, hfit.flagSome,
      hfit.nameCount, hfit.flagCount,
      hfit.descriptionLength⟩

/-! ## answers -/

/-- a numeral without a sign or a leading zero -/
structure Numeral (v : Bytes) (n : Nat) : Prop where
  head : ∃ c t, v = c :: t ∧ 0x31 ≤ c ∧ c ≤ 0x39
  digits : ∀ c ∈ v, Digit c
  value : Decimal.value v = n

inductive AnswerField : Bytes → Bytes → SubmitAnswerRequest → SubmitAnswerRequest → Prop where
  | challengeId {v : Bytes} {n : Nat} {q : SubmitAnswerRequest} : Numeral v n → n ≤ INT_MAX →
      AnswerField (ascii "challenge_id") v q { q with challengeId := n }
  | answer {f : Bytes} {q : SubmitAnswerRequest} : Chars f → AnswerField (ascii "answer")
      (quote f) q { q with answer := f }
  | other {key v : Bytes} {q : SubmitAnswerRequest} : key ≠ ascii "challenge_id" →
      key ≠ ascii "answer" →
      AnswerField key v q q

theorem Numeral.number {v : Bytes} {n : Nat} (h : Numeral v n) : Number v := by
  obtain ⟨c, t, rfl, h1, h2⟩ := h.head
  have hu : Unsigned (c :: t ++ ([] ++ [])) :=
    .mk (.nonzero c t h1 h2 (List.forall_mem_cons.mp h.digits).2) .absent .absent
  exact .plus (by simpa using hu)

theorem positiveLoop_split {number n : Nat} {cur rest : Bytes}
    (h : positiveLoop number cur = some (n, rest)) :
    ∃ ds, (∀ c ∈ ds, Digit c) ∧ cur = ds ++ rest ∧ Decimal.valueFrom number ds = n ∧
      ∀ c ∈ rest.head?, ¬ Digit c := by
  induction cur generalizing number with
  | nil => cases h; exact ⟨[], nofun, rfl, rfl, nofun⟩
  | cons c cur ih =>
    rw [positiveLoop] at h
    split at h
    · next hd =>
      dsimp only at h
      split at h
      · cases h
      · obtain ⟨ds, h1, rfl, h3, h4⟩ := ih h
        refine ⟨c :: ds, ?_, rfl, h3, h4⟩
        exact List.forall_mem_cons.mpr ⟨(digit_iff c).mpr hd, h1⟩
    · next hd =>
      cases h
      refine ⟨[], nofun, rfl, rfl, ?_⟩
      intro x hx
      cases hx
      exact fun hc => hd ((digit_iff c).mp hc)

theorem readPositiveInteger_sound {cur rest : Bytes} {n : Nat}
    (h : readPositiveInteger cur = some (n, rest)) :
    ∃ w v, Ws w ∧ Numeral v n ∧ cur = w ++ (v ++ rest) := by
  obtain ⟨w, hw, hcur, -⟩ := skipWhitespace_split cur
  unfold readPositiveInteger at h
  split at h
  · cases h
  · next c r hr =>
    rw [hr] at hcur
    split at h
    · cases h
    next hc =>
    rw [not_or, UInt8.not_lt, UInt8.not_lt] at hc
    obtain ⟨ds, h1, h2, h3, h4⟩ := positiveLoop_split h
    cases ds with
    | nil =>
      refine absurd ?_ (h4 c (by rw [← show c :: r = rest from h2]; rfl))
      exact ⟨UInt8.le_trans (by decide) hc.1, hc.2⟩
    | cons d ds =>
      obtain ⟨rfl, rfl⟩ := List.cons.inj h2
      exact ⟨w, c :: ds, hw, ⟨⟨c, ds, rfl, hc⟩, h1, h3⟩, hcur⟩

theorem readPositiveInteger_complete {w v r : Bytes} {n : Nat} (hw : Ws w) (hv : Numeral v n)
    (hn : n ≤ INT_MAX) (hr : Stops r) : readPositiveInteger (w ++ (v ++ r)) = some (n, r) := by
  obtain ⟨c, t, rfl, h1, h2⟩ := hv.head
  have hdigits : ∀ x ∈ c :: t, Decimal.isDigit x = true := fun x hx => (digit_iff x).mp
    (hv.digits x hx)
  have hc : isSpace c = false := (digit_head ⟨UInt8.le_trans (by decide) h1, h2⟩).1
  unfold readPositiveInteger
  rw [skipWhitespace_ws hw, List.cons_append, skipWhitespace_head hc]
  dsimp only
  rw [if_neg (not_or.mpr ⟨UInt8.not_lt.mpr h1, UInt8.not_lt.mpr h2⟩), ← List.cons_append,
    positiveLoop_digits 0 (c :: t) r hdigits ?_,
    (Decimal.readGuarded_iff INT_MAX 0 n _ (by decide) (Nat.zero_le _)).mpr
      ⟨hdigits, hv.value, hn⟩]
  · rfl
  · intro x hx
    rw [Bool.eq_false_iff]
    exact fun h => (hr x hx).1 ((digit_iff x).mpr h)

theorem readAnswerField_sound (mem : Nat → Bool) :
    FieldSound (ValueAt List.Nodup FIELD_LEVELS) AnswerField (readAnswerField mem) := by
  intro key q cur q' rest h
  unfold readAnswerField at h
  split at h
  · next hk =>
    split at h
    · cases h
    · next n r hr =>
      cases h
      obtain ⟨w, v, hw, hv, hcur⟩ := readPositiveInteger_sound hr
      refine ⟨w, v, hw, (value_iff _ _ _).mpr (Or.inl (.number hv.number)), ?_, hcur⟩
      rw [hk]
      exact .challengeId hv (readPositiveInteger_le hr)
  next hk1 =>
  split at h
  · next hk =>
    obtain ⟨w, f, hw, hf, rfl, hcur⟩ := readStringField_sound h
    exact ⟨w, quote f, hw, valueAt_quote hf, by rw [hk]; exact .answer hf, hcur⟩
  · next hk2 =>
    obtain ⟨l, h1, h2⟩ := map_ok h
    cases h2
    obtain ⟨w, v, hw, hv, hcur⟩ := readValue_sound h1
    exact ⟨w, v, hw, hv, .other hk1 hk2, hcur⟩

theorem readAnswerField_complete :
    FieldComplete (ValueAt List.Nodup FIELD_LEVELS) AnswerField (readAnswerField enoughMemory) := by
  have h21 : ascii "answer" ≠ ascii "challenge_id" := by decide +kernel
  intro key q q' w v r hw hv hR he
  unfold readAnswerField
  cases hR with
  | challengeId hn hmax =>
    rw [if_pos rfl, readPositiveInteger_complete hw hn hmax (he hn.number)]
  | answer hf =>
    rw [if_neg h21, if_pos rfl]
    exact readStringField_complete hw hf r
  | other h1 h2 =>
    rw [if_neg h1, if_neg h2, readValue_complete hw hv he]
    rfl

/-- the checks on the fields of an answer -/
structure SubmitAnswerRequest.Fits (request : SubmitAnswerRequest) : Prop where
  positive : request.challengeId ≠ 0
  answerSome : request.answer ≠ []
  count : storedCharacterCount request.answer ≤ 255
  decodes : equalDecoded request.answer request.answer ≠ none

theorem jsonToSubmitAnswerRequest_iff (json : Bytes) (request : SubmitAnswerRequest) :
    jsonToSubmitAnswerRequest enoughMemory json = .ok request ↔
      ∃ ps, TopMembers List.Nodup json ps ∧ (ps.map Prod.fst).Nodup ∧ Steps AnswerField ps
      {} request ∧ request.Fits := by
  constructor
  · intro h
    unfold jsonToSubmitAnswerRequest at h
    split at h
    · cases h
    split at h
    · cases h
    next parsed cur hr =>
    split at h
    · cases h
    next hc =>
    split at h
    · cases h
    next hd =>
    cases h
    simp only [not_or, not_not, Nat.not_lt] at hc hd
    obtain ⟨w, ps, ms, hw, hb, hnd, hst, hcur⟩ :=
      readObject_sound (readAnswerField_sound enoughMemory) hr
    exact ⟨ps, ⟨w, ms, cur, hw, (skipWhitespace_nil_iff cur).mp hc.1, hb, hcur⟩, hnd, hst,
      ⟨hc.2.1, hc.2.2, hd.1, hd.2⟩⟩
  · rintro ⟨ps, ⟨w, ms, w', hw, hw', hb, rfl⟩, hnd, hst, hfit⟩
    have hread := readObject_complete readAnswerField_complete hw hb hnd hst w'
    unfold jsonToSubmitAnswerRequest
    rw [if_neg (by simp), hread]
    dsimp only
    rw [if_neg, if_neg]
    · simp only [not_or, Nat.not_lt]
      exact ⟨hfit.count, hfit.decodes⟩
    · simp only [not_or, not_not]
      exact ⟨(skipWhitespace_nil_iff w').mpr hw', hfit.positive, hfit.answerSome⟩

/-! ## what stands in a field -/

/-- a field that only the member `name` writes holds in the end what it held at the start, or the
value of that member -/
theorem Steps.put {σ τ : Type} {R : Bytes → Bytes → σ → σ → Prop} (name : Bytes)
    (holds : Bytes → σ → Prop) (get : σ → τ)
    (hR : ∀ key v s s', R key v s s' → (key = name ∧ holds v s') ∨ get s' = get s)
    (hget : ∀ v s s', get s' = get s → holds v s → holds v s')
    {ps : List (Bytes × Bytes)} {s s' : σ}
    (h : Steps R ps s s') : (∃ v, (name, v) ∈ ps ∧ holds v s') ∨ get s' = get s := by
  induction h with
  | nil => exact Or.inr rfl
  | @cons key v ps s s1 s' hs _ ih =>
    rcases ih with ⟨u, hu, hh⟩ | hsame
    · exact Or.inl ⟨u, List.mem_cons_of_mem _ hu, hh⟩
    · rcases hR _ _ _ _ hs with ⟨rfl, hh⟩ | hkeep
      · exact Or.inl ⟨v, List.mem_cons_self .., hget v s1 s' hsame hh⟩
      · exact Or.inr (hsame.trans hkeep)

end Json

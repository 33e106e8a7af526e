import CtfServer.App.Writers

/-!
# The text of a challenge, fed back

`challenge_to_json` prints stored slices between quotes.  What it prints is an object with distinct
keys, and `json_to_create_challenge_request` takes it for the request it came from.

* `memberText`, `membersText`     members without whitespace;
* `challengeToJson_members`       the members of the text of a challenge;
* `challengeToJson_fed_back`      the text is accepted, as the same request.
-/

set_option linter.unusedVariables false
set_option linter.unusedSimpArgs false

namespace App

open Json
open Buffer (Malloc)

/-- `"key":value` -/
def memberText (p : Bytes × Bytes) : Bytes := quote p.1 ++ 0x3a :: p.2

def membersText (ps : List (Bytes × Bytes)) : Bytes := (ascii ",").intercalate (ps.map memberText)

theorem memberText_member {V : Bytes → Prop} {p : Bytes × Bytes} (hkey : Chars p.1) (hv : V p.2) :
    Member V p (memberText p) := by
  have hempty : Ws [] := nofun
  have h : Member V (p.1, p.2)
    ([] ++ 0x22 :: (p.1 ++ 0x22 :: ([] ++ 0x3a :: ([] ++ (p.2 ++ []))))) :=
    .mk hempty hkey hempty hempty hv hempty
  simpa [memberText, quote] using h

theorem membersText_members {V : Bytes → Prop} {ps : List (Bytes × Bytes)} (hne : ps ≠ [])
    (h : ∀ p ∈ ps, Chars p.1 ∧ V p.2) : Members V ps (membersText ps) := by
  have hcomma : ascii "," = [0x2c] := rfl
  induction ps with
  | nil => exact absurd rfl hne
  | cons p ps ih =>
    obtain ⟨⟨hkey, hv⟩, hps⟩ := List.forall_mem_cons.mp h
    unfold membersText at ih ⊢
    rw [List.map_cons]
    by_cases hlast : ps = []
    · rw [hlast, List.map_nil, List.intercalate_singleton]
      exact .one (memberText_member hkey hv)
    · rw [List.intercalate_cons_of_ne_nil (by simpa using hlast), hcomma, List.append_assoc]
      rw [hcomma] at ih
      exact .more (memberText_member hkey hv) (ih hlast hps)

/-- the members that the writer prints -/
def challengeMembers (challenge : Challenge) : List (Bytes × Bytes) :=
  [(ascii "id", intText challenge.id), (ascii "creator_id", quote challenge.creatorId),
    (ascii "name", quote challenge.name), (ascii "description", quote challenge.description),
    (ascii "flag", quote challenge.flag), (ascii "genre", quote (ctfGenreToString challenge.genre))]

theorem challengeToJson_text (challenge : Challenge) :
    challengeToJson challenge = 0x7b :: (membersText (challengeMembers challenge) ++ [0x7d]) := by
  have h0 : ascii "," = [0x2c] := rfl
  have h1 : ascii "\x7b\"id\":" = 0x7b :: (quote (ascii "id") ++ [0x3a]) := rfl
  have h2 : ascii ",\"creator_id\":\"" = 0x2c :: (quote (ascii "creator_id") ++ [0x3a, 0x22]) := rfl
  have h3 : ascii "\",\"name\":\"" = 0x22 :: 0x2c :: (quote (ascii "name") ++ [0x3a, 0x22]) := rfl
  have h4 : ascii "\",\"description\":\"" = 0x22 :: 0x2c ::
    (quote (ascii "description") ++ [0x3a, 0x22]) := by
    decide +kernel
  have h5 : ascii "\",\"flag\":\"" = 0x22 :: 0x2c :: (quote (ascii "flag") ++ [0x3a, 0x22]) := rfl
  have h6 : ascii "\",\"genre\":\"" = 0x22 :: 0x2c :: (quote (ascii "genre") ++ [0x3a, 0x22]) := rfl
  have h7 : ascii "\"\x7d" = [0x22, 0x7d] := rfl
  unfold challengeToJson challengeToJsonImpl challengeMembers membersText
  rw [h0, h1, h2, h3, h4, h5, h6, h7]
  generalize ascii "id" = k1
  generalize ascii "creator_id" = k2
  generalize ascii "name" = k3
  generalize ascii "description" = k4
  generalize ascii "flag" = k5
  generalize ascii "genre" = k6
  simp [List.intercalate, memberText, quote]

/-- the strings of a challenge are literals, its id is a numeral -/
structure Challenge.Literals (challenge : Challenge) : Prop where
  id : 0 ≤ challenge.id
  creatorId : Chars challenge.creatorId
  name : Chars challenge.name
  description : Chars challenge.description
  flag : Chars challenge.flag

theorem digits_number (n : Nat) : Number (Decimal.digits n) := by
  have hd : ∀ m, ∀ c ∈ Decimal.digits m, Digit c := fun m c hc => (digit_iff c).mpr
    (Decimal.digits_isDigit m c hc)
  have hu : Unsigned (Decimal.digits n ++ ([] ++ [])) := by
    refine .mk ?_ .absent .absent
    by_cases hn : n = 0
    · rw [hn, show Decimal.digits 0 = [0x30] by decide +kernel]
      exact .zero
    · obtain ⟨c, cs, hcs, h1, h2⟩ := Decimal.digits_head n (Nat.pos_of_ne_zero hn)
      have hall := hd n
      rw [hcs] at hall ⊢
      exact .nonzero c cs (UInt8.le_iff_toNat_le.mpr h1) (UInt8.le_iff_toNat_le.mpr h2)
        (List.forall_mem_cons.mp hall).2
  exact .plus (by simpa using hu)

theorem intText_number {value : Int} (h : 0 ≤ value) : Number (intText value) := by
  unfold intText
  rw [if_neg (by omega)]
  exact digits_number _

theorem challengeMembers_values {distinct : List Bytes → Prop} {levels : Nat}
    {challenge : Challenge}
    (h : challenge.Literals) : ∀ p ∈ challengeMembers challenge, Chars p.1 ∧ ValueAt distinct
    (levels + 1) p.2 := by
  have hkeys : ∀ k ∈ [ascii "id", ascii "creator_id", ascii "name", ascii "description",
    ascii "flag", ascii "genre"],
      Chars k := by
    intro k hk
    apply chars_plain
    revert k
    decide +kernel
  simp only [List.forall_mem_cons] at hkeys
  obtain ⟨k1, k2, k3, k4, k5, k6, -⟩ := hkeys
  simp only [challengeMembers, List.forall_mem_cons]
  exact ⟨⟨k1, (value_iff _ _ _).mpr (Or.inl (.number (intText_number h.id)))⟩,
    ⟨k2, valueAt_quote h.creatorId⟩,
    ⟨k3, valueAt_quote h.name⟩, ⟨k4, valueAt_quote h.description⟩, ⟨k5, valueAt_quote h.flag⟩,
    ⟨k6, valueAt_quote (chars_genre _)⟩, nofun⟩

/-- the text of a challenge is an object with these members -/
theorem challengeToJson_members {distinct : List Bytes → Prop} {challenge : Challenge}
    (h : challenge.Literals) :
    TopMembers distinct (challengeToJson challenge) (challengeMembers challenge) := by
  refine ⟨[], membersText (challengeMembers challenge), [], nofun, nofun, Or.inr ?_, ?_⟩
  · exact membersText_members (by simp [challengeMembers]) (challengeMembers_values h)
  · rw [challengeToJson_text]
    rfl

theorem challengeMembers_nodup (challenge : Challenge) :
    ((challengeMembers challenge).map Prod.fst).Nodup := by
  show [ascii "id", ascii "creator_id", ascii "name", ascii "description", ascii "flag",
    ascii "genre"].Nodup
  decide +kernel

/-- what the readers of fields make of these members -/
theorem challengeMembers_steps {challenge : Challenge} (h : challenge.Literals) :
    Steps ChallengeField (challengeMembers challenge) {}
      ⟨⟨challenge.name, challenge.description, challenge.flag, challenge.genre⟩, 15⟩ := by
  rw [show 15 = (((0 ||| 1) ||| 2) ||| 4) ||| 8 by decide]
  exact .cons (.other (by decide) (by decide) (by decide) (by decide))
    (.cons (.other (by decide) (by decide) (by decide) (by decide))
      (.cons (.name h.name) (.cons (.description h.description)
        (.cons (.flag h.flag) (.cons .genre .nil)))))

/-! ## the challenge of an accepted request -/

theorem chars_noNul {f : Bytes} (h : Chars f) : (0 : UInt8) ∉ f := by
  intro h0
  exact absurd (((chars_iff f).mp h).low 0 h0) (by decide)

/-- a character is at most four bytes long, an escape is counted by its letters -/
theorem piece_length {u : Bytes} (h : Piece u) : u.length ≤ 4 * storedCharacterCount u := by
  have hx : ∀ {c : UInt8}, isXDigit c = true → c.toNat < 128 := by
    intro c hc
    simp only [isXDigit, Bool.or_eq_true, Bool.and_eq_true, decide_eq_true_eq,
      UInt8.le_iff_toNat_le] at hc
    rcases hc with (hc | hc) | hc <;> exact Nat.lt_of_le_of_lt hc.2 (by decide)
  have hascii : ∀ l : Bytes, (∀ c ∈ l, c.toNat < 128) → l.length ≤ 4 * storedCharacterCount l := by
    intro l hl
    have hall : storedCharacterCount l = l.length := by
      unfold storedCharacterCount
      rw [List.filter_eq_self.mpr]
      intro c hc
      rw [starts_iff]
      have := hl c hc
      omega
    omega
  cases h with
  | plain c _ h2 _ _ =>
    rw [UInt8.le_iff_toNat_le] at h2
    exact hascii _ (List.forall_mem_singleton.mpr (Nat.not_le.mp h2))
  | escape e he =>
    refine hascii _ (List.forall_mem_cons.mpr ⟨by decide, List.forall_mem_singleton.mpr ?_⟩)
    simp only [isEscape, Bool.or_eq_true, beq_iff_eq] at he
    rcases he with ((((((he | he) | he) | he) | he) | he) | he) | he <;> (subst he; decide)
  | unicode a b c d ha hb hc hd =>
    apply hascii
    simp only [List.forall_mem_cons]
    exact ⟨by decide, by decide, hx ha, hx hb, hx hc, hx hd, List.forall_mem_nil _⟩
  | utf8 c cs hc hs =>
    obtain ⟨count, bits, minimum, v, h1, h2, -⟩ := strUtf8_some hs
    have hlen := continuation_length _ _ _ _ _ h2
    rw [strLead_toNat] at h1
    have hlead : count ≤ 3 ∧ 192 ≤ c.toNat := by
      split at h1
      · cases h1; omega
      split at h1
      · cases h1; omega
      split at h1
      · cases h1; omega
      · cases h1
    have hone : 1 ≤ storedCharacterCount (c :: cs) := by
      unfold storedCharacterCount
      rw [List.filter_cons_of_pos (by exact (starts_iff c).mpr (by omega)), List.length_cons]
      omega
    rw [List.length_cons, hlen, List.length_nil]
    omega

theorem chars_length {f : Bytes} (h : Chars f) : f.length ≤ 4 * storedCharacterCount f := by
  have hl := (chars_iff f).mp h
  clear h
  induction hl with
  | nil => exact Nat.le_refl _
  | cons hu _ ih =>
    have h1 := piece_length hu
    rw [List.length_append, storedCharacterCount_append]
    omega

/-- the challenge that an accepted request makes, as POST and PUT answer it -/
def challengeOf (id : Int) (creatorId : Bytes) (request : CreateChallengeRequest) : Challenge :=
  ⟨id, creatorId, request.name, request.description, request.flag, request.genre⟩

theorem chars_id {id : Bytes} (h : validId id = true) : Chars id := by
  unfold validId at h
  rw [Bool.and_eq_true, List.all_eq_true] at h
  apply chars_plain
  intro c hc
  have h1 := h.2 c hc
  have hall : ∀ n : Fin 256, isIdByte (UInt8.ofNat n.val) = true → ¬ UInt8.ofNat n.val < 0x20 ∧
    ¬ 0x80 ≤ UInt8.ofNat n.val ∧
      UInt8.ofNat n.val ≠ DQUOTE ∧ UInt8.ofNat n.val ≠ BACKSLASH := by decide +kernel
  have h2 := hall ⟨c.toNat, c.toNat_lt⟩
  rw [UInt8.ofNat_toNat] at h2
  exact h2 h1

theorem challengeOf_literals {id : Int} {creatorId : Bytes} {request : CreateChallengeRequest}
    (hid : 0 ≤ id)
    (hcreator : validId creatorId = true) (h : request.Literals) :
    (challengeOf id creatorId request).Literals where
  id := hid
  creatorId := chars_id hcreator
  name := (chars_iff _).mpr h.name
  description := (chars_iff _).mpr h.description
  flag := (chars_iff _).mpr h.flag

theorem challengeOf_printable {id : Int} {creatorId : Bytes} {request : CreateChallengeRequest}
    (hid : 0 ≤ id)
    (hmax : id ≤ INT_MAX) (hcreator : validId creatorId = true) (h : request.Accepted) :
    (challengeOf id creatorId request).Printable true := by
  have hl := challengeOf_literals hid hcreator h.toLiterals
  have hname := Nat.le_trans (chars_length hl.name) (Nat.mul_le_mul_left 4 h.nameCount)
  have hflag := Nat.le_trans (chars_length hl.flag) (Nat.mul_le_mul_left 4 h.flagCount)
  have hgenre : (ctfGenreToString request.genre).length ≤ 9 := by
    cases request.genre <;> decide +kernel
  have hlength : creatorId.length = 32 := by
    unfold validId AUTH_ID_LENGTH at hcreator
    rw [Bool.and_eq_true, beq_iff_eq] at hcreator
    exact hcreator.1
  have hdigits : intStringLength id ≤ 10 := by
    rw [intStringLength_eq]
    unfold intText
    rw [if_neg (by omega)]
    refine Decimal.digits_length (by decide) ?_
    unfold INT_MAX at hmax
    omega
  have hmin : id ≠ INT_MIN := by
    unfold INT_MIN
    omega
  refine ⟨hmin, chars_noNul hl.creatorId, chars_noNul hl.name, chars_noNul hl.description,
    chars_noNul hl.flag, ?_⟩
  have hdescription := h.descriptionLength
  have hsize := bufferSize_eq true (challengeOf id creatorId request)
  unfold bufferSize at hsize
  rw [if_pos rfl] at hsize
  change 1 + 5 + intStringLength id + 1 + 13 + creatorId.length + 3 + 7 + request.name.length + 3 +
    14 + request.description.length + 3 + (7 + request.flag.length + 3) +
      8 + (ctfGenreToString request.genre).length + 4 = _ at hsize
  change request.name.length ≤ 4 * 255 at hname
  change request.flag.length ≤ 4 * 255 at hflag
  unfold INT_MAX
  omega

/-- **The challenge of an accepted body, whatever its id and its creator, is written as a string
that is as long as it declares; this is an object that `read_value` takes; and it is accepted in its
turn, as the same request.** -/
theorem challengeToJson_fed_back {mem : Nat → Bool} {json : Bytes}
    {request : CreateChallengeRequest}
    (h : jsonToCreateChallengeRequest mem json = .ok request) {id : Int} (hid : 1 ≤ id)
    (hmax : id ≤ INT_MAX)
    {creatorId : Bytes} (hcreator : validId creatorId = true) (malloc : Malloc) {buffer : Bytes}
    (hm : malloc.run (bufferSize true (challengeOf id creatorId request)) = some buffer) :
    ∃ s text, challengeToJsonImplBuffer malloc (challengeOf id creatorId request) false
      true = some s ∧
      s.Holds text ∧
      (∃ ps, TopMembers List.Nodup text ps) ∧
      (∃ rest, readValue enoughMemory (MAX_JSON_DEPTH + 1) text = .ok rest ∧
        skipWhitespace rest = []) ∧
      jsonToCreateChallengeRequest enoughMemory text = .ok request := by
  have hacc := jsonToCreateChallengeRequest_ok h
  have hpos : 0 ≤ id := by omega
  have hl := challengeOf_literals hpos hcreator hacc.toLiterals
  obtain ⟨s, hs, hholds⟩ := challengeToJsonImplBuffer_holds
    (challengeOf_printable hpos hmax hcreator hacc) hm
  have htop : TopMembers List.Nodup _ _ := challengeToJson_members hl
  have hnd := challengeMembers_nodup (challengeOf id creatorId request)
  refine ⟨s, challengeToJson (challengeOf id creatorId request), hs, hholds, ⟨_, htop⟩, ?_, ?_⟩
  · obtain ⟨w, ms, w', hw, hw', hb, htext⟩ := htop
    refine (readValue_document MAX_JSON_DEPTH _).mpr
      ⟨w, 0x7b :: (ms ++ [0x7d]), w', hw, value_shape.mpr (.object hb (Or.inr hnd)),
        hw', by rw [htext]; simp⟩
  · exact (jsonToCreateChallengeRequest_iff _ request).mpr ⟨_, htop, hnd, challengeMembers_steps hl,
      ⟨hacc.nameSome, hacc.flagSome, hacc.nameCount, hacc.flagCount, hacc.descriptionLength⟩⟩

/-- a name with a character of two bytes, a description with escapes, a flag with a quote -/
def escapedRequest : CreateChallengeRequest :=
  ⟨[0xc3, 0xa9], ascii "a\\n\\u00e9", ascii "f\\\"", .web⟩

theorem challengeToJson_fed_back_sample :
    ∃ s text, challengeToJsonImplBuffer .zeroed
    (challengeOf 1 (List.replicate 32 0x61) escapedRequest) false true = some s ∧
      s.Holds text ∧
      (∃ ps, TopMembers List.Nodup text ps) ∧
      (∃ rest, readValue enoughMemory (MAX_JSON_DEPTH + 1) text = .ok rest ∧
        skipWhitespace rest = []) ∧
      jsonToCreateChallengeRequest enoughMemory text = .ok escapedRequest :=
  have hbody : jsonToCreateChallengeRequest enoughMemory
      (ascii "\x7b\"name\":\"" ++ [0xc3, 0xa9] ++
        ascii "\",\"description\":\"a\\n\\u00e9\",\"flag\":\"f\\\"\",\"genre\":\"web\"\x7d") =
        .ok escapedRequest := by decide +kernel
  challengeToJson_fed_back hbody (by decide) (by decide) (by decide) .zeroed rfl

end App

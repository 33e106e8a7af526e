import CtfServer.App.ChallengeText

/-!
# The reader of lists of challenges

`parse_json_int`, `skip_json_value` (json_parser.c), `json_to_challenge` and `json_to_challenges`
(json.c).  A text is followed by a NUL, as the writers leave it, so that `strtol` stops at its end.
`mem n` says that the array of challenges gets room for `n` elements.

* `skipJsonValue`        an object or an array ends where its brackets balance, strings included;
* `jsonToChallenges`     elements are read with one routine and passed over with the other;
* `jsonToChallenge_text` an element that the writer wrote is read whole, whatever stands behind it.
-/

set_option linter.unusedVariables false
set_option linter.unusedSimpArgs false

namespace App

open Json

/-! ## `parse_json_int` and `skip_json_value` -/

/-- `endptr` of `strtol`, where it reads a number -/
def strtolEnd (str : Bytes) : Option Bytes :=
  match str.dropWhile isSpaceC with
  | [] => none
  | c :: rest => readDigits (if c = 45 ∨ c = 43 then rest else c :: rest)

/-- `parse_json_int` -/
def parseJsonInt (str : Bytes) : Option (Int × Bytes) :=
  (strtolEnd str).map fun rest => (toInt (strtol str), rest)

/-- the loop over an object or an array, at a depth: every bracket counts, one in a string as
well -/
def skipNested (opening closing : UInt8) : Nat → Bytes → Option Bytes
  | 0, str => some str
  | _ + 1, [] => none
  | depth + 1, c :: str =>
    if c = opening then skipNested opening closing (depth + 2) str
    else if c = closing then skipNested opening closing depth str
    else skipNested opening closing (depth + 1) str

/-- `skip_json_value` -/
def skipJsonValue (str : Bytes) : Option Bytes :=
  match skipWhitespace str with
  | [] => none
  | c :: rest =>
    if c = DQUOTE then (parseJsonStr (c :: rest)).map Prod.snd
    else if c = OPEN_BRACE then skipNested OPEN_BRACE CLOSE_BRACE 1 rest
    else if c = OPEN_BRACKET then skipNested OPEN_BRACKET CLOSE_BRACKET 1 rest
    else some ((c :: rest).dropWhile fun x => !(x == COMMA || x == CLOSE_BRACE || isSpaceC x))

/-! ## `json_to_challenge` -/

/-- `memset(challenge, 0, ..)` -/
def Challenge.zero : Challenge := ⟨0, [], [], [], [], .web⟩

/-- the value behind a key -/
def readMember (key : Bytes) (challenge : Challenge) (cur : Bytes) : Option (Challenge × Bytes) :=
  if key = ascii "id" then
    (parseJsonInt cur).map fun (value, cur) => ({ challenge with id := value }, cur)
  else if key = ascii "creator_id" then
    (readString cur).map fun (value, cur) => ({ challenge with creatorId := value }, cur)
  else if key = ascii "name" then
    (readString cur).map fun (value, cur) => ({ challenge with name := value }, cur)
  else if key = ascii "description" then
    (readString cur).map fun (value, cur) => ({ challenge with description := value }, cur)
  else if key = ascii "flag" then
    (readString cur).map fun (value, cur) => ({ challenge with flag := value }, cur)
  else if key = ascii "genre" then
    (readString cur).map fun (value, cur) =>
      ({ challenge with genre := ctfGenreFromString value }, cur)
  else (skipJsonValue cur).map fun cur => (challenge, cur)

/-- the loop of `json_to_challenge`; a text that ends behind a value ends the loop -/
def challengeLoop : Nat → Challenge → Bytes → Option Challenge
  | _, challenge, [] => some challenge
  | 0, _, _ :: _ => none
  | turns + 1, challenge, x :: cur =>
    match skipWhitespace (x :: cur) with
    | [] => none
    | c :: rest =>
      if c = CLOSE_BRACE then some challenge
      else if c = COMMA then challengeLoop turns challenge rest
      else
        match readString (c :: rest) with
        | none => none
        | some (key, cur) =>
          match consume COLON cur with
          | none => none
          | some cur =>
            match readMember key challenge (skipWhitespace cur) with
            | none => none
            | some (challenge, cur) => challengeLoop turns challenge cur

/-- `json_to_challenge`, a result other than 0 being `none` -/
def jsonToChallenge (json : Bytes) : Option Challenge :=
  match consume OPEN_BRACE json with
  | none => none
  | some cur => challengeLoop (cur.length + 1) .zero cur

/-! ## `json_to_challenges` -/

/-- room for one more: `realloc` when the array is full, to twice its capacity -/
def grow (mem : Nat → Bool) (capacity count : Nat) : Option Nat :=
  if count < capacity then some capacity
  else if mem (capacity * 2) then some (capacity * 2)
  else none

/-- the loop over the elements, `read` in front of them -/
def listLoop (mem : Nat → Bool) : Nat → Nat → List Challenge → Bytes → Option (List Challenge)
  | _, _, read, [] => some read
  | 0, _, _, _ :: _ => none
  | turns + 1, capacity, read, x :: cur =>
    match skipWhitespace (x :: cur) with
    | [] => some read
    | c :: rest =>
      if c = CLOSE_BRACKET then some read
      else if c = COMMA then listLoop mem turns capacity read rest
      else
        match grow mem capacity read.length with
        | none => none
        | some capacity =>
          match jsonToChallenge (c :: rest) with
          | none => none
          | some challenge =>
            match skipJsonValue (c :: rest) with
            | none => none
            | some cur => listLoop mem turns capacity (read ++ [challenge]) cur

/-- `json_to_challenges`: `none` where it leaves `*challenges` and `*count` alone; `mem n` says that
the array gets room for `n` elements -/
def jsonToChallenges (mem : Nat → Bool) (json : Bytes) : Option (List Challenge) :=
  match consume OPEN_BRACKET json with
  | none => none
  | some cur => if mem 4 then listLoop mem (cur.length + 1) 4 [] cur else none

/-! ## an element that the writer wrote -/

theorem skipWhitespace_space {c : UInt8} (h : isSpace c = true) (r : Bytes) :
    skipWhitespace (c :: r) = skipWhitespace r :=
  List.dropWhile_cons_of_pos h

theorem consume_head {c : UInt8} (h : isSpace c = false) (r : Bytes) :
    consume c (c :: r) = some r := by
  unfold consume
  rw [skipWhitespace_head h]
  exact if_pos rfl

theorem readDigits_numeral (n : Nat) {r : Bytes} (hr : ∀ c ∈ r.head?, Decimal.isDigit c = false) :
    readDigits (Decimal.digits n ++ r) = some r := by
  rw [readDigits_digits ⟨Decimal.digits_ne_nil n, fun c hc => (digit_iff c).mpr
    (Decimal.digits_isDigit n c hc)⟩]
  cases r with
  | nil => rfl
  | cons x r => rw [skipDigits_head (by rw [digit_iff, hr x rfl]; decide)]

/-- `strtol` stops behind a numeral -/
theorem strtolEnd_numeral (n : Nat) {r : Bytes} (hr : ∀ c ∈ r.head?, Decimal.isDigit c = false) :
    strtolEnd (Decimal.digits n ++ r) = some r := by
  have hall := Decimal.digits_isDigit n
  have hdigits := readDigits_numeral n hr
  cases hd : Decimal.digits n with
  | nil => exact absurd hd (Decimal.digits_ne_nil n)
  | cons c rest =>
    rw [hd] at hall hdigits
    obtain ⟨hspace, hminus, hplus⟩ := digit_signs (hall c List.mem_cons_self)
    rw [List.cons_append] at hdigits ⊢
    unfold strtolEnd
    rw [List.dropWhile_cons_of_neg hspace]
    simp only [hminus, hplus, or_self, if_false, hdigits]

theorem parseJsonInt_text {id : Int} (h : 0 ≤ id) (hmax : id ≤ INT_MAX) {r : Bytes}
    (hr : ∀ c ∈ r.head?, Decimal.isDigit c = false) :
    parseJsonInt (intText id ++ r) = some (id, r) := by
  obtain ⟨n, rfl⟩ := Int.eq_ofNat_of_zero_le h
  have htext : intText (n : Int) = Decimal.digits n := by
    unfold intText
    rw [if_neg (by omega)]
    rfl
  rw [htext]
  unfold parseJsonInt
  rw [strtolEnd_numeral n hr, strtol_numeral n hr, Option.map_some, toInt_numeral (by omega)]

/-- a value between a colon and a comma or a brace -/
def ReadsMember (key v : Bytes) (challenge challenge' : Challenge) : Prop :=
  ∀ c r, c = COMMA ∨ c = CLOSE_BRACE → readMember key challenge (skipWhitespace (v ++ c :: r)) =
    some (challenge', c :: r)

theorem readString_quote {f : Bytes} (h : Chars f) (r : Bytes) :
    readString (skipWhitespace (quote f ++ r)) = some (f, r) := by
  rw [readString_skip]
  have h1 : readString ([] ++ 0x22 :: (f ++ 0x22 :: r)) = some (f, r) :=
    readString_chars (show Ws [] from nofun) h r
  simpa [quote] using h1

theorem readsMember_id {challenge : Challenge} {id : Int} (h : 0 ≤ id) (hmax : id ≤ INT_MAX) :
    ReadsMember (ascii "id") (intText id) challenge { challenge with id := id } := by
  intro c r hc
  have hdigit : ∀ x ∈ (c :: r).head?, Decimal.isDigit x = false := by
    intro x hx
    cases hx
    rcases hc with rfl | rfl <;> decide
  have hhead : skipWhitespace (intText id ++ c :: r) = intText id ++ c :: r := by
    unfold intText
    rw [if_neg (by omega)]
    have hall := Decimal.digits_isDigit id.natAbs
    cases hd : Decimal.digits id.natAbs with
    | nil => exact absurd hd (Decimal.digits_ne_nil _)
    | cons d ds =>
      rw [hd] at hall
      have hdig := hall d List.mem_cons_self
      refine skipWhitespace_head ?_ _
      rw [Bool.eq_false_iff]
      intro hs
      simp only [isSpace, Bool.or_eq_true, beq_iff_eq] at hs
      rcases hs with ((rfl | rfl) | rfl) | rfl <;> revert hdig <;> decide
  unfold readMember
  rw [if_pos rfl, hhead, parseJsonInt_text h hmax hdigit]
  rfl

theorem readsMember_creatorId {challenge : Challenge} {f : Bytes} (h : Chars f) :
    ReadsMember (ascii "creator_id") (quote f) challenge { challenge with creatorId := f } := by
  intro c r hc
  unfold readMember
  rw [if_neg (by decide), if_pos rfl, readString_quote h]
  rfl

theorem readsMember_name {challenge : Challenge} {f : Bytes} (h : Chars f) :
    ReadsMember (ascii "name") (quote f) challenge { challenge with name := f } := by
  intro c r hc
  unfold readMember
  rw [if_neg (by decide), if_neg (by decide), if_pos rfl, readString_quote h]
  rfl

theorem readsMember_description {challenge : Challenge} {f : Bytes} (h : Chars f) :
    ReadsMember (ascii "description") (quote f) challenge { challenge with description := f } := by
  intro c r hc
  unfold readMember
  rw [if_neg (by decide), if_neg (by decide), if_neg (by decide), if_pos rfl, readString_quote h]
  rfl

theorem readsMember_flag {challenge : Challenge} {f : Bytes} (h : Chars f) :
    ReadsMember (ascii "flag") (quote f) challenge { challenge with flag := f } := by
  intro c r hc
  unfold readMember
  rw [if_neg (by decide), if_neg (by decide), if_neg (by decide), if_neg (by decide),
    if_pos rfl, readString_quote h]
  rfl

theorem readsMember_genre {challenge : Challenge} (g : CtfGenre) :
    ReadsMember (ascii "genre") (quote (ctfGenreToString g)) challenge
    { challenge with genre := g } := by
  intro c r hc
  unfold readMember
  rw [if_neg (by decide), if_neg (by decide), if_neg (by decide), if_neg (by decide),
    if_neg (by decide), if_pos rfl, readString_quote (chars_genre g)]
  show some ({ challenge with genre := ctfGenreFromString (ctfGenreToString g) }, c :: r) = _
  rw [genre_round]

theorem membersText_length (ps : List (Bytes × Bytes)) :
    2 * ps.length ≤ (membersText ps).length + 1 := by
  have hone : ∀ p, 3 ≤ (memberText p).length := by
    intro p
    simp only [memberText, quote, List.length_append, List.length_cons]
    omega
  have hcomma : (ascii ",").length = 1 := rfl
  induction ps with
  | nil => exact Nat.zero_le _
  | cons p ps ih =>
    have h1 := hone p
    unfold membersText at ih ⊢
    rw [List.map_cons, List.length_cons]
    by_cases hlast : ps = []
    · subst hlast
      rw [List.map_nil, List.intercalate_singleton]
      show 2 ≤ (memberText p).length + 1
      omega
    · rw [List.intercalate_cons_of_ne_nil (by simpa using hlast), List.length_append,
        List.length_append, hcomma]
      omega

theorem challengeMembers_reads {challenge : Challenge} (h : challenge.Literals)
    (hmax : challenge.id ≤ INT_MAX) :
    Steps ReadsMember (challengeMembers challenge) .zero challenge :=
  .cons (readsMember_id h.id hmax)
    (.cons (readsMember_creatorId h.creatorId) (.cons (readsMember_name h.name)
    (.cons (readsMember_description h.description) (.cons (readsMember_flag h.flag)
      (.cons (readsMember_genre challenge.genre) .nil)))))

/-- a member and what closes it -/
theorem challengeLoop_member {turns : Nat} {challenge challenge' : Challenge} {p : Bytes × Bytes}
    (hkey : Chars p.1)
    (h : ReadsMember p.1 p.2 challenge challenge') {c : UInt8} (hc : c = COMMA ∨ c = CLOSE_BRACE)
    (r : Bytes) :
    challengeLoop (turns + 1) challenge (memberText p ++ c :: r) = challengeLoop turns challenge'
      (c :: r) := by
  have htext : memberText p ++ c :: r = DQUOTE :: (p.1 ++ 0x22 :: COLON :: (p.2 ++ c :: r)) := by
    simp [memberText, quote, DQUOTE, COLON]
  have hread : readString (DQUOTE :: (p.1 ++ 0x22 :: COLON :: (p.2 ++ c :: r))) =
    some (p.1, COLON :: (p.2 ++ c :: r)) :=
    readString_chars (show Ws [] from List.forall_mem_nil _) hkey _
  rw [htext, challengeLoop, skipWhitespace_head (by decide)]
  simp only [show DQUOTE ≠ CLOSE_BRACE by decide, show DQUOTE ≠ COMMA by decide, if_false, hread,
    consume_head (show isSpace COLON = false by decide), h c r hc]

theorem challengeLoop_members {ps : List (Bytes × Bytes)} (hne : ps ≠ [])
    {challenge challenge' : Challenge}
    (hkeys : ∀ p ∈ ps, Chars p.1) (h : Steps ReadsMember ps challenge challenge') (r : Bytes)
    {turns : Nat} (ht : 2 * ps.length ≤ turns) :
    challengeLoop turns challenge (membersText ps ++ CLOSE_BRACE :: r) = some challenge' := by
  have hcomma : ascii "," = [COMMA] := rfl
  have hclose : ∀ t challenge, challengeLoop (t + 1) challenge (CLOSE_BRACE :: r) =
    some challenge := by
    intro t challenge
    rw [challengeLoop, skipWhitespace_head (by decide)]
    exact if_pos rfl
  induction h generalizing turns with
  | nil => exact absurd rfl hne
  | @cons key v ps s s1 s' hR hsteps ih =>
    obtain ⟨hkey, hkeys⟩ := List.forall_mem_cons.mp hkeys
    rw [List.length_cons] at ht
    match turns, ht with
    | turns + 2, ht =>
      unfold membersText at ih ⊢
      rw [List.map_cons]
      by_cases hlast : ps = []
      · subst hlast
        cases hsteps
        rw [List.map_nil, List.intercalate_singleton, challengeLoop_member (p := (key, v)) hkey hR
          (Or.inr rfl), hclose]
      · rw [List.intercalate_cons_of_ne_nil (by simpa using hlast), hcomma, List.append_assoc,
          List.append_assoc,
          List.singleton_append, challengeLoop_member (p := (key, v)) hkey hR (Or.inl rfl),
          challengeLoop,
          skipWhitespace_head (by decide)]
        rw [hcomma] at ih
        simp only [show COMMA ≠ CLOSE_BRACE by decide, if_false, if_true]
        exact ih hlast hkeys (by omega)

/-- an element is read whole, whatever stands behind it -/
theorem jsonToChallenge_text {challenge : Challenge} (h : challenge.Literals)
    (hmax : challenge.id ≤ INT_MAX) (r : Bytes) :
    jsonToChallenge (challengeToJson challenge ++ r) = some challenge := by
  have hshape : challengeToJson challenge ++ r =
      OPEN_BRACE :: (membersText (challengeMembers challenge) ++ CLOSE_BRACE :: r) := by
    rw [challengeToJson_text]
    simp [OPEN_BRACE, CLOSE_BRACE]
  have hvalues : ∀ p ∈ challengeMembers challenge, Chars p.1 ∧ ValueAt (fun _ => True) 1 p.2 :=
    challengeMembers_values h
  have hlen : 2 * (challengeMembers challenge).length ≤
      (membersText (challengeMembers challenge) ++ CLOSE_BRACE :: r).length + 1 := by
    have h1 := membersText_length (challengeMembers challenge)
    rw [List.length_append]
    omega
  unfold jsonToChallenge
  rw [hshape, consume_head (by decide)]
  exact challengeLoop_members (by simp [challengeMembers]) (fun p hp => (hvalues p hp).1)
    (challengeMembers_reads h hmax) r hlen

end App

import CtfServer.App.ListReader

/-!
# The reader of lists and what stands behind its slice

`json_to_challenge` and `json_to_challenges` on a slice with memory behind it: `strtol` is not told
where the slice ends.  A function gives `none` when it reads beyond that memory.

* `touchesEnd`                `strtol` looks at the octet behind the slice;
* `parseJsonIntIn`, ..        the readers, with the memory `behind` the slice;
* `Overruns`, `ListOverruns`  a number under `id` runs up to the end of the slice;
* `jsonToChallenge_slice_iff`, `jsonToChallenges_slice_iff`
                              **the readers respect the slice exactly when none does**.
-/

set_option linter.unusedVariables false
set_option linter.unusedSimpArgs false

namespace App

open Json

/-! ## the readers on a slice in memory -/

/-- `strtol` reads all of the text, and goes on -/
def touchesEnd (str : Bytes) : Bool :=
  match str.dropWhile isSpaceC with
  | [] => true
  | c :: rest => (skipDigits (if c = 45 ∨ c = 43 then rest else c :: rest)).isEmpty

/-- `parse_json_int` -/
def parseJsonIntIn (behind str : Bytes) : Option (Option (Int × Bytes)) :=
  if touchesEnd (str ++ behind) then none
  else
    match parseJsonInt (str ++ behind) with
    | none => some none
    | some (value, rest) =>
      -- `endptr > end`
      if rest.length < behind.length then some none
      else some (some (value, rest.take (rest.length - behind.length)))

/-- the value behind a key -/
def readMemberIn (behind : Bytes) (key : Bytes) (challenge : Challenge) (cur : Bytes) :
    Option (Option (Challenge × Bytes)) :=
  if key = ascii "id" then
    (parseJsonIntIn behind cur).map fun r => r.map fun r => ({ challenge with id := r.1 }, r.2)
  else some (readMember key challenge cur)

/-- the loop of `json_to_challenge` -/
def challengeLoopIn (behind : Bytes) : Nat → Challenge → Bytes → Option (Option Challenge)
  | _, challenge, [] => some (some challenge)
  | 0, _, _ :: _ => some none
  | turns + 1, challenge, x :: cur =>
    match skipWhitespace (x :: cur) with
    | [] => some none
    | c :: rest =>
      if c = CLOSE_BRACE then some (some challenge)
      else if c = COMMA then challengeLoopIn behind turns challenge rest
      else
        match readString (c :: rest) with
        | none => some none
        | some (key, cur) =>
          match consume COLON cur with
          | none => some none
          | some cur =>
            match readMemberIn behind key challenge (skipWhitespace cur) with
            | none => none
            | some none => some none
            | some (some (challenge, cur)) => challengeLoopIn behind turns challenge cur

/-- `json_to_challenge` -/
def jsonToChallengeIn (behind json : Bytes) : Option (Option Challenge) :=
  match consume OPEN_BRACE json with
  | none => some none
  | some cur => challengeLoopIn behind (cur.length + 1) .zero cur

/-- the loop of `json_to_challenges` -/
def listLoopIn (behind : Bytes) (mem : Nat → Bool) : Nat → Nat → List Challenge → Bytes → Option
    (Option (List Challenge))
  | _, _, read, [] => some (some read)
  | 0, _, _, _ :: _ => some none
  | turns + 1, capacity, read, x :: cur =>
    match skipWhitespace (x :: cur) with
    | [] => some (some read)
    | c :: rest =>
      if c = CLOSE_BRACKET then some (some read)
      else if c = COMMA then listLoopIn behind mem turns capacity read rest
      else
        match grow mem capacity read.length with
        | none => some none
        | some capacity =>
          match jsonToChallengeIn behind (c :: rest) with
          | none => none
          | some none => some none
          | some (some challenge) =>
            match skipJsonValue (c :: rest) with
            | none => some none
            | some cur => listLoopIn behind mem turns capacity (read ++ [challenge]) cur

/-- `json_to_challenges`; `some none` leaves `*challenges` and `*count` alone -/
def jsonToChallengesIn (behind : Bytes) (mem : Nat → Bool) (json : Bytes) :
    Option (Option (List Challenge)) :=
  match consume OPEN_BRACKET json with
  | none => some none
  | some cur => if mem 4 then listLoopIn behind mem (cur.length + 1) 4 [] cur else some none

/-! ## numbers -/

section
variable {str behind : Bytes}

theorem touchesEnd_nul (str : Bytes) : touchesEnd (str ++ [0]) = false := by
  have hskip : ∀ l : Bytes, (skipDigits (l ++ [0])).isEmpty = false := by
    intro l
    induction l with
    | nil => rfl
    | cons c l ih =>
      rw [List.cons_append, skipDigits]
      by_cases hc : Decimal.isDigit c = true
      · rw [List.dropWhile_cons_of_pos hc]
        exact ih
      · rw [List.dropWhile_cons_of_neg hc]
        rfl
  induction str with
  | nil => rfl
  | cons c str ih =>
    unfold touchesEnd at ih ⊢
    rw [List.cons_append]
    by_cases hc : isSpaceC c = true
    · rw [List.dropWhile_cons_of_pos hc]
      exact ih
    · rw [List.dropWhile_cons_of_neg hc]
      dsimp only
      split
      · exact hskip str
      · exact hskip (c :: str)

/-- what is taken and dropped of a text does not depend on what follows it -/
theorem dropWhile_inside {p : UInt8 → Bool} {l : Bytes} (h : (l.dropWhile p).isEmpty = false)
    (r : Bytes) :
    (l ++ r).dropWhile p = l.dropWhile p ++ r ∧ (l ++ r).takeWhile p = l.takeWhile p := by
  induction l with
  | nil => cases h
  | cons c l ih =>
    rw [List.cons_append]
    by_cases hc : p c = true
    · rw [List.dropWhile_cons_of_pos hc] at h ⊢
      rw [List.dropWhile_cons_of_pos hc, List.takeWhile_cons_of_pos hc, List.takeWhile_cons_of_pos
        hc, (ih h).1, (ih h).2]
      exact ⟨rfl, rfl⟩
    · rw [List.dropWhile_cons_of_neg hc, List.dropWhile_cons_of_neg hc,
        List.takeWhile_cons_of_neg hc,
        List.takeWhile_cons_of_neg hc]
      exact ⟨rfl, rfl⟩

theorem readDigits_inside {l : Bytes} (h : (skipDigits l).isEmpty = false) (r : Bytes) :
    readDigits (l ++ r) = (readDigits l).map (· ++ r) ∧ (skipDigits (l ++ r)).isEmpty = false := by
  have hskip : skipDigits (l ++ r) = skipDigits l ++ r := (dropWhile_inside h r).1
  unfold readDigits
  rw [hskip, List.length_append, List.length_append]
  refine ⟨?_, ?_⟩
  · by_cases hlen : (skipDigits l).length = l.length
    · rw [if_pos (by omega), if_pos hlen]
      rfl
    · rw [if_neg (by omega), if_neg hlen]
      rfl
  · cases hs : skipDigits l with
    | nil =>
      rw [hs] at h
      cases h
    | cons x s => rfl

/-- a text that `strtol` does not read to its end is read the same whatever stands behind it -/
theorem parseJsonInt_append (h : touchesEnd str = false) (behind : Bytes) :
    parseJsonInt (str ++ behind) = (parseJsonInt str).map (fun r => (r.1, r.2 ++ behind)) ∧
      touchesEnd (str ++ behind) = false := by
  unfold touchesEnd at h
  cases hd : str.dropWhile isSpaceC with
  | nil =>
    rw [hd] at h
    cases h
  | cons c rest =>
    rw [hd] at h
    dsimp only at h
    have hskip : (str ++ behind).dropWhile isSpaceC = c :: (rest ++ behind) := by
      rw [(dropWhile_inside (by rw [hd]; rfl) behind).1, hd, List.cons_append]
    have htail : (if c = 45 ∨ c = 43 then rest ++ behind else c :: (rest ++ behind)) =
        (if c = 45 ∨ c = 43 then rest else c :: rest) ++ behind := by
      split <;> rfl
    obtain ⟨hdigits, hinside⟩ := readDigits_inside h behind
    have hend : strtolEnd (str ++ behind) = (strtolEnd str).map (· ++ behind) := by
      unfold strtolEnd
      rw [hskip, hd]
      dsimp only
      rw [htail, hdigits]
    have hvalue : strtol (str ++ behind) = strtol str := by
      unfold strtol
      rw [hskip, hd]
      dsimp only
      by_cases hminus : c = 45
      · rw [if_pos (.inl hminus)] at h
        rw [if_pos hminus, if_pos hminus, (dropWhile_inside h behind).2]
      by_cases hplus : c = 43
      · rw [if_pos (.inr hplus)] at h
        rw [if_neg hminus, if_neg hminus, if_pos hplus, if_pos hplus, (dropWhile_inside h behind).2]
      · rw [if_neg (not_or.mpr ⟨hminus, hplus⟩)] at h
        rw [if_neg hminus, if_neg hminus, if_neg hplus, if_neg hplus, ← List.cons_append,
          (dropWhile_inside h behind).2]
    refine ⟨?_, ?_⟩
    · unfold parseJsonInt
      rw [hend, hvalue, Option.map_map, Option.map_map]
      rfl
    · unfold touchesEnd
      rw [hskip]
      dsimp only
      rw [htail]
      exact hinside

theorem parseJsonIntIn_eq (h : touchesEnd str = false) (behind : Bytes) :
    parseJsonIntIn behind str = some (parseJsonInt str) := by
  obtain ⟨hparse, htouch⟩ := parseJsonInt_append h behind
  unfold parseJsonIntIn
  rw [htouch, hparse]
  cases parseJsonInt str with
  | none => rfl
  | some r => simp

theorem parseJsonIntIn_nil (h : touchesEnd str = true) : parseJsonIntIn [] str = none := by
  unfold parseJsonIntIn
  rw [List.append_nil, if_pos h]

end

/-! ## members -/

/-- where the value behind a key ends -/
def memberEnd (key cur : Bytes) : Option Bytes :=
  if key = ascii "id" then strtolEnd cur
  else if key = ascii "creator_id" ∨ key = ascii "name" ∨ key = ascii "description" ∨
    key = ascii "flag" ∨
      key = ascii "genre" then
    (readString cur).map Prod.snd
  else skipJsonValue cur

section
variable {cur cur3 key : Bytes} {challenge challenge' : Challenge}

theorem readMember_map_snd (key : Bytes) (challenge : Challenge) (cur : Bytes) :
    (readMember key challenge cur).map Prod.snd = memberEnd key cur := by
  unfold readMember memberEnd
  by_cases h1 : key = ascii "id"
  · rw [if_pos h1, if_pos h1, parseJsonInt, Option.map_map, Option.map_map]
    exact Option.map_id'
  rw [if_neg h1, if_neg h1]
  by_cases h2 : key = ascii "creator_id" ∨ key = ascii "name" ∨ key = ascii "description" ∨
    key = ascii "flag" ∨
      key = ascii "genre"
  · rw [if_pos h2]
    repeat' split
    all_goals first
      | rw [Option.map_map]; rfl
      | simp_all
  · rw [if_neg h2]
    simp only [not_or] at h2
    obtain ⟨k1, k2, k3, k4, k5⟩ := h2
    rw [if_neg k1, if_neg k2, if_neg k3, if_neg k4, if_neg k5, Option.map_map]
    exact Option.map_id'

theorem readMember_end (h : readMember key challenge cur = some (challenge', cur3)) :
    memberEnd key cur = some cur3 := by
  rw [← readMember_map_snd key challenge cur, h]
  rfl

theorem memberEnd_read (h : memberEnd key cur = some cur3) (challenge : Challenge) :
    ∃ challenge', readMember key challenge cur = some (challenge', cur3) := by
  rw [← readMember_map_snd key challenge cur] at h
  obtain ⟨r, hr, he⟩ := Option.map_eq_some_iff.mp h
  exact ⟨r.1, by rw [hr, ← he]⟩

theorem readMemberIn_eq (h : key = ascii "id" → touchesEnd cur = false) (behind : Bytes)
    (challenge : Challenge) :
    readMemberIn behind key challenge cur = some (readMember key challenge cur) := by
  unfold readMemberIn
  split
  · next hkey =>
    rw [parseJsonIntIn_eq (h hkey), readMember, if_pos hkey]
    rfl
  · rfl

theorem strtolEnd_length {str rest : Bytes} (h : strtolEnd str = some rest) :
    rest.length ≤ str.length := by
  have hle := (List.dropWhile_suffix (l := str) isSpaceC).length_le
  unfold strtolEnd at h
  split at h
  · cases h
  · next c tail hd =>
    have hlen := readDigits_length h
    rw [hd, List.length_cons] at hle
    split at hlen
    · omega
    · rw [List.length_cons] at hlen
      omega

theorem skipNested_length {opening closing : UInt8} {depth : Nat} {str rest : Bytes}
    (h : skipNested opening closing depth str = some rest) : rest.length ≤ str.length := by
  induction str generalizing depth with
  | nil =>
    cases depth with
    | zero =>
      rw [← Option.some.inj h]
    | succ depth => cases h
  | cons c str ih =>
    cases depth with
    | zero =>
      rw [← Option.some.inj h]
    | succ depth =>
      rw [List.length_cons]
      rw [skipNested] at h
      split at h
      · exact Nat.le_succ_of_le (ih h)
      split at h
      · exact Nat.le_succ_of_le (ih h)
      · exact Nat.le_succ_of_le (ih h)

theorem skipJsonValue_length {str rest : Bytes} (h : skipJsonValue str = some rest) :
    rest.length ≤ str.length := by
  have hskip := skipWhitespace_length str
  unfold skipJsonValue at h
  split at h
  · cases h
  next c tail hd =>
  rw [hd, List.length_cons] at hskip
  split at h
  · obtain ⟨r, hr, rfl⟩ := Option.map_eq_some_iff.mp h
    have hsplit := congrArg List.length ((parseJsonStr_iff _ r.1 r.2).mp hr).2
    simp only [List.length_cons, List.length_append] at hsplit
    omega
  split at h
  · have := skipNested_length h
    omega
  split at h
  · have := skipNested_length h
    omega
  · rw [← Option.some.inj h]
    have := (List.dropWhile_suffix (l := c :: tail) fun x =>
      !(x == COMMA || x == CLOSE_BRACE || isSpaceC x)).length_le
    rw [List.length_cons] at this
    omega

theorem memberEnd_length (h : memberEnd key cur = some cur3) : cur3.length ≤ cur.length := by
  unfold memberEnd at h
  split at h
  · exact strtolEnd_length h
  split at h
  · obtain ⟨r, hr, rfl⟩ := Option.map_eq_some_iff.mp h
    exact Nat.le_of_lt (readString_length hr)
  · exact skipJsonValue_length h

end

/-! ## objects -/

/-- inside an object, a number under `id` that is reached runs up to the end of the slice -/
inductive Overruns : Bytes → Prop where
  | comma {cur rest : Bytes} (h : skipWhitespace cur = COMMA :: rest) (hrest : Overruns rest)
      : Overruns cur
  | here {cur rest cur1 cur2 : Bytes} {c : UInt8} (h : skipWhitespace cur = c :: rest)
      (hc : c ≠ CLOSE_BRACE ∧ c ≠ COMMA) (hkey : readString (c :: rest) = some (ascii "id", cur1))
      (hcolon : consume COLON cur1 = some cur2) (hend : touchesEnd (skipWhitespace cur2) = true)
      : Overruns cur
  | later {cur rest cur1 cur2 cur3 key : Bytes} {c : UInt8} (h : skipWhitespace cur = c :: rest)
      (hc : c ≠ CLOSE_BRACE ∧ c ≠ COMMA) (hkey : readString (c :: rest) = some (key, cur1))
      (hcolon : consume COLON cur1 = some cur2)
      (hvalue : memberEnd key (skipWhitespace cur2) = some cur3)
      (hrest : Overruns cur3) : Overruns cur

section
variable {cur : Bytes}

/-- where no number overruns, the memory behind the slice does not matter -/
theorem challengeLoopIn_eq {turns : Nat} (h : ¬ Overruns cur) (behind : Bytes)
    (challenge : Challenge) :
    challengeLoopIn behind turns challenge cur = some (challengeLoop turns challenge cur) := by
  induction turns generalizing cur challenge with
  | zero => cases cur <;> rfl
  | succ turns ih =>
    cases cur with
    | nil => rfl
    | cons x cur =>
      unfold challengeLoopIn challengeLoop
      cases hw : skipWhitespace (x :: cur) with
      | nil => rfl
      | cons c rest =>
        dsimp only
        split
        · rfl
        next hclose =>
        split
        · next hcomma =>
          subst hcomma
          exact ih (fun hr => h (.comma hw hr)) challenge
        next hcomma =>
        cases hkey : readString (c :: rest) with
        | none => rfl
        | some r =>
          obtain ⟨key, cur1⟩ := r
          dsimp only
          cases hcolon : consume COLON cur1 with
          | none => rfl
          | some cur2 =>
            dsimp only
            have hnumber : key = ascii "id" → touchesEnd (skipWhitespace cur2) = false := by
              rintro rfl
              exact Bool.eq_false_iff.mpr fun hend => h (.here hw ⟨hclose, hcomma⟩ hkey hcolon hend)
            rw [readMemberIn_eq hnumber]
            cases hvalue : readMember key challenge (skipWhitespace cur2) with
            | none => rfl
            | some r =>
              obtain ⟨challenge', cur3⟩ := r
              exact ih (fun hr => h (.later hw ⟨hclose, hcomma⟩ hkey hcolon (readMember_end hvalue)
                hr)) challenge'

/-- a turn of the loop at a member -/
theorem challengeLoopIn_member {behind rest cur1 cur2 key : Bytes} {c : UInt8} {turns : Nat}
    (challenge : Challenge)
    (h : skipWhitespace cur = c :: rest) (hc : c ≠ CLOSE_BRACE ∧ c ≠ COMMA)
    (hkey : readString (c :: rest) = some (key, cur1)) (hcolon : consume COLON cur1 = some cur2) :
    challengeLoopIn behind (turns + 1) challenge cur =
      match readMemberIn behind key challenge (skipWhitespace cur2) with
      | none => none
      | some none => some none
      | some (some (challenge, cur)) => challengeLoopIn behind turns challenge cur := by
  cases cur with
  | nil => cases h
  | cons x cur =>
    rw [challengeLoopIn, h]
    simp only [hc.1, hc.2, if_false, hkey, hcolon]

/-- a number that overruns is read beyond the slice -/
theorem challengeLoopIn_overruns {turns : Nat} (h : Overruns cur) (ht : cur.length ≤ turns)
    (challenge : Challenge) :
    challengeLoopIn [] turns challenge cur = none := by
  induction h generalizing turns challenge with
  | @comma cur rest hw _ ih =>
    have hlen := skipWhitespace_length cur
    rw [hw, List.length_cons] at hlen
    match turns, ht with
    | 0, ht => omega
    | turns + 1, ht =>
      cases cur with
      | nil => cases hw
      | cons x cur =>
        rw [challengeLoopIn, hw]
        simp only [show COMMA ≠ CLOSE_BRACE by decide, if_false, if_true]
        exact ih (by omega) challenge
  | @here cur rest cur1 cur2 c hw hc hkey hcolon hend =>
    have hlen := skipWhitespace_length cur
    rw [hw, List.length_cons] at hlen
    match turns, ht with
    | 0, ht => omega
    | turns + 1, ht =>
      rw [challengeLoopIn_member challenge hw hc hkey hcolon, readMemberIn, if_pos rfl,
        parseJsonIntIn_nil hend]
      rfl
  | @later cur rest cur1 cur2 cur3 key c hw hc hkey hcolon hvalue _ ih =>
    have hlen := skipWhitespace_length cur
    have h1 := readString_length hkey
    have h2 := consume_length hcolon
    have h3 := skipWhitespace_length cur2
    have h4 := memberEnd_length hvalue
    rw [hw] at hlen
    match turns, ht with
    | 0, ht =>
      rw [List.length_cons] at hlen
      omega
    | turns + 1, ht =>
      rw [challengeLoopIn_member challenge hw hc hkey hcolon]
      by_cases hnumber : key = ascii "id" → touchesEnd (skipWhitespace cur2) = false
      · obtain ⟨challenge', hread⟩ := memberEnd_read hvalue challenge
        rw [readMemberIn_eq hnumber, hread]
        exact ih (by omega) challenge'
      · rw [Classical.not_imp] at hnumber
        rw [readMemberIn, if_pos hnumber.1, parseJsonIntIn_nil (Bool.not_eq_false _ ▸ hnumber.2)]
        rfl

/-- a NUL behind the slice stops every number -/
theorem parseJsonIntIn_nul (str : Bytes) : ∃ r, parseJsonIntIn [0] str = some r := by
  unfold parseJsonIntIn
  rw [if_neg (by rw [touchesEnd_nul]; decide)]
  repeat' split
  all_goals exact ⟨_, rfl⟩

theorem challengeLoopIn_nul (turns : Nat) (challenge : Challenge) (cur : Bytes) :
    ∃ r, challengeLoopIn [0] turns challenge cur = some r := by
  induction turns generalizing challenge cur with
  | zero => cases cur <;> exact ⟨_, rfl⟩
  | succ turns ih =>
    cases cur with
    | nil => exact ⟨_, rfl⟩
    | cons x cur =>
      unfold challengeLoopIn
      have hmember : ∀ key cur, ∃ r, readMemberIn [0] key challenge cur = some r := by
        intro key cur
        unfold readMemberIn
        split
        · obtain ⟨r, hr⟩ := parseJsonIntIn_nul cur
          rw [hr]
          exact ⟨_, rfl⟩
        · exact ⟨_, rfl⟩
      repeat' split
      all_goals first
        | exact ⟨_, rfl⟩
        | exact ih _ _
        | next hnone =>
          obtain ⟨r, hr⟩ := hmember _ _
          rw [hr] at hnone
          cases hnone

end

/-! ## the slice of an object -/

/-- a number under `id` of the object that the slice starts with runs up to the end of the slice -/
def ObjectOverruns (json : Bytes) : Prop := ∃ cur, consume OPEN_BRACE json = some cur ∧ Overruns cur

section
variable {json : Bytes}

theorem jsonToChallengeIn_eq (h : ¬ ObjectOverruns json) (behind : Bytes) :
    jsonToChallengeIn behind json = some (jsonToChallenge json) := by
  unfold jsonToChallengeIn jsonToChallenge
  cases hopen : consume OPEN_BRACE json with
  | none => rfl
  | some cur => exact challengeLoopIn_eq (fun hr => h ⟨cur, hopen, hr⟩) behind .zero

theorem jsonToChallengeIn_overruns (h : ObjectOverruns json) :
    jsonToChallengeIn [] json = none := by
  obtain ⟨cur, hopen, hr⟩ := h
  unfold jsonToChallengeIn
  rw [hopen]
  exact challengeLoopIn_overruns hr (Nat.le_succ _) .zero

theorem jsonToChallengeIn_nul (json : Bytes) : ∃ r, jsonToChallengeIn [0] json = some r := by
  unfold jsonToChallengeIn
  split
  · exact ⟨_, rfl⟩
  · exact challengeLoopIn_nul _ _ _

/-- **the result depends on the slice alone exactly when no number overruns** -/
theorem jsonToChallenge_slice_iff :
    (∀ behind behind', jsonToChallengeIn behind json = jsonToChallengeIn behind' json) ↔
    ¬ ObjectOverruns json := by
  constructor
  · intro h hover
    obtain ⟨r, hr⟩ := jsonToChallengeIn_nul json
    rw [h [0] [], jsonToChallengeIn_overruns hover] at hr
    cases hr
  · intro h behind behind'
    rw [jsonToChallengeIn_eq h, jsonToChallengeIn_eq h]

end

/-! ## lists -/

/-- a number under `id` of an element that is reached runs up to the end of the slice -/
inductive ElementOverruns : Bytes → Prop where
  | comma {cur rest : Bytes} (h : skipWhitespace cur = COMMA :: rest) (hrest : ElementOverruns rest)
      : ElementOverruns cur
  | here {cur rest : Bytes} {c : UInt8} (h : skipWhitespace cur = c :: rest)
      (hc : c ≠ CLOSE_BRACKET ∧ c ≠ COMMA)
      (hover : ObjectOverruns (c :: rest)) : ElementOverruns cur
  | later {cur rest cur' : Bytes} {c : UInt8} {challenge : Challenge}
      (h : skipWhitespace cur = c :: rest)
      (hc : c ≠ CLOSE_BRACKET ∧ c ≠ COMMA) (hread : jsonToChallenge (c :: rest) = some challenge)
      (hskip : skipJsonValue (c :: rest) = some cur')
      (hrest : ElementOverruns cur') : ElementOverruns cur

/-- a number under `id` in the list that the slice starts with runs up to the end of the slice -/
def ListOverruns (json : Bytes) : Prop :=
  ∃ cur, consume OPEN_BRACKET json = some cur ∧ ElementOverruns cur

section
variable {json cur : Bytes} {mem : Nat → Bool} {turns capacity : Nat}
  {read challenges : List Challenge}

theorem isSpace_of_skipped {c : UInt8} {rest : Bytes} (hw : skipWhitespace cur = c :: rest) :
    isSpace c = false := by
  obtain ⟨-, -, -, hhead⟩ := skipWhitespace_split cur
  rw [hw] at hhead
  exact hhead c rfl

/-- an element that is read is an object, and is passed over as one -/
theorem element_shorter {c : UInt8} {rest cur' : Bytes} {challenge : Challenge}
    (hw : skipWhitespace cur = c :: rest)
    (hread : jsonToChallenge (c :: rest) = some challenge)
    (hskip : skipJsonValue (c :: rest) = some cur') :
    cur'.length ≤ rest.length := by
  have hspace := isSpace_of_skipped hw
  obtain ⟨body, hopen⟩ : ∃ body, consume OPEN_BRACE (c :: rest) = some body := by
    unfold jsonToChallenge at hread
    split at hread
    · cases hread
    · next body hopen => exact ⟨body, hopen⟩
  unfold consume at hopen
  rw [skipWhitespace_head hspace] at hopen
  dsimp only at hopen
  split at hopen
  · next hc =>
    subst hc
    unfold skipJsonValue at hskip
    rw [skipWhitespace_head hspace] at hskip
    dsimp only at hskip
    rw [if_neg (by decide), if_pos rfl] at hskip
    exact skipNested_length hskip
  · cases hopen

theorem listLoopIn_eq (h : ¬ ElementOverruns cur) (behind : Bytes) :
    listLoopIn behind mem turns capacity read cur =
    some (listLoop mem turns capacity read cur) := by
  induction turns generalizing capacity read cur with
  | zero => cases cur <;> rfl
  | succ turns ih =>
    cases cur with
    | nil => rfl
    | cons x cur =>
      unfold listLoopIn listLoop
      cases hw : skipWhitespace (x :: cur) with
      | nil => rfl
      | cons c rest =>
        dsimp only
        split
        · rfl
        next hclose =>
        split
        · next hcomma =>
          subst hcomma
          exact ih fun hr => h (.comma hw hr)
        next hcomma =>
        cases grow mem capacity read.length with
        | none => rfl
        | some capacity' =>
          dsimp only
          rw [jsonToChallengeIn_eq fun hover => h (.here hw ⟨hclose, hcomma⟩ hover)]
          cases hread : jsonToChallenge (c :: rest) with
          | none => rfl
          | some challenge =>
            dsimp only
            cases hskip : skipJsonValue (c :: rest) with
            | none => rfl
            | some cur' => exact ih fun hr => h (.later hw ⟨hclose, hcomma⟩ hread hskip hr)

/-- a turn of the loop at an element, where memory suffices -/
theorem listLoopIn_element {behind rest : Bytes} {c : UInt8} (hw : skipWhitespace cur = c :: rest)
    (hc : c ≠ CLOSE_BRACKET ∧ c ≠ COMMA) :
    ∃ capacity', listLoopIn behind (fun _ => true) (turns + 1) capacity read cur =
      match jsonToChallengeIn behind (c :: rest) with
      | none => none
      | some none => some none
      | some (some challenge) =>
        match skipJsonValue (c :: rest) with
        | none => some none
        | some cur =>
          listLoopIn behind (fun _ => true) turns capacity' (read ++ [challenge]) cur := by
  have hgrow : ∃ capacity', grow (fun _ => true) capacity read.length = some capacity' := by
    unfold grow
    split
    · exact ⟨_, rfl⟩
    · exact ⟨_, rfl⟩
  obtain ⟨capacity', hcapacity⟩ := hgrow
  refine ⟨capacity', ?_⟩
  cases cur with
  | nil => cases hw
  | cons x cur =>
    rw [listLoopIn, hw]
    simp only [hc.1, hc.2, if_false, hcapacity]

theorem listLoopIn_overruns (h : ElementOverruns cur) (ht : cur.length ≤ turns) :
    listLoopIn [] (fun _ => true) turns capacity read cur = none := by
  induction h generalizing turns capacity read with
  | @comma cur rest hw _ ih =>
    have hlen := skipWhitespace_length cur
    rw [hw, List.length_cons] at hlen
    match turns, cur, ht with
    | 0, cur, ht => omega
    | turns + 1, [], ht => cases hw
    | turns + 1, x :: cur, ht =>
      rw [listLoopIn, hw]
      simp only [show COMMA ≠ CLOSE_BRACKET by decide, if_false, if_true]
      exact ih (by omega)
  | @here cur rest c hw hc hover =>
    have hlen := skipWhitespace_length cur
    rw [hw, List.length_cons] at hlen
    match turns, ht with
    | 0, ht => omega
    | turns + 1, ht =>
      obtain ⟨capacity', hturn⟩ := listLoopIn_element hw hc
      rw [hturn, jsonToChallengeIn_overruns hover]
  | @later cur rest cur' c challenge hw hc hread hskip _ ih =>
    have hlen := skipWhitespace_length cur
    have hshort := element_shorter hw hread hskip
    rw [hw, List.length_cons] at hlen
    match turns, ht with
    | 0, ht => omega
    | turns + 1, ht =>
      obtain ⟨capacity', hturn⟩ := listLoopIn_element hw hc
      rw [hturn]
      by_cases hover : ObjectOverruns (c :: rest)
      · rw [jsonToChallengeIn_overruns hover]
      · rw [jsonToChallengeIn_eq hover, hread]
        dsimp only
        rw [hskip]
        exact ih (by omega)

theorem listLoopIn_nul (mem : Nat → Bool) (turns capacity : Nat) (read : List Challenge)
    (cur : Bytes) :
    ∃ r, listLoopIn [0] mem turns capacity read cur = some r := by
  induction turns generalizing capacity read cur with
  | zero => cases cur <;> exact ⟨_, rfl⟩
  | succ turns ih =>
    cases cur with
    | nil => exact ⟨_, rfl⟩
    | cons x cur =>
      unfold listLoopIn
      repeat' split
      all_goals first
        | exact ⟨_, rfl⟩
        | exact ih _ _ _
        | next hnone =>
          obtain ⟨r, hr⟩ := jsonToChallengeIn_nul _
          rw [hr] at hnone
          cases hnone

theorem jsonToChallengesIn_eq (h : ¬ ListOverruns json) (behind : Bytes) (mem : Nat → Bool) :
    jsonToChallengesIn behind mem json = some (jsonToChallenges mem json) := by
  unfold jsonToChallengesIn jsonToChallenges
  cases hopen : consume OPEN_BRACKET json with
  | none => rfl
  | some cur =>
    dsimp only
    split
    · exact listLoopIn_eq (fun hr => h ⟨cur, hopen, hr⟩) behind
    · rfl

/-- **the outputs depend on the slice alone exactly when no number overruns** -/
theorem jsonToChallenges_slice_iff :
    (∀ mem behind behind', jsonToChallengesIn behind mem json = jsonToChallengesIn behind' mem json)
    ↔
      ¬ ListOverruns json := by
  constructor
  · rintro h ⟨cur, hopen, hover⟩
    have hnil : jsonToChallengesIn [] (fun _ => true) json = none := by
      unfold jsonToChallengesIn
      rw [hopen]
      exact listLoopIn_overruns hover (Nat.le_succ _)
    have hnul : ∃ r, jsonToChallengesIn [0] (fun _ => true) json = some r := by
      unfold jsonToChallengesIn
      rw [hopen]
      exact listLoopIn_nul _ _ _ _ _
    obtain ⟨r, hr⟩ := hnul
    rw [h (fun _ => true) [0] [], hnil] at hr
    cases hr
  · intro h mem behind behind'
    rw [jsonToChallengesIn_eq h, jsonToChallengesIn_eq h]

end

end App

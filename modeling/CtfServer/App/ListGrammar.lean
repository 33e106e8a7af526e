import CtfServer.App.ListSlice
import CtfServer.Json.Unambiguous

/-!
# What the reader of lists takes

`json_to_challenge` and `json_to_challenges` get to the end of more texts than the objects and the
arrays of JSON.

* `Reading`, `ListReading`   the ways through the two loops, with the defects met on them;
* `StartsWithObject`, `StartsWithArray`   what the slice should start with;
* `Reading.object`           a way without defects goes through an object of JSON, and has its id;
* `Reading.clean`            through an object of JSON there is no other way, where the values that
                             are passed over are taken as JSON has them;
* `list_reader_respects`     **the readers respect the slice and JSON where no defect is met**.
-/

set_option linter.unusedVariables false
set_option linter.unusedSimpArgs false

namespace App

open Json

/-! ## numbers and values as they are written -/

/-- the text of an integer -/
def IntWritten (v : Bytes) (n : Int) : Prop :=
  (∃ k : Nat, v = Decimal.digits k ∧ n = k) ∨ ∃ k : Nat, v = 45 :: Decimal.digits k ∧ n = -k

/-- a value of JSON, as deep as it may be -/
def AnyValue (v : Bytes) : Prop := ∃ depth, Value (fun _ => True) depth v

/-- a member with this value leaves the id at `n'` -/
def SetsId (key v : Bytes) (n n' : Int) : Prop :=
  if key = ascii "id" then IntWritten v n' else n' = n

/-- an `int` has this value -/
def IsInt (n : Int) : Prop := INT_MIN ≤ n ∧ n ≤ INT_MAX

instance (n : Int) : Decidable (IsInt n) := inferInstanceAs (Decidable (_ ∧ _))

/-- the limits of `long` -/
def clampLong (n : Int) : Int := max LONG_MIN (min LONG_MAX n)

theorem toInt_clampLong {n : Int} (h : IsInt n) : toInt (clampLong n) = n := by
  unfold IsInt INT_MIN INT_MAX at h
  have hclamp : clampLong n = n := by
    unfold clampLong LONG_MIN LONG_MAX
    omega
  rw [hclamp]
  exact Int.bmod_eq_of_le (by omega) (by omega)

theorem toInt_isInt (n : Int) : IsInt (toInt n) := by
  have hlow := Int.le_bmod (x := n) (m := 2^32) (by decide)
  have hhigh := Int.bmod_lt (x := n) (m := 2^32) (by decide)
  unfold IsInt INT_MIN INT_MAX toInt
  omega

theorem IntWritten.unique {v : Bytes} {n m : Int} (h : IntWritten v n) (h' : IntWritten v m) :
    n = m := by
  have hdigits : ∀ {k l : Nat}, Decimal.digits k = Decimal.digits l → k = l := by
    intro k l he
    rw [← Decimal.value_digits k, he, Decimal.value_digits]
  have hsign : ∀ {k l : Nat}, Decimal.digits k ≠ 45 :: Decimal.digits l := by
    intro k l he
    have hdigit := Decimal.digits_isDigit k 45 (by rw [he]; exact List.mem_cons_self)
    exact absurd hdigit (by decide)
  rcases h with ⟨k, rfl, rfl⟩ | ⟨k, rfl, rfl⟩ <;> rcases h' with ⟨l, he, rfl⟩ | ⟨l, he, rfl⟩
  · rw [hdigits he]
  · exact absurd he hsign
  · exact absurd he.symm hsign
  · rw [hdigits (List.cons.inj he).2]

/-- `strtol` reads such a text to its end, within the limits of `long` -/
theorem IntWritten.read {v r : Bytes} {n : Int} (h : IntWritten v n)
    (hr : ∀ c ∈ r.head?, Decimal.isDigit c = false) :
    strtolEnd (v ++ r) = some r ∧ strtol (v ++ r) = clampLong n := by
  rcases h with ⟨k, rfl, rfl⟩ | ⟨k, rfl, rfl⟩
  · refine ⟨strtolEnd_numeral k hr, ?_⟩
    rw [strtol_numeral k hr]
    unfold clampLong LONG_MIN LONG_MAX
    omega
  · have hspace : ¬ isSpaceC 45 = true := by decide
    refine ⟨?_, ?_⟩
    · unfold strtolEnd
      rw [List.cons_append, List.dropWhile_cons_of_neg hspace]
      exact readDigits_numeral k hr
    · unfold strtol
      rw [List.cons_append, List.dropWhile_cons_of_neg hspace]
      simp only [if_true, takeWhile_numeral k hr, Decimal.value_digits]
      unfold clampLong LONG_MIN LONG_MAX
      omega

theorem readDigits_stops {str rest : Bytes} (h : readDigits str = some rest) :
    ∀ c ∈ rest.head?, Decimal.isDigit c = false := by
  have hrest : rest = skipDigits str := by
    unfold readDigits at h
    split at h
    · cases h
    · exact (Option.some.inj h).symm
  intro c hc
  have hnot := List.head?_dropWhile_not Decimal.isDigit str
  rw [hrest] at hc
  unfold skipDigits at hc
  rw [Option.mem_def.mp hc] at hnot
  simpa using hnot

/-- no digit stands where `strtol` stops -/
theorem strtolEnd_stops {str rest : Bytes} (h : strtolEnd str = some rest) :
    ∀ c ∈ rest.head?, Decimal.isDigit c = false := by
  unfold strtolEnd at h
  split at h
  · cases h
  · exact readDigits_stops h

theorem SetsId.unique {key v : Bytes} {n m m' : Int} (h : SetsId key v n m) (h' : SetsId key v n m')
    : m = m' := by
  unfold SetsId at h h'
  split at h
  · next hkey =>
    rw [if_pos hkey] at h'
    exact h.unique h'
  · next hkey =>
    rw [if_neg hkey] at h'
    rw [h, h']

theorem anyValue_opens : Opens AnyValue := fun v ⟨depth, hv⟩ => hv.head

/-- what may stand behind a number -/
theorem stops_behind {w r : Bytes} {c : UInt8} (hw : Ws w) (hc : c = 0x22 ∨ c = 0x2c ∨ c = 0x7d) :
    Stops (w ++ c :: r) := by
  have hquote : Stops (0x22 :: r) := by
    intro x hx
    cases hx
    exact ⟨by unfold Digit; decide, by decide, by decide, by decide⟩
  cases w with
  | nil =>
    rcases hc with rfl | rfl | rfl
    · exact hquote
    · exact stops_cons (.inl rfl) r
    · exact stops_cons (.inr (.inr (.inl rfl))) r
  | cons x w => exact stops_cons (.inr (.inr (.inr ((ws_iff _).mp hw x List.mem_cons_self)))) _

/-! ## the ways through the loop over the members -/

/-- what stands in front of the cursor -/
inductive Sep where
  | opening | member | comma
  deriving DecidableEq, Repr

/-- what the readers take and JSON has no rule for -/
inductive Defect where
  /-- the slice ends in place of the closing bracket -/
  | unclosed
  /-- a comma that does not stand between two -/
  | comma
  | missingComma
  /-- under `id` stands no integer -/
  | number
  /-- the integer is no `int` -/
  | range
  /-- what is passed over is no value -/
  | skipped
  /-- an element does not end where it is passed over -/
  | brackets
  deriving DecidableEq, Repr

/-- the value between `cur` and `cur3` is one of JSON, and the number under `id` goes from `n` to
`n'` -/
def WellWritten (key cur cur3 : Bytes) (n n' : Int) : Prop :=
  ∃ v, cur = v ++ cur3 ∧ AnyValue v ∧ SetsId key v n n'

/-- at the end the last number under `id` is an `int` -/
def rangeDefect (n : Int) : List Defect := if IsInt n then [] else [.range]

/-- the loop goes from the last number under `id`, a challenge and a text to its end, with a
challenge, the text behind, and the defects on its way -/
inductive Reading : Sep → Int → Challenge → Bytes → Challenge → Bytes → List Defect → Prop where
  | ended {sep : Sep} {n : Int} {challenge : Challenge} :
      Reading sep n challenge [] challenge [] (.unclosed :: rangeDefect n)
  | closed {sep : Sep} {n : Int} {challenge : Challenge} {cur rest : Bytes}
      (h : skipWhitespace cur = CLOSE_BRACE :: rest) :
      Reading sep n challenge cur challenge rest ((if sep = .comma then [.comma] else []) ++
        rangeDefect n)
  | comma {sep : Sep} {n : Int} {challenge challenge' : Challenge} {cur rest out : Bytes}
      {ds : List Defect}
      (h : skipWhitespace cur = COMMA :: rest)
      (hrest : Reading .comma n challenge rest challenge' out ds) :
      Reading sep n challenge cur challenge' out ((if sep = .member then [] else [.comma]) ++ ds)
  | member {sep : Sep} {n n1 : Int} {challenge challenge1 challenge' : Challenge}
      {cur rest cur1 cur2 cur3 key out : Bytes}
      {c : UInt8} {vs ds : List Defect} (h : skipWhitespace cur = c :: rest)
      (hc : c ≠ CLOSE_BRACE ∧ c ≠ COMMA)
      (hkey : readString (c :: rest) = some (key, cur1)) (hcolon : consume COLON cur1 = some cur2)
      (hvalue : readMember key challenge (skipWhitespace cur2) = some (challenge1, cur3))
      (hvs : (vs = [] ∧ WellWritten key (skipWhitespace cur2) cur3 n n1) ∨
        (vs = [if key = ascii "id" then .number else .skipped] ∧ ∀ m, ¬ WellWritten key
          (skipWhitespace cur2) cur3 n m))
      (hrest : Reading .member n1 challenge1 cur3 challenge' out ds) :
      Reading sep n challenge cur challenge' out
        ((if sep = .member then [.missingComma] else []) ++ (vs ++ ds))

section
variable {sep : Sep} {n : Int} {challenge challenge' : Challenge} {cur out : Bytes}
  {ds : List Defect} {turns : Nat}

/-- **a loop that ends well is a reading** -/
theorem challengeLoop_reading (h : challengeLoop turns challenge cur = some challenge')
    (sep : Sep) (n : Int) :
    ∃ out ds, Reading sep n challenge cur challenge' out ds := by
  induction turns generalizing cur challenge sep n with
  | zero =>
    cases cur with
    | nil =>
      cases h
      exact ⟨_, _, .ended⟩
    | cons x cur => cases h
  | succ turns ih =>
    cases cur with
    | nil =>
      cases h
      exact ⟨_, _, .ended⟩
    | cons x cur =>
      unfold challengeLoop at h
      split at h
      · cases h
      next c rest hw =>
      split at h
      · next hclose =>
        subst hclose
        cases h
        exact ⟨_, _, .closed hw⟩
      next hclose =>
      split at h
      · next hcomma =>
        subst hcomma
        obtain ⟨out, ds, hr⟩ := ih h .comma n
        exact ⟨_, _, .comma hw hr⟩
      next hcomma =>
      split at h
      · cases h
      next key cur1 hkey =>
      split at h
      · cases h
      next cur2 hcolon =>
      split at h
      · cases h
      next challenge1 cur3 hvalue =>
      by_cases hwell : ∃ m, WellWritten key (skipWhitespace cur2) cur3 n m
      · obtain ⟨m, hm⟩ := hwell
        obtain ⟨out, ds, hr⟩ := ih h .member m
        exact ⟨_, _, .member hw ⟨hclose, hcomma⟩ hkey hcolon hvalue (.inl ⟨rfl, hm⟩) hr⟩
      · obtain ⟨out, ds, hr⟩ := ih h .member n
        exact ⟨_, _, .member hw ⟨hclose, hcomma⟩ hkey hcolon hvalue
          (.inr ⟨rfl, not_exists.mp hwell⟩) hr⟩

/-- a reading is a loop that ends well -/
theorem Reading.loop (h : Reading sep n challenge cur challenge' out ds) (ht : cur.length ≤ turns) :
    challengeLoop turns challenge cur = some challenge' := by
  induction h generalizing turns with
  | ended => cases turns <;> rfl
  | @closed sep n challenge cur rest hw =>
    have hlen := skipWhitespace_length cur
    rw [hw, List.length_cons] at hlen
    cases turns with
    | zero => omega
    | succ turns =>
      cases cur with
      | nil => cases hw
      | cons x cur =>
        rw [challengeLoop, hw]
        exact if_pos rfl
  | @comma sep n challenge challenge' cur rest out ds hw _ ih =>
    have hlen := skipWhitespace_length cur
    rw [hw, List.length_cons] at hlen
    cases turns with
    | zero => omega
    | succ turns =>
      cases cur with
      | nil => cases hw
      | cons x cur =>
        rw [challengeLoop, hw]
        simp only [show COMMA ≠ CLOSE_BRACE by decide, if_false, if_true]
        exact ih (by omega)
  | @member sep n n1 challenge challenge1 challenge' cur rest cur1 cur2 cur3 key out c vs ds hw hc
      hkey hcolon hvalue hvs _ ih =>
    have hlen := skipWhitespace_length cur
    have h1 := readString_length hkey
    have h2 := consume_length hcolon
    have h3 := skipWhitespace_length cur2
    have h4 := memberEnd_length (readMember_end hvalue)
    rw [hw] at hlen
    cases turns with
    | zero =>
      rw [List.length_cons] at hlen
      omega
    | succ turns =>
      cases cur with
      | nil => cases hw
      | cons x cur =>
        rw [challengeLoop, hw]
        simp only [hc.1, hc.2, if_false, hkey, hcolon, hvalue]
        exact ih (by omega)

end

/-- the slice starts with what `json_to_challenge` takes for an object -/
def ObjectReading (json : Bytes) (challenge : Challenge) (out : Bytes) (ds : List Defect) : Prop :=
  ∃ cur, consume OPEN_BRACE json = some cur ∧ Reading .opening 0 .zero cur challenge out ds

theorem jsonToChallenge_reading (json : Bytes) (challenge : Challenge) :
    jsonToChallenge json = some challenge ↔ ∃ out ds, ObjectReading json challenge out ds := by
  unfold jsonToChallenge ObjectReading
  constructor
  · intro h
    split at h
    · cases h
    next cur hopen =>
    obtain ⟨out, ds, hr⟩ := challengeLoop_reading h .opening 0
    exact ⟨out, ds, cur, hopen, hr⟩
  · rintro ⟨out, ds, cur, hopen, hr⟩
    rw [hopen]
    exact hr.loop (Nat.le_succ _)

/-! ## the members of an object of JSON -/

/-- the rest of a list in brackets: `none` of its items, or `some` of them -/
def After (none : Prop) (some : Bytes → Prop) : Sep → Bytes → Prop
  | .opening, text => (none ∧ Ws text) ∨ some text
  | .comma, text => some text
  | .member, text => (none ∧ Ws text) ∨ ∃ w text', Ws w ∧ some text' ∧ text = w ++ 0x2c :: text'

/-- an object of JSON, and the number that its last member `id` has, or 0 -/
def ChallengeObject (v : Bytes) (id : Int) : Prop :=
  ∃ ps ms, ObjectBody AnyValue ps ms ∧ Steps SetsId ps 0 id ∧ v = 0x7b :: (ms ++ [0x7d])

/-- behind whitespace stands a whole object with this id -/
def StartsWithObject (json : Bytes) (id : Int) : Prop :=
  ∃ w v rest, Ws w ∧ ChallengeObject v id ∧ json = w ++ (v ++ rest)

section
variable {sep : Sep} {n : Int} {challenge challenge' : Challenge} {cur out : Bytes}
  {ds : List Defect}

/-- the text of a member in front of the whitespace behind it -/
theorem member_text {rest cur1 cur2 cur3 key v : Bytes} {c : UInt8}
    (h : skipWhitespace cur = c :: rest)
    (hkey : readString (c :: rest) = some (key, cur1)) (hcolon : consume COLON cur1 = some cur2)
    (hvalue : skipWhitespace cur2 = v ++ cur3) (hv : AnyValue v) :
    ∃ m, cur = m ++ cur3 ∧ ∀ w, Ws w → Member AnyValue (key, v) (m ++ w) := by
  rw [← h, readString_skip] at hkey
  obtain ⟨w1, hw1, hchars, rfl⟩ := readString_split hkey
  obtain ⟨w2, hw2, rfl⟩ := consume_split hcolon
  obtain ⟨w3, hw3, hcur2, -⟩ := skipWhitespace_split cur2
  rw [hvalue] at hcur2
  refine ⟨w1 ++ 0x22 :: (key ++ 0x22 :: (w2 ++ 0x3a :: (w3 ++ v))), ?_, fun w hw => ?_⟩
  · rw [hcur2]
    simp [COLON]
  · have hm : Member AnyValue (key, v)
      (w1 ++ 0x22 :: (key ++ 0x22 :: (w2 ++ 0x3a :: (w3 ++ (v ++ w))))) :=
      .mk hw1 hchars hw2 hw3 hv hw
    simpa using hm

/-- the number that is read under `id` -/
theorem readMember_id {key cur3 : Bytes} {n1 : Int} {challenge1 : Challenge}
    (h : readMember key challenge cur = some (challenge1, cur3))
    (hwell : WellWritten key cur cur3 n n1)
    (hid : challenge.id = toInt (clampLong n)) : challenge1.id = toInt (clampLong n1) := by
  obtain ⟨v, rfl, -, hsets⟩ := hwell
  have hend := readMember_end h
  unfold readMember at h
  unfold SetsId at hsets
  unfold memberEnd at hend
  by_cases hkey : key = ascii "id"
  · rw [if_pos hkey] at h hsets hend
    obtain ⟨r, hr, he⟩ := Option.map_eq_some_iff.mp h
    obtain ⟨rest, -, rfl⟩ := Option.map_eq_some_iff.mp hr
    cases he
    rw [(hsets.read (strtolEnd_stops hend)).2]
  · rw [if_neg hkey] at h hsets
    rw [hsets, ← hid]
    repeat' split at h
    all_goals
      obtain ⟨r, -, he⟩ := Option.map_eq_some_iff.mp h
      cases he
      rfl

/-- **a way without defects has gone through the members of an object of JSON, and has its id** -/
theorem Reading.object (h : Reading sep n challenge cur challenge' out ds) (hds : ds = [])
    (hid : challenge.id = toInt (clampLong n)) :
    ∃ ps ms, cur = ms ++ 0x7d :: out ∧ After (ps = []) (Members AnyValue ps) sep ms ∧
      Steps SetsId ps n challenge'.id := by
  induction h with
  | ended => cases hds
  | @closed sep n challenge cur rest hw =>
    obtain ⟨hsep, hrange⟩ := List.append_eq_nil_iff.mp hds
    obtain ⟨ms, hms, hcur, -⟩ := skipWhitespace_split cur
    rw [hw] at hcur
    have hint : IsInt n := by
      by_contra hn
      rw [rangeDefect, if_neg hn] at hrange
      cases hrange
    rw [toInt_clampLong hint] at hid
    refine ⟨[], ms, hcur, ?_, ?_⟩
    · cases sep with
      | opening => exact .inl ⟨rfl, hms⟩
      | member => exact .inl ⟨rfl, hms⟩
      | comma => cases hsep
    · rw [hid]
      exact .nil
  | @comma sep n challenge challenge' cur rest out ds hw _ ih =>
    obtain ⟨hsep, hds⟩ := List.append_eq_nil_iff.mp hds
    obtain ⟨ps, ms, rfl, hafter, hsteps⟩ := ih hds hid
    obtain ⟨w, hspace, hcur, -⟩ := skipWhitespace_split cur
    rw [hw] at hcur
    refine ⟨ps, w ++ 0x2c :: ms, by simpa [COMMA] using hcur, ?_, hsteps⟩
    cases sep with
    | opening => cases hsep
    | member => exact .inr ⟨w, ms, hspace, hafter, rfl⟩
    | comma => cases hsep
  | @member sep n n1 challenge challenge1 challenge' cur rest cur1 cur2 cur3 key out c vs ds hw hc
      hkey hcolon hvalue hvs _ ih =>
    obtain ⟨hsep, hds⟩ := List.append_eq_nil_iff.mp hds
    obtain ⟨rfl, hds⟩ := List.append_eq_nil_iff.mp hds
    rcases hvs with ⟨-, hwell⟩ | ⟨hvs, -⟩
    swap
    · cases hvs
    obtain ⟨ps, ms, rfl, hafter, hsteps⟩ := ih hds (readMember_id hvalue hwell hid)
    obtain ⟨v, hv, hany, hsets⟩ := hwell
    obtain ⟨m, rfl, hm⟩ := member_text hw hkey hcolon hv hany
    -- what stands behind the value: the end of the object, or a comma and a member
    have hmembers : Members AnyValue ((key, v) :: ps) (m ++ ms) := by
      rcases hafter with ⟨rfl, hws⟩ | ⟨w, text, hws, htext, rfl⟩
      · exact .one (hm ms hws)
      · have hmore := Members.more (hm w hws) htext
        simpa using hmore
    refine ⟨(key, v) :: ps, m ++ ms, by simp, ?_, .cons hsets hsteps⟩
    cases sep with
    | opening => exact .inr hmembers
    | member => cases hsep
    | comma => exact hmembers

end

/-! ## no other way through an object of JSON -/

section
variable {sep : Sep} {n : Int} {challenge challenge' : Challenge} {cur out : Bytes}
  {ds : List Defect}

theorem skipWhitespace_members {V : Bytes → Prop} {ps : List (Bytes × Bytes)} {ms : Bytes}
    (h : Members V ps ms) (r : Bytes) :
    ∃ t, skipWhitespace (ms ++ r) = 0x22 :: t := by
  obtain ⟨w, t, hw, rfl⟩ := h.head
  refine ⟨t ++ r, ?_⟩
  rw [List.append_assoc, skipWhitespace_ws hw]
  exact skipWhitespace_head (by decide) _

/-- where the loop goes on behind a value, no number could go on -/
theorem Reading.stops (h : Reading .member n challenge cur challenge' out ds) : Stops cur := by
  obtain ⟨w, hw, hcur, -⟩ := skipWhitespace_split cur
  cases h with
  | ended => exact fun c hc => by cases hc
  | closed h =>
    rw [hcur, h]
    exact stops_behind hw (.inr (.inr rfl))
  | comma h =>
    rw [hcur, h]
    exact stops_behind hw (.inr (.inl rfl))
  | member h hc hkey =>
    rw [← h] at hkey
    obtain ⟨w', hw', -, htext⟩ := readString_split hkey
    rw [hcur, htext, ← List.append_assoc]
    exact stops_behind (hw.append hw') (.inl rfl)

/-- the cursor stands at the end, at a comma or at an item -/
theorem After.place {none : Prop} {some : Bytes → Prop} {text : Bytes}
    (h : After none some sep text) :
    (sep ≠ .comma ∧ none ∧ Ws text) ∨ (sep = .member ∧ ∃ w text', Ws w ∧ some text' ∧
      text = w ++ 0x2c :: text') ∨
      (sep ≠ .member ∧ some text) := by
  cases sep with
  | opening =>
    rcases h with h | h
    · exact .inl ⟨by decide, h⟩
    · exact .inr (.inr ⟨by decide, h⟩)
  | member =>
    rcases h with h | h
    · exact .inl ⟨by decide, h⟩
    · exact .inr (.inl ⟨rfl, h⟩)
  | comma => exact .inr (.inr ⟨by decide, h⟩)

theorem skipWhitespace_byte {w : Bytes} (hw : Ws w) {c : UInt8} (hc : isSpace c = false)
    (r : Bytes) :
    skipWhitespace (w ++ c :: r) = c :: r := by
  rw [skipWhitespace_ws hw, skipWhitespace_head hc]

/-- the first member, and what stands behind its value -/
theorem members_first {V : Bytes → Prop} {ps : List (Bytes × Bytes)} {ms : Bytes}
    (h : Members V ps ms) (r : Bytes) :
    ∃ w1 key w2 w3 v ps' more, ps = (key, v) :: ps' ∧ Ws w1 ∧ Chars key ∧ Ws w2 ∧ Ws w3 ∧ V v ∧
      ms ++ 0x7d :: r = w1 ++ 0x22 ::
      (key ++ 0x22 :: (w2 ++ 0x3a :: (w3 ++ (v ++ (more ++ 0x7d :: r))))) ∧
      After (ps' = []) (Members V ps') .member more ∧ Delimited (more ++ 0x7d :: r) := by
  cases h with
  | one hm =>
    obtain @⟨w1, key, w2, w3, v, w4, hw1, hkey, hw2, hw3, hv, hw4⟩ := hm
    refine ⟨w1, key, w2, w3, v, [], w4, rfl, hw1, hkey, hw2, hw3, hv, by simp, .inl ⟨rfl, hw4⟩, ?_⟩
    exact ⟨w4, 0x7d, r, hw4, .inr (.inr rfl), rfl⟩
  | @more p m ps ms hm hms =>
    obtain @⟨w1, key, w2, w3, v, w4, hw1, hkey, hw2, hw3, hv, hw4⟩ := hm
    refine ⟨w1, key, w2, w3, v, ps, w4 ++ 0x2c :: ms, rfl, hw1, hkey, hw2, hw3, hv, by simp, ?_, ?_⟩
    · exact .inr ⟨w4, ms, hw4, hms, rfl⟩
    · exact ⟨w4, 0x2c, ms ++ 0x7d :: r, hw4, .inl rfl, by simp⟩

/-- the value behind a key, where an object of JSON stands -/
theorem member_end {key v r cur3 : Bytes} {n1 m : Int} {challenge1 : Challenge} {vs : List Defect}
    (hv : AnyValue v)
    (hr : Delimited r) (hsets : SetsId key v n m)
    (hvalue : readMember key challenge (v ++ r) = some (challenge1, cur3)) (hstops : Stops cur3)
    (hvs : (vs = [] ∧ WellWritten key (v ++ r) cur3 n n1) ∨
      (vs = [if key = ascii "id" then .number else .skipped] ∧ ∀ m, ¬ WellWritten key
        (v ++ r) cur3 n m))
    (hskip : Defect.skipped ∉ vs) : vs = [] ∧ n1 = m ∧ cur3 = r := by
  rcases hvs with ⟨rfl, v', he, ⟨depth', hv'⟩, hsets'⟩ | ⟨rfl, hill⟩
  · obtain ⟨depth, hv⟩ := hv
    obtain ⟨rfl, rfl⟩ := hv.unique_stops hv' hr.stops hstops he
    exact ⟨rfl, hsets'.unique hsets, rfl⟩
  · -- what is not as JSON has it is passed over, or is a number that stands there after all
    by_cases hkey : key = ascii "id"
    · have hend := readMember_end hvalue
      unfold SetsId at hsets
      unfold memberEnd at hend
      rw [if_pos hkey] at hsets hend
      have hdigit : ∀ c ∈ r.head?, Decimal.isDigit c = false := by
        intro c hc
        exact Bool.eq_false_iff.mpr fun hd => (hr.stops c hc).1 ((digit_iff c).mpr hd)
      rw [(hsets.read hdigit).1] at hend
      cases hend
      refine absurd ⟨v, rfl, hv, ?_⟩ (hill m)
      unfold SetsId
      rw [if_pos hkey]
      exact hsets
    · rw [if_neg hkey] at hskip
      exact absurd List.mem_cons_self hskip

/-- **through an object of JSON the loop goes without defects, but for the values that are passed
over** -/
theorem Reading.clean {ps : List (Bytes × Bytes)} {ms r : Bytes} {m : Int}
    (h : Reading sep n challenge cur challenge' out ds) (hskip : Defect.skipped ∉ ds)
    (hcur : cur = ms ++ 0x7d :: r)
    (hafter : After (ps = []) (Members AnyValue ps) sep ms) (hsteps : Steps SetsId ps n m) :
    out = r ∧ ds = rangeDefect m := by
  induction h generalizing ps ms with
  | ended => cases ms <;> cases hcur
  | @closed sep n challenge cur rest hw =>
    subst hcur
    rcases hafter.place with ⟨hsep, rfl, hms⟩ | ⟨-, w, text, hws, -, rfl⟩ | ⟨-, hms⟩
    · rw [skipWhitespace_byte hms (by decide)] at hw
      cases hw
      cases hsteps
      rw [if_neg hsep]
      exact ⟨rfl, rfl⟩
    · rw [List.append_assoc, List.cons_append, skipWhitespace_byte hws (by decide)] at hw
      cases hw
    · obtain ⟨t, ht⟩ := skipWhitespace_members hms (0x7d :: r)
      rw [ht] at hw
      cases hw
  | @comma sep n challenge challenge' cur rest out ds hw hrest ih =>
    subst hcur
    rcases hafter.place with ⟨-, -, hms⟩ | ⟨rfl, w, text, hws, htext, rfl⟩ | ⟨-, hms⟩
    · rw [skipWhitespace_byte hms (by decide)] at hw
      cases hw
    · rw [List.append_assoc, List.cons_append, skipWhitespace_byte hws (by decide)] at hw
      cases hw
      exact ih (fun hmem => hskip (List.mem_append_right _ hmem)) rfl htext hsteps
    · obtain ⟨t, ht⟩ := skipWhitespace_members hms (0x7d :: r)
      rw [ht] at hw
      cases hw
  | @member sep n n1 challenge challenge1 challenge' cur rest cur1 cur2 cur3 key out c vs ds hw hc
      hkey hcolon hvalue hvs hrest ih =>
    subst hcur
    rcases hafter.place with ⟨-, -, hms⟩ | ⟨-, w, text, hws, -, rfl⟩ | ⟨hsep, hms⟩
    · rw [skipWhitespace_byte hms (by decide)] at hw
      cases hw
      exact absurd rfl hc.1
    · rw [List.append_assoc, List.cons_append, skipWhitespace_byte hws (by decide)] at hw
      cases hw
      exact absurd rfl hc.2
    · rw [if_neg hsep, List.nil_append] at hskip ⊢
      obtain ⟨w1, key', w2, w3, v, ps', more, rfl, hw1, hchars, hw2, hw3, hv, htext, hmore,
        hdelim⟩ := members_first hms r
      rw [← hw, readString_skip, htext, readString_chars hw1 hchars] at hkey
      cases hkey
      rw [show (0x3a : UInt8) = COLON from rfl, consume_ws (by decide) hw2] at hcolon
      cases hcolon
      have hvalueText : skipWhitespace (w3 ++ (v ++ (more ++ 0x7d :: r))) = v ++
        (more ++ 0x7d :: r) := by
        obtain ⟨x, t, rfl, hx, -⟩ := anyValue_opens v hv
        rw [skipWhitespace_ws hw3]
        exact skipWhitespace_head hx _
      rw [hvalueText] at hvalue hvs
      cases hsteps with
      | @cons _ _ _ _ n2 _ hsets hsteps =>
        obtain ⟨rfl, rfl, rfl⟩ := member_end hv hdelim hsets hvalue hrest.stops hvs
          (fun hmem => hskip (List.mem_append_left _ hmem))
        exact ih hskip rfl hmore hsteps

/-- the id is an `int` -/
theorem Reading.isInt (h : Reading sep n challenge cur challenge' out ds) (hid : IsInt challenge.id)
    : IsInt challenge'.id := by
  induction h with
  | ended => exact hid
  | closed => exact hid
  | comma _ _ ih => exact ih hid
  | member _ _ _ _ hvalue _ _ ih =>
    refine ih ?_
    unfold readMember parseJsonInt at hvalue
    repeat' split at hvalue
    all_goals
      obtain ⟨r, hr, he⟩ := Option.map_eq_some_iff.mp hvalue
      cases he
    · obtain ⟨rest, -, rfl⟩ := Option.map_eq_some_iff.mp hr
      exact toInt_isInt _
    all_goals exact hid

end

section
variable {json out : Bytes} {challenge : Challenge} {ds : List Defect}

theorem ObjectReading.isInt (h : ObjectReading json challenge out ds) : IsInt challenge.id := by
  obtain ⟨cur, -, hr⟩ := h
  exact hr.isInt (by decide)

/-- a way without defects has gone through a whole object -/
theorem ObjectReading.object (h : ObjectReading json challenge out []) :
    ∃ w v, Ws w ∧ ChallengeObject v challenge.id ∧ json = w ++ (v ++ out) := by
  obtain ⟨cur, hopen, hr⟩ := h
  obtain ⟨w, hw, rfl⟩ := consume_split hopen
  obtain ⟨ps, ms, rfl, hbody, hsteps⟩ := hr.object rfl (by decide)
  refine ⟨w, 0x7b :: (ms ++ [0x7d]), hw, ⟨ps, ms, hbody, hsteps, rfl⟩, ?_⟩
  simp [OPEN_BRACE]

/-- through a whole object there is no other way -/
theorem ObjectReading.clean {w v r : Bytes} {id : Int}
    (h : ObjectReading json challenge out ds) (hw : Ws w)
    (hv : ChallengeObject v id) (hjson : json = w ++ (v ++ r)) (hskip : Defect.skipped ∉ ds) :
    out = r ∧ ds = rangeDefect id := by
  obtain ⟨cur, hopen, hr⟩ := h
  obtain ⟨ps, ms, hbody, hsteps, rfl⟩ := hv
  have htext : w ++ (0x7b :: (ms ++ [0x7d]) ++ r) = w ++ OPEN_BRACE ::
    (ms ++ 0x7d :: r) := by simp [OPEN_BRACE]
  rw [hjson, htext, consume_ws (by decide) hw] at hopen
  cases hopen
  exact hr.clean hskip rfl hbody hsteps

end

/-! ## the ways through the loop over the elements -/

/-- the loop over the elements gets to its end, with the defects on its way -/
inductive ListReading : Sep → Bytes → List Challenge → Bytes → List Defect → Prop where
  | ended {sep : Sep} {cur : Bytes} (h : skipWhitespace cur = []) : ListReading sep cur []
      [] [.unclosed]
  | closed {sep : Sep} {cur rest : Bytes} (h : skipWhitespace cur = CLOSE_BRACKET :: rest) :
      ListReading sep cur [] rest (if sep = .comma then [.comma] else [])
  | comma {sep : Sep} {cur rest out : Bytes} {challenges : List Challenge} {ds : List Defect}
      (h : skipWhitespace cur = COMMA :: rest) (hrest : ListReading .comma rest challenges out ds) :
      ListReading sep cur challenges out ((if sep = .member then [] else [.comma]) ++ ds)
  | element {sep : Sep} {cur rest cur' stop out : Bytes} {c : UInt8} {challenge : Challenge}
      {challenges : List Challenge}
      {es bs ds : List Defect} (h : skipWhitespace cur = c :: rest)
      (hc : c ≠ CLOSE_BRACKET ∧ c ≠ COMMA)
      (hread : ObjectReading (c :: rest) challenge stop es)
      (hskip : skipJsonValue (c :: rest) = some cur')
      (hbs : (bs = [] ∧ stop = cur') ∨ (bs = [.brackets] ∧ stop ≠ cur'))
      (hrest : ListReading .member cur' challenges out ds) :
      ListReading sep cur (challenge :: challenges) out
        ((if sep = .member then [.missingComma] else []) ++ (es ++ (bs ++ ds)))

/-- the slice starts with what `json_to_challenges` takes for an array -/
def ArrayReading (json : Bytes) (challenges : List Challenge) (out : Bytes) (ds : List Defect) :
    Prop :=
  ∃ cur, consume OPEN_BRACKET json = some cur ∧ ListReading .opening cur challenges out ds

section
variable {sep : Sep} {json cur out : Bytes} {mem : Nat → Bool} {turns capacity : Nat}
  {read challenges : List Challenge}
  {ds : List Defect}

/-- **a loop over the elements that ends well is a reading** -/
theorem listLoop_reading (h : listLoop mem turns capacity read cur = some challenges) (sep : Sep) :
    ∃ more out ds, challenges = read ++ more ∧ ListReading sep cur more out ds := by
  induction turns generalizing capacity read cur sep with
  | zero =>
    cases cur with
    | nil =>
      cases h
      exact ⟨_, _, _, (List.append_nil _).symm, .ended rfl⟩
    | cons x cur => cases h
  | succ turns ih =>
    cases cur with
    | nil =>
      cases h
      exact ⟨_, _, _, (List.append_nil _).symm, .ended rfl⟩
    | cons x cur =>
      unfold listLoop at h
      split at h
      · next hw =>
        cases h
        exact ⟨_, _, _, (List.append_nil _).symm, .ended hw⟩
      next c rest hw =>
      split at h
      · next hclose =>
        subst hclose
        cases h
        exact ⟨_, _, _, (List.append_nil _).symm, .closed hw⟩
      next hclose =>
      split at h
      · next hcomma =>
        subst hcomma
        obtain ⟨more, out, ds, he, hr⟩ := ih h .comma
        exact ⟨more, out, _, he, .comma hw hr⟩
      next hcomma =>
      split at h
      · cases h
      next capacity' hgrow =>
      split at h
      · cases h
      next challenge hread =>
      split at h
      · cases h
      next cur' hskip =>
      obtain ⟨more, out, ds, he, hr⟩ := ih h .member
      obtain ⟨stop, es, hobject⟩ := (jsonToChallenge_reading _ _).mp hread
      refine ⟨challenge :: more, out, ?_⟩
      rw [he, List.append_assoc, List.singleton_append]
      by_cases hstop : stop = cur'
      · exact ⟨_, rfl, .element hw ⟨hclose, hcomma⟩ hobject hskip (.inl ⟨rfl, hstop⟩) hr⟩
      · exact ⟨_, rfl, .element hw ⟨hclose, hcomma⟩ hobject hskip (.inr ⟨rfl, hstop⟩) hr⟩

/-- a turn of the loop at an element, where memory suffices -/
theorem listLoop_element {rest cur' : Bytes} {c : UInt8} {challenge : Challenge}
    (hw : skipWhitespace cur = c :: rest)
    (hc : c ≠ CLOSE_BRACKET ∧ c ≠ COMMA) (hread : jsonToChallenge (c :: rest) = some challenge)
    (hskip : skipJsonValue (c :: rest) = some cur') :
    ∃ capacity', listLoop (fun _ => true) (turns + 1) capacity read cur =
      listLoop (fun _ => true) turns capacity' (read ++ [challenge]) cur' := by
  have hgrow : ∃ capacity', grow (fun _ => true) capacity read.length = some capacity' := by
    unfold grow
    split
    · exact ⟨_, rfl⟩
    · exact ⟨_, rfl⟩
  obtain ⟨capacity', hcapacity⟩ := hgrow
  refine ⟨capacity', ?_⟩
  cases cur with
  | nil => cases hw
  | cons x cur =>
    rw [listLoop, hw]
    simp only [hc.1, hc.2, if_false, hcapacity, hread, hskip]

/-- a reading is a loop that ends well, where memory suffices -/
theorem ListReading.loop (h : ListReading sep cur challenges out ds) (ht : cur.length ≤ turns) :
    listLoop (fun _ => true) turns capacity read cur = some (read ++ challenges) := by
  induction h generalizing turns capacity read with
  | @ended sep cur hw =>
    rw [List.append_nil]
    cases cur with
    | nil => rw [listLoop]
    | cons x cur =>
      cases turns with
      | zero => cases ht
      | succ turns => rw [listLoop, hw]
  | @closed sep cur rest hw =>
    rw [List.append_nil]
    cases cur with
    | nil => cases hw
    | cons x cur =>
      cases turns with
      | zero => cases ht
      | succ turns =>
        rw [listLoop, hw]
        exact if_pos rfl
  | @comma sep cur rest out challenges ds hw _ ih =>
    have hlen := skipWhitespace_length cur
    rw [hw, List.length_cons] at hlen
    cases turns with
    | zero => omega
    | succ turns =>
      cases cur with
      | nil => cases hw
      | cons x cur =>
        rw [listLoop, hw]
        simp only [show COMMA ≠ CLOSE_BRACKET by decide, if_false, if_true]
        exact ih (by omega)
  | @element sep cur rest cur' stop out c challenge challenges es bs ds hw hc hread
      hskip hbs _ ih =>
    have hlen := skipWhitespace_length cur
    have hobject := (jsonToChallenge_reading _ _).mpr ⟨stop, es, hread⟩
    have hshort := element_shorter hw hobject hskip
    rw [hw, List.length_cons] at hlen
    cases turns with
    | zero => omega
    | succ turns =>
      obtain ⟨capacity', hturn⟩ := listLoop_element hw hc hobject hskip
      rw [hturn, ih (by omega), List.append_assoc, List.singleton_append]

theorem jsonToChallenges_reading (h : jsonToChallenges mem json = some challenges) :
    ∃ out ds, ArrayReading json challenges out ds := by
  unfold jsonToChallenges at h
  split at h
  · cases h
  next cur hopen =>
  split at h
  · obtain ⟨more, out, ds, rfl, hr⟩ := listLoop_reading h .opening
    exact ⟨out, ds, cur, hopen, hr⟩
  · cases h

theorem ArrayReading.taken (h : ArrayReading json challenges out ds) :
    jsonToChallenges (fun _ => true) json = some challenges := by
  obtain ⟨cur, hopen, hr⟩ := h
  unfold jsonToChallenges
  rw [hopen]
  exact hr.loop (Nat.le_succ _)

end

/-! ## the elements of an array of JSON -/

/-- an object as it stands in a list -/
def IsChallenge (v : Bytes) : Prop := ∃ id, ChallengeObject v id

/-- behind whitespace stands a whole array of objects with the ids of these challenges -/
def StartsWithArray (json : Bytes) (challenges : List Challenge) : Prop :=
  ∃ w vs es rest, Ws w ∧ ArrayBody IsChallenge vs es ∧
    List.Forall₂ (fun v challenge => ChallengeObject v challenge.id) vs challenges ∧
    json = w ++ 0x5b :: (es ++ 0x5d :: rest)

section
variable {sep : Sep} {cur out : Bytes} {challenges : List Challenge} {ds : List Defect}

/-- **a way without defects has gone through the elements of an array** -/
theorem ListReading.array (h : ListReading sep cur challenges out ds) (hds : ds = []) :
    ∃ vs es, cur = es ++ 0x5d :: out ∧ After (vs = []) (Elements IsChallenge vs) sep es ∧
      List.Forall₂ (fun v challenge => ChallengeObject v challenge.id) vs challenges := by
  induction h with
  | ended => cases hds
  | @closed sep cur rest hw =>
    obtain ⟨es, hes, hcur, -⟩ := skipWhitespace_split cur
    rw [hw] at hcur
    refine ⟨[], es, hcur, ?_, .nil⟩
    cases sep with
    | opening => exact .inl ⟨rfl, hes⟩
    | member => exact .inl ⟨rfl, hes⟩
    | comma => cases hds
  | @comma sep cur rest out challenges ds hw _ ih =>
    obtain ⟨hsep, hds⟩ := List.append_eq_nil_iff.mp hds
    obtain ⟨vs, es, rfl, hafter, hobjects⟩ := ih hds
    obtain ⟨w, hspace, hcur, -⟩ := skipWhitespace_split cur
    rw [hw] at hcur
    refine ⟨vs, w ++ 0x2c :: es, by simpa [COMMA] using hcur, ?_, hobjects⟩
    cases sep with
    | opening => cases hsep
    | member => exact .inr ⟨w, es, hspace, hafter, rfl⟩
    | comma => cases hsep
  | @element sep cur rest cur' stop out c challenge challenges os bs ds hw hc hread
      hskip hbs _ ih =>
    obtain ⟨hsep, hrest⟩ := List.append_eq_nil_iff.mp hds
    obtain ⟨hos, hmore⟩ := List.append_eq_nil_iff.mp hrest
    obtain ⟨hnone, hlast⟩ := List.append_eq_nil_iff.mp hmore
    subst hos
    rcases hbs with ⟨-, rfl⟩ | ⟨hbs, -⟩
    swap
    · rw [hbs] at hnone
      cases hnone
    obtain ⟨vs, text, rfl, hafter, hobjects⟩ := ih hlast
    obtain ⟨w, hspace, hcur, -⟩ := skipWhitespace_split cur
    obtain ⟨w', v, hspace', hv, htext⟩ := hread.object
    rw [hw, htext] at hcur
    have hws := hspace.append hspace'
    have hchallenge : IsChallenge v := ⟨_, hv⟩
    -- what stands behind the object: the end of the array, or a comma and an element
    have helements : Elements IsChallenge (v :: vs) ((w ++ w') ++ (v ++ text)) := by
      rcases hafter with ⟨rfl, hend⟩ | ⟨w2, more, hw2, hmore, rfl⟩
      · exact .one hws hchallenge hend
      · exact .more hws hchallenge hw2 hmore
    refine ⟨v :: vs, (w ++ w') ++ (v ++ text), by rw [hcur]; simp, ?_, .cons hv hobjects⟩
    cases sep with
    | opening => exact .inr helements
    | member => cases hsep
    | comma => exact helements

/-- the first element, and what stands behind it -/
theorem elements_first {V : Bytes → Prop} {vs : List Bytes} {es : Bytes} (h : Elements V vs es)
    (r : Bytes) :
    ∃ w v vs' more, vs = v :: vs' ∧ Ws w ∧ V v ∧ es ++ 0x5d :: r = w ++ (v ++ (more ++ 0x5d :: r)) ∧
      After (vs' = []) (Elements V vs') .member more := by
  cases h with
  | @one w v w' hw hv hw' => exact ⟨w, v, [], w', rfl, hw, hv, by simp, .inl ⟨rfl, hw'⟩⟩
  | @more w v w' es vs hw hv hw' hes =>
    exact ⟨w, v, vs, w' ++ 0x2c :: es, rfl, hw, hv, by simp, .inr ⟨w', es, hw', hes, rfl⟩⟩

/-- **through an array of JSON the loop goes without defects, but for what is passed over** -/
theorem ListReading.clean {vs : List Bytes} {es r : Bytes}
    (h : ListReading sep cur challenges out ds)
    (hskip : Defect.skipped ∉ ds) (hbrackets : Defect.brackets ∉ ds) (hcur : cur = es ++ 0x5d :: r)
    (hafter : After (vs = []) (Elements IsChallenge vs) sep es)
    (hobjects : List.Forall₂ (fun v challenge => ChallengeObject v challenge.id) vs challenges) :
    out = r ∧ ds = [] := by
  have hfirst : ∀ {vs es}, Elements IsChallenge vs es → ∃ t, skipWhitespace (es ++ 0x5d :: r) =
    0x7b :: t := by
    intro vs es hes
    obtain ⟨w, v, vs', more, rfl, hw, ⟨id, ps, ms, -, -, rfl⟩, htext, -⟩ := elements_first hes r
    refine ⟨ms ++ [0x7d] ++ (more ++ 0x5d :: r), ?_⟩
    rw [htext, List.cons_append, skipWhitespace_byte hw (by decide)]
  induction h generalizing vs es with
  | @ended sep cur hw =>
    have hws := (skipWhitespace_nil_iff _).mp hw
    have hmem := hws 0x5d (by rw [hcur]; simp)
    exact absurd hmem (by decide)
  | @closed sep cur rest hw =>
    subst hcur
    rcases hafter.place with ⟨hsep, -, hes⟩ | ⟨-, w, text, hws, -, rfl⟩ | ⟨-, hes⟩
    · rw [skipWhitespace_byte hes (by decide)] at hw
      cases hw
      rw [if_neg hsep]
      exact ⟨rfl, rfl⟩
    · rw [List.append_assoc, List.cons_append, skipWhitespace_byte hws (by decide)] at hw
      cases hw
    · obtain ⟨t, ht⟩ := hfirst hes
      rw [ht] at hw
      cases hw
  | @comma sep cur rest out challenges ds hw _ ih =>
    subst hcur
    rcases hafter.place with ⟨-, -, hes⟩ | ⟨rfl, w, text, hws, htext, rfl⟩ | ⟨-, hes⟩
    · rw [skipWhitespace_byte hes (by decide)] at hw
      cases hw
    · rw [List.append_assoc, List.cons_append, skipWhitespace_byte hws (by decide)] at hw
      cases hw
      exact ih (fun hmem => hskip (List.mem_append_right _ hmem))
        (fun hmem => hbrackets (List.mem_append_right _ hmem))
        rfl htext hobjects
    · obtain ⟨t, ht⟩ := hfirst hes
      rw [ht] at hw
      cases hw
  | @element sep cur rest cur' stop out c challenge challenges os bs ds hw hc hread _ hbs _ ih =>
    subst hcur
    rcases hafter.place with ⟨-, -, hes⟩ | ⟨-, w, text, hws, -, rfl⟩ | ⟨hsep, hes⟩
    · rw [skipWhitespace_byte hes (by decide)] at hw
      cases hw
      exact absurd rfl hc.1
    · rw [List.append_assoc, List.cons_append, skipWhitespace_byte hws (by decide)] at hw
      cases hw
      exact absurd rfl hc.2
    · rw [if_neg hsep, List.nil_append] at hskip hbrackets ⊢
      obtain ⟨w, v, vs', more, rfl, hws, -, htext, hmore⟩ := elements_first hes r
      obtain ⟨hv, hobjects⟩ := List.forall₂_cons.mp hobjects
      have hhead : c :: rest = [] ++ (v ++ (more ++ 0x5d :: r)) := by
        rw [← hw, htext, skipWhitespace_ws hws]
        obtain ⟨ps, ms, -, -, rfl⟩ := hv
        exact skipWhitespace_head (by decide) _
      obtain ⟨rfl, hos⟩ := hread.clean (List.forall_mem_nil _) hv hhead
        (fun hmem => hskip (List.mem_append_left _ hmem))
      rw [rangeDefect, if_pos hread.isInt] at hos
      subst hos
      rcases hbs with ⟨rfl, rfl⟩ | ⟨rfl, -⟩
      · exact ih hskip hbrackets rfl hmore hobjects
      · exact absurd List.mem_cons_self hbrackets

end

section
variable {json out : Bytes} {challenges : List Challenge} {ds : List Defect}

theorem ArrayReading.array (h : ArrayReading json challenges out []) :
    StartsWithArray json challenges := by
  obtain ⟨cur, hopen, hr⟩ := h
  obtain ⟨w, hw, rfl⟩ := consume_split hopen
  obtain ⟨vs, es, rfl, hbody, hobjects⟩ := hr.array rfl
  exact ⟨w, vs, es, out, hw, hbody, hobjects, rfl⟩

theorem ArrayReading.clean (h : ArrayReading json challenges out ds)
    (hjson : StartsWithArray json challenges)
    (hskip : Defect.skipped ∉ ds) (hbrackets : Defect.brackets ∉ ds) : ds = [] := by
  obtain ⟨cur, hopen, hr⟩ := h
  obtain ⟨w, vs, es, r, hw, hbody, hobjects, rfl⟩ := hjson
  rw [show (0x5b : UInt8) = OPEN_BRACKET from rfl, consume_ws (by decide) hw] at hopen
  cases hopen
  exact (hr.clean hskip hbrackets rfl hbody hobjects).2

end

/-! ## the slice and JSON together -/

/-- the readers look at nothing but the slice, and take nothing but objects and arrays of JSON, with
the ids that are written there -/
structure Respects (json : Bytes) : Prop where
  slice : ∀ mem behind behind', jsonToChallengeIn behind json = jsonToChallengeIn behind' json ∧
    jsonToChallengesIn behind mem json = jsonToChallengesIn behind' mem json
  object : ∀ behind challenge, jsonToChallengeIn behind json = some (some challenge) →
    StartsWithObject json challenge.id
  array : ∀ behind mem challenges, jsonToChallengesIn behind mem json = some (some challenges) →
    StartsWithArray json challenges

/-- no number that is reached runs up to the end of the slice, and no way through the loops meets a
defect -/
structure Flawless (json : Bytes) : Prop where
  object : ¬ ObjectOverruns json
  list : ¬ ListOverruns json
  members : ∀ challenge out ds, ObjectReading json challenge out ds → ds = []
  elements : ∀ challenges out ds, ArrayReading json challenges out ds → ds = []

/-- what the loops pass over are values of JSON, and the objects that were read -/
structure SkipsValues (json : Bytes) : Prop where
  members : ∀ challenge out ds, ObjectReading json challenge out ds → Defect.skipped ∉ ds
  elements : ∀ challenges out ds, ArrayReading json challenges out ds → Defect.skipped ∉ ds ∧
    Defect.brackets ∉ ds

section
variable {json : Bytes}

theorem Respects.not_overruns (h : Respects json) : ¬ ObjectOverruns json ∧ ¬ ListOverruns json :=
  ⟨jsonToChallenge_slice_iff.mp fun behind behind' => (h.slice (fun _ => true) behind behind').1,
    jsonToChallenges_slice_iff.mp fun mem behind behind' => (h.slice mem behind behind').2⟩

theorem Flawless.respects (h : Flawless json) : Respects json where
  slice mem behind behind' := ⟨jsonToChallenge_slice_iff.mpr h.object behind behind',
    jsonToChallenges_slice_iff.mpr h.list mem behind behind'⟩
  object behind challenge hread := by
    rw [jsonToChallengeIn_eq h.object] at hread
    obtain ⟨out, ds, hr⟩ := (jsonToChallenge_reading _ _).mp (Option.some.inj hread)
    cases h.members _ _ _ hr
    obtain ⟨w, v, hw, hv, hjson⟩ := hr.object
    exact ⟨w, v, out, hw, hv, hjson⟩
  array behind mem challenges hread := by
    rw [jsonToChallengesIn_eq h.list] at hread
    obtain ⟨out, ds, hr⟩ := jsonToChallenges_reading (Option.some.inj hread)
    cases h.elements _ _ _ hr
    exact hr.array

/-- where nothing else than values is passed over, every defect breaks what is asked of the
readers -/
theorem Respects.flawless (h : Respects json) (hskips : SkipsValues json) : Flawless json where
  object := h.not_overruns.1
  list := h.not_overruns.2
  members challenge out ds hr := by
    have hread : jsonToChallengeIn [] json = some (some challenge) := by
      rw [jsonToChallengeIn_eq h.not_overruns.1, (jsonToChallenge_reading _ _).mpr ⟨out, ds, hr⟩]
    obtain ⟨w, v, r, hw, hv, hjson⟩ := h.object [] challenge hread
    obtain ⟨-, hds⟩ := hr.clean hw hv hjson (hskips.members _ _ _ hr)
    rw [hds, rangeDefect, if_pos hr.isInt]
  elements challenges out ds hr := by
    have hread : jsonToChallengesIn [] (fun _ => true) json = some (some challenges) := by
      rw [jsonToChallengesIn_eq h.not_overruns.2, hr.taken]
    obtain ⟨hskip, hbrackets⟩ := hskips.elements _ _ _ hr
    exact hr.clean (h.array [] _ challenges hread) hskip hbrackets

end

/-- **The readers respect the slice and JSON on every text that meets no defect on its way through
the loops and no number at its end; and on no other, where nothing but values is passed over.** -/
theorem list_reader_respects (json : Bytes) :
    (Flawless json → Respects json) ∧ (SkipsValues json → (Respects json ↔ Flawless json)) ∧
      (Respects json → ¬ ObjectOverruns json ∧ ¬ ListOverruns json) :=
  ⟨Flawless.respects, fun hskips => ⟨fun h => h.flawless hskips, Flawless.respects⟩,
    Respects.not_overruns⟩

/-- in front of the number in `[{"id":1}]`, and behind it -/
theorem oneObject_key : skipWhitespace (ascii "\"id\":1\x7d]") = 0x22 :: ascii "id\":1\x7d]" ∧
    readString (0x22 :: ascii "id\":1\x7d]") = some (ascii "id", ascii ":1\x7d]") ∧
    consume COLON (ascii ":1\x7d]") = some (ascii "1\x7d]") ∧
    memberEnd (ascii "id") (skipWhitespace (ascii "1\x7d]")) = some (ascii "\x7d]") ∧
    skipWhitespace (ascii "\x7d]") = CLOSE_BRACE :: ascii "]" := by
  decide +kernel

theorem oneObject_overruns : ¬ Overruns (ascii "\"id\":1\x7d]") := by
  obtain ⟨hw, hkey, hcolon, hend, hclose⟩ := oneObject_key
  have hbehind : ¬ Overruns (ascii "\x7d]") := by
    rintro (⟨h, -⟩ | ⟨h, hc, -⟩ | ⟨h, hc, -⟩)
    all_goals
      rw [hclose] at h
      cases h
    all_goals exact absurd rfl hc.1
  rintro (⟨h, -⟩ | ⟨h, -, hkey', hcolon', htouch⟩ | ⟨h, -, hkey', hcolon', hend', hrest⟩)
  all_goals
    rw [hw] at h
    cases h
  all_goals
    rw [hkey] at hkey'
    cases hkey'
    rw [hcolon] at hcolon'
    cases hcolon'
  · revert htouch
    decide +kernel
  · rw [hend] at hend'
    cases hend'
    exact hbehind hrest

theorem oneObject_skipped {n : Int} {challenge challenge' : Challenge} {out : Bytes}
    {ds : List Defect}
    (h : Reading .opening n challenge (ascii "\"id\":1\x7d]") challenge' out ds) :
    Defect.skipped ∉ ds := by
  obtain ⟨hw, hkey, hcolon, hend, hclose⟩ := oneObject_key
  have hrange : ∀ n, Defect.skipped ∉ rangeDefect n := by
    intro n
    unfold rangeDefect
    split <;> decide
  have hbehind : ∀ {n : Int} {challenge challenge' : Challenge} {cur out : Bytes} {ds :
    List Defect},
      Reading .member n challenge cur challenge' out ds → cur = ascii "\x7d]" →
      Defect.skipped ∉ ds := by
    rintro n challenge challenge' cur out ds hr rfl
    generalize hcur : ascii "\x7d]" = cur at hr hclose
    cases hr with
    | ended => cases hclose
    | closed h => exact hrange n
    | comma h hrest =>
      rw [hclose] at h
      cases h
    | member h hc =>
      rw [hclose] at h
      cases h
      exact absurd rfl hc.1
  generalize hcur : ascii "\"id\":1\x7d]" = cur at h hw
  cases h with
  | ended => cases hw
  | closed h =>
    rw [hw] at h
    cases h
  | comma h hrest =>
    rw [hw] at h
    cases h
  | member h hc hkey' hcolon' hvalue hvs hrest =>
    rw [hw] at h
    cases h
    rw [hkey] at hkey'
    cases hkey'
    rw [hcolon] at hcolon'
    cases hcolon'
    have hcur3 := (readMember_end hvalue).symm.trans hend
    have hds := hbehind hrest (Option.some.inj hcur3)
    rcases hvs with ⟨rfl, -⟩ | ⟨rfl, -⟩
    · exact hds
    · rw [if_pos rfl]
      exact fun hmem => (List.mem_cons.mp hmem).elim nofun hds

/-- the object in `[{"id":1}]` is read to its end, without a defect -/
theorem oneObject_reading {challenge : Challenge} {out : Bytes} {ds : List Defect}
    (h : ObjectReading (ascii "\x7b\"id\":1\x7d]") challenge out ds) :
    out = ascii "]" ∧ ds = [] := by
  have hone : IntWritten (ascii "1") 1 := .inl ⟨1, by decide +kernel, rfl⟩
  have hvalue : AnyValue (ascii "1") :=
    ⟨0, .number (.plus (.mk (.nonzero 0x31 [] (by decide) (by decide) nofun) .absent .absent))⟩
  have hmember : Member AnyValue (ascii "id", ascii "1")
      ([] ++ 0x22 :: (ascii "id" ++ 0x22 :: ([] ++ 0x3a :: ([] ++ (ascii "1" ++ []))))) :=
    .mk nofun (chars_plain (by decide +kernel)) nofun nofun hvalue nofun
  have hobject : ChallengeObject (ascii "\x7b\"id\":1\x7d") 1 :=
    ⟨_, _, .inr (.one hmember), .cons (if_pos rfl |>.mpr hone) .nil, by decide +kernel⟩
  have hskipped : Defect.skipped ∉ ds := by
    obtain ⟨cur, hopen, hr⟩ := h
    obtain rfl := Option.some.inj (hopen.symm.trans
      (by decide +kernel : consume OPEN_BRACE (ascii "\x7b\"id\":1\x7d]") =
        some (ascii "\"id\":1\x7d]")))
    exact oneObject_skipped hr
  obtain ⟨hout, hds⟩ := h.clean (w := []) (r := ascii "]") nofun hobject
    (by decide +kernel) hskipped
  exact ⟨hout, hds.trans (if_pos (by decide))⟩

theorem oneObject_flawless : Flawless (ascii "[\x7b\"id\":1\x7d]") := by
  have hnone : consume OPEN_BRACE (ascii "[\x7b\"id\":1\x7d]") = none := by decide +kernel
  have hopen : consume OPEN_BRACKET (ascii "[\x7b\"id\":1\x7d]") =
    some (ascii "\x7b\"id\":1\x7d]") := by decide +kernel
  have hobject : consume OPEN_BRACE (ascii "\x7b\"id\":1\x7d]") =
    some (ascii "\"id\":1\x7d]") := by decide +kernel
  have hw : skipWhitespace (ascii "\x7b\"id\":1\x7d]") = OPEN_BRACE ::
    ascii "\"id\":1\x7d]" := by decide +kernel
  have hclose : skipWhitespace (ascii "]") = CLOSE_BRACKET :: [] := by decide +kernel
  have htext : ascii "\x7b\"id\":1\x7d]" = OPEN_BRACE :: ascii "\"id\":1\x7d]" := by decide +kernel
  have hskip : skipJsonValue (OPEN_BRACE :: ascii "\"id\":1\x7d]") =
    some (ascii "]") := by decide +kernel
  refine ⟨?_, ?_, ?_, ?_⟩
  · rintro ⟨cur, h, -⟩
    rw [hnone] at h
    cases h
  · rintro ⟨cur, h, hover⟩
    obtain rfl := Option.some.inj (h.symm.trans hopen)
    rcases hover with ⟨h, -⟩ | ⟨h, -, cur, hcur, hover⟩ | ⟨h, -, -, hskip', hover⟩
    all_goals
      rw [hw] at h
      cases h
    · rw [← htext, hobject] at hcur
      cases hcur
      exact oneObject_overruns hover
    · rw [hskip] at hskip'
      cases hskip'
      rcases hover with ⟨h, -⟩ | ⟨h, hc, -⟩ | ⟨h, hc, -⟩
      all_goals
        rw [hclose] at h
        cases h
      all_goals exact absurd rfl hc.1
  · rintro challenge out ds ⟨cur, h, -⟩
    rw [hnone] at h
    cases h
  · rintro challenges out ds ⟨cur, h, hr⟩
    obtain rfl := Option.some.inj (h.symm.trans hopen)
    have hbehind : ∀ {cur out : Bytes} {challenges : List Challenge} {ds : List Defect},
        ListReading .member cur challenges out ds → cur = ascii "]" → ds = [] := by
      rintro cur out challenges ds hr rfl
      cases hr with
      | ended h =>
        rw [hclose] at h
        cases h
      | closed h => rfl
      | comma h hrest =>
        rw [hclose] at h
        cases h
      | element h hc =>
        rw [hclose] at h
        cases h
        exact absurd rfl hc.1
    cases hr with
    | ended h =>
      rw [hw] at h
      cases h
    | closed h =>
      rw [hw] at h
      cases h
    | comma h hrest =>
      rw [hw] at h
      cases h
    | element h hc hread hskip' hbs hrest =>
      rw [hw] at h
      cases h
      obtain ⟨rfl, rfl⟩ := oneObject_reading (htext ▸ hread)
      obtain rfl := Option.some.inj (hskip'.symm.trans hskip)
      rcases hbs with ⟨rfl, -⟩ | ⟨-, hne⟩
      · exact hbehind hrest rfl
      · exact absurd rfl hne

theorem list_reader_respects_sample : Respects (ascii "[\x7b\"id\":1\x7d]") :=
  (list_reader_respects _).1 oneObject_flawless

/-- `{` is taken for an object -/
theorem list_reader_respects_fails : ¬ Respects (ascii "\x7b") := by
  intro h
  obtain ⟨w, v, rest, hw, ⟨id, ps, ms, hbody, hsteps, rfl⟩, hjson⟩ :=
    h.object [] .zero (by decide +kernel)
  have hlen := congrArg List.length hjson
  rw [show (ascii "\x7b").length = 1 by decide +kernel] at hlen
  simp only [List.length_append, List.length_cons, List.length_nil] at hlen
  omega

end App

import CtfServer.Lib.Decimal

/-!
# JSON strings

The two recognisers of JSON strings: `parse_json_str` (json_parser.c), which finds the end of a
literal, and `read_codepoint` (json_string.c), which decodes it.  A slice is the list of its
bytes, a cursor the list of the bytes from there on.

* `strTurn`, `strEnd`, `parseJsonStr`   the scanner;
* `hexQuad`, `readCodepoint`            one code point;
* `equalDecoded`, `decode`              `json_string_equal_decoded`, `json_string_decode`;
* `codepoints`                          the code points of a literal;
* `equalDecoded_eq`                     two literals are compared by their code points.
-/

set_option linter.unusedVariables false
set_option linter.unusedSimpArgs false

namespace Json

def DQUOTE : UInt8 := 34
def BACKSLASH : UInt8 := 92
def LETTER_U : UInt8 := 117

/-- `parser.error` after a failure: `-1` or `-2` -/
inductive Error where
  | invalid | oom
  deriving DecidableEq, Repr

def isSpace (c : UInt8) : Bool := c == 32 || c == 9 || c == 10 || c == 13

def skipWhitespace (str : Bytes) : Bytes := str.dropWhile isSpace

/-- `isxdigit` -/
def isXDigit (c : UInt8) : Bool :=
  (48 ≤ c && c ≤ 57) || (97 ≤ c && c ≤ 102) || (65 ≤ c && c ≤ 70)

/-! ## `parse_json_str` -/

/-- the letters behind a backslash, but for `u` -/
def isEscape (c : UInt8) : Bool :=
  c == 34 || c == 92 || c == 47 || c == 98 || c == 102 || c == 110 || c == 114 || c == 116

/-- the first byte of a longer UTF-8 sequence: the bytes that follow, its bits, the least code
point -/
def strLead (c : UInt8) : Option (Nat × Nat × Nat) :=
  if 0xc2 ≤ c ∧ c ≤ 0xdf then some (1, c.toNat &&& 0x1f, 0x80)
  else if 0xe0 ≤ c ∧ c ≤ 0xef then some (2, c.toNat &&& 0x0f, 0x800)
  else if 0xf0 ≤ c ∧ c ≤ 0xf4 then some (3, c.toNat &&& 0x07, 0x10000)
  else none

/-- the loop over the bytes that follow; `read_codepoint` has the same one -/
def continuation : Nat → Nat → Bytes → Option (Nat × Bytes)
  | 0, codepoint, str => some (codepoint, str)
  | _ + 1, _, [] => none
  | n + 1, codepoint, next :: str =>
    if next &&& 0xc0 ≠ 0x80 then none
    else continuation n ((codepoint <<< 6) ||| (next.toNat &&& 0x3f)) str

/-- an escape, the cursor behind its backslash -/
def strEscape : Bytes → Option Bytes
  | [] => none
  | e :: str =>
    if e = LETTER_U then
      match str with
      | a :: b :: c :: d :: str =>
        if isXDigit a && isXDigit b && isXDigit c && isXDigit d then some str else none
      | _ => none
    else if isEscape e then some str
    else none

/-- a longer UTF-8 sequence, the cursor behind its first byte -/
def strUtf8 (c : UInt8) (str : Bytes) : Option Bytes :=
  match strLead c with
  | none => none
  | some (count, bits, minimum) =>
    match continuation count bits str with
    | none => none
    | some (codepoint, str) =>
      if codepoint < minimum ∨ 0x10ffff < codepoint ∨ (0xd800 ≤ codepoint ∧ codepoint ≤ 0xdfff)
      then none else some str

/-- one turn of the loop of `parse_json_str`, at a byte other than a quote: the cursor behind it -/
def strTurn : Bytes → Option Bytes
  | [] => none
  | c :: str =>
    if c < 0x20 then none
    else if c = BACKSLASH then strEscape str
    else if 0x80 ≤ c then strUtf8 c str
    else some str

theorem continuation_length (n codepoint v : Nat) (str rest : Bytes)
    (h : continuation n codepoint str = some (v, rest)) : str.length = n + rest.length := by
  induction n generalizing codepoint str with
  | zero => cases h; simp
  | succ n ih =>
    cases str with
    | nil => cases h
    | cons c str =>
      rw [continuation] at h
      split at h
      · cases h
      · rw [List.length_cons, ih _ _ h]
        omega

theorem strEscape_length (str rest : Bytes) (h : strEscape str = some rest) :
    rest.length < str.length := by
  unfold strEscape at h
  split at h
  · cases h
  · split at h
    · split at h
      · split at h <;> cases h
        simp only [List.length_cons]
        omega
      · cases h
    · split at h <;> cases h
      simp

theorem strUtf8_length (c : UInt8) (str rest : Bytes) (h : strUtf8 c str = some rest) :
    rest.length ≤ str.length := by
  unfold strUtf8 at h
  split at h
  · cases h
  · split at h
    · cases h
    · next hc =>
      split at h <;> cases h
      have := continuation_length _ _ _ _ _ hc
      omega

theorem strTurn_length (str rest : Bytes) (h : strTurn str = some rest) :
    rest.length < str.length := by
  unfold strTurn at h
  split at h
  · cases h
  · next c str =>
    rw [List.length_cons]
    split at h
    · cases h
    · split at h
      · have := strEscape_length _ _ h
        omega
      · split at h
        · have := strUtf8_length _ _ _ h
          omega
        · cases h
          omega

/-- the loop: the cursor behind the closing quote -/
def strEnd : Bytes → Option Bytes
  | [] => none
  | c :: str =>
    if c = DQUOTE then some str
    else
      match h : strTurn (c :: str) with
      | none => none
      | some rest => strEnd rest
termination_by str => str.length
decreasing_by exact strTurn_length _ _ h

/-- `parse_json_str`: the slice between the quotes and the cursor behind them -/
def parseJsonStr : Bytes → Option (Bytes × Bytes)
  | [] => none
  | c :: start =>
    if c = DQUOTE then
      (strEnd start).map fun str => (start.take (start.length - str.length - 1), str)
    else none

/-! ## `read_codepoint` -/

def hexDigit (c : UInt8) : Option Nat :=
  if 48 ≤ c ∧ c ≤ 57 then some (c.toNat - 48)
  else if 97 ≤ c ∧ c ≤ 102 then some (c.toNat - 97 + 10)
  else if 65 ≤ c ∧ c ≤ 70 then some (c.toNat - 65 + 10)
  else none

/-- `hex_quad` -/
def hexQuad : Bytes → Option (Nat × Bytes)
  | a :: b :: c :: d :: cur =>
    match hexDigit a, hexDigit b, hexDigit c, hexDigit d with
    | some a, some b, some c, some d => some (((a * 16 + b) * 16 + c) * 16 + d, cur)
    | _, _, _, _ => none
  | _ => none

def isHigh (v : Nat) : Bool := 0xd800 ≤ v && v ≤ 0xdbff
def isLow (v : Nat) : Bool := 0xdc00 ≤ v && v ≤ 0xdfff

/-- the values of the escapes, but for `u` -/
def escapeValue (c : UInt8) : Option Nat :=
  if c = 34 ∨ c = 92 ∨ c = 47 then some c.toNat
  else if c = 98 then some 8
  else if c = 102 then some 12
  else if c = 110 then some 10
  else if c = 114 then some 13
  else if c = 116 then some 9
  else none

/-- a `\u` escape, the cursor behind the `u` -/
def readUnicode (cur : Bytes) : Option (Nat × Bytes) :=
  match hexQuad cur with
  | none => none
  | some (value, cur) =>
    if isHigh value then
      match cur with
      | x :: y :: cur =>
        if x = BACKSLASH ∧ y = LETTER_U then
          match hexQuad cur with
          | none => none
          | some (low, cur) =>
            if isLow low then some (0x10000 + ((value - 0xd800) <<< 10) + low - 0xdc00, cur) else
              none
        else none
      | _ => none
    else if isLow value then none
    else some (value, cur)

/-- `strLead` once more, as `read_codepoint` has it -/
def codepointLead (c : UInt8) : Option (Nat × Nat × Nat) :=
  if 0xc2 ≤ c ∧ c ≤ 0xdf then some (1, c.toNat &&& 0x1f, 0x80)
  else if 0xe0 ≤ c ∧ c ≤ 0xef then some (2, c.toNat &&& 0x0f, 0x800)
  else if 0xf0 ≤ c ∧ c ≤ 0xf4 then some (3, c.toNat &&& 7, 0x10000)
  else none

/-- an escape, the cursor behind its backslash -/
def readEscape : Bytes → Option (Nat × Bytes)
  | [] => none
  | e :: cur =>
    if e = LETTER_U then readUnicode cur
    else
      match escapeValue e with
      | none => none
      | some value => some (value, cur)

/-- a longer UTF-8 sequence, the cursor behind its first byte -/
def readUtf8 (c : UInt8) (cur : Bytes) : Option (Nat × Bytes) :=
  match codepointLead c with
  | none => none
  | some (count, bits, minimum) =>
    match continuation count bits cur with
    | none => none
    | some (value, cur) =>
      if minimum ≤ value ∧ value ≤ 0x10ffff ∧ (value < 0xd800 ∨ 0xdfff < value) then
        some (value, cur)
      else none

/-- `read_codepoint` -/
def readCodepoint : Bytes → Option (Nat × Bytes)
  | [] => none
  | c :: cur =>
    if c = BACKSLASH then readEscape cur
    else if c < 0x20 ∨ c = DQUOTE then none
    else if c < 0x80 then some (c.toNat, cur)
    else readUtf8 c cur

theorem hexQuad_length (cur rest : Bytes) (v : Nat) (h : hexQuad cur = some (v, rest)) :
    cur.length = 4 + rest.length := by
  unfold hexQuad at h
  grind

theorem readUnicode_length (cur rest : Bytes) (v : Nat) (h : readUnicode cur = some (v, rest)) :
    rest.length < cur.length := by
  have hq := hexQuad_length
  unfold readUnicode at h
  grind

theorem readEscape_length (cur rest : Bytes) (v : Nat) (h : readEscape cur = some (v, rest)) :
    rest.length < cur.length := by
  have hu := readUnicode_length
  unfold readEscape at h
  grind

theorem readUtf8_length (c : UInt8) (cur rest : Bytes) (v : Nat)
    (h : readUtf8 c cur = some (v, rest)) :
    rest.length ≤ cur.length := by
  have hc := continuation_length
  unfold readUtf8 at h
  grind

theorem readCodepoint_length (cur rest : Bytes) (v : Nat) (h : readCodepoint cur = some (v, rest)) :
    rest.length < cur.length := by
  have he := readEscape_length
  have hu := readUtf8_length
  unfold readCodepoint at h
  grind

/-! ## comparing and decoding -/

/-- one side of the loop of `json_string_equal_decoded`: nothing is read at the end -/
def readIf (cur : Bytes) : Option (Nat × Bytes) :=
  if cur = [] then some (0, []) else readCodepoint cur

theorem readIf_length (cur rest : Bytes) (v : Nat) (h : readIf cur = some (v, rest)) :
    rest.length ≤ cur.length ∧ (cur ≠ [] → rest.length < cur.length) := by
  unfold readIf at h
  split at h
  · next hn => cases h; exact ⟨Nat.zero_le _, fun hne => absurd hn hne⟩
  · next hn =>
    have := readCodepoint_length _ _ _ h
    exact ⟨by omega, fun _ => this⟩

/-- the loop of `json_string_equal_decoded`; `none` is the result `-1` -/
def equalLoop (equal : Bool) (a b : Bytes) : Option Bool :=
  if hab : a = [] ∧ b = [] then some equal
  else
    match ha : readIf a, hb : readIf b with
    | some (x, a'), some (y, b') => equalLoop (equal && (a.isEmpty == b.isEmpty) && x == y) a' b'
    | _, _ => none
termination_by a.length + b.length
decreasing_by
  have h1 := readIf_length a a' x ha
  have h2 := readIf_length b b' y hb
  rcases not_and_or.mp hab with h | h
  · have := h1.2 h; omega
  · have := h2.2 h; omega

/-- `json_string_equal_decoded` -/
def equalDecoded (left right : Bytes) : Option Bool := equalLoop true left right

/-- the code points of a literal, `none` if it does not decode -/
def codepoints (cur : Bytes) : Option (List Nat) :=
  if hc : cur = [] then some []
  else
    match h : readCodepoint cur with
    | none => none
    | some (v, rest) => (codepoints rest).map (v :: ·)
termination_by cur.length
decreasing_by exact readCodepoint_length _ _ _ h

/-- the bytes that `json_string_decode` writes for a code point -/
def utf8 (value : Nat) : Bytes :=
  if value < 0x80 then [UInt8.ofNat value]
  else if value < 0x800 then
    [UInt8.ofNat (0xc0 ||| (value >>> 6)), UInt8.ofNat (0x80 ||| (value &&& 0x3f))]
  else if value < 0x10000 then
    [UInt8.ofNat (0xe0 ||| (value >>> 12)), UInt8.ofNat (0x80 ||| ((value >>> 6) &&& 0x3f)),
      UInt8.ofNat (0x80 ||| (value &&& 0x3f))]
  else
    [UInt8.ofNat (0xf0 ||| (value >>> 18)), UInt8.ofNat (0x80 ||| ((value >>> 12) &&& 0x3f)),
      UInt8.ofNat (0x80 ||| ((value >>> 6) &&& 0x3f)), UInt8.ofNat (0x80 ||| (value &&& 0x3f))]

/-- the loop of `json_string_decode` over a literal that was checked before -/
def decodeLoop (cur : Bytes) : Bytes :=
  match h : readCodepoint cur with
  | none => []
  | some (v, rest) => utf8 v ++ decodeLoop rest
termination_by cur.length
decreasing_by exact readCodepoint_length _ _ _ h

/-- `json_string_decode`; `alloc` is the success of its `malloc` -/
def decode (alloc : Bool) (slice : Bytes) : Except Error Bytes :=
  if equalDecoded slice slice = none then .error .invalid
  else if !alloc then .error .oom
  else .ok (decodeLoop slice)

theorem codepoints_nil : codepoints [] = some [] := by
  rw [codepoints, dif_pos rfl]

theorem codepoints_step (cur : Bytes) (hc : cur ≠ []) :
    codepoints cur = (readCodepoint cur).bind fun p => (codepoints p.2).map (p.1 :: ·) := by
  rw [codepoints, dif_neg hc]
  split
  · next h => rw [h]; rfl
  · next h => rw [h]; rfl

theorem equalLoop_nil (equal : Bool) : equalLoop equal [] [] = some equal := by
  rw [equalLoop, dif_pos ⟨rfl, rfl⟩]

theorem equalLoop_step (equal : Bool) (a b : Bytes) (hab : ¬ (a = [] ∧ b = [])) :
    equalLoop equal a b = (readIf a).bind fun p => (readIf b).bind fun q =>
      equalLoop (equal && (a.isEmpty == b.isEmpty) && p.1 == q.1) p.2 q.2 := by
  rw [equalLoop, dif_neg hab]
  split
  · next ha hb => rw [ha, hb]; rfl
  · next hnot =>
    cases ha : readIf a with
    | none => rfl
    | some p =>
      cases hb : readIf b with
      | none => rfl
      | some q => exact absurd hb (hnot p.1 p.2 q.1 q.2 ha)

/-- what is compared are the code points; both literals are read to their ends -/
theorem equalLoop_eq (equal : Bool) (a b : Bytes) :
    equalLoop equal a b = (codepoints a).bind fun x => (codepoints b).map fun y =>
    equal && x == y := by
  obtain ⟨n, hn⟩ : ∃ n, n = a.length + b.length := ⟨_, rfl⟩
  induction n using Nat.strong_induction_on generalizing equal a b with
  | _ n ih =>
    by_cases hab : a = [] ∧ b = []
    · rw [hab.1, hab.2, equalLoop_nil, codepoints_nil]
      simp
    · rw [equalLoop_step equal a b hab]
      unfold readIf
      by_cases ha : a = []
      · have hb : b ≠ [] := fun hb => hab ⟨ha, hb⟩
        have hbe : b.isEmpty = false := List.isEmpty_eq_false_iff.mpr hb
        rw [if_pos ha, if_neg hb, codepoints_step b hb]
        cases hr : readCodepoint b with
        | none => simp [ha, codepoints_nil]
        | some q =>
          have hlt := readCodepoint_length b q.2 q.1 hr
          simp only [Option.bind_some]
          rw [ih _ (by simp only [List.length_nil]; omega) _ _ _ rfl]
          cases hq : codepoints q.2 <;> simp [ha, hbe, hq, codepoints_nil]
      · have hae : a.isEmpty = false := List.isEmpty_eq_false_iff.mpr ha
        by_cases hb : b = []
        · rw [if_neg ha, if_pos hb, codepoints_step a ha]
          cases hr : readCodepoint a with
          | none => simp
          | some q =>
            have hlt := readCodepoint_length a q.2 q.1 hr
            simp only [Option.bind_some]
            rw [ih _ (by simp only [List.length_nil]; omega) _ _ _ rfl]
            cases hq : codepoints q.2 <;> simp [hb, hae, hq, codepoints_nil]
        · have hbe : b.isEmpty = false := List.isEmpty_eq_false_iff.mpr hb
          rw [if_neg ha, if_neg hb, codepoints_step a ha, codepoints_step b hb]
          cases hr : readCodepoint a with
          | none => simp
          | some p =>
            cases hs : readCodepoint b with
            | none => cases codepoints p.2 <;> simp
            | some q =>
              have h1 := readCodepoint_length a p.2 p.1 hr
              have h2 := readCodepoint_length b q.2 q.1 hs
              simp only [Option.bind_some]
              rw [ih _ (by omega) _ _ _ rfl, hae, hbe]
              cases hp : codepoints p.2 <;> cases hq : codepoints q.2 <;>
                simp [hp, hq, Bool.and_assoc]

/-- **Two literals are equal exactly when they decode to the same code points**, and comparing
them fails exactly when one of them does not decode. -/
theorem equalDecoded_eq (left right : Bytes) :
    equalDecoded left right = (codepoints left).bind fun x => (codepoints right).map
    fun y => x == y := by
  unfold equalDecoded
  rw [equalLoop_eq]
  simp

end Json

import CtfServer.Json.Recognize

/-!
# The reader on memory

`read_value` once more, now over pointers into a slice that nothing ends: a pointer is an offset,
and `load` gives `none` at or past the end.  A function gives `none` when it loads there, or when a
loop of it takes more turns than the slice has bytes.

* `At text p cur`       the pointer `p` stands where the cursor `cur` does;
* `readValueAt_agrees`  over pointers `read_value` does what it does over cursors;
* `readValueAt_language`   it always returns, accepts exactly the documents, and stops exactly
                           behind the value.
-/

set_option linter.unusedVariables false
set_option linter.unusedSimpArgs false

namespace Json

/-- `*p` -/
def load (text : Bytes) (p : Nat) : Option UInt8 := text[p]?

/-- the `n` bytes from `p` on -/
def loadBytes (text : Bytes) (p n : Nat) : Option Bytes :=
  if p + n ≤ text.length then some (Bytes.slice text p n) else none

/-! ## the functions over pointers -/

/-- `while (p < end && f(*p)) p++` -/
def scanWhile (f : UInt8 → Bool) (text : Bytes) (p : Nat) : Option Nat :=
  if h : p < text.length then do
    let c ← load text p
    if f c then scanWhile f text (p + 1) else some p
  else some p
termination_by text.length - p

def skipWhitespaceAt (text : Bytes) (p : Nat) : Option Nat := scanWhile isSpace text p
def skipDigitsAt (text : Bytes) (p : Nat) : Option Nat := scanWhile Decimal.isDigit text p

/-- the loop over the digits behind `\u` -/
def hexAt (text : Bytes) : Nat → Nat → Option (Option Nat)
  | 0, p => some (some p)
  | n + 1, p => do
    let c ← load text p
    if isXDigit c then hexAt text n (p + 1) else some none

/-- the loop over the bytes that follow the first one of a sequence -/
def continuationAt (text : Bytes) : Nat → Nat → Nat → Option (Option (Nat × Nat))
  | 0, codepoint, p => some (some (codepoint, p))
  | n + 1, codepoint, p => do
    let next ← load text p
    if next &&& 0xc0 ≠ 0x80 then some none
    else continuationAt text n ((codepoint <<< 6) ||| (next.toNat &&& 0x3f)) (p + 1)

/-- an escape, behind its backslash -/
def strEscapeAt (text : Bytes) (p : Nat) : Option (Option Nat) :=
  if p = text.length then some none
  else do
    let e ← load text p
    if e = LETTER_U then
      if text.length - (p + 1) < 4 then some none else hexAt text 4 (p + 1)
    else if isEscape e then some (some (p + 1))
    else some none

/-- a longer UTF-8 sequence, behind its first byte -/
def strUtf8At (text : Bytes) (c : UInt8) (p : Nat) : Option (Option Nat) :=
  match strLead c with
  | none => some none
  | some (count, bits, minimum) =>
    if text.length - p < count then some none
    else do
      match ← continuationAt text count bits p with
      | none => some none
      | some (codepoint, p) =>
        if codepoint < minimum ∨ 0x10ffff < codepoint ∨ (0xd800 ≤ codepoint ∧ codepoint ≤ 0xdfff)
        then some none else some (some p)

/-- the loop of `parse_json_str`: the pointer behind the closing quote -/
def strEndAt (text : Bytes) : Nat → Nat → Option (Option Nat)
  | 0, _ => none
  | turns + 1, p =>
    if p < text.length then do
      let c ← load text p
      if c = DQUOTE then some (some (p + 1))
      else if c < 0x20 then some none
      else if c = BACKSLASH then
        match ← strEscapeAt text (p + 1) with
        | none => some none
        | some p => strEndAt text turns p
      else if 0x80 ≤ c then
        match ← strUtf8At text c (p + 1) with
        | none => some none
        | some p => strEndAt text turns p
      else strEndAt text turns (p + 1)
    else some none

/-- `string_t`: a pointer and a length -/
abbrev StringAt := Nat × Nat

/-- `parse_json_str` -/
def parseJsonStrAt (text : Bytes) (p : Nat) : Option (Option (StringAt × Nat)) :=
  if p ≥ text.length then some none
  else do
    let c ← load text p
    if c = DQUOTE then do
      match ← strEndAt text (text.length + 1) (p + 1) with
      | none => some none
      | some q => some (some ((p + 1, q - (p + 1) - 1), q))
    else some none

/-- `consume`: whether the byte was there, and the cursor, which is behind the whitespace anyway -/
def consumeAt (text : Bytes) (c : UInt8) (p : Nat) : Option (Bool × Nat) := do
  let p ← skipWhitespaceAt text p
  if p = text.length then some (false, p)
  else do
    let x ← load text p
    if x = c then some (true, p + 1) else some (false, p)

def readStringAt (text : Bytes) (p : Nat) : Option (Option (StringAt × Nat)) := do
  let p ← skipWhitespaceAt text p
  parseJsonStrAt text p

/-- `string_equals` (str.c) -/
def stringEqualsAt (text : Bytes) (a b : StringAt) : Option Bool :=
  if a.2 ≠ b.2 then some false
  else do
    let x ← loadBytes text a.1 a.2
    let y ← loadBytes text b.1 a.2
    some (x == y)

/-- the loop over the keys read so far -/
def knownKeyAt (text : Bytes) (key : StringAt) : List StringAt → Option Bool
  | [] => some false
  | old :: keys => do
    if ← stringEqualsAt text old key then some true else knownKeyAt text key keys

def readExponentAt (text : Bytes) (p : Nat) : Option (Option Nat) :=
  if p < text.length then do
    let c ← load text p
    if c = 101 ∨ c = 69 then do
      let start ←
        (if p + 1 < text.length then do
          let s ← load text (p + 1)
          if s = 43 ∨ s = 45 then some (p + 2) else some (p + 1)
        else some (p + 1))
      let q ← skipDigitsAt text start
      if start = q then some none else some (some q)
    else some (some p)
  else some (some p)

def readFractionAt (text : Bytes) (p : Nat) : Option (Option Nat) :=
  if p < text.length then do
    let c ← load text p
    if c = 46 then do
      let q ← skipDigitsAt text (p + 1)
      if p + 1 = q then some none else readExponentAt text q
    else readExponentAt text p
  else readExponentAt text p

def readIntegerAt (text : Bytes) (p : Nat) : Option (Option Nat) :=
  if p = text.length then some none
  else do
    let c ← load text p
    if c = 48 then readFractionAt text (p + 1)
    else if c < 49 ∨ 57 < c then some none
    else do
      let q ← skipDigitsAt text (p + 1)
      readFractionAt text q

/-- one turn of the loop over `true`, `false` and `null` -/
def wordAt (text : Bytes) (p : Nat) (word : Bytes) : Option Bool :=
  if text.length - p ≥ word.length then do
    let x ← loadBytes text p word.length
    some (x == word)
  else some false

def readScalarAt (text : Bytes) (p : Nat) : Option (Option Nat) := do
  if ← wordAt text p (ascii "true") then some (some (p + 4))
  else if ← wordAt text p (ascii "false") then some (some (p + 5))
  else if ← wordAt text p (ascii "null") then some (some (p + 4))
  else do
    let c ← load text p
    if c = 45 then readIntegerAt text (p + 1) else readIntegerAt text p

/-- the loop over the elements of an array -/
def arrayLoopAt (text : Bytes) (value : Nat → Option (Except Error Nat)) :
    Nat → Nat → Option (Except Error Nat)
  | 0, _ => none
  | turns + 1, p => do
    match ← value p with
    | .error e => some (.error e)
    | .ok p => do
      let (closed, p) ← consumeAt text CLOSE_BRACKET p
      if closed then some (.ok p)
      else do
        let (comma, p) ← consumeAt text COMMA p
        if comma then arrayLoopAt text value turns p else some (.error .invalid)

/-- the loop of `read_object`, its callback `NULL` -/
def objectLoopAt (mem : Nat → Bool) (text : Bytes) (value : Nat → Option (Except Error Nat)) :
    Nat → List StringAt → Nat → Option (Except Error Nat)
  | 0, _, _ => none
  | turns + 1, keys, p => do
    match ← readStringAt text p with
    | none => some (.error .invalid)
    | some (key, p) => do
      if ← knownKeyAt text key keys then some (.error .invalid)
      else if mem (text.length - p) = false then some (.error .oom)
      else do
        let (colon, p) ← consumeAt text COLON p
        if colon then do
          match ← value p with
          | .error e => some (.error e)
          | .ok p => do
            let (closed, p) ← consumeAt text CLOSE_BRACE p
            if closed then some (.ok p)
            else do
              let (comma, p) ← consumeAt text COMMA p
              if comma then objectLoopAt mem text value turns (key :: keys) p else
                some (.error .invalid)
        else some (.error .invalid)

def readObjectAt (mem : Nat → Bool) (text : Bytes)
    (value : Nat → Option (Except Error Nat)) (p : Nat) :
    Option (Except Error Nat) := do
  let (opened, p) ← consumeAt text OPEN_BRACE p
  if opened then do
    let (closed, p) ← consumeAt text CLOSE_BRACE p
    if closed then some (.ok p) else objectLoopAt mem text value (text.length + 1) [] p
  else some (.error .invalid)

/-- `read_value`; `levels` is `MAX_JSON_DEPTH + 1 - depth` -/
def readValueAt (mem : Nat → Bool) (text : Bytes) : Nat → Nat → Option (Except Error Nat)
  | 0, p => do
    let _ ← skipWhitespaceAt text p
    some (.error .invalid)
  | levels + 1, p => do
    let p ← skipWhitespaceAt text p
    if p = text.length then some (.error .invalid)
    else do
      let c ← load text p
      if c = DQUOTE then do
        match ← readStringAt text p with
        | none => some (.error .invalid)
        | some (_, p) => some (.ok p)
      else if c = OPEN_BRACE then readObjectAt mem text (readValueAt mem text levels) p
      else if c = OPEN_BRACKET then do
        let (closed, p) ← consumeAt text CLOSE_BRACKET (p + 1)
        if closed then some (.ok p)
        else arrayLoopAt text (readValueAt mem text levels) (text.length + 1) p
      else do
        match ← readScalarAt text p with
        | none => some (.error .invalid)
        | some p => some (.ok p)

/-! ## pointers and cursors -/

/-- the pointer stands where the cursor does -/
structure At (text : Bytes) (p : Nat) (cur : Bytes) : Prop where
  le : p ≤ text.length
  eq : text.drop p = cur

section
variable {text : Bytes}

theorem At.start : At text 0 text := ⟨Nat.zero_le _, rfl⟩

theorem At.length {p : Nat} {cur : Bytes} (h : At text p cur) : cur.length = text.length - p := by
  rw [← h.eq, List.length_drop]

theorem At.end_iff {p : Nat} {cur : Bytes} (h : At text p cur) : p = text.length ↔ cur = [] := by
  have h1 := h.length
  have h2 := h.le
  rw [← List.length_eq_zero_iff]
  omega

theorem At.lt_iff {p : Nat} {cur : Bytes} (h : At text p cur) : p < text.length ↔ cur ≠ [] := by
  have h1 := h.end_iff
  have h2 := h.le
  rw [ne_eq, ← h1]
  omega

theorem At.nil {p : Nat} (h : At text p []) : p = text.length := h.end_iff.mpr rfl

theorem At.cons {p : Nat} {c : UInt8} {r : Bytes} (h : At text p (c :: r)) :
    p < text.length ∧ load text p = some c ∧ At text (p + 1) r := by
  have hlt := h.lt_iff.mpr (by simp)
  have hd := h.eq
  rw [List.drop_eq_getElem_cons hlt] at hd
  refine ⟨hlt, ?_, hlt, (List.cons.inj hd).2⟩
  unfold load
  rw [List.getElem?_eq_getElem hlt, (List.cons.inj hd).1]

/-- a block in front of the cursor -/
theorem At.block {p : Nat} {w r : Bytes} (h : At text p (w ++ r)) :
    loadBytes text p w.length = some w ∧ At text (p + w.length) r := by
  have h1 := h.length
  have h2 := h.le
  rw [List.length_append] at h1
  refine ⟨?_, by omega, ?_⟩
  · unfold loadBytes Bytes.slice
    rw [if_pos (by omega), h.eq, List.take_left]
  · rw [← List.drop_drop, h.eq, List.drop_left]

/-- a loop over bytes -/
theorem scanWhile_at (f : UInt8 → Bool) {p : Nat} {cur : Bytes} (h : At text p cur) :
    ∃ q, scanWhile f text p = some q ∧ At text q (cur.dropWhile f) := by
  induction cur generalizing p with
  | nil =>
    refine ⟨p, ?_, h⟩
    unfold scanWhile
    rw [dif_neg (Nat.lt_irrefl _ ∘ (h.nil ▸ ·))]
  | cons c r ih =>
    obtain ⟨h1, h2, h3⟩ := h.cons
    unfold scanWhile
    rw [dif_pos h1, h2]
    simp only [Option.bind_eq_bind, Option.bind_some]
    by_cases hf : f c = true
    · rw [if_pos hf, List.dropWhile_cons_of_pos hf]
      exact ih h3
    · rw [if_neg hf, List.dropWhile_cons_of_neg hf]
      exact ⟨p, rfl, h⟩

theorem skipWhitespaceAt_at {p : Nat} {cur : Bytes} (h : At text p cur) :
    ∃ q, skipWhitespaceAt text p = some q ∧ At text q (skipWhitespace cur) :=
  scanWhile_at isSpace h

theorem skipDigitsAt_at {p : Nat} {cur : Bytes} (h : At text p cur) :
    ∃ q, skipDigitsAt text p = some q ∧ At text q (skipDigits cur) :=
  scanWhile_at Decimal.isDigit h

/-- it returned, and as the function over cursors does -/
def Agrees (text : Bytes) (r : Option (Option Nat)) (o : Option Bytes) : Prop :=
  ∃ x, r = some x ∧ Option.Rel (At text) x o

theorem Agrees.fail : Agrees text (some none) none := ⟨none, rfl, .none⟩

theorem Agrees.done {p : Nat} {cur : Bytes} (h : At text p cur) :
    Agrees text (some (some p)) (some cur) :=
  ⟨some p, rfl, .some h⟩

/-! ## strings -/

theorem hexAt_agrees (n : Nat) {p : Nat} {ds r : Bytes} (h : At text p (ds ++ r))
    (hn : ds.length = n) :
    Agrees text (hexAt text n p) (if ds.all isXDigit then some r else none) := by
  induction n generalizing p ds with
  | zero =>
    rw [List.length_eq_zero_iff.mp hn] at h ⊢
    exact .done h
  | succ n ih =>
    match ds, hn with
    | d :: ds, hn =>
      obtain ⟨-, h2, h3⟩ := h.cons
      rw [hexAt, h2]
      simp only [Option.bind_eq_bind, Option.bind_some]
      by_cases hd : isXDigit d = true
      · rw [if_pos hd, List.all_cons, hd, Bool.true_and]
        exact ih h3 (Nat.succ.inj hn)
      · rw [if_neg hd, List.all_cons, Bool.eq_false_iff.mpr hd, Bool.false_and]
        exact .fail

theorem strEscapeAt_agrees {p : Nat} {cur : Bytes} (h : At text p cur) :
    Agrees text (strEscapeAt text p) (strEscape cur) := by
  unfold strEscapeAt strEscape
  cases cur with
  | nil =>
    rw [if_pos h.nil]
    exact .fail
  | cons e r =>
    obtain ⟨h1, h2, h3⟩ := h.cons
    rw [if_neg (Nat.ne_of_lt h1), h2]
    simp only [Option.bind_eq_bind, Option.bind_some]
    by_cases hu : e = LETTER_U
    · rw [if_pos hu, if_pos hu, ← h3.length]
      match r with
      | [] | [_] | [_, _] | [_, _, _] => exact .fail
      | a :: b :: c :: d :: r =>
        have h4 := hexAt_agrees 4 (show At text (p + 1) ([a, b, c, d] ++ r) from h3) rfl
        rw [if_neg (by simp)]
        simpa [Bool.and_assoc] using h4
    · rw [if_neg hu, if_neg hu]
      split
      · exact .done h3
      · exact .fail

theorem continuationAt_agrees (n codepoint : Nat) {p : Nat} {cur : Bytes} (h : At text p cur)
    (hn : n ≤ cur.length) :
    ∃ x, continuationAt text n codepoint p = some x ∧
      Option.Rel (fun a b => a.1 = b.1 ∧ At text a.2 b.2) x (continuation n codepoint cur) := by
  induction n generalizing codepoint p cur with
  | zero => exact ⟨_, rfl, .some ⟨rfl, h⟩⟩
  | succ n ih =>
    match cur, hn with
    | c :: r, hn =>
      obtain ⟨-, h2, h3⟩ := h.cons
      rw [continuationAt, continuation, h2]
      simp only [Option.bind_eq_bind, Option.bind_some]
      split
      · exact ⟨_, rfl, .none⟩
      · exact ih _ h3 (Nat.le_of_succ_le_succ hn)

/-- a sequence that the end cuts off is refused either way -/
theorem continuation_short {n codepoint : Nat} {cur : Bytes} (h : cur.length < n) :
    continuation n codepoint cur = none := by
  cases hc : continuation n codepoint cur with
  | none => rfl
  | some x =>
    have := continuation_length n codepoint x.1 cur x.2 hc
    omega

theorem strUtf8At_agrees (c : UInt8) {p : Nat} {cur : Bytes} (h : At text p cur) :
    Agrees text (strUtf8At text c p) (strUtf8 c cur) := by
  unfold strUtf8At strUtf8
  cases hl : strLead c with
  | none => exact .fail
  | some l =>
    obtain ⟨count, bits, minimum⟩ := l
    dsimp only
    rw [← h.length]
    by_cases hshort : cur.length < count
    · rw [if_pos hshort, continuation_short hshort]
      exact .fail
    · rw [if_neg hshort]
      obtain ⟨x, h1, h2⟩ := continuationAt_agrees count bits h (Nat.not_lt.mp hshort)
      rw [h1]
      simp only [Option.bind_eq_bind, Option.bind_some]
      generalize continuation count bits cur = o at h2
      cases h2 with
      | none => exact .fail
      | @some a b hab =>
        obtain ⟨v, q⟩ := a
        obtain ⟨v', l⟩ := b
        obtain ⟨h3, h4⟩ := hab
        dsimp only at h3 h4 ⊢
        subst h3
        split
        · exact .fail
        · exact .done h4

theorem strEndAt_agrees (turns : Nat) {p : Nat} {cur : Bytes} (h : At text p cur)
    (ht : cur.length < turns) :
    Agrees text (strEndAt text turns p) (strEnd cur) := by
  induction turns generalizing p cur with
  | zero => omega
  | succ turns ih =>
    cases cur with
    | nil =>
      rw [strEndAt, strEnd, if_neg (Nat.lt_irrefl _ ∘ (h.nil ▸ ·))]
      exact .fail
    | cons c r =>
      obtain ⟨h1, h2, h3⟩ := h.cons
      rw [strEndAt, if_pos h1, h2]
      simp only [Option.bind_eq_bind, Option.bind_some]
      by_cases hq : c = DQUOTE
      · rw [if_pos hq, hq, strEnd_quote]
        exact .done h3
      · rw [if_neg hq]
        -- what is left of the turn, and the loop behind it
        have hgo : ∀ (a : Option (Option Nat)) (o : Option Bytes), Agrees text a o → strTurn (c :: r) = o →
            Agrees text (a.bind fun x => match x with | none => some none | some p => strEndAt text turns p)
              (strEnd (c :: r)) := by
          rintro a o ⟨x, rfl, hx⟩ ho
          cases hx with
          | none =>
            rw [strEnd, if_neg hq]
            split
            · exact .fail
            · next l hl => rw [ho] at hl; cases hl
          | some hat =>
            rw [strEnd_turn hq ho]
            have hlen := strTurn_length _ _ ho
            exact ih hat (by omega)
        by_cases hlow : c < 0x20
        · rw [if_pos hlow]
          exact hgo (some none) none .fail (if_pos hlow)
        rw [if_neg hlow]
        by_cases hb : c = BACKSLASH
        · rw [if_pos hb]
          exact hgo _ _ (strEscapeAt_agrees h3) ((if_neg hlow).trans (if_pos hb))
        rw [if_neg hb]
        by_cases hhigh : 0x80 ≤ c
        · rw [if_pos hhigh]
          exact hgo _ _ (strUtf8At_agrees c h3)
            ((if_neg hlow).trans ((if_neg hb).trans (if_pos hhigh)))
        · rw [if_neg hhigh]
          exact hgo (some (some (p + 1))) (some r) (.done h3)
            ((if_neg hlow).trans ((if_neg hb).trans (if_neg hhigh)))

/-- a string and the cursor behind it -/
def SameString (text : Bytes) (a : StringAt × Nat) (b : Bytes × Bytes) : Prop :=
  loadBytes text a.1.1 a.1.2 = some b.1 ∧ At text a.2 b.2

theorem parseJsonStrAt_agrees {p : Nat} {cur : Bytes} (h : At text p cur) :
    ∃ x, parseJsonStrAt text p = some x ∧ Option.Rel (SameString text) x (parseJsonStr cur) := by
  unfold parseJsonStrAt
  cases cur with
  | nil =>
    rw [if_pos (Nat.le_of_eq h.nil.symm)]
    exact ⟨_, rfl, .none⟩
  | cons c r =>
    obtain ⟨h1, h2, h3⟩ := h.cons
    rw [if_neg (Nat.not_le.mpr h1), h2]
    simp only [Option.bind_eq_bind, Option.bind_some]
    by_cases hq : c = DQUOTE
    · rw [if_pos hq]
      have hlen : r.length < text.length + 1 := by
        have := h3.length
        omega
      obtain ⟨x, h4, h5⟩ := strEndAt_agrees (text.length + 1) h3 hlen
      rw [h4]
      simp only [Option.bind_some]
      cases hend : strEnd r with
      | none =>
        rw [hend] at h5
        cases h5
        refine ⟨_, rfl, ?_⟩
        rw [parseJsonStr, if_pos hq, hend]
        exact .none
      | some l =>
        rw [hend] at h5
        cases h5 with
        | @some q _ hat =>
          obtain ⟨f, hf, hlit⟩ := strEnd_split hend
          have hparse : parseJsonStr (c :: r) = some (f, l) := by
            rw [hf, hq]
            exact (parseJsonStr_iff _ _ _).mpr ⟨hlit, rfl⟩
          refine ⟨_, rfl, ?_⟩
          rw [hparse]
          rw [hf] at h3
          obtain ⟨h6, h7⟩ := h3.block
          have hlenq : q - (p + 1) - 1 = f.length := by
            have h8 := h7.length
            have h9 := hat.length
            have h10 := h7.le
            have h11 := hat.le
            rw [List.length_cons] at h8
            omega
          refine .some ⟨?_, hat⟩
          dsimp only
          rw [hlenq]
          exact h6
    · rw [if_neg hq]
      refine ⟨_, rfl, ?_⟩
      rw [parseJsonStr, if_neg hq]
      exact .none

theorem readStringAt_agrees {p : Nat} {cur : Bytes} (h : At text p cur) :
    ∃ x, readStringAt text p = some x ∧ Option.Rel (SameString text) x (readString cur) := by
  obtain ⟨q, h1, h2⟩ := skipWhitespaceAt_at h
  unfold readStringAt readString
  rw [h1]
  exact parseJsonStrAt_agrees h2

/-! ## single bytes and keys -/

/-- `consume` stands behind the whitespace where the byte is missing -/
theorem consumeAt_agrees (c : UInt8) {p : Nat} {cur : Bytes} (h : At text p cur) :
    ∃ b q, consumeAt text c p = some (b, q) ∧
      ((b = true ∧ ∃ r, consume c cur = some r ∧ At text q r) ∨
        (b = false ∧ consume c cur = none ∧ At text q (skipWhitespace cur))) := by
  obtain ⟨q, h1, h2⟩ := skipWhitespaceAt_at h
  unfold consumeAt consume
  rw [h1]
  simp only [Option.bind_eq_bind, Option.bind_some]
  generalize skipWhitespace cur = l at h2
  cases l with
  | nil =>
    rw [if_pos h2.nil]
    exact ⟨false, q, rfl, Or.inr ⟨rfl, rfl, h2⟩⟩
  | cons x r =>
    obtain ⟨h3, h4, h5⟩ := h2.cons
    rw [if_neg (Nat.ne_of_lt h3), h4]
    simp only [Option.bind_some]
    by_cases hx : x = c
    · rw [if_pos hx, if_pos hx]
      exact ⟨true, q + 1, rfl, Or.inl ⟨rfl, r, rfl, h5⟩⟩
    · rw [if_neg hx, if_neg hx]
      exact ⟨false, q, rfl, Or.inr ⟨rfl, rfl, h2⟩⟩

theorem loadBytes_length {a n : Nat} {f : Bytes} (h : loadBytes text a n = some f) :
    f.length = n := by
  unfold loadBytes Bytes.slice at h
  split at h
  · cases h
    rw [List.length_take, List.length_drop]
    omega
  · cases h

theorem stringEqualsAt_eq {a b : StringAt} {f g : Bytes} (hf : loadBytes text a.1 a.2 = some f)
    (hg : loadBytes text b.1 b.2 = some g) : stringEqualsAt text a b = some (f == g) := by
  have h1 := loadBytes_length hf
  have h2 := loadBytes_length hg
  unfold stringEqualsAt
  by_cases hn : a.2 = b.2
  · rw [if_neg (not_not_intro hn), hf, hn, hg]
    rfl
  · rw [if_pos hn, eq_comm, Option.some.injEq, beq_eq_false_iff_ne]
    rintro rfl
    exact hn (h1.symm.trans h2)

/-- the slices of the keys read so far, and their bytes -/
def SameKeys (text : Bytes) : List StringAt → List Bytes → Prop :=
  List.Forall₂ fun a f => loadBytes text a.1 a.2 = some f

theorem knownKeyAt_eq {key : StringAt} {f : Bytes} (hf : loadBytes text key.1 key.2 = some f)
    {ks : List StringAt}
    {keys : List Bytes} (h : SameKeys text ks keys) :
    knownKeyAt text key ks = some (decide (f ∈ keys)) := by
  induction h with
  | nil => rfl
  | @cons a g ks keys hg hks ih =>
    rw [knownKeyAt, stringEqualsAt_eq hg hf]
    simp only [Option.bind_eq_bind, Option.bind_some]
    by_cases he : g = f
    · rw [if_pos (by rw [he]; exact beq_self_eq_true f), he]
      simp
    · rw [if_neg (by rw [beq_iff_eq]; exact he), ih]
      simp [Ne.symm he]

/-! ## numbers and words -/

theorem readExponentAt_agrees {p : Nat} {cur : Bytes} (h : At text p cur) :
    Agrees text (readExponentAt text p) (readExponent cur) := by
  unfold readExponentAt readExponent
  cases cur with
  | nil =>
    rw [if_neg (Nat.lt_irrefl _ ∘ (h.nil ▸ ·))]
    exact .done h
  | cons c r =>
    obtain ⟨h1, h2, h3⟩ := h.cons
    rw [if_pos h1, h2]
    simp only [Option.bind_eq_bind, Option.bind_some]
    split
    · -- the digits behind the sign
      have hdigits : ∀ (q : Nat) (l : Bytes), At text q l →
          Agrees text ((skipDigitsAt text q).bind fun e => if q = e then some none else
            some (some e)) (readDigits l) := by
        intro q l hq
        obtain ⟨e, h4, h5⟩ := skipDigitsAt_at hq
        rw [h4, Option.bind_some]
        unfold readDigits
        have h6 := hq.length
        have h7 := h5.length
        have h8 := hq.le
        have h9 := h5.le
        by_cases he : q = e
        · rw [if_pos he, if_pos (by omega)]
          exact .fail
        · rw [if_neg he, if_neg (by omega)]
          exact .done h5
      cases r with
      | nil =>
        rw [if_neg (Nat.lt_irrefl _ ∘ (h3.nil ▸ ·))]
        simp only [Option.bind_some]
        exact hdigits _ _ h3
      | cons s r =>
        obtain ⟨h4, h5, h6⟩ := h3.cons
        rw [if_pos h4, h5]
        simp only [Option.bind_some]
        split
        · exact hdigits _ _ h6
        · exact hdigits _ _ h3
    · exact .done h

theorem readFractionAt_agrees {p : Nat} {cur : Bytes} (h : At text p cur) :
    Agrees text (readFractionAt text p) (readFraction cur) := by
  unfold readFractionAt readFraction
  cases cur with
  | nil =>
    rw [if_neg (Nat.lt_irrefl _ ∘ (h.nil ▸ ·))]
    exact readExponentAt_agrees h
  | cons c r =>
    obtain ⟨h1, h2, h3⟩ := h.cons
    rw [if_pos h1, h2]
    simp only [Option.bind_eq_bind, Option.bind_some]
    split
    · obtain ⟨e, h4, h5⟩ := skipDigitsAt_at h3
      rw [h4, Option.bind_some]
      unfold readDigits
      have h6 := h3.length
      have h7 := h5.length
      have h8 := h3.le
      have h9 := h5.le
      by_cases he : p + 1 = e
      · rw [if_pos he, if_pos (by omega)]
        exact .fail
      · rw [if_neg he, if_neg (by omega)]
        exact readExponentAt_agrees h5
    · exact readExponentAt_agrees h

theorem readIntegerAt_agrees {p : Nat} {cur : Bytes} (h : At text p cur) :
    Agrees text (readIntegerAt text p) (readInteger cur) := by
  unfold readIntegerAt readInteger
  cases cur with
  | nil =>
    rw [if_pos h.nil]
    exact .fail
  | cons c r =>
    obtain ⟨h1, h2, h3⟩ := h.cons
    rw [if_neg (Nat.ne_of_lt h1), h2]
    simp only [Option.bind_eq_bind, Option.bind_some]
    split
    · exact readFractionAt_agrees h3
    split
    · exact .fail
    · obtain ⟨e, h4, h5⟩ := skipDigitsAt_at h3
      rw [h4, Option.bind_some]
      exact readFractionAt_agrees h5

theorem wordAt_eq {p : Nat} {cur : Bytes} (h : At text p cur) (word : Bytes) :
    wordAt text p word = some (decide (word <+: cur)) := by
  unfold wordAt
  rw [← h.length]
  by_cases hlen : cur.length ≥ word.length
  · rw [if_pos hlen]
    have h1 : At text p (cur.take word.length ++ cur.drop word.length) := by
      rw [List.take_append_drop]
      exact h
    have h2 := h1.block.1
    rw [List.length_take, Nat.min_eq_left hlen] at h2
    rw [h2]
    simp only [Option.bind_eq_bind, Option.bind_some, Option.some.injEq]
    rw [Bool.eq_iff_iff, beq_iff_eq, decide_eq_true_iff, List.prefix_iff_eq_take, eq_comm]
  · rw [if_neg hlen, eq_comm, Option.some.injEq, decide_eq_false_iff_not]
    exact fun hp => hlen hp.length_le

theorem At.drop {p : Nat} {cur word : Bytes} (h : At text p cur) (hw : word <+: cur) :
    At text (p + word.length) (cur.drop word.length) := by
  obtain ⟨r, rfl⟩ := hw
  rw [List.drop_left]
  exact h.block.2

theorem readScalarAt_agrees {p : Nat} {c : UInt8} {r : Bytes} (h : At text p (c :: r)) :
    Agrees text (readScalarAt text p) (readScalar (c :: r)) := by
  obtain ⟨h1, h2, h3⟩ := h.cons
  unfold readScalarAt readScalar
  simp only [wordAt_eq h, Option.bind_eq_bind, Option.bind_some, decide_eq_true_eq]
  split
  · next hp =>
    have h4 := h.drop hp
    rw [show (ascii "true").length = 4 by rw [ascii_true]; rfl] at h4
    exact .done h4
  split
  · next hp =>
    have h4 := h.drop hp
    rw [show (ascii "false").length = 5 by rw [ascii_false]; rfl] at h4
    exact .done h4
  split
  · next hp =>
    have h4 := h.drop hp
    rw [show (ascii "null").length = 4 by rw [ascii_null]; rfl] at h4
    exact .done h4
  · rw [h2, Option.bind_some]
    split
    · exact readIntegerAt_agrees h3
    · exact readIntegerAt_agrees h

/-! ## values -/

inductive SameResult (text : Bytes) : Except Error Nat → Except Error Bytes → Prop where
  | ok {p : Nat} {cur : Bytes} : At text p cur → SameResult text (.ok p) (.ok cur)
  | error (e : Error) : SameResult text (.error e) (.error e)

/-- it returned, and as the reader over cursors does -/
def Returns (text : Bytes) (r : Option (Except Error Nat)) (e : Except Error Bytes) : Prop :=
  ∃ x, r = some x ∧ SameResult text x e

theorem Returns.ok {p : Nat} {cur : Bytes} (h : At text p cur) :
    Returns text (some (.ok p)) (.ok cur) := ⟨_, rfl, .ok h⟩

theorem Returns.error (e : Error) : Returns text (some (.error e)) (.error e) := ⟨_, rfl, .error e⟩

/-- two readers of values that agree -/
def Readers (text : Bytes) (valueAt : Nat → Option (Except Error Nat))
    (value : Bytes → Except Error Bytes) : Prop :=
  ∀ p cur, At text p cur → Returns text (valueAt p) (value cur)

theorem arrayLoopAt_agrees {valueAt : Nat → Option (Except Error Nat)}
    {value : Bytes → Except Error Bytes}
    (hv : Readers text valueAt value) (hf : Forward value) (turns : Nat) {p : Nat} {cur : Bytes}
    (h : At text p cur)
    (ht : cur.length < turns) : Returns text (arrayLoopAt text valueAt turns p)
    (arrayLoop value turns cur) := by
  induction turns generalizing p cur with
  | zero => omega
  | succ turns ih =>
    obtain ⟨x, h1, h2⟩ := hv p cur h
    rw [arrayLoopAt, arrayLoop, h1]
    simp only [Option.bind_eq_bind, Option.bind_some]
    cases hcur : value cur with
    | error e =>
      rw [hcur] at h2
      cases h2
      exact .error e
    | ok cur1 =>
      have hlen := hf _ _ hcur
      rw [hcur] at h2
      cases h2 with
      | @ok p1 _ h3 =>
        dsimp only
        obtain ⟨b, q, h4, ⟨rfl, r, h5, h6⟩ | ⟨rfl, h5, h6⟩⟩ := consumeAt_agrees CLOSE_BRACKET h3
        · rw [h4, h5]
          exact .ok h6
        · obtain ⟨b, q', h7, h8⟩ := consumeAt_agrees COMMA h6
          rw [consume_skip] at h8
          rw [h4, h5]
          simp only [Option.bind_some, Bool.false_eq_true, if_false, h7]
          rcases h8 with ⟨rfl, r, h8, h9⟩ | ⟨rfl, h8, -⟩
          · rw [h8, if_pos rfl]
            have := consume_length h8
            exact ih h9 (by omega)
          · rw [h8]
            exact .error .invalid

/-- the fields of an object without a callback -/
def plainField (value : Bytes → Except Error Bytes) (_ : Bytes) (_ : Unit) (cur : Bytes) :
    Except Error (Unit × Bytes) :=
  (value cur).map fun cur => ((), cur)

theorem objectLoopAt_agrees (mem : Nat → Bool) {valueAt : Nat → Option (Except Error Nat)}
    {value : Bytes → Except Error Bytes} (hv : Readers text valueAt value) (hf : Forward value)
    (turns : Nat)
    {ks : List StringAt} {keys : List Bytes} (hks : SameKeys text ks keys) {p : Nat} {cur : Bytes}
    (h : At text p cur) (ht : cur.length < turns) :
    Returns text (objectLoopAt mem text valueAt turns ks p)
      ((objectLoop mem (plainField value) turns keys () cur).map (·.2)) := by
  induction turns generalizing ks keys p cur with
  | zero => omega
  | succ turns ih =>
    obtain ⟨x, h1, h2⟩ := readStringAt_agrees h
    rw [objectLoopAt, objectLoop, h1]
    simp only [Option.bind_eq_bind, Option.bind_some]
    cases hs : readString cur with
    | none =>
      rw [hs] at h2
      cases h2
      exact .error .invalid
    | some y =>
      have hlen1 : y.2.length < cur.length := readString_length hs
      rw [hs] at h2
      cases h2 with
      | @some a _ h3 =>
        obtain ⟨key, q⟩ := a
        obtain ⟨f, l⟩ := y
        obtain ⟨hkey, hq⟩ := h3
        dsimp only at hkey hq hlen1 ⊢
        rw [knownKeyAt_eq hkey hks]
        simp only [Option.bind_some, decide_eq_true_eq, ← hq.length]
        split
        · exact .error .invalid
        split
        · exact .error .oom
        obtain ⟨b, q1, h4, ⟨rfl, l1, h5, h6⟩ | ⟨rfl, h5, -⟩⟩ := consumeAt_agrees COLON hq
        · have hlen2 := consume_length h5
          obtain ⟨x, h7, h8⟩ := hv q1 l1 h6
          rw [h4, h5]
          simp only [Option.bind_some, if_true, h7]
          cases hl1 : value l1 with
          | error e =>
            rw [hl1] at h8
            cases h8
            rw [plainField, hl1]
            exact .error e
          | ok l2 =>
            have hlen3 := hf _ _ hl1
            rw [hl1] at h8
            rw [plainField, hl1]
            cases h8 with
            | @ok q2 _ h9 =>
              simp only [Except.map]
              obtain ⟨b, q3, h10, ⟨rfl, l3, h11, h12⟩ | ⟨rfl, h11, h12⟩⟩ :=
                consumeAt_agrees CLOSE_BRACE h9
              · rw [h10, h11]
                exact .ok h12
              · obtain ⟨b, q4, h13, h14⟩ := consumeAt_agrees COMMA h12
                rw [consume_skip] at h14
                rw [h10, h11]
                simp only [Option.bind_some, Bool.false_eq_true, if_false, h13]
                rcases h14 with ⟨rfl, l4, h14, h15⟩ | ⟨rfl, h14, -⟩
                · rw [h14, if_pos rfl]
                  have := consume_length h14
                  exact ih (.cons hkey hks) h15 (by omega)
                · rw [h14]
                  exact .error .invalid
        · rw [h4, h5]
          exact .error .invalid

theorem plainField_forward {value : Bytes → Except Error Bytes} (hf : Forward value) (key : Bytes)
    (s s' : Unit)
    (cur rest : Bytes) (h : plainField value key s cur = .ok (s', rest)) :
    rest.length ≤ cur.length := by
  obtain ⟨l, h1, h2⟩ := map_ok h
  cases h2
  exact hf _ _ h1

theorem readObjectAt_agrees (mem : Nat → Bool) {valueAt : Nat → Option (Except Error Nat)}
    {value : Bytes → Except Error Bytes} (hv : Readers text valueAt value) (hf : Forward value)
    {p : Nat} {cur : Bytes} (h : At text p cur) :
    Returns text (readObjectAt mem text valueAt p)
      ((readObject mem (plainField value) () cur).map (·.2)) := by
  unfold readObjectAt readObject
  obtain ⟨b, q, h1, ⟨rfl, r, h2, h3⟩ | ⟨rfl, h2, -⟩⟩ := consumeAt_agrees OPEN_BRACE h
  · rw [h1, h2]
    simp only [Option.bind_eq_bind, Option.bind_some, if_true]
    obtain ⟨b, q', h4, ⟨rfl, r', h5, h6⟩ | ⟨rfl, h5, h6⟩⟩ := consumeAt_agrees CLOSE_BRACE h3
    · rw [h4, h5]
      exact .ok h6
    · rw [h4, h5]
      simp only [Option.bind_some, Bool.false_eq_true, if_false]
      have hle := skipWhitespace_length r
      have hlen := h3.length
      -- the whitespace that `consume` skipped does not change what the loop reads
      have hloop : objectLoop mem (plainField value) (r.length + 1) [] () r
          = objectLoop mem (plainField value) (text.length + 1) [] () (skipWhitespace r) := by
        rw [objectLoop_turns (plainField_forward hf) (r.length + 1) (text.length + 1) [] () r
          (by omega) (by omega),
          objectLoop, objectLoop, readString_skip]
      rw [hloop]
      exact objectLoopAt_agrees mem hv hf (text.length + 1) .nil h6 (by omega)
  · rw [h1, h2]
    exact .error .invalid

/-- **over pointers `read_value` returns, without a load outside, what it returns over cursors** -/
theorem readValueAt_agrees (mem : Nat → Bool) (levels : Nat) :
    Readers text (readValueAt mem text levels) (readValue mem levels) := by
  induction levels with
  | zero =>
    intro p cur h
    obtain ⟨q, h1, -⟩ := skipWhitespaceAt_at h
    rw [readValueAt, h1]
    exact .error .invalid
  | succ levels ih =>
    intro p cur h
    obtain ⟨q, h1, h2⟩ := skipWhitespaceAt_at h
    rw [readValueAt, readValue, h1]
    simp only [Option.bind_eq_bind, Option.bind_some]
    generalize skipWhitespace cur = l at h2
    cases l with
    | nil =>
      rw [if_pos h2.nil]
      exact .error .invalid
    | cons c r =>
      obtain ⟨h3, h4, h5⟩ := h2.cons
      rw [if_neg (Nat.ne_of_lt h3), h4]
      simp only [Option.bind_some]
      split
      · obtain ⟨x, h6, h7⟩ := readStringAt_agrees h2
        rw [h6]
        generalize readString (c :: r) = o at h7
        cases h7 with
        | none => exact .error .invalid
        | some hab => exact .ok hab.2
      split
      · exact readObjectAt_agrees mem ih (readValue_forward mem levels) h2
      split
      · obtain ⟨b, q', h6, ⟨rfl, r', h7, h8⟩ | ⟨rfl, h7, h8⟩⟩ := consumeAt_agrees CLOSE_BRACKET h5
        · rw [h6, h7]
          exact .ok h8
        · rw [h6, h7]
          simp only [Option.bind_some, Bool.false_eq_true, if_false]
          have hle := skipWhitespace_length r
          have hlen := h5.length
          have hfor := readValue_forward mem levels
          have hskip : readValue mem levels (skipWhitespace r) = readValue mem levels r := by
            cases levels with
            | zero => rfl
            | succ levels => rw [readValue, readValue, skipWhitespace_idem]
          have hloop : arrayLoop (readValue mem levels) (r.length + 1) r
              = arrayLoop (readValue mem levels) (text.length + 1) (skipWhitespace r) := by
            rw [arrayLoop_turns hfor (r.length + 1) (text.length + 1) r (by omega) (by omega),
              arrayLoop, arrayLoop, hskip]
          rw [hloop]
          exact arrayLoopAt_agrees ih hfor (text.length + 1) h8 (by omega)
      · obtain ⟨x, h6, h7⟩ := readScalarAt_agrees h2
        rw [h6]
        generalize readScalar (c :: r) = o at h7
        cases h7 with
        | none => exact .error .invalid
        | some hat => exact .ok hat

/-- the end of the slice, behind nothing but whitespace -/
theorem At.atEnd_iff {p : Nat} {cur : Bytes} (h : At text p cur) :
    skipWhitespaceAt text p = some text.length ↔ skipWhitespace cur = [] := by
  obtain ⟨q, h1, h2⟩ := skipWhitespaceAt_at h
  rw [h1, Option.some.injEq]
  exact h2.end_iff

end

/-- **`read_value` at depth 0, from the start of a slice, its key records allocated: it returns
without a load at or past the end; it succeeds with only whitespace behind it exactly on the
documents; and the cursor it leaves stands behind a value, the longest there is.** -/
theorem readValueAt_language (text : Bytes) :
    ∃ r, readValueAt enoughMemory text (MAX_JSON_DEPTH + 1) 0 = some r ∧
      ((∃ p, r = .ok p ∧ skipWhitespaceAt text p = some text.length) ↔
        Document List.Nodup MAX_JSON_DEPTH text) ∧
      ∀ p, r = .ok p → p ≤ text.length ∧
        (∃ w v, Ws w ∧ Value List.Nodup MAX_JSON_DEPTH v ∧ text.take p = w ++ v) ∧
        ∀ w v u, Ws w → Value List.Nodup MAX_JSON_DEPTH v → text = w ++ (v ++ u) →
        (w ++ v).length ≤ p := by
  obtain ⟨r, h1, h2⟩ := readValueAt_agrees enoughMemory (MAX_JSON_DEPTH + 1) 0 text At.start
  refine ⟨r, h1, ?_⟩
  rw [← readValue_document]
  cases hread : readValue enoughMemory (MAX_JSON_DEPTH + 1) text with
  | error e =>
    rw [hread] at h2
    cases h2
    exact ⟨⟨nofun, nofun⟩, nofun⟩
  | ok rest =>
    rw [hread] at h2
    cases h2 with
    | @ok p _ hat =>
      have hend := hat.atEnd_iff
      refine ⟨⟨?_, ?_⟩, ?_⟩
      · rintro ⟨_, ⟨⟩, h3⟩
        exact ⟨rest, rfl, hend.mp h3⟩
      · rintro ⟨_, ⟨⟩, h3⟩
        exact ⟨p, rfl, hend.mpr h3⟩
      · rintro _ ⟨⟩
        have hlen := hat.length
        have hle := hat.le
        refine ⟨hle, ?_, ?_⟩
        · obtain ⟨w, v, hw, hv, hcur⟩ := readValue_sound hread
          have hp : p = (w ++ v).length := by
            have h3 := congrArg List.length hcur
            rw [← List.append_assoc, List.length_append] at h3
            omega
          refine ⟨w, v, hw, hv, ?_⟩
          rw [hcur, ← List.append_assoc, hp]
          exact List.take_left
        · rintro w v u hw hv rfl
          have h3 := readValue_longest hw
            (show ValueAt List.Nodup (MAX_JSON_DEPTH + 1) v from hv) hread
          rw [← List.append_assoc, List.length_append] at hlen hle
          omega

end Json

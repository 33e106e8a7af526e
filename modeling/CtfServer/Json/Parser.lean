import CtfServer.Json.Literal

/-!
# The JSON reader

`read_value`, `read_object` and `read_positive_integer` (json_parser.c).  A reader takes the
cursor and gives the cursor behind what it read.

The only allocation is one `calloc` for each key of an object, to find duplicate keys:
`mem n` says that the one in front of the last `n` bytes of the input succeeds.  A depth `d` is
kept as the levels left, `MAX_JSON_DEPTH + 1 - d`, and a loop gets more turns than bytes.

* `readValue`, `readObject`    any value, and an object with a reader for its fields;
* `objectLoop_inv`             what the reader of the fields keeps, `readObject` keeps;
* `objectLoop_turns`, `arrayLoop_turns`   the turns of the loops never run out.
-/

set_option linter.unusedVariables false
set_option linter.unusedSimpArgs false

namespace Json

def MAX_JSON_DEPTH : Nat := 64
def INT_MAX : Nat := 2^31 - 1

/-- the levels left at the depth of the fields of the outermost object -/
def FIELD_LEVELS : Nat := MAX_JSON_DEPTH

def consume (c : UInt8) (cur : Bytes) : Option Bytes :=
  match skipWhitespace cur with
  | [] => none
  | x :: cur => if x = c then some cur else none

/-- `read_string`: the slice, and the cursor behind it -/
def readString (cur : Bytes) : Option (Bytes × Bytes) := parseJsonStr (skipWhitespace cur)

def OPEN_BRACE : UInt8 := 123
def CLOSE_BRACE : UInt8 := 125
def OPEN_BRACKET : UInt8 := 91
def CLOSE_BRACKET : UInt8 := 93
def COMMA : UInt8 := 44
def COLON : UInt8 := 58

/-! ## numbers and words -/

def skipDigits (cur : Bytes) : Bytes := cur.dropWhile Decimal.isDigit

/-- at least one digit -/
def readDigits (cur : Bytes) : Option Bytes :=
  if (skipDigits cur).length = cur.length then none else some (skipDigits cur)

def readExponent (cur : Bytes) : Option Bytes :=
  match cur with
  | [] => some []
  | c :: rest =>
    if c = 101 ∨ c = 69 then
      match rest with
      | [] => none
      | s :: rest' => if s = 43 ∨ s = 45 then readDigits rest' else readDigits rest
    else some cur

def readFraction (cur : Bytes) : Option Bytes :=
  match cur with
  | [] => readExponent cur
  | c :: rest => if c = 46 then (readDigits rest).bind readExponent else readExponent cur

/-- the digits of a number, behind its sign -/
def readInteger (cur : Bytes) : Option Bytes :=
  match cur with
  | [] => none
  | c :: rest =>
    if c = 48 then readFraction rest
    else if c < 49 ∨ 57 < c then none
    else readFraction (skipDigits rest)

/-- the end of `read_value`: `true`, `false`, `null` or a number -/
def readScalar (cur : Bytes) : Option Bytes :=
  if ascii "true" <+: cur then some (cur.drop 4)
  else if ascii "false" <+: cur then some (cur.drop 5)
  else if ascii "null" <+: cur then some (cur.drop 4)
  else
    match cur with
    | [] => none
    | c :: rest => if c = 45 then readInteger rest else readInteger cur

/-! ## arrays and objects -/

/-- the loop over the elements of an array -/
def arrayLoop (value : Bytes → Except Error Bytes) : Nat → Bytes → Except Error Bytes
  | 0, _ => .error .invalid
  | turns + 1, cur =>
    match value cur with
    | .error e => .error e
    | .ok cur =>
      match consume CLOSE_BRACKET cur with
      | some cur => .ok cur
      | none =>
        match consume COMMA cur with
        | some cur => arrayLoop value turns cur
        | none => .error .invalid

section
variable {σ : Type}

/-- the loop of `read_object` over the fields; `keys` are the keys read so far -/
def objectLoop (mem : Nat → Bool) (readField : Bytes → σ → Bytes → Except Error (σ × Bytes)) :
    Nat → List Bytes → σ → Bytes → Except Error (σ × Bytes)
  | 0, _, _, _ => .error .invalid
  | turns + 1, keys, context, cur =>
    match readString cur with
    | none => .error .invalid
    | some (key, cur) =>
      if key ∈ keys then .error .invalid
      else if mem cur.length = false then .error .oom
      else
        match consume COLON cur with
        | none => .error .invalid
        | some cur =>
          match readField key context cur with
          | .error e => .error e
          | .ok (context, cur) =>
            match consume CLOSE_BRACE cur with
            | some cur => .ok (context, cur)
            | none =>
              match consume COMMA cur with
              | some cur => objectLoop mem readField turns (key :: keys) context cur
              | none => .error .invalid

/-- `read_object`, at a depth that is not too deep -/
def readObject (mem : Nat → Bool) (readField : Bytes → σ → Bytes → Except Error (σ × Bytes))
    (context : σ) (cur : Bytes) : Except Error (σ × Bytes) :=
  match consume OPEN_BRACE cur with
  | none => .error .invalid
  | some cur =>
    match consume CLOSE_BRACE cur with
    | some cur => .ok (context, cur)
    | none => objectLoop mem readField (cur.length + 1) [] context cur

end

def orInvalid : Option Bytes → Except Error Bytes
  | some cur => .ok cur
  | none => .error .invalid

/-- `read_value`; `levels` is `MAX_JSON_DEPTH + 1 - depth` -/
def readValue (mem : Nat → Bool) : Nat → Bytes → Except Error Bytes
  | 0, _ => .error .invalid
  | levels + 1, cur =>
    match skipWhitespace cur with
    | [] => .error .invalid
    | c :: rest =>
      if c = DQUOTE then orInvalid ((readString (c :: rest)).map (·.2))
      else if c = OPEN_BRACE then
        (readObject mem (fun _ _ cur => (readValue mem levels cur).map fun cur => ((), cur)) ()
          (c :: rest)).map (·.2)
      else if c = OPEN_BRACKET then
        match consume CLOSE_BRACKET rest with
        | some cur => .ok cur
        | none => arrayLoop (readValue mem levels) (rest.length + 1) rest
      else orInvalid (readScalar (c :: rest))

/-! ## `read_positive_integer` -/

/-- the loop over the digits, with its guard against overflow -/
def positiveLoop (number : Nat) : Bytes → Option (Nat × Bytes)
  | [] => some (number, [])
  | c :: cur =>
    if Decimal.isDigit c then
      let digit := Decimal.digit c
      if number > (INT_MAX - digit) / 10 then none else positiveLoop (number * 10 + digit) cur
    else some (number, c :: cur)

/-- `read_positive_integer` -/
def readPositiveInteger (cur : Bytes) : Option (Nat × Bytes) :=
  match skipWhitespace cur with
  | [] => none
  | c :: cur => if c < 49 ∨ 57 < c then none else positiveLoop 0 (c :: cur)

theorem positiveLoop_digits (number : Nat) (ds rest : Bytes)
    (hd : ∀ c ∈ ds, Decimal.isDigit c = true) (hr : ∀ c ∈ rest.head?, Decimal.isDigit c = false) :
    positiveLoop number (ds ++ rest) = (Decimal.readGuarded INT_MAX number ds).map fun n =>
      (n, rest) := by
  induction ds generalizing number with
  | nil =>
    cases rest with
    | nil => rfl
    | cons c rest =>
      show positiveLoop number (c :: rest) = _
      rw [positiveLoop, hr c rfl]
      rfl
  | cons c ds ih =>
    obtain ⟨h1, h2⟩ := List.forall_mem_cons.mp hd
    have hc : ¬ (c < 48 ∨ 57 < c) := by
      have h3 := (Decimal.isDigit_iff c).mp h1
      rw [UInt8.lt_iff_toNat_lt, UInt8.lt_iff_toNat_lt]
      show ¬ (c.toNat < 48 ∨ 57 < c.toNat)
      omega
    rw [List.cons_append, positiveLoop, if_pos h1, Decimal.readGuarded]
    by_cases hg : number > (INT_MAX - Decimal.digit c) / 10
    · simp only [hg, or_true, if_true, Option.map_none]
    · have hno : ¬ (c < 48 ∨ 57 < c ∨ number > (INT_MAX - Decimal.digit c) / 10) := by
        rw [← or_assoc]
        exact fun h => h.elim hc hg
      dsimp only
      rw [if_neg hg, if_neg hno]
      exact ih _ h2

/-- a positive numeral is read as its number -/
theorem readPositiveInteger_digits (n : Nat) (rest : Bytes) (h1 : 1 ≤ n) (h2 : n ≤ INT_MAX)
    (hr : ∀ c ∈ rest.head?, Decimal.isDigit c = false) :
    readPositiveInteger (Decimal.digits n ++ rest) = some (n, rest) := by
  obtain ⟨c, cs, hcs, h49, h57⟩ := Decimal.digits_head n h1
  have hsp : isSpace c = false := by
    unfold isSpace
    simp only [Bool.or_eq_false_iff, beq_eq_false_iff_ne, ne_eq]
    refine ⟨⟨⟨?_, ?_⟩, ?_⟩, ?_⟩ <;> (rintro rfl; revert h49; decide)
  have hrange : ¬ (c < 49 ∨ 57 < c) := by
    rw [UInt8.lt_iff_toNat_lt, UInt8.lt_iff_toNat_lt]
    show ¬ (c.toNat < 49 ∨ 57 < c.toNat)
    omega
  have hskip : skipWhitespace (Decimal.digits n ++ rest) = c :: (cs ++ rest) := by
    rw [hcs]
    unfold skipWhitespace
    rw [List.cons_append, List.dropWhile_cons_of_neg (by rw [hsp]; decide)]
  unfold readPositiveInteger
  rw [hskip]
  simp only [hrange, if_false]
  rw [← List.cons_append, ← hcs, positiveLoop_digits 0 _ rest (Decimal.digits_isDigit n) hr,
    Decimal.readGuarded_digits INT_MAX n (by decide) h2]
  rfl

/-! ## what the loops keep -/

section
variable {σ : Type} {mem : Nat → Bool} {readField : Bytes → σ → Bytes → Except Error (σ × Bytes)}

/-- one turn of the loop over the fields that does not fail -/
theorem objectLoop_turn {turns : Nat} {keys : List Bytes} {context context' : σ} {cur rest : Bytes}
    (h : objectLoop mem readField (turns + 1) keys context cur = .ok (context', rest)) :
    ∃ key cur1 cur2 context1 cur3, readString cur = some (key, cur1) ∧ key ∉ keys ∧
      consume COLON cur1 = some cur2 ∧ readField key context cur2 = .ok (context1, cur3) ∧
        ((consume CLOSE_BRACE cur3 = some rest ∧ context1 = context') ∨
          ∃ cur4, consume COMMA cur3 = some cur4 ∧
            objectLoop mem readField turns (key :: keys) context1 cur4 = .ok (context', rest)) := by
  rw [objectLoop] at h
  split at h
  · cases h
  · next key cur1 hs =>
    split at h
    · cases h
    next hk =>
    split at h
    · cases h
    split at h
    · cases h
    · next cur2 hc =>
      split at h
      · cases h
      · next context1 cur3 hf =>
        refine ⟨key, cur1, cur2, context1, cur3, hs, hk, hc, hf, ?_⟩
        split at h
        · next r hr => cases h; exact Or.inl ⟨hr, rfl⟩
        · split at h
          · next cur4 h4 => exact Or.inr ⟨cur4, h4, h⟩
          · cases h

theorem objectLoop_inv (P : σ → Prop)
    (hf : ∀ key context cur context' rest, P context → readField key context cur =
      .ok (context', rest) →
      P context') {turns : Nat} {keys : List Bytes} {context context' : σ} {cur rest : Bytes}
    (hP : P context) (h : objectLoop mem readField turns keys context cur = .ok (context', rest)) :
    P context' := by
  induction turns generalizing keys context cur with
  | zero => cases h
  | succ turns ih =>
    obtain ⟨key, cur1, cur2, context1, cur3, -, -, -, h3, h4⟩ := objectLoop_turn h
    have h1 := hf key context cur2 context1 cur3 hP h3
    rcases h4 with ⟨-, rfl⟩ | ⟨cur4, -, h5⟩
    · exact h1
    · exact ih h1 h5

/-- what the reader of the fields keeps, `read_object` keeps -/
theorem readObject_inv (P : σ → Prop)
    (hf : ∀ key context cur context' rest, P context → readField key context cur =
      .ok (context', rest) →
      P context') {context context' : σ} {cur rest : Bytes} (hP : P context)
    (h : readObject mem readField context cur = .ok (context', rest)) : P context' := by
  unfold readObject at h
  split at h
  · cases h
  · split at h
    · cases h
      exact hP
    · exact objectLoop_inv P hf hP h

end

theorem readString_literal {cur f rest : Bytes} (h : readString cur = some (f, rest)) : Literal f :=
  ((parseJsonStr_iff _ f rest).mp h).1

/-! ## the loops end before their turns do -/

theorem skipWhitespace_length (cur : Bytes) : (skipWhitespace cur).length ≤ cur.length :=
  (List.dropWhile_suffix isSpace).length_le

theorem consume_length {c : UInt8} {cur rest : Bytes} (h : consume c cur = some rest) :
    rest.length < cur.length := by
  have hs := skipWhitespace_length cur
  unfold consume at h
  split at h
  · cases h
  · next x r hr =>
    rw [hr, List.length_cons] at hs
    split at h <;> cases h
    exact hs

theorem readString_length {cur f rest : Bytes} (h : readString cur = some (f, rest)) :
    rest.length < cur.length := by
  have h1 := congrArg List.length ((parseJsonStr_iff _ f rest).mp h).2
  have hs := skipWhitespace_length cur
  simp only [List.length_cons, List.length_append] at h1
  omega

theorem readDigits_length {cur rest : Bytes} (h : readDigits cur = some rest) :
    rest.length ≤ cur.length := by
  unfold readDigits at h
  split at h <;> cases h
  exact (List.dropWhile_suffix _).length_le

theorem readExponent_length {cur rest : Bytes} (h : readExponent cur = some rest) :
    rest.length ≤ cur.length := by
  unfold readExponent at h
  split at h
  · cases h; exact Nat.le_refl _
  · split at h
    · split at h
      · cases h
      · split at h
        · have := readDigits_length h; simp only [List.length_cons] at this ⊢; omega
        · have := readDigits_length h; simp only [List.length_cons] at this ⊢; omega
    · cases h; exact Nat.le_refl _

theorem readFraction_length {cur rest : Bytes} (h : readFraction cur = some rest) :
    rest.length ≤ cur.length := by
  unfold readFraction at h
  split at h
  · exact readExponent_length h
  · split at h
    · obtain ⟨r, h1, h2⟩ := Option.bind_eq_some_iff.mp h
      have h3 := readDigits_length h1
      have h4 := readExponent_length h2
      rw [List.length_cons]
      omega
    · exact readExponent_length h

theorem readInteger_length {cur rest : Bytes} (h : readInteger cur = some rest) :
    rest.length ≤ cur.length := by
  unfold readInteger at h
  split at h
  · cases h
  · next c r =>
    rw [List.length_cons]
    split at h
    · have := readFraction_length h; omega
    · split at h
      · cases h
      · have h1 := readFraction_length h
        have h2 : (skipDigits r).length ≤ r.length := (List.dropWhile_suffix _).length_le
        omega

theorem readScalar_length {cur rest : Bytes} (h : readScalar cur = some rest) :
    rest.length ≤ cur.length := by
  unfold readScalar at h
  split at h
  · cases h; rw [List.length_drop]; omega
  split at h
  · cases h; rw [List.length_drop]; omega
  split at h
  · cases h; rw [List.length_drop]; omega
  split at h
  · cases h
  · split at h
    · have := readInteger_length h; rw [List.length_cons]; omega
    · exact readInteger_length h

/-- a reader that never moves backwards -/
def Forward (value : Bytes → Except Error Bytes) : Prop :=
  ∀ cur rest, value cur = .ok rest → rest.length ≤ cur.length

theorem arrayLoop_forward {value : Bytes → Except Error Bytes} (hv : Forward value) (turns : Nat) :
    Forward (arrayLoop value turns) := by
  induction turns with
  | zero => intro cur rest h; cases h
  | succ turns ih =>
    intro cur rest h
    rw [arrayLoop] at h
    split at h
    · cases h
    · next cur1 h1 =>
      have h2 := hv _ _ h1
      split at h
      · next r hr => cases h; have := consume_length hr; omega
      · split at h
        · next cur2 hc => have h3 := consume_length hc; have h4 := ih _ _ h; omega
        · cases h

theorem arrayLoop_turns {value : Bytes → Except Error Bytes} (hv : Forward value) (m n : Nat)
    (cur : Bytes)
    (hm : cur.length < m) (hn : cur.length < n) :
    arrayLoop value m cur = arrayLoop value n cur := by
  induction m generalizing n cur with
  | zero => omega
  | succ m ih =>
    cases n with
    | zero => omega
    | succ n =>
      rw [arrayLoop, arrayLoop]
      cases h1 : value cur with
      | error e => rfl
      | ok cur1 =>
        have h2 := hv _ _ h1
        dsimp only
        cases h3 : consume CLOSE_BRACKET cur1 with
        | some r => rfl
        | none =>
          dsimp only
          cases h4 : consume COMMA cur1 with
          | none => rfl
          | some cur2 =>
            have h5 := consume_length h4
            exact ih n cur2 (by omega) (by omega)

section
variable {σ : Type} {mem : Nat → Bool} {readField : Bytes → σ → Bytes → Except Error (σ × Bytes)}

theorem objectLoop_forward (hf : ∀ key context context' cur rest,
    readField key context cur = .ok (context', rest) → rest.length ≤ cur.length)
    {turns : Nat} {keys : List Bytes} {context context' : σ} {cur rest : Bytes}
    (h : objectLoop mem readField turns keys context cur = .ok (context', rest)) :
    rest.length ≤ cur.length := by
  induction turns generalizing keys context cur with
  | zero => cases h
  | succ turns ih =>
    obtain ⟨key, cur1, cur2, context1, cur3, h1, -, h2, h3, h4⟩ := objectLoop_turn h
    have l1 := readString_length h1
    have l2 := consume_length h2
    have l3 := hf _ _ _ _ _ h3
    rcases h4 with ⟨h5, -⟩ | ⟨cur4, h5, h6⟩
    · have := consume_length h5; omega
    · have := consume_length h5; have := ih h6; omega

theorem objectLoop_turns (hf : ∀ key context context' cur rest,
    readField key context cur = .ok (context', rest) → rest.length ≤ cur.length)
    (m n : Nat) (keys : List Bytes) (context : σ) (cur : Bytes) (hm : cur.length < m)
    (hn : cur.length < n) :
    objectLoop mem readField m keys context cur = objectLoop mem readField n keys context cur := by
  induction m generalizing n keys context cur with
  | zero => omega
  | succ m ih =>
    cases n with
    | zero => omega
    | succ n =>
      rw [objectLoop, objectLoop]
      cases h1 : readString cur with
      | none => rfl
      | some p =>
        have l1 : p.2.length < cur.length := readString_length h1
        dsimp only
        split
        · rfl
        split
        · rfl
        cases h2 : consume COLON p.2 with
        | none => rfl
        | some cur2 =>
          have l2 := consume_length h2
          dsimp only
          cases h3 : readField p.1 context cur2 with
          | error e => rfl
          | ok q =>
            have l3 := hf _ _ q.1 _ q.2 h3
            dsimp only
            cases h4 : consume CLOSE_BRACE q.2 with
            | some r => rfl
            | none =>
              dsimp only
              cases h5 : consume COMMA q.2 with
              | none => rfl
              | some cur4 =>
                have l4 := consume_length h5
                exact ih n _ _ cur4 (by omega) (by omega)

theorem readObject_forward (hf : ∀ key context context' cur rest,
    readField key context cur = .ok (context', rest) → rest.length ≤ cur.length)
    {context context' : σ} {cur rest : Bytes}
    (h : readObject mem readField context cur = .ok (context', rest)) :
    rest.length ≤ cur.length := by
  unfold readObject at h
  split at h
  · cases h
  · next cur1 h1 =>
    have l1 := consume_length h1
    split at h
    · next r hr => cases h; have := consume_length hr; omega
    · have := objectLoop_forward hf h; omega

end

theorem map_ok {α β : Type} {f : α → β} {e : Except Error α} {b : β} (h : e.map f = .ok b) :
    ∃ a, e = .ok a ∧ f a = b := by
  cases e with
  | error e => cases h
  | ok a => cases h; exact ⟨a, rfl, rfl⟩

/-- `read_value` never moves backwards, so the loops that call it end before their turns do -/
theorem readValue_forward (mem : Nat → Bool) (levels : Nat) : Forward (readValue mem levels) := by
  induction levels with
  | zero => intro cur rest h; cases h
  | succ levels ih =>
    intro cur rest h
    have hs := skipWhitespace_length cur
    rw [readValue] at h
    split at h
    · cases h
    · next c r hr =>
      rw [hr] at hs
      refine Nat.le_trans ?_ hs
      split at h
      · unfold orInvalid at h
        split at h
        · next x hx =>
          cases h
          obtain ⟨⟨f, l⟩, h1, rfl⟩ := Option.map_eq_some_iff.mp hx
          exact Nat.le_of_lt (readString_length h1)
        · cases h
      split at h
      · obtain ⟨⟨u, l⟩, h1, rfl⟩ := map_ok h
        refine readObject_forward (fun key _ _ cur rest hf => ?_) h1
        obtain ⟨l', h2, h3⟩ := map_ok hf
        cases h3
        exact ih _ _ h2
      split at h
      · rw [List.length_cons]
        split at h
        · next l hl => cases h; have := consume_length hl; omega
        · have := arrayLoop_forward ih _ _ _ h; omega
      · unfold orInvalid at h
        split at h
        · next x hx => cases h; exact readScalar_length hx
        · cases h

/-! ## what was read is read where memory suffices -/

def enoughMemory : Nat → Bool := fun _ => true

theorem arrayLoop_enough {value value' : Bytes → Except Error Bytes}
    (hv : ∀ cur rest, value cur = .ok rest → value' cur = .ok rest) {turns : Nat} {cur rest : Bytes}
    (h : arrayLoop value turns cur = .ok rest) : arrayLoop value' turns cur = .ok rest := by
  induction turns generalizing cur with
  | zero => cases h
  | succ turns ih =>
    rw [arrayLoop] at h ⊢
    cases h1 : value cur with
    | error e => rw [h1] at h; cases h
    | ok cur1 =>
      rw [hv _ _ h1]
      rw [h1] at h
      dsimp only at h ⊢
      cases h2 : consume CLOSE_BRACKET cur1 with
      | some r => rw [h2] at h; exact h
      | none =>
        rw [h2] at h
        dsimp only at h ⊢
        cases h3 : consume COMMA cur1 with
        | none => rw [h3] at h; cases h
        | some cur2 => rw [h3] at h; exact ih h

section
variable {σ : Type} {mem : Nat → Bool} {readField readField' : Bytes → σ → Bytes →
  Except Error (σ × Bytes)}
  (hf : ∀ key context cur x, readField key context cur = .ok x → readField' key context cur = .ok x)
include hf

theorem objectLoop_enough {turns : Nat} {keys : List Bytes} {context : σ} {cur : Bytes}
    {x : σ × Bytes} (h : objectLoop mem readField turns keys context cur = .ok x) :
    objectLoop enoughMemory readField' turns keys context cur = .ok x := by
  induction turns generalizing keys context cur with
  | zero => cases h
  | succ turns ih =>
    rw [objectLoop] at h ⊢
    cases h1 : readString cur with
    | none => rw [h1] at h; cases h
    | some p =>
      rw [h1] at h
      dsimp only at h ⊢
      split at h
      · cases h
      next hk =>
      split at h
      · cases h
      rw [if_neg hk, if_neg (by simp [enoughMemory])]
      cases h2 : consume COLON p.2 with
      | none => rw [h2] at h; cases h
      | some cur2 =>
        rw [h2] at h
        dsimp only at h ⊢
        cases h3 : readField p.1 context cur2 with
        | error e => rw [h3] at h; cases h
        | ok q =>
          rw [h3] at h
          rw [hf _ _ _ _ h3]
          dsimp only at h ⊢
          cases h4 : consume CLOSE_BRACE q.2 with
          | some r => rw [h4] at h; exact h
          | none =>
            rw [h4] at h
            dsimp only at h ⊢
            cases h5 : consume COMMA q.2 with
            | none => rw [h5] at h; cases h
            | some cur4 => rw [h5] at h; exact ih h

theorem readObject_enough {context : σ} {cur : Bytes} {x : σ × Bytes}
    (h : readObject mem readField context cur = .ok x) :
    readObject enoughMemory readField' context cur = .ok x := by
  unfold readObject at h ⊢
  split at h
  · cases h
  · split at h
    · exact h
    · exact objectLoop_enough hf h

end

/-- **a value that was read is read alike where memory suffices** -/
theorem readValue_enough {mem : Nat → Bool} {levels : Nat} {cur rest : Bytes}
    (h : readValue mem levels cur = .ok rest) :
    readValue enoughMemory levels cur = .ok rest := by
  induction levels generalizing cur rest with
  | zero => cases h
  | succ levels ih =>
    rw [readValue] at h ⊢
    split at h
    · cases h
    · next c l hl =>
      split
      · next hq => rw [if_pos hq] at h; exact h
      next hq =>
      rw [if_neg hq] at h
      split
      · next hb =>
        rw [if_pos hb] at h
        obtain ⟨x, hx, rfl⟩ := map_ok h
        rw [readObject_enough (fun _ _ _ y hy => ?_) hx]
        · rfl
        · obtain ⟨z, hz, rfl⟩ := map_ok hy
          rw [ih hz]
          rfl
      next hb =>
      rw [if_neg hb] at h
      split
      · next ha =>
        rw [if_pos ha] at h
        split at h
        · exact h
        · exact arrayLoop_enough (fun _ _ => ih) h
      · next ha => rw [if_neg ha] at h; exact h

end Json

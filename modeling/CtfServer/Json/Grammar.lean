import CtfServer.Json.Utf8
import CtfServer.Json.Parser

/-!
# The grammar of JSON

RFC 8259, over the bytes of a text in UTF-8.  A character stands in the grammar as its encoding,
so that the sequences of a text are valid by construction.

* `Chars`                      what stands between the quotes of a string;
* `Number`                     a number;
* `Elements V`, `Members V`    lists of what `V` says is a value;
* `Value distinct depth`       a value whose nesting is at most `depth`, the keys of each object
                               `distinct`;
* `Document distinct depth`    a value between whitespace;
* `chars_iff`                  `parse_json_str` takes exactly `Chars`;
* `readScalar_number`, `readScalar_longest`   the end of `read_value` takes a number as far as it
                                              goes.
-/

set_option linter.unusedVariables false
set_option linter.unusedSimpArgs false

namespace Json

/-! ## the grammar -/

def Ws (w : Bytes) : Prop := ∀ c ∈ w, c = 0x20 ∨ c = 0x09 ∨ c = 0x0a ∨ c = 0x0d

def HexDigit (c : UInt8) : Prop :=
  (0x30 ≤ c ∧ c ≤ 0x39) ∨ (0x61 ≤ c ∧ c ≤ 0x66) ∨ (0x41 ≤ c ∧ c ≤ 0x46)

inductive CharBytes : Bytes → Prop where
  | unescaped (ch : Char) : 0x20 ≤ ch.val.toNat → ch ≠ '"' → ch ≠ '\\' →
      CharBytes (String.utf8EncodeChar ch)
  | escape (e : UInt8) : e ∈ ascii "\"\\/bfnrt" → CharBytes [0x5c, e]
  | unicode (a b c d : UInt8) : HexDigit a → HexDigit b → HexDigit c → HexDigit d →
      CharBytes [0x5c, 0x75, a, b, c, d]

inductive Chars : Bytes → Prop where
  | nil : Chars []
  | cons {u f : Bytes} : CharBytes u → Chars f → Chars (u ++ f)

def Digit (c : UInt8) : Prop := 0x30 ≤ c ∧ c ≤ 0x39

/-- one digit or more -/
def Digits (ds : Bytes) : Prop := ds ≠ [] ∧ ∀ c ∈ ds, Digit c

inductive IntPart : Bytes → Prop where
  | zero : IntPart [0x30]
  | nonzero (d : UInt8) (ds : Bytes) : 0x31 ≤ d → d ≤ 0x39 → (∀ c ∈ ds, Digit c) → IntPart (d :: ds)

inductive FracPart : Bytes → Prop where
  | absent : FracPart []
  | digits (ds : Bytes) : Digits ds → FracPart (0x2e :: ds)

inductive ExpPart : Bytes → Prop where
  | absent : ExpPart []
  | digits (e : UInt8) (ds : Bytes) : e = 0x65 ∨ e = 0x45 → Digits ds → ExpPart (e :: ds)
  | signed (e s : UInt8) (ds : Bytes) : e = 0x65 ∨ e = 0x45 → s = 0x2b ∨ s = 0x2d → Digits ds →
      ExpPart (e :: s :: ds)

/-- a number without its sign -/
inductive Unsigned : Bytes → Prop where
  | mk {i f x : Bytes} : IntPart i → FracPart f → ExpPart x → Unsigned (i ++ (f ++ x))

inductive Number : Bytes → Prop where
  | plus {u : Bytes} : Unsigned u → Number u
  | minus {u : Bytes} : Unsigned u → Number (0x2d :: u)

section
variable (V : Bytes → Prop)

/-- the values of an array, with the whitespace around them -/
inductive Elements : List Bytes → Bytes → Prop where
  | one {w v w' : Bytes} : Ws w → V v → Ws w' → Elements [v] (w ++ (v ++ w'))
  | more {w v w' es : Bytes} {vs : List Bytes} : Ws w → V v → Ws w' → Elements vs es →
      Elements (v :: vs) (w ++ (v ++ (w' ++ 0x2c :: es)))

/-- one member of an object: its key, its value, the text -/
inductive Member : Bytes × Bytes → Bytes → Prop where
  | mk {w1 key w2 w3 v w4 : Bytes} : Ws w1 → Chars key → Ws w2 → Ws w3 → V v → Ws w4 →
      Member (key, v) (w1 ++ 0x22 :: (key ++ 0x22 :: (w2 ++ 0x3a :: (w3 ++ (v ++ w4)))))

/-- the members of an object; the keys are the raw bytes between the quotes -/
inductive Members : List (Bytes × Bytes) → Bytes → Prop where
  | one {p : Bytes × Bytes} {m : Bytes} : Member V p m → Members [p] m
  | more {p : Bytes × Bytes} {m : Bytes} {ps : List (Bytes × Bytes)} {ms : Bytes} :
      Member V p m → Members ps ms → Members (p :: ps) (m ++ 0x2c :: ms)

end

/-- a value with no value in it -/
inductive Flat : Bytes → Prop where
  | literal (v : Bytes) : v = ascii "true" ∨ v = ascii "false" ∨ v = ascii "null" → Flat v
  | number {v : Bytes} : Number v → Flat v
  | string {f : Bytes} : Chars f → Flat (0x22 :: (f ++ [0x22]))
  | emptyArray {w : Bytes} : Ws w → Flat (0x5b :: (w ++ [0x5d]))
  | emptyObject {w : Bytes} : Ws w → Flat (0x7b :: (w ++ [0x7d]))

/-- a value; the values in it stand at most `depth` levels deeper, and the keys of each object in
it are `distinct` -/
def Value (distinct : List Bytes → Prop) : Nat → Bytes → Prop
  | 0, v => Flat v
  | depth + 1, v => Flat v ∨
      (∃ vs es, Elements (Value distinct depth) vs es ∧ v = 0x5b :: (es ++ [0x5d])) ∨
      (∃ ps ms, Members (Value distinct depth) ps ms ∧ distinct (ps.map Prod.fst) ∧
        v = 0x7b :: (ms ++ [0x7d]))

/-- a text: a value between whitespace -/
def Document (distinct : List Bytes → Prop) (depth : Nat) (text : Bytes) : Prop :=
  ∃ w v w', Ws w ∧ Value distinct depth v ∧ Ws w' ∧ text = w ++ (v ++ w')

/-! ## whitespace -/

theorem isSpace_iff (c : UInt8) : isSpace c = true ↔ c = 0x20 ∨ c = 0x09 ∨ c = 0x0a ∨ c = 0x0d := by
  simp [isSpace, or_assoc]

theorem ws_iff (w : Bytes) : Ws w ↔ ∀ c ∈ w, isSpace c = true := by
  simp only [Ws, isSpace_iff]

theorem Ws.append {w w' : Bytes} (h : Ws w) (h' : Ws w') : Ws (w ++ w') := by
  intro c hc
  exact (List.mem_append.mp hc).elim (h c) (h' c)

/-- the whitespace in front of the cursor -/
theorem skipWhitespace_split (cur : Bytes) :
    ∃ w, Ws w ∧ cur = w ++ skipWhitespace cur ∧ ∀ c ∈ (skipWhitespace cur).head?,
    isSpace c = false := by
  refine ⟨cur.takeWhile isSpace, ?_, List.takeWhile_append_dropWhile.symm, ?_⟩
  · rw [ws_iff]
    intro c hc
    exact List.mem_takeWhile_imp hc
  · intro c hc
    have h := List.head?_dropWhile_not isSpace cur
    unfold skipWhitespace at hc
    rw [Option.mem_def.mp hc] at h
    simpa using h

theorem skipWhitespace_ws {w : Bytes} (h : Ws w) (r : Bytes) :
    skipWhitespace (w ++ r) = skipWhitespace r :=
  List.dropWhile_append_of_pos ((ws_iff w).mp h)

theorem skipWhitespace_head {c : UInt8} (h : isSpace c = false) (r : Bytes) :
    skipWhitespace (c :: r) = c :: r := by
  unfold skipWhitespace
  rw [List.dropWhile_cons_of_neg (by rw [h]; decide)]

theorem skipWhitespace_nil_iff (cur : Bytes) : skipWhitespace cur = [] ↔ Ws cur := by
  rw [ws_iff, skipWhitespace, List.dropWhile_eq_nil_iff]

theorem consume_ws {c : UInt8} (hc : isSpace c = false) {w : Bytes} (h : Ws w) (r : Bytes) :
    consume c (w ++ c :: r) = some r := by
  unfold consume
  rw [skipWhitespace_ws h, skipWhitespace_head hc]
  simp

theorem consume_other {c x : UInt8} (hx : isSpace x = false) (hne : x ≠ c) {w : Bytes} (h : Ws w)
    (r : Bytes) :
    consume c (w ++ x :: r) = none := by
  unfold consume
  rw [skipWhitespace_ws h, skipWhitespace_head hx]
  simp [hne]

theorem consume_split {c : UInt8} {cur rest : Bytes} (h : consume c cur = some rest) :
    ∃ w, Ws w ∧ cur = w ++ c :: rest := by
  obtain ⟨w, hw, hcur, -⟩ := skipWhitespace_split cur
  unfold consume at h
  split at h
  · cases h
  · next x r hr =>
    split at h
    · next hx =>
      cases h
      exact ⟨w, hw, by rw [← hx, ← hr]; exact hcur⟩
    · cases h

/-! ## strings -/

theorem hexDigit_iff (c : UInt8) : HexDigit c ↔ isXDigit c = true := by
  simp [HexDigit, isXDigit, or_assoc]

theorem escape_mem_iff (e : UInt8) : e ∈ ascii "\"\\/bfnrt" ↔ isEscape e = true := by
  have h : ascii "\"\\/bfnrt" = [34, 92, 47, 98, 102, 110, 114, 116] := by decide +kernel
  rw [h]
  simp [isEscape, or_assoc]

theorem char_ascii {ch : Char} (h : ch.val.toNat ≤ 0x7f) :
    String.utf8EncodeChar ch = [UInt8.ofNat ch.val.toNat] := by
  unfold String.utf8EncodeChar
  exact if_pos h

theorem char_ascii_ne {ch d : Char} (h : ch.val.toNat ≤ 0x7f) (hd : d.val.toNat ≤ 0x7f)
    (hne : ch ≠ d) :
    UInt8.ofNat ch.val.toNat ≠ UInt8.ofNat d.val.toNat := by
  intro he
  have h1 := congrArg UInt8.toNat he
  rw [UInt8.toNat_ofNat', UInt8.toNat_ofNat'] at h1
  exact hne (Char.toNat_inj.mp (show ch.val.toNat = d.val.toNat by omega))

theorem CharBytes.piece {u : Bytes} (h : CharBytes u) : Piece u := by
  cases h with
  | unescaped ch h1 h2 h3 =>
    by_cases hlow : ch.val.toNat ≤ 0x7f
    · rw [char_ascii hlow]
      have hv : (UInt8.ofNat ch.val.toNat).toNat = ch.val.toNat := by
        rw [UInt8.toNat_ofNat']
        omega
      refine .plain _ ?_ ?_ (char_ascii_ne hlow (by decide) h2) (char_ascii_ne hlow (by decide) h3)
      · rw [UInt8.lt_iff_toNat_lt, hv]
        exact Nat.not_lt.mpr h1
      · rw [UInt8.le_iff_toNat_le, hv]
        show ¬ 128 ≤ _
        omega
    · cases he : String.utf8EncodeChar ch with
      | nil => exact absurd he (by simp)
      | cons c cs =>
        obtain ⟨h4, h5⟩ := strUtf8_encode (by omega) he
        exact .utf8 c cs h4 h5
  | escape e he => exact .escape e ((escape_mem_iff e).mp he)
  | unicode a b c d ha hb hc hd =>
    exact .unicode a b c d ((hexDigit_iff a).mp ha) ((hexDigit_iff b).mp hb)
      ((hexDigit_iff c).mp hc)
      ((hexDigit_iff d).mp hd)

theorem Piece.charBytes {u : Bytes} (h : Piece u) : CharBytes u := by
  cases h with
  | plain c h1 h2 h3 h4 =>
    rw [UInt8.lt_iff_toNat_lt] at h1
    rw [UInt8.le_iff_toNat_le] at h2
    have h1' : 32 ≤ c.toNat := Nat.not_lt.mp h1
    have h2' : c.toNat < 128 := Nat.not_le.mp h2
    obtain ⟨ch, hch⟩ := exists_char (v := c.toNat) (by omega) (by omega)
    have he : String.utf8EncodeChar ch = [c] := by
      rw [char_ascii (by omega), hch, UInt8.ofNat_toNat]
    rw [← he]
    refine .unescaped ch (by omega) ?_ ?_
    · rintro rfl
      exact h3 (UInt8.toNat_inj.mp hch.symm)
    · rintro rfl
      exact h4 (UInt8.toNat_inj.mp hch.symm)
  | escape e he => exact .escape e ((escape_mem_iff e).mpr he)
  | unicode a b c d ha hb hc hd =>
    exact .unicode a b c d ((hexDigit_iff a).mpr ha) ((hexDigit_iff b).mpr hb)
      ((hexDigit_iff c).mpr hc)
      ((hexDigit_iff d).mpr hd)
  | utf8 c cs hc hs =>
    obtain ⟨ch, h1, h2⟩ := strUtf8_decode hs
    rw [← h2]
    refine .unescaped ch (by omega) ?_ ?_
    · rintro rfl
      exact absurd h1 (by decide)
    · rintro rfl
      exact absurd h1 (by decide)

/-- **What stands between the quotes of a string is what the scanner takes.** -/
theorem chars_iff (f : Bytes) : Chars f ↔ Literal f := by
  constructor
  · intro h
    induction h with
    | nil => exact .nil
    | cons hu _ ih => exact .cons hu.piece ih
  · intro h
    induction h with
    | nil => exact .nil
    | cons hu _ ih => exact .cons hu.charBytes ih

theorem skipWhitespace_idem (cur : Bytes) :
    skipWhitespace (skipWhitespace cur) = skipWhitespace cur := by
  obtain ⟨w, hw, hcur, -⟩ := skipWhitespace_split cur
  have h := skipWhitespace_ws hw (skipWhitespace cur)
  rwa [← hcur, eq_comm] at h

theorem consume_skip (c : UInt8) (cur : Bytes) :
    consume c (skipWhitespace cur) = consume c cur := by
  unfold consume
  rw [skipWhitespace_idem]

theorem readString_skip (cur : Bytes) : readString (skipWhitespace cur) = readString cur := by
  unfold readString
  rw [skipWhitespace_idem]

theorem readString_chars {w f : Bytes} (hw : Ws w) (hf : Chars f) (r : Bytes) :
    readString (w ++ 0x22 :: (f ++ 0x22 :: r)) = some (f, r) := by
  unfold readString
  rw [skipWhitespace_ws hw, skipWhitespace_head (by decide)]
  exact (parseJsonStr_iff _ f r).mpr ⟨(chars_iff f).mp hf, rfl⟩

theorem readString_split {cur f rest : Bytes} (h : readString cur = some (f, rest)) :
    ∃ w, Ws w ∧ Chars f ∧ cur = w ++ 0x22 :: (f ++ 0x22 :: rest) := by
  obtain ⟨w, hw, hcur, -⟩ := skipWhitespace_split cur
  obtain ⟨h1, h2⟩ := (parseJsonStr_iff _ f rest).mp h
  exact ⟨w, hw, (chars_iff f).mpr h1, by rw [hcur, h2]; rfl⟩

/-! ## numbers -/

theorem digit_iff (c : UInt8) : Digit c ↔ Decimal.isDigit c = true := by
  simp [Digit, Decimal.isDigit]

theorem skipDigits_append {ds : Bytes} (h : ∀ c ∈ ds, Digit c) (r : Bytes) :
    skipDigits (ds ++ r) = skipDigits r :=
  List.dropWhile_append_of_pos fun c hc => (digit_iff c).mp (h c hc)

theorem skipDigits_head {c : UInt8} (h : ¬ Digit c) (r : Bytes) : skipDigits (c :: r) = c :: r := by
  unfold skipDigits
  rw [List.dropWhile_cons_of_neg fun hc => h ((digit_iff c).mpr hc)]

theorem skipDigits_length (r : Bytes) : (skipDigits r).length ≤ r.length :=
  (List.dropWhile_suffix _).length_le

theorem skipDigits_split (cur : Bytes) :
    ∃ ds, (∀ c ∈ ds, Digit c) ∧ cur = ds ++ skipDigits cur := by
  refine ⟨cur.takeWhile Decimal.isDigit, ?_, List.takeWhile_append_dropWhile.symm⟩
  intro c hc
  exact (digit_iff c).mpr (List.mem_takeWhile_imp hc)

theorem readDigits_split {cur rest : Bytes} (h : readDigits cur = some rest) :
    ∃ ds, Digits ds ∧ cur = ds ++ rest := by
  obtain ⟨ds, hds, hcur⟩ := skipDigits_split cur
  unfold readDigits at h
  split at h
  · cases h
  · next hne =>
    cases h
    refine ⟨ds, ⟨?_, hds⟩, hcur⟩
    rintro rfl
    exact hne (congrArg List.length hcur).symm

theorem readDigits_digits {ds : Bytes} (h : Digits ds) (r : Bytes) :
    readDigits (ds ++ r) = some (skipDigits r) := by
  have hpos := List.length_pos_iff.mpr h.1
  have hle := skipDigits_length r
  unfold readDigits
  rw [skipDigits_append h.2, List.length_append]
  exact if_neg (by omega)

theorem readExponent_split {cur rest : Bytes} (h : readExponent cur = some rest) :
    ∃ x, ExpPart x ∧ cur = x ++ rest := by
  unfold readExponent at h
  split at h
  · cases h
    exact ⟨[], .absent, rfl⟩
  · next c r =>
    split at h
    · next he =>
      split at h
      · cases h
      · next s r' =>
        split at h
        · next hs =>
          obtain ⟨ds, hds, rfl⟩ := readDigits_split h
          exact ⟨c :: s :: ds, .signed c s ds he hs hds, rfl⟩
        · obtain ⟨ds, hds, hr⟩ := readDigits_split h
          exact ⟨c :: ds, .digits c ds he hds, by rw [hr]; rfl⟩
    · cases h
      exact ⟨[], .absent, rfl⟩

theorem readFraction_split {cur rest : Bytes} (h : readFraction cur = some rest) :
    ∃ f x, FracPart f ∧ ExpPart x ∧ cur = f ++ (x ++ rest) := by
  unfold readFraction at h
  split at h
  · obtain ⟨x, hx, hcur⟩ := readExponent_split h
    exact ⟨[], x, .absent, hx, hcur⟩
  · next c r =>
    split at h
    · next hc =>
      obtain ⟨r1, h1, h2⟩ := Option.bind_eq_some_iff.mp h
      obtain ⟨ds, hds, rfl⟩ := readDigits_split h1
      obtain ⟨x, hx, rfl⟩ := readExponent_split h2
      exact ⟨c :: ds, x, by rw [hc]; exact .digits ds hds, hx, rfl⟩
    · obtain ⟨x, hx, hcur⟩ := readExponent_split h
      exact ⟨[], x, .absent, hx, hcur⟩

theorem readInteger_split {cur rest : Bytes} (h : readInteger cur = some rest) :
    ∃ u, Unsigned u ∧ cur = u ++ rest := by
  unfold readInteger at h
  split at h
  · cases h
  · next c r =>
    split at h
    · next hc =>
      obtain ⟨f, x, hf, hx, rfl⟩ := readFraction_split h
      exact ⟨[0x30] ++ (f ++ x), .mk .zero hf hx, by rw [hc]; simp⟩
    · split at h
      · cases h
      · next hr =>
        obtain ⟨ds, hds, hcur⟩ := skipDigits_split r
        obtain ⟨f, x, hf, hx, hfx⟩ := readFraction_split h
        rw [not_or, UInt8.not_lt, UInt8.not_lt] at hr
        refine ⟨c :: ds ++ (f ++ x), .mk (.nonzero c ds hr.1 hr.2 hds) hf hx, ?_⟩
        rw [hcur, hfx]
        simp

/-- behind a number: neither a digit nor the start of a fraction or an exponent -/
def Stops (r : Bytes) : Prop := ∀ c ∈ r.head?, ¬ Digit c ∧ c ≠ 0x2e ∧ c ≠ 0x65 ∧ c ≠ 0x45

/-- what goes on behind a part of a number -/
structure Tail (g : Bytes → Option Bytes) : Prop where
  stops : ∀ r, Stops r → g r = some r
  forward : ∀ r rest, g r = some rest → rest.length ≤ r.length

theorem skipDigits_stops {r : Bytes} (h : Stops r) : skipDigits r = r := by
  cases r with
  | nil => rfl
  | cons c r => exact skipDigits_head (h c rfl).1 r

theorem readExponent_stops {r : Bytes} (h : Stops r) : readExponent r = some r := by
  cases r with
  | nil => rfl
  | cons c r =>
    obtain ⟨-, -, h1, h2⟩ := h c rfl
    exact if_neg fun hc => hc.elim h1 h2

theorem readFraction_stops {r : Bytes} (h : Stops r) : readFraction r = some r := by
  cases r with
  | nil => rfl
  | cons c r =>
    refine (if_neg ?_).trans (readExponent_stops h)
    exact (h c rfl).2.1

theorem Tail.skip {g : Bytes → Option Bytes} (h : Tail g) : Tail fun r => g (skipDigits r) where
  stops := fun r hr => by
    show g (skipDigits r) = some r
    rw [skipDigits_stops hr]
    exact h.stops r hr
  forward := fun r rest hr => Nat.le_trans (h.forward _ _ hr) (skipDigits_length r)

theorem Tail.end : Tail some where
  stops := fun _ _ => rfl
  forward := fun r rest hr => by
    cases hr
    exact Nat.le_refl _

theorem Tail.exponent : Tail readExponent :=
  ⟨fun _ => readExponent_stops, fun _ _ => readExponent_length⟩

theorem Tail.fraction : Tail readFraction :=
  ⟨fun _ => readFraction_stops, fun _ _ => readFraction_length⟩

/-- a sign or a digit: two bytes apart -/
theorem digit_not_sign {c : UInt8} (h : Digit c) : ¬ (c = 43 ∨ c = 45) := by
  rintro (rfl | rfl) <;> exact absurd h (by unfold Digit; decide)

theorem ExpPart.read {x : Bytes} (h : ExpPart x) :
    x = [] ∨ ∃ e t, x = e :: t ∧ (e = 0x65 ∨ e = 0x45) ∧ ∀ r, readExponent (x ++ r) =
    some (skipDigits r) := by
  cases h with
  | absent => exact Or.inl rfl
  | digits e ds he hds =>
    refine Or.inr ⟨e, ds, rfl, he, fun r => ?_⟩
    show readExponent (e :: (ds ++ r)) = _
    have hd := readDigits_digits hds r
    cases ds with
    | nil => exact absurd rfl hds.1
    | cons d ds =>
      refine (if_pos he).trans ?_
      exact (if_neg (digit_not_sign (hds.2 d (List.mem_cons_self ..)))).trans hd
  | signed e s ds he hs hds =>
    refine Or.inr ⟨e, s :: ds, rfl, he, fun r => ?_⟩
    show readExponent (e :: s :: (ds ++ r)) = _
    exact (if_pos he).trans ((if_pos hs).trans (readDigits_digits hds r))

theorem letter_e {e : UInt8} (h : e = 0x65 ∨ e = 0x45) : ¬ Digit e ∧ e ≠ 46 := by
  rcases h with rfl | rfl <;> exact ⟨by unfold Digit; decide, by decide⟩

theorem fraction_read {f x : Bytes} (hf : FracPart f) (hx : ExpPart x) :
    (f = [] ∧ x = []) ∨
      ∃ g, Tail g ∧ (∃ c t, f ++ x = c :: t ∧ ¬ Digit c) ∧ ∀ r, readFraction
      (f ++ (x ++ r)) = g r := by
  cases hf with
  | absent =>
    rcases hx.read with rfl | ⟨e, t, rfl, he, h⟩
    · exact Or.inl ⟨rfl, rfl⟩
    · refine Or.inr ⟨_, Tail.end.skip, ⟨e, t, rfl, (letter_e he).1⟩, fun r => ?_⟩
      exact (if_neg (letter_e he).2).trans (h r)
  | digits ds hds =>
    right
    have hdot : ∀ r, readFraction (0x2e :: ds ++ (x ++ r)) = readExponent
      (skipDigits (x ++ r)) := by
      intro r
      show (readDigits (ds ++ (x ++ r))).bind readExponent = _
      rw [readDigits_digits hds]
      rfl
    refine (hx.read).elim ?_ ?_
    · rintro rfl
      exact ⟨_, Tail.exponent.skip, ⟨_, _, rfl, by unfold Digit; decide⟩, hdot⟩
    · rintro ⟨e, t, rfl, he, h⟩
      refine ⟨_, Tail.end.skip, ⟨_, _, rfl, by unfold Digit; decide⟩, fun r => ?_⟩
      rw [hdot r]
      show readExponent (skipDigits (e :: (t ++ r))) = _
      rw [skipDigits_head (letter_e he).1]
      exact h r

theorem Unsigned.head {u : Bytes} (h : Unsigned u) : ∃ c t, u = c :: t ∧ Digit c := by
  obtain ⟨hi, -, -⟩ := h
  cases hi with
  | zero => exact ⟨_, _, rfl, by unfold Digit; decide⟩
  | nonzero d ds h1 h2 _ =>
    refine ⟨d, _, rfl, ?_, h2⟩
    exact UInt8.le_trans (by decide) h1

theorem Unsigned.read {u : Bytes} (h : Unsigned u) :
    ∃ g, Tail g ∧ ∀ r, readInteger (u ++ r) = g r := by
  obtain @⟨i, f, x, hi, hf, hx⟩ := h
  cases hi with
  | zero =>
    rcases fraction_read hf hx with ⟨rfl, rfl⟩ | ⟨g, hg, -, h⟩
    · exact ⟨_, Tail.fraction, fun r => rfl⟩
    · refine ⟨g, hg, fun r => ?_⟩
      rw [List.append_assoc, List.append_assoc]
      exact h r
  | nonzero d ds h1 h2 hds =>
    have hint : ∀ t, readInteger (d :: (ds ++ t)) = readFraction (skipDigits t) := by
      intro t
      have hd : ¬ (d < 49 ∨ 57 < d) := not_or.mpr ⟨UInt8.not_lt.mpr h1, UInt8.not_lt.mpr h2⟩
      have h0 : d ≠ 48 := by
        rintro rfl
        exact absurd h1 (by decide)
      unfold readInteger
      simp only [if_neg h0, if_neg hd, skipDigits_append hds]
    rcases fraction_read hf hx with ⟨rfl, rfl⟩ | ⟨g, hg, ⟨c, t, hct, hc⟩, h⟩
    · refine ⟨_, Tail.fraction.skip, fun r => ?_⟩
      rw [List.append_nil, List.append_nil]
      exact hint r
    · refine ⟨g, hg, fun r => ?_⟩
      have hhead : skipDigits (f ++ (x ++ r)) = f ++ (x ++ r) := by
        rw [← List.append_assoc, hct]
        exact skipDigits_head hc _
      show readInteger (d :: (ds ++ (f ++ x) ++ r)) = g r
      rw [List.append_assoc, List.append_assoc, hint, hhead]
      exact h r

/-! ## words and numbers -/

theorem ascii_true : ascii "true" = [116, 114, 117, 101] := by decide +kernel
theorem ascii_false : ascii "false" = [102, 97, 108, 115, 101] := by decide +kernel
theorem ascii_null : ascii "null" = [110, 117, 108, 108] := by decide +kernel

theorem readScalar_word {v : Bytes} (h : v = ascii "true" ∨ v = ascii "false" ∨ v = ascii "null")
    (r : Bytes) :
    readScalar (v ++ r) = some r := by
  unfold readScalar
  rw [ascii_true, ascii_false, ascii_null] at *
  rcases h with rfl | rfl | rfl <;> simp

theorem readScalar_other {c : UInt8} (h1 : c ≠ 116) (h2 : c ≠ 102) (h3 : c ≠ 110) (r : Bytes) :
    readScalar (c :: r) = if c = 45 then readInteger r else readInteger (c :: r) := by
  unfold readScalar
  rw [ascii_true, ascii_false, ascii_null]
  simp only [List.cons_prefix_cons, Ne.symm h1, Ne.symm h2, Ne.symm h3, false_and, if_false]

theorem digit_other {c : UInt8} (h : Digit c) : c ≠ 116 ∧ c ≠ 102 ∧ c ≠ 110 ∧ c ≠ 45 := by
  refine ⟨?_, ?_, ?_, ?_⟩ <;> (rintro rfl; exact absurd h (by unfold Digit; decide))

theorem Number.read {v : Bytes} (h : Number v) : ∃ g, Tail g ∧ ∀ r, readScalar (v ++ r) = g r := by
  cases h with
  | plus hu =>
    obtain ⟨g, hg, h⟩ := hu.read
    obtain ⟨c, t, rfl, hc⟩ := hu.head
    obtain ⟨h1, h2, h3, h4⟩ := digit_other hc
    refine ⟨g, hg, fun r => ?_⟩
    rw [← h r]
    exact (readScalar_other h1 h2 h3 _).trans (if_neg h4)
  | minus hu =>
    obtain ⟨g, hg, h⟩ := hu.read
    refine ⟨g, hg, fun r => ?_⟩
    rw [← h r]
    exact (readScalar_other (by decide) (by decide) (by decide) _).trans (if_pos rfl)

/-- a number is read up to its end -/
theorem readScalar_number {v r : Bytes} (h : Number v) (hr : Stops r) :
    readScalar (v ++ r) = some r := by
  obtain ⟨g, hg, h1⟩ := h.read
  rw [h1]
  exact hg.stops r hr

/-- no more of a number could be read than was read -/
theorem readScalar_longest {v r rest : Bytes} (h : Number v)
    (hr : readScalar (v ++ r) = some rest) :
    rest.length ≤ r.length := by
  obtain ⟨g, hg, h1⟩ := h.read
  rw [h1] at hr
  exact hg.forward r rest hr

theorem readScalar_split {cur rest : Bytes} (h : readScalar cur = some rest) :
    ∃ v, Flat v ∧ cur = v ++ rest := by
  have hword : ∀ w : Bytes, w = ascii "true" ∨ w = ascii "false" ∨ w = ascii "null" →
      w <+: cur → cur.drop w.length = rest → ∃ v, Flat v ∧ cur = v ++ rest := by
    rintro w hw ⟨t, rfl⟩ rfl
    exact ⟨w, .literal w hw, by rw [List.drop_left]⟩
  unfold readScalar at h
  split at h
  · next hp => cases h; exact hword _ (Or.inl rfl) hp (by rw [ascii_true]; rfl)
  split at h
  · next hp => cases h; exact hword _ (Or.inr (Or.inl rfl)) hp (by rw [ascii_false]; rfl)
  split at h
  · next hp => cases h; exact hword _ (Or.inr (Or.inr rfl)) hp (by rw [ascii_null]; rfl)
  split at h
  · cases h
  · next c r _ _ _ =>
    split at h
    · next hc =>
      obtain ⟨u, hu, rfl⟩ := readInteger_split h
      exact ⟨c :: u, .number (by rw [hc]; exact .minus hu), rfl⟩
    · obtain ⟨u, hu, hcur⟩ := readInteger_split h
      exact ⟨u, .number (.plus hu), hcur⟩

end Json

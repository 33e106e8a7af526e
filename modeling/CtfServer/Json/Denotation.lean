import CtfServer.Json.Grammar
import CtfServer.Lib.Heap

/-!
# What the body of a string denotes, and how it is decoded

`json_string_equal_decoded` and `json_string_decode` (json_string.c) against the characters that a
string body stands for.

* `CharDenotes u ch`, `Denotes s chs`   the bytes of one character, of a string body;
* `codepoints_denotes`     `read_codepoint`, turn by turn, reads what the body denotes;
* `StringT`, `OwnedString` a `string_t` with its address, and one that owns its block;
* `jsonStringEqualDecoded`, `jsonStringDecode`   the two functions, the second with its block on
                           the heap and its stores (`none` for one outside the block);
* `jsonString_decoding`    comparing and decoding are what the characters say, and the buffer is
                           never left.
-/

set_option linter.unusedVariables false
set_option linter.unusedSimpArgs false

namespace Json

/-! ## what a body denotes -/

/-- the letters behind a backslash and the code points they stand for -/
def escapes : List (UInt8 × Nat) :=
  [(0x22, 0x22), (0x5c, 0x5c), (0x2f, 0x2f), (0x62, 0x08), (0x66, 0x0c), (0x6e, 0x0a), (0x72, 0x0d),
    (0x74, 0x09)]

/-- the bytes of one character: itself in UTF-8, an escape, a `\u` escape, a surrogate pair -/
inductive CharDenotes : Bytes → Char → Prop where
  | unescaped (ch : Char) : 0x20 ≤ ch.val.toNat → ch ≠ '"' → ch ≠ '\\' →
      CharDenotes (String.utf8EncodeChar ch) ch
  | escape (e : UInt8) (ch : Char) : (e, ch.val.toNat) ∈ escapes → CharDenotes [0x5c, e] ch
  | unicode (a b c d : UInt8) (ch : Char) : HexDigit a → HexDigit b → HexDigit c → HexDigit d →
      ch.val.toNat = quad a b c d → CharDenotes [0x5c, 0x75, a, b, c, d] ch
  | pair (a b c d a' b' c' d' : UInt8) (ch : Char) : HexDigit a → HexDigit b → HexDigit c →
      HexDigit d → HexDigit a' → HexDigit b' → HexDigit c' → HexDigit d' →
      0xd800 ≤ quad a b c d → quad a b c d ≤ 0xdbff →
      0xdc00 ≤ quad a' b' c' d' → quad a' b' c' d' ≤ 0xdfff →
      ch.val.toNat = 0x10000 + (quad a b c d - 0xd800) * 0x400 + (quad a' b' c' d' - 0xdc00) →
      CharDenotes [0x5c, 0x75, a, b, c, d, 0x5c, 0x75, a', b', c', d'] ch

/-- the characters of a string body -/
inductive Denotes : Bytes → List Char → Prop where
  | nil : Denotes [] []
  | cons {u s : Bytes} {ch : Char} {chs : List Char} : CharDenotes u ch → Denotes s chs →
      Denotes (u ++ s) (ch :: chs)

/-- the shortest form in UTF-8 -/
def encode (chs : List Char) : Bytes := chs.flatMap String.utf8EncodeChar

theorem encode_cons (ch : Char) (chs : List Char) :
    encode (ch :: chs) = String.utf8EncodeChar ch ++ encode chs := rfl

/-- different characters have different encodings -/
theorem encode_inj {x y : List Char} (h : encode x = encode y) : x = y := by
  have h1 : x.utf8Encode = y.utf8Encode := congrArg List.toByteArray h
  have h2 := congrArg ByteArray.utf8Decode? h1
  rw [List.utf8Decode?_utf8Encode, List.utf8Decode?_utf8Encode, Option.some.injEq] at h2
  simpa using h2

/-! ## one turn of `read_codepoint` -/

theorem escapeValue_iff (e : UInt8) (n : Nat) : escapeValue e = some n ↔ (e, n) ∈ escapes := by
  constructor
  · intro h
    unfold escapeValue at h
    split_ifs at h with h1 h2 h3 h4 h5 h6
    · rcases h1 with rfl | rfl | rfl <;> cases h <;> decide
    · cases h
      subst h2
      decide
    · cases h
      subst h3
      decide
    · cases h
      subst h4
      decide
    · cases h
      subst h5
      decide
    · cases h
      subst h6
      decide
  · intro h
    simp only [escapes, List.mem_cons, Prod.mk.injEq, List.not_mem_nil, or_false] at h
    rcases h with h | h | h | h | h | h | h | h <;> (obtain ⟨rfl, rfl⟩ := h; rfl)

/-- the encoding of a character, in front of anything -/
theorem readUtf8_char {c : UInt8} {cs : Bytes} (h : strUtf8 c cs = some []) :
    ∃ ch : Char, 0x80 ≤ ch.val.toNat ∧ String.utf8EncodeChar ch = c :: cs ∧
      ∀ l, readUtf8 c (cs ++ l) = some (ch.val.toNat, l) := by
  obtain ⟨ch, count, bits, minimum, h1, h2, h3, h4, h5⟩ := strUtf8_char h
  refine ⟨ch, h4, h5, fun l => ?_⟩
  have hlead : codepointLead c = some (count, bits, minimum) := h1
  have hr := char_range ch
  unfold readUtf8
  simp only [hlead, continuation_append l h2]
  rw [if_pos (by omega)]

theorem readUtf8_inv {c : UInt8} {cur rest : Bytes} {v : Nat}
    (h : readUtf8 c cur = some (v, rest)) :
    ∃ cs, cur = cs ++ rest ∧ strUtf8 c cs = some [] := by
  refine strUtf8_split ?_
  unfold readUtf8 at h
  cases hl : codepointLead c with
  | none => simp [hl] at h
  | some p =>
    obtain ⟨count, bits, minimum⟩ := p
    have hlead : strLead c = some (count, bits, minimum) := hl
    simp only [hl] at h
    cases hc : continuation count bits cur with
    | none => simp [hc] at h
    | some q =>
      obtain ⟨v', rest'⟩ := q
      simp only [hc] at h
      split_ifs at h with hv
      cases h
      unfold strUtf8
      simp only [hlead, hc]
      rw [if_neg (by omega)]

theorem hexQuad_inv {cur rest : Bytes} {v : Nat} (h : hexQuad cur = some (v, rest)) :
    ∃ a b c d, cur = a :: b :: c :: d :: rest ∧ HexDigit a ∧ HexDigit b ∧ HexDigit c ∧
      HexDigit d ∧ v = quad a b c d := by
  have hdigit : ∀ {c : UInt8} {n : Nat}, hexDigit c = some n → HexDigit c := by
    intro c n hc
    unfold hexDigit at hc
    unfold HexDigit
    split_ifs at hc with h1 h2 h3
    · exact .inl h1
    · exact .inr (.inl h2)
    · exact .inr (.inr h3)
  unfold hexQuad at h
  split at h
  · next a b c d cur =>
    split at h
    · next ha hb hc hd =>
      cases h
      refine ⟨a, b, c, d, rfl, hdigit ha, hdigit hb, hdigit hc, hdigit hd, ?_⟩
      simp only [quad, ha, hb, hc, hd, Option.getD_some]
    · cases h
  · cases h

theorem quad_lt (a b c d : UInt8) : quad a b c d < 0x10000 := by
  have hdigit : ∀ c : UInt8, (hexDigit c).getD 0 < 16 := by
    intro c
    unfold hexDigit
    split_ifs with h1 h2 h3
    · have := UInt8.le_iff_toNat_le.mp h1.2
      simp at this ⊢
      omega
    · have := UInt8.le_iff_toNat_le.mp h2.2
      simp at this ⊢
      omega
    · have := UInt8.le_iff_toNat_le.mp h3.2
      simp at this ⊢
      omega
    · simp
  have ha := hdigit a
  have hb := hdigit b
  have hc := hdigit c
  have hd := hdigit d
  unfold quad
  dsimp only
  omega

theorem isHigh_iff (v : Nat) : isHigh v = true ↔ 0xd800 ≤ v ∧ v ≤ 0xdbff := by
  simp [isHigh]

theorem isLow_iff (v : Nat) : isLow v = true ↔ 0xdc00 ≤ v ∧ v ≤ 0xdfff := by
  simp [isLow]

theorem readCodepoint_escape (cur : Bytes) : readCodepoint (0x5c :: cur) = readEscape cur := by
  rw [readCodepoint]
  exact if_pos rfl

/-- **A character is read as what it is**, whatever stands behind it. -/
theorem CharDenotes.read {u : Bytes} {ch : Char} (h : CharDenotes u ch) (l : Bytes) :
    readCodepoint (u ++ l) = some (ch.val.toNat, l) := by
  cases h with
  | unescaped _ h1 h2 h3 =>
    by_cases hlow : ch.val.toNat ≤ 0x7f
    · have hv : (UInt8.ofNat ch.val.toNat).toNat = ch.val.toNat := by
        rw [UInt8.toNat_ofNat']
        omega
      have hq : UInt8.ofNat ch.val.toNat ≠ DQUOTE := char_ascii_ne hlow (by decide) h2
      have hb : UInt8.ofNat ch.val.toNat ≠ BACKSLASH := char_ascii_ne hlow (by decide) h3
      rw [char_ascii hlow, List.singleton_append, readCodepoint, if_neg hb, if_neg, if_pos, hv]
      · rw [UInt8.lt_iff_toNat_lt, hv]
        exact Nat.lt_succ_of_le hlow
      · rintro (h4 | h4)
        · rw [UInt8.lt_iff_toNat_lt, hv] at h4
          exact absurd h1 (Nat.not_le.mpr h4)
        · exact hq h4
    · cases he : String.utf8EncodeChar ch with
      | nil => exact absurd he (by simp)
      | cons c cs =>
        obtain ⟨h4, h5⟩ := strUtf8_encode (by omega) he
        obtain ⟨ch', -, h6, h7⟩ := readUtf8_char h5
        have heq : [ch'] = [ch] := encode_inj (by simp [encode, he, h6])
        cases heq
        have hb : c ≠ BACKSLASH := by
          rintro rfl
          exact absurd h4 (by decide)
        have hc : ¬ (c < 0x20 ∨ c = DQUOTE) := by
          rintro (h8 | rfl)
          · exact absurd (UInt8.lt_of_le_of_lt h4 h8) (by decide)
          · exact absurd h4 (by decide)
        rw [List.cons_append, readCodepoint, if_neg hb, if_neg hc, if_neg (UInt8.not_lt.mpr h4), h7]
  | escape e _ he =>
    have hv := (escapeValue_iff e _).mpr he
    have hu : e ≠ LETTER_U := by
      rintro rfl
      cases hv
    show readCodepoint (0x5c :: e :: l) = _
    rw [readCodepoint_escape, readEscape, if_neg hu, hv]
  | unicode a b c d _ ha hb hc hd hv =>
    have hr := char_range ch
    show readCodepoint (BACKSLASH :: LETTER_U :: a :: b :: c :: d :: l) = _
    rw [read_unicode ((hexDigit_iff a).mp ha) ((hexDigit_iff b).mp hb) ((hexDigit_iff c).mp hc)
      ((hexDigit_iff d).mp hd), if_neg, if_neg, hv]
    · rw [isLow_iff]
      omega
    · rw [isHigh_iff]
      omega
  | pair a b c d a' b' c' d' _ ha hb hc hd ha' hb' hc' hd' h1 h2 h3 h4 hv =>
    show readCodepoint (BACKSLASH :: LETTER_U :: a :: b :: c :: d ::
      BACKSLASH :: LETTER_U :: a' :: b' :: c' :: d' :: l) = _
    have hlow := hexQuad_some ((hexDigit_iff a').mp ha') ((hexDigit_iff b').mp hb')
      ((hexDigit_iff c').mp hc') ((hexDigit_iff d').mp hd') l
    rw [read_unicode ((hexDigit_iff a).mp ha) ((hexDigit_iff b).mp hb) ((hexDigit_iff c).mp hc)
      ((hexDigit_iff d).mp hd), if_pos ((isHigh_iff _).mpr ⟨h1, h2⟩)]
    dsimp only
    rw [if_pos (And.intro rfl rfl)]
    generalize hexQuad (a' :: b' :: c' :: d' :: l) = o at hlow ⊢
    subst hlow
    show (if isLow _ then some _ else none) = _
    rw [if_pos ((isLow_iff _).mpr ⟨h3, h4⟩), hv, Nat.shiftLeft_eq]
    refine congrArg (fun v => some (v, l)) ?_
    omega

/-- **What is read is a character.** -/
theorem readCodepoint_inv {cur rest : Bytes} {v : Nat} (h : readCodepoint cur = some (v, rest)) :
    ∃ u ch, CharDenotes u ch ∧ ch.val.toNat = v ∧ cur = u ++ rest := by
  cases cur with
  | nil => cases h
  | cons c cur =>
    rw [readCodepoint] at h
    split_ifs at h with hb hc hlow
    · subst hb
      cases cur with
      | nil => cases h
      | cons e cur =>
        rw [readEscape] at h
        split_ifs at h with hu
        · subst hu
          unfold readUnicode at h
          cases hq : hexQuad cur with
          | none => simp [hq] at h
          | some p =>
            obtain ⟨value, cur'⟩ := p
            obtain ⟨a, b, x, d, rfl, ha, hb, hx, hd, rfl⟩ := hexQuad_inv hq
            have hlt := quad_lt a b x d
            simp only [hq] at h
            split_ifs at h with hhigh hlow
            · -- a high surrogate: the other half follows
              split at h
              · next y z cur'' =>
                split_ifs at h with hyz
                obtain ⟨rfl, rfl⟩ := hyz
                cases hq' : hexQuad cur'' with
                | none => simp [hq'] at h
                | some p =>
                  obtain ⟨low, cur3⟩ := p
                  obtain ⟨a', b', x', d', rfl, ha', hb', hx', hd', rfl⟩ := hexQuad_inv hq'
                  simp only [hq'] at h
                  split_ifs at h with hlow
                  rw [Option.some.injEq, Prod.mk.injEq, Nat.shiftLeft_eq] at h
                  obtain ⟨hv, rfl⟩ := h
                  obtain ⟨h1, h2⟩ := (isHigh_iff _).mp hhigh
                  obtain ⟨h3, h4⟩ := (isLow_iff _).mp hlow
                  obtain ⟨ch, hch⟩ := exists_char (v := v) (by omega) (by omega)
                  exact ⟨_, ch, .pair a b x d a' b' x' d' ch ha hb hx hd ha' hb' hx' hd' h1 h2 h3 h4
                    (by omega), hch, rfl⟩
              · cases h
            · rw [Option.some.injEq, Prod.mk.injEq] at h
              obtain ⟨rfl, rfl⟩ := h
              rw [isHigh_iff] at hhigh
              rw [isLow_iff] at hlow
              obtain ⟨ch, hch⟩ := exists_char (v := quad a b x d) (by omega) (by omega)
              exact ⟨_, ch, .unicode a b x d ch ha hb hx hd hch, hch, rfl⟩
        · cases he : escapeValue e with
          | none => simp [he] at h
          | some n =>
            simp only [he] at h
            cases h
            have hmem := (escapeValue_iff e v).mp he
            have hv : v ≤ 0x7f := by
              simp only [escapes, List.mem_cons, Prod.mk.injEq, List.not_mem_nil, or_false] at hmem
              omega
            obtain ⟨ch, hch⟩ := exists_char (v := v) (by omega) (by omega)
            exact ⟨_, ch, .escape e ch (by rw [hch]; exact hmem), hch, rfl⟩
    · rw [Option.some.injEq, Prod.mk.injEq] at h
      obtain ⟨rfl, rfl⟩ := h
      push Not at hc
      have h1 : 32 ≤ c.toNat := Nat.not_lt.mp fun h => hc.1 (UInt8.lt_iff_toNat_lt.mpr h)
      have h2 : c.toNat < 128 := UInt8.lt_iff_toNat_lt.mp hlow
      obtain ⟨ch, hch⟩ := exists_char (v := c.toNat) (by omega) (by omega)
      have he : String.utf8EncodeChar ch = [c] := by
        rw [char_ascii (by omega), hch, UInt8.ofNat_toNat]
      refine ⟨[c], ch, ?_, hch, rfl⟩
      rw [← he]
      refine .unescaped ch (by omega) ?_ ?_
      · rintro rfl
        exact hc.2 (UInt8.toNat_inj.mp hch.symm)
      · rintro rfl
        exact hb (UInt8.toNat_inj.mp hch.symm)
    · obtain ⟨cs, rfl, hcs⟩ := readUtf8_inv h
      obtain ⟨ch, h1, h2, h3⟩ := readUtf8_char hcs
      rw [h3, Option.some.injEq, Prod.mk.injEq] at h
      refine ⟨c :: cs, ch, ?_, h.1, rfl⟩
      rw [← h2]
      refine .unescaped ch (by omega) ?_ ?_
      · rintro rfl
        exact absurd h1 (by decide)
      · rintro rfl
        exact absurd h1 (by decide)

/-! ## a body -/

theorem CharDenotes.ne_nil {u : Bytes} {ch : Char} (h : CharDenotes u ch) : u ≠ [] := by
  rintro rfl
  have h1 := h.read []
  cases h1

theorem Denotes.read {s : Bytes} {chs : List Char} (h : Denotes s chs) :
    codepoints s = some (chs.map (·.val.toNat)) := by
  induction h with
  | nil => exact codepoints_nil
  | cons hu _ ih =>
    rw [codepoints_step _ (by simp [hu.ne_nil]), hu.read, Option.bind_some, ih]
    rfl

theorem codepoints_inv {s : Bytes} {vs : List Nat} (h : codepoints s = some vs) :
    ∃ chs, Denotes s chs ∧ chs.map (·.val.toNat) = vs := by
  obtain ⟨n, hn⟩ : ∃ n, n = s.length := ⟨_, rfl⟩
  induction n using Nat.strong_induction_on generalizing s vs with
  | _ n ih =>
    by_cases hs : s = []
    · subst hs
      rw [codepoints_nil, Option.some.injEq] at h
      exact ⟨[], .nil, h⟩
    · rw [codepoints_step s hs, Option.bind_eq_some_iff] at h
      obtain ⟨⟨v, rest⟩, hread, h⟩ := h
      obtain ⟨vs', hrest, rfl⟩ := Option.map_eq_some_iff.mp h
      obtain ⟨u, ch, hu, rfl, rfl⟩ := readCodepoint_inv hread
      have hlt := readCodepoint_length _ rest _ hread
      obtain ⟨chs, hchs, rfl⟩ := ih rest.length (by omega) hrest rfl
      exact ⟨ch :: chs, .cons hu hchs, rfl⟩

theorem chars_inj {x y : List Char} (h : x.map (·.val.toNat) = y.map (·.val.toNat)) : x = y :=
  List.map_injective_iff.mpr (fun a b hab => Char.toNat_inj.mp hab) h

/-- **The code points that are read are the characters that the body denotes.** -/
theorem codepoints_denotes (s : Bytes) (chs : List Char) :
    Denotes s chs ↔ codepoints s = some (chs.map (·.val.toNat)) := by
  constructor
  · exact Denotes.read
  · intro h
    obtain ⟨chs', h1, h2⟩ := codepoints_inv h
    rwa [← chars_inj h2]

/-- what denotes nothing has no code points -/
theorem codepoints_none_iff (s : Bytes) : codepoints s = none ↔ ¬ ∃ chs, Denotes s chs := by
  constructor
  · rintro h ⟨chs, hd⟩
    rw [hd.read] at h
    cases h
  · intro h
    cases hc : codepoints s with
    | none => rfl
    | some vs =>
      obtain ⟨chs, h1, -⟩ := codepoints_inv hc
      exact absurd ⟨chs, h1⟩ h

/-- a body denotes one sequence of characters -/
theorem Denotes.unique {s : Bytes} {x y : List Char} (hx : Denotes s x) (hy : Denotes s y) :
    x = y := by
  have h := hx.read
  rw [hy.read, Option.some.injEq] at h
  exact (chars_inj h).symm

/-! ## the length of what is decoded -/

theorem CharDenotes.length_le {u : Bytes} {ch : Char} (h : CharDenotes u ch) :
    (String.utf8EncodeChar ch).length ≤ u.length := by
  have h4 : (String.utf8EncodeChar ch).length ≤ 4 := by
    rw [String.length_utf8EncodeChar]
    exact Char.utf8Size_le_four ch
  cases h with
  | unescaped => exact le_rfl
  | escape e _ he =>
    have hv : ch.val.toNat ≤ 0x7f := by
      simp only [escapes, List.mem_cons, Prod.mk.injEq, List.not_mem_nil, or_false] at he
      omega
    rw [char_ascii hv]
    exact Nat.le_succ 1
  | unicode =>
    simp only [List.length_cons, List.length_nil]
    omega
  | pair =>
    simp only [List.length_cons, List.length_nil]
    omega

/-- the decoded text is no longer than the body -/
theorem Denotes.length_le {s : Bytes} {chs : List Char} (h : Denotes s chs) :
    (encode chs).length ≤ s.length := by
  induction h with
  | nil => exact le_rfl
  | cons hu _ ih =>
    rw [encode_cons, List.length_append, List.length_append]
    have := hu.length_le
    omega

/-- the bytes that are written for a character are its shortest form -/
theorem utf8_encode (ch : Char) : utf8 ch.val.toNat = String.utf8EncodeChar ch := by
  have hr := char_range ch
  have hor : ∀ i k x : Nat, x < 2 ^ i → (k * 2 ^ i) ||| x = k * 2 ^ i + x := by
    intro i k x hx
    have h := Nat.shiftLeft_add_eq_or_of_lt hx k
    rw [Nat.shiftLeft_eq] at h
    exact h.symm
  have hmask : ∀ x : Nat, 0x80 ||| (x &&& 0x3f) = x % 64 + 0x80 := by
    intro x
    have h : 0x80 ||| x % 64 = 0x80 + x % 64 := hor 6 2 _ (Nat.mod_lt _ (by decide))
    rw [Nat.and_two_pow_sub_one_eq_mod x 6, h, Nat.add_comm]
  have h3 : ∀ x < 64, 0xc0 ||| x = 0xc0 + x := hor 6 3
  have h14 : ∀ x < 16, 0xe0 ||| x = 0xe0 + x := hor 4 14
  have h15 : ∀ x < 16, 0xf0 ||| x = 0xf0 + x := hor 4 15
  unfold utf8 String.utf8EncodeChar
  dsimp only
  generalize ch.val.toNat = v at hr ⊢
  simp only [hmask, Nat.shiftRight_eq_div_pow]
  by_cases hv1 : v < 0x80
  · rw [if_pos hv1, if_pos (by omega)]
  by_cases hv2 : v < 0x800
  · rw [if_neg hv1, if_pos hv2, if_neg (by omega), if_pos (by omega), h3 _ (by omega),
      show v / 64 % 32 + 192 = 192 + v / 2 ^ 6 by omega]
  by_cases hv3 : v < 0x10000
  · rw [if_neg hv1, if_neg hv2, if_pos hv3, if_neg (by omega), if_neg (by omega), if_pos (by omega),
      h14 _ (by omega), show v / 4096 % 16 + 224 = 224 + v / 2 ^ 12 by omega]
  · rw [if_neg hv1, if_neg hv2, if_neg hv3, if_neg (by omega), if_neg (by omega), if_neg (by omega),
      h15 _ (by omega), show v / 262144 % 8 + 240 = 240 + v / 2 ^ 18 by omega]

/-! ## the functions -/

/-- the largest `size_t` -/
def SIZE_MAX : Nat := 2 ^ 64 - 1

/-- a `string_t`: its address, `0` for `NULL`, and its bytes, which lie in the address space -/
structure StringT where
  ptr : Nat
  bytes : Bytes
  fits : ptr + bytes.length ≤ SIZE_MAX

/-- a `string_t` whose bytes are a block of their own -/
structure OwnedString where
  ptr : Nat
  buffer : Bytes
  len : Nat
  deriving DecidableEq, Repr

def OwnedString.text (s : OwnedString) : Bytes := s.buffer.take s.len

/-- `json_string_equal_decoded` -/
def jsonStringEqualDecoded (left right : StringT) : Int :=
  if left.ptr = 0 ∨ right.ptr = 0 then -1
  else
    match equalDecoded left.bytes right.bytes with
    | none => -1
    | some true => 1
    | some false => 0

/-- the stores `buffer[length++] = c` -/
def putBytes (buffer : Bytes) (length : Nat) : Bytes → Option (Bytes × Nat)
  | [] => some (buffer, length)
  | c :: cs => (Bytes.store buffer length c).bind fun buffer => putBytes buffer (length + 1) cs

/-- `while (cur < end)` -/
def decodeTurns (buffer : Bytes) (length : Nat) (cur : Bytes) : Option (Bytes × Nat) :=
  if cur = [] then some (buffer, length)
  else
    match h : readCodepoint cur with
    | none => none
    | some (value, rest) =>
      (putBytes buffer length (utf8 value)).bind fun p => decodeTurns p.1 p.2 rest
termination_by cur.length
decreasing_by exact readCodepoint_length _ _ _ h

/-- `json_string_decode` behind its test of the slice: what it returns, `out`, and the heap -/
def decodeSlice (A : Allocator) (slice : Bytes) (heap : Heap) :
    Option (Int × Option OwnedString × Heap) :=
  if equalDecoded slice slice = none then some (-1, none, heap)
  else
    match heap.malloc A (slice.length + 1) with
    | (none, heap) => some (-2, none, heap)
    | (some (ptr, buffer), heap) => do
      let (buffer, length) ← decodeTurns buffer 0 slice
      let buffer ← Bytes.store buffer length 0
      some (0, some { ptr := ptr, buffer := buffer, len := length }, heap)

/-- `json_string_decode` -/
def jsonStringDecode (A : Allocator) (slice : StringT) (heap : Heap) :
    Option (Int × Option OwnedString × Heap) :=
  if slice.ptr = 0 ∨ slice.bytes.length = SIZE_MAX then some (-1, none, heap)
  else decodeSlice A slice.bytes heap

/-! ## the buffer -/

theorem putBytes_eq (buffer : Bytes) (length : Nat) (cs : Bytes)
    (h : length + cs.length ≤ buffer.length) :
    ∃ buffer', putBytes buffer length cs = some (buffer', length + cs.length) ∧
      buffer'.length = buffer.length ∧
      buffer'.take (length + cs.length) = buffer.take length ++ cs := by
  induction cs generalizing buffer length with
  | nil => exact ⟨buffer, rfl, rfl, by simp⟩
  | cons c cs ih =>
    rw [List.length_cons] at h
    obtain ⟨b1, h1, h2, h3, -⟩ := Bytes.store_eq buffer length c (by omega)
    obtain ⟨b2, h4, h5, h6⟩ := ih b1 (length + 1) (by omega)
    rw [show length + 1 + cs.length = length + (c :: cs).length by
      rw [List.length_cons]; omega] at h4 h6
    refine ⟨b2, ?_, by omega, ?_⟩
    · rw [putBytes, h1, Option.bind_some, h4]
    · rw [h6, h3, List.append_assoc]
      rfl

/-- **The decoding loop**: what is written is the encoding of what was read, and there is room for
the rest because no character is longer than the bytes that denote it. -/
theorem decodeTurns_eq (buffer : Bytes) (length : Nat) {cur : Bytes} {chs : List Char}
    (hd : Denotes cur chs) (h : length + cur.length ≤ buffer.length) :
    ∃ buffer', decodeTurns buffer length cur = some (buffer', length + (encode chs).length) ∧
      buffer'.length = buffer.length ∧
      buffer'.take (length + (encode chs).length) = buffer.take length ++ encode chs := by
  induction hd generalizing buffer length with
  | nil =>
    refine ⟨buffer, ?_, rfl, by simp [encode]⟩
    rw [decodeTurns, if_pos rfl]
    rfl
  | @cons u s ch chs hu hs ih =>
    rw [List.length_append] at h
    have hle := hu.length_le
    obtain ⟨b1, h1, h2, h3⟩ := putBytes_eq buffer length (String.utf8EncodeChar ch) (by omega)
    obtain ⟨b2, h4, h5, h6⟩ := ih b1 (length + (String.utf8EncodeChar ch).length) (by omega)
    rw [Nat.add_assoc, ← List.length_append, ← encode_cons] at h4 h6
    refine ⟨b2, ?_, by omega, ?_⟩
    · rw [decodeTurns, if_neg (by simp [hu.ne_nil])]
      have hread := hu.read s
      split
      · next hn =>
        rw [hread] at hn
        cases hn
      · next value rest hv =>
        rw [hread, Option.some.injEq, Prod.mk.injEq] at hv
        obtain ⟨rfl, rfl⟩ := hv
        rw [utf8_encode, h1, Option.bind_some, h4]
    · rw [h6, h3, List.append_assoc, ← encode_cons]

/-- **What the decoder does**, by what the body denotes and what the heap grants. -/
theorem decodeSlice_cases (A : Allocator) (slice : Bytes) (heap : Heap) :
    ((¬ ∃ x, Denotes slice x) ∧ decodeSlice A slice heap = some (-1, none, heap)) ∨
      ∃ x, Denotes slice x ∧
        ((A.grants heap.next = false ∧ decodeSlice A slice heap = some (-2, none, heap.skip)) ∨
          (A.grants heap.next = true ∧ ∃ s : OwnedString,
            decodeSlice A slice heap = some (0, some s, heap.take) ∧ s.ptr = heap.next ∧
              s.buffer.length = slice.length + 1 ∧ s.len = (encode x).length ∧ s.text = encode x ∧
                s.buffer[s.len]? = some 0)) := by
  have hself : equalDecoded slice slice = none ↔ ¬ ∃ x, Denotes slice x := by
    rw [← codepoints_none_iff, equalDecoded_eq]
    cases codepoints slice <;> simp
  unfold decodeSlice
  by_cases hd : ∃ x, Denotes slice x
  · obtain ⟨x, hx⟩ := hd
    refine .inr ⟨x, hx, ?_⟩
    rw [if_neg fun h => hself.mp h ⟨x, hx⟩]
    rcases Heap.malloc_cases A (slice.length + 1) heap with ⟨hg, hm⟩ | ⟨hg, hm⟩
    · refine .inr ⟨hg, ?_⟩
      have hlen := A.fill_length heap.next (slice.length + 1)
      have hle := hx.length_le
      obtain ⟨b1, h2, h3, h4⟩ := decodeTurns_eq (A.fill heap.next (slice.length + 1)) 0
        hx (by omega)
      rw [Nat.zero_add] at h2 h4
      rw [List.take_zero, List.nil_append] at h4
      obtain ⟨b2, h5, h6, h7, -⟩ := Bytes.store_eq b1 (encode x).length 0 (by omega)
      rw [h4] at h7
      simp only [hm, h2, h5, Option.bind_eq_bind, Option.bind_some]
      refine ⟨_, rfl, rfl, by show b2.length = _; omega, rfl, ?_, ?_⟩
      · have h8 := congrArg (List.take (encode x).length) h7
        rwa [List.take_take, List.take_left' rfl, Nat.min_eq_left (Nat.le_succ _)] at h8
      · have h8 := congrArg (fun l : Bytes => l[(encode x).length]?) h7
        simpa [List.getElem?_take] using h8
    · exact .inl ⟨hg, by rw [hm]⟩
  · refine .inl ⟨hd, ?_⟩
    rw [if_pos (hself.mpr hd)]

/-- what the comparison returns -/
theorem jsonStringEqualDecoded_eq (left right : StringT) (hl : left.ptr ≠ 0) (hr : right.ptr ≠ 0) :
    (jsonStringEqualDecoded left right = -1 ↔
        ¬ (∃ x, Denotes left.bytes x) ∨ ¬ ∃ y, Denotes right.bytes y) ∧
      ∀ x y, Denotes left.bytes x → Denotes right.bytes y →
        jsonStringEqualDecoded left right = if x = y then 1 else 0 := by
  have hboth : ∀ x y, Denotes left.bytes x → Denotes right.bytes y →
      jsonStringEqualDecoded left right = if x = y then 1 else 0 := by
    intro x y hx hy
    have hxy : (x.map (·.val.toNat) == y.map (·.val.toNat)) = decide (x = y) := by
      rw [Bool.eq_iff_iff, beq_iff_eq, decide_eq_true_eq]
      exact ⟨chars_inj, fun h => by rw [h]⟩
    unfold jsonStringEqualDecoded
    rw [if_neg (by simp [hl, hr]), equalDecoded_eq, hx.read, hy.read, Option.bind_some,
      Option.map_some, hxy]
    by_cases h : x = y
    · simp [h]
    · simp [h]
  refine ⟨?_, hboth⟩
  constructor
  · intro h
    by_contra hno
    push Not at hno
    obtain ⟨⟨x, hx⟩, y, hy⟩ := hno
    rw [hboth x y hx hy] at h
    split_ifs at h
  · rw [← codepoints_none_iff, ← codepoints_none_iff]
    intro h
    have hnone : equalDecoded left.bytes right.bytes = none := by
      rw [equalDecoded_eq]
      rcases h with h | h
      · rw [h]
        rfl
      · rw [h]
        cases codepoints left.bytes <;> rfl
    unfold jsonStringEqualDecoded
    rw [if_neg (by simp [hl, hr]), hnone]

/-- **Comparing and decoding string bodies.**  For slices with pointers, the comparison is `-1`
when one of them denotes nothing, else it tells whether they denote the same characters.  The
decoder never stores outside its buffer; it returns `-1` and a zeroed output exactly for a body
that denotes nothing, and else, if there is memory, the shortest form of the characters, which is
no longer than the body, with a NUL behind it.  So the comparison is `1` exactly when the decoded
texts are equal. -/
theorem jsonString_decoding (A : Allocator) (heap : Heap) (a b : StringT) (ha : a.ptr ≠ 0)
    (hb : b.ptr ≠ 0) :
    (jsonStringEqualDecoded a b = -1 ↔ ¬ (∃ x, Denotes a.bytes x) ∨ ¬ ∃ y, Denotes b.bytes y) ∧
    (∀ x y, Denotes a.bytes x → Denotes b.bytes y →
      (jsonStringEqualDecoded a b = if x = y then 1 else 0) ∧
        (jsonStringEqualDecoded a b = 1 ↔ encode x = encode y)) ∧
    (∀ x y, Denotes a.bytes x → Denotes a.bytes y → x = y) ∧
    ∃ code out heap', jsonStringDecode A a heap = some (code, out, heap') ∧
      (code = -1 ↔ ¬ ∃ x, Denotes a.bytes x) ∧ (code = -1 → out = none) ∧
      ∀ x, Denotes a.bytes x → (encode x).length ≤ a.bytes.length ∧
        (A.grants heap.next = false → code = -2 ∧ out = none) ∧
        (A.grants heap.next = true → code = 0 ∧ ∃ s : OwnedString, out = some s ∧
          s.buffer.length = a.bytes.length + 1 ∧ s.len = (encode x).length ∧ s.text = encode x ∧
            s.buffer[s.len]? = some 0) := by
  obtain ⟨hinvalid, hvalid⟩ := jsonStringEqualDecoded_eq a b ha hb
  refine ⟨hinvalid, ?_, fun x y hx hy => hx.unique hy, ?_⟩
  · intro x y hx hy
    refine ⟨hvalid x y hx hy, ?_⟩
    rw [hvalid x y hx hy]
    constructor
    · intro h
      split_ifs at h with hxy
      · rw [hxy]
      · exact absurd h (by decide)
    · intro h
      rw [if_pos (encode_inj h)]
  · have hmax : ¬ (a.ptr = 0 ∨ a.bytes.length = SIZE_MAX) := by
      have := a.fits
      omega
    unfold jsonStringDecode
    rw [if_neg hmax]
    rcases decodeSlice_cases A a.bytes heap with ⟨hd, h1⟩ | ⟨x, hx, ⟨hg, h1⟩ | ⟨hg, s, h1, -, h2⟩⟩
    · exact ⟨_, _, _, h1, ⟨fun _ => hd, fun _ => rfl⟩, fun _ => rfl, fun x hx => absurd ⟨x, hx⟩ hd⟩
    · refine ⟨_, _, _, h1, ⟨fun h => absurd h (by decide), fun h => absurd ⟨x, hx⟩ h⟩,
        fun _ => rfl, ?_⟩
      intro y hy
      exact ⟨hy.length_le, fun _ => ⟨rfl, rfl⟩, fun h => absurd (hg.symm.trans h) (by decide)⟩
    · refine ⟨_, _, _, h1, ⟨fun h => absurd h (by decide), fun h => absurd ⟨x, hx⟩ h⟩,
        fun h => absurd h (by decide), ?_⟩
      intro y hy
      rw [hy.unique hx]
      exact ⟨hx.length_le, fun h => absurd (hg.symm.trans h) (by decide), fun _ =>
        ⟨rfl, s, rfl, h2⟩⟩

/-- the body `\u00e9` and the letter in UTF-8, with zeroed memory -/
theorem jsonString_decoding_sample :
    (⟨1, ascii "\\u00e9", by decide⟩ : StringT).ptr ≠ 0 ∧
    (⟨1, [0xc3, 0xa9], by decide⟩ : StringT).ptr ≠ 0 ∧
      (jsonStringEqualDecoded ⟨1, ascii "\\u00e9", by decide⟩ ⟨1, [0xc3, 0xa9], by decide⟩ = -1 ↔
        ¬ (∃ x, Denotes (ascii "\\u00e9") x) ∨ ¬ ∃ y, Denotes [0xc3, 0xa9] y) :=
  ⟨by decide, by decide,
    (jsonString_decoding ⟨fun _ => true, fun _ n => List.replicate n 0, fun _ _ =>
      List.length_replicate⟩
      ⟨∅, 0, by simp⟩ _ _ (by decide) (by decide)).1⟩

end Json

import CtfServer.Json.Literal

/-!
# UTF-8

The sequences that `parse_json_str` lets pass are the encodings of characters: no overlong form,
no surrogate, nothing above `U+10FFFF`.

* `continuation_cons`   one byte of a continuation, as a number;
* `strUtf8_encode`      the encoding of a character passes;
* `strUtf8_decode`      what passes is the encoding of a character.
-/

set_option linter.unusedVariables false
set_option linter.unusedSimpArgs false

namespace Json

/-! ## bits as numbers -/

theorem isContinuation_iff (c : UInt8) : c &&& 0xc0 = 0x80 ↔ 128 ≤ c.toNat ∧ c.toNat < 192 := by
  have h : ∀ n : Fin 256, (UInt8.ofNat n.val &&& 0xc0 = 0x80 ↔ 128 ≤ n.val ∧
    n.val < 192) := by decide +kernel
  have h1 := h ⟨c.toNat, c.toNat_lt⟩
  rwa [UInt8.ofNat_toNat] at h1

theorem codepoint_shift (codepoint : Nat) (c : UInt8) :
    (codepoint <<< 6) ||| (c.toNat &&& 0x3f) = codepoint * 64 + c.toNat % 64 := by
  have h1 : c.toNat &&& 0x3f = c.toNat % 64 := Nat.and_two_pow_sub_one_eq_mod c.toNat 6
  rw [h1, ← Nat.shiftLeft_add_eq_or_of_lt (Nat.mod_lt _ (by decide)), Nat.shiftLeft_eq]

theorem continuation_cons (n codepoint : Nat) (c : UInt8) (str : Bytes) :
    continuation (n + 1) codepoint (c :: str) =
      if 128 ≤ c.toNat ∧ c.toNat < 192 then continuation n (codepoint * 64 + c.toNat % 64) str
      else none := by
  rw [continuation, codepoint_shift]
  by_cases h : c &&& 0xc0 = 0x80
  · rw [if_neg (not_not_intro h), if_pos ((isContinuation_iff c).mp h)]
  · rw [if_pos h, if_neg fun hc => h ((isContinuation_iff c).mpr hc)]

/-- the first byte of a longer sequence, as a number -/
theorem strLead_toNat (c : UInt8) :
    strLead c =
      if 0xc2 ≤ c.toNat ∧ c.toNat ≤ 0xdf then some (1, c.toNat % 32, 0x80)
      else if 0xe0 ≤ c.toNat ∧ c.toNat ≤ 0xef then some (2, c.toNat % 16, 0x800)
      else if 0xf0 ≤ c.toNat ∧ c.toNat ≤ 0xf4 then some (3, c.toNat % 8, 0x10000)
      else none := by
  have h5 : c.toNat &&& 0x1f = c.toNat % 32 := Nat.and_two_pow_sub_one_eq_mod c.toNat 5
  have h4 : c.toNat &&& 0x0f = c.toNat % 16 := Nat.and_two_pow_sub_one_eq_mod c.toNat 4
  have h3 : c.toNat &&& 0x07 = c.toNat % 8 := Nat.and_two_pow_sub_one_eq_mod c.toNat 3
  unfold strLead
  rw [h5, h4, h3]
  rfl

/-! ## characters -/

theorem char_range (ch : Char) :
    ch.val.toNat < 0xd800 ∨ (0xdfff < ch.val.toNat ∧ ch.val.toNat < 0x110000) :=
  ch.valid

theorem exists_char {v : Nat} (h1 : v ≤ 0x10ffff) (h2 : ¬ (0xd800 ≤ v ∧ v ≤ 0xdfff)) :
    ∃ ch : Char, ch.val.toNat = v := by
  have hv : v.isValidChar := by
    show v < 0xd800 ∨ (0xdfff < v ∧ v < 0x110000)
    omega
  exact ⟨Char.ofNatAux v hv, rfl⟩

/-- the bytes of a continuation -/
theorem continuation_range {n codepoint v : Nat} {cs : Bytes}
    (h : continuation n codepoint cs = some (v, [])) :
    ∀ c ∈ cs, 128 ≤ c.toNat := by
  induction n generalizing codepoint cs with
  | zero => cases h; exact nofun
  | succ n ih =>
    cases cs with
    | nil => cases h
    | cons c cs =>
      rw [continuation_cons] at h
      split at h
      · next hc => exact List.forall_mem_cons.mpr ⟨hc.1, ih h⟩
      · cases h

/-- a byte of a continuation gives its six bits -/
theorem continuation_tail (n codepoint v : Nat) (str : Bytes) :
    continuation (n + 1) codepoint (UInt8.ofNat (v % 64 + 128) :: str) =
      continuation n (codepoint * 64 + v % 64) str := by
  have h : (UInt8.ofNat (v % 64 + 128)).toNat = v % 64 + 128 := by
    rw [UInt8.toNat_ofNat']
    omega
  rw [continuation_cons, h, if_pos (by omega), show (v % 64 + 128) % 64 = v % 64 by omega]

/-- the encoding of a character passes -/
theorem strUtf8_encode {ch : Char} {c : UInt8} {cs : Bytes} (hch : 0x80 ≤ ch.val.toNat)
    (h : String.utf8EncodeChar ch = c :: cs) : 0x80 ≤ c ∧ strUtf8 c cs = some [] := by
  have hr := char_range ch
  unfold String.utf8EncodeChar at h
  dsimp only at h
  generalize ch.val.toNat = v at h hch hr
  rw [if_neg (by omega)] at h
  split at h
  · next h2 =>
    cases h
    have hc : (UInt8.ofNat (v / 64 % 32 + 192)).toNat = v / 64 + 192 := by
      rw [UInt8.toNat_ofNat']
      omega
    have hv : (v / 64 + 192) % 32 * 64 + v % 64 = v := by omega
    refine ⟨UInt8.le_iff_toNat_le.mpr (by rw [hc]; exact Nat.le_add_left_of_le (by decide)), ?_⟩
    unfold strUtf8
    rw [strLead_toNat, hc, if_pos (by omega)]
    dsimp only
    rw [continuation_tail, hv, continuation]
    exact if_neg (by omega)
  split at h
  · next h2 h3 =>
    cases h
    have hc : (UInt8.ofNat (v / 4096 % 16 + 224)).toNat = v / 4096 + 224 := by
      rw [UInt8.toNat_ofNat']
      omega
    have hv : ((v / 4096 + 224) % 16 * 64 + v / 64 % 64) * 64 + v % 64 = v := by omega
    refine ⟨UInt8.le_iff_toNat_le.mpr (by rw [hc]; exact Nat.le_add_left_of_le (by decide)), ?_⟩
    unfold strUtf8
    rw [strLead_toNat, hc, if_neg (by omega), if_pos (by omega)]
    dsimp only
    rw [continuation_tail, continuation_tail, hv, continuation]
    exact if_neg (by omega)
  · next h2 h3 =>
    cases h
    have hc : (UInt8.ofNat (v / 262144 % 8 + 240)).toNat = v / 262144 + 240 := by
      rw [UInt8.toNat_ofNat']
      omega
    have hv : (((v / 262144 + 240) % 8 * 64 + v / 4096 % 64) * 64 + v / 64 % 64) * 64 + v % 64 =
      v := by omega
    refine ⟨UInt8.le_iff_toNat_le.mpr (by rw [hc]; exact Nat.le_add_left_of_le (by decide)), ?_⟩
    unfold strUtf8
    rw [strLead_toNat, hc, if_neg (by omega), if_neg (by omega), if_pos (by omega)]
    dsimp only
    rw [continuation_tail, continuation_tail, continuation_tail, hv, continuation]
    exact if_neg (by omega)

/-- a continuation is read byte by byte -/
theorem continuation_inv {n codepoint v : Nat} {cs : Bytes}
    (h : continuation (n + 1) codepoint cs = some (v, [])) :
    ∃ x cs', cs = x :: cs' ∧ (∀ u, u % 64 = x.toNat % 64 → UInt8.ofNat (u % 64 + 128) = x) ∧
      continuation n (codepoint * 64 + x.toNat % 64) cs' = some (v, []) := by
  cases cs with
  | nil => cases h
  | cons x cs' =>
    rw [continuation_cons] at h
    split at h
    · next hx =>
      refine ⟨x, cs', rfl, fun u hu => ?_, h⟩
      rw [hu, show x.toNat % 64 + 128 = x.toNat by omega, UInt8.ofNat_toNat]
    · cases h

theorem ofNat_eq {c : UInt8} {n : Nat} (h : n = c.toNat) : UInt8.ofNat n = c := by
  rw [h, UInt8.ofNat_toNat]

/-- what passes is the encoding of the character that its bits give -/
theorem strUtf8_char {c : UInt8} {cs : Bytes} (h : strUtf8 c cs = some []) :
    ∃ (ch : Char) (count bits minimum : Nat), strLead c = some (count, bits, minimum) ∧
      continuation count bits cs = some (ch.val.toNat, []) ∧ minimum ≤ ch.val.toNat ∧
        0x80 ≤ ch.val.toNat ∧ String.utf8EncodeChar ch = c :: cs := by
  obtain ⟨count, bits, minimum, v, hl, hc, hv⟩ := strUtf8_some h
  obtain ⟨ch, hch⟩ := exists_char (v := v) (by omega) (by omega)
  refine ⟨ch, count, bits, minimum, hl, by rw [hch]; exact hc, by omega, ?_⟩
  unfold String.utf8EncodeChar
  dsimp only
  rw [hch]
  rw [strLead_toNat] at hl
  split at hl
  · next hr =>
    cases hl
    obtain ⟨x, cs', rfl, hx, h1⟩ := continuation_inv hc
    cases h1
    refine ⟨by omega, ?_⟩
    rw [if_neg (by omega), if_pos (by omega), ofNat_eq (c := c) (by omega), hx _ (by omega)]
  split at hl
  · next hr =>
    cases hl
    obtain ⟨x, cs', rfl, hx, h1⟩ := continuation_inv hc
    obtain ⟨y, cs', rfl, hy, h2⟩ := continuation_inv h1
    cases h2
    refine ⟨by omega, ?_⟩
    rw [if_neg (by omega), if_neg (by omega), if_pos (by omega), ofNat_eq (c := c) (by omega),
      hx _ (by omega),
      hy _ (by omega)]
  split at hl
  · next hr =>
    cases hl
    obtain ⟨x, cs', rfl, hx, h1⟩ := continuation_inv hc
    obtain ⟨y, cs', rfl, hy, h2⟩ := continuation_inv h1
    obtain ⟨z, cs', rfl, hz, h3⟩ := continuation_inv h2
    cases h3
    refine ⟨by omega, ?_⟩
    rw [if_neg (by omega), if_neg (by omega), if_neg (by omega), ofNat_eq (c := c) (by omega),
      hx _ (by omega), hy _ (by omega), hz _ (by omega)]
  · cases hl

/-- what passes is the encoding of a character -/
theorem strUtf8_decode {c : UInt8} {cs : Bytes} (h : strUtf8 c cs = some []) :
    ∃ ch : Char, 0x80 ≤ ch.val.toNat ∧ String.utf8EncodeChar ch = c :: cs := by
  obtain ⟨ch, -, -, -, -, -, -, h1, h2⟩ := strUtf8_char h
  exact ⟨ch, h1, h2⟩

/-! ## the bytes of a literal -/

theorem Piece.low {u : Bytes} (h : Piece u) : ∀ c ∈ u, 0x20 ≤ c.toNat := by
  have hx : ∀ {c : UInt8}, isXDigit c = true → 0x20 ≤ c.toNat := by
    intro c hc
    simp only [isXDigit, Bool.or_eq_true, Bool.and_eq_true, decide_eq_true_eq,
      UInt8.le_iff_toNat_le] at hc
    rcases hc with (hc | hc) | hc <;> exact Nat.le_trans (by decide) hc.1
  cases h with
  | plain c h1 _ _ _ =>
    rw [UInt8.lt_iff_toNat_lt] at h1
    exact List.forall_mem_singleton.mpr (Nat.not_lt.mp h1)
  | escape e he =>
    refine List.forall_mem_cons.mpr ⟨by decide, List.forall_mem_singleton.mpr ?_⟩
    simp only [isEscape, Bool.or_eq_true, beq_iff_eq] at he
    rcases he with ((((((he | he) | he) | he) | he) | he) | he) | he <;> (subst he; decide)
  | unicode a b c d ha hb hc hd =>
    simp only [List.forall_mem_cons]
    exact ⟨by decide, by decide, hx ha, hx hb, hx hc, hx hd, nofun⟩
  | utf8 c cs hc hs =>
    obtain ⟨count, bits, minimum, v, -, h2, -⟩ := strUtf8_some hs
    refine List.forall_mem_cons.mpr
      ⟨?_, fun x hx => Nat.le_trans (by decide) (continuation_range h2 x hx)⟩
    exact Nat.le_trans (by decide) (UInt8.le_iff_toNat_le.mp hc)

/-- no byte of a literal is a control character -/
theorem Literal.low {f : Bytes} (h : Literal f) : ∀ c ∈ f, 0x20 ≤ c.toNat := by
  induction h with
  | nil => exact nofun
  | cons hu _ ih =>
    intro c hc
    exact (List.mem_append.mp hc).elim (hu.low c) (ih c)

end Json

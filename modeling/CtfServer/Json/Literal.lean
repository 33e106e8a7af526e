import CtfServer.Json.Text

/-!
# The literals of JSON strings

What `parse_json_str` takes between two quotes, and which of it `read_codepoint` decodes.

* `Piece`, `Literal`        the grammar of a literal;
* `parseJsonStr_iff`        the scanner takes exactly the literals;
* `wellPaired f`            the surrogate escapes of `f` come in pairs;
* `codepoints_isSome_iff`   a literal decodes exactly when it is well paired.
-/

set_option linter.unusedVariables false
set_option linter.unusedSimpArgs false

namespace Json

inductive Piece : Bytes → Prop where
  | plain (c : UInt8) : ¬ c < 0x20 → ¬ 0x80 ≤ c → c ≠ DQUOTE → c ≠ BACKSLASH → Piece [c]
  | escape (e : UInt8) : isEscape e = true → Piece [BACKSLASH, e]
  | unicode (a b c d : UInt8) : isXDigit a = true → isXDigit b = true → isXDigit c = true →
      isXDigit d = true → Piece [BACKSLASH, LETTER_U, a, b, c, d]
  | utf8 (c : UInt8) (cs : Bytes) : 0x80 ≤ c → strUtf8 c cs = some [] → Piece (c :: cs)

inductive Literal : Bytes → Prop where
  | nil : Literal []
  | cons {u f : Bytes} : Piece u → Literal f → Literal (u ++ f)

theorem Literal.inv {w : Bytes} (h : Literal w) : w = [] ∨ ∃ u f, Piece u ∧ Literal f ∧
    w = u ++ f := by
  cases h with
  | nil => exact Or.inl rfl
  | cons hu hf => exact Or.inr ⟨_, _, hu, hf, rfl⟩

theorem Literal.plain_tail {c : UInt8} {y : Bytes} (h : Literal (c :: y)) (h1 : c ≠ BACKSLASH)
    (h2 : ¬ 0x80 ≤ c) :
    c ≠ DQUOTE ∧ Literal y := by
  rcases h.inv with h | ⟨u, f, hu, hf, h⟩
  · cases h
  cases hu with
  | plain d _ _ hq _ =>
    cases h
    exact ⟨hq, hf⟩
  | escape e he =>
    cases h
    exact absurd rfl h1
  | unicode a b c d _ _ _ _ =>
    cases h
    exact absurd rfl h1
  | utf8 d cs hd _ =>
    cases h
    exact absurd hd h2

/-! ## longer UTF-8 sequences -/

theorem continuation_append {n codepoint v : Nat} {cs : Bytes} (l : Bytes)
    (h : continuation n codepoint cs = some (v, [])) :
    continuation n codepoint (cs ++ l) = some (v, l) := by
  induction n generalizing codepoint cs with
  | zero => cases h; rfl
  | succ n ih =>
    cases cs with
    | nil => cases h
    | cons c cs =>
      rw [continuation] at h
      rw [List.cons_append, continuation]
      split at h
      · cases h
      · next hc => rw [if_neg hc]; exact ih h

theorem continuation_split {n codepoint v : Nat} {str rest : Bytes}
    (h : continuation n codepoint str = some (v, rest)) :
    ∃ cs, str = cs ++ rest ∧ continuation n codepoint cs = some (v, []) := by
  induction n generalizing codepoint str with
  | zero => cases h; exact ⟨[], rfl, rfl⟩
  | succ n ih =>
    cases str with
    | nil => cases h
    | cons c str =>
      rw [continuation] at h
      split at h
      · cases h
      · next hc =>
        obtain ⟨cs, h1, h2⟩ := ih h
        refine ⟨c :: cs, by rw [h1]; rfl, ?_⟩
        rw [continuation, if_neg hc]
        exact h2

/-- no byte of a continuation is a backslash -/
theorem continuation_bytes {n codepoint v : Nat} {cs : Bytes}
    (h : continuation n codepoint cs = some (v, [])) : BACKSLASH ∉ cs := by
  induction n generalizing codepoint cs with
  | zero => cases h; exact List.not_mem_nil
  | succ n ih =>
    cases cs with
    | nil => cases h
    | cons c cs =>
      rw [continuation] at h
      split at h
      · cases h
      · next hc =>
        rw [List.mem_cons, not_or]
        refine ⟨fun he => hc ?_, ih h⟩
        rw [← he]
        decide

theorem strUtf8_some {c : UInt8} {str rest : Bytes} (h : strUtf8 c str = some rest) :
    ∃ count bits minimum v, strLead c = some (count, bits, minimum) ∧
      continuation count bits str = some (v, rest) ∧
        ¬ (v < minimum ∨ 0x10ffff < v ∨ (0xd800 ≤ v ∧ v ≤ 0xdfff)) := by
  unfold strUtf8 at h
  split at h
  · cases h
  · next count bits minimum hl =>
    split at h
    · cases h
    · next v r hc =>
      split at h <;> cases h
      exact ⟨count, bits, minimum, v, hl, hc, ‹_›⟩

theorem strUtf8_append {c : UInt8} {cs : Bytes} (l : Bytes) (h : strUtf8 c cs = some []) :
    strUtf8 c (cs ++ l) = some l := by
  obtain ⟨count, bits, minimum, v, h1, h2, h3⟩ := strUtf8_some h
  unfold strUtf8
  simp only [h1, continuation_append l h2, if_neg h3]

theorem strUtf8_split {c : UInt8} {str rest : Bytes} (h : strUtf8 c str = some rest) :
    ∃ cs, str = cs ++ rest ∧ strUtf8 c cs = some [] := by
  obtain ⟨count, bits, minimum, v, h1, h2, h3⟩ := strUtf8_some h
  obtain ⟨cs, h4, h5⟩ := continuation_split h2
  refine ⟨cs, h4, ?_⟩
  unfold strUtf8
  simp only [h1, h5, if_neg h3]

/-! ## the scanner -/

theorem Piece.turn {u : Bytes} (h : Piece u) (l : Bytes) :
    strTurn (u ++ l) = some l ∧ ∃ c t, u = c :: t ∧ c ≠ DQUOTE := by
  cases h with
  | plain c h1 h2 h3 h4 =>
    refine ⟨?_, c, [], rfl, h3⟩
    show strTurn (c :: l) = some l
    rw [strTurn, if_neg h1, if_neg h4, if_neg h2]
  | escape e he =>
    refine ⟨?_, BACKSLASH, [e], rfl, by decide⟩
    have hu : e ≠ LETTER_U := by
      rintro rfl
      revert he
      decide
    show strTurn (BACKSLASH :: e :: l) = some l
    rw [strTurn, if_neg (by decide), if_pos rfl]
    unfold strEscape
    simp only [if_neg hu, if_pos he]
  | unicode a b c d ha hb hc hd =>
    refine ⟨?_, BACKSLASH, [LETTER_U, a, b, c, d], rfl, by decide⟩
    show strTurn (BACKSLASH :: LETTER_U :: a :: b :: c :: d :: l) = some l
    rw [strTurn, if_neg (by decide), if_pos rfl]
    unfold strEscape
    simp only [ha, hb, hc, hd, Bool.and_self, if_true]
  | utf8 c cs hc hs =>
    refine ⟨?_, c, cs, rfl, ?_⟩
    · show strTurn (c :: (cs ++ l)) = some l
      rw [strTurn, if_neg (fun h => absurd (UInt8.lt_of_le_of_lt hc h) (by decide)),
        if_neg (fun h => absurd (h ▸ hc) (by decide)), if_pos hc]
      exact strUtf8_append l hs
    · rintro rfl
      exact absurd hc (by decide)

theorem strTurn_split {c : UInt8} {str rest : Bytes} (hc : c ≠ DQUOTE)
    (h : strTurn (c :: str) = some rest) : ∃ u, c :: str = u ++ rest ∧ Piece u := by
  rw [strTurn] at h
  split at h
  · cases h
  · next hlow =>
    split at h
    · next hb =>
      subst hb
      unfold strEscape at h
      split at h
      · cases h
      · next e str =>
        split at h
        · next hu =>
          subst hu
          split at h
          · next x y z w str =>
            split at h <;> cases h
            next hx =>
              simp only [Bool.and_eq_true] at hx
              exact ⟨[BACKSLASH, LETTER_U, x, y, z, w], rfl, .unicode x y z w hx.1.1.1
                hx.1.1.2 hx.1.2 hx.2⟩
          · cases h
        · split at h <;> cases h
          exact ⟨[BACKSLASH, e], rfl, .escape e ‹_›⟩
    · next hb =>
      split at h
      · next hhigh =>
        obtain ⟨cs, h1, h2⟩ := strUtf8_split h
        exact ⟨c :: cs, by rw [h1]; rfl, .utf8 c cs hhigh h2⟩
      · next hhigh =>
        cases h
        exact ⟨[c], rfl, .plain c hlow hhigh hc hb⟩

theorem strEnd_quote (l : Bytes) : strEnd (DQUOTE :: l) = some l := by
  rw [strEnd, if_pos rfl]

theorem strEnd_turn {c : UInt8} {str rest : Bytes} (hc : c ≠ DQUOTE)
    (h : strTurn (c :: str) = some rest) : strEnd (c :: str) = strEnd rest := by
  rw [strEnd, if_neg hc]
  split
  · next hn => rw [h] at hn; cases hn
  · next r hr => rw [h] at hr; cases hr; rfl

theorem Literal.end {f : Bytes} (h : Literal f) (l : Bytes) :
    strEnd (f ++ DQUOTE :: l) = some l := by
  induction h with
  | nil => exact strEnd_quote l
  | @cons u g hu _ ih =>
    obtain ⟨h1, c, t, rfl, hc⟩ := hu.turn (g ++ DQUOTE :: l)
    rw [List.append_assoc]
    exact (strEnd_turn hc h1).trans ih

theorem strEnd_split {str rest : Bytes} (h : strEnd str = some rest) :
    ∃ f, str = f ++ DQUOTE :: rest ∧ Literal f := by
  induction str using strEnd.induct with
  | case1 => rw [strEnd] at h; cases h
  | case2 str => rw [strEnd_quote] at h; cases h; exact ⟨[], rfl, .nil⟩
  | case3 c str hc hn =>
    rw [strEnd, if_neg hc] at h
    split at h
    · cases h
    · next r hr => rw [hn] at hr; cases hr
  | case4 c str hc r hr ih =>
    rw [strEnd_turn hc hr] at h
    obtain ⟨f, h1, h2⟩ := ih h
    obtain ⟨u, h3, h4⟩ := strTurn_split hc hr
    exact ⟨u ++ f, by rw [h3, h1, List.append_assoc], .cons h4 h2⟩

/-- **`parse_json_str` takes exactly the literals.** -/
theorem parseJsonStr_iff (str f rest : Bytes) :
    parseJsonStr str = some (f, rest) ↔ Literal f ∧ str = DQUOTE :: (f ++ DQUOTE :: rest) := by
  have htake : ∀ f rest : Bytes, (f ++ DQUOTE :: rest).take
    ((f ++ DQUOTE :: rest).length - rest.length - 1) = f := by
    intro f rest
    rw [List.length_append, List.length_cons, show f.length + (rest.length + 1) - rest.length - 1 =
      f.length by omega,
      List.take_left]
  constructor
  · intro h
    unfold parseJsonStr at h
    split at h
    · cases h
    · next c start =>
      split at h
      · next hc =>
        obtain ⟨r, hr, h1⟩ := Option.map_eq_some_iff.mp h
        obtain ⟨g, hg, hl⟩ := strEnd_split hr
        rw [hg, htake] at h1
        cases h1
        exact ⟨hl, by rw [hc, hg]⟩
      · cases h
  · rintro ⟨hl, rfl⟩
    rw [parseJsonStr, if_pos rfl, hl.end, Option.map_some, htake]

/-! ## decoding a literal -/

/-- the number of four hex digits -/
def quad (a b c d : UInt8) : Nat :=
  let digit := fun c => (hexDigit c).getD 0
  ((digit a * 16 + digit b) * 16 + digit c) * 16 + digit d

/-- the surrogate escapes come in pairs: a high one stands directly in front of a low one, and a
low one nowhere else -/
def wellPaired : Bytes → Bool
  | [] => true
  | c :: f =>
    if c = BACKSLASH then
      match f with
      | [] => true
      | e :: f =>
        if e = LETTER_U then
          match f with
          | a :: b :: c :: d :: f =>
            if isHigh (quad a b c d) then
              match f with
              | x :: y :: a :: b :: c :: d :: f =>
                x == BACKSLASH && y == LETTER_U && isLow (quad a b c d) && wellPaired f
              | _ => false
            else !isLow (quad a b c d) && wellPaired f
          | _ => true
        else wellPaired f
    else wellPaired f

theorem wellPaired_skip {t : Bytes} (h : BACKSLASH ∉ t) (f : Bytes) :
    wellPaired (t ++ f) = wellPaired f := by
  induction t with
  | nil => rfl
  | cons c t ih =>
    obtain ⟨h1, h2⟩ := List.ne_and_not_mem_of_not_mem_cons h
    rw [List.cons_append, wellPaired.eq_def]
    dsimp only
    rw [if_neg (Ne.symm h1)]
    exact ih h2

theorem hexDigit_some {c : UInt8} (h : isXDigit c = true) : ∃ v, hexDigit c = some v := by
  unfold isXDigit at h
  unfold hexDigit
  simp only [Bool.or_eq_true, Bool.and_eq_true, decide_eq_true_eq] at h
  split
  · exact ⟨_, rfl⟩
  · split
    · exact ⟨_, rfl⟩
    · split
      · exact ⟨_, rfl⟩
      · next h1 h2 h3 => exact absurd h (by tauto)

theorem hexQuad_some {a b c d : UInt8} (ha : isXDigit a = true) (hb : isXDigit b = true)
    (hc : isXDigit c = true) (hd : isXDigit d = true) (l : Bytes) :
    hexQuad (a :: b :: c :: d :: l) = some (quad a b c d, l) := by
  obtain ⟨x, hx⟩ := hexDigit_some ha
  obtain ⟨y, hy⟩ := hexDigit_some hb
  obtain ⟨z, hz⟩ := hexDigit_some hc
  obtain ⟨w, hw⟩ := hexDigit_some hd
  simp only [hexQuad, quad, hx, hy, hz, hw, Option.getD_some]

theorem escapeValue_some {e : UInt8} (h : isEscape e = true) : ∃ v, escapeValue e = some v := by
  unfold isEscape at h
  unfold escapeValue
  simp only [Bool.or_eq_true, beq_iff_eq] at h
  rcases h with ((((((h | h) | h) | h) | h) | h) | h) | h <;> subst h <;> exact ⟨_, rfl⟩

theorem codepoints_of_read {cur rest : Bytes} {v : Nat} (h : readCodepoint cur = some (v, rest)) :
    (codepoints cur).isSome = (codepoints rest).isSome := by
  have hc : cur ≠ [] := by
    rintro rfl
    cases h
  rw [codepoints_step cur hc, h, Option.bind_some, Option.isSome_map]

theorem codepoints_of_none {cur : Bytes} (hc : cur ≠ []) (h : readCodepoint cur = none) :
    (codepoints cur).isSome = false := by
  rw [codepoints_step cur hc, h]
  rfl

/-- a piece that is no surrogate escape decodes on its own -/
theorem Piece.read {u : Bytes} (h : Piece u) (l : Bytes) :
    (∃ v, readCodepoint (u ++ l) = some (v, l) ∧ wellPaired (u ++ l) = wellPaired l) ∨
      ∃ a b c d, u = [BACKSLASH, LETTER_U, a, b, c, d] ∧ isXDigit a = true ∧ isXDigit b = true ∧
        isXDigit c = true ∧ isXDigit d = true := by
  cases h with
  | plain c h1 h2 h3 h4 =>
    refine Or.inl ⟨c.toNat, ?_, ?_⟩
    · show readCodepoint (c :: l) = _
      rw [readCodepoint, if_neg h4, if_neg (fun h => h.elim h1 h3), if_pos (UInt8.not_le.mp h2)]
    · exact wellPaired_skip (by simpa using Ne.symm h4) l
  | escape e he =>
    obtain ⟨v, hv⟩ := escapeValue_some he
    have hu : e ≠ LETTER_U := by
      rintro rfl
      revert he
      decide
    refine Or.inl ⟨v, ?_, ?_⟩
    · show readCodepoint (BACKSLASH :: e :: l) = _
      rw [readCodepoint, if_pos rfl, readEscape, if_neg hu]
      simp only [hv]
    · show wellPaired (BACKSLASH :: e :: l) = _
      rw [wellPaired.eq_def]
      simp only [if_neg hu, if_true]
  | unicode a b c d ha hb hc hd => exact Or.inr ⟨a, b, c, d, rfl, ha, hb, hc, hd⟩
  | utf8 c cs hc hs =>
    obtain ⟨count, bits, minimum, v, h1, h2, h3⟩ := strUtf8_some hs
    have hlead : codepointLead c = some (count, bits, minimum) := h1
    have hb : c ≠ BACKSLASH := by
      rintro rfl
      exact absurd hc (by decide)
    have hlow : ¬ (c < 0x20 ∨ c = DQUOTE) := by
      rintro (h | rfl)
      · exact absurd (UInt8.lt_of_le_of_lt hc h) (by decide)
      · exact absurd hc (by decide)
    refine Or.inl ⟨v, ?_, ?_⟩
    · show readCodepoint (c :: (cs ++ l)) = _
      rw [readCodepoint, if_neg hb, if_neg hlow, if_neg (UInt8.not_lt.mpr hc)]
      unfold readUtf8
      simp only [hlead, continuation_append l h2]
      rw [if_pos (by omega)]
    · refine wellPaired_skip ?_ l
      rw [List.mem_cons, not_or]
      exact ⟨Ne.symm hb, continuation_bytes h2⟩

/-- a literal that starts with `\u` goes on with four hex digits -/
theorem Literal.unicode {g : Bytes} (h : Literal (BACKSLASH :: LETTER_U :: g)) :
    ∃ a b c d f, g = a :: b :: c :: d :: f ∧ isXDigit a = true ∧ isXDigit b = true ∧
      isXDigit c = true ∧ isXDigit d = true ∧ Literal f := by
  obtain h0 | ⟨u, f, hu, hf, he⟩ := h.inv
  · cases h0
  · cases hu with
    | plain c h1 h2 h3 h4 => exact absurd (List.cons.inj he).1.symm h4
    | escape e hesc =>
      have h1 := (List.cons.inj (List.cons.inj he).2).1
      rw [← h1] at hesc
      exact absurd hesc (by decide)
    | unicode a b c d ha hb hc hd =>
      exact ⟨a, b, c, d, f, (List.cons.inj (List.cons.inj he).2).2, ha, hb, hc, hd, hf⟩
    | utf8 c cs hc hs =>
      rw [← (List.cons.inj he).1] at hc
      exact absurd hc (by decide)

theorem read_unicode {a b c d : UInt8} (ha : isXDigit a = true) (hb : isXDigit b = true)
    (hc : isXDigit c = true) (hd : isXDigit d = true) (l : Bytes) :
    readCodepoint (BACKSLASH :: LETTER_U :: a :: b :: c :: d :: l) =
      if isHigh (quad a b c d) then
        match l with
        | x :: y :: cur =>
          if x = BACKSLASH ∧ y = LETTER_U then
            match hexQuad cur with
            | none => none
            | some (low, cur) =>
              if isLow low then some (0x10000 + ((quad a b c d - 0xd800) <<< 10) + low - 0xdc00,
                cur) else none
          else none
        | _ => none
      else if isLow (quad a b c d) then none
      else some (quad a b c d, l) := by
  rw [readCodepoint, if_pos rfl, readEscape, if_pos rfl]
  unfold readUnicode
  have hquad := hexQuad_some ha hb hc hd l
  generalize hexQuad (a :: b :: c :: d :: l) = o at hquad ⊢
  subst hquad
  rfl

theorem wellPaired_unicode (a b c d : UInt8) (f : Bytes) :
    wellPaired (BACKSLASH :: LETTER_U :: a :: b :: c :: d :: f) =
      if isHigh (quad a b c d) then
        match f with
        | x :: y :: a :: b :: c :: d :: f =>
          x == BACKSLASH && y == LETTER_U && isLow (quad a b c d) && wellPaired f
        | _ => false
      else !isLow (quad a b c d) && wellPaired f := by
  rw [wellPaired.eq_def]
  simp only [if_true]
  rfl

/-- **A literal decodes exactly when its surrogate escapes come in pairs.** -/
theorem codepoints_isSome_iff {f : Bytes} (h : Literal f) :
    (codepoints f).isSome = wellPaired f := by
  obtain ⟨n, hn⟩ : ∃ n, n = f.length := ⟨_, rfl⟩
  induction n using Nat.strong_induction_on generalizing f with
  | _ n ih =>
    obtain rfl | ⟨u, g, hu, hg, rfl⟩ := h.inv
    · rw [codepoints_nil]
      rfl
    · rw [List.length_append] at hn
      have hulen : 0 < u.length := by
        obtain ⟨-, c, t, rfl, -⟩ := hu.turn []
        simp
      rcases hu.read g with ⟨v, hv, hw⟩ | ⟨a, b, c, d, rfl, ha, hb, hc, hd⟩
      · rw [codepoints_of_read hv, hw, ih _ (by omega) hg rfl]
      · -- a `\u` escape: its partner, if it needs one, is the next piece
        have hread := read_unicode ha hb hc hd g
        show (codepoints (BACKSLASH :: LETTER_U :: a :: b :: c :: d :: g)).isSome
          = wellPaired (BACKSLASH :: LETTER_U :: a :: b :: c :: d :: g)
        rw [wellPaired_unicode]
        by_cases hhigh : isHigh (quad a b c d) = true
        · rw [if_pos hhigh] at hread ⊢
          by_cases hpair : ∃ cur, g = BACKSLASH :: LETTER_U :: cur
          · obtain ⟨cur, rfl⟩ := hpair
            obtain ⟨a', b', c', d', k, rfl, ha', hb', hc', hd', hk⟩ := hg.unicode
            simp only [and_self, if_true, hexQuad_some ha' hb' hc' hd'] at hread
            simp only [beq_self_eq_true, Bool.true_and]
            by_cases hlow : isLow (quad a' b' c' d') = true
            · rw [if_pos hlow] at hread
              rw [codepoints_of_read hread, hlow, Bool.true_and]
              exact ih _ (by simp at hn; omega) hk rfl
            · rw [if_neg hlow] at hread
              rw [codepoints_of_none (by simp) hread, Bool.eq_false_iff.mpr hlow, Bool.false_and]
          · have hnone : readCodepoint (BACKSLASH :: LETTER_U :: a :: b :: c :: d :: g) = none := by
              rw [hread]
              match g with
              | [] => rfl
              | [_] => rfl
              | x :: y :: cur =>
                have hxy : ¬ (x = BACKSLASH ∧ y = LETTER_U) := by
                  rintro ⟨rfl, rfl⟩
                  exact hpair ⟨cur, rfl⟩
                simp only [if_neg hxy]
            rw [codepoints_of_none (by simp) hnone]
            match g with
            | [] | [_] | [_, _] | [_, _, _] | [_, _, _, _] | [_, _, _, _, _] => rfl
            | x :: y :: a' :: b' :: c' :: d' :: k =>
              have hxy : (x == BACKSLASH && y == LETTER_U) = false := by
                rw [Bool.and_eq_false_iff, beq_eq_false_iff_ne, beq_eq_false_iff_ne]
                by_contra hne
                obtain ⟨h1, h2⟩ := not_or.mp hne
                rw [not_not.mp h1, not_not.mp h2] at hpair
                exact hpair ⟨_, rfl⟩
              simp only [hxy, Bool.false_and]
        · rw [if_neg hhigh] at hread ⊢
          by_cases hlow : isLow (quad a b c d) = true
          · rw [if_pos hlow] at hread
            rw [codepoints_of_none (by simp) hread, hlow]
            rfl
          · rw [if_neg hlow] at hread
            rw [codepoints_of_read hread, Bool.eq_false_iff.mpr hlow, Bool.not_false, Bool.true_and]
            exact ih _ (by simp at hn; omega) hg rfl

theorem equalDecoded_self {f : Bytes} (h : Literal f) :
    equalDecoded f f = if wellPaired f then some true else none := by
  rw [equalDecoded_eq, ← codepoints_isSome_iff h]
  cases codepoints f with
  | none => rfl
  | some x => simp

end Json

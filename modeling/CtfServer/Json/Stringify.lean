import CtfServer.Json.AuthBody
import CtfServer.Lib.JsString

/-!
# Strings between the client and the server

What `JSON.stringify` writes between the quotes of a string, what `JSON.parse` reads there, and what
the server makes of both.

* `stringify s`            what `JSON.stringify` writes;
* `ParsesTo f s`           `JSON.parse` reads the body `f` as `s`;
* `ParsesTo.points`        a body, by the code points of its string;
* `parsesTo_stringify`     what was written is read as it was;
* `ParsesTo.shortest`      nothing that is read as `s` is shorter than what is written for `s`;
* `ParsesTo.denotes_iff`   a body denotes characters exactly when its string is well formed;
* `ParsesTo.equalDecoded`  comparing two bodies is comparing their strings.
-/

set_option linter.unusedVariables false
set_option linter.unusedSimpArgs false

namespace Json

open JsString (CodePoint WellFormed codePoints chars units unitsOf)

/-! ## writing -/

/-- a hexadecimal digit, in lower case -/
def hexLower (n : Nat) : UInt8 := if n < 10 then UInt8.ofNat (48 + n) else UInt8.ofNat (87 + n)

/-- `\u` and four digits -/
def unicodeEscape (n : Nat) : Bytes :=
  [0x5c, 0x75, hexLower (n / 4096), hexLower (n / 256 % 16), hexLower (n / 16 % 16),
    hexLower (n % 16)]

/-- the code points with an escape of one letter -/
def shortEscape (n : Nat) : Option UInt8 :=
  if n = 0x08 then some 0x62
  else if n = 0x09 then some 0x74
  else if n = 0x0a then some 0x6e
  else if n = 0x0c then some 0x66
  else if n = 0x0d then some 0x72
  else if n = 0x22 then some 0x22
  else if n = 0x5c then some 0x5c
  else none

def quoteScalar (ch : Char) : Bytes :=
  match shortEscape ch.val.toNat with
  | some e => [0x5c, e]
  | none => if ch.val.toNat < 0x20 then unicodeEscape ch.val.toNat else String.utf8EncodeChar ch

def quotePoint : CodePoint → Bytes
  | .scalar ch => quoteScalar ch
  | .lone u => unicodeEscape u.toNat

/-- what `JSON.stringify` writes between the quotes of a string -/
def stringify (s : JsString) : Bytes := (codePoints s).flatMap quotePoint

/-! ## reading -/

/-- the code units of one character of a body -/
inductive PieceUnits : Bytes → JsString → Prop where
  | unescaped (ch : Char) : 0x20 ≤ ch.val.toNat → ch ≠ '"' → ch ≠ '\\' →
      PieceUnits (String.utf8EncodeChar ch) (unitsOf ch)
  | escape (e : UInt8) (n : Nat) : (e, n) ∈ escapes → PieceUnits [0x5c, e] [UInt16.ofNat n]
  | unicode (a b c d : UInt8) : HexDigit a → HexDigit b → HexDigit c → HexDigit d →
      PieceUnits [0x5c, 0x75, a, b, c, d] [UInt16.ofNat (quad a b c d)]

/-- what `JSON.parse` reads between the quotes of a string -/
inductive ParsesTo : Bytes → JsString → Prop where
  | nil : ParsesTo [] []
  | cons {u f : Bytes} {w s : JsString} : PieceUnits u w → ParsesTo f s → ParsesTo (u ++ f) (w ++ s)

/-! ## the escapes -/

theorem hexLower_digit : ∀ n < 16, HexDigit (hexLower n) ∧ hexDigit (hexLower n) = some n := by
  unfold HexDigit
  decide

theorem quad_unicodeEscape {n : Nat} (h : n < 0x10000) :
    quad (hexLower (n / 4096)) (hexLower (n / 256 % 16)) (hexLower (n / 16 % 16))
    (hexLower (n % 16)) = n := by
  unfold quad
  simp only [(hexLower_digit (n / 4096) (by omega)).2, (hexLower_digit (n / 256 % 16) (by omega)).2,
    (hexLower_digit (n / 16 % 16) (by omega)).2, (hexLower_digit (n % 16) (by omega)).2,
    Option.getD_some]
  omega

theorem pieceUnits_unicodeEscape {n : Nat} (h : n < 0x10000) :
    PieceUnits (unicodeEscape n) [UInt16.ofNat n] := by
  have hpiece := PieceUnits.unicode _ _ _ _ (hexLower_digit (n / 4096) (by omega)).1
    (hexLower_digit (n / 256 % 16) (by omega)).1
    (hexLower_digit (n / 16 % 16) (by omega)).1 (hexLower_digit (n % 16) (by omega)).1
  rwa [quad_unicodeEscape h] at hpiece

theorem shortEscape_some {n : Nat} {e : UInt8} (h : shortEscape n = some e) :
    (e, n) ∈ escapes ∧ n < 0x80 := by
  unfold shortEscape at h
  split_ifs at h with h1 h2 h3 h4 h5 h6 h7 <;> cases h <;> subst n <;> decide

theorem shortEscape_none {ch : Char} (h : shortEscape ch.val.toNat = none) :
    ch ≠ '"' ∧ ch ≠ '\\' := by
  constructor
  · rintro rfl
    exact absurd h (by decide)
  · rintro rfl
    exact absurd h (by decide)

theorem shortEscape_plain {ch : Char} (h1 : 0x20 ≤ ch.val.toNat) (h2 : ch ≠ '"') (h3 : ch ≠ '\\') :
    shortEscape ch.val.toNat = none := by
  have hquote : ch.val.toNat ≠ 0x22 := fun h => h2 (Char.toNat_inj.mp h)
  have hback : ch.val.toNat ≠ 0x5c := fun h => h3 (Char.toNat_inj.mp h)
  unfold shortEscape
  rw [if_neg (by omega), if_neg (by omega), if_neg (by omega), if_neg (by omega), if_neg (by omega),
    if_neg hquote,
    if_neg hback]

theorem unitsOf_low {ch : Char} (h : ch.val.toNat < 0x10000) :
    unitsOf ch = [UInt16.ofNat ch.val.toNat] := by
  rw [unitsOf, if_pos h]

theorem pieceUnits_quoteScalar (ch : Char) : PieceUnits (quoteScalar ch) (unitsOf ch) := by
  unfold quoteScalar
  cases hshort : shortEscape ch.val.toNat with
  | some e =>
    obtain ⟨hmem, hlow⟩ := shortEscape_some hshort
    rw [unitsOf_low (by omega)]
    exact .escape e _ hmem
  | none =>
    obtain ⟨hquote, hback⟩ := shortEscape_none hshort
    dsimp only
    split
    · next hcontrol =>
      rw [unitsOf_low (by omega)]
      exact pieceUnits_unicodeEscape (by omega)
    · next hplain => exact .unescaped ch (by omega) hquote hback

theorem stringify_turn {s rest : JsString} {p : CodePoint}
    (h : codePoints s = p :: codePoints rest) :
    stringify s = quotePoint p ++ stringify rest := by
  unfold stringify
  rw [h, List.flatMap_cons]

/-- **What was written is read as it was.** -/
theorem parsesTo_stringify (s : JsString) : ParsesTo (stringify s) s := by
  induction s using JsString.codePoints_induction with
  | nil => exact .nil
  | turn s p rest hturn heq ih =>
    have hlone : ∀ u : UInt16, PieceUnits (unicodeEscape u.toNat) [u] := by
      intro u
      have hpiece := pieceUnits_unicodeEscape u.toNat_lt
      rwa [UInt16.ofNat_toNat] at hpiece
    rw [stringify_turn heq]
    cases p with
    | scalar ch =>
      have hcons := ParsesTo.cons (pieceUnits_quoteScalar ch) ih
      rwa [← hturn.units rfl] at hcons
    | lone u =>
      cases hturn with
      | high _ _ => exact .cons (hlone u) ih
      | low _ => exact .cons (hlone u) ih

/-! ## one reading -/

theorem PieceUnits.charBytes {u : Bytes} {w : JsString} (h : PieceUnits u w) : CharBytes u := by
  cases h with
  | unescaped ch h1 h2 h3 => exact .unescaped ch h1 h2 h3
  | escape e n he =>
    refine .escape e ((escape_mem_iff e).mpr ?_)
    simp only [escapes, List.mem_cons, Prod.mk.injEq, List.not_mem_nil, or_false] at he
    rcases he with he | he | he | he | he | he | he | he <;> (rw [he.1]; rfl)
  | unicode a b c d ha hb hc hd => exact .unicode a b c d ha hb hc hd

theorem ParsesTo.body {f : Bytes} {s : JsString} (h : ParsesTo f s) : Chars f := by
  induction h with
  | nil => exact .nil
  | cons hu _ ih => exact .cons hu.charBytes ih

/-- the first byte of a character that stands unescaped is no backslash -/
theorem unescaped_head {ch : Char} {c : UInt8} {t : Bytes} (h : ch ≠ '\\')
    (heq : String.utf8EncodeChar ch = c :: t) :
    c ≠ 0x5c := by
  by_cases hlow : ch.val.toNat ≤ 0x7f
  · rw [char_ascii hlow] at heq
    rw [← (List.cons.inj heq).1]
    exact char_ascii_ne hlow (by decide) h
  · rintro rfl
    exact absurd (strUtf8_encode (by omega) heq).1 (by decide)

theorem utf8EncodeChar_inj {ch ch' : Char}
    (h : String.utf8EncodeChar ch = String.utf8EncodeChar ch') : ch = ch' := by
  have heq : [ch] = [ch'] := encode_inj (by simpa [encode] using h)
  exact (List.cons.inj heq).1

theorem escapes_value {e : UInt8} {n n' : Nat} (h : (e, n) ∈ escapes) (h' : (e, n') ∈ escapes) :
    n = n' := by
  rw [← escapeValue_iff] at h h'
  rw [h] at h'
  exact Option.some.inj h'

theorem PieceUnits.unique {u : Bytes} {w w' : JsString} (h : PieceUnits u w) (h' : PieceUnits u w')
    : w = w' := by
  have hletter : ∀ n, (LETTER_U, n) ∉ escapes := by
    intro n hn
    rw [← escapeValue_iff] at hn
    cases hn
  generalize hv : u = v at h'
  cases h with
  | unescaped ch h1 h2 h3 =>
    cases h' with
    | unescaped ch' _ _ _ => rw [utf8EncodeChar_inj hv]
    | escape e n he => exact absurd rfl (unescaped_head h3 hv)
    | unicode a b c d _ _ _ _ => exact absurd rfl (unescaped_head h3 hv)
  | escape e n he =>
    cases h' with
    | unescaped ch' _ _ h3 => exact absurd rfl (unescaped_head h3 hv.symm)
    | escape e' n' he' =>
      cases hv
      rw [escapes_value he he']
    | unicode a b c d _ _ _ _ => cases hv
  | unicode a b c d _ _ _ _ =>
    cases h' with
    | unescaped ch' _ _ h3 => exact absurd rfl (unescaped_head h3 hv.symm)
    | escape e' n' he' => cases hv
    | unicode a' b' c' d' _ _ _ _ =>
      cases hv
      rfl

theorem ParsesTo.inv {f : Bytes} {s : JsString} (h : ParsesTo f s) :
    (f = [] ∧ s = []) ∨ ∃ u g w t, PieceUnits u w ∧ ParsesTo g t ∧ f = u ++ g ∧ s = w ++ t := by
  cases h with
  | nil => exact .inl ⟨rfl, rfl⟩
  | cons hu hf => exact .inr ⟨_, _, _, _, hu, hf, rfl, rfl⟩

/-- a body is read in one way -/
theorem ParsesTo.unique {f : Bytes} {s s' : JsString} (h : ParsesTo f s) (h' : ParsesTo f s') :
    s = s' := by
  induction h generalizing s' with
  | nil =>
    rcases h'.inv with ⟨-, rfl⟩ | ⟨u, g, w, t, hu, -, heq, -⟩
    · rfl
    · obtain ⟨-, c, r, rfl, -⟩ := hu.charBytes.piece.turn []
      cases heq
  | @cons u f w s hu hf ih =>
    rcases h'.inv with ⟨heq, -⟩ | ⟨u', g, w', t, hu', hg, heq, rfl⟩
    · obtain ⟨-, c, r, rfl, -⟩ := hu.charBytes.piece.turn []
      cases heq
    · -- the scanner takes one character, and goes on behind it
      have hturn := (hu.charBytes.piece.turn f).1
      rw [heq, (hu'.charBytes.piece.turn g).1, Option.some.injEq] at hturn
      subst hturn
      cases List.append_cancel_right heq
      rw [hu.unique hu', ih hg]

/-- every body is read -/
theorem Chars.parsesTo {f : Bytes} (h : Chars f) : ∃ s, ParsesTo f s := by
  induction h with
  | nil => exact ⟨[], .nil⟩
  | cons hu _ ih =>
    obtain ⟨s, hs⟩ := ih
    cases hu with
    | unescaped ch h1 h2 h3 => exact ⟨_, .cons (.unescaped ch h1 h2 h3) hs⟩
    | escape e he =>
      obtain ⟨n, hn⟩ := escapeValue_some ((escape_mem_iff e).mp he)
      exact ⟨_, .cons (.escape e n ((escapeValue_iff e n).mp hn)) hs⟩
    | unicode a b c d ha hb hc hd => exact ⟨_, .cons (.unicode a b c d ha hb hc hd) hs⟩

/-! ## a body, by the code points of its string -/

/-- the bytes of a code point -/
inductive PointBytes : Bytes → CodePoint → Prop where
  | scalar {u : Bytes} {ch : Char} : CharDenotes u ch → PointBytes u (.scalar ch)
  | lone (a b c d : UInt8) {v : UInt16} : HexDigit a → HexDigit b → HexDigit c → HexDigit d →
      v.toNat = quad a b c d →
      PointBytes [0x5c, 0x75, a, b, c, d] (.lone v)

theorem quad_toNat (a b c d : UInt8) : (UInt16.ofNat (quad a b c d)).toNat = quad a b c d := by
  have hlt := quad_lt a b c d
  rw [UInt16.toNat_ofNat']
  omega

theorem escapes_low {e : UInt8} {n : Nat} (h : (e, n) ∈ escapes) : n < 0x80 := by
  simp only [escapes, List.mem_cons, Prod.mk.injEq, List.not_mem_nil, or_false] at h
  omega

theorem surrogate_iff (u : UInt16) : (JsString.isHigh u || JsString.isLow u) = true ↔
    0xd800 ≤ u.toNat ∧ u.toNat ≤ 0xdfff := by
  rw [Bool.or_eq_true, JsString.isHigh_iff, JsString.isLow_iff]
  omega

/-- a low surrogate in front of the rest of a string was read from its escape -/
theorem ParsesTo.low {f : Bytes} {v : UInt16} {s : JsString} (h : ParsesTo f (v :: s))
    (hv : JsString.isLow v = true) :
    ∃ a b c d g, f = [0x5c, 0x75, a, b, c, d] ++ g ∧ HexDigit a ∧ HexDigit b ∧ HexDigit c ∧ HexDigit d ∧
      v.toNat = quad a b c d ∧ ParsesTo g s := by
  have hrange := (JsString.isLow_iff v).mp hv
  rcases h.inv with ⟨-, heq⟩ | ⟨u, g, w, t, hu, hg, rfl, heq⟩
  · cases heq
  · cases hu with
    | unescaped ch h1 h2 h3 =>
      rcases JsString.unitsOf_cases ch with ⟨x, hx, -, hnone⟩ | ⟨x, y, hx, hhigh, -, -⟩
      · rw [hx] at heq
        cases heq
        rw [hv, Bool.or_true] at hnone
        cases hnone
      · rw [hx] at heq
        cases heq
        rw [JsString.high_not_low hhigh] at hv
        cases hv
    | escape e n he =>
      have hlow := escapes_low he
      cases heq
      rw [UInt16.toNat_ofNat'] at hrange
      omega
    | unicode a b c d ha hb hc hd =>
      cases heq
      exact ⟨a, b, c, d, g, rfl, ha, hb, hc, hd, quad_toNat a b c d, hg⟩

/-- **A body, by the code points of its string**: one is written in each place, and the two escapes
of a pair of surrogates stand for one code point. -/
theorem ParsesTo.points {f : Bytes} {s : JsString} (h : ParsesTo f s) :
    ∃ us, List.Forall₂ PointBytes us (codePoints s) ∧ f = us.flatten := by
  obtain ⟨n, hn⟩ : ∃ n, n = f.length := ⟨_, rfl⟩
  induction n using Nat.strong_induction_on generalizing f s with
  | _ n ih =>
    rcases h.inv with ⟨rfl, rfl⟩ | ⟨u, g, w, t, hu, hg, rfl, rfl⟩
    · exact ⟨[], .nil, rfl⟩
    rw [List.length_append] at hn
    cases hu with
    | unescaped ch h1 h2 h3 =>
      have hpos : 0 < (String.utf8EncodeChar ch).length := List.length_pos_iff.mpr (by simp)
      obtain ⟨us, hus, rfl⟩ := ih g.length (by omega) hg rfl
      refine ⟨_ :: us, ?_, rfl⟩
      rw [JsString.codePoints_unitsOf]
      exact .cons (.scalar (.unescaped ch h1 h2 h3)) hus
    | escape e n he =>
      have hlow := escapes_low he
      have hval : (UInt16.ofNat n).toNat = n := by
        rw [UInt16.toNat_ofNat']
        omega
      have hsingle : (JsString.isHigh (UInt16.ofNat n) || JsString.isLow (UInt16.ofNat n))
        = false := by
        rw [← Bool.not_eq_true, surrogate_iff, hval]
        omega
      obtain ⟨us, hus, rfl⟩ := ih g.length (by simp at hn; omega) hg rfl
      refine ⟨_ :: us, ?_, rfl⟩
      rw [List.singleton_append, JsString.codePoints_single hsingle]
      exact .cons (.scalar (.escape e _ (by rw [JsString.single_val hsingle, hval]; exact he))) hus
    | unicode a b c d ha hb hc hd =>
      have hval := quad_toNat a b c d
      generalize UInt16.ofNat (quad a b c d) = v at hval
      rw [List.singleton_append]
      cases hsurrogate : JsString.isHigh v || JsString.isLow v with
      | false =>
        obtain ⟨us, hus, rfl⟩ := ih g.length (by simp at hn; omega) hg rfl
        refine ⟨_ :: us, ?_, rfl⟩
        rw [JsString.codePoints_single hsurrogate]
        exact .cons (.scalar (.unicode a b c d _ ha hb hc hd
          (by rw [JsString.single_val hsurrogate, hval]))) hus
      | true =>
        by_cases hpair : JsString.isHigh v = true ∧ ∃ v' t', t = v' :: t' ∧ JsString.isLow v' = true
        · -- the escape of the other half follows
          obtain ⟨hhigh, v', t', rfl, hlow⟩ := hpair
          obtain ⟨a', b', c', d', g', rfl, ha', hb', hc', hd', hval', hg'⟩ := hg.low hlow
          obtain ⟨us, hus, rfl⟩ := ih g'.length (by simp at hn; omega) hg' rfl
          refine ⟨([0x5c, 0x75, a, b, c, d] ++ [0x5c, 0x75, a', b', c', d']) :: us, ?_, ?_⟩
          · have h1 := (JsString.isHigh_iff v).mp hhigh
            have h2 := (JsString.isLow_iff v').mp hlow
            rw [JsString.codePoints_pair hhigh hlow]
            refine .cons (.scalar (.pair a b c d a' b' c' d' _ ha hb hc hd ha' hb' hc' hd' ?_ ?_
              ?_ ?_ ?_)) hus
            · omega
            · omega
            · omega
            · omega
            · rw [JsString.paired_val hhigh hlow, hval, hval']
          · rw [List.flatten_cons, List.append_assoc]
        · obtain ⟨us, hus, rfl⟩ := ih g.length (by simp at hn; omega) hg rfl
          refine ⟨_ :: us, ?_, rfl⟩
          rw [JsString.codePoints_lone hsurrogate]
          · exact .cons (.lone a b c d ha hb hc hd hval) hus
          · intro hhigh v' hv'
            rw [← Bool.not_eq_true]
            intro hlow
            cases t with
            | nil => cases hv'
            | cons x t =>
              cases hv'
              exact hpair ⟨hhigh, _, t, rfl, hlow⟩

/-! ## what the server makes of a body -/

theorem CharDenotes.parses {u : Bytes} {ch : Char} (h : CharDenotes u ch) {f : Bytes} {s : JsString}
    (hf : ParsesTo f s) :
    ParsesTo (u ++ f) (unitsOf ch ++ s) := by
  cases h with
  | unescaped _ h1 h2 h3 => exact .cons (.unescaped ch h1 h2 h3) hf
  | escape e _ he =>
    rw [unitsOf_low (Nat.lt_trans (escapes_low he) (by decide))]
    exact .cons (.escape e _ he) hf
  | unicode a b c d _ ha hb hc hd hv =>
    have hlt := quad_lt a b c d
    rw [unitsOf_low (by omega), hv]
    exact .cons (.unicode a b c d ha hb hc hd) hf
  | pair a b c d a' b' c' d' _ ha hb hc hd ha' hb' hc' hd' h1 h2 h3 h4 hv =>
    have hv1 := quad_toNat a b c d
    have hv2 := quad_toNat a' b' c' d'
    have hhigh := (JsString.isHigh_iff (UInt16.ofNat (quad a b c d))).mpr (by omega)
    have hlow := (JsString.isLow_iff (UInt16.ofNat (quad a' b' c' d'))).mpr (by omega)
    have hch : JsString.paired (UInt16.ofNat (quad a b c d))
      (UInt16.ofNat (quad a' b' c' d')) = ch :=
      JsString.char_eq (by rw [JsString.paired_val hhigh hlow, hv1, hv2, hv])
    rw [← hch, JsString.unitsOf_paired hhigh hlow]
    have hcons := ParsesTo.cons (.unicode a b c d ha hb hc hd)
      (.cons (.unicode a' b' c' d' ha' hb' hc' hd') hf)
    exact hcons

/-- the characters that a body denotes are those of its string -/
theorem Denotes.parsesTo {f : Bytes} {chs : List Char} (h : Denotes f chs) :
    ParsesTo f (units chs) := by
  induction h with
  | nil => exact .nil
  | cons hu _ ih => exact hu.parses ih

theorem denotes_points {us : List Bytes} {ps : List CodePoint} (h : List.Forall₂ PointBytes us ps)
    (hall : ∀ p ∈ ps, ∃ ch, p = .scalar ch) : ∃ chs, Denotes us.flatten chs := by
  induction h with
  | nil => exact ⟨[], .nil⟩
  | @cons u p us ps hu _ ih =>
    obtain ⟨⟨ch, rfl⟩, hps⟩ := List.forall_mem_cons.mp hall
    obtain ⟨chs, hchs⟩ := ih hps
    cases hu with
    | scalar hch => exact ⟨ch :: chs, .cons hch hchs⟩

/-- **A body denotes characters exactly when its string is well formed**, and they are those of the
string. -/
theorem ParsesTo.denotes_iff {f : Bytes} {s : JsString} (h : ParsesTo f s) (chs : List Char) :
    Denotes f chs ↔ WellFormed s ∧ chs = chars s := by
  have hforward : ∀ {chs}, Denotes f chs → WellFormed s ∧ chs = chars s := by
    intro chs hchs
    have hunits := h.unique hchs.parsesTo
    rw [hunits]
    exact ⟨JsString.wellFormed_units chs, (JsString.chars_units chs).symm⟩
  constructor
  · exact hforward
  · rintro ⟨hs, rfl⟩
    obtain ⟨us, hus, rfl⟩ := h.points
    obtain ⟨chs, hchs⟩ := denotes_points hus hs
    rwa [(hforward hchs).2] at hchs

theorem ParsesTo.codepoints_some {f : Bytes} {s : JsString} (h : ParsesTo f s) (hs : WellFormed s) :
    codepoints f = some ((chars s).map (·.val.toNat)) :=
  ((h.denotes_iff (chars s)).mpr ⟨hs, rfl⟩).read

theorem ParsesTo.codepoints_none {f : Bytes} {s : JsString} (h : ParsesTo f s)
    (hs : ¬ WellFormed s) :
    codepoints f = none := by
  rw [codepoints_none_iff]
  rintro ⟨chs, hchs⟩
  exact hs ((h.denotes_iff chs).mp hchs).1

/-- **Comparing two bodies is comparing their strings**, where both are well formed. -/
theorem ParsesTo.equalDecoded {f g : Bytes} {s t : JsString} (hf : ParsesTo f s) (hg : ParsesTo g t)
    (hs : WellFormed s) (ht : WellFormed t) : equalDecoded f g = some (decide (s = t)) := by
  rw [equalDecoded_eq, hf.codepoints_some hs, hg.codepoints_some ht]
  have hsame : (chars s).map (·.val.toNat) = (chars t).map (·.val.toNat) ↔ s = t := by
    constructor
    · exact fun h => JsString.chars_inj hs ht (chars_inj h)
    · rintro rfl
      rfl
  rw [Option.bind_some, Option.map_some, Option.some.injEq, ← decide_eq_decide.mpr hsame]
  exact beq_eq_decide _ _

theorem ParsesTo.equalDecoded_none {f g : Bytes} {s t : JsString} (hf : ParsesTo f s)
    (hg : ParsesTo g t) (h : ¬ (WellFormed s ∧ WellFormed t)) : Json.equalDecoded f g = none := by
  rw [equalDecoded_eq]
  by_cases hs : WellFormed s
  · rw [hf.codepoints_some hs, hg.codepoints_none fun ht => h ⟨hs, ht⟩]
    rfl
  · rw [hf.codepoints_none hs, Option.bind_none]

/-- two bodies are read as the same string, and compared alike -/
structure SameText (f g : Bytes) : Prop where
  reads : ∀ s, ParsesTo f s ↔ ParsesTo g s
  compares : ∀ answer, equalDecoded f answer = equalDecoded g answer

theorem ParsesTo.same {f g : Bytes} {s : JsString} (hf : ParsesTo f s) (hg : ParsesTo g s) :
    SameText f g := by
  constructor
  · intro t
    constructor
    · intro ht
      rwa [ht.unique hf]
    · intro ht
      rwa [ht.unique hg]
  · intro answer
    have hsame : codepoints f = codepoints g := by
      by_cases hs : WellFormed s
      · rw [hf.codepoints_some hs, hg.codepoints_some hs]
      · rw [hf.codepoints_none hs, hg.codepoints_none hs]
    rw [equalDecoded_eq, equalDecoded_eq, hsame]

theorem ParsesTo.ne_nil {f : Bytes} {s : JsString} (h : ParsesTo f s) (hf : f ≠ []) : s ≠ [] := by
  rintro rfl
  rcases h.inv with ⟨rfl, -⟩ | ⟨u, g, w, t, hu, -, -, heq⟩
  · exact hf rfl
  · have hw : w ≠ [] := by
      cases hu with
      | unescaped ch _ _ _ =>
        rcases JsString.unitsOf_cases ch with ⟨x, hx, -⟩ | ⟨x, y, hx, -⟩ <;>
          (rw [hx]; exact List.cons_ne_nil _ _)
      | escape e n _ => exact List.cons_ne_nil _ _
      | unicode a b c d _ _ _ _ => exact List.cons_ne_nil _ _
    exact hw (List.append_eq_nil_iff.mp heq.symm).1

/-! ## what is written is shortest -/

theorem storedCharacterCount_le (f : Bytes) : storedCharacterCount f ≤ f.length :=
  List.length_filter_le _ f

theorem HexDigit.low {c : UInt8} (h : HexDigit c) : c.toNat < 0x80 := by
  rcases h with h | h | h <;> exact Nat.lt_of_le_of_lt (UInt8.le_iff_toNat_le.mp h.2) (by decide)

theorem escape_count {a b c d : UInt8} (ha : HexDigit a) (hb : HexDigit b) (hc : HexDigit c)
    (hd : HexDigit d) :
    storedCharacterCount [0x5c, 0x75, a, b, c, d] = 6 := by
  refine storedCharacterCount_ascii ?_
  simp only [List.forall_mem_cons]
  exact ⟨by decide, by decide, ha.low, hb.low, hc.low, hd.low, List.forall_mem_nil _⟩

theorem quoteScalar_length (ch : Char) : (quoteScalar ch).length ≤ 6 := by
  unfold quoteScalar
  split
  · exact Nat.le_add_left 2 4
  · split
    · exact le_rfl
    · rw [String.length_utf8EncodeChar]
      exact Nat.le_trans (Char.utf8Size_le_four ch) (by decide)

/-- a character with an escape of one letter is written with it, but for the slash -/
theorem quoteScalar_escape {e : UInt8} {ch : Char} (h : (e, ch.val.toNat) ∈ escapes) :
    quoteScalar ch = [0x5c, e] ∨ quoteScalar ch = [0x2f] := by
  have hch : ∀ d : Char, ch.val.toNat = d.val.toNat → ch = d := fun d hd => Char.toNat_inj.mp hd
  simp only [escapes, List.mem_cons, Prod.mk.injEq, List.not_mem_nil, or_false] at h
  rcases h with ⟨rfl, h⟩ | ⟨rfl, h⟩ | ⟨rfl, h⟩ | ⟨rfl, h⟩ | ⟨rfl, h⟩ | ⟨rfl, h⟩
    | ⟨rfl, h⟩ | ⟨rfl, h⟩
  · rw [hch '"' h]; exact .inl rfl
  · rw [hch '\\' h]; exact .inl rfl
  · rw [hch '/' h]; exact .inr (by decide)
  · rw [hch (Char.ofNat 0x08) h]; exact .inl rfl
  · rw [hch (Char.ofNat 0x0c) h]; exact .inl rfl
  · rw [hch (Char.ofNat 0x0a) h]; exact .inl rfl
  · rw [hch (Char.ofNat 0x0d) h]; exact .inl rfl
  · rw [hch (Char.ofNat 0x09) h]; exact .inl rfl

/-- how much a body takes of the limits -/
structure NoLonger (f g : Bytes) : Prop where
  count : storedCharacterCount f ≤ storedCharacterCount g
  length : f.length ≤ g.length

theorem PointBytes.noLonger {u : Bytes} {p : CodePoint} (h : PointBytes u p) :
    NoLonger (quotePoint p) u := by
  have hcount : ∀ {f g : Bytes}, f.length ≤ storedCharacterCount g → NoLonger f g := fun h =>
    ⟨Nat.le_trans (storedCharacterCount_le _) h, Nat.le_trans h (storedCharacterCount_le _)⟩
  cases h with
  | @scalar _ ch hch =>
    have hsix : (quotePoint (.scalar ch)).length ≤ 6 := quoteScalar_length ch
    cases hch with
    | unescaped _ h1 h2 h3 =>
      have heq : quotePoint (.scalar ch) = String.utf8EncodeChar ch := by
        show quoteScalar ch = _
        unfold quoteScalar
        rw [shortEscape_plain h1 h2 h3]
        exact if_neg (by omega)
      rw [heq]
      exact ⟨le_rfl, le_rfl⟩
    | escape e _ he =>
      have htwo : storedCharacterCount [0x5c, e] = 2 := by
        have hlow : e.toNat < 0x80 := by
          simp only [escapes, List.mem_cons, Prod.mk.injEq, List.not_mem_nil, or_false] at he
          rcases he with he | he | he | he | he | he | he | he <;> (rw [he.1]; decide)
        refine storedCharacterCount_ascii ?_
        simp only [List.forall_mem_cons]
        exact ⟨by decide, hlow, List.forall_mem_nil _⟩
      refine hcount ?_
      rw [htwo]
      rcases quoteScalar_escape he with heq | heq
      · exact Nat.le_of_eq (congrArg List.length heq)
      · exact Nat.le_trans (Nat.le_of_eq (congrArg List.length heq)) (by decide)
    | unicode a b c d _ ha hb hc hd _ => exact hcount (by rw [escape_count ha hb hc hd]; exact hsix)
    | pair a b c d a' b' c' d' _ ha hb hc hd ha' hb' hc' hd' _ _ _ _ _ =>
      refine hcount ?_
      have happend := storedCharacterCount_append [0x5c, 0x75, a, b, c, d]
        [0x5c, 0x75, a', b', c', d']
      rw [escape_count ha hb hc hd, escape_count ha' hb' hc' hd'] at happend
      exact Nat.le_trans hsix (by rw [show [0x5c, 0x75, a, b, c, d, 0x5c, 0x75, a', b', c', d'] =
        [0x5c, 0x75, a, b, c, d] ++ [0x5c, 0x75, a', b', c', d'] from rfl, happend]; decide)
  | lone a b c d ha hb hc hd _ => exact hcount (by rw [escape_count ha hb hc hd]; exact le_rfl)

/-- **Nothing that is read as `s` is shorter than what is written for `s`**, in bytes and in the
characters that the server counts. -/
theorem ParsesTo.shortest {f : Bytes} {s : JsString} (h : ParsesTo f s) :
    NoLonger (stringify s) f := by
  obtain ⟨us, hus, rfl⟩ := h.points
  clear h
  unfold stringify
  generalize codePoints s = ps at hus
  induction hus with
  | nil => exact ⟨le_rfl, le_rfl⟩
  | @cons u p us ps hu _ ih =>
    rw [List.flatMap_cons, List.flatten_cons]
    have hone := hu.noLonger
    constructor
    · rw [storedCharacterCount_append, storedCharacterCount_append]
      exact Nat.add_le_add hone.count ih.count
    · rw [List.length_append, List.length_append]
      exact Nat.add_le_add hone.length ih.length

theorem stringify_nil_iff (s : JsString) : stringify s = [] ↔ s = [] := by
  constructor
  · intro h
    have hparse := parsesTo_stringify s
    rw [h] at hparse
    exact hparse.unique .nil
  · rintro rfl
    rfl

end Json

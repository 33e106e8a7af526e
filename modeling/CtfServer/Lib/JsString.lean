import Mathlib.Data.List.TakeWhile
import Mathlib.Data.Char

/-!
# Strings of JavaScript

A string is a sequence of UTF-16 code units, in which a surrogate may stand without its partner.

* `JsString.codePoints`    what a string is iterated over by;
* `JsString.WellFormed`    no surrogate stands alone;
* `JsString.units`         the code units of characters;
* `units_chars`, `chars_units`   a well-formed string is that of its characters;
* `JsString.textEncode`    `TextEncoder`, which replaces a surrogate that stands alone;
* `JsString.trim`          `String.prototype.trim`.
-/

/-- UTF-16 code units -/
abbrev JsString := List UInt16

namespace JsString

/-! ## code points -/

def isHigh (u : UInt16) : Bool := 0xd800 ≤ u.toNat && u.toNat ≤ 0xdbff

def isLow (u : UInt16) : Bool := 0xdc00 ≤ u.toNat && u.toNat ≤ 0xdfff

/-- a character, or a surrogate without its partner -/
inductive CodePoint where
  | scalar (ch : Char)
  | lone (u : UInt16)
  deriving DecidableEq, Repr

/-- the character of a pair of surrogates -/
def paired (high low : UInt16) : Char :=
  Char.ofNat (0x10000 + (high.toNat - 0xd800) * 0x400 + (low.toNat - 0xdc00))

/-- one turn: the first code point, and how many further units it takes -/
def codePoints : JsString → List CodePoint
  | [] => []
  | [u] => [if isHigh u || isLow u then .lone u else .scalar (Char.ofNat u.toNat)]
  | u :: v :: rest =>
    if isHigh u && isLow v then .scalar (paired u v) :: codePoints rest
    else (if isHigh u || isLow u then .lone u else .scalar (Char.ofNat u.toNat)) ::
      codePoints (v :: rest)

/-- no surrogate stands alone -/
def WellFormed (s : JsString) : Prop := ∀ p ∈ codePoints s, ∃ ch, p = .scalar ch

/-- the characters of a string -/
def chars (s : JsString) : List Char :=
  (codePoints s).filterMap fun
    | .scalar ch => some ch
    | .lone _ => none

/-- the code units of a character -/
def unitsOf (ch : Char) : JsString :=
  if ch.val.toNat < 0x10000 then [UInt16.ofNat ch.val.toNat]
  else [UInt16.ofNat (0xd800 + (ch.val.toNat - 0x10000) / 0x400), UInt16.ofNat
    (0xdc00 + (ch.val.toNat - 0x10000) % 0x400)]

def units (chs : List Char) : JsString := chs.flatMap unitsOf

/-- the string of an ASCII text -/
def ofAscii (text : List UInt8) : JsString := text.map fun c => UInt16.ofNat c.toNat

/-- U+FFFD -/
def replacement : Char := Char.ofNat 0xfffd

/-- `TextEncoder.encode` -/
def textEncode (s : JsString) : List UInt8 :=
  (codePoints s).flatMap fun
    | .scalar ch => String.utf8EncodeChar ch
    | .lone _ => String.utf8EncodeChar replacement

/-- the white space and the line terminators -/
def isBlank (u : UInt16) : Bool :=
  (9 ≤ u.toNat && u.toNat ≤ 13) || u.toNat == 0x20 || u.toNat == 0xa0 || u.toNat == 0x1680 ||
    (0x2000 ≤ u.toNat && u.toNat ≤ 0x200a) || u.toNat == 0x2028 || u.toNat == 0x2029 ||
    u.toNat == 0x202f ||
    u.toNat == 0x205f || u.toNat == 0x3000 || u.toNat == 0xfeff

def trim (s : JsString) : JsString := ((s.dropWhile isBlank).reverse.dropWhile isBlank).reverse

/-! ## characters and units -/

theorem char_ofNat {n : Nat} (h : n < 0xd800 ∨ (0xdfff < n ∧ n < 0x110000)) :
    (Char.ofNat n).val.toNat = n := by
  have hvalid : n.isValidChar := h
  rw [Char.ofNat, dif_pos hvalid]
  rfl

theorem char_eq {a b : Char} (h : a.val.toNat = b.val.toNat) : a = b :=
  Char.ext (UInt32.toNat_inj.mp h)

theorem isHigh_iff (u : UInt16) : isHigh u = true ↔ 0xd800 ≤ u.toNat ∧ u.toNat ≤ 0xdbff := by
  simp [isHigh]

theorem isLow_iff (u : UInt16) : isLow u = true ↔ 0xdc00 ≤ u.toNat ∧ u.toNat ≤ 0xdfff := by
  simp [isLow]

/-- a pair of surrogates is a character beyond U+FFFF -/
theorem paired_val {u v : UInt16} (hu : isHigh u = true) (hv : isLow v = true) :
    (paired u v).val.toNat = 0x10000 + (u.toNat - 0xd800) * 0x400 + (v.toNat - 0xdc00) := by
  obtain ⟨h1, h2⟩ := (isHigh_iff u).mp hu
  obtain ⟨h3, h4⟩ := (isLow_iff v).mp hv
  exact char_ofNat (.inr ⟨by omega, by omega⟩)

/-- a unit that is no surrogate is a character -/
theorem single_val {u : UInt16} (h : (isHigh u || isLow u) = false) :
    (Char.ofNat u.toNat).val.toNat = u.toNat := by
  have hlt := u.toNat_lt
  rw [Bool.or_eq_false_iff, ← Bool.not_eq_true, ← Bool.not_eq_true, isHigh_iff, isLow_iff] at h
  exact char_ofNat (by omega)

theorem unitsOf_single {u : UInt16} (h : (isHigh u || isLow u) = false) :
    unitsOf (Char.ofNat u.toNat) = [u] := by
  unfold unitsOf
  rw [single_val h, if_pos u.toNat_lt, UInt16.ofNat_toNat]

theorem unitsOf_paired {u v : UInt16} (hu : isHigh u = true) (hv : isLow v = true) :
    unitsOf (paired u v) = [u, v] := by
  obtain ⟨h1, h2⟩ := (isHigh_iff u).mp hu
  obtain ⟨h3, h4⟩ := (isLow_iff v).mp hv
  have hval := paired_val hu hv
  unfold unitsOf
  rw [hval, if_neg (by omega)]
  have hhigh : 0xd800 + (0x10000 + (u.toNat - 0xd800) * 0x400 + (v.toNat - 0xdc00) - 0x10000) /
    0x400 = u.toNat := by omega
  have hlow : 0xdc00 + (0x10000 + (u.toNat - 0xd800) * 0x400 + (v.toNat - 0xdc00) - 0x10000) % 0x400
    = v.toNat := by omega
  rw [hhigh, hlow, UInt16.ofNat_toNat, UInt16.ofNat_toNat]

/-! ## the turns of the iteration -/

/-- how the iteration goes on: the next code point, its units, and the rest -/
inductive Turn : JsString → CodePoint → JsString → Prop where
  | pair {u v : UInt16} {rest : JsString} : isHigh u = true → isLow v = true →
    Turn (u :: v :: rest) (.scalar (paired u v)) rest
  | high {u : UInt16} {rest : JsString} : isHigh u = true → (∀ v ∈ rest.head?, isLow v = false) →
    Turn (u :: rest) (.lone u) rest
  | low {u : UInt16} {rest : JsString} : isLow u = true → Turn (u :: rest) (.lone u) rest
  | single {u : UInt16} {rest : JsString} : (isHigh u || isLow u) = false →
    Turn (u :: rest) (.scalar (Char.ofNat u.toNat)) rest

theorem high_not_low {u : UInt16} (h : isHigh u = true) : isLow u = false := by
  rw [isHigh_iff] at h
  rw [← Bool.not_eq_true, isLow_iff]
  omega

theorem codePoints_turn (u : UInt16) (rest : JsString) :
    ∃ p rest', Turn (u :: rest) p rest' ∧ codePoints (u :: rest) = p :: codePoints rest' := by
  have hstep : (isHigh u = true → ∀ v ∈ rest.head?, isLow v = false) →
      codePoints (u :: rest) = (if isHigh u || isLow u then .lone u else
        .scalar (Char.ofNat u.toNat)) :: codePoints rest →
      ∃ p rest', Turn (u :: rest) p rest' ∧ codePoints (u :: rest) = p :: codePoints rest' := by
    intro hnext heq
    refine ⟨_, rest, ?_, heq⟩
    cases hhigh : isHigh u with
    | true =>
      rw [Bool.true_or, if_pos rfl]
      exact .high hhigh (hnext hhigh)
    | false =>
      cases hlow : isLow u with
      | true =>
        rw [Bool.or_true, if_pos rfl]
        exact .low hlow
      | false =>
        rw [Bool.or_false, if_neg (by decide)]
        exact .single (by rw [hhigh, hlow]; rfl)
  cases rest with
  | nil => exact hstep (fun _ v hv => by cases hv) (by rw [codePoints, codePoints])
  | cons v rest =>
    by_cases hpair : (isHigh u && isLow v) = true
    · obtain ⟨hu, hv⟩ := Bool.and_eq_true_iff.mp hpair
      refine ⟨_, rest, .pair hu hv, ?_⟩
      rw [codePoints, if_pos hpair]
    · refine hstep (fun hu w hw => ?_) ?_
      · cases hw
        rw [hu, Bool.true_and, Bool.not_eq_true] at hpair
        exact hpair
      · rw [codePoints, if_neg hpair]

theorem Turn.length {s rest : JsString} {p : CodePoint} (h : Turn s p rest) :
    rest.length < s.length := by
  cases h <;> simp only [List.length_cons] <;> omega

/-- **induction along the code points** -/
theorem codePoints_induction {P : JsString → Prop} (nil : P [])
    (turn : ∀ s p rest, Turn s p rest → codePoints s = p :: codePoints rest → P rest → P s)
    (s : JsString) : P s := by
  obtain ⟨n, hn⟩ : ∃ n, s.length ≤ n := ⟨_, Nat.le_refl _⟩
  induction n generalizing s with
  | zero =>
    rw [List.length_eq_zero_iff.mp (Nat.le_zero.mp hn)]
    exact nil
  | succ n ih =>
    cases s with
    | nil => exact nil
    | cons u rest =>
      obtain ⟨p, rest', hturn, heq⟩ := codePoints_turn u rest
      have hlength := hturn.length
      exact turn _ p rest' hturn heq (ih rest' (by omega))

/-- the units of a code point -/
theorem Turn.units {s rest : JsString} {p : CodePoint} {ch : Char} (h : Turn s p rest)
    (hp : p = .scalar ch) :
    s = unitsOf ch ++ rest := by
  cases h with
  | pair hu hv => rw [← CodePoint.scalar.inj hp, unitsOf_paired hu hv]; rfl
  | single hu => rw [← CodePoint.scalar.inj hp, unitsOf_single hu]; rfl
  | high _ _ => exact CodePoint.noConfusion hp
  | low _ => exact CodePoint.noConfusion hp

theorem wellFormed_turn {s rest : JsString} {p : CodePoint}
    (heq : codePoints s = p :: codePoints rest) :
    WellFormed s ↔ (∃ ch, p = .scalar ch) ∧ WellFormed rest := by
  unfold WellFormed
  rw [heq, List.forall_mem_cons]

/-- **a well-formed string is that of its characters** -/
theorem units_chars {s : JsString} (h : WellFormed s) : units (chars s) = s := by
  induction s using codePoints_induction with
  | nil => rfl
  | turn s p rest hturn heq ih =>
    obtain ⟨⟨ch, rfl⟩, hrest⟩ := (wellFormed_turn heq).mp h
    have hchars : chars s = ch :: chars rest := by
      unfold chars
      rw [heq]
      rfl
    calc units (chars s) = unitsOf ch ++ units (chars rest) := by rw [hchars]; rfl
      _ = unitsOf ch ++ rest := by rw [ih hrest]
      _ = s := (hturn.units rfl).symm

theorem chars_inj {s t : JsString} (hs : WellFormed s) (ht : WellFormed t) (h : chars s = chars t) :
    s = t := by
  calc s = units (chars s) := (units_chars hs).symm
    _ = units (chars t) := by rw [h]
    _ = t := units_chars ht

/-- `TextEncoder` on a well-formed string -/
theorem textEncode_chars {s : JsString} (h : WellFormed s) :
    textEncode s = (chars s).flatMap String.utf8EncodeChar := by
  unfold textEncode chars
  unfold WellFormed at h
  generalize codePoints s = ps at h
  induction ps with
  | nil => rfl
  | cons p ps ih =>
    obtain ⟨⟨ch, rfl⟩, hps⟩ := List.forall_mem_cons.mp h
    exact congrArg (String.utf8EncodeChar ch ++ ·) (ih hps)

/-! ## from characters to units -/

theorem codePoints_single {u : UInt16} (h : (isHigh u || isLow u) = false) (rest : JsString) :
    codePoints (u :: rest) = .scalar (Char.ofNat u.toNat) :: codePoints rest := by
  obtain ⟨p, rest', hturn, heq⟩ := codePoints_turn u rest
  rw [heq]
  cases hturn with
  | pair hhigh _ => rw [hhigh] at h; cases h
  | high hhigh _ => rw [hhigh] at h; cases h
  | low hlow => rw [hlow, Bool.or_true] at h; cases h
  | single _ => rfl

theorem codePoints_pair {u v : UInt16} (hu : isHigh u = true) (hv : isLow v = true)
    (rest : JsString) :
    codePoints (u :: v :: rest) = .scalar (paired u v) :: codePoints rest := by
  rw [codePoints, if_pos (by rw [hu, hv]; rfl)]

/-- a surrogate without its partner -/
theorem codePoints_lone {u : UInt16} (h : (isHigh u || isLow u) = true) {rest : JsString}
    (hnext : isHigh u = true → ∀ v ∈ rest.head?, isLow v = false) :
    codePoints (u :: rest) = .lone u :: codePoints rest := by
  obtain ⟨p, rest', hturn, heq⟩ := codePoints_turn u rest
  rw [heq]
  cases hturn with
  | pair hhigh hlow => rw [hnext hhigh _ rfl] at hlow; cases hlow
  | high _ _ => rfl
  | low _ => rfl
  | single hnone => rw [hnone] at h; cases h

/-- the units of a character are a unit that is no surrogate, or a pair of surrogates -/
theorem unitsOf_cases (ch : Char) :
    (∃ u, unitsOf ch = [u] ∧ u.toNat = ch.val.toNat ∧ (isHigh u || isLow u) = false) ∨
      ∃ u v, unitsOf ch = [u, v] ∧ isHigh u = true ∧ isLow v = true ∧ paired u v = ch := by
  have hvalid : ch.val.toNat < 0xd800 ∨ (0xdfff < ch.val.toNat ∧ ch.val.toNat < 0x110000) :=
    ch.valid
  by_cases hlow : ch.val.toNat < 0x10000
  · have hval : (UInt16.ofNat ch.val.toNat).toNat = ch.val.toNat := by
      rw [UInt16.toNat_ofNat']
      omega
    refine .inl ⟨_, by rw [unitsOf, if_pos hlow], hval, ?_⟩
    rw [Bool.or_eq_false_iff, ← Bool.not_eq_true, ← Bool.not_eq_true, isHigh_iff, isLow_iff, hval]
    omega
  · have hhighVal : (UInt16.ofNat (0xd800 + (ch.val.toNat - 0x10000) / 0x400)).toNat =
        0xd800 + (ch.val.toNat - 0x10000) / 0x400 := by
      rw [UInt16.toNat_ofNat']
      omega
    have hlowVal : (UInt16.ofNat (0xdc00 + (ch.val.toNat - 0x10000) % 0x400)).toNat =
        0xdc00 + (ch.val.toNat - 0x10000) % 0x400 := by
      rw [UInt16.toNat_ofNat']
      omega
    have hhigh := (isHigh_iff (UInt16.ofNat (0xd800 + (ch.val.toNat - 0x10000) / 0x400))).mpr
      (by rw [hhighVal]; omega)
    have hlow' := (isLow_iff (UInt16.ofNat (0xdc00 + (ch.val.toNat - 0x10000) % 0x400))).mpr
      (by rw [hlowVal]; omega)
    refine .inr ⟨_, _, by rw [unitsOf, if_neg hlow], hhigh, hlow', char_eq ?_⟩
    rw [paired_val hhigh hlow', hhighVal, hlowVal]
    omega

theorem codePoints_unitsOf (ch : Char) (rest : JsString) :
    codePoints (unitsOf ch ++ rest) = .scalar ch :: codePoints rest := by
  rcases unitsOf_cases ch with ⟨u, hunits, hval, hsingle⟩ | ⟨u, v, hunits, hhigh, hlow, hch⟩
  · have hch : Char.ofNat u.toNat = ch := char_eq (by rw [single_val hsingle, hval])
    rw [hunits, List.singleton_append, codePoints_single hsingle, hch]
  · rw [hunits]
    exact (codePoints_pair hhigh hlow rest).trans (by rw [hch])

theorem codePoints_units (chs : List Char) : codePoints (units chs) = chs.map .scalar := by
  induction chs with
  | nil => rfl
  | cons ch chs ih =>
    calc codePoints (units (ch :: chs)) = codePoints (unitsOf ch ++ units chs) := rfl
      _ = .scalar ch :: codePoints (units chs) := codePoints_unitsOf ch _
      _ = (ch :: chs).map .scalar := by rw [ih]; rfl

theorem wellFormed_units (chs : List Char) : WellFormed (units chs) := by
  intro p hp
  rw [codePoints_units, List.mem_map] at hp
  obtain ⟨ch, -, rfl⟩ := hp
  exact ⟨ch, rfl⟩

theorem chars_units (chs : List Char) : chars (units chs) = chs := by
  unfold chars
  rw [codePoints_units]
  induction chs with
  | nil => rfl
  | cons ch chs ih => exact congrArg (ch :: ·) ih

theorem mem_unitsOf_low {ch : Char} {u : UInt16} (hu : u ∈ unitsOf ch) (hlow : u.toNat < 0x80) :
    u.toNat = ch.val.toNat := by
  rcases unitsOf_cases ch with ⟨x, hunits, hval, -⟩ | ⟨x, y, hunits, hhigh, hlow', -⟩
  · rw [hunits, List.mem_singleton] at hu
    rw [hu, hval]
  · have h1 := (isHigh_iff x).mp hhigh
    have h2 := (isLow_iff y).mp hlow'
    rw [hunits, List.mem_cons, List.mem_singleton] at hu
    rcases hu with rfl | rfl <;> omega

/-- at least one byte for each code point -/
theorem codePoints_length_le (s : JsString) : (codePoints s).length ≤ (textEncode s).length := by
  unfold textEncode
  generalize codePoints s = ps
  induction ps with
  | nil => exact Nat.le_refl _
  | cons p ps ih =>
    have hone : ∀ ch : Char, 1 ≤ (String.utf8EncodeChar ch).length :=
      fun ch => List.length_pos_iff.mpr (by simp)
    rw [List.flatMap_cons, List.length_append, List.length_cons, Nat.add_comm]
    refine Nat.add_le_add ?_ ih
    cases p with
    | scalar ch => exact hone ch
    | lone u => exact hone replacement

/-- what is left of a string that is not blank is not empty -/
theorem trim_eq_nil_iff (s : JsString) : trim s = [] ↔ ∀ u ∈ s, isBlank u = true := by
  unfold trim
  rw [List.reverse_eq_nil_iff, List.dropWhile_eq_nil_iff]
  constructor
  · intro h
    -- the first unit that is kept would not be blank
    have hall : s.dropWhile isBlank = [] := by
      cases hrest : s.dropWhile isBlank with
      | nil => rfl
      | cons u rest =>
        have hhead := List.head?_dropWhile_not isBlank s
        rw [hrest] at hhead h
        have hblank : isBlank u = false := hhead
        rw [h u (by simp)] at hblank
        cases hblank
    exact List.dropWhile_eq_nil_iff.mp hall
  · intro h u hu
    rw [List.dropWhile_eq_nil_iff.mpr h] at hu
    cases hu

/-- a string of units that are no surrogates: each is a character -/
theorem codePoints_plain {s : JsString} (h : ∀ u ∈ s, (isHigh u || isLow u) = false) :
    codePoints s = s.map fun u => .scalar (Char.ofNat u.toNat) := by
  induction s with
  | nil => rfl
  | cons u rest ih =>
    obtain ⟨hu, hrest⟩ := List.forall_mem_cons.mp h
    rw [codePoints_single hu, ih hrest, List.map_cons]

/-! ## ASCII -/

theorem unit_toNat (c : UInt8) : (UInt16.ofNat c.toNat).toNat = c.toNat :=
  Nat.mod_eq_of_lt (Nat.lt_trans c.toNat_lt (by decide))

theorem ofAscii_append (a b : List UInt8) : ofAscii (a ++ b) = ofAscii a ++ ofAscii b :=
  List.map_append

theorem ofAscii_length (a : List UInt8) : (ofAscii a).length = a.length := List.length_map _

/-- ASCII texts and their strings are ordered alike -/
theorem ofAscii_lt {a b : List UInt8} (h : a < b) : ofAscii a < ofAscii b := by
  induction a generalizing b with
  | nil =>
    cases b with
    | nil => exact absurd h (List.lt_irrefl _)
    | cons y b => exact List.nil_lt_cons _ _
  | cons x a ih =>
    cases b with
    | nil => exact absurd h (List.not_lt_nil _)
    | cons y b =>
      refine List.cons_lt_cons_iff.mpr ?_
      rcases List.cons_lt_cons_iff.mp h with hxy | ⟨rfl, hab⟩
      · refine .inl (UInt16.lt_iff_toNat_lt.mpr ?_)
        rw [unit_toNat, unit_toNat]
        exact UInt8.lt_iff_toNat_lt.mp hxy
      · exact .inr ⟨rfl, ih hab⟩

end JsString

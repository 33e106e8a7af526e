import CtfServer.Lib.Bytes
import Mathlib.Tactic.Ring
import Mathlib.Tactic.Tauto

/-!
# Decimal numerals as byte strings

* `digits n`              the decimal numeral of `n`;
* `value l`               the number a digit string stands for;
* `fixed k n`             the numeral of `n` with `k` digits, leading zeros included;
* `readGuarded max a l`   the usual reading loop: digit by digit, with a guard that divides
                          instead of multiplying so that no intermediate value exceeds `max`;
* `readGuarded_iff`       it reads exactly the digit strings whose number is at most `max`;
* `readChecked`           the same loop on a machine type, every result checked: `readChecked_eq`;
* `digits_value`          a digit string without a leading zero is the numeral of its number.
-/

namespace Decimal

def isDigit (c : UInt8) : Bool := 48 ≤ c && c ≤ 57

/-- the digit of an octet -/
def digit (c : UInt8) : Nat := c.toNat - 48

theorem isDigit_iff (c : UInt8) : isDigit c = true ↔ 48 ≤ c.toNat ∧ c.toNat ≤ 57 := by
  simp [isDigit, UInt8.le_iff_toNat_le]

theorem digit_le (c : UInt8) (h : isDigit c = true) : digit c ≤ 9 := by
  have := (isDigit_iff c).mp h
  unfold digit
  omega

/-- the number read so far, then the digits of `l` -/
def valueFrom (a : Nat) (l : Bytes) : Nat := l.foldl (fun v c => v * 10 + digit c) a

/-- the number of a digit string -/
def value (l : Bytes) : Nat := valueFrom 0 l

theorem valueFrom_nil (a : Nat) : valueFrom a [] = a := rfl
theorem valueFrom_cons (a : Nat) (c : UInt8) (l : Bytes) :
    valueFrom a (c :: l) = valueFrom (a * 10 + digit c) l := by
  simp only [valueFrom, List.foldl_cons]
theorem valueFrom_append (a : Nat) (l m : Bytes) :
    valueFrom a (l ++ m) = valueFrom (valueFrom a l) m := by
  simp [valueFrom]

theorem le_valueFrom (a : Nat) (l : Bytes) : a ≤ valueFrom a l := by
  induction l generalizing a with
  | nil => exact Nat.le_refl a
  | cons c l ih =>
    rw [valueFrom_cons]
    exact le_trans (by omega) (ih _)

/-! ## the guarded loop -/

/-- one number, digit by digit; `none` at an octet that is no digit or would pass `max` -/
def readGuarded (max a : Nat) : Bytes → Option Nat
  | [] => some a
  | c :: cs =>
    if c < 48 ∨ 57 < c ∨ a > (max - digit c) / 10 then none
    else readGuarded max (a * 10 + digit c) cs

/-- the guard is exact at the limit -/
theorem guard_iff (max a d : Nat) (hd : d ≤ max) : a > (max - d) / 10 ↔ max < a * 10 + d := by
  omega

theorem readGuarded_cons (max a : Nat) (c : UInt8) (cs : Bytes) (hmax : 9 ≤ max) :
    readGuarded max a (c :: cs) =
      if isDigit c = true ∧ a * 10 + digit c ≤ max then readGuarded max (a * 10 + digit c) cs
      else none := by
  have hc : (c < 48 ∨ 57 < c) ↔ ¬ isDigit c = true := by
    rw [isDigit_iff, UInt8.lt_iff_toNat_lt, UInt8.lt_iff_toNat_lt]
    show c.toNat < 48 ∨ 57 < c.toNat ↔ _
    omega
  have hiff : (c < 48 ∨ 57 < c ∨ a > (max - digit c) / 10) ↔
      ¬ (isDigit c = true ∧ a * 10 + digit c ≤ max) := by
    rw [← or_assoc, hc]
    by_cases hd : isDigit c = true
    · have hg := guard_iff max a (digit c) (le_trans (digit_le c hd) hmax)
      rw [hg]
      simp [hd]
    · simp [hd]
  rw [readGuarded]
  by_cases h : isDigit c = true ∧ a * 10 + digit c ≤ max
  · rw [if_pos h, if_neg (fun h' => hiff.mp h' h)]
  · rw [if_neg h, if_pos (hiff.mpr h)]

/-- **The guarded loop reads exactly the digit strings up to `max`.** -/
theorem readGuarded_iff (max a n : Nat) (l : Bytes) (hmax : 9 ≤ max) (ha : a ≤ max) :
    readGuarded max a l = some n ↔
      (∀ c ∈ l, isDigit c = true) ∧ valueFrom a l = n ∧ n ≤ max := by
  induction l generalizing a with
  | nil =>
    show some a = some n ↔ _
    rw [Option.some_inj, valueFrom_nil]
    exact ⟨fun h => ⟨fun _ hc => absurd hc List.not_mem_nil, h, h ▸ ha⟩, fun h => h.2.1⟩
  | cons c cs ih =>
    rw [readGuarded_cons max a c cs hmax, valueFrom_cons]
    by_cases h : isDigit c = true ∧ a * 10 + digit c ≤ max
    · rw [if_pos h, ih _ h.2]
      simp only [List.mem_cons, forall_eq_or_imp, h.1, true_and]
    · rw [if_neg h]
      constructor
      · intro hn
        cases hn
      · rintro ⟨h1, h2, h3⟩
        have := le_valueFrom (a * 10 + digit c) cs
        exact absurd ⟨h1 c List.mem_cons_self, by omega⟩ h

/-! ## numerals -/

/-- the octet of a digit -/
def digitByte (d : Nat) : UInt8 := UInt8.ofNat (48 + d)

theorem digitByte_isDigit (d : Nat) (h : d < 10) : isDigit (digitByte d) = true := by
  rw [isDigit_iff]
  unfold digitByte
  rw [UInt8.toNat_ofNat']
  omega

theorem digit_digitByte (d : Nat) (h : d < 10) : digit (digitByte d) = d := by
  unfold digit digitByte
  rw [UInt8.toNat_ofNat']
  omega

/-- the decimal numeral of a number -/
def digits (n : Nat) : Bytes :=
  if n < 10 then [digitByte n] else digits (n / 10) ++ [digitByte (n % 10)]
decreasing_by omega

theorem digits_isDigit (n : Nat) : ∀ c ∈ digits n, isDigit c = true := by
  induction n using digits.induct with
  | case1 n h =>
    rw [digits, if_pos h]
    intro c hc
    rw [List.mem_singleton.mp hc]
    exact digitByte_isDigit n h
  | case2 n h ih =>
    rw [digits, if_neg h]
    intro c hc
    rcases List.mem_append.mp hc with h1 | h1
    · exact ih c h1
    · rw [List.mem_singleton.mp h1]
      exact digitByte_isDigit _ (by omega)

theorem value_digits (n : Nat) : value (digits n) = n := by
  unfold value
  induction n using digits.induct with
  | case1 n h =>
    rw [digits, if_pos h, valueFrom_cons, valueFrom_nil, digit_digitByte n h, Nat.zero_mul,
      Nat.zero_add]
  | case2 n h ih =>
    rw [digits, if_neg h, valueFrom_append, ih, valueFrom_cons, valueFrom_nil,
      digit_digitByte _ (by omega)]
    omega

theorem digits_length {n k : Nat} (hk : 0 < k) (h : n < 10^k) : (digits n).length ≤ k := by
  induction n using digits.induct generalizing k with
  | case1 n hn =>
    rw [digits, if_pos hn]
    exact hk
  | case2 n hn ih =>
    match k, hk with
    | k + 1, _ =>
      have hdiv : n / 10 < 10^k := Nat.div_lt_of_lt_mul (by rw [← Nat.pow_succ']; exact h)
      have hpos : 0 < k := by
        rcases Nat.eq_zero_or_pos k with h0 | h0
        · subst h0
          omega
        · exact h0
      rw [digits, if_neg hn, List.length_append]
      exact Nat.add_le_add_right (ih hpos hdiv) 1

theorem digits_ne_nil (n : Nat) : digits n ≠ [] := by
  rw [digits]
  split <;> simp

/-- a positive number has no leading zero -/
theorem digits_head (n : Nat) (hn : 0 < n) : ∃ c cs, digits n = c :: cs ∧ 49 ≤ c.toNat ∧
    c.toNat ≤ 57 := by
  induction n using digits.induct with
  | case1 n h =>
    rw [digits, if_pos h]
    refine ⟨_, _, rfl, ?_⟩
    unfold digitByte
    rw [UInt8.toNat_ofNat']
    omega
  | case2 n h ih =>
    obtain ⟨c, cs, h1, h2⟩ := ih (by omega)
    rw [digits, if_neg h, h1]
    exact ⟨c, cs ++ [_], rfl, h2⟩

theorem readGuarded_digits (max n : Nat) (hmax : 9 ≤ max) (hn : n ≤ max) :
    readGuarded max 0 (digits n) = some n :=
  (readGuarded_iff max 0 n _ hmax (Nat.zero_le _)).mpr ⟨digits_isDigit n, value_digits n, hn⟩

/-- a digit string without a leading zero is the numeral of its number -/
theorem digits_value {c : UInt8} {cs : Bytes} (hc : 49 ≤ c.toNat ∧ c.toNat ≤ 57)
    (hd : ∀ x ∈ cs, isDigit x = true) :
    digits (value (c :: cs)) = c :: cs ∧ 1 ≤ value (c :: cs) := by
  have hbyte : ∀ x : UInt8, isDigit x = true → digitByte (digit x) = x := by
    intro x hx
    have hx := (isDigit_iff x).mp hx
    unfold digitByte digit
    apply UInt8.toNat_inj.mp
    rw [UInt8.toNat_ofNat']
    omega
  induction cs using List.reverseRecOn with
  | nil =>
    have hvalue : value [c] = digit c := Nat.zero_add _
    have hdigit : 1 ≤ digit c ∧ digit c < 10 := by
      unfold digit
      omega
    rw [hvalue, digits, if_pos hdigit.2, hbyte c ((isDigit_iff c).mpr (by omega))]
    exact ⟨rfl, hdigit.1⟩
  | append_singleton cs x ih =>
    obtain ⟨hfront, hpos⟩ := ih fun y hy => hd y (List.mem_append_left _ hy)
    have hx := hd x (List.mem_append_right _ List.mem_cons_self)
    have hdigit := digit_le x hx
    have hvalue : value (c :: (cs ++ [x])) = value (c :: cs) * 10 + digit x := by
      unfold value
      rw [← List.cons_append, valueFrom_append, valueFrom_cons, valueFrom_nil]
    have hdiv : (value (c :: cs) * 10 + digit x) / 10 = value (c :: cs) := by omega
    have hmod : (value (c :: cs) * 10 + digit x) % 10 = digit x := by omega
    rw [hvalue, digits, if_neg (by omega), hdiv, hmod, hfront, hbyte x hx]
    exact ⟨rfl, by omega⟩

/-! ## the guarded loop on a machine type -/

/-- a result that stays in the range of its type -/
def fit (lo hi x : Int) : Option Int := if lo ≤ x ∧ x ≤ hi then some x else none

theorem fit_eq {lo hi x : Int} (h : lo ≤ x ∧ x ≤ hi) : fit lo hi x = some x := if_pos h

/-- one digit, with every result checked: `none` where one leaves its range, `some none` where the
guard stops -/
def digitChecked (lo hi max a : Int) (c : UInt8) : Option (Option Int) := do
  let digit ← fit lo hi ((c.toNat : Int) - 48)
  let room ← fit lo hi (max - digit)
  let limit ← fit lo hi (room.tdiv 10)
  if a > limit then some none
  else do
    let tens ← fit lo hi (a * 10)
    let sum ← fit lo hi (tens + digit)
    some (some sum)

/-- the guarded loop, with every result checked -/
def readChecked (lo hi max a : Int) : Bytes → Option (Option Int)
  | [] => some (some a)
  | c :: cs =>
    if c < 48 ∨ 57 < c then some none
    else do
      match ← digitChecked lo hi max a c with
      | none => some none
      | some sum => readChecked lo hi max sum cs

theorem digitChecked_eq {lo hi : Int} {max a : Nat} {c : UInt8} (hlo : lo ≤ 0)
    (hhi : (max : Int) ≤ hi) (hmax : 9 ≤ max) (hc : isDigit c = true) :
    digitChecked lo hi max a c =
      some (if a > (max - digit c) / 10 then none else some ((a * 10 + digit c : Nat) : Int)) := by
  have hrange := (isDigit_iff c).mp hc
  have hle := digit_le c hc
  have hdigit : (c.toNat : Int) - 48 = (digit c : Int) := by
    unfold digit
    omega
  generalize digit c = d at hdigit hle ⊢
  have hroom : (max : Int) - d = ((max - d : Nat) : Int) := by omega
  have hlimit : (((max - d : Nat) : Int)).tdiv 10 = (((max - d) / 10 : Nat) : Int) := rfl
  unfold digitChecked
  simp only [Option.bind_eq_bind]
  rw [hdigit, fit_eq (by omega), Option.bind_some, hroom, fit_eq (by omega), Option.bind_some,
    hlimit, fit_eq (by omega),
    Option.bind_some]
  by_cases hguard : a > (max - d) / 10
  · rw [if_pos hguard, if_pos (by exact_mod_cast hguard)]
  · have hsum : a * 10 + d ≤ max := by
      have := (guard_iff max a d (by omega)).not.mp hguard
      omega
    rw [if_neg hguard, if_neg (by exact_mod_cast hguard), fit_eq (by omega), Option.bind_some,
      fit_eq (by omega), Option.bind_some]
    rfl

/-- **no result of the guarded loop leaves the range of its type** -/
theorem readChecked_eq {lo hi : Int} {max a : Nat} (hlo : lo ≤ 0) (hhi : (max : Int) ≤ hi)
    (hmax : 9 ≤ max) (ha : a ≤ max) (l : Bytes) :
    readChecked lo hi max a l = some ((readGuarded max a l).map Int.ofNat) := by
  induction l generalizing a with
  | nil => rfl
  | cons c cs ih =>
    rw [readChecked, readGuarded]
    by_cases hc : c < 48 ∨ 57 < c
    · rw [if_pos hc, if_pos (by tauto)]
      rfl
    · have hdigit : isDigit c = true := by
        rw [isDigit_iff]
        rw [UInt8.lt_iff_toNat_lt, UInt8.lt_iff_toNat_lt] at hc
        change ¬ (c.toNat < 48 ∨ 57 < c.toNat) at hc
        omega
      have hle := digit_le c hdigit
      rw [if_neg hc, digitChecked_eq hlo hhi hmax hdigit]
      by_cases hguard : a > (max - digit c) / 10
      · rw [if_pos hguard, if_pos (Or.inr (Or.inr hguard))]
        rfl
      · have hsum : a * 10 + digit c ≤ max := by
          have := (guard_iff max a (digit c) (by omega)).not.mp hguard
          omega
        rw [if_neg hguard, if_neg (by tauto)]
        exact ih hsum

/-! ## numerals of a fixed width -/

/-- the last `k` digits of a number, leading zeros included -/
def fixed : Nat → Nat → Bytes
  | 0, _ => []
  | k + 1, n => fixed k (n / 10) ++ [digitByte (n % 10)]

theorem fixed_length (k n : Nat) : (fixed k n).length = k := by
  induction k generalizing n with
  | zero => rfl
  | succ k ih => rw [fixed, List.length_append, ih, List.length_singleton]

theorem fixed_isDigit (k n : Nat) : ∀ c ∈ fixed k n, isDigit c = true := by
  induction k generalizing n with
  | zero =>
    intro c hc
    cases hc
  | succ k ih =>
    intro c hc
    rw [fixed, List.mem_append, List.mem_singleton] at hc
    rcases hc with hc | rfl
    · exact ih _ c hc
    · exact digitByte_isDigit _ (Nat.mod_lt _ (by decide))

theorem value_fixed {k n : Nat} (h : n < 10 ^ k) : value (fixed k n) = n := by
  induction k generalizing n with
  | zero =>
    have hn : n = 0 := by simpa using h
    rw [hn]
    rfl
  | succ k ih =>
    have hdiv : n / 10 < 10 ^ k := Nat.div_lt_of_lt_mul (by rw [← Nat.pow_succ']; exact h)
    have hlast := digit_digitByte (n % 10) (Nat.mod_lt _ (by decide))
    have hfront := ih hdiv
    unfold value at hfront ⊢
    rw [fixed, valueFrom_append, hfront, valueFrom_cons, valueFrom_nil, hlast]
    omega

theorem value_lt (l : Bytes) (h : ∀ c ∈ l, isDigit c = true) : value l < 10 ^ l.length := by
  induction l using List.reverseRecOn with
  | nil => decide
  | append_singleton l c ih =>
    have hl := ih (fun x hx => h x (List.mem_append_left _ hx))
    have hc := digit_le c (h c (List.mem_append_right _ List.mem_cons_self))
    unfold value at hl ⊢
    rw [valueFrom_append, valueFrom_cons, valueFrom_nil, List.length_append, List.length_singleton,
      Nat.pow_succ]
    omega

/-- a digit string is the numeral of its number at its own width -/
theorem fixed_value (l : Bytes) (h : ∀ c ∈ l, isDigit c = true) : fixed l.length (value l) = l := by
  induction l using List.reverseRecOn with
  | nil => rfl
  | append_singleton l c ih =>
    have hl := ih (fun x hx => h x (List.mem_append_left _ hx))
    have hc := (isDigit_iff c).mp (h c (List.mem_append_right _ List.mem_cons_self))
    have hvalue : value (l ++ [c]) = value l * 10 + digit c := by
      unfold value
      rw [valueFrom_append, valueFrom_cons, valueFrom_nil]
    have hdigit : digit c < 10 := by
      unfold digit
      omega
    have hdiv : (value l * 10 + digit c) / 10 = value l := by omega
    have hmod : (value l * 10 + digit c) % 10 = digit c := by omega
    have hbyte : digitByte (digit c) = c := by
      unfold digitByte digit
      apply UInt8.toNat_inj.mp
      rw [UInt8.toNat_ofNat']
      omega
    rw [List.length_append, List.length_singleton, fixed, hvalue, hdiv, hmod, hl, hbyte]

end Decimal

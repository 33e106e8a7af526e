import Mathlib.Algebra.Ring.Nat
import Mathlib.Data.List.Basic
import Mathlib.Data.List.DropRight

/-!
# Byte strings

Byte strings as lists of octets, with the few operations a byte-level parser needs.

* `ascii s`            the octets of an ASCII literal;
* `slice b i n`        the `n` octets of `b` from offset `i`;
* `leNat w`            the number whose little-endian octets are `w`;
* `eqFold a b`         equality up to ASCII letter case;
* `strip p l`          `l` without the octets of `p` at both ends, and the two offsets that say
                       where it lies in `l` (`slice_strip`).
-/

abbrev Bytes := List UInt8

/-- the octets of an ASCII literal -/
def ascii (s : String) : Bytes := s.toByteArray.data.toList

namespace Bytes

/-- the `n` octets from offset `i` -/
def slice (b : Bytes) (i n : Nat) : Bytes := (b.drop i).take n

theorem slice_zero (b : Bytes) (i : Nat) : slice b i 0 = [] := by
  simp [slice]

/-- a slice that lies inside `b` does not change when `b` grows -/
theorem slice_append (b c : Bytes) (i n : Nat) (h : i + n ≤ b.length) :
    slice (b ++ c) i n = slice b i n := by
  unfold slice
  rw [List.drop_append_of_le_length (by omega), List.take_append_of_le_length]
  rw [List.length_drop]
  omega

/-! ## little-endian numbers -/

/-- the number whose little-endian octets are `w` -/
def leNat (w : Bytes) : Nat := w.foldr (fun c acc => c.toNat + 256 * acc) 0

theorem leNat_cons (c : UInt8) (w : Bytes) : leNat (c :: w) = c.toNat + 256 * leNat w := rfl

/-- masking the upper octets away leaves the first ones -/
theorem leNat_mod (w : Bytes) (k : Nat) : leNat w % 256 ^ k = leNat (w.take k) := by
  induction k generalizing w with
  | zero => simp [leNat, Nat.mod_one]
  | succ k ih =>
    cases w with
    | nil => simp [leNat]
    | cons c w =>
      have hc : c.toNat < 256 := c.toNat_lt
      have h1 : (c.toNat + 256 * leNat w) / 256 = leNat w := by omega
      have h2 : (c.toNat + 256 * leNat w) % 256 = c.toNat := by omega
      rw [List.take_succ_cons, leNat_cons, leNat_cons, ← ih w, Nat.pow_succ', Nat.mod_mul, h1, h2]

theorem leNat_inj (a b : Bytes) (hl : a.length = b.length) (h : leNat a = leNat b) : a = b := by
  induction a generalizing b with
  | nil => exact (List.length_eq_zero_iff.mp hl.symm).symm
  | cons c a ih =>
    cases b with
    | nil => cases hl
    | cons d b =>
      rw [leNat_cons, leNat_cons] at h
      have hc : c.toNat < 256 := c.toNat_lt
      have hd : d.toNat < 256 := d.toNat_lt
      have h1 : c = d := UInt8.toNat_inj.mp (by omega)
      rw [h1, ih b (by simpa using hl) (by omega)]

/-- comparing the first octets of a word with a constant -/
theorem leNat_mod_eq_iff (w c : Bytes) (hl : c.length ≤ w.length) :
    leNat w % 256 ^ c.length = leNat c ↔ c <+: w := by
  rw [leNat_mod, List.prefix_iff_eq_take]
  constructor
  · intro h
    exact (leNat_inj _ _ (by rw [List.length_take]; omega) h).symm
  · intro h
    rw [← h]

/-! ## letter case -/

/-- ASCII lower case -/
def lower (c : UInt8) : UInt8 := if 65 ≤ c ∧ c ≤ 90 then c + 32 else c

/-- equality up to ASCII letter case -/
def eqFold (a b : Bytes) : Bool := a.map lower == b.map lower

theorem eqFold_iff (a b : Bytes) : eqFold a b = true ↔ a.map lower = b.map lower := by
  simp [eqFold]

theorem eqFold_length (a b : Bytes) (h : eqFold a b = true) : a.length = b.length := by
  have h1 := congrArg List.length ((eqFold_iff a b).mp h)
  simpa using h1

/-! ## trimming -/

section
variable (p : UInt8 → Bool)

/-- `l` without the octets of `p` at both ends -/
def strip (l : Bytes) : Bytes := (l.dropWhile p).rdropWhile p

theorem strip_eq_nil_iff (l : Bytes) : strip p l = [] ↔ ∀ c ∈ l, p c = true := by
  unfold strip
  rw [List.rdropWhile_eq_nil_iff]
  constructor
  · intro h c hc
    rw [← List.takeWhile_append_dropWhile (p := p) (l := l), List.mem_append] at hc
    rcases hc with hc | hc
    · exact List.mem_takeWhile_imp hc
    · exact h c hc
  · intro h c hc
    exact h c ((List.dropWhile_suffix p).subset hc)

/-- trimming one more octet that stays: everything from the first kept octet on is kept -/
theorem strip_concat_keep (l : Bytes) (c : UInt8) (hc : p c = false) :
    strip p (l ++ [c]) = l.dropWhile p ++ [c] := by
  unfold strip
  rw [List.dropWhile_append]
  cases hd : l.dropWhile p with
  | nil => simp [hc]
  | cons d ds =>
    show (d :: ds ++ [c]).rdropWhile p = _
    rw [List.rdropWhile_concat_neg _ _ _ (by simp [hc])]

theorem strip_concat_drop (l : Bytes) (c : UInt8) (hc : p c = true) :
    strip p (l ++ [c]) = strip p l := by
  unfold strip
  rw [List.dropWhile_append]
  cases hd : l.dropWhile p with
  | nil => simp [hc]
  | cons d ds =>
    show (d :: ds ++ [c]).rdropWhile p = _
    rw [List.rdropWhile_concat_pos _ _ _ hc]

theorem drop_length_takeWhile (l : Bytes) : l.drop (l.takeWhile p).length = l.dropWhile p := by
  induction l with
  | nil => rfl
  | cons c cs ih =>
    cases hc : p c with
    | true => simpa [hc] using ih
    | false => simp [hc]

/-- the trimmed text lies in `l` behind its leading octets of `p` -/
theorem slice_strip (l : Bytes) :
    slice l (l.takeWhile p).length (strip p l).length = strip p l := by
  unfold slice
  rw [drop_length_takeWhile]
  exact (List.prefix_iff_eq_take.mp (List.rdropWhile_prefix p (l := l.dropWhile p))).symm

theorem length_strip_le (l : Bytes) : (l.takeWhile p).length + (strip p l).length ≤ l.length := by
  have h1 : (strip p l).length ≤ (l.dropWhile p).length :=
    (List.rdropWhile_prefix p (l := l.dropWhile p)).length_le
  have h2 := congrArg List.length (List.takeWhile_append_dropWhile (p := p) (l := l))
  rw [List.length_append] at h2
  omega

end

/-! ## scanning -/

section
variable (p : UInt8 → Bool)

/-- the index of the first octet of `l` outside `p`, when `l` starts at index `i` -/
def scanFrom : Bytes → Nat → Nat
  | [], i => i
  | c :: cs, i => if p c then scanFrom cs (i + 1) else i

/-- `while (i < len && p(b[i])) i++` -/
def scan (b : Bytes) (i : Nat) : Nat := scanFrom p (b.drop i) i

theorem scanFrom_eq (l : Bytes) (i : Nat) : scanFrom p l i = i + (l.takeWhile p).length := by
  induction l generalizing i with
  | nil => rfl
  | cons c cs ih =>
    unfold scanFrom
    cases hc : p c with
    | true =>
      rw [if_pos rfl, ih, List.takeWhile_cons_of_pos hc, List.length_cons]
      omega
    | false => simp [hc]

theorem scan_eq (b : Bytes) (i : Nat) : scan p b i = i + ((b.drop i).takeWhile p).length :=
  scanFrom_eq p _ i

theorem drop_scan (b : Bytes) (i : Nat) : b.drop (scan p b i) = (b.drop i).dropWhile p := by
  rw [scan_eq, ← List.drop_drop, drop_length_takeWhile]

theorem le_scan (b : Bytes) (i : Nat) : i ≤ scan p b i := by
  rw [scan_eq]
  omega

theorem scan_le (b : Bytes) (i : Nat) (h : i ≤ b.length) : scan p b i ≤ b.length := by
  have h1 : ((b.drop i).takeWhile p).length ≤ (b.drop i).length :=
    (List.takeWhile_prefix p).length_le
  rw [List.length_drop] at h1
  rw [scan_eq]
  omega

end

/-! ## storing -/

/-- `buf[i] = c`; `none` outside the buffer -/
def store (buf : Bytes) (i : Nat) (c : UInt8) : Option Bytes :=
  if i < buf.length then some (buf.set i c) else none

/-- a store inside the buffer: what stands before it and behind it is as it was -/
theorem store_eq (buf : Bytes) (w : Nat) (c : UInt8) (h : w < buf.length) :
    ∃ buf', store buf w c = some buf' ∧ buf'.length = buf.length ∧
      buf'.take (w + 1) = buf.take w ++ [c] ∧ ∀ k, w < k → buf'.drop k = buf.drop k := by
  refine ⟨buf.set w c, by rw [store, if_pos h], List.length_set, ?_, ?_⟩
  · rw [List.take_add_one, List.take_set_of_le (le_refl w), List.getElem?_set_self h]
    rfl
  · intro k hk
    exact List.drop_set_of_lt hk

/-- dropping stops at an element outside `p` -/
theorem head_of_dropWhile {α : Type} {p : α → Bool} {l : List α} {c : α} {rest : List α}
    (h : l.dropWhile p = c :: rest) : p c = false := by
  have h1 := List.head_dropWhile_not (p := p) (l := l) (by rw [h]; exact List.cons_ne_nil _ _)
  simpa only [h, List.head_cons] using h1

/-! ## splitting -/

/-- the parts of a split do not hold the separator -/
theorem not_mem_splitOn (c : UInt8) (l : Bytes) : ∀ x ∈ l.splitOn c, c ∉ x := by
  induction l with
  | nil => simp
  | cons d l ih =>
    rw [List.splitOn_cons_eq_if_modifyHead]
    split_ifs with hd
    · intro x hx
      rcases List.mem_cons.mp hx with rfl | hx
      · simp
      · exact ih x hx
    · cases hs : l.splitOn c with
      | nil => simp
      | cons y ys =>
        rw [hs] at ih
        intro x hx
        rw [List.modifyHead_cons, List.mem_cons] at hx
        rcases hx with rfl | hx
        · intro hm
          rcases List.mem_cons.mp hm with h1 | h1
          · simp [← h1] at hd
          · exact ih y List.mem_cons_self h1
        · exact ih x (List.mem_cons_of_mem _ hx)

/-- a split from its first separator on -/
theorem splitOn_eq (c : UInt8) (l : Bytes) : l.splitOn c = l.takeWhile (· != c) ::
    match l.dropWhile (· != c) with
    | [] => []
    | _ :: rest => rest.splitOn c := by
  induction l with
  | nil => rfl
  | cons d l ih =>
    rw [List.splitOn_cons_eq_if_modifyHead]
    by_cases hd : d = c
    · subst hd
      simp
    · rw [if_neg (by simpa using hd), ih, List.modifyHead_cons,
        List.takeWhile_cons_of_pos (by simpa using hd), List.dropWhile_cons_of_pos
          (by simpa using hd)]

end Bytes

import CtfServer.Lib.Bytes

/-!
# Memory by address

The octets that may be read and written, by address: `none` where there are none.

* `load`, `store`     a range is read, or written over; `none` outside of the memory;
* `memcpy`            a range to another one that does not overlap it;
* `Reads`             what a range holds, `load_iff`;
* `reads_overwrite`, `Reads.overwrite_other`   **what a store changes, and what it does not**;
* `zeroed`, `freed`   a block is allocated and given back.
-/

set_option linter.unusedVariables false

namespace Memory

/-- memory, by address -/
abbrev Mem := Nat → Option UInt8

/-- the octets of a range -/
def load (mem : Mem) (a : Nat) : Nat → Option Bytes
  | 0 => some []
  | n + 1 => (mem a).bind fun c => (load mem (a + 1) n).map fun l => c :: l

/-- the memory with a range that holds `l` -/
def overwrite (mem : Mem) (a : Nat) (l : Bytes) : Mem :=
  fun x => if a ≤ x ∧ x < a + l.length then l[x - a]? else mem x

/-- a range is written -/
def store (mem : Mem) (a : Nat) (l : Bytes) : Option Mem :=
  if (load mem a l.length).isSome then some (overwrite mem a l) else none

/-- `memcpy`, which is not for ranges that overlap -/
def memcpy (mem : Mem) (dst src n : Nat) : Option Mem :=
  if src < dst + n ∧ dst < src + n then none else (load mem src n).bind (store mem dst)

/-- `memchr(a, 0, n)` finds one -/
def memchrNul (mem : Mem) (a : Nat) : Nat → Option Bool
  | 0 => some false
  | n + 1 => (mem a).bind fun c => if c = 0 then some true else memchrNul mem (a + 1) n

/-- a block of zeros -/
def zeroed (mem : Mem) (a n : Nat) : Mem := fun x => if a ≤ x ∧ x < a + n then some 0 else mem x

/-- a block is no longer there -/
def freed (mem : Mem) (a n : Nat) : Mem := fun x => if a ≤ x ∧ x < a + n then none else mem x

/-- the range at `a` holds `l` -/
def Reads (mem : Mem) (a : Nat) (l : Bytes) : Prop := ∀ i, i < l.length → mem (a + i) = l[i]?

/-- the range may be read and written -/
def Accessible (mem : Mem) (a n : Nat) : Prop := ∀ i, i < n → (mem (a + i)).isSome

section
variable {mem mem' : Mem} {a b n : Nat} {l : Bytes} {c : UInt8}

/-! ## what a range holds -/

theorem Reads.nil (mem : Mem) (a : Nat) : Reads mem a [] :=
  fun i hi => absurd hi (Nat.not_lt_zero i)

theorem reads_cons : Reads mem a (c :: l) ↔ mem a = some c ∧ Reads mem (a + 1) l := by
  constructor
  · intro h
    refine ⟨h 0 (Nat.zero_lt_succ _), fun i hi => ?_⟩
    rw [Nat.add_assoc, Nat.add_comm 1 i]
    exact h (i + 1) (Nat.succ_lt_succ hi)
  · rintro ⟨hc, hl⟩ i hi
    cases i with
    | zero => exact hc
    | succ i =>
      rw [Nat.add_comm i 1, ← Nat.add_assoc, Nat.add_comm 1 i]
      exact hl i (Nat.lt_of_succ_lt_succ hi)

/-- what is loaded is what the range holds -/
theorem load_iff : load mem a n = some l ↔ l.length = n ∧ Reads mem a l := by
  induction n generalizing a l with
  | zero =>
    constructor
    · intro h
      rw [← Option.some.inj h]
      exact ⟨rfl, Reads.nil mem a⟩
    · rintro ⟨h, -⟩
      rw [List.eq_nil_of_length_eq_zero h]
      rfl
  | succ n ih =>
    constructor
    · intro h
      obtain ⟨c, hc, h⟩ := Option.bind_eq_some_iff.mp h
      obtain ⟨rest, hrest, rfl⟩ := Option.map_eq_some_iff.mp h
      obtain ⟨hlen, hreads⟩ := ih.mp hrest
      exact ⟨congrArg (· + 1) hlen, reads_cons.mpr ⟨hc, hreads⟩⟩
    · rintro ⟨hlen, hreads⟩
      cases l with
      | nil => cases hlen
      | cons c l =>
        obtain ⟨hc, hreads⟩ := reads_cons.mp hreads
        have hl := ih.mpr ⟨Nat.succ.inj hlen, hreads⟩
        show ((mem a).bind fun c => (load mem (a + 1) n).map fun l => c :: l) = _
        rw [hc, hl]
        rfl

theorem Reads.load (h : Reads mem a l) : Memory.load mem a l.length = some l :=
  load_iff.mpr ⟨rfl, h⟩

/-- an accessible range holds something -/
theorem Accessible.reads (h : Accessible mem a n) : ∃ l, l.length = n ∧ Reads mem a l := by
  induction n generalizing a with
  | zero => exact ⟨[], rfl, Reads.nil mem a⟩
  | succ n ih =>
    obtain ⟨c, hc⟩ := Option.isSome_iff_exists.mp (h 0 (Nat.zero_lt_succ n))
    have hrest : Accessible mem (a + 1) n := by
      intro i hi
      rw [Nat.add_assoc, Nat.add_comm 1 i]
      exact h (i + 1) (Nat.succ_lt_succ hi)
    obtain ⟨l, hlen, hreads⟩ := ih hrest
    exact ⟨c :: l, congrArg (· + 1) hlen, reads_cons.mpr ⟨hc, hreads⟩⟩

theorem Reads.congr (h : Reads mem a l) (heq : ∀ x, a ≤ x → x < a + l.length → mem' x = mem x) :
    Reads mem' a l := by
  intro i hi
  rw [heq (a + i) (Nat.le_add_right a i) (Nat.add_lt_add_left hi a)]
  exact h i hi

theorem Accessible.sub (h : Accessible mem a n) {k : Nat} (hb : a ≤ b) (hk : b + k ≤ a + n) :
    Accessible mem b k := by
  intro i hi
  have hx := h (b - a + i) (by omega)
  rwa [← Nat.add_assoc, Nat.add_sub_of_le hb] at hx

theorem reads_append {k : Bytes} : Reads mem a (l ++ k) ↔ Reads mem a l ∧ Reads mem
    (a + l.length) k := by
  induction l generalizing a with
  | nil => simp [Reads.nil]
  | cons c l ih =>
    rw [List.cons_append, reads_cons, reads_cons, ih, List.length_cons, Nat.add_comm l.length 1,
      ← Nat.add_assoc]
    exact and_assoc.symm

/-! ## stores -/

theorem overwrite_self {i : Nat} (hi : i < l.length) : overwrite mem a l (a + i) = l[i]? := by
  unfold overwrite
  rw [if_pos ⟨Nat.le_add_right a i, Nat.add_lt_add_left hi a⟩, Nat.add_sub_cancel_left]

theorem overwrite_other {x : Nat} (hx : x < a ∨ a + l.length ≤ x) : overwrite mem a l x = mem x :=
  if_neg (by omega)

theorem reads_overwrite : Reads (overwrite mem a l) a l := fun i hi => overwrite_self hi

/-- a store into memory that is there -/
theorem store_eq (h : Accessible mem a l.length) : store mem a l = some (overwrite mem a l) := by
  obtain ⟨old, hlen, hreads⟩ := h.reads
  unfold store
  rw [← hlen, hreads.load]
  rfl

/-- a store keeps memory accessible -/
theorem Accessible.overwrite (h : Accessible mem b n) : Accessible (overwrite mem a l) b n := by
  intro i hi
  by_cases hx : a ≤ b + i ∧ b + i < a + l.length
  · unfold Memory.overwrite
    rw [if_pos hx, List.getElem?_eq_getElem (by omega)]
    rfl
  · rw [overwrite_other (by omega)]
    exact h i hi

/-- **what lies outside is kept** -/
theorem Reads.overwrite_other {k : Bytes} (h : Reads mem b k)
    (hd : b + k.length ≤ a ∨ a + l.length ≤ b) :
    Reads (overwrite mem a l) b k := by
  refine h.congr fun x h1 h2 => Memory.overwrite_other ?_
  omega

/-- a range is copied to one that does not overlap it -/
theorem memcpy_eq (h : Reads mem b l) (ha : Accessible mem a l.length)
    (hd : b + l.length ≤ a ∨ a + l.length ≤ b) :
    memcpy mem a b l.length = some (overwrite mem a l) := by
  unfold memcpy
  rw [if_neg (by omega), h.load]
  exact store_eq ha

theorem memchrNul_eq (h : Reads mem a l) : memchrNul mem a l.length = some (l.contains 0) := by
  induction l generalizing a with
  | nil => rfl
  | cons c l ih =>
    obtain ⟨hc, hl⟩ := reads_cons.mp h
    show ((mem a).bind fun c => if c = 0 then some true else memchrNul mem (a + 1) l.length) = _
    rw [hc, Option.bind_some, ih hl, List.contains_cons]
    by_cases h0 : c = 0
    · rw [if_pos h0, h0]
      rfl
    · rw [if_neg h0, beq_false_of_ne (Ne.symm h0)]
      rfl

/-! ## blocks -/

theorem accessible_zeroed : Accessible (zeroed mem a n) a n := by
  intro i hi
  unfold zeroed
  rw [if_pos ⟨Nat.le_add_right a i, Nat.add_lt_add_left hi a⟩]
  rfl

theorem zeroed_self {x : Nat} (h1 : a ≤ x) (h2 : x < a + n) : zeroed mem a n x = some 0 :=
  if_pos ⟨h1, h2⟩

theorem zeroed_other {x : Nat} (hx : x < a ∨ a + n ≤ x) : zeroed mem a n x = mem x :=
  if_neg (by omega)

/-- what can be read is not in a new block -/
theorem Reads.zeroed (h : Reads mem b l) (hfresh : ∀ x, a ≤ x → x < a + n → mem x = none) :
    Reads (zeroed mem a n) b l := by
  intro i hi
  have hold := h i hi
  rw [zeroed_other, hold]
  by_contra hx
  rw [hfresh (b + i) (by omega) (by omega), List.getElem?_eq_getElem hi] at hold
  cases hold

/-- a range that can be read does not overlap a new block -/
theorem Reads.disjoint (h : Reads mem b l) (hfresh : ∀ x, a ≤ x → x < a + n → mem x = none)
    {k d : Nat} (hd : a ≤ d)
    (hk : d + k ≤ a + n) (hpos : 0 < k) : b + l.length ≤ d ∨ d + k ≤ b ∨ l = [] := by
  by_contra hx
  have hl : 0 < l.length := List.length_pos_iff.mpr fun hl => hx (.inr (.inr hl))
  -- the larger of the two starts is in both
  have hmem : ∃ x, b ≤ x ∧ x < b + l.length ∧ d ≤ x ∧ x < d + k := ⟨max b d, by omega⟩
  obtain ⟨x, h1, h2, h3, h4⟩ := hmem
  have hold := h (x - b) (by omega)
  rw [Nat.add_sub_of_le h1, hfresh x (by omega) (by omega), List.getElem?_eq_getElem
    (by omega)] at hold
  cases hold

/-- a new block that is given back -/
theorem freed_zeroed (hfresh : ∀ x, a ≤ x → x < a + n → mem x = none) :
    freed (zeroed mem a n) a n = mem := by
  funext x
  unfold freed
  split
  · next hx => exact (hfresh x hx.1 hx.2).symm
  · next hx => exact if_neg hx

end

end Memory

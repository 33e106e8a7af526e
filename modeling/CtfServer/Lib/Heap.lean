import CtfServer.Lib.Bytes
import Mathlib.Data.Finset.Basic
import Mathlib.Data.Finset.Lattice.Lemmas
import Mathlib.Data.Finset.Dedup

/-!
# A heap that counts what is allocated

* `Heap`             the addresses of the live blocks, below the address of the next one;
* `Allocator`        which requests are granted, and what stands in a fresh block;
* `Heap.malloc`, `Heap.free`   a block that is not live cannot be released;
* `Heap.Owns base ps`  beyond the blocks of `base`, exactly those of `ps` are live, once each;
* `Heap.Owns.freeAll`  releasing them leaves `base`;
* `Allocator.Granted`  no request between two heaps was refused.
-/

/-- the live blocks; addresses are handed out in order -/
structure Heap where
  live : Finset Nat
  next : Nat
  fresh : ∀ p ∈ live, p < next

/-- what an allocator does: whether it grants its `k`-th request, and what it leaves in the block -/
structure Allocator where
  grants : Nat → Bool
  fill : Nat → Nat → Bytes
  fill_length : ∀ k n, (fill k n).length = n

namespace Heap

/-- the address that the next request gets -/
def take (h : Heap) : Heap where
  live := insert h.next h.live
  next := h.next + 1
  fresh p hp := by
    rcases Finset.mem_insert.mp hp with rfl | hp
    · exact Nat.lt_succ_self _
    · exact Nat.lt_succ_of_lt (h.fresh p hp)

/-- a request that is refused -/
def skip (h : Heap) : Heap where
  live := h.live
  next := h.next + 1
  fresh p hp := Nat.lt_succ_of_lt (h.fresh p hp)

/-- a block of `size` bytes: its address and its bytes -/
def malloc (A : Allocator) (size : Nat) (h : Heap) : Option (Nat × Bytes) × Heap :=
  if A.grants h.next then (some (h.next, A.fill h.next size), h.take) else (none, h.skip)

/-- `none` for a block that is not live -/
def free (p : Nat) (h : Heap) : Option Heap :=
  if p ∈ h.live then
    some { live := h.live.erase p, next := h.next, fresh :=
      fun q hq => h.fresh q (Finset.mem_of_mem_erase hq) }
  else none

/-- releases the blocks of a list, one after the other -/
def freeAll : List Nat → Heap → Option Heap
  | [], h => some h
  | p :: ps, h => (h.free p).bind (freeAll ps)

/-! ## ownership -/

/-- beyond the blocks of `base`, those of `ps` are live, each of them once -/
structure Owns (base : Finset Nat) (ps : List Nat) (h : Heap) : Prop where
  live : h.live = base ∪ ps.toFinset
  nodup : ps.Nodup
  apart : ∀ p ∈ ps, p ∉ base

namespace Owns
variable {base : Finset Nat} {ps : List Nat} {h : Heap}

theorem start (h : Heap) : Owns h.live [] h where
  live := by simp
  nodup := .nil
  apart := by simp

theorem next_not_mem (ho : Owns base ps h) : h.next ∉ base ∧ h.next ∉ ps := by
  have hlive : h.next ∉ h.live := fun hm => Nat.lt_irrefl _ (h.fresh _ hm)
  rw [ho.live, Finset.mem_union, List.mem_toFinset, not_or] at hlive
  exact hlive

/-- a block that is granted is owned -/
theorem take (ho : Owns base ps h) : Owns base (h.next :: ps) h.take where
  live := by
    show insert h.next h.live = _
    rw [ho.live, List.toFinset_cons, Finset.union_insert]
  nodup := List.nodup_cons.mpr ⟨ho.next_not_mem.2, ho.nodup⟩
  apart := by
    intro p hp
    rcases List.mem_cons.mp hp with rfl | hp
    · exact ho.next_not_mem.1
    · exact ho.apart p hp

theorem skip (ho : Owns base ps h) : Owns base ps h.skip := ⟨ho.live, ho.nodup, ho.apart⟩

/-- the order in which the blocks are listed does not matter -/
theorem perm {qs : List Nat} (ho : Owns base ps h) (hp : ps.Perm qs) : Owns base qs h where
  live := by rw [ho.live, List.toFinset_eq_of_perm ps qs hp]
  nodup := hp.nodup ho.nodup
  apart q hq := ho.apart q (hp.mem_iff.mpr hq)

/-- releasing the block owned last -/
theorem free {p : Nat} (ho : Owns base (p :: ps) h) :
    ∃ h', h.free p = some h' ∧ Owns base ps h' ∧ h'.next = h.next := by
  obtain ⟨hp, hnd⟩ := List.nodup_cons.mp ho.nodup
  have hb := ho.apart p List.mem_cons_self
  have hmem : p ∈ h.live := by
    rw [ho.live]
    simp
  refine ⟨{ live := h.live.erase p, next := h.next, fresh :=
    fun q hq => h.fresh q (Finset.mem_of_mem_erase hq) },
    by rw [Heap.free, if_pos hmem], ⟨?_, hnd, fun q hq => ho.apart q (List.mem_cons_of_mem _ hq)⟩,
    rfl⟩
  show h.live.erase p = _
  rw [ho.live, List.toFinset_cons, Finset.union_insert, Finset.erase_insert]
  simp [hb, hp]

/-- **Releasing everything that is owned leaves the blocks of `base`.** -/
theorem freeAll (ho : Owns base ps h) :
    ∃ h', h.freeAll ps = some h' ∧ h'.live = base ∧ h'.next = h.next := by
  induction ps generalizing h with
  | nil => exact ⟨h, rfl, by simpa using ho.live, rfl⟩
  | cons p ps ih =>
    obtain ⟨h1, h2, h3, h4⟩ := ho.free
    obtain ⟨h', h5, h6, h7⟩ := ih h3
    refine ⟨h', ?_, h6, by omega⟩
    rw [Heap.freeAll, h2, Option.bind_some, h5]

end Owns

/-! ## requests -/

/-- the two ways a request ends -/
theorem malloc_cases (A : Allocator) (size : Nat) (h : Heap) :
    (A.grants h.next = true ∧ h.malloc A size = (some (h.next, A.fill h.next size), h.take)) ∨
      (A.grants h.next = false ∧ h.malloc A size = (none, h.skip)) := by
  unfold malloc
  cases hg : A.grants h.next with
  | true => exact .inl ⟨rfl, rfl⟩
  | false => exact .inr ⟨rfl, rfl⟩

end Heap

namespace Allocator

/-- every request between the two heaps was granted -/
def Granted (A : Allocator) (h h' : Heap) : Prop :=
  ∀ k, h.next ≤ k → k < h'.next → A.grants k = true

theorem Granted.refl (A : Allocator) {h h' : Heap} (heq : h'.next = h.next) : A.Granted h h' := by
  intro k h1 h2
  omega

theorem Granted.trans {A : Allocator} {h h1 h2 : Heap} (ha : A.Granted h h1)
    (hb : A.Granted h1 h2) :
    A.Granted h h2 := by
  intro k h3 h4
  rcases Nat.lt_or_ge k h1.next with h5 | h5
  · exact ha k h3 h5
  · exact hb k h5 h4

/-- a part of the requests -/
theorem Granted.part {A : Allocator} {h h1 h2 h' : Heap} (ha : A.Granted h h')
    (hl : h.next ≤ h1.next) (hr : h2.next ≤ h'.next) : A.Granted h1 h2 :=
  fun k h3 h4 => ha k (by omega) (by omega)

theorem granted_take {A : Allocator} {h : Heap} (hg : A.grants h.next = true) :
    A.Granted h h.take := by
  intro k h1 h2
  have h3 : k < h.next + 1 := h2
  rwa [show k = h.next by omega]

/-- a refused request is one -/
theorem not_granted_skip {A : Allocator} {h h' : Heap} (hg : A.grants h.next = false)
    (hl : h.skip.next ≤ h'.next) : ¬ A.Granted h h' := by
  intro ha
  have h1 : h.next + 1 ≤ h'.next := hl
  have h2 := ha h.next (Nat.le_refl _) (by omega)
  rw [hg] at h2
  cases h2

end Allocator

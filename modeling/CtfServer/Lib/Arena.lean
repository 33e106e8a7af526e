import Mathlib.Data.List.Perm.Basic
import Mathlib.Data.List.Nodup
import Mathlib.Data.List.Range
import Mathlib.Logic.Function.Basic

/-!
# Objects that are allocated, used and released

* `Arena α`           the objects of one type: those alive, and the released ones in their order;
* `Arena.alloc`, `Arena.set`, `Arena.free`   the last two give `none` on an object that is not
                                             alive;
* `Arena.Listed`      lists that hold each object that is alive exactly once;
* `Arena.released_perm`   when none is alive, each object was released exactly once.
-/

/-- objects are numbered as they are allocated, and no number is used again -/
structure Arena (α : Type) where
  get : Nat → Option α
  next : Nat
  /-- the released ones, the oldest first -/
  released : List Nat
  lt_next : ∀ i a, get i = some a → i < next
  mem_released : ∀ i, i ∈ released ↔ i < next ∧ get i = none
  once : released.Nodup

namespace Arena

section
variable {α : Type}

/-- nothing was allocated yet -/
def empty : Arena α where
  get _ := none
  next := 0
  released := []
  lt_next i a h := by cases h
  mem_released i := by simp
  once := .nil

theorem get_next (A : Arena α) : A.get A.next = none := by
  cases h : A.get A.next with
  | none => rfl
  | some a => exact absurd (A.lt_next _ _ h) (Nat.lt_irrefl _)

/-- the number of the new object is `A.next` -/
def alloc (A : Arena α) (a : α) : Arena α where
  get := Function.update A.get A.next (some a)
  next := A.next + 1
  released := A.released
  lt_next i b h := by
    by_cases hi : i = A.next
    · omega
    · rw [Function.update_of_ne hi] at h
      have := A.lt_next i b h
      omega
  mem_released i := by
    rw [A.mem_released]
    by_cases hi : i = A.next
    · subst hi
      simp
    · rw [Function.update_of_ne hi]
      constructor
      · rintro ⟨h1, h2⟩
        exact ⟨by omega, h2⟩
      · rintro ⟨h1, h2⟩
        exact ⟨by omega, h2⟩
  once := A.once

/-- an object is written; one that is not alive cannot be -/
def set (A : Arena α) (i : Nat) (a : α) : Option (Arena α) :=
  if h : (A.get i).isSome then
    some {
      get := Function.update A.get i (some a)
      next := A.next
      released := A.released
      lt_next := by
        intro j b hb
        by_cases hj : j = i
        · obtain ⟨c, hc⟩ := Option.isSome_iff_exists.mp h
          exact hj ▸ A.lt_next i c hc
        · rw [Function.update_of_ne hj] at hb
          exact A.lt_next j b hb
      mem_released := by
        intro j
        rw [A.mem_released]
        by_cases hj : j = i
        · subst hj
          obtain ⟨c, hc⟩ := Option.isSome_iff_exists.mp h
          simp [hc]
        · rw [Function.update_of_ne hj]
      once := A.once }
  else none

/-- an object is released; one that is not alive cannot be -/
def free (A : Arena α) (i : Nat) : Option (Arena α) :=
  if h : (A.get i).isSome then
    some {
      get := Function.update A.get i none
      next := A.next
      released := A.released ++ [i]
      lt_next := by
        intro j b hb
        by_cases hj : j = i
        · rw [hj, Function.update_self] at hb
          cases hb
        · rw [Function.update_of_ne hj] at hb
          exact A.lt_next j b hb
      mem_released := by
        intro j
        rw [List.mem_append, List.mem_singleton, A.mem_released]
        by_cases hj : j = i
        · subst hj
          obtain ⟨c, hc⟩ := Option.isSome_iff_exists.mp h
          simp [A.lt_next _ _ hc]
        · rw [Function.update_of_ne hj]
          simp [hj]
      once := by
        refine List.nodup_append.mpr ⟨A.once, List.nodup_singleton i, ?_⟩
        intro j hj k hk
        rw [List.mem_singleton] at hk
        rintro rfl
        subst hk
        rw [((A.mem_released _).mp hj).2] at h
        cases h }
  else none

theorem get_alloc (A : Arena α) (a : α) : (A.alloc a).get = Function.update A.get A.next (some a) :=
  rfl

theorem set_alive {A : Arena α} {i : Nat} {b : α} (h : A.get i = some b) (a : α) :
    ∃ A', A.set i a = some A' ∧ A'.get = Function.update A.get i (some a) ∧ A'.next = A.next := by
  unfold set
  rw [dif_pos (by rw [h]; rfl)]
  exact ⟨_, rfl, rfl, rfl⟩

theorem free_alive {A : Arena α} {i : Nat} {b : α} (h : A.get i = some b) :
    ∃ A', A.free i = some A' ∧ A'.get = Function.update A.get i none ∧ A'.next = A.next := by
  unfold free
  rw [dif_pos (by rw [h]; rfl)]
  exact ⟨_, rfl, rfl, rfl⟩

/-- a new object and the release of another one, in either order -/
theorem free_alloc {A : Arena α} {i : Nat} {b : α} (h : A.get i = some b) (a : α) :
    (A.alloc a).free i = (A.free i).map fun A' => A'.alloc a := by
  have hi : i ≠ A.next := Nat.ne_of_lt (A.lt_next i b h)
  have halloc : ((A.alloc a).get i).isSome = true := by
    rw [get_alloc, Function.update_of_ne hi, h]
    rfl
  unfold free
  rw [dif_pos halloc, dif_pos (by rw [h]; rfl)]
  simp only [Option.map_some, alloc, Option.some.injEq, mk.injEq, and_self, and_true]
  exact Function.update_comm hi.symm ..

/-- **when no object is alive, each one was released exactly once** -/
theorem released_perm {A : Arena α} (h : ∀ i, A.get i = none) :
    A.released.Perm (List.range A.next) := by
  rw [List.perm_ext_iff_of_nodup A.once List.nodup_range]
  intro i
  rw [A.mem_released, List.mem_range]
  exact ⟨fun hi => hi.1, fun hi => ⟨hi, h i⟩⟩

/-- a field of the objects, by number -/
theorem bind_update {β : Type} (g : Nat → Option α) (i : Nat) (v : Option α) (f : α → Option β) :
    (fun k => (Function.update g i v k).bind f) = Function.update (fun k => (g k).bind f) i
    (v.bind f) := by
  funext k
  by_cases hk : k = i
  · subst hk
    rw [Function.update_self, Function.update_self]
  · rw [Function.update_of_ne hk, Function.update_of_ne hk]

/-! ## lists of objects -/

/-- `l` holds the objects that are alive, each of them once -/
structure Listed (A : Arena α) (l : List Nat) : Prop where
  nodup : l.Nodup
  mem_iff : ∀ i, i ∈ l ↔ (A.get i).isSome = true

namespace Listed
variable {A A' : Arena α} {l l' : List Nat} {i : Nat} {a : α}

theorem empty : (Arena.empty : Arena α).Listed [] where
  nodup := .nil
  mem_iff j := by
    constructor <;> intro hj <;> cases hj

/-- the list is empty: no object is alive -/
theorem get_none (h : A.Listed []) (i : Nat) : A.get i = none := by
  cases hi : A.get i with
  | none => rfl
  | some a =>
    have hmem := (h.mem_iff i).mpr (by rw [hi]; rfl)
    cases hmem

theorem perm (h : A.Listed l) (hp : l.Perm l') : A.Listed l' where
  nodup := hp.nodup_iff.mp h.nodup
  mem_iff j := hp.mem_iff.symm.trans (h.mem_iff j)

theorem alive (h : A.Listed l) (hi : i ∈ l) : ∃ a, A.get i = some a :=
  Option.isSome_iff_exists.mp ((h.mem_iff i).mp hi)

theorem remove (h : A.Listed (i :: l)) (hget : A'.get = Function.update A.get i none) :
    A'.Listed l where
  nodup := (List.nodup_cons.mp h.nodup).2
  mem_iff j := by
    rw [hget]
    by_cases hj : j = i
    · subst hj
      rw [Function.update_self]
      exact ⟨fun hmem => absurd hmem (List.nodup_cons.mp h.nodup).1, fun hnone => by cases hnone⟩
    · rw [Function.update_of_ne hj, ← h.mem_iff, List.mem_cons]
      exact ⟨.inr, fun hmem => hmem.resolve_left hj⟩

theorem add (h : A.Listed l) (hi : A.get i = none)
    (hget : A'.get = Function.update A.get i (some a)) : A'.Listed (i :: l) where
  nodup := by
    refine List.nodup_cons.mpr ⟨fun hmem => ?_, h.nodup⟩
    rw [h.mem_iff, hi] at hmem
    cases hmem
  mem_iff j := by
    rw [hget, List.mem_cons]
    by_cases hj : j = i
    · subst hj
      rw [Function.update_self]
      exact ⟨fun _ => rfl, fun _ => .inl rfl⟩
    · rw [Function.update_of_ne hj, ← h.mem_iff]
      exact ⟨fun hmem => hmem.resolve_left hj, .inr⟩

theorem congr (h : A.Listed l) (hget : ∀ j, (A'.get j).isSome = (A.get j).isSome) :
    A'.Listed l where
  nodup := h.nodup
  mem_iff j := by
    rw [hget]
    exact h.mem_iff j

end Listed

end

end Arena

import Mathlib.Logic.Function.Basic

/-!
# Partial maps that match up

* `Paired f g`      each of the two partial maps is the converse of the other;
* `Covers f S`      a partial map takes its values in `S`, each of them exactly once;
* `Paired.link`, `Paired.unlink`   a pair comes to it or goes;
* `Covers.add`, `Covers.remove`    and so a value.
-/

set_option linter.unusedSectionVars false

section
variable {α β : Type} [DecidableEq α] [DecidableEq β] {f : α → Option β} {g : β → Option α}
  {S : β → Prop} {a : α} {b : β}

/-- `f` and `g` point at each other -/
def Paired (f : α → Option β) (g : β → Option α) : Prop := ∀ a b, f a = some b ↔ g b = some a

namespace Paired

theorem empty : Paired (fun _ : α => (none : Option β)) fun _ => none := by
  intro a b
  constructor <;> intro h <;> cases h

theorem left (h : Paired f g) (ha : f a = some b) : g b = some a := (h a b).mp ha

theorem right (h : Paired f g) (hb : g b = some a) : f a = some b := (h a b).mpr hb

theorem injective (h : Paired f g) {a' : α} (ha : f a = some b) (ha' : f a' = some b) : a = a' :=
  Option.some.inj ((h.left ha).symm.trans (h.left ha'))

/-- a new pair -/
theorem link (h : Paired f g) (ha : f a = none) (hb : g b = none) :
    Paired (Function.update f a (some b)) (Function.update g b (some a)) := by
  intro x y
  by_cases hx : x = a <;> by_cases hy : y = b
  · subst hx hy
    simp
  · subst hx
    rw [Function.update_self, Function.update_of_ne hy]
    constructor
    · intro he
      exact absurd (Option.some.inj he).symm hy
    · intro he
      rw [h.right he] at ha
      cases ha
  · subst hy
    rw [Function.update_self, Function.update_of_ne hx]
    constructor
    · intro he
      rw [h.left he] at hb
      cases hb
    · intro he
      exact absurd (Option.some.inj he).symm hx
  · rw [Function.update_of_ne hx, Function.update_of_ne hy]
    exact h x y

/-- a pair less -/
theorem unlink (h : Paired f g) (ha : f a = some b) :
    Paired (Function.update f a none) (Function.update g b none) := by
  intro x y
  by_cases hx : x = a <;> by_cases hy : y = b
  · subst hx hy
    simp
  · subst hx
    rw [Function.update_self, Function.update_of_ne hy]
    constructor
    · intro he
      cases he
    · intro he
      rw [h.right he] at ha
      exact absurd (Option.some.inj ha) hy
  · subst hy
    rw [Function.update_self, Function.update_of_ne hx]
    constructor
    · intro he
      exact absurd (h.injective he ha) hx
    · intro he
      cases he
  · rw [Function.update_of_ne hx, Function.update_of_ne hy]
    exact h x y

end Paired

/-- the values of `f` are those of `S`, and none of them is taken twice -/
structure Covers (f : α → Option β) (S : β → Prop) : Prop where
  value : ∀ {a b}, f a = some b → S b
  injective : ∀ {a a' b}, f a = some b → f a' = some b → a = a'
  surjective : ∀ {b}, S b → ∃ a, f a = some b

namespace Covers

theorem empty (h : ∀ b, ¬ S b) : Covers (fun _ : α => none) S where
  value ha := by cases ha
  injective ha := by cases ha
  surjective hb := absurd hb (h _)

theorem congr {S' : β → Prop} (h : Covers f S) (hS : ∀ b, S' b ↔ S b) : Covers f S' where
  value ha := (hS _).mpr (h.value ha)
  injective := h.injective
  surjective hb := h.surjective ((hS _).mp hb)

/-- another value -/
theorem add (h : Covers f S) (ha : f a = none) (hb : ¬ S b) :
    Covers (Function.update f a (some b)) fun x => S x ∨ x = b where
  value := by
    intro x y hx
    by_cases hxa : x = a
    · rw [hxa, Function.update_self] at hx
      exact .inr (Option.some.inj hx).symm
    · rw [Function.update_of_ne hxa] at hx
      exact .inl (h.value hx)
  injective := by
    intro x x' y hx hx'
    by_cases hxa : x = a <;> by_cases hxa' : x' = a
    · rw [hxa, hxa']
    · rw [hxa, Function.update_self] at hx
      rw [Function.update_of_ne hxa'] at hx'
      cases hx
      exact absurd (h.value hx') hb
    · rw [hxa', Function.update_self] at hx'
      rw [Function.update_of_ne hxa] at hx
      cases hx'
      exact absurd (h.value hx) hb
    · rw [Function.update_of_ne hxa] at hx
      rw [Function.update_of_ne hxa'] at hx'
      exact h.injective hx hx'
  surjective := by
    rintro y (hy | rfl)
    · obtain ⟨x, hx⟩ := h.surjective hy
      have hxa : x ≠ a := by
        rintro rfl
        rw [hx] at ha
        cases ha
      exact ⟨x, by rw [Function.update_of_ne hxa]; exact hx⟩
    · exact ⟨a, Function.update_self ..⟩

/-- a value less -/
theorem remove (h : Covers f S) (ha : f a = some b) : Covers (Function.update f a none) fun x =>
    S x ∧ x ≠ b where
  value := by
    intro x y hx
    by_cases hxa : x = a
    · rw [hxa, Function.update_self] at hx
      cases hx
    · rw [Function.update_of_ne hxa] at hx
      refine ⟨h.value hx, ?_⟩
      rintro rfl
      exact hxa (h.injective hx ha)
  injective := by
    intro x x' y hx hx'
    by_cases hxa : x = a
    · rw [hxa, Function.update_self] at hx
      cases hx
    by_cases hxa' : x' = a
    · rw [hxa', Function.update_self] at hx'
      cases hx'
    rw [Function.update_of_ne hxa] at hx
    rw [Function.update_of_ne hxa'] at hx'
    exact h.injective hx hx'
  surjective := by
    rintro y ⟨hy, hne⟩
    obtain ⟨x, hx⟩ := h.surjective hy
    have hxa : x ≠ a := by
      rintro rfl
      rw [ha] at hx
      exact hne (Option.some.inj hx).symm
    exact ⟨x, by rw [Function.update_of_ne hxa]; exact hx⟩

end Covers

end

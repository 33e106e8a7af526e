import Mathlib.Data.List.Forall2

/-!
# Lists that are read entry by entry

`List.mapM` of a partial reader: all the entries are read, or nothing is.

* `mapM_eq_some`       the result of a successful reading, entry by entry;
* `mapM_isSome_iff`    a list is read exactly when each of its entries is.
-/

namespace Readers

variable {α β : Type} {f : α → Option β}

theorem mapM_eq_some {l : List α} {out : List β} :
    l.mapM f = some out ↔ List.Forall₂ (fun a b => f a = some b) l out := by
  induction l generalizing out with
  | nil => simp [eq_comm]
  | cons a l ih =>
    simp only [List.mapM_cons, Option.bind_eq_bind, Option.pure_def, Option.bind_eq_some_iff,
      Option.some.injEq,
      List.forall₂_cons_left_iff]
    constructor
    · rintro ⟨b, hb, bs, hbs, rfl⟩
      exact ⟨b, bs, hb, ih.1 hbs, rfl⟩
    · rintro ⟨b, bs, hb, hbs, rfl⟩
      exact ⟨b, hb, bs, ih.2 hbs, rfl⟩

/-- an entry of the result comes from an entry of the list -/
theorem mem_of_mapM {l : List α} {out : List β} (h : l.mapM f = some out) {b : β} (hb : b ∈ out) :
    ∃ a ∈ l, f a = some b := by
  have hf := mapM_eq_some.1 h
  clear h
  induction hf with
  | nil => cases hb
  | cons hab _ ih =>
    rcases List.mem_cons.1 hb with rfl | hb
    · exact ⟨_, List.mem_cons_self, hab⟩
    · obtain ⟨a, ha, hfa⟩ := ih hb
      exact ⟨a, List.mem_cons_of_mem _ ha, hfa⟩

/-- an entry of the list gives an entry of the result -/
theorem mapM_of_mem {l : List α} {out : List β} (h : l.mapM f = some out) {a : α} (ha : a ∈ l) :
    ∃ b ∈ out, f a = some b := by
  have hf := mapM_eq_some.1 h
  clear h
  induction hf with
  | nil => cases ha
  | cons hab _ ih =>
    rcases List.mem_cons.1 ha with rfl | ha
    · exact ⟨_, List.mem_cons_self, hab⟩
    · obtain ⟨b, hb, hfa⟩ := ih ha
      exact ⟨b, List.mem_cons_of_mem _ hb, hfa⟩

theorem mapM_isSome_iff {l : List α} : (l.mapM f).isSome = true ↔ ∀ a ∈ l, (f a).isSome = true := by
  constructor
  · intro h a ha
    obtain ⟨out, hout⟩ := Option.isSome_iff_exists.1 h
    obtain ⟨b, -, hb⟩ := mapM_of_mem hout ha
    rw [hb]
    rfl
  · intro h
    induction l with
    | nil => rfl
    | cons a l ih =>
      obtain ⟨b, hb⟩ := Option.isSome_iff_exists.1 (h a List.mem_cons_self)
      obtain ⟨bs, hbs⟩ := Option.isSome_iff_exists.1
        (ih fun c hc => h c (List.mem_cons_of_mem _ hc))
      simp [List.mapM_cons, hb, hbs]

end Readers

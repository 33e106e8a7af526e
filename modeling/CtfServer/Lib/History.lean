import Mathlib.Data.List.Basic

/-!
# Histories of a store

A store of type `σ` changes in transitions `ε`, each with the store before and after it.  A
history is the list of the transitions in the order in which they happened.

* `Chained`           one transition starts where the one before ended;
* `Chained.relates`   what every transition preserves holds from the first to the last store;
* `Chained.between`   and from one transition of the history to a later one;
* `Chained.changes`   what holds at the end and not at the start came with a transition;
* `Chained.changes_before`, `Chained.changes_between`   the same up to a transition, and between
                                                        two.
-/

namespace History

variable {ε σ : Type} {before after : ε → σ}

/-- the history leads from the first store to the last one -/
def Chained (before after : ε → σ) (s : σ) : List ε → σ → Prop
  | [], t => s = t
  | e :: l, t => before e = s ∧ Chained before after (after e) l t

theorem chained_append {s t : σ} {l m : List ε} :
    Chained before after s (l ++ m) t ↔ ∃ u, Chained before after s l u ∧
    Chained before after u m t := by
  induction l generalizing s with
  | nil => simp [Chained]
  | cons e l ih =>
    simp only [List.cons_append, Chained, ih]
    constructor
    · rintro ⟨he, u, hl, hm⟩
      exact ⟨u, ⟨he, hl⟩, hm⟩
    · rintro ⟨u, ⟨he, hl⟩, hm⟩
      exact ⟨he, u, hl, hm⟩

/-- a history grows at its end -/
theorem Chained.snoc {s : σ} {l : List ε} {e : ε} (h : Chained before after s l (before e)) :
    Chained before after s (l ++ [e]) (after e) := chained_append.2 ⟨before e, h, rfl, rfl⟩

section
variable {R : σ → σ → Prop} (hrefl : ∀ s, R s s) (htrans : ∀ s t u, R s t → R t u → R s u)
include hrefl htrans

/-- **what every transition preserves holds along the whole history** -/
theorem Chained.relates {s t : σ} {l : List ε} (h : Chained before after s l t)
    (hstep : ∀ e ∈ l, R (before e) (after e)) : R s t := by
  induction l generalizing s with
  | nil => exact h ▸ hrefl s
  | cons e l ih =>
    obtain ⟨rfl, hl⟩ := h
    exact htrans _ _ _ (hstep e List.mem_cons_self)
      (ih hl fun d hd => hstep d (List.mem_cons_of_mem _ hd))

theorem Chained.upto {s t : σ} {l : List ε} {e : ε} (h : Chained before after s l t)
    (hstep : ∀ e ∈ l, R (before e) (after e)) (he : e ∈ l) : R s (before e) := by
  obtain ⟨a, b, rfl⟩ := List.append_of_mem he
  obtain ⟨u, ha, rfl, -⟩ := chained_append.1 h
  exact ha.relates hrefl htrans fun d hd => hstep d (List.mem_append_left _ hd)

theorem Chained.since {s t : σ} {l : List ε} {e : ε} (h : Chained before after s l t)
    (hstep : ∀ e ∈ l, R (before e) (after e)) (he : e ∈ l) : R (after e) t := by
  obtain ⟨a, b, rfl⟩ := List.append_of_mem he
  obtain ⟨u, -, -, hb⟩ := chained_append.1 h
  exact hb.relates hrefl htrans fun d hd => hstep d (by simp [hd])

/-- **from one transition to a later one** -/
theorem Chained.between {s t : σ} {l : List ε} {d e : ε} (h : Chained before after s l t)
    (hstep : ∀ e ∈ l, R (before e) (after e)) (hde : List.Sublist [d, e] l) :
    R (after d) (before e) := by
  obtain ⟨a, b, rfl, hd, he⟩ :=
    List.append_sublist_iff.1 (show List.Sublist ([d] ++ [e]) l from hde)
  obtain ⟨u, ha, hb⟩ := chained_append.1 h
  have h1 : R (after d) u :=
    ha.since hrefl htrans (fun c hc => hstep c (List.mem_append_left _ hc))
      (List.singleton_sublist.1 hd)
  have h2 : R u (before e) :=
    hb.upto hrefl htrans (fun c hc => hstep c (List.mem_append_right _ hc))
      (List.singleton_sublist.1 he)
  exact htrans _ _ _ h1 h2

end

/-- **what holds at the end and not at the start came with a transition** -/
theorem Chained.changes {p : σ → Prop} {s t : σ} {l : List ε} (h : Chained before after s l t)
    (hs : ¬ p s) (ht : p t) :
    ∃ e ∈ l, ¬ p (before e) ∧ p (after e) := by
  induction l generalizing s with
  | nil =>
    cases h
    exact absurd ht hs
  | cons e l ih =>
    obtain ⟨rfl, hl⟩ := h
    by_cases he : p (after e)
    · exact ⟨e, List.mem_cons_self, hs, he⟩
    · obtain ⟨d, hd, hp⟩ := ih hl he
      exact ⟨d, List.mem_cons_of_mem e hd, hp⟩

/-- what holds before a transition and not at the start came with an earlier one -/
theorem Chained.changes_before {p : σ → Prop} {s t : σ} {l : List ε} {e : ε}
    (h : Chained before after s l t)
    (he : e ∈ l) (hs : ¬ p s) (ht : p (before e)) : ∃ c, List.Sublist [c, e] l ∧ ¬ p (before c) ∧
    p (after c) := by
  obtain ⟨a, b, rfl⟩ := List.append_of_mem he
  obtain ⟨u, ha, rfl, -⟩ := chained_append.1 h
  obtain ⟨c, hc, hp⟩ := ha.changes hs ht
  exact ⟨c, (List.singleton_sublist.2 hc).append (List.singleton_sublist.2 List.mem_cons_self), hp⟩

/-- **what holds before a transition and not after an earlier one came in between** -/
theorem Chained.changes_between {p : σ → Prop} {s t : σ} {l : List ε} {d e : ε}
    (h : Chained before after s l t)
    (hde : List.Sublist [d, e] l) (hs : ¬ p (after d)) (ht : p (before e)) :
    ∃ c, List.Sublist [d, c, e] l ∧ ¬ p (before c) ∧ p (after c) := by
  obtain ⟨a, b, rfl, hd, he⟩ :=
    List.append_sublist_iff.1 (show List.Sublist ([d] ++ [e]) l from hde)
  obtain ⟨a1, a2, rfl⟩ := List.append_of_mem (List.singleton_sublist.1 hd)
  rw [List.append_assoc, List.cons_append] at h ⊢
  obtain ⟨u, -, -, hrest⟩ := chained_append.1 h
  have hmem : e ∈ a2 ++ b := List.mem_append_right _ (List.singleton_sublist.1 he)
  obtain ⟨c, hc, hp⟩ := hrest.changes_before hmem hs ht
  exact ⟨c, (List.Sublist.cons_cons d hc).trans (List.sublist_append_right a1 _), hp⟩

/-- two different transitions are in one order or the other -/
theorem ordered_of_ne {l : List ε} {d e : ε} (hd : d ∈ l) (he : e ∈ l) (hne : d ≠ e) :
    List.Sublist [d, e] l ∨ List.Sublist [e, d] l := by
  obtain ⟨a, b, rfl⟩ := List.append_of_mem hd
  rcases List.mem_append.1 he with h | h
  · exact .inr ((List.singleton_sublist.2 h).append (List.singleton_sublist.2 List.mem_cons_self))
  · rcases List.mem_cons.1 h with h | h
    · exact absurd h.symm hne
    · exact .inl ((List.Sublist.cons_cons d (List.singleton_sublist.2 h)).trans
        (List.sublist_append_right a _))

end History

import Mathlib.Data.List.Induction

/-!
# Runs of a machine that keeps a log

* `run step`          the events one after the other, `none` where one is not possible;
* `run_invariant`     what every step keeps, a run keeps;
* `Every P log`       every entry of the log is as `P` says of it and of the entries before it;
* `Since cut x log`   `x` is in the log, and no entry behind it is a `cut`;
* `After x y log`     `y` stands behind `x` in the log.
-/

namespace Runs

section
variable {σ ε : Type} {step : σ → ε → Option σ}

/-- the events one after the other -/
def run (step : σ → ε → Option σ) (s : σ) : List ε → Option σ
  | [] => some s
  | e :: es => (step s e).bind fun s => run step s es

/-- **What every step keeps, a run keeps.** -/
theorem run_invariant {I : σ → Prop} (hstep : ∀ s e t, I s → step s e = some t → I t) {s t : σ}
    {es : List ε} (h0 : I s) (h : run step s es = some t) : I t := by
  induction es generalizing s with
  | nil =>
    cases h
    exact h0
  | cons e es ih =>
    obtain ⟨u, h1, h2⟩ := Option.bind_eq_some_iff.mp h
    exact ih (hstep s e u h0 h1) h2

end

section
variable {α : Type}

/-! ## the entries before an entry -/

def Every (P : List α → α → Prop) (log : List α) : Prop := ∀ a x b, log = a ++ x :: b → P a x

variable {P : List α → α → Prop} {log : List α} {x y : α}

theorem every_nil : Every P [] := by
  intro a x b h
  cases a <;> cases h

theorem every_snoc : Every P (log ++ [y]) ↔ Every P log ∧ P log y := by
  constructor
  · intro h
    refine ⟨fun a x b hl => h a x (b ++ [y]) ?_, h log y [] rfl⟩
    rw [hl, List.append_assoc, List.cons_append]
  · rintro ⟨h, hy⟩ a x b hl
    rcases List.eq_nil_or_concat b with rfl | ⟨b, z, rfl⟩
    · obtain ⟨rfl, h1⟩ := List.append_inj' hl rfl
      cases h1
      exact hy
    · rw [List.concat_eq_append, ← List.cons_append, ← List.append_assoc] at hl
      exact h a x b (List.append_inj' hl rfl).1

/-! ## the entries behind an entry -/

/-- no `cut` since `x` -/
def Since (cut : α → Prop) (x : α) (log : List α) : Prop :=
  ∃ a b, log = a ++ x :: b ∧ ∀ y ∈ b, ¬ cut y

/-- `y` behind `x` -/
def After (x y : α) (log : List α) : Prop := ∃ a b, log = a ++ x :: b ∧ y ∈ b

variable {cut : α → Prop}

theorem Since.mem (h : Since cut x log) : x ∈ log := by
  obtain ⟨a, b, rfl, -⟩ := h
  simp

theorem since_snoc : Since cut x (log ++ [y]) ↔ x = y ∨ (Since cut x log ∧ ¬ cut y) := by
  constructor
  · rintro ⟨a, b, hl, hb⟩
    rcases List.eq_nil_or_concat b with rfl | ⟨b, z, rfl⟩
    · obtain ⟨-, h1⟩ := List.append_inj' hl rfl
      cases h1
      exact .inl rfl
    · rw [List.concat_eq_append, ← List.cons_append, ← List.append_assoc] at hl
      obtain ⟨h1, h2⟩ := List.append_inj' hl rfl
      cases h2
      rw [List.concat_eq_append] at hb
      exact .inr ⟨⟨a, b, h1, fun z hz => hb z (List.mem_append_left _ hz)⟩, hb y (by simp)⟩
  · rintro (rfl | ⟨⟨a, b, rfl, hb⟩, hy⟩)
    · exact ⟨log, [], rfl, nofun⟩
    · refine ⟨a, b ++ [y], by simp, ?_⟩
      intro z hz
      rcases List.mem_append.mp hz with hz | hz
      · exact hb z hz
      · rw [List.mem_singleton.mp hz]
        exact hy

/-- an entry that is not a cut changes nothing -/
theorem since_quiet (hxy : x ≠ y) (hy : ¬ cut y) : Since cut x (log ++ [y]) ↔ Since cut x log := by
  rw [since_snoc]
  exact ⟨fun h => (h.resolve_left hxy).1, fun h => .inr ⟨h, hy⟩⟩

/-- behind a cut -/
theorem not_since (hxy : x ≠ y) (hy : cut y) : ¬ Since cut x (log ++ [y]) := by
  rw [since_snoc]
  exact fun h => (h.resolve_left hxy).2 hy

/-- the last of the cuts is one -/
theorem Since.unique (hx : Since cut x log) (hy : Since cut y log) (hcx : cut x) (hcy : cut y) :
    x = y := by
  induction log using List.reverseRecOn with
  | nil => exact absurd hx.mem List.not_mem_nil
  | append_singleton log z ih =>
    rw [since_snoc] at hx hy
    rcases hx with rfl | ⟨hx, hz⟩
    · rcases hy with hy | ⟨-, hz⟩
      · exact hy.symm
      · exact absurd hcx hz
    · rcases hy with rfl | ⟨hy, -⟩
      · exact absurd hcy hz
      · exact ih hx hy

theorem After.snoc (h : After x y log) (z : α) : After x y (log ++ [z]) := by
  obtain ⟨a, b, rfl, hy⟩ := h
  exact ⟨a, b ++ [z], by simp, List.mem_append_left _ hy⟩

/-- the last entry stands behind all others -/
theorem after_last (h : x ∈ log) : After x y (log ++ [y]) := by
  obtain ⟨a, b, rfl⟩ := List.append_of_mem h
  exact ⟨a, b ++ [y], by simp, by simp⟩

end

end Runs

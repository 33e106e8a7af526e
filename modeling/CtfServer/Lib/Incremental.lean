import Mathlib.Data.List.Basic

/-!
# Incremental consumers

A consumer takes a chunk of a stream and either goes on with a new state or ends with an
output.  `Splits feed I` says that on the states of `I` a chunk may be cut anywhere: feeding
`xs ++ ys` is feeding `xs` and then `ys`.

* `feedAll feed s cs`   the chunks `cs` one after the other, up to the first output;
* `Splits.feedAll_eq`   the result depends on the concatenation of the chunks only.
-/

namespace Incremental

section
variable {σ α ο : Type*}

/-- the chunks one after the other, up to the first output -/
def feedAll (feed : σ → List α → σ ⊕ ο) (s : σ) : List (List α) → σ ⊕ ο
  | [] => .inl s
  | c :: cs =>
    match feed s c with
    | .inl s' => feedAll feed s' cs
    | .inr o => .inr o

/-- on the states of `I` a chunk may be cut anywhere -/
structure Splits (feed : σ → List α → σ ⊕ ο) (I : σ → Prop) : Prop where
  nil : ∀ s, I s → feed s [] = .inl s
  inv : ∀ s xs s', I s → feed s xs = .inl s' → I s'
  more : ∀ s xs ys s', I s → feed s xs = .inl s' → feed s (xs ++ ys) = feed s' ys
  final : ∀ s xs ys o, I s → feed s xs = .inr o → feed s (xs ++ ys) = .inr o

variable {feed : σ → List α → σ ⊕ ο} {I : σ → Prop}

theorem feedAll_more (s s' : σ) (c : List α) (cs : List (List α)) (h : feed s c = .inl s') :
    feedAll feed s (c :: cs) = feedAll feed s' cs := by
  simp only [feedAll, h]

theorem feedAll_final (s : σ) (o : ο) (c : List α) (cs : List (List α)) (h : feed s c = .inr o) :
    feedAll feed s (c :: cs) = .inr o := by
  simp only [feedAll, h]

/-- **The cut does not matter.** -/
theorem Splits.feedAll_eq (H : Splits feed I) (s : σ) (hs : I s) (cs : List (List α)) :
    feedAll feed s cs = feed s cs.flatten := by
  induction cs generalizing s with
  | nil => exact (H.nil s hs).symm
  | cons c cs ih =>
    rw [List.flatten_cons]
    cases hc : feed s c with
    | inl s' => rw [feedAll_more s s' c cs hc, ih s' (H.inv s c s' hs hc), H.more s c _ s' hs hc]
    | inr o => rw [feedAll_final s o c cs hc, H.final s c _ o hs hc]

end

end Incremental

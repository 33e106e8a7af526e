import Mathlib.Data.List.Nodup
import Mathlib.Logic.Function.Basic

/-!
# Queues of linked nodes

A queue with a pointer to its first and a pointer to its last node, whose nodes point to the next
one: `next` is the memory, `none` the null pointer.

* `Path`          the nodes that are reached from a pointer;
* `Holds`         the queue holds a list of nodes;
* `push`, `pop`   a node is added at the end, or taken from the front;
* `Holds.push`, `Holds.pop`   **what the queue holds afterwards**.
-/

set_option linter.unusedVariables false

namespace LinkedQueue

section
variable {α : Type} {next next' : α → Option α} {p : Option α} {x : α} {l : List α}

/-! ## paths -/

/-- the nodes from a pointer to the null pointer -/
inductive Path (next : α → Option α) : Option α → List α → Prop where
  | nil : Path next none []
  | cons {x : α} {l : List α} (h : Path next (next x) l) : Path next (some x) (x :: l)

/-- a path is determined by its start -/
theorem Path.unique {l' : List α} (h : Path next p l) (h' : Path next p l') : l = l' := by
  induction h generalizing l' with
  | nil =>
    cases h'
    rfl
  | cons h ih =>
    cases h' with
    | cons h' => rw [ih h']

theorem Path.head (h : Path next p l) : p = l.head? := by
  cases h <;> rfl

/-- what follows a node of a path is a path -/
theorem Path.suffix {front rest : List α} (h : Path next p (front ++ x :: rest)) :
    Path next (some x) (x :: rest) := by
  induction front generalizing p with
  | nil =>
    have hp := h.head
    rw [List.nil_append, List.head?_cons] at hp
    exact hp ▸ h
  | cons y front ih =>
    cases h with
    | cons h => exact ih h

/-- no node is reached twice -/
theorem Path.nodup (h : Path next p l) : l.Nodup := by
  induction h with
  | nil => exact List.nodup_nil
  | @cons x l h ih =>
    refine List.nodup_cons.2 ⟨fun hx => ?_, ih⟩
    obtain ⟨front, rest, rfl⟩ := List.append_of_mem hx
    have hlen := congrArg List.length (Path.unique (.cons h) h.suffix)
    simp only [List.length_cons, List.length_append] at hlen
    omega

/-- a path sees its own nodes only -/
theorem Path.congr (h : Path next p l) (heq : ∀ x ∈ l, next' x = next x) : Path next' p l := by
  induction h with
  | nil => exact .nil
  | @cons x l h ih =>
    have hl := ih fun y hy => heq y (List.mem_cons_of_mem _ hy)
    exact .cons ((heq x List.mem_cons_self).symm ▸ hl)

/-- a path whose last node is pointed to a new one -/
theorem Path.snoc {front : List α} {t : α} (h : Path next p (front ++ [t]))
    (hfront : ∀ y ∈ front, next' y = next y)
    (ht : next' t = some x) (hx : next' x = none) : Path next' p (front ++ [t, x]) := by
  induction front generalizing p with
  | nil =>
    cases h with
    | cons h =>
      refine .cons ?_
      rw [ht]
      refine .cons ?_
      rw [hx]
      exact .nil
  | cons y front ih =>
    cases h with
    | cons h =>
      refine .cons ?_
      rw [hfront y List.mem_cons_self]
      exact ih h fun z hz => hfront z (List.mem_cons_of_mem _ hz)

end

/-! ## queues -/

/-- the pointers to the first and the last node -/
structure Ends (α : Type) where
  head : Option α := none
  tail : Option α := none
  deriving DecidableEq, Repr

section
variable {α : Type} {next next' : α → Option α} {q : Ends α} {l : List α} {x : α}

/-- the queue holds the nodes `l` -/
structure Holds (next : α → Option α) (q : Ends α) (l : List α) : Prop where
  path : Path next q.head l
  last : q.tail = l.getLast?

theorem Holds.empty (next : α → Option α) : Holds next {} [] := ⟨.nil, rfl⟩

theorem Holds.nodup (h : Holds next q l) : l.Nodup := h.path.nodup

theorem Holds.head (h : Holds next q l) : q.head = l.head? := h.path.head

/-- `head = NULL` exactly when `tail = NULL` -/
theorem Holds.head_iff_tail (h : Holds next q l) : q.head = none ↔ q.tail = none := by
  rw [h.head, h.last, List.head?_eq_none_iff, List.getLast?_eq_none_iff]

theorem Holds.congr (h : Holds next q l) (heq : ∀ x ∈ l, next' x = next x) : Holds next' q l :=
  ⟨h.path.congr heq, h.last⟩

/-! ## the first node is taken -/

/-- `node = head; head = node->next; if (!head) tail = NULL;` -/
def pop (next : α → Option α) (q : Ends α) : Option (α × Ends α) :=
  match q.head with
  | none => none
  | some x => some (x, ⟨next x, if (next x).isNone then none else q.tail⟩)

/-- **the first node is taken** -/
theorem Holds.pop (h : Holds next q l) :
    (l = [] ∧ LinkedQueue.pop next q = none) ∨
      ∃ y rest q', l = y :: rest ∧ LinkedQueue.pop next q = some (y, q') ∧ Holds next q' rest := by
  unfold LinkedQueue.pop
  cases l with
  | nil =>
    refine .inl ⟨rfl, ?_⟩
    rw [h.head]
    rfl
  | cons y rest =>
    refine .inr ⟨y, rest, _, rfl, by rw [h.head]; rfl, ?_⟩
    have hpath : Path next (next y) rest := by
      have hp := h.path
      rw [h.head, List.head?_cons] at hp
      cases hp with
      | cons hp => exact hp
    refine ⟨hpath, ?_⟩
    show (if (next y).isNone then none else q.tail) = rest.getLast?
    rw [hpath.head, h.last]
    cases rest with
    | nil => rfl
    | cons z rest => rw [List.getLast?_cons_cons]; rfl

/-- what was taken was the first node -/
theorem Holds.of_pop {y : α} {q' : Ends α} (h : Holds next q l)
    (hp : LinkedQueue.pop next q = some (y, q')) :
    ∃ rest, l = y :: rest ∧ Holds next q' rest := by
  rcases h.pop with ⟨-, hnone⟩ | ⟨z, rest, q'', rfl, hsome, hrest⟩
  · rw [hnone] at hp
    cases hp
  · rw [hsome] at hp
    cases hp
    exact ⟨rest, rfl, hrest⟩

/-- where nothing is taken nothing is held -/
theorem Holds.of_pop_none (h : Holds next q l) (hp : LinkedQueue.pop next q = none) : l = [] := by
  rcases h.pop with ⟨hnil, -⟩ | ⟨z, rest, q'', rfl, hsome, -⟩
  · exact hnil
  · rw [hsome] at hp
    cases hp

/-! ## a node is added -/

variable [DecidableEq α]

/-- a write to a node that is not in the queue -/
theorem Holds.update (h : Holds next q l) (v : Option α) (hx : x ∉ l) :
    Holds (Function.update next x v) q l := by
  apply h.congr
  intro y hy
  exact Function.update_of_ne (fun hyx : y = x => hx (hyx ▸ hy)) v next

/-- `node->next = NULL; if (tail) tail->next = node; else head = node; tail = node;` -/
def push (next : α → Option α) (q : Ends α) (x : α) : (α → Option α) × Ends α :=
  let next := Function.update next x none
  match q.tail with
  | some t => (Function.update next t (some x), ⟨q.head, some x⟩)
  | none => (next, ⟨some x, some x⟩)

theorem push_some {t : α} (ht : q.tail = some t) :
    push next q x = (Function.update (Function.update next x none) t (some x),
      ⟨q.head, some x⟩) := by
  unfold push
  rw [ht]

theorem push_none (ht : q.tail = none) :
    push next q x = (Function.update next x none, ⟨some x, some x⟩) := by
  unfold push
  rw [ht]

/-- **a node is added behind the others** -/
theorem Holds.push (h : Holds next q l) (hx : x ∉ l) :
    Holds (LinkedQueue.push next q x).1 (LinkedQueue.push next q x).2 (l ++ [x]) := by
  rcases List.eq_nil_or_concat' l with rfl | ⟨front, t, rfl⟩
  · rw [push_none h.last]
    refine ⟨.cons ?_, rfl⟩
    show Path _ (Function.update next x none x) []
    rw [Function.update_self]
    exact .nil
  · have ht : q.tail = some t := by rw [h.last, List.getLast?_concat]
    have hxt : x ≠ t := fun hxt => hx (hxt ▸ List.mem_append_right _ List.mem_cons_self)
    have hnodup := List.nodup_append.1 h.nodup
    rw [push_some ht]
    refine ⟨?_, by simp⟩
    rw [List.append_assoc]
    refine h.path.snoc ?_ (Function.update_self ..) ?_
    · intro y hy
      dsimp only
      rw [Function.update_of_ne (hnodup.2.2 y hy t List.mem_cons_self), Function.update_of_ne]
      exact fun hyx => hx (hyx ▸ List.mem_append_left _ hy)
    · dsimp only
      rw [Function.update_of_ne hxt, Function.update_self]

/-- the nodes outside keep their pointers when a node is added -/
theorem push_next (h : Holds next q l) {y : α} (hy : y ∉ l) (hyx : y ≠ x) :
    (LinkedQueue.push next q x).1 y = next y := by
  cases ht : q.tail with
  | none =>
    rw [push_none ht]
    exact Function.update_of_ne hyx ..
  | some t =>
    have hmem : t ∈ l := List.mem_of_getLast? (h.last.symm.trans ht)
    rw [push_some ht]
    dsimp only
    rw [Function.update_of_ne (fun hyt : y = t => hy (hyt ▸ hmem)), Function.update_of_ne hyx]

/-- another queue does not see that a node is added -/
theorem Holds.push_other {q' : Ends α} {l' : List α} (h : Holds next q l) (h' : Holds next q' l')
    (hdisj : ∀ y ∈ l', y ∉ l) (hx : x ∉ l') : Holds (LinkedQueue.push next q x).1 q' l' :=
  h'.congr fun y hy => push_next h (hdisj y hy) fun hyx => hx (hyx ▸ hy)

end

end LinkedQueue

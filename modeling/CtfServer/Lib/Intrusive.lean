import Mathlib.Data.List.Basic

/-!
# Intrusive lists

Lists that thread through nodes by pointers: `next` and `previous` give the neighbours of a node,
`none` is the null pointer.

* `Chain next head l`              from `head` the pointers lead through `l`, and end;
* `Linked next previous p head l`  the same, with the pointers back, the first one to `p`;
* `Linked.push`, `Linked.erase`    a node before the first, and any node taken out;
* `Linked.inverse`                 **`next` and `previous` undo each other along the list**.
-/

set_option linter.unusedVariables false

namespace Intrusive

variable {α : Type}

/-! ## one way -/

/-- from `head`, the pointers lead through `l` and end -/
def Chain (next : α → Option α) : Option α → List α → Prop
  | head, [] => head = none
  | head, a :: l => head = some a ∧ Chain next (next a) l

section
variable {next next' : α → Option α} {head : Option α} {l : List α}

theorem Chain.congr (h : Chain next head l) (heq : ∀ a ∈ l, next' a = next a) :
    Chain next' head l := by
  induction l generalizing head with
  | nil => exact h
  | cons a l ih =>
    obtain ⟨h1, h2⟩ := List.forall_mem_cons.mp heq
    exact ⟨h.1, h1.symm ▸ ih h.2 h2⟩

end

/-! ## both ways -/

/-- from `head`, the pointers lead through `l` and end, and those back lead to `p` -/
def Linked (next previous : α → Option α) : Option α → Option α → List α → Prop
  | _, head, [] => head = none
  | p, head, a :: l => head = some a ∧ previous a = p ∧ Linked next previous (some a) (next a) l

section
variable {next previous next' previous' : α → Option α} {p head : Option α} {l : List α}

theorem Linked.congr (h : Linked next previous p head l)
    (heq : ∀ a ∈ l, next' a = next a ∧ previous' a = previous a) :
    Linked next' previous' p head l := by
  induction l generalizing p head with
  | nil => exact h
  | cons a l ih =>
    obtain ⟨⟨h1, h2⟩, h3⟩ := List.forall_mem_cons.mp heq
    refine ⟨h.1, h2.trans h.2.1, ?_⟩
    rw [h1]
    exact ih h.2.2 h3

theorem Linked.head_mem {a : α} (h : Linked next previous p (some a) l) : a ∈ l := by
  cases l with
  | nil => exact absurd h (Option.some_ne_none a)
  | cons b l =>
    rw [Option.some.inj h.1]
    exact List.mem_cons_self

/-- where a pointer leads from a node -/
theorem Linked.next_mem (h : Linked next previous p head l) {a b : α} (ha : a ∈ l)
    (hb : next a = some b) :
    b ∈ l ∧ previous b = some a := by
  induction l generalizing p head with
  | nil => cases ha
  | cons c l ih =>
    rcases List.mem_cons.mp ha with rfl | ha
    · have hrest := h.2.2
      rw [hb] at hrest
      cases l with
      | nil => exact absurd hrest (Option.some_ne_none b)
      | cons d l =>
        obtain rfl := Option.some.inj hrest.1
        exact ⟨List.mem_cons_of_mem _ List.mem_cons_self, hrest.2.1⟩
    · obtain ⟨hmem, hprev⟩ := ih h.2.2 ha
      exact ⟨List.mem_cons_of_mem _ hmem, hprev⟩

/-- where a pointer back leads from a node -/
theorem Linked.previous_mem (h : Linked next previous p head l) {a b : α} (hb : b ∈ l)
    (ha : previous b = some a) :
    (a ∈ l ∧ next a = some b) ∨ (p = some a ∧ head = some b) := by
  induction l generalizing p head with
  | nil => cases hb
  | cons c l ih =>
    rcases List.mem_cons.mp hb with rfl | hb
    · exact Or.inr ⟨h.2.1.symm.trans ha, h.1⟩
    · rcases ih h.2.2 hb with ⟨hmem, hnext⟩ | ⟨hc, hnext⟩
      · exact Or.inl ⟨List.mem_cons_of_mem _ hmem, hnext⟩
      · obtain rfl := Option.some.inj hc
        exact Or.inl ⟨List.mem_cons_self, hnext⟩

/-- **`next` and `previous` undo each other along the list** -/
theorem Linked.inverse (h : Linked next previous none head l) {a b : α} (ha : a ∈ l) (hb : b ∈ l) :
    next a = some b ↔ previous b = some a := by
  constructor
  · intro hn
    exact (h.next_mem ha hn).2
  · intro hp
    rcases h.previous_mem hb hp with ⟨-, hnext⟩ | ⟨hnone, -⟩
    · exact hnext
    · exact absurd hnone.symm (Option.some_ne_none a)

/-- no node leads to itself -/
theorem Linked.next_ne (h : Linked next previous p head l) (hnd : l.Nodup) {a : α} (ha : a ∈ l) :
    next a ≠ some a := by
  induction l generalizing p head with
  | nil => cases ha
  | cons b l ih =>
    obtain ⟨hb, hl⟩ := List.nodup_cons.mp hnd
    rcases List.mem_cons.mp ha with rfl | ha
    · intro he
      have hrest := h.2.2
      rw [he] at hrest
      exact hb hrest.head_mem
    · exact ih h.2.2 hl ha

theorem Linked.previous_some {x : α} (h : Linked next previous (some x) head l) {a : α}
    (ha : a ∈ l) :
    ∃ y, previous a = some y := by
  induction l generalizing x head with
  | nil => cases ha
  | cons b l ih =>
    rcases List.mem_cons.mp ha with rfl | ha
    · exact ⟨x, h.2.1⟩
    · exact ih h.2.2 ha

/-- only the first node has no pointer back -/
theorem Linked.previous_none_iff (h : Linked next previous none head l) (hnd : l.Nodup) {a : α}
    (ha : a ∈ l) :
    previous a = none ↔ head = some a := by
  cases l with
  | nil => cases ha
  | cons b l =>
    obtain ⟨hhead, hprev, hrest⟩ := h
    rw [hhead]
    rcases List.mem_cons.mp ha with rfl | ha
    · exact ⟨fun _ => rfl, fun _ => hprev⟩
    · have hne : b ≠ a := fun he => (List.nodup_cons.mp hnd).1 (he ▸ ha)
      obtain ⟨y, hy⟩ := hrest.previous_some ha
      rw [hy]
      exact ⟨fun hn => absurd hn (Option.some_ne_none y), fun he => absurd (Option.some.inj he) hne⟩

end

section
variable [DecidableEq α] {next previous next' previous' : α → Option α}
  {p head : Option α} {l : List α}

/-- a node before the first one -/
theorem Linked.push (h : Linked next previous none head l) {a : α} (ha : next' a = head)
    (hp : previous' a = none) (hnext : ∀ b ∈ l, next' b = next b)
    (hprev : ∀ b ∈ l, previous' b = if head = some b then some a else previous b) (hnd : l.Nodup) :
    Linked next' previous' none (some a) (a :: l) := by
  refine ⟨rfl, hp, ?_⟩
  rw [ha]
  cases l with
  | nil => exact h
  | cons b l =>
    obtain ⟨hhead, -, hrest⟩ := h
    obtain ⟨hb, hl⟩ := List.nodup_cons.mp hnd
    refine ⟨hhead, ?_, ?_⟩
    · rw [hprev b List.mem_cons_self, if_pos hhead]
    · rw [hnext b List.mem_cons_self]
      refine hrest.congr fun c hc => ⟨hnext c (List.mem_cons_of_mem _ hc), ?_⟩
      have hne : head ≠ some c := by
        rw [hhead]
        exact fun he => hb (Option.some.inj he ▸ hc)
      rw [hprev c (List.mem_cons_of_mem _ hc), if_neg hne]

/-- a node taken out: the pointers that led to it lead to its neighbours -/
theorem Linked.erase (h : Linked next previous p head l) (hnd : l.Nodup) {a : α} (ha : a ∈ l)
    (hp : p ≠ some a)
    (hnext : ∀ b ∈ l, b ≠ a → next' b = if next b = some a then next a else next b)
    (hprev : ∀ b ∈ l, b ≠ a → previous' b = if previous b = some a then previous a else
      previous b) :
    Linked next' previous' p (if head = some a then next a else head) (l.erase a) := by
  induction l generalizing p head with
  | nil => cases ha
  | cons b l ih =>
    obtain ⟨hhead, hpb, hrest⟩ := h
    obtain ⟨hb, hl⟩ := List.nodup_cons.mp hnd
    by_cases hba : b = a
    · -- the node itself: the next one gets its pointer back
      subst hba
      rw [List.erase_cons_head, if_pos hhead]
      cases l with
      | nil => exact hrest
      | cons c l =>
        obtain ⟨hnc, hpc, htail⟩ := hrest
        have hcb : c ≠ b := fun he => hb (he ▸ List.mem_cons_self)
        obtain ⟨hc, -⟩ := List.nodup_cons.mp hl
        have hother : ∀ d ∈ c :: l, d ≠ b ∧ next d ≠ some b := by
          intro d hd
          refine ⟨fun he => hb (he ▸ hd), fun he => ?_⟩
          have hlinked : Linked next previous (some b) (some c) (c :: l) := ⟨rfl, hpc, htail⟩
          exact hb (hlinked.next_mem hd he).1
        refine ⟨hnc, ?_, ?_⟩
        · rw [hprev c (List.mem_cons_of_mem _ List.mem_cons_self) hcb, if_pos hpc, hpb]
        · have hnext' : next' c = next c := by
            rw [hnext c (List.mem_cons_of_mem _ List.mem_cons_self) hcb,
              if_neg (hother c List.mem_cons_self).2]
          rw [hnext']
          refine htail.congr fun d hd => ?_
          obtain ⟨hdb, hnd⟩ := hother d (List.mem_cons_of_mem _ hd)
          have hmem : d ∈ b :: c :: l := List.mem_cons_of_mem _ (List.mem_cons_of_mem _ hd)
          have hpd : previous d ≠ some b := by
            intro he
            rcases htail.previous_mem hd he with ⟨hbl, -⟩ | ⟨hcb', -⟩
            · exact hb (List.mem_cons_of_mem _ hbl)
            · exact hcb (Option.some.inj hcb')
          rw [hnext d hmem hdb, if_neg hnd, hprev d hmem hdb, if_neg hpd]
          exact ⟨rfl, rfl⟩
    · have hal : a ∈ l := (List.mem_cons.mp ha).resolve_left (Ne.symm hba)
      have hsome : head ≠ some a := by
        rw [hhead]
        exact fun he => hba (Option.some.inj he)
      rw [List.erase_cons_tail (by simpa using hba), if_neg hsome]
      refine ⟨hhead, ?_, ?_⟩
      · rw [hprev b List.mem_cons_self hba, hpb, if_neg hp]
      · rw [hnext b List.mem_cons_self hba]
        exact ih hrest hl hal (fun he => hba (Option.some.inj he))
          (fun c hc => hnext c (List.mem_cons_of_mem _ hc))
          (fun c hc => hprev c (List.mem_cons_of_mem _ hc))

end

end Intrusive

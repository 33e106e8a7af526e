import CtfServer.Json.MemberNames
import Mathlib.Data.List.Forall2

/-!
# Keys spelled in another way

A body whose keys are written with other escapes.  It means the same, but `read_object` may take
one and refuse the other.

* `Respelled levels v v'`          the keys in `v'` are other spellings of those in `v`;
* `Respelled.distinctNames`        the names stay distinct;
* `challenge_respelled`, `answer_respelled`   the request stays the same exactly when the names of
                                   its fields stay spelled plainly.
-/

set_option linter.unusedVariables false
set_option linter.unusedSimpArgs false

namespace Json

section
variable (S : Bytes → Bytes → Prop)

inductive RespelledElements : List Bytes → List Bytes → Bytes → Bytes → Prop where
  | one {w v v' u : Bytes} : Ws w → S v v' → Ws u → RespelledElements [v] [v'] (w ++ (v ++ u))
      (w ++ (v' ++ u))
  | more {w v v' u es es' : Bytes} {vs vs' : List Bytes} : Ws w → S v v' → Ws u →
      RespelledElements vs vs' es es' →
      RespelledElements (v :: vs) (v' :: vs') (w ++ (v ++ (u ++ 0x2c :: es)))
      (w ++ (v' ++ (u ++ 0x2c :: es')))

inductive RespelledMember : Bytes × Bytes → Bytes × Bytes → Bytes → Bytes → Prop where
  | mk {w1 key key' w2 w3 v v' w4 : Bytes} : Ws w1 → Chars key → Chars key' → sameName key key' =
      true → Ws w2 → Ws w3 →
      S v v' → Ws w4 →
      RespelledMember (key, v) (key', v')
        (w1 ++ 0x22 :: (key ++ 0x22 :: (w2 ++ 0x3a :: (w3 ++ (v ++ w4)))))
        (w1 ++ 0x22 :: (key' ++ 0x22 :: (w2 ++ 0x3a :: (w3 ++ (v' ++ w4)))))

inductive RespelledMembers : List (Bytes × Bytes) → List (Bytes × Bytes) → Bytes →
    Bytes → Prop where
  | one {p p' : Bytes × Bytes} {m m' : Bytes} : RespelledMember S p p' m m' →
      RespelledMembers [p] [p'] m m'
  | more {p p' : Bytes × Bytes} {m m' : Bytes} {ps ps' : List (Bytes × Bytes)} {ms ms' : Bytes} :
      RespelledMember S p p' m m' → RespelledMembers ps ps' ms ms' →
      RespelledMembers (p :: ps) (p' :: ps') (m ++ 0x2c :: ms) (m' ++ 0x2c :: ms')

end

/-- two values that differ in the spelling of keys alone -/
def Respelled : Nat → Bytes → Bytes → Prop
  | 0, _, _ => False
  | levels + 1, v, v' => (Flat v ∧ v' = v) ∨
      (∃ vs vs' es es', RespelledElements (Respelled levels) vs vs' es es' ∧
        v = 0x5b :: (es ++ [0x5d]) ∧
        v' = 0x5b :: (es' ++ [0x5d])) ∨
      (∃ ps ps' ms ms', RespelledMembers (Respelled levels) ps ps' ms ms' ∧
        v = 0x7b :: (ms ++ [0x7d]) ∧
        v' = 0x7b :: (ms' ++ [0x7d]))

/-- two bodies that differ in the spelling of keys alone -/
def RespelledBody (json json' : Bytes) : Prop :=
  ∃ w v v' u, Ws w ∧ Ws u ∧ Respelled (MAX_JSON_DEPTH + 1) v v' ∧ json = w ++ (v ++ u) ∧
    json' = w ++ (v' ++ u)

/-! ## either side is a value -/

section
variable {S : Bytes → Bytes → Prop} {V : Bytes → Prop}

theorem RespelledElements.left (hS : ∀ {v v' : Bytes}, S v v' → V v) {vs vs' : List Bytes}
    {es es' : Bytes} (h : RespelledElements S vs vs' es es') : Elements V vs es := by
  induction h with
  | one hw hs hu => exact .one hw (hS hs) hu
  | more hw hs hu _ ih => exact .more hw (hS hs) hu ih

theorem RespelledElements.right {vs vs' : List Bytes} {es es' : Bytes}
    (h : RespelledElements S vs vs' es es')
    (hS : ∀ v v', v ∈ vs → S v v' → V v') : Elements V vs' es' := by
  induction h with
  | one hw hs hu => exact .one hw (hS _ _ (List.mem_cons_self ..) hs) hu
  | more hw hs hu _ ih =>
    exact .more hw (hS _ _ (List.mem_cons_self ..) hs) hu
      (ih fun v v' hv => hS v v' (List.mem_cons_of_mem _ hv))

theorem RespelledMembers.left (hS : ∀ {v v' : Bytes}, S v v' → V v) {ps ps' : List (Bytes × Bytes)}
    {ms ms' : Bytes} (h : RespelledMembers S ps ps' ms ms') : Members V ps ms := by
  have hm : ∀ {p p' : Bytes × Bytes} {m m' : Bytes}, RespelledMember S p p' m m' →
    Member V p m := by
    rintro _ _ _ _ ⟨hw1, hkey, -, -, hw2, hw3, hs, hw4⟩
    exact .mk hw1 hkey hw2 hw3 (hS hs) hw4
  induction h with
  | one h => exact .one (hm h)
  | more h _ ih => exact .more (hm h) ih

theorem RespelledMembers.right {ps ps' : List (Bytes × Bytes)} {ms ms' : Bytes}
    (h : RespelledMembers S ps ps' ms ms')
    (hS : ∀ p v', p ∈ ps → S p.2 v' → V v') : Members V ps' ms' := by
  have hm : ∀ {p p' : Bytes × Bytes} {m m' : Bytes}, (∀ v', S p.2 v' → V v') →
    RespelledMember S p p' m m' →
      Member V p' m' := by
    rintro _ _ _ _ hv ⟨hw1, -, hkey', -, hw2, hw3, hs, hw4⟩
    exact .mk hw1 hkey' hw2 hw3 (hv _ hs) hw4
  induction h with
  | one h => exact .one (hm (fun v' => hS _ v' (List.mem_cons_self ..)) h)
  | more h _ ih =>
    exact .more (hm (fun v' => hS _ v' (List.mem_cons_self ..)) h)
      (ih fun p v' hp => hS p v' (List.mem_cons_of_mem _ hp))

/-- the members stand in the same order -/
theorem RespelledMembers.pairs {ps ps' : List (Bytes × Bytes)} {ms ms' : Bytes}
    (h : RespelledMembers S ps ps' ms ms') :
    List.Forall₂ (fun p p' => sameName p.1 p'.1 = true ∧ S p.2 p'.2) ps ps' := by
  have hm : ∀ {p p' : Bytes × Bytes} {m m' : Bytes}, RespelledMember S p p' m m' →
      sameName p.1 p'.1 = true ∧ S p.2 p'.2 := by
    rintro _ _ _ _ ⟨-, -, -, hsame, -, -, hs, -⟩
    exact ⟨hsame, hs⟩
  induction h with
  | one h => exact .cons (hm h) .nil
  | more h _ ih => exact .cons (hm h) ih

end

theorem Elements.values {V : Bytes → Prop} {vs : List Bytes} {es : Bytes} (h : Elements V vs es) :
    ∀ v ∈ vs, V v := by
  induction h with
  | one _ hv _ => exact List.forall_mem_singleton.mpr hv
  | more _ hv _ _ ih => exact List.forall_mem_cons.mpr ⟨hv, ih⟩

theorem Members.values {V : Bytes → Prop} {ps : List (Bytes × Bytes)} {ms : Bytes}
    (h : Members V ps ms) :
    ∀ p ∈ ps, V p.2 := by
  have hm : ∀ {p : Bytes × Bytes} {m : Bytes}, Member V p m → V p.2 := by
    rintro _ _ ⟨-, -, -, -, hv, -⟩
    exact hv
  induction h with
  | one h => exact List.forall_mem_singleton.mpr (hm h)
  | more h _ ih => exact List.forall_mem_cons.mpr ⟨hm h, ih⟩

theorem Respelled.left {levels : Nat} {v v' : Bytes} (h : Respelled levels v v') :
    ValueAt (fun _ => True) levels v := by
  induction levels generalizing v v' with
  | zero => exact h
  | succ levels ih =>
    obtain ⟨hf, -⟩ | ⟨vs, vs', es, es', hes, rfl, -⟩ | ⟨ps, ps', ms, ms', hms, rfl, -⟩ := h
    · exact (value_iff _ _ _).mpr (Or.inl hf)
    · exact (value_iff _ _ _).mpr
        (Or.inr (Or.inl ⟨vs, es, hes.left (V := ValueAt (fun _ => True) levels) ih, rfl⟩))
    · exact (value_iff _ _ _).mpr
        (Or.inr (Or.inr ⟨ps, ms, hms.left (V := ValueAt (fun _ => True) levels) ih, trivial, rfl⟩))

/-! ## arrays and objects by their first byte -/

theorem Shape.array_inv {V : Bytes → Prop} {distinct : List Bytes → Prop} {v es : Bytes}
    (h : Shape V distinct v) (hv : v = 0x5b :: (es ++ [0x5d])) : ∃ vs, ArrayBody V vs es := by
  cases h with
  | scalar h =>
    obtain ⟨c, t, rfl, -, -, -, -, hne⟩ := h.head
    exact absurd (List.cons.inj hv).1 hne
  | string => exact absurd (List.cons.inj hv).1 (by decide)
  | @array vs es' hb =>
    have he := List.append_cancel_right (List.cons.inj hv).2
    exact ⟨vs, he ▸ hb⟩
  | object => exact absurd (List.cons.inj hv).1 (by decide)

theorem Shape.object_inv {V : Bytes → Prop} {distinct : List Bytes → Prop} {v ms : Bytes}
    (h : Shape V distinct v)
    (hv : v = 0x7b :: (ms ++ [0x7d])) :
    ∃ ps, ObjectBody V ps ms ∧ (ps = [] ∨ distinct (ps.map Prod.fst)) := by
  cases h with
  | scalar h =>
    obtain ⟨c, t, rfl, -, -, -, hne, -⟩ := h.head
    exact absurd (List.cons.inj hv).1 hne
  | string => exact absurd (List.cons.inj hv).1 (by decide)
  | array => exact absurd (List.cons.inj hv).1 (by decide)
  | @object ps ms' hb hd =>
    have he := List.append_cancel_right (List.cons.inj hv).2
    exact ⟨ps, he ▸ hb, hd⟩

/-! ## names stay distinct -/

theorem distinctNames_respelled {T : Bytes × Bytes → Bytes × Bytes → Prop}
    {ps ps' : List (Bytes × Bytes)}
    (h : List.Forall₂ (fun p p' => sameName p.1 p'.1 = true ∧ T p p') ps ps')
    (hd : DistinctNames (ps.map Prod.fst)) :
    DistinctNames (ps'.map Prod.fst) := by
  induction h with
  | nil => exact List.Pairwise.nil
  | @cons p p' ps ps' hp hps ih =>
    obtain ⟨h1, h2⟩ := List.pairwise_cons.mp hd
    refine List.pairwise_cons.mpr ⟨?_, ih h2⟩
    intro b hb
    obtain ⟨q', hq', rfl⟩ := List.mem_map.mp hb
    obtain ⟨q, hq, hqq⟩ : ∃ q ∈ ps, sameName q.1 q'.1 = true := by
      clear ih hd h1 h2 hb
      induction hps with
      | nil => cases hq'
      | @cons a a' as as' ha _ ih =>
        rcases List.mem_cons.mp hq' with rfl | hm
        · exact ⟨a, List.mem_cons_self .., ha.1⟩
        · obtain ⟨q, hq, hqq⟩ := ih hm
          exact ⟨q, List.mem_cons_of_mem _ hq, hqq⟩
    refine Bool.eq_false_iff.mpr fun hs => ?_
    have h3 := h1 q.1 (List.mem_map_of_mem hq)
    rw [sameName_trans hp.1 (sameName_trans hs (sameName_symm hqq))] at h3
    cases h3

theorem Respelled.distinctNames {levels : Nat} {v v' : Bytes} (h : Respelled levels v v')
    (hv : ValueAt DistinctNames levels v) : ValueAt DistinctNames levels v' := by
  induction levels generalizing v v' with
  | zero => exact h.elim
  | succ levels ih =>
    have ha := valueAt_unique (fun _ => True) DistinctNames levels levels
    have ho := valueAt_opens (fun _ => True) levels
    have ho' := valueAt_opens DistinctNames levels
    obtain ⟨hf, rfl⟩ | ⟨vs, vs', es, es', hes, hv1, rfl⟩ | ⟨ps, ps', ms, ms', hms, hv1, rfl⟩ := h
    · exact hv
    · obtain ⟨us, hb⟩ := (value_shape.mp hv).array_inv hv1
      have hl : ArrayBody (ValueAt (fun _ => True) levels) vs es :=
        Or.inr (hes.left (V := ValueAt (fun _ => True) levels) Respelled.left)
      obtain ⟨rfl, -, -⟩ := hl.unique ha ho ho' hb (r := []) (s := []) rfl
      have hvals : ∀ u ∈ vs, ValueAt DistinctNames levels u := by
        rcases hb with ⟨rfl, -⟩ | hb
        · exact nofun
        · exact hb.values
      refine (value_iff _ _ _).mpr (Or.inr (Or.inl ⟨vs', es', hes.right ?_, rfl⟩))
      exact fun u u' hu hs => ih hs (hvals u hu)
    · obtain ⟨qs, hb, hd⟩ := (value_shape.mp hv).object_inv hv1
      have hl : ObjectBody (ValueAt (fun _ => True) levels) ps ms :=
        Or.inr (hms.left (V := ValueAt (fun _ => True) levels) Respelled.left)
      obtain ⟨rfl, -, -⟩ := hl.unique ha ho ho' hb (r := []) (s := []) rfl
      have hvals : ∀ p ∈ ps, ValueAt DistinctNames levels p.2 := by
        rcases hb with ⟨rfl, -⟩ | hb
        · exact nofun
        · exact hb.values
      have hd' : DistinctNames (ps.map Prod.fst) := by
        rcases hd with rfl | hd
        · exact List.Pairwise.nil
        · exact hd
      refine (value_iff _ _ _).mpr (Or.inr (Or.inr ⟨ps', ms', hms.right ?_, ?_, rfl⟩))
      · exact fun p u' hp hs => ih hs (hvals p hp)
      · exact distinctNames_respelled hms.pairs hd'

/-! ## the members of a respelled body -/

/-- neither an array nor an object -/
def Single (v : Bytes) : Prop := ∀ t, v ≠ 0x5b :: t ∧ v ≠ 0x7b :: t

theorem Respelled.single {levels : Nat} {v v' : Bytes} (h : Respelled levels v v') (hv : Single v) :
    v' = v := by
  cases levels with
  | zero => exact h.elim
  | succ levels =>
    obtain ⟨-, rfl⟩ | ⟨vs, vs', es, es', hes, rfl, -⟩ | ⟨ps, ps', ms, ms', hms, rfl, -⟩ := h
    · rfl
    · exact absurd rfl (hv _).1
    · exact absurd rfl (hv _).2

theorem single_quote (f : Bytes) : Single (quote f) :=
  fun t => ⟨fun h => absurd (List.cons.inj h).1 (by decide), fun h =>
    absurd (List.cons.inj h).1 (by decide)⟩

theorem Numeral.single {v : Bytes} {n : Nat} (h : Numeral v n) : Single v := by
  obtain ⟨c, t, rfl, -, h2⟩ := h.head
  intro t'
  constructor
  · intro he
    rw [(List.cons.inj he).1] at h2
    exact absurd h2 (by decide)
  · intro he
    rw [(List.cons.inj he).1] at h2
    exact absurd h2 (by decide)

/-- the outermost members of a body and of its respelling -/
theorem RespelledBody.topMembers {json json' : Bytes} {ps : List (Bytes × Bytes)}
    (h : RespelledBody json json')
    (htop : TopMembers DistinctNames json ps) (hd : DistinctNames (ps.map Prod.fst)) :
    ∃ ps', TopMembers DistinctNames json' ps' ∧ DistinctNames (ps'.map Prod.fst) ∧
      List.Forall₂ (fun p p' => sameName p.1 p'.1 = true ∧ (Single p.2 → p'.2 = p.2)) ps ps' := by
  obtain ⟨w, v, v', u, hw, hu, hr, rfl, rfl⟩ := h
  obtain ⟨w0, ms0, u0, hw0, hu0, hb0, he⟩ := htop
  obtain ⟨x, t, hxt, hx, -⟩ := valueAt_opens _ _ _ hr.left
  have hv : w = w0 ∧ v ++ u = 0x7b :: (ms0 ++ 0x7d :: u0) := by
    rw [hxt] at he
    obtain ⟨h1, h2, h3⟩ := ws_unique (d := 0x7b) hw hw0 hx (by decide) he
    refine ⟨h1, ?_⟩
    rw [hxt, h2, ← h3]
    rfl
  obtain ⟨rfl, hv⟩ := hv
  have hobj : ValueAt DistinctNames (MAX_JSON_DEPTH + 1) (0x7b :: (ms0 ++ [0x7d])) :=
    value_shape.mpr (.object hb0 (Or.inr hd))
  obtain ⟨hv1, -⟩ := valueAt_unique _ _ _ _ v (0x7b :: (ms0 ++ [0x7d])) (u ++ [0x2c])
    (u0 ++ [0x2c]) hr.left hobj
    ⟨u, 0x2c, [], hu, by decide, rfl⟩ ⟨u0, 0x2c, [], hu0, by decide, rfl⟩ (by
      have h1 := congrArg (· ++ [(0x2c : UInt8)]) hv
      simpa using h1)
  have hsame : List.Forall₂ (fun p p' : Bytes × Bytes => sameName p.1 p'.1 = true ∧
    (Single p.2 → p'.2 = p.2)) ps ps := by
    rw [List.forall₂_same]
    exact fun p _ => ⟨sameName_refl p.1, fun _ => rfl⟩
  obtain ⟨-, rfl⟩ | ⟨vs, vs', es, es', -, hv2, -⟩ | ⟨qs, ps', ms, ms', hms, hv2, rfl⟩ := hr
  · refine ⟨ps, ⟨w, ms0, u, hw, hu, hb0, by rw [hv1]; simp⟩, hd, hsame⟩
  · rw [hv1] at hv2
    exact absurd (List.cons.inj hv2).1 (by decide)
  · have hms0 : ms0 = ms := List.append_cancel_right (List.cons.inj (hv1.symm.trans hv2)).2
    subst hms0
    have hl : ObjectBody (ValueAt (fun _ => True) MAX_JSON_DEPTH) qs ms0 :=
      Or.inr (hms.left (V := ValueAt (fun _ => True) MAX_JSON_DEPTH) Respelled.left)
    obtain ⟨rfl, -, -⟩ := hl.unique (valueAt_unique _ _ _ _) (valueAt_opens _ _) (valueAt_opens _ _)
      hb0 (r := []) (s := []) rfl
    have hvals : ∀ p ∈ qs, ValueAt DistinctNames MAX_JSON_DEPTH p.2 := by
      rcases hb0 with ⟨rfl, -⟩ | hb
      · exact nofun
      · exact hb.values
    refine ⟨ps', ⟨w, ms', u, hw, hu, Or.inr (hms.right ?_), by simp⟩, distinctNames_respelled
      hms.pairs hd, ?_⟩
    · exact fun p v' hp hs => hs.distinctNames (hvals p hp)
    · exact hms.pairs.imp fun p p' hp => ⟨hp.1, hp.2.single⟩

/-! ## the fields of a respelled body -/

/-- the body spells these names as they are -/
def Spells (json : Bytes) (names : List Bytes) : Prop :=
  ∃ ps, TopMembers (fun _ => True) json ps ∧ ∀ name ∈ names, name ∈ ps.map Prod.fst

/-- a name that both spell is spelled by the same member -/
theorem spelled_together {T : Bytes × Bytes → Bytes × Bytes → Prop} {ps ps' : List (Bytes × Bytes)}
    (h : List.Forall₂ (fun p p' => sameName p.1 p'.1 = true ∧ T p p') ps ps')
    (hd : DistinctNames (ps.map Prod.fst))
    (hd' : DistinctNames (ps'.map Prod.fst)) (name : Bytes)
    (hname : name ∈ ps.map Prod.fst ↔ name ∈ ps'.map Prod.fst) :
    List.Forall₂ (fun p p' => p.1 = name ↔ p'.1 = name) ps ps' := by
  induction h with
  | nil => exact .nil
  | @cons p p' ps ps' hp hps ih =>
    obtain ⟨h1, h2⟩ := List.pairwise_cons.mp hd
    obtain ⟨h1', h2'⟩ := List.pairwise_cons.mp hd'
    simp only [List.map_cons, List.mem_cons] at hname
    -- a name in the tail is not the name of the head, however that is spelled
    have hleft : name ∈ ps.map Prod.fst → ¬ p.1 = name ∧ ¬ p'.1 = name := by
      intro hmem
      have h3 := h1 name hmem
      constructor
      · rintro rfl
        rw [sameName_refl] at h3
        cases h3
      · rintro rfl
        rw [hp.1] at h3
        cases h3
    have hright : name ∈ ps'.map Prod.fst → ¬ p.1 = name ∧ ¬ p'.1 = name := by
      intro hmem
      have h3 := h1' name hmem
      constructor
      · rintro rfl
        rw [sameName_symm hp.1] at h3
        cases h3
      · rintro rfl
        rw [sameName_refl] at h3
        cases h3
    have hhead : p.1 = name ↔ p'.1 = name := by
      constructor
      · intro he
        rcases hname.mp (Or.inl he.symm) with h3 | h3
        · exact h3.symm
        · exact absurd he (hright h3).1
      · intro he
        rcases hname.mpr (Or.inl he.symm) with h3 | h3
        · exact h3.symm
        · exact absurd he (hleft h3).2
    refine .cons hhead (ih h2 h2' ?_)
    constructor
    · intro hmem
      rcases hname.mp (Or.inr hmem) with h3 | h3
      · exact absurd h3.symm (hleft hmem).2
      · exact h3
    · intro hmem
      rcases hname.mpr (Or.inr hmem) with h3 | h3
      · exact absurd h3.symm (hright hmem).1
      · exact h3

/-- members that do the same, one by one -/
theorem Steps.transfer {σ : Type} {R : Bytes → Bytes → σ → σ → Prop}
    {ps ps' : List (Bytes × Bytes)} {s s' : σ}
    (h : Steps R ps s s') (hps : List.Forall₂ (fun p p' => ∀ t t', R p.1 p.2 t t' →
      R p'.1 p'.2 t t') ps ps') :
    Steps R ps' s s' := by
  induction h generalizing ps' with
  | nil => cases hps; exact .nil
  | @cons key v ps s s1 s' hR _ ih =>
    cases hps with
    | @cons _ p' _ ps' hp hps => exact .cons (hp s s1 hR) (ih hps)

theorem forall₂_and {α β : Type} {R R' : α → β → Prop} {l : List α} {l' : List β}
    (h : List.Forall₂ R l l')
    (h' : List.Forall₂ R' l l') : List.Forall₂ (fun a b => R a b ∧ R' a b) l l' := by
  induction h with
  | nil => exact .nil
  | cons hab _ ih =>
    cases h' with
    | cons hab' ht => exact .cons ⟨hab, hab'⟩ (ih ht)

/-- the names of the fields of a challenge -/
def challengeNames : List Bytes := [ascii "name", ascii "description", ascii "flag", ascii "genre"]

def answerNames : List Bytes := [ascii "challenge_id", ascii "answer"]

theorem Spells.iff {json : Bytes} {names : List Bytes} {distinct : List Bytes → Prop}
    {ps : List (Bytes × Bytes)}
    (htop : TopMembers distinct json ps) (hd : distinct (ps.map Prod.fst)) :
    Spells json names ↔ ∀ name ∈ names, name ∈ ps.map Prod.fst := by
  constructor
  · rintro ⟨qs, hq, h⟩
    obtain ⟨w, ms, u, hw, hu, hb, rfl⟩ := hq
    obtain ⟨w', ms', u', hw', hu', hb', he⟩ := htop
    obtain ⟨-, -, h1⟩ := ws_unique hw hw' (c := 0x7b) (d := 0x7b) (by decide) (by decide) he
    obtain ⟨rfl, -, -⟩ := hb.unique (valueAt_unique _ _ _ _) (valueAt_opens _ _)
      (valueAt_opens _ _) hb' h1
    exact h
  · exact fun h => ⟨ps, htop.mono fun _ _ => trivial, h⟩

/-- a challenge whose keys are respelled is the same challenge exactly when the names of its
fields are spelled plainly -/
theorem challenge_respelled {json json' : Bytes} {request : CreateChallengeRequest}
    (h : jsonToCreateChallengeRequest enoughMemory json = .ok request)
    (hone : Document OneSpelling MAX_JSON_DEPTH json) (hr : RespelledBody json json') :
    jsonToCreateChallengeRequest enoughMemory json' = .ok request ↔
      Spells json' challengeNames := by
  obtain ⟨ps, htop, hnd, hst, hfit⟩ := (jsonToCreateChallengeRequest_iff json request).mp h
  obtain ⟨htop1, hd⟩ := htop.distinctNames hnd hone
  obtain ⟨ps', htop', hd', hpairs⟩ := hr.topMembers htop1 hd
  have hmem : ∀ qs : List (Bytes × Bytes), Steps ChallengeField qs {} ⟨request, 15⟩ →
      ∀ name ∈ challengeNames, name ∈ qs.map Prod.fst := by
    intro qs hqs
    obtain ⟨h1, h2, h3, h4⟩ := challenge_members hqs
    simp only [challengeNames, List.forall_mem_cons, List.not_mem_nil, false_imp_iff,
      implies_true, and_true]
    exact ⟨List.mem_map_of_mem h1, List.mem_map_of_mem h2, List.mem_map_of_mem h3,
      List.mem_map_of_mem h4⟩
  rw [Spells.iff htop' hd']
  constructor
  · intro h'
    obtain ⟨qs, hq, -, hqs, -⟩ := (jsonToCreateChallengeRequest_iff json' request).mp h'
    rw [← Spells.iff htop' hd']
    exact ⟨qs, hq.mono fun _ _ => trivial, hmem qs hqs⟩
  · intro hspell
    have htogether := fun name (hname : name ∈ challengeNames) =>
      spelled_together hpairs hd hd' name ⟨fun _ => hspell name hname, fun _ =>
        hmem ps hst name hname⟩
    simp only [challengeNames, List.forall_mem_cons, List.not_mem_nil, false_imp_iff,
      implies_true, and_true]
      at htogether
    obtain ⟨h1, h2, h3, h4⟩ := htogether
    refine (jsonToCreateChallengeRequest_iff json' request).mpr ⟨ps', ?_, ?_, hst.transfer ?_, hfit⟩
    · exact htop'.mono fun keys hk => ((distinctNames_iff keys).mp hk).1
    · exact ((distinctNames_iff _).mp hd').1
    · refine (forall₂_and hpairs (forall₂_and h1 (forall₂_and h2 (forall₂_and h3 h4)))).imp ?_
      rintro ⟨key, v⟩ ⟨key', v'⟩ ⟨⟨-, hv⟩, hn, hdesc, hf, hg⟩ t t' hR
      dsimp only at hv hn hdesc hf hg hR ⊢
      cases hR with
      | name hc => rw [hn.mp rfl, hv (single_quote _)]; exact .name hc
      | description hc => rw [hdesc.mp rfl, hv (single_quote _)]; exact .description hc
      | flag hc => rw [hf.mp rfl, hv (single_quote _)]; exact .flag hc
      | genre => rw [hg.mp rfl, hv (single_quote _)]; exact .genre
      | other n1 n2 n3 n4 =>
        exact .other (mt hn.mpr n1) (mt hdesc.mpr n2) (mt hf.mpr n3) (mt hg.mpr n4)

/-- and so for an answer -/
theorem answer_respelled {json json' : Bytes} {request : SubmitAnswerRequest}
    (h : jsonToSubmitAnswerRequest enoughMemory json = .ok request)
    (hone : Document OneSpelling MAX_JSON_DEPTH json) (hr : RespelledBody json json') :
    jsonToSubmitAnswerRequest enoughMemory json' = .ok request ↔ Spells json' answerNames := by
  obtain ⟨ps, htop, hnd, hst, hfit⟩ := (jsonToSubmitAnswerRequest_iff json request).mp h
  obtain ⟨htop1, hd⟩ := htop.distinctNames hnd hone
  obtain ⟨ps', htop', hd', hpairs⟩ := hr.topMembers htop1 hd
  have hmem : ∀ qs : List (Bytes × Bytes), Steps AnswerField qs {} request →
      ∀ name ∈ answerNames, name ∈ qs.map Prod.fst := by
    intro qs hqs
    obtain ⟨h1, v, h2, -⟩ := answer_members hqs hfit
    simp only [answerNames, List.forall_mem_cons, List.not_mem_nil, false_imp_iff,
      implies_true, and_true]
    exact ⟨List.mem_map_of_mem h2, List.mem_map_of_mem h1⟩
  rw [Spells.iff htop' hd']
  constructor
  · intro h'
    obtain ⟨qs, hq, -, hqs, -⟩ := (jsonToSubmitAnswerRequest_iff json' request).mp h'
    rw [← Spells.iff htop' hd']
    exact ⟨qs, hq.mono fun _ _ => trivial, hmem qs hqs⟩
  · intro hspell
    have htogether := fun name (hname : name ∈ answerNames) =>
      spelled_together hpairs hd hd' name ⟨fun _ => hspell name hname, fun _ =>
        hmem ps hst name hname⟩
    simp only [answerNames, List.forall_mem_cons, List.not_mem_nil, false_imp_iff, implies_true,
      and_true] at htogether
    obtain ⟨h1, h2⟩ := htogether
    refine (jsonToSubmitAnswerRequest_iff json' request).mpr ⟨ps', ?_, ?_, hst.transfer ?_, hfit⟩
    · exact htop'.mono fun keys hk => ((distinctNames_iff keys).mp hk).1
    · exact ((distinctNames_iff _).mp hd').1
    · refine (forall₂_and hpairs (forall₂_and h1 h2)).imp ?_
      rintro ⟨key, v⟩ ⟨key', v'⟩ ⟨⟨-, hv⟩, hid, ha⟩ t t' hR
      dsimp only at hv hid ha hR ⊢
      cases hR with
      | challengeId hn hmax => rw [hid.mp rfl, hv hn.single]; exact .challengeId hn hmax
      | answer hc => rw [ha.mp rfl, hv (single_quote _)]; exact .answer hc
      | other n1 n2 => exact .other (mt hid.mpr n1) (mt ha.mpr n2)

/-! ## what an accepted body means -/

/-- **An accepted body has no two members of one name in an object, and gives each field the value
of the only member of its name, exactly when no object of it spells one name in two ways.  And its
keys can then be respelled without another result exactly as long as the names of the fields stay
spelled plainly.** -/
theorem body_by_name_iff (mem : Nat → Bool) (json : Bytes) :
    (∀ request, jsonToCreateChallengeRequest mem json = .ok request →
      (ChallengeByName json request ↔ Document OneSpelling MAX_JSON_DEPTH json) ∧
        (Document OneSpelling MAX_JSON_DEPTH json → ∀ json', RespelledBody json json' →
          (jsonToCreateChallengeRequest enoughMemory json' = .ok request ↔
            Spells json' challengeNames))) ∧
    (∀ request, jsonToSubmitAnswerRequest mem json = .ok request →
      (AnswerByName json request ↔ Document OneSpelling MAX_JSON_DEPTH json) ∧
        (Document OneSpelling MAX_JSON_DEPTH json → ∀ json', RespelledBody json json' →
          (jsonToSubmitAnswerRequest enoughMemory json' = .ok request ↔
            Spells json' answerNames))) := by
  constructor
  · intro request h
    exact ⟨challengeByName_iff h, fun hone json' hr =>
      challenge_respelled (jsonToCreateChallengeRequest_enough h) hone hr⟩
  · intro request h
    exact ⟨answerByName_iff h, fun hone json' hr =>
      answer_respelled (jsonToSubmitAnswerRequest_enough h) hone hr⟩

/-! ## a body that spells a name in two ways -/

/-- a reader of fields that keeps the keys -/
def keyField (key : Bytes) (keys : List Bytes) (cur : Bytes) : Except Error (List Bytes × Bytes) :=
  (readValue enoughMemory FIELD_LEVELS cur).map fun cur => (keys ++ [key], cur)

/-- the keys of a body that is an object -/
theorem topMembers_keys {json rest : Bytes} {keys : List Bytes}
    (h : readObject enoughMemory keyField [] json = .ok (keys, rest))
    (hrest : skipWhitespace rest = []) : ∃ ps, TopMembers List.Nodup json ps ∧
    ps.map Prod.fst = keys := by
  have hsound : FieldSound (ValueAt List.Nodup FIELD_LEVELS) (fun key _ s s' => s' = s ++ [key])
    keyField := by
    intro key s cur s' rest h
    obtain ⟨r, h1, h2⟩ := map_ok h
    cases h2
    obtain ⟨w, v, hw, hv, hcur⟩ := readValue_sound h1
    exact ⟨w, v, hw, hv, rfl, hcur⟩
  have hkeys : ∀ {ps : List (Bytes × Bytes)} {s s' : List Bytes},
      Steps (fun key _ s s' => s' = s ++ [key]) ps s s' → s' = s ++ ps.map Prod.fst := by
    intro ps s s' hs
    induction hs with
    | nil => simp
    | cons hR _ ih => rw [ih, hR]; simp
  obtain ⟨w, ps, ms, hw, hb, -, hst, hcur⟩ := readObject_sound hsound h
  exact ⟨ps, ⟨w, ms, rest, hw, (skipWhitespace_nil_iff rest).mp hrest, hb, hcur⟩, (hkeys hst).symm⟩

/-- `name` once plainly and once as `\u006eame` -/
def twoSpellings : Bytes :=
  ascii "\x7b\"name\":\"n\",\"description\":\"\",\"flag\":\"f\",\"genre\":\"web\",\"\\u006eame\":\"m\"\x7d"

/-- the body is accepted, its second `name` is dropped -/
theorem body_by_name_two_spellings :
    jsonToCreateChallengeRequest enoughMemory twoSpellings = .ok ⟨ascii "n", [], ascii "f", .web⟩ ∧
      ¬ ChallengeByName twoSpellings ⟨ascii "n", [], ascii "f", .web⟩ := by
  refine ⟨by decide +kernel, fun hname => ?_⟩
  have hread : readObject enoughMemory keyField [] twoSpellings =
      .ok ([ascii "name", ascii "description", ascii "flag", ascii "genre", ascii "\\u006eame"],
        []) := by decide +kernel
  obtain ⟨ps, htop, hkeys⟩ := topMembers_keys hread rfl
  rcases (htop.and hname.distinct).2 with rfl | hd
  · cases hkeys
  · rw [hkeys] at hd
    have h1 := (List.pairwise_cons.mp hd).1 (ascii "\\u006eame") (by simp)
    revert h1
    decide +kernel

/-- an answer with one more member -/
def answerWith (key : Bytes) : Bytes :=
  ascii "\x7b\"challenge_id\":7,\"answer\":\"f\",\"" ++ (key ++ ascii "\":\"y\"\x7d")

theorem answerWith_members {S : Bytes → Bytes → Prop} (hS : ∀ v, Flat v → S v v) {key key' : Bytes}
    (hk : Chars key) (hk' : Chars key') (hsame : sameName key key' = true) :
    ∃ ps ps' ms ms', RespelledMembers S ps ps' ms ms' ∧ ps.map Prod.fst =
      [ascii "challenge_id", ascii "answer", key] ∧
      answerWith key = 0x7b :: (ms ++ [0x7d]) ∧ answerWith key' = 0x7b :: (ms' ++ [0x7d]) := by
  have hws : Ws [] := nofun
  have hplain : ∀ {f : Bytes}, (∀ c ∈ f, ¬ c < 0x20 ∧ ¬ 0x80 ≤ c ∧ c ≠ DQUOTE ∧ c ≠ BACKSLASH) →
    Chars f := chars_plain
  have hid : Chars (ascii "challenge_id") := hplain (by decide +kernel)
  have hanswer : Chars (ascii "answer") := hplain (by decide +kernel)
  have hseven : Flat (ascii "7") :=
    .number (.plus (.mk (.nonzero 0x37 [] (by decide) (by decide) nofun) .absent .absent))
  have hf : Flat (0x22 :: (ascii "f" ++ [0x22])) := .string (hplain (by decide +kernel))
  have hy : Flat (0x22 :: (ascii "y" ++ [0x22])) := .string (hplain (by decide +kernel))
  have hhead : ascii "\x7b\"challenge_id\":7,\"answer\":\"f\",\"" = 0x7b :: 0x22 ::
    (ascii "challenge_id" ++
      0x22 :: 0x3a :: (ascii "7" ++ 0x2c :: 0x22 ::
        (ascii "answer" ++ 0x22 :: 0x3a :: 0x22 :: (ascii "f" ++
        [0x22, 0x2c, 0x22])))) := by decide +kernel
  have htail : ascii "\":\"y\"\x7d" = 0x22 :: 0x3a :: 0x22 ::
    (ascii "y" ++ [0x22, 0x7d]) := by decide +kernel
  refine ⟨_, _, _, _,
    .more (.mk hws hid hid (by decide +kernel) hws hws (hS _ hseven) hws)
      (.more (.mk hws hanswer hanswer (by decide +kernel) hws hws (hS _ hf) hws)
        (.one (.mk hws hk hk' hsame hws hws (hS _ hy) hws))), rfl, ?_, ?_⟩
  all_goals
    unfold answerWith
    rw [hhead, htail]
    simp only [List.nil_append, List.append_assoc, List.cons_append, List.append_nil]

/-- a challenge that spells each name once, and an answer with a key that can be respelled -/
theorem body_by_name_sample :
    (ChallengeByName (ascii "\x7b\"name\":\"n\",\"description\":\"\",\"flag\":\"f\",\"genre\":\"web\"\x7d")
      ⟨ascii "n", [], ascii "f", .web⟩ ↔
        Document OneSpelling MAX_JSON_DEPTH
          (ascii "\x7b\"name\":\"n\",\"description\":\"\",\"flag\":\"f\",\"genre\":\"web\"\x7d")) ∧
    AnswerByName (answerWith (ascii "x")) ⟨7, ascii "f"⟩ ∧
    (jsonToSubmitAnswerRequest enoughMemory (answerWith (ascii "\\u0078")) = .ok ⟨7, ascii "f"⟩ ↔
      Spells (answerWith (ascii "\\u0078")) answerNames) := by
  have hx : Chars (ascii "x") := chars_plain (by decide +kernel)
  have hx' : Chars (ascii "\\u0078") :=
    (readString_split (by decide +kernel : readString (ascii "\"\\u0078\"") =
      some (ascii "\\u0078", []))).choose_spec.2.1
  have hone : Document OneSpelling MAX_JSON_DEPTH (answerWith (ascii "x")) := by
    obtain ⟨ps, ps', ms, ms', h, hkeys, htext, -⟩ := answerWith_members
      (S := fun v _ => Value OneSpelling 63 v) (fun v hv => .inl hv) hx hx' (by decide +kernel)
    refine ⟨[], _, [], nofun,
      .inr (.inr ⟨ps, ms, h.left (V := Value OneSpelling 63) fun hv => hv, ?_, htext⟩), nofun,
      (List.append_nil _).symm⟩
    rw [hkeys]
    unfold OneSpelling
    decide +kernel
  have hr : RespelledBody (answerWith (ascii "x")) (answerWith (ascii "\\u0078")) := by
    obtain ⟨ps, ps', ms, ms', h, -, htext, htext'⟩ := answerWith_members
      (S := Respelled 64) (fun v hv => .inl ⟨hv, rfl⟩) hx hx' (by decide +kernel)
    exact ⟨[], _, _, [], nofun, nofun, .inr (.inr ⟨ps, ps', ms, ms', h, htext, htext'⟩),
      (List.append_nil _).symm,
      (List.append_nil _).symm⟩
  have hanswer := (body_by_name_iff enoughMemory (answerWith (ascii "x"))).2 ⟨7, ascii "f"⟩
    (by decide +kernel)
  exact ⟨((body_by_name_iff enoughMemory _).1 _ (by decide +kernel)).1, hanswer.1.mpr hone,
    hanswer.2 hone _ hr⟩

end Json
